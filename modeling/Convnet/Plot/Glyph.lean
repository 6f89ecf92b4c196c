namespace Convnet.Glyph

def width : Nat := 5

def height : Nat := 7

def advance : Nat := width + 1

def table : List (Char × List Nat) := [
  -- rows from the top; the highest of five bits is the leftmost cell
  ('A', [0x0E, 0x11, 0x11, 0x1F, 0x11, 0x11, 0x11]),
  ('B', [0x1E, 0x11, 0x11, 0x1E, 0x11, 0x11, 0x1E]),
  ('C', [0x0E, 0x11, 0x10, 0x10, 0x10, 0x11, 0x0E]),
  ('D', [0x1E, 0x11, 0x11, 0x11, 0x11, 0x11, 0x1E]),
  ('E', [0x1F, 0x10, 0x10, 0x1E, 0x10, 0x10, 0x1F]),
  ('F', [0x1F, 0x10, 0x10, 0x1E, 0x10, 0x10, 0x10]),
  ('G', [0x0E, 0x11, 0x10, 0x17, 0x11, 0x11, 0x0F]),
  ('H', [0x11, 0x11, 0x11, 0x1F, 0x11, 0x11, 0x11]),
  ('I', [0x0E, 0x04, 0x04, 0x04, 0x04, 0x04, 0x0E]),
  ('J', [0x07, 0x02, 0x02, 0x02, 0x02, 0x12, 0x0C]),
  ('K', [0x11, 0x12, 0x14, 0x18, 0x14, 0x12, 0x11]),
  ('L', [0x10, 0x10, 0x10, 0x10, 0x10, 0x10, 0x1F]),
  ('M', [0x11, 0x1B, 0x15, 0x15, 0x11, 0x11, 0x11]),
  ('N', [0x11, 0x11, 0x19, 0x15, 0x13, 0x11, 0x11]),
  ('O', [0x0E, 0x11, 0x11, 0x11, 0x11, 0x11, 0x0E]),
  ('P', [0x1E, 0x11, 0x11, 0x1E, 0x10, 0x10, 0x10]),
  ('Q', [0x0E, 0x11, 0x11, 0x11, 0x15, 0x12, 0x0D]),
  ('R', [0x1E, 0x11, 0x11, 0x1E, 0x14, 0x12, 0x11]),
  ('S', [0x0F, 0x10, 0x10, 0x0E, 0x01, 0x01, 0x1E]),
  ('T', [0x1F, 0x04, 0x04, 0x04, 0x04, 0x04, 0x04]),
  ('U', [0x11, 0x11, 0x11, 0x11, 0x11, 0x11, 0x0E]),
  ('V', [0x11, 0x11, 0x11, 0x11, 0x11, 0x0A, 0x04]),
  ('W', [0x11, 0x11, 0x11, 0x15, 0x15, 0x15, 0x0A]),
  ('X', [0x11, 0x11, 0x0A, 0x04, 0x0A, 0x11, 0x11]),
  ('Y', [0x11, 0x11, 0x11, 0x0A, 0x04, 0x04, 0x04]),
  ('Z', [0x1F, 0x01, 0x02, 0x04, 0x08, 0x10, 0x1F]),
  ('0', [0x0E, 0x11, 0x13, 0x15, 0x19, 0x11, 0x0E]),
  ('1', [0x04, 0x0C, 0x04, 0x04, 0x04, 0x04, 0x0E]),
  ('2', [0x0E, 0x11, 0x01, 0x02, 0x04, 0x08, 0x1F]),
  ('3', [0x1F, 0x02, 0x04, 0x02, 0x01, 0x11, 0x0E]),
  ('4', [0x02, 0x06, 0x0A, 0x12, 0x1F, 0x02, 0x02]),
  ('5', [0x1F, 0x10, 0x1E, 0x01, 0x01, 0x11, 0x0E]),
  ('6', [0x06, 0x08, 0x10, 0x1E, 0x11, 0x11, 0x0E]),
  ('7', [0x1F, 0x01, 0x02, 0x04, 0x08, 0x08, 0x08]),
  ('8', [0x0E, 0x11, 0x11, 0x0E, 0x11, 0x11, 0x0E]),
  ('9', [0x0E, 0x11, 0x11, 0x0F, 0x01, 0x02, 0x0C]),
  (' ', [0x00, 0x00, 0x00, 0x00, 0x00, 0x00, 0x00]),
  ('.', [0x00, 0x00, 0x00, 0x00, 0x00, 0x0C, 0x0C]),
  (',', [0x00, 0x00, 0x00, 0x00, 0x0C, 0x04, 0x08]),
  ('-', [0x00, 0x00, 0x00, 0x1F, 0x00, 0x00, 0x00]),
  ('+', [0x00, 0x04, 0x04, 0x1F, 0x04, 0x04, 0x00]),
  ('_', [0x00, 0x00, 0x00, 0x00, 0x00, 0x00, 0x1F]),
  (':', [0x00, 0x0C, 0x0C, 0x00, 0x0C, 0x0C, 0x00]),
  ('(', [0x02, 0x04, 0x08, 0x08, 0x08, 0x04, 0x02]),
  (')', [0x08, 0x04, 0x02, 0x02, 0x02, 0x04, 0x08]),
  ('%', [0x18, 0x19, 0x02, 0x04, 0x08, 0x13, 0x03]),
  ('/', [0x00, 0x01, 0x02, 0x04, 0x08, 0x10, 0x00])]

def unknown : List Nat := [0x0E, 0x11, 0x01, 0x02, 0x04, 0x00, 0x04]

def rows (c : Char) : List Nat := (table.lookup c.toUpper).getD unknown

def columns (bits : Nat) : List Nat :=
  (List.range width).filter fun column => bits.testBit (width - 1 - column)

def cells (c : Char) : List (Nat × Nat) :=
  (rows c).zipIdx.flatMap fun (bits, row) => (columns bits).map fun column => (column, row)

/-- The inked cells of a text, by column and row; the column runs on through all glyphs. -/
def textCells (text : String) : List (Nat × Nat) :=
  text.toList.zipIdx.flatMap fun (c, i) =>
    (cells c).map fun (column, row) => (i * advance + column, row)

def textWidth (text : String) (scale : Nat) : Nat :=
  if text.isEmpty then 0 else (text.length * advance - 1) * scale

end Convnet.Glyph
