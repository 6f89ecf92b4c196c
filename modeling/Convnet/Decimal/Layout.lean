import Convnet.Decimal.Digits

namespace Convnet.Decimal

def digits (n : Nat) : String := toString n

def natOfDigits (cs : List Char) : Nat := cs.foldl (fun n c => n * 10 + (c.toNat - 48)) 0

def zeros (n : Nat) : String := String.ofList (List.replicate n '0')

def signed (negative : Bool) (s : String) : String := if negative then "-" ++ s else s

def withPoint (s : String) (n : Nat) : String :=
  String.ofList (s.toList.take n) ++ "." ++ String.ofList (s.toList.drop n)

def positional (d : Nat) (e : Int) : String :=
  let s := digits d
  let k := (s.length : Int) + e
  if d = 0 then "0"
  else if 0 ≤ e then s ++ zeros e.toNat
  else if 0 < k then withPoint s k.toNat
  else "0." ++ zeros (-k).toNat ++ s

/-- `d * 10 ^ e` as data files hold it: positional while the point stands among or near the first
sixteen digits, a whole number with `.0`, and otherwise one digit before the point and an exponent. -/
def dataText (d : Nat) (e : Int) : String :=
  let s := digits d
  let k := (s.length : Int) + e
  if d = 0 then "0.0"
  else if 0 ≤ e ∧ k ≤ 16 then s ++ zeros e.toNat ++ ".0"
  else if 0 < k ∧ k ≤ 16 then withPoint s k.toNat
  else if -5 < k ∧ k ≤ 0 then "0." ++ zeros (-k).toNat ++ s
  else
    let exponent := k - 1
    let mark := if exponent < 0 then "e-" else "e+"
    (if s.length = 1 then s else withPoint s 1) ++ mark ++ digits exponent.natAbs

def plainText (x : Float) : String :=
  match Binary64.ofFloat x with
  | .nan => "NaN"
  | .infinite negative => signed negative "inf"
  | .finite negative 0 _ => signed negative "0"
  | .finite negative m q =>
    let (d, e) := shortest .away m q
    signed negative (positional d e)

def scientific (x : Float) : String :=
  match Binary64.ofFloat x with
  | .nan => "NaN"
  | .infinite negative => signed negative "inf"
  | .finite _ 0 _ => "0.000000000e0"
  | .finite negative m q =>
    let (d, k) := significant 9 m q
    signed negative (withPoint (digits d) 1 ++ "e" ++ signed (k < 0) (digits k.natAbs))

def fixedText (places : Nat) (x : Float) : String :=
  match Binary64.ofFloat x with
  | .nan => "NaN"
  | .infinite negative => signed negative "inf"
  | .finite negative m q =>
    let s := digits (fixed places m q)
    let s := zeros (places + 1 - s.length) ++ s
    signed negative (if places = 0 then s else withPoint s (s.length - places))

end Convnet.Decimal
