import Mathlib.Algebra.Order.Round
import Mathlib.Tactic.Linarith
import Convnet.Proofs.Exact

namespace Convnet

/-- A number of a field, an infinity, or no number. -/
inductive Extended (K : Type)
  | of (x : K)
  | infinite (negative : Bool)
  | nan

namespace Extended

variable {K : Type}

def number? : Extended K → Option K
  | of x => some x
  | infinite _ | nan => none

theorem mem_filterMap_number? {as : List (Extended K)} {x : K} : x ∈ as.filterMap number? ↔ of x ∈ as := by
  rw [List.mem_filterMap]
  constructor
  · rintro ⟨a, ha, hx⟩
    cases a with
    | of y => exact Option.some.inj hx ▸ ha
    | infinite | nan => cases hx
  · exact fun h => ⟨of x, h, rfl⟩

def elim {β : Type} (number : K → β) (infinity : Bool → β) (none : β) : Extended K → β
  | of x => number x
  | infinite s => infinity s
  | nan => none

def lift (f : K → K) (low high : Extended K) : Extended K → Extended K :=
  elim (fun x => of (f x)) (fun s => if s then low else high) nan

section Arithmetic

variable [Field K] [LinearOrder K]

def neg : Extended K → Extended K
  | of x => of (-x)
  | infinite s => infinite (!s)
  | nan => nan

def add : Extended K → Extended K → Extended K
  | of x, of y => of (x + y)
  | of _, infinite s | infinite s, of _ => infinite s
  | infinite s, infinite t => if s = t then infinite s else nan
  | nan, _ | _, nan => nan

def enlarge (x : K) (negative : Bool) : Extended K :=
  if x = 0 then nan else infinite (decide (x < 0) != negative)

def mul : Extended K → Extended K → Extended K
  | of x, of y => of (x * y)
  | of x, infinite s | infinite s, of x => enlarge x s
  | infinite s, infinite t => infinite (s != t)
  | nan, _ | _, nan => nan

/-- Zero has no sign here, so that one divided by it is infinity. -/
def div : Extended K → Extended K → Extended K
  | of x, of y => if y = 0 then enlarge x false else of (x / y)
  | of _, infinite _ => of 0
  | infinite s, of y => infinite (s != decide (y < 0))
  | infinite _, infinite _ => nan
  | nan, _ | _, nan => nan

def less : Extended K → Extended K → Bool
  | of x, of y => x < y
  | infinite s, of _ => s
  | of _, infinite s => !s
  | infinite s, infinite t => s && !t
  | nan, _ | _, nan => false

def equal : Extended K → Extended K → Bool
  | of x, of y => x = y
  | infinite s, infinite t => s == t
  | _, _ => false

def ofNat (n : Nat) : Extended K := of n

def ofDecimal (m : Nat) (s : Bool) (e : Nat) : Extended K := of (OfScientific.ofScientific m s e)

variable [FloorRing K]

def roundAway (x : K) : Int := if x < 0 then -round (-x) else round x

def saturate (n : Int) : Int := max (-2 ^ 63) (min n (2 ^ 63 - 1))

theorem saturate_of_between {n : Int} (hlow : -2 ^ 63 ≤ n) (hhigh : n < 2 ^ 63) : saturate n = n := by
  rw [saturate, min_eq_left (by omega), max_eq_right hlow]

variable [IsStrictOrderedRing K]

theorem round_within {x : K} {m n : Int} (hm : (m : K) ≤ x) (hn : x ≤ n) : m ≤ round x ∧ round x ≤ n := by
  rw [round_eq]
  constructor
  · exact Int.le_floor.mpr (by linarith)
  · refine Int.lt_add_one_iff.mp (Int.floor_lt.mpr ?_)
    push_cast
    linarith

theorem roundAway_within {x : K} {m n : Int} (hm : (m : K) ≤ x) (hn : x ≤ n) :
    m ≤ roundAway x ∧ roundAway x ≤ n := by
  rw [roundAway]
  split
  · have hlow : ((-n : Int) : K) ≤ -x := by simpa using hn
    have hhigh : -x ≤ ((-m : Int) : K) := by simpa using hm
    obtain ⟨h₁, h₂⟩ := round_within hlow hhigh
    exact ⟨le_neg.mpr h₂, neg_le.mpr h₁⟩
  · exact round_within hm hn

end Arithmetic

section Scalars

variable [Field K] [LinearOrder K] [FloorRing K] [Elementary K]

instance : Scalar (Extended K) where
  zero := of 0
  one := of 1
  add := add
  sub a b := add a (neg b)
  mul := mul
  div := div
  neg := neg
  beq := equal
  lt a b := less a b = true
  natCast := ofNat
  ofScientific := ofDecimal
  decLT a b := inferInstanceAs (Decidable (less a b = true))
  bottom := infinite true
  aboveBottom := less (infinite true)
  sqrt a := if less a (of 0) then nan else lift Elementary.sqrt nan (infinite false) a
  exp := lift Elementary.exp (of 0) (infinite false)
  ln a :=
    if less a (of 0) then nan
    else if equal a (of 0) then infinite true
    else lift Elementary.ln nan (infinite false) a
  tanh := lift Elementary.tanh (of (-1)) (of 1)
  eulerPow := lift Elementary.eulerPow (of 0) (infinite false)
  floor := elim (fun x => min ⌊x⌋.toNat (2 ^ 64 - 1)) (fun s => if s then 0 else 2 ^ 64 - 1) 0
  round := elim (fun x => saturate (roundAway x)) (fun s => if s then -2 ^ 63 else 2 ^ 63 - 1) 0
  isFinite := elim (fun _ => true) (fun _ => false) false
  text := elim Elementary.text (fun s => if s then "-inf" else "inf") "NaN"
  fixed n := elim (Elementary.fixed n) (fun s => if s then "-inf" else "inf") "NaN"

variable {x y : K} {a : Extended K}

theorem of_add : of x + of y = of (x + y) := rfl

theorem of_sub : of x - of y = of (x - y) := congrArg of (sub_eq_add_neg x y).symm

theorem of_mul : of x * of y = of (x * y) := rfl

theorem of_div (hy : y ≠ 0) : of x / of y = of (x / y) := if_neg hy

theorem of_lt : of x < of y ↔ x < y := decide_eq_true_iff

theorem zero_eq : (0 : Extended K) = of 0 := rfl

theorem natCast_eq (n : Nat) : (n : Extended K) = of (n : K) := rfl

theorem infinite_div (s : Bool) (hy : 0 < y) : (infinite s : Extended K) / of y = infinite s := by
  have h : (infinite s : Extended K) / of y = infinite (s != decide (y < 0)) := rfl
  rw [h, decide_eq_false hy.not_gt, Bool.bne_false]

theorem infinite_mul (s : Bool) (hy : 0 < y) : (infinite s : Extended K) * of y = infinite s := by
  have h : (infinite s : Extended K) * of y = enlarge y s := rfl
  rw [h, enlarge, if_neg hy.ne', decide_eq_false hy.not_gt, Bool.false_bne]

theorem isFinite_iff : Scalar.isFinite a = true ↔ ∃ x, a = of x := by
  cases a with
  | of x => exact iff_of_true rfl ⟨x, rfl⟩
  | infinite | nan => exact iff_of_false Bool.false_ne_true nofun

theorem filter_isFinite (as : List (Extended K)) : as.filter Scalar.isFinite = (as.filterMap number?).map of := by
  induction as with
  | nil => rfl
  | cons a as ih =>
      cases a with
      | of x => exact congrArg (of x :: ·) ih
      | infinite | nan => exact ih

theorem min_of (x y : K) : Scalar.min (of x) (of y) = of (min x y) := by
  rw [Scalar.min, min_comm, min_def_lt]
  simp only [of_lt, apply_ite of]

theorem max_of (x y : K) : Scalar.max (of x) (of y) = of (max x y) := by
  rw [Scalar.max, max_def_lt]
  simp only [of_lt, apply_ite of]

theorem abs_of [IsStrictOrderedRing K] (x : K) : Scalar.abs (of x) = of |x| := by
  rw [Scalar.abs, zero_eq]
  simp only [of_lt]
  split
  case isTrue h => exact congrArg of (abs_of_neg h).symm
  case isFalse h => exact congrArg of (abs_of_nonneg (not_lt.mp h)).symm

theorem round_between [IsStrictOrderedRing K] {m n : Int} (hm : (m : K) ≤ x) (hn : x ≤ n) (hlow : -2 ^ 63 ≤ m)
    (hhigh : n < 2 ^ 63) : m ≤ Scalar.round (of x) ∧ Scalar.round (of x) ≤ n := by
  obtain ⟨h₁, h₂⟩ := roundAway_within hm hn
  have hround : Scalar.round (of x) = roundAway x :=
    saturate_of_between (hlow.trans h₁) (h₂.trans_lt hhigh)
  exact hround ▸ ⟨h₁, h₂⟩

end Scalars

end Extended

end Convnet
