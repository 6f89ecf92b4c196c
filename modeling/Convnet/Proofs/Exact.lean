import Mathlib.Algebra.DualNumber
import Mathlib.Algebra.Order.Field.Basic
import Mathlib.Data.Rat.Cast.Defs
import Convnet.Scalar

namespace Convnet

/-- A commutative ring to compute in, whose equal numbers are equal. -/
class ExactScalar (R : Type) extends CommRing R, Scalar R where
  eq_of_beq : ∀ {a b : R}, (a == b) = true → a = b

/-- What an ordered field does not determine of a scalar. -/
class Elementary (K : Type) where
  bottom : K
  sqrt : K → K
  exp : K → K
  ln : K → K
  tanh : K → K
  eulerPow : K → K
  floor : K → Nat
  round : K → Int
  text : K → String
  fixed : Nat → K → String

namespace Dual

open TrivSqZeroExt

variable {K : Type} [Field K]

def of (x t : K) : DualNumber K := (x, t)

def value : DualNumber K →+ K where
  toFun := fst
  map_zero' := rfl
  map_add' _ _ := rfl

def rate : DualNumber K →+ K where
  toFun := snd
  map_zero' := rfl
  map_add' _ _ := rfl

@[simp] theorem value_of (x t : K) : value (of x t) = x := rfl

@[simp] theorem rate_of (x t : K) : rate (of x t) = t := rfl

def const (x : K) : DualNumber K := of x 0

@[simp] theorem value_const (x : K) : value (const x) = x := rfl

@[simp] theorem rate_const (x : K) : rate (const x) = 0 := rfl

theorem value_mul (a b : DualNumber K) : value (a * b) = value a * value b := rfl

theorem rate_mul (a b : DualNumber K) : rate (a * b) = value a * rate b + rate a * value b := rfl

theorem rate_natCast (n : Nat) : rate (n : DualNumber K) = 0 := rfl

theorem ext {a b : DualNumber K} (hv : value a = value b) (hr : rate a = rate b) : a = b :=
  TrivSqZeroExt.ext hv hr

def lift (f f' : K → K) (x : DualNumber K) : DualNumber K := of (f (value x)) (f' (value x) * rate x)

end Dual

variable {K : Type} [Field K] [LinearOrder K] [Elementary K]

instance : ExactScalar K where
  beq a b := decide (a = b)
  ofScientific := OfScientific.ofScientific
  decLT := inferInstance
  bottom := Elementary.bottom
  aboveBottom _ := true
  sqrt := Elementary.sqrt
  exp := Elementary.exp
  ln := Elementary.ln
  tanh := Elementary.tanh
  eulerPow := Elementary.eulerPow
  floor := Elementary.floor
  round := Elementary.round
  isFinite _ := true
  text := Elementary.text
  fixed := Elementary.fixed
  eq_of_beq h := of_decide_eq_true h

open Convnet.Dual in
instance : ExactScalar (DualNumber K) where
  div a b := of (value a / value b) ((rate a * value b - value a * rate b) / (value b * value b))
  beq a b := decide (value a = value b) && decide (rate a = rate b)
  lt a b := value a < value b
  ofScientific m s e := const (OfScientific.ofScientific m s e)
  decLT a b := inferInstanceAs (Decidable (value a < value b))
  bottom := const Elementary.bottom
  aboveBottom _ := true
  sqrt := lift Elementary.sqrt fun x => 1 / (2 * Elementary.sqrt x)
  exp := lift Elementary.exp Elementary.exp
  ln := lift Elementary.ln fun x => 1 / x
  tanh := lift Elementary.tanh fun x => 1 - Elementary.tanh x * Elementary.tanh x
  eulerPow := lift Elementary.eulerPow Elementary.eulerPow
  floor a := Elementary.floor (value a)
  round a := Elementary.round (value a)
  isFinite _ := true
  text a := Elementary.text (value a)
  fixed n a := Elementary.fixed n (value a)
  eq_of_beq h := by
    simp only [Bool.and_eq_true, decide_eq_true_eq] at h
    exact Dual.ext h.1 h.2

namespace Dual

theorem value_div (a b : DualNumber K) : value (a / b) = value a / value b := rfl

theorem rate_div {a b : DualNumber K} (h : rate b = 0) : rate (a / b) = rate a / value b := by
  have hquot : rate (a / b) = (rate a * value b - value a * rate b) / (value b * value b) := rfl
  rw [hquot, h, mul_zero, sub_zero]
  rcases eq_or_ne (value b) 0 with hb | hb
  · rw [hb, mul_zero, zero_div, div_zero]
  · exact mul_div_mul_right _ _ hb

end Dual
end Convnet
