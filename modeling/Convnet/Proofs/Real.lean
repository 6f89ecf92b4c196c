import Mathlib.Algebra.Order.Round
import Mathlib.Analysis.Complex.Trigonometric
import Mathlib.Analysis.Real.Sqrt
import Mathlib.Analysis.SpecialFunctions.Log.Basic
import Convnet.Proofs.Exact

namespace Convnet

noncomputable instance : Elementary ℝ where
  bottom := 0
  sqrt := Real.sqrt
  exp := Real.exp
  ln := Real.log
  tanh := Real.tanh
  eulerPow := Real.exp
  floor x := ⌊x⌋₊
  round := round
  text _ := ""
  fixed _ _ := ""

end Convnet
