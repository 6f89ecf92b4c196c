import Convnet.Decimal.Layout
import Convnet.Scalar

namespace Convnet

def eulerNumber : Float := 2.718281828459045

instance : Scalar Float where
  zero := 0.0
  one := 1.0
  natCast n := Float.ofNat n
  decLT := inferInstance
  bottom := -1.0 / 0.0
  aboveBottom x := -1.0 / 0.0 < x
  sqrt := Float.sqrt
  exp := Float.exp
  ln := Float.log
  tanh := Float.tanh
  eulerPow x := Float.pow eulerNumber x
  floor x := (Binary64.ofFloat x).floorNat
  round x := (Binary64.ofFloat x).roundAway
  isFinite x := x.isFinite
  text := Decimal.plainText
  fixed := Decimal.fixedText

end Convnet
