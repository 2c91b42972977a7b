/-!
# First-order jets

A number together with its derivatives in two parameters.  Series and continued
fractions evaluated on jets yield a function and its slopes in one pass.
-/

namespace DensityGraph

structure Jet where
  value : Float
  first : Float
  second : Float
deriving Inhabited

namespace Jet

def constant (x : Float) : Jet :=
  ⟨x, 0.0, 0.0⟩

def firstParameter (x : Float) : Jet :=
  ⟨x, 1.0, 0.0⟩

def secondParameter (x : Float) : Jet :=
  ⟨x, 0.0, 1.0⟩

def chain (value slope : Float) (x : Jet) : Jet :=
  ⟨value, slope * x.first, slope * x.second⟩

def add (x y : Jet) : Jet :=
  ⟨x.value + y.value, x.first + y.first, x.second + y.second⟩

def sub (x y : Jet) : Jet :=
  ⟨x.value - y.value, x.first - y.first, x.second - y.second⟩

def mul (x y : Jet) : Jet :=
  ⟨x.value * y.value, x.first * y.value + x.value * y.first,
    x.second * y.value + x.value * y.second⟩

def div (x y : Jet) : Jet :=
  let q := x.value / y.value
  ⟨q, (x.first - q * y.first) / y.value, (x.second - q * y.second) / y.value⟩

def exp (x : Jet) : Jet :=
  let e := x.value.exp
  x.chain e e

instance : Add Jet := ⟨add⟩
instance : Sub Jet := ⟨sub⟩
instance : Mul Jet := ⟨mul⟩
instance : Div Jet := ⟨div⟩

def scale (c : Float) (x : Jet) : Jet :=
  ⟨c * x.value, c * x.first, c * x.second⟩

end Jet
end DensityGraph
