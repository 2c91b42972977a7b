import DensityGraph.Scalar.Basic
import DensityGraph.Special.Normal
import DensityGraph.Special.IncompleteGamma
import DensityGraph.Special.IncompleteBeta
/-!
# Kept numbers

A number is a double together with the precision it is kept in.  An operation
rounds its arguments to the wider precision, computes, and settles the result.
-/

namespace DensityGraph

structure Number where
  value : Float
  precision : Precision
deriving Inhabited

namespace Number

def literal (x : Float) : Number :=
  ⟨x, .literal⟩

def ofFloat (p : Precision) (x : Float) : Number :=
  ⟨p.round x, p⟩

def map (f : Float → Float) (x : Number) : Number :=
  ⟨x.precision.settle (f x.value), x.precision⟩

def map₂ (f : Float → Float → Float) (x y : Number) : Number :=
  let p := x.precision.join y.precision
  ⟨p.settle (f (p.round x.value) (p.round y.value)), p⟩

def map₃ (f : Float → Float → Float → Float) (x y z : Number) : Number :=
  let p := (x.precision.join y.precision).join z.precision
  ⟨p.settle (f (p.round x.value) (p.round y.value) (p.round z.value)), p⟩

def isNaN (x : Number) : Bool :=
  x.value.isNaN

def xlogyFloat (x y : Float) : Float :=
  if x == 0.0 then 0.0 else x * y.log

def xlog1pyFloat (x y : Float) : Float :=
  if x == 0.0 then 0.0 else x * Special.log1p y

def choose (c : Bool) (x y : Number) : Number :=
  let p := x.precision.join y.precision
  ⟨p.round (if c then x.value else y.value), p⟩

instance : Scalar Number where
  add := map₂ (· + ·)
  sub := map₂ (· - ·)
  mul := map₂ (· * ·)
  div := map₂ (· / ·)
  neg := map (- ·)
  ofNat n := literal (Float.ofNat n)
  constant := ofFloat
  undefined := literal (0.0 / 0.0)
  pi := literal Special.pi
  exp := map Float.exp
  log := map Float.log
  log1p := map Special.log1p
  expm1 := map Special.expm1
  sqrt := map Float.sqrt
  abs := map Float.abs
  tanh := map Float.tanh
  arctan := map Float.atan
  sigmoid := map Special.sigmoid
  softplus := map Special.softplus
  power := map₂ Float.pow
  xlogy := map₂ xlogyFloat
  xlog1py := map₂ xlog1pyFloat
  logGamma := map Special.logGamma
  logNormalCdf := map Special.logNormalCdf
  gammaCdf := map₂ Special.gammaCdf
  betaCdf := map₃ Special.betaCdf
  isFinite x := x.value.isFinite
  less x y := x.value < y.value
  equal x y := x.value == y.value
  select := choose

end Number
end DensityGraph
