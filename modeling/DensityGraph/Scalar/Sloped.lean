import DensityGraph.Scalar.Number
/-!
# Numbers with slopes

A number together with its derivatives in the entries of a free state.  Entries
that a number does not depend on have no slope at all, which differs from a slope
of zero: a zero met by an infinite or undefined factor becomes undefined.
-/

namespace DensityGraph

abbrev Slopes := List (Nat × Number)

namespace Slopes

def scale (c : Number) (s : Slopes) : Slopes :=
  s.map fun (i, x) => (i, x * c)

def add : Slopes → Slopes → Slopes
  | [], t => t
  | s, [] => s
  | (i, x) :: s, (j, y) :: t =>
      if i < j then (i, x) :: add s ((j, y) :: t)
      else if j < i then (j, y) :: add ((i, x) :: s) t
      else (i, x + y) :: add s t
termination_by s t => s.length + t.length

end Slopes

structure Sloped where
  value : Number
  slopes : Slopes
deriving Inhabited

namespace Sloped

def ofNumber (x : Number) : Sloped :=
  ⟨x, []⟩

def entry (i : Nat) (x : Number) : Sloped :=
  ⟨x, [(i, ⟨1.0, x.precision⟩)]⟩

def chain (value slope : Number) (x : Sloped) : Sloped :=
  ⟨value, x.slopes.scale slope⟩

def chain₂ (value slopeX slopeY : Number) (x y : Sloped) : Sloped :=
  ⟨value, (x.slopes.scale slopeX).add (y.slopes.scale slopeY)⟩

/-!
# Derivatives of the functions
-/

def one : Number := .literal 1.0

def zero : Number := .literal 0.0

def signSlope (x : Number) : Number :=
  x.map fun v => if 0.0 ≤ v then 1.0 else -1.0

/-- The derivative of `x ^ y` in `x`; an exponent of zero has none. -/
def powerBaseSlope (x y : Number) : Number :=
  if y.value == 0.0 then zero else y * Scalar.power x (y - one)

/-- The derivative of `x ^ y` in `y`; the logarithm of a zero base counts as zero. -/
def powerExponentSlope (x y : Number) : Number :=
  if x.value == 0.0 then zero else Scalar.log x * Scalar.power x y

def divide (x y : Sloped) : Sloped :=
  chain₂ (x.value / y.value) (one / y.value) (-x.value / (y.value * y.value)) x y

def mapSquareRoot (x : Sloped) : Sloped :=
  let root := Scalar.sqrt x.value
  chain root (Number.literal 0.5 / root) x

def mapTanh (x : Sloped) : Sloped :=
  let t := Scalar.tanh x.value
  chain t ((one + t) * (one - t)) x

def mapSigmoid (x : Sloped) : Sloped :=
  let s := Scalar.sigmoid x.value
  chain s (s * (one - s)) x

def mapSoftplus (x : Sloped) : Sloped :=
  let y := Scalar.softplus x.value
  chain y (if y.value.isInf then one else Scalar.exp (x.value - y)) x

def mapGammaCdf (a x : Sloped) : Sloped :=
  chain₂ (Scalar.gammaCdf a.value x.value)
    (Number.map₂ Special.gammaCdfShapeSlope a.value x.value)
    (Number.map₂ Special.gammaDensity a.value x.value) a x

def mapBetaCdf (a b x : Sloped) : Sloped :=
  let slope (f : Float → Float → Float → Float) := Number.map₃ f a.value b.value x.value
  ⟨Scalar.betaCdf a.value b.value x.value,
    ((a.slopes.scale (slope fun a b x => (Special.betaCdfShapeSlopes a b x).1)).add
      (b.slopes.scale (slope fun a b x => (Special.betaCdfShapeSlopes a b x).2))).add
      (x.slopes.scale (slope Special.betaDensity))⟩

/-- What is left of the slopes of a scalar that was not chosen: nothing, unless they
are infinite or undefined. -/
def discard (s : Slopes) : Slopes :=
  (s.filter fun p => !p.2.value.isFinite).map fun p => (p.1, ⟨0.0 / 0.0, p.2.precision⟩)

def choose (c : Bool) (x y : Sloped) : Sloped :=
  ⟨Scalar.select c x.value y.value,
    if c then x.slopes.add (discard y.slopes) else (discard x.slopes).add y.slopes⟩

instance : Scalar Sloped where
  add x y := ⟨x.value + y.value, x.slopes.add y.slopes⟩
  sub x y := ⟨x.value - y.value, x.slopes.add (y.slopes.scale (.literal (-1.0)))⟩
  mul x y := chain₂ (x.value * y.value) y.value x.value x y
  div := divide
  neg x := chain (-x.value) (.literal (-1.0)) x
  ofNat n := ofNumber (Scalar.ofNat n)
  constant p x := ofNumber (Scalar.constant p x)
  undefined := ofNumber Scalar.undefined
  pi := ofNumber Scalar.pi
  exp x := chain (Scalar.exp x.value) (Scalar.exp x.value) x
  log x := chain (Scalar.log x.value) (one / x.value) x
  log1p x := chain (Scalar.log1p x.value) (one / (one + x.value)) x
  expm1 x := chain (Scalar.expm1 x.value) (Scalar.expm1 x.value + one) x
  sqrt := mapSquareRoot
  abs x := chain (Scalar.abs x.value) (signSlope x.value) x
  tanh := mapTanh
  arctan x := chain (Scalar.arctan x.value) (one / (one + x.value * x.value)) x
  sigmoid := mapSigmoid
  softplus := mapSoftplus
  power x y := chain₂ (Scalar.power x.value y.value) (powerBaseSlope x.value y.value)
    (powerExponentSlope x.value y.value) x y
  xlogy x y := chain₂ (Scalar.xlogy x.value y.value) (Scalar.log y.value)
    (x.value / y.value) x y
  xlog1py x y := chain₂ (Scalar.xlog1py x.value y.value) (Scalar.log1p y.value)
    (x.value / (one + y.value)) x y
  logGamma x := chain (Scalar.logGamma x.value) (x.value.map Special.digamma) x
  logNormalCdf x := chain (Scalar.logNormalCdf x.value)
    (x.value.map Special.logNormalCdfSlope) x
  gammaCdf := mapGammaCdf
  betaCdf := mapBetaCdf
  isFinite x := Scalar.isFinite x.value
  less x y := Scalar.less x.value y.value
  equal x y := Scalar.equal x.value y.value
  select := choose

end Sloped
end DensityGraph
