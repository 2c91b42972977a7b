import DensityGraph.Number.Significant
/-!
# Precisions

Numbers are computed as doubles and rounded to the precision they are kept in.
A literal has no precision of its own: it takes that of the number it meets.
-/

namespace DensityGraph

inductive Precision where
  | literal
  | half
  | single
  | double
deriving Repr, DecidableEq, Inhabited

namespace Precision

def rank : Precision → Nat
  | literal => 0
  | half => 1
  | single => 2
  | double => 3

def join (p q : Precision) : Precision :=
  if p.rank < q.rank then q else p

theorem join_self (p : Precision) : join p p = p := by
  cases p <;> rfl

theorem join_comm (p q : Precision) : join p q = join q p := by
  cases p <;> cases q <;> rfl

theorem join_assoc (p q r : Precision) : join (join p q) r = join p (join q r) := by
  cases p <;> cases q <;> cases r <;> rfl

theorem literal_join (p : Precision) : join literal p = p := by
  cases p <;> rfl

/-!
# Rounding
-/

/-- The half-precision number nearest to a finite double, ties to even: eleven
bits, the smallest unit being `2 ^ -24`. -/
def roundHalf (x : Float) : Float :=
  if x.isNaN || x.isInf || x == 0.0 then x
  else
    let d := Dyadic.ofFloat x
    let top : Int := d.mantissa.log2 + d.exponent
    let unit : Int := max (top - 10) (-24)
    let shift := d.exponent - unit
    let n := Significant.roundQuotient (d.mantissa * Nat.pow 2 shift.toNat)
      (Nat.pow 2 (-shift).toNat)
    let y := Float.scaleB (Float.ofNat n) unit
    let magnitude := if 65520.0 ≤ y then 1.0 / 0.0 else y
    if d.negative then -magnitude else magnitude

def round (p : Precision) (x : Float) : Float :=
  match p with
  | literal => x
  | half => roundHalf x
  | single => x.toFloat32.toFloat
  | double => x

/-- The smallest normal number; results below it count as zero. -/
def smallestNormal : Precision → Float
  | literal => 0.0
  | half => 0.0
  | single => 1.1754943508222875e-38
  | double => 2.2250738585072014e-308

/-- The result of an operation as it is kept; a zero keeps its sign. -/
def settle (p : Precision) (x : Float) : Float :=
  let y := p.round x
  if y.abs < p.smallestNormal then y * 0.0 else y

end Precision
end DensityGraph
