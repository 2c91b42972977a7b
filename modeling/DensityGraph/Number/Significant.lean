import DensityGraph.Number.Shortest
/-!
# Rounding to a number of significant digits

The exact binary value is rounded to the nearest decimal with the wanted number of
digits; a tie goes to the even neighbour.
-/

namespace DensityGraph
namespace Significant

def roundQuotient (a b : Nat) : Nat :=
  let q := a / b
  let r := a % b
  if 2 * r < b then q
  else if b < 2 * r then q + 1
  else if q % 2 = 0 then q
  else q + 1

def ofDyadic (count : Nat) (d : Dyadic) : Shortest.Decimal :=
  let k := pointPosition d.numerator d.denominator - (count : Int)
  ⟨roundQuotient (d.numerator * Nat.pow 10 (-k).toNat)
    (d.denominator * Nat.pow 10 k.toNat), k⟩

/-- A finite double rounded to `count` digits, written as digits and exponent;
both zeros are written `0.0`. -/
def text (count : Nat) (x : Float) : String :=
  let d := Dyadic.ofFloat x
  if d.mantissa = 0 then "0.0"
  else
    let r := ofDyadic count d
    (if d.negative then "-" else "") ++ toString r.digits ++ "e" ++ toString r.exponent

end Significant
end DensityGraph
