import DensityGraph.Number.Dyadic
/-!
# Shortest decimal text of a double

The text of a double has the fewest digits that read back as the same double; of
two such decimals the nearer one is taken.  The search goes through the decimal
grids with 1, 2, ... 17 digits and tests, in exact arithmetic, the two grid points
around the value.
-/

namespace DensityGraph
namespace Shortest

structure Decimal where
  digits : Nat
  exponent : Int
deriving Repr, DecidableEq, Inhabited

structure Interval where
  low : Nat
  middle : Nat
  high : Nat
  closed : Bool

def Interval.ofDyadic (d : Dyadic) : Interval :=
  { low := 4 * d.mantissa - (if d.narrowBelow then 1 else 2)
    middle := 4 * d.mantissa
    high := 4 * d.mantissa + 2
    closed := d.mantissa % 2 == 0 }

def Interval.holds (i : Interval) (a b n : Nat) : Bool :=
  if i.closed then i.low * b ≤ n * a && n * a ≤ i.high * b
  else i.low * b < n * a && n * a < i.high * b

/-- The grid point with step `10 ^ k` inside the interval that is nearest to the
value, if there is one.  `q` is the exponent of the interval's unit. -/
def onGrid? (i : Interval) (q k : Int) : Option Decimal :=
  let a := Nat.pow 10 k.toNat * Nat.pow 2 (-q).toNat
  let b := Nat.pow 10 (-k).toNat * Nat.pow 2 q.toNat
  let below := i.middle * b / a
  let above := below + 1
  let lowFits := below > 0 && i.holds a b below
  let highFits := i.holds a b above
  if lowFits && highFits then
    if i.middle * b - below * a ≤ above * a - i.middle * b then some ⟨below, k⟩
    else some ⟨above, k⟩
  else if lowFits then some ⟨below, k⟩
  else if highFits then some ⟨above, k⟩
  else none

def search (i : Interval) (q position : Int) : Nat → Option Decimal
  | 0 => none
  | fuel + 1 =>
      match onGrid? i q (position - (18 - (fuel + 1 : Nat) : Int)) with
      | some d => some d
      | none => search i q position fuel

def ofDyadic (d : Dyadic) : Decimal :=
  let position := pointPosition d.numerator d.denominator
  (search (Interval.ofDyadic d) (d.exponent - 2) position 17).getD
    ⟨d.numerator / d.denominator, 0⟩

/-!
# Notation

Numbers from `10 ^ -4` up to below `10 ^ 16` are written with a decimal point and
at least one digit on each side of it; all others in scientific notation with at
least two exponent digits.
-/

def dropTrailingZeros (ds : List Char) : List Char :=
  (ds.reverse.dropWhile (· == '0')).reverse

def zeros (n : Nat) : List Char :=
  List.replicate n '0'

def positional (ds : List Char) (position : Int) : List Char :=
  if position ≤ 0 then
    '0' :: '.' :: (zeros (-position).toNat ++ ds)
  else if ds.length ≤ position.toNat then
    ds ++ zeros (position.toNat - ds.length) ++ ['.', '0']
  else
    ds.take position.toNat ++ '.' :: ds.drop position.toNat

def exponentDigits (width : Nat) (e : Int) : List Char :=
  let ds := (toString e.natAbs).toList
  (if e < 0 then '-' else '+') :: (zeros (width - ds.length) ++ ds)

def exponentText (e : Int) : List Char :=
  exponentDigits 2 e

def scientific (ds : List Char) (position : Int) : List Char :=
  match ds with
  | [] => []
  | [d] => d :: 'e' :: exponentText (position - 1)
  | d :: rest => d :: '.' :: (rest ++ 'e' :: exponentText (position - 1))

def Decimal.render (d : Decimal) : List Char :=
  let all := (toString d.digits).toList
  let position : Int := all.length + d.exponent
  let ds := dropTrailingZeros all
  if -4 < position && position ≤ 16 then positional ds position
  else scientific ds position

def text (x : Float) : String :=
  if x.isNaN then "nan"
  else if x.isInf then (if x < 0.0 then "-inf" else "inf")
  else
    let d := Dyadic.ofFloat x
    let sign := if d.negative then "-" else ""
    if d.mantissa = 0 then sign ++ "0.0"
    else sign ++ String.ofList (ofDyadic d).render

end Shortest
end DensityGraph
