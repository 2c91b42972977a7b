/-!
# Doubles as dyadic numbers

A finite double is an integer mantissa times a power of two.  All decimal work
(shortest text, rounding to a number of digits) is done on this form in exact
natural-number arithmetic.
-/

namespace DensityGraph

structure Dyadic where
  negative : Bool
  mantissa : Nat
  exponent : Int
deriving Repr, DecidableEq, Inhabited

namespace Dyadic

/-- The sign, mantissa and exponent of a double; NaN and the infinities are read
as if they were finite, callers test for them first. -/
def ofFloat (x : Float) : Dyadic :=
  let bits : Nat := x.toBits.toNat
  let biased : Nat := bits / Nat.pow 2 52 % Nat.pow 2 11
  let fraction : Nat := bits % Nat.pow 2 52
  { negative := bits / Nat.pow 2 63 == 1
    mantissa := if biased = 0 then fraction else Nat.pow 2 52 + fraction
    exponent := if biased = 0 then -1074 else (biased : Int) - 1075 }

/-- Whether the next smaller double is only half as far away as the next larger
one: the mantissa is the smallest of its exponent. -/
def narrowBelow (d : Dyadic) : Bool :=
  d.mantissa == Nat.pow 2 52 && d.exponent > -1074

def numerator (d : Dyadic) : Nat :=
  d.mantissa * Nat.pow 2 d.exponent.toNat

def denominator (d : Dyadic) : Nat :=
  Nat.pow 2 (-d.exponent).toNat

def isWhole (x : Float) : Bool :=
  x.isInf || (x.isFinite && (ofFloat x).numerator % (ofFloat x).denominator == 0)

end Dyadic

/-!
# Decimal magnitude
-/

def reachesPowerOfTen (a b : Nat) (e : Int) : Bool :=
  b * Nat.pow 10 e.toNat ≤ a * Nat.pow 10 (-e).toNat

/-- Climbs or descends from a first guess to the number of digits before the
decimal point, with at most `fuel` steps. -/
def adjustPointPosition (a b : Nat) : Nat → Int → Int
  | 0, p => p
  | fuel + 1, p =>
      if reachesPowerOfTen a b p then adjustPointPosition a b fuel (p + 1)
      else if reachesPowerOfTen a b (p - 1) then p
      else adjustPointPosition a b fuel (p - 1)

/-- For a positive quotient `a / b` the position `p` of the decimal point, that is
`10 ^ (p - 1) ≤ a / b < 10 ^ p`. -/
def pointPosition (a b : Nat) : Int :=
  let guess : Int := ((a.log2 : Int) - (b.log2 : Int)) * 30103 / 100000
  adjustPointPosition a b 8 guess

end DensityGraph
