import DensityGraph.Text.Character
/-!
# Numerals in text

A numeral may stand between blanks, may have a sign, digits of any script and
single underscores between digits.  Fractions have an optional point and an
optional exponent, or are one of the words for infinity and NaN in any case.
-/

namespace DensityGraph
namespace Numeral

/-!
# Characters of a numeral
-/

def trim (cs : List Char) : List Char :=
  ((cs.dropWhile Character.isBlank).reverse.dropWhile Character.isBlank).reverse

def normalize (cs : List Char) : List Char :=
  cs.map fun c =>
    match Character.digitValue? c with
    | some v => Char.ofNat (48 + v)
    | none => c

def splitSign : List Char → Bool × List Char
  | '-' :: cs => (true, cs)
  | '+' :: cs => (false, cs)
  | cs => (false, cs)

/-- Digits with single underscores between them; `afterDigit` says whether a digit
stands in front. -/
def dropUnderscores (afterDigit : Bool) : List Char → Option (List Char)
  | [] => some []
  | '_' :: cs =>
      match cs with
      | d :: _ =>
          if afterDigit && d.isDigit then dropUnderscores false cs else none
      | [] => none
  | c :: cs => (dropUnderscores c.isDigit cs).map (c :: ·)

def digitsValue? (cs : List Char) : Option Nat :=
  if cs.all Char.isDigit then
    some (cs.foldl (fun n c => 10 * n + (c.toNat - 48)) 0)
  else none

/-!
# Whole numbers
-/

def int? (s : String) : Option Int :=
  let (negative, cs) := splitSign (normalize (trim s.toList))
  match dropUnderscores false cs with
  | some (d :: ds) =>
      (digitsValue? (d :: ds)).map fun n => if negative then -(n : Int) else (n : Int)
  | _ => none

/-!
# Fractions

A decimal is rounded to the nearest double.  Those far outside the range of doubles are
settled by their magnitude.
-/

def nearest (digits : Nat) (exponent : Int) : Float :=
  if digits = 0 then 0.0
  else
    let magnitude := exponent + (Nat.toDigits 10 digits).length
    if magnitude > 400 then 1.0 / 0.0
    else if magnitude < -400 then 0.0
    else Float.ofScientific digits (exponent < 0) exponent.natAbs

def spanDigits (cs : List Char) : List Char × List Char :=
  (cs.takeWhile Char.isDigit, cs.dropWhile Char.isDigit)

def exponent? : List Char → Option Int
  | [] => some 0
  | c :: cs =>
      if c = 'e' || c = 'E' then
        let (negative, ds) := splitSign cs
        match ds with
        | [] => none
        | _ => (digitsValue? ds).map fun n => if negative then -(n : Int) else (n : Int)
      else none

def unsigned? (cs : List Char) : Option Float :=
  let (whole, rest) := spanDigits cs
  let (fraction, tail) :=
    match rest with
    | '.' :: r => spanDigits r
    | r => ([], r)
  if whole.isEmpty && fraction.isEmpty then none
  else
    match digitsValue? (whole ++ fraction), exponent? tail with
    | some n, some e => some (nearest n (e - fraction.length))
    | _, _ => none

def word? (cs : List Char) : Option Float :=
  match String.ofList (cs.map Char.toLower) with
  | "inf" => some (1.0 / 0.0)
  | "infinity" => some (1.0 / 0.0)
  | "nan" => some (0.0 / 0.0)
  | _ => none

def float? (s : String) : Option Float :=
  let (negative, cs) := splitSign (normalize (trim s.toList))
  let magnitude? :=
    match word? cs with
    | some x => some x
    | none => (dropUnderscores false cs).bind unsigned?
  magnitude?.map fun x => if negative then -x else x

end Numeral
end DensityGraph
