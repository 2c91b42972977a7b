import DensityGraph.Value.Basic
import DensityGraph.Text.Layout
import DensityGraph.Text.Sequence
/-!
# The text of an array

Entries have at most eight digits behind the point and are padded to one width.
Arrays with very small, very large or widely spread entries use exponents.
-/

namespace DensityGraph
namespace ArrayText

/-- The digits in front of and behind the point of an absolute value, rounded to
at most eight places and without trailing zeros. -/
def parts (x : Float) : String × String :=
  let d := Dyadic.ofFloat x
  let full := (Shortest.text x.abs).toList
  let digits := full.dropWhile (· != '.')
  if digits.length ≤ 9 && !full.contains 'e' then
    (String.ofList (full.takeWhile (· != '.')),
      String.ofList (Shortest.dropTrailingZeros digits.tail))
  else
    let unit := Nat.pow 10 8
    let n := Significant.roundQuotient (d.numerator * unit) d.denominator
    let fraction := (toString (unit + n % unit)).toList.tail
    (toString (n / unit), String.ofList (Shortest.dropTrailingZeros fraction))

def padLeft (width : Nat) (s : String) : String :=
  String.ofList (List.replicate (width - s.length) ' ') ++ s

def padRight (width : Nat) (s : String) : String :=
  s ++ String.ofList (List.replicate (width - s.length) ' ')

def isNegative (x : Float) : Bool :=
  (Dyadic.ofFloat x).negative

def scientificParts (x : Float) : String × String × Int :=
  if x == 0.0 then ("0", "", 0)
  else
    let d := Shortest.ofDyadic (Dyadic.ofFloat x)
    let ds := (toString d.digits).toList
    let e : Int := ds.length + d.exponent - 1
    let r := Significant.ofDyadic 9 (Dyadic.ofFloat x)
    let rs := (toString r.digits).toList
    let (ds, e) := if ds.length > 9 then (rs, (rs.length : Int) + r.exponent - 1) else (ds, e)
    (String.ofList (ds.take 1), String.ofList (Shortest.dropTrailingZeros (ds.drop 1)), e)

def maximum (ns : List Nat) : Nat :=
  ns.foldl max 0

/-- The least absolute value that is written with an exponent: a power of ten with as
many digits as the precision holds, but at most eight. -/
def exponentLimit : Precision → Float
  | .half => 1e3
  | .single => 1e6
  | _ => 1e8

def floatTexts (precision : Precision) (xs : List Float) : List String :=
  let finite := xs.filter Float.isFinite
  let nonzero := (finite.filter (· != 0.0)).map Float.abs
  let large := nonzero.foldl (fun a b => if a < b then b else a) 0.0
  let small := nonzero.foldl (fun a b => if b < a then b else a) (1.0 / 0.0)
  let useExponents := !nonzero.isEmpty &&
    (exponentLimit precision ≤ large || small < 1e-4 || large / small > 1000.0)
  let special (x : Float) : String :=
    if x.isNaN then "nan" else if x < 0.0 then "-inf" else "inf"
  let texts : List (String × String) :=
    if useExponents then
      let places := maximum (finite.map fun x => (scientificParts x).2.1.length)
      let width := maximum (2 :: finite.map fun x =>
        (toString (scientificParts x).2.2.natAbs).length)
      xs.map fun x =>
        if x.isFinite then
          let (whole, fraction, e) := scientificParts x
          let digits := fraction.toList ++ Shortest.zeros (places - fraction.length)
          ((if isNegative x then "-" else "") ++ whole,
            "." ++ String.ofList digits ++ "e" ++
              String.ofList (Shortest.exponentDigits width e))
        else (special x, "")
    else
      xs.map fun x =>
        if x.isFinite then
          let (whole, fraction) := parts x
          ((if isNegative x then "-" else "") ++ whole, "." ++ fraction)
        else (special x, "")
  let right := maximum ((texts.zip xs).filterMap fun (t, x) =>
    if x.isFinite then some t.2.length else none)
  let left := maximum ((texts.zip xs).map fun (t, x) =>
    if x.isFinite then t.1.length else t.1.length - right)
  (texts.zip xs).map fun (t, x) =>
    if x.isFinite then padLeft left t.1 ++ padRight right t.2
    else padLeft (left + right) t.1

def padAll (ts : List String) : List String :=
  ts.map (padLeft (maximum (ts.map String.length)))

def texts : NumericArray → List String
  | .floats p t => floatTexts p t.toList
  | .integers _ t => padAll (t.toList.map toString)
  | .booleans t => padAll (t.toList.map fun b => if b then "True" else "False")

def lineWidth : Nat := 75

def threshold : Nat := 1000

def body (indent : Nat) (a : NumericArray) : String :=
  if a.shape.size = 0 then "[]"
  else
    let entries := (texts a).toArray
    Layout.nested ⟨", ", lineWidth - 1, indent, threshold < a.shape.size⟩
      (fun index => entries.getD (a.shape.offset index) "") 0 a.shape []

def hidesType (a : NumericArray) : Bool :=
  match a with
  | .floats .half _ => true
  | .floats .single _ => true
  | .integers .int32 _ => true
  | .integers .uint32 _ => true
  | .integers .uint64 _ => true
  | _ => false

def notes (a : NumericArray) : List String :=
  let hidesShape := (a.shape.size = 0 && a.shape != [0]) || threshold < a.shape.size
  (if hidesShape then ["shape=" ++ Sequence.ofShape a.shape] else []) ++
    (if hidesType a || a.shape.size = 0 then ["dtype=" ++ a.typeName] else [])

def lastLineLength (s : String) : Nat :=
  (s.toList.reverse.takeWhile (· != '\n')).length

def plainText (a : NumericArray) : String :=
  match notes a with
  | [] => "array(" ++ body 6 a ++ ")"
  | ns =>
      let front := "array(" ++ body 6 a ++ ","
      let note := String.intercalate ", " ns ++ ")"
      front ++ (if lineWidth < lastLineLength front + note.length + 1 then "\n      " else " ") ++
        note

def compiledText (a : NumericArray) : String :=
  let inner :=
    if a.shape.size = 0 then "[], shape=" ++ Sequence.ofShape a.shape else body 6 a
  "Array(" ++ inner ++ ", dtype=" ++ a.typeName ++ ")"

def text (compiled : Bool) (a : NumericArray) : String :=
  if compiled then compiledText a else plainText a

end ArrayText

end DensityGraph
