import DensityGraph.Value.Basic
import DensityGraph.Value.Refusal
import DensityGraph.Text.Numeral
import DensityGraph.Number.Shortest
/-!
# Values as arrays

Nested sequences with even rows are arrays.  A caller either asks for floating-point
entries, or takes the entries as they are and looks at what they have in common.
-/

namespace DensityGraph
namespace Value

/-!
# Entries
-/

def entriesOf : NumericArray → List Value
  | .floats _ t => t.toList.map float
  | .integers _ t => t.toList.map int
  | .booleans t => t.toList.map bool

def stackShapes : List (Shape × List Value) → Except Refusal (Shape × List Value)
  | [] => .ok ([0], [])
  | (s, xs) :: rest =>
      if rest.all fun r => r.1 == s then
        .ok ((rest.length + 1) :: s, xs ++ rest.flatMap fun r => r.2)
      else .error .value

mutual

def nesting : Value → Except Refusal (Shape × List Value)
  | list xs => do stackShapes (← nestings xs)
  | tuple xs => do stackShapes (← nestings xs)
  | array _ a => .ok (a.shape, entriesOf a)
  | v => .ok ([], [v])

def nestings : List Value → Except Refusal (List (Shape × List Value))
  | [] => .ok []
  | x :: xs => do return (← nesting x) :: (← nestings xs)

end

def shape (v : Value) : Except Refusal Shape :=
  (nesting v).map Prod.fst

/-!
# Floating-point entries
-/

def floatLimit : Nat :=
  Nat.pow 2 1024 - Nat.pow 2 970

def toFloat : Value → Except Refusal Float
  | none => .ok (0.0 / 0.0)
  | bool b => .ok (if b then 1.0 else 0.0)
  | int n => if n.natAbs < floatLimit then .ok (Float.ofInt n) else .error .overflow
  | float x => .ok x
  | text s =>
      match Numeral.float? s with
      | some x => .ok x
      | Option.none => .error .value
  | _ => .error .type

/-- Fills a shape with entries whose number is known to fit. -/
def fill {α : Type} (shape : Shape) (entries : List α) : Except Refusal (Tensor α) :=
  match Tensor.ofArray? shape entries.toArray with
  | some t => .ok t
  | Option.none => .error .value

def toFloats (v : Value) : Except Refusal (Tensor Float) := do
  let (shape, entries) ← nesting v
  fill shape (← entries.mapM toFloat)

/-- A single number; sequences are refused, and nothing is no number. -/
def toNumber : Value → Except Refusal Float
  | none => .error .type
  | array _ a =>
      match a.shape, a.toFloats.toList with
      | [], [x] => .ok x
      | _, _ => .error .type
  | list _ => .error .type
  | tuple _ => .error .type
  | v => v.toFloat

/-!
# Entries as they are

Entries of different kinds have the larger kind in common: integers become floating-point
numbers among such, numbers become texts among texts, and among things nothing is changed.
-/

inductive Content where
  | numeric (a : NumericArray)
  | texts (shape : Shape) (entries : List String)
  | things (shape : Shape) (entries : List Value)

inductive EntryKind where
  | bool
  | int
  | big
  | float
  | text
  | thing
deriving Repr, DecidableEq, Inhabited

def EntryKind.rank : EntryKind → Nat
  | bool => 0
  | int => 1
  | big => 2
  | float => 3
  | text => 4
  | thing => 5

/-- The kind that absorbs two others.  No integers hold both signed ones and those
beyond them, so these become floating-point numbers. -/
def EntryKind.join (k l : EntryKind) : EntryKind :=
  match k, l with
  | int, big => float
  | big, int => float
  | k, l => if k.rank < l.rank then l else k

def wordLimit : Int :=
  Int.ofNat (Nat.pow 2 63)

def entryKind : Value → EntryKind
  | bool _ => .bool
  | int n =>
      if -wordLimit ≤ n && n < wordLimit then .int
      else if 0 ≤ n && n < 2 * wordLimit then .big
      else .thing
  | float _ => .float
  | text _ => .text
  | _ => .thing

def commonKind (entries : List Value) : EntryKind :=
  entries.foldl (fun k v => k.join (entryKind v)) .bool

def toBool : Value → Bool
  | bool b => b
  | _ => false

def toInt : Value → Int
  | bool b => if b then 1 else 0
  | int n => n
  | _ => 0

def entryText : Value → String
  | text s => s
  | int n => toString n
  | float x => Shortest.text x
  | bool b => if b then "True" else "False"
  | _ => ""

def toContent (v : Value) : Except Refusal Content := do
  if let array _ a := v then return .numeric a
  let (shape, entries) ← nesting v
  if entries.isEmpty then
    return .numeric (.floats .double (← fill shape []))
  match commonKind entries with
  | .bool => return .numeric (.booleans (← fill shape (entries.map toBool)))
  | .int => return .numeric (.integers .int64 (← fill shape (entries.map toInt)))
  | .big => return .numeric (.integers .uint64 (← fill shape (entries.map toInt)))
  | .float => return .numeric (.floats .double (← fill shape (← entries.mapM toFloat)))
  | .text => return .texts shape (entries.map entryText)
  | .thing => return .things shape entries

/-!
# Whole numbers

Fractions are cut off where an integer is asked for.  A key, however, has to be equal to a
whole number, whatever its type is.
-/

def truncate (x : Float) : Except Refusal Int :=
  if x.isNaN then .error .value
  else if x.isInf then .error .overflow
  else
    let d := Dyadic.ofFloat x
    let n : Int := d.numerator / d.denominator
    .ok (if d.negative then -n else n)

def wholeNumber? : Value → Option Int
  | bool b => some (if b then 1 else 0)
  | int n => some n
  | float x => (truncate x).toOption.filter fun n => Float.ofInt n == x
  | foreign f => f.number?
  | _ => Option.none

def keyNumber? : Value → Option Int
  | array false a => if a.shape = [] then (entriesOf a).head?.bind wholeNumber? else Option.none
  | v => v.wholeNumber?

def toInteger : Value → Except Refusal Int
  | bool b => .ok (if b then 1 else 0)
  | int n => .ok n
  | float x => truncate x
  | text s =>
      match Numeral.int? s with
      | some n => .ok n
      | Option.none => .error .value
  | _ => .error .type

def toIntegers (v : Value) : Except Refusal (List Int) := do
  let (shape, entries) ←
    match ← v.toContent with
    | .numeric a => pure (a.shape, entriesOf a)
    | .texts s ts => pure (s, ts.map text)
    | .things s vs => pure (s, vs)
  if shape.length ≤ 1 then entries.mapM toInteger
  else if shape.head? = some 0 then return []
  else throw .type

/-- The whole numbers of an index or a shape; nothing else will do. -/
def toIndices (ground : Refusal) (v : Value) : Except Refusal (List Int) :=
  let whole : Value → Except Refusal Int
    | int n => .ok n
    | _ => .error ground
  match v with
  | int n => .ok [n]
  | list xs => xs.mapM whole
  | tuple xs => xs.mapM whole
  | array _ a => (entriesOf a).mapM whole
  | _ => .error ground

end Value
end DensityGraph
