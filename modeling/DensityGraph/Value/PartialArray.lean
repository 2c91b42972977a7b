import DensityGraph.Value.Coerce
import DensityGraph.Text.Layout
/-!
# Arrays with unknown entries

Where a value is not known before the model is evaluated, an array holds NaN and
writes a question mark.  Reshaping, transposing and adding keep the unknowns.
-/

namespace DensityGraph

/-- How an array regards its NaN entries: as unknowns, or as numbers like all
others.  A single number taken out of an array is no array any more. -/
inductive ArrayForm where
  | unknowns
  | plain
  | single
deriving Repr, DecidableEq, Inhabited

def ArrayForm.name : ArrayForm → String
  | unknowns => "Unknowns"
  | plain => "ndarray"
  | single => "float64"

structure PartialArray where
  form : ArrayForm
  entries : Tensor Float
deriving Inhabited

namespace PartialArray

def unknown (t : Tensor Float) : PartialArray :=
  ⟨.unknowns, t⟩

/-- A shape with nothing but unknown entries. -/
def blank (shape : Shape) : PartialArray :=
  unknown (Tensor.full shape (0.0 / 0.0))

def make (dim : List Int) (data : Value) : Except Refusal PartialArray := do
  let some shape := Shape.ofInts? dim | throw .value
  let some t := (← data.toFloats).broadcastTo? shape | throw .value
  return unknown t

def ofValue (v : Value) : Except Refusal PartialArray :=
  v.toFloats.map unknown

/-- Takes an array as one with unknowns; one that is already stays as it is. -/
def asUnknowns (a : PartialArray) : PartialArray :=
  ⟨.unknowns, a.entries⟩

theorem asUnknowns_asUnknowns (a : PartialArray) : a.asUnknowns.asUnknowns = a.asUnknowns := rfl

def strip (a : PartialArray) : PartialArray :=
  ⟨.plain, a.entries⟩

/-!
# Text
-/

def entryText (x : Float) : String :=
  if x.isNaN then "?" else Shortest.text x

def text (a : PartialArray) : String :=
  if a.entries.shape.size = 0 then "[]"
  else
    Layout.nested ⟨" ", 75, 0, 1000 < a.entries.shape.size⟩
      (fun index => entryText (a.entries.get index)) 0 a.entries.shape []

/-- The text with the name of the form around it; a number without axes is written
as it is. -/
def written (a : PartialArray) : String :=
  let inner :=
    if a.entries.shape = [] then Shortest.text (a.entries.get []) else a.text
  a.form.name ++ "(\n" ++ inner ++ "\n)"

/-!
# Operations

An index selects positions on the leading axes.  Negative positions count from the end.
-/

def reshape (a : PartialArray) (dim : List Int) : Except Refusal PartialArray :=
  match Shape.complete? a.entries.shape.size dim with
  | none => .error .value
  | some shape =>
      match a.entries.reshape? shape with
      | none => .error .value
      | some t => .ok ⟨if a.form = .single then .plain else a.form, t⟩

def transpose (a : PartialArray) : PartialArray :=
  ⟨a.form, Tensor.ofFn a.entries.shape.reverse fun index => a.entries.get index.reverse⟩

def position (n : Nat) (i : Int) : Except Refusal Nat :=
  let k := if i < 0 then i + n else i
  if 0 ≤ k ∧ k < n then .ok k.toNat else .error .index

def positions : Shape → List Int → Except Refusal (List Nat)
  | _, [] => .ok []
  | [], _ :: _ => .error .index
  | n :: s, i :: rest => do return (← position n i) :: (← positions s rest)

def part (a : PartialArray) (index : List Int) : Except Refusal PartialArray := do
  if a.form = .single then throw .index
  let front ← positions a.entries.shape index
  let rest := a.entries.shape.drop front.length
  let t := Tensor.ofFn rest fun inner => a.entries.get (front ++ inner)
  return ⟨if rest = [] ∧ index ≠ [] then .single else a.form, t⟩

def set (a : PartialArray) (index : List Int) (v : Value) : Except Refusal PartialArray := do
  if a.form = .single then throw .type
  let front ← positions a.entries.shape index
  let some t := (← v.toFloats).broadcastTo? (a.entries.shape.drop front.length) | throw .value
  return ⟨a.form, Tensor.ofFn a.entries.shape fun i =>
    if i.take front.length = front then t.get (i.drop front.length) else a.entries.get i⟩

def add (a : PartialArray) (v : Value) : Except Refusal PartialArray := do
  let .numeric b ← v.toContent | throw .type
  let some t := a.entries.map₂? (· + ·) b.toFloats | throw .value
  let isArray := a.form = .unknowns ∨ t.shape ≠ []
  return ⟨if a.form = .unknowns then .unknowns else if isArray then .plain else .single, t⟩

end PartialArray
end DensityGraph
