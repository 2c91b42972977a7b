import DensityGraph.Value.ArrayText
import DensityGraph.Text.Quoted
/-!
# Written values

The text of a value in a message: numbers in their shortest form, texts in quotes,
arrays with aligned entries.
-/

namespace DensityGraph
namespace Value

mutual

def written (label : NodeId → String) : Value → String
  | none => "None"
  | bool b => if b then "True" else "False"
  | int n => toString n
  | float x => Shortest.text x
  | text s => Quoted.text s
  | list xs => Sequence.list (writtenAll label xs)
  | tuple xs => Sequence.tuple (writtenAll label xs)
  | array compiled a => ArrayText.text compiled a
  | node id => label id
  | function f => f.name
  | rule _ => "<function>"
  | foreign f => "<" ++ f.typeName ++ " object>"

def writtenAll (label : NodeId → String) : List Value → List String
  | [] => []
  | x :: xs => written label x :: writtenAll label xs

end

def display (label : NodeId → String) : Value → String
  | text s => s
  | v => v.written label

/-!
# Texts that cannot be made
-/

def digitLimit : Nat := 4300

mutual

def isWritable (isNamed : NodeId → Bool) : Value → Bool
  | int n => n.natAbs < 10 ^ digitLimit
  | list xs => areWritable isNamed xs
  | tuple xs => areWritable isNamed xs
  | node id => isNamed id
  | foreign f => f.hasText
  | _ => true

def areWritable (isNamed : NodeId → Bool) : List Value → Bool
  | [] => true
  | x :: xs => x.isWritable isNamed && areWritable isNamed xs

end

end Value

/-- A name that may be anything: its text in a sentence, its text among the properties of a
thing, and whether these can be made. -/
structure GivenName where
  plain : String
  listed : String
  isWritable : Bool
deriving Repr, DecidableEq, Inhabited

namespace GivenName

def ofText (s : String) : GivenName :=
  ⟨s, Quoted.text s, true⟩

instance : Coe String GivenName :=
  ⟨ofText⟩

def ofValue (label : NodeId → String) (isNamed : NodeId → Bool) (v : Value) : GivenName :=
  ⟨v.display label, v.written label, v.isWritable isNamed⟩

end GivenName
end DensityGraph
