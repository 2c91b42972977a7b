import DensityGraph.Value.NumericArray
import DensityGraph.Value.Refusal
/-!
# Loose values

What a caller may hand over where a number, a shape or a node is expected.  Each
place that takes one says how it reads it.
-/

namespace DensityGraph

abbrev NodeId := Nat

/-- A function that a caller hands over, by its name and what sets it apart from others of that
name. -/
structure CustomFunction where
  name : String
  number : Nat
deriving Repr, DecidableEq, Inhabited

/-- A rule that computes the sizes of the axes of an operation from the shapes of its
arguments; a single size makes a column, and no sizes make a single number. -/
structure ShapeRule where
  sizes? : List Shape → Except Refusal (Option (List Int))
deriving Inhabited

structure Foreign where
  typeName : String
  truth : Except Refusal Bool := .ok true
  number? : Option Int := none
  isHashable : Bool := true
  hasText : Bool := true
deriving Inhabited

inductive Value where
  | none
  | bool (b : Bool)
  | int (n : Int)
  | float (x : Float)
  | text (s : String)
  | list (items : List Value)
  | tuple (items : List Value)
  | array (compiled : Bool) (a : NumericArray)
  | node (id : NodeId)
  | function (f : CustomFunction)
  | rule (r : ShapeRule)
  | foreign (f : Foreign)
deriving Inhabited

namespace Value

def ofShape (s : Shape) : Value :=
  tuple (s.map fun (n : Nat) => int (n : Int))

def typeName (kindOf : NodeId → String) : Value → String
  | none => "NoneType"
  | bool _ => "bool"
  | int _ => "int"
  | float _ => "float"
  | text _ => "str"
  | list _ => "list"
  | tuple _ => "tuple"
  | array compiled _ => if compiled then "ArrayImpl" else "ndarray"
  | node id => kindOf id
  | function _ => "function"
  | rule _ => "function"
  | foreign f => f.typeName

/-- Whether a condition on the value holds; an array is asked for its only entry. -/
def truth : Value → Except Refusal Bool
  | none => .ok false
  | bool b => .ok b
  | int n => .ok (n != 0)
  | float x => .ok (x != 0.0)
  | text s => .ok (s != "")
  | list xs => .ok (!xs.isEmpty)
  | tuple xs => .ok (!xs.isEmpty)
  | array _ a =>
      match a.toFloats.toList with
      | [x] => .ok (x != 0.0)
      | _ => .error .value
  | foreign f => f.truth
  | _ => .ok true

/-- Whether two values are one and the same thing: nodes, truth values and small
integers are, all else is created anew each time. -/
def same : Value → Value → Bool
  | none, none => true
  | bool a, bool b => a == b
  | int a, int b => a == b && -5 ≤ a && a ≤ 256
  | node a, node b => a == b
  | _, _ => false

/-- An array kept in the types that are in effect. -/
def narrow (wide : Bool) : Value → Value
  | array compiled a => array compiled (if wide then a else a.narrow)
  | v => v

instance : Batched Value where
  batch?
    | array _ a => a.shape.head?
    | _ => Option.none
  repeatRows n
    | array _ a => array true (a.repeatRows n)
    | v => v

end Value

structure Extra where
  wide : Bool
  value : Value
deriving Inhabited

instance : Batched Extra where
  batch? x := Batched.batch? x.value
  repeatRows n x := ⟨x.wide, (Batched.repeatRows n x.value).narrow x.wide⟩

end DensityGraph
