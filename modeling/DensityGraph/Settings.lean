import DensityGraph.Failure
/-!
# Settings

Settings that are read when a model is compiled.  They may be set to anything and
are checked when they are used.
-/

namespace DensityGraph

structure Settings where
  floatType : Value := .text "float32"
  dataAsConstants : Value := .bool false
  defaultChains : Value := .int 4
deriving Inhabited

def Precision.ofName? (name : String) : Option Precision :=
  if ["float64", "double", "float", "f8", "d"].contains name then some .double
  else if ["float32", "single", "f4", "f"].contains name then some .single
  else if ["float16", "half", "f2", "e"].contains name then some .half
  else none

/-- The precision that is in effect: doubles are kept only where they are enabled. -/
def Precision.narrow (wide : Bool) : Precision → Precision
  | .double => if wide then .double else .single
  | p => p

namespace Settings

def set (s : Settings) (name : String) (v : Value) : Settings :=
  match name with
  | "float_type" => { s with floatType := v }
  | "data_as_constants" => { s with dataAsConstants := v }
  | "default_n_chains" => { s with defaultChains := v }
  | _ => s

/-- Settings from fields by name, the others having their default values; there are
no fields but these. -/
def ofFields (fields : List (String × Value)) : Except Refusal Settings :=
  if fields.all fun p =>
      ["float_type", "data_as_constants", "default_n_chains"].contains p.1 then
    .ok (fields.foldl (fun s p => s.set p.1 p.2) {})
  else .error .type

/-- The precision asked for; nothing in particular means doubles. -/
def precision? (s : Settings) : Option Precision :=
  match s.floatType with
  | .none => some .double
  | .text name => Precision.ofName? name
  | _ => none

def lessThanOne (v : Value) : Except Refusal Bool :=
  match v with
  | .bool b => .ok (!b)
  | .int n => .ok (n < 1)
  | .float x => .ok (x < 1.0)
  | .array _ a =>
      match a.toFloats.toList with
      | [x] => .ok (x < 1.0)
      | _ => .error .value
  | _ => .error .type

def isText (s : String) : Value → Bool
  | .text t => t == s
  | _ => false

/-- Checks settings before they are used; `label` writes nodes and `wide` says
whether doubles are enabled. -/
def validate (label : NodeId → String) (wide : Bool) (s : Settings) : Except Failure Unit := do
  unless isText "float32" s.floatType || isText "float64" s.floatType do
    throw (.settings (.floatType (s.floatType.written label)))
  if isText "float64" s.floatType && !wide then
    throw (.settings .doubleDisabled)
  if ← Refusal.lift (lessThanOne s.defaultChains) then
    throw (.settings (.chainCount (s.defaultChains.written label)))

end Settings
end DensityGraph
