import DensityGraph.Constraint.Kind
import DensityGraph.Value.Written
/-!
# Labels

What a message says about a node: its kind, its number and what sets it apart.
-/

namespace DensityGraph

inductive Label where
  | data (id : NodeId) (dim : Shape)
  | operation (id : NodeId) (name : String) (dim : Shape)
  | latent (id : NodeId) (constraint : Constraint) (bounds : Interval) (dim : Shape)
  | distribution (id : NodeId) (family : Family) (name : GivenName) (dim : Shape)
deriving Inhabited

namespace Label

def title : Label → String
  | data _ _ => "DataNode"
  | operation _ _ _ => "OperationNode"
  | latent _ _ _ _ => "VariableNode"
  | distribution _ family _ _ => family.title

def properties : Label → List String
  | data id dim => ["id=" ++ toString id, "dim=" ++ Sequence.ofShape dim]
  | operation id name dim =>
      ["id=" ++ toString id, "operation=" ++ Quoted.text name, "dim=" ++ Sequence.ofShape dim]
  | latent id constraint bounds dim =>
      ["id=" ++ toString id, "constraint=" ++ Quoted.text constraint.tag,
        "lower=" ++ Shortest.text bounds.lower, "upper=" ++ Shortest.text bounds.upper,
        "dim=" ++ Sequence.ofShape dim]
  | distribution id _ name dim =>
      ["id=" ++ toString id, "distribution=" ++ name.listed,
        "dim=" ++ Sequence.ofShape dim]

def text (l : Label) : String :=
  l.title ++ "(" ++ String.intercalate ", " l.properties ++ ")"

def isWritable : Label → Bool
  | distribution _ _ name _ => name.isWritable
  | _ => true

end Label
end DensityGraph
