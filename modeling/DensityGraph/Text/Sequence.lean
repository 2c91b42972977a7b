/-!
# Written sequences

Shapes and tuples stand in round brackets, a single member with a comma behind it;
lists stand in square brackets.
-/

namespace DensityGraph
namespace Sequence

def tuple : List String → String
  | [] => "()"
  | [x] => "(" ++ x ++ ",)"
  | xs => "(" ++ String.intercalate ", " xs ++ ")"

def list (xs : List String) : String :=
  "[" ++ String.intercalate ", " xs ++ "]"

def ofShape (shape : List Nat) : String :=
  tuple (shape.map toString)

def ofInts (shape : List Int) : String :=
  tuple (shape.map toString)

end Sequence
end DensityGraph
