/-!
# Topological order

The vertices without parents come first, in their given order.  Then vertices are
taken one by one from the front, and the children that thereby have all their parents
in the order are appended.  Vertices on or behind a cycle are never reached.
-/

namespace DensityGraph
namespace Order

variable {ν : Type} [DecidableEq ν]

def ready (parents : ν → List ν) (vertices : List ν) (taken : List ν) (v : ν) : List ν :=
  vertices.filter fun c => v ∈ parents c && (parents c).all (· ∈ taken)

def advance (parents : ν → List ν) (vertices : List ν) :
    Nat → List ν → List ν → List ν
  | 0, taken, _ => taken
  | _ + 1, taken, [] => taken
  | count + 1, taken, v :: queue =>
      let taken := taken ++ [v]
      advance parents vertices count taken (queue ++ ready parents vertices taken v)

def sorted (parents : ν → List ν) (vertices : List ν) : List ν :=
  advance parents vertices vertices.length []
    (vertices.filter fun v => (parents v).isEmpty)

end Order
end DensityGraph
