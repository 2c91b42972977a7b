import DensityGraph.Graph.Label
import DensityGraph.Operation.Name
import DensityGraph.Value.Refusal
/-!
# Failures

Every reason for which a model cannot be built, changed, compiled or evaluated, and
the words in which it is reported.  Refusals of the numeric code have no words.
-/

namespace DensityGraph

/-- A value that does not lie in the range of a constraint, with what is said about
it: the bounds as they are written and the entries one by one. -/
structure RangeFault where
  misfit : Misfit
  constraint : Constraint
  lower : String
  upper : String
  values : List Float
deriving Inhabited

namespace RangeFault

def floats (xs : List Float) : String :=
  Sequence.list (xs.map Shortest.text)

def message (f : RangeFault) : String :=
  match f.misfit with
  | .notFinite => s!"Values must be finite, got {floats f.values}"
  | .outside =>
      "Values must lie strictly between " ++ f.lower ++ " and " ++ f.upper ++ ", got " ++
        floats f.values
  | .notSymmetric => s!"A {f.constraint.tag} value must be a symmetric square matrix"
  | .notPositiveDefinite => s!"A {f.constraint.tag} value must be positive definite"
  | .noUnitDiagonal => "A correlation matrix must have a unit diagonal"

end RangeFault

inductive Invalid where
  | notNumeric (typeName : String)
  | unknownOperation (written : String)
  | unknownConstraint (written : String)
  | notSquare (tag : String) (dim : List Int)
  | freeLength (length : Nat)
  | range (fault : RangeFault)
  | rangeOf (node : Label) (fault : RangeFault)
  | dimensions (dim : List Int)
  | valueShape (node : Label) (dim shape : Shape)
  | ownParent (node : Label)
  | noArguments (operation : String)
  | argumentRanks (operation : String) (dims : List Shape)
  | argumentShapes (operation : String) (dims : List Shape) (axis : Nat)
  | resultShape (shape : Shape) (operation : String) (dim : Shape)
  | boundNotNumeric (which written : String)
  | boundsNotFinite (bounds : Interval)
  | boundsOrder (bounds : Interval)
  | boundsUnwanted (constraint : String) (bounds : Interval)
  | initialShape (shape : Shape) (node : Label)
  | truncationPair (written : String)
  | truncationOrder (truncation : Interval)
  | truncationSupport (truncation support : Interval) (name : String)
  | truncationUnsupported (name : String)
  | targetShape (node : Label) (dim shape : Shape)
  | hasDistribution (node : Label)
  | noDistribution (node : Label)
  | notData (node : Label)
  | observedShape (shape : Shape) (node : Label) (dim : Shape)
  | observedOutside (bounds : Interval) (node : Label)
  | observedFraction (node : Label)
  | parameterShapes (dims : List Shape)
  | targetDimension (target shared : Shape)
  | notFiniteNumber (name written : String)
  | limits (lower upper : Float)
  | trialCount (size : Float)
  | notScalar (name : String) (dim : Shape)
  | notSquareParameter (name : String) (dim : Shape)
  | productShapes (left right : Shape)
  | noNodes
  | cycle
  | noTarget (node : Label)
  | discreteVariable (node : Label)
  | fedShape (node : Label) (shape expected : List Int)
  | notDataOfGraph (written : String)
  | feedShape (shape : Shape) (node : Label)
  | freeShape (node : Label) (freeSize : Nat) (shape : Shape)
  | chainCount (written : String)
  | notVariableOfGraph (node : Label)
  | flatLength (length : Nat)
deriving Inhabited

namespace Invalid

def dims (ds : List Shape) : String :=
  Sequence.list (ds.map Sequence.ofShape)

def pair (i : Interval) : String :=
  Sequence.tuple [Shortest.text i.lower, Shortest.text i.upper]

def lowerUpper (i : Interval) : String :=
  "lower=" ++ Shortest.text i.lower ++ ", upper=" ++ Shortest.text i.upper

def listOf (names : List String) : String :=
  String.intercalate ", " names

def dimsText (ds : List Shape) : String :=
  listOf (ds.map fun d => String.intercalate " x " (d.map toString))

def message : Invalid → String
  | notNumeric typeName => s!"Cannot coerce object of type {typeName} to a numeric array"
  | unknownOperation written =>
      "Unknown operation " ++ written ++ ". Available operations: " ++
        listOf (NamedOperation.all.map NamedOperation.name)
  | unknownConstraint written =>
      "Unknown constraint " ++ written ++ ". Available constraints: " ++
        listOf (Constraint.all.map Constraint.tag)
  | notSquare tag dim =>
      "A " ++ tag ++ " variable needs a square dimension of at least 2 x 2, got " ++
        Sequence.ofInts dim
  | freeLength length => s!"{length} is not a valid length of a free matrix vector"
  | range fault => fault.message
  | rangeOf node fault => "Invalid value for " ++ node.text ++ ": " ++ fault.message
  | dimensions dim => "Dimensions must be positive, got " ++ Sequence.ofInts dim
  | valueShape node dim shape =>
      node.text ++ " has dimension " ++ Sequence.ofShape dim ++
        ", cannot assign a value of dimension " ++ Sequence.ofShape shape
  | ownParent node => node.text ++ " cannot be its own parent"
  | noArguments operation =>
      "Operation " ++ Quoted.text operation ++
        " has no array arguments, its dimension must be given explicitly"
  | argumentRanks operation ds =>
      "Cannot apply operation " ++ Quoted.text operation ++
        " to arguments with different numbers of dimensions: " ++ dims ds
  | argumentShapes operation ds axis =>
      "Cannot apply operation " ++ Quoted.text operation ++
        " to arguments with incompatible dimensions " ++ dims ds ++
        " (axis " ++ toString axis ++ ")"
  | resultShape shape operation dim =>
      "Values of dimension " ++ Sequence.ofShape shape ++
        " have the wrong dimension for operation " ++ Quoted.text operation ++
        " with dimension " ++ Sequence.ofShape dim
  | boundNotNumeric which written =>
      "lower and upper must be numeric values of length 1, got " ++ which ++ "=" ++ written
  | boundsNotFinite bounds =>
      "lower and upper must either be -inf (lower only), inf (upper only) or finite scalars, got "
        ++ lowerUpper bounds
  | boundsOrder bounds =>
      "upper bound must be greater than lower bound, got " ++ lowerUpper bounds
  | boundsUnwanted constraint bounds =>
      "A " ++ constraint ++ " variable cannot have bounds, got " ++ lowerUpper bounds
  | initialShape shape node =>
      "Cannot use a value of dimension " ++ Sequence.ofShape shape ++ " for " ++ node.text
  | truncationPair written => "truncation must be a pair of numbers, got " ++ written
  | truncationOrder truncation =>
      "truncation must be an interval with lower < upper, got " ++ pair truncation
  | truncationSupport truncation support name =>
      "truncation " ++ pair truncation ++ " must lie within the support " ++ pair support ++
        " of the " ++ name ++ " distribution"
  | truncationUnsupported name => s!"The {name} distribution cannot be truncated"
  | targetShape node dim shape =>
      node.text ++ " has dimension " ++ Sequence.ofShape dim ++
        ", cannot use a target of dimension " ++ Sequence.ofShape shape
  | hasDistribution node => node.text ++ " already has a distribution"
  | noDistribution node => node.text ++ " has no distribution"
  | notData node => node.text ++ " is not data"
  | observedShape shape node dim =>
      "Cannot observe data of dimension " ++ Sequence.ofShape shape ++ " for " ++ node.text ++
        " of dimension " ++ Sequence.ofShape dim
  | observedOutside bounds node =>
      "Observed data must lie within " ++ pair bounds ++ " for " ++ node.text
  | observedFraction node => "Observed data must be integers for " ++ node.text
  | parameterShapes ds => "Incompatible dimensions: " ++ dimsText ds
  | targetDimension target shared =>
      "The target dimension " ++ Sequence.ofShape target ++
        " does not match the parameter dimension " ++ Sequence.ofShape shared
  | notFiniteNumber name written => name ++ " must be a finite number, got " ++ written
  | limits lower upper =>
      "max must be greater than min, got min=" ++ Shortest.text lower ++ ", max=" ++
        Shortest.text upper
  | trialCount size => "size must be a positive integer, got " ++ Shortest.text size
  | notScalar name dim => name ++ " must be a scalar, got dimension " ++ Sequence.ofShape dim
  | notSquareParameter name dim =>
      name ++ " must be a square matrix, got dimension " ++ Sequence.ofShape dim
  | productShapes left right =>
      "Incompatible dimensions for matrix multiplication: " ++ Sequence.ofShape left ++
        " and " ++ Sequence.ofShape right
  | noNodes => "A DAG needs at least one node"
  | cycle => "The model graph has a cycle"
  | noTarget node => node.text ++ " has no target"
  | discreteVariable node => node.text ++ " is discrete, its target must be observed data"
  | fedShape node shape expected =>
      "The value fed for " ++ node.text ++ " has dimension " ++ Sequence.ofInts shape ++
        ", expected " ++ Sequence.ofInts expected
  | notDataOfGraph written => written ++ " is not a data node of the DAG"
  | feedShape shape node =>
      "Cannot feed a value of dimension " ++ Sequence.ofShape shape ++ " to " ++ node.text
  | freeShape node freeSize shape =>
      "The free state of " ++ node.text ++ " must have the shape (n_chains, " ++
        toString freeSize ++ "), got " ++ Sequence.ofShape shape
  | chainCount written => "n_chains must be positive, got " ++ written
  | notVariableOfGraph node => node.text ++ " is not a variable of the DAG"
  | flatLength length => s!"A vector of length {length} is no flat free state of the DAG"

end Invalid

inductive SettingsFault where
  | floatType (written : String)
  | doubleDisabled
  | chainCount (written : String)
deriving Inhabited

def SettingsFault.message : SettingsFault → String
  | floatType written => "float_type must be 'float32' or 'float64', not " ++ written
  | doubleDisabled =>
      "float_type 'float64' requires jax_enable_x64, see " ++
        "jax.config.update('jax_enable_x64', True)"
  | chainCount written => "self.default_n_chains=" ++ written ++ " must be positive"

inductive EntryKind where
  | value
  | free
  | adjustment
deriving Repr, DecidableEq, Inhabited

namespace EntryKind

def all : List EntryKind :=
  [value, free, adjustment]

def name : EntryKind → String
  | value => "value"
  | free => "free"
  | adjustment => "adj"

def ofName? (s : String) : Option EntryKind :=
  all.find? fun k => k.name == s

end EntryKind

inductive Failure where
  | refused (ground : Refusal)
  | invalid (reason : Invalid)
  | batches (sizes : List Nat)
  | settings (fault : SettingsFault)
  | unknownKind (written : String)
  | relativePath (path : String)
  | nothingFed (node : Label)
  | notMaterialized (kind : String) (node : Label)
  | noFreeEntry (node : Label)
  | alreadyAssigned (kind : EntryKind) (node : Label)
  | alreadyTargeted (node : Label)
  | untargeted (node : Label)
  | notTruncated (node : Label)
  | noDensity (title : String)
deriving Inhabited

namespace Failure

def message? : Failure → Option String
  | refused _ => none
  | invalid reason => some reason.message
  | batches sizes =>
      some ("Cannot reconcile the batch dimensions " ++
        Sequence.list (sizes.map toString) ++
        "; tensors must have the same batch size or a batch size of 1")
  | settings fault => some fault.message
  | unknownKind written =>
      some ("Unknown kind " ++ written ++ ", must be one of " ++
        Sequence.tuple (EntryKind.all.map fun k => Quoted.text k.name))
  | relativePath path => some ("The path of a log file must be absolute, got " ++ path)
  | nothingFed node => some ("No value has been fed for " ++ node.text)
  | notMaterialized kind node =>
      some ("The " ++ kind ++ " of " ++ node.text ++ " has not been materialized")
  | noFreeEntry node => some ("The free state has no entry for " ++ node.text)
  | alreadyAssigned kind node =>
      some ("The " ++ kind.name ++ " of " ++ node.text ++ " has already been assigned")
  | alreadyTargeted node =>
      some (node.text ++ " already has a target, call remove_target() first")
  | untargeted node => some (node.text ++ " has no target")
  | notTruncated node => some (node.text ++ " is not truncated")
  | noDensity title => some (title ++ " does not define a distribution")

end Failure

def Refusal.lift {α : Type} : Except Refusal α → Except Failure α
  | .ok x => .ok x
  | .error r => .error (.refused r)

def Batched.reconciled {τ : Type} [Batched τ] (args : List τ) : Except Failure (List τ) :=
  match Batched.reconcile args with
  | .ok args => .ok args
  | .error sizes => .error (.batches sizes)

end DensityGraph
