import DensityGraph.Graph.Declare
import DensityGraph.Graph.Observe
import DensityGraph.Graph.Function
import DensityGraph.Graph.Mode
import DensityGraph.Evaluation.FreeState
import DensityGraph.Constraint.Loose
import DensityGraph.Journal.Logger
import DensityGraph.Proofs.Dag.Order
import DensityGraph.Proofs.Evaluation.Feed
import DensityGraph.Proofs.Evaluation.Entries
import DensityGraph.Proofs.Graph.Reads
import DensityGraph.Proofs.Evaluation.Recursive
import DensityGraph.Proofs.Evaluation.Faithful
import DensityGraph.Proofs.Graph.Build
import DensityGraph.Proofs.Graph.Function
import DensityGraph.Proofs.Graph.Target
import DensityGraph.Proofs.Graph.Call
import DensityGraph.Proofs.Graph.Change
import DensityGraph.Proofs.Graph.Parents
import DensityGraph.Proofs.Graph.Linked
import DensityGraph.Proofs.Tensor.Broadcast
import DensityGraph.Proofs.Tensor.Rows
import DensityGraph.Proofs.Tensor.RowWise
import DensityGraph.Proofs.Operation.RowWise
import DensityGraph.Proofs.Constraint.RowWise
import DensityGraph.Proofs.Value.Array
import DensityGraph.Proofs.Constraint.Width
import DensityGraph.Proofs.Graph.Model
import DensityGraph.Proofs.Evaluation.Rows
import DensityGraph.Proofs.Evaluation.Shape
import DensityGraph.Proofs.Distribution.Lift
import DensityGraph.Proofs.Distribution.RowWise
import DensityGraph.Proofs.Evaluation.Matched
import DensityGraph.Proofs.Graph.Prescribed
import DensityGraph.Proofs.Evaluation.Chains
import DensityGraph.Proofs.Evaluation.Independent
import DensityGraph.Proofs.Dag.Compile
import DensityGraph.Proofs.Dag.Compilable
import DensityGraph.Proofs.Graph.Atomic
import DensityGraph.Proofs.Graph.Failed
import DensityGraph.Proofs.Graph.Ordered
import DensityGraph.Proofs.Graph.Reached
import DensityGraph.Proofs.Graph.Spoiled
import DensityGraph.Proofs.Evaluation.Alike
import DensityGraph.Proofs.Evaluation.Fixed
import DensityGraph.Proofs.Evaluation.Modes
import DensityGraph.Proofs.Evaluation.Renamed
import DensityGraph.Proofs.Evaluation.Joint
import DensityGraph.Proofs.Scalar.Real
import DensityGraph.Proofs.Evaluation.Chainwise
import DensityGraph.Proofs.Tensor.Cholesky
import DensityGraph.Proofs.Constraint.Triangle
import DensityGraph.Proofs.Constraint.Square
import DensityGraph.Proofs.Constraint.Correlation
import DensityGraph.Proofs.Scalar.Jacobian
import DensityGraph.Proofs.Constraint.Jacobian
import DensityGraph.Proofs.Evaluation.Fed
import DensityGraph.Proofs.Evaluation.Flat
import DensityGraph.Proofs.Constraint.Covariance
import DensityGraph.Proofs.Constraint.CovarianceJacobian
import DensityGraph.Proofs.Scalar.Extended
import DensityGraph.Proofs.Scalar.Order
import DensityGraph.Proofs.Tensor.Map
import DensityGraph.Proofs.Constraint.Finite
import DensityGraph.Proofs.Constraint.Support
import DensityGraph.Proofs.Graph.Axes
import DensityGraph.Proofs.Graph.Dims
import DensityGraph.Proofs.Evaluation.Operands
import DensityGraph.Proofs.Constraint.Acceptance
import DensityGraph.Proofs.Evaluation.Initial
import DensityGraph.Proofs.Constraint.Bounded
import DensityGraph.Proofs.Constraint.Tolerance
import DensityGraph.Proofs.Scalar.Doubles
import DensityGraph.Proofs.Graph.Range
import DensityGraph.Proofs.Graph.Observed
import DensityGraph.Proofs.Distribution.Mass
import DensityGraph.Proofs.Distribution.Cumulative
import DensityGraph.Proofs.Tensor.Spread
import DensityGraph.Proofs.Evaluation.Truncated
import DensityGraph.Proofs.Constraint.Lengths
import DensityGraph.Proofs.Graph.Sized
import DensityGraph.Proofs.Evaluation.Started
import DensityGraph.Proofs.Distribution.Combines
import DensityGraph.Proofs.Evaluation.Defined
import DensityGraph.Proofs.Evaluation.Adjusted
import DensityGraph.Proofs.Journal.Disk
import DensityGraph.Proofs.Journal.Handlers
import DensityGraph.Proofs.Graph.Steady
import DensityGraph.Proofs.Evaluation.Blocks
import DensityGraph.Proofs.Graph.Inverse
import DensityGraph.Proofs.Evaluation.Inverse
import DensityGraph.Proofs.Constraint.Layout
import DensityGraph.Proofs.Value.Matching
import DensityGraph.Proofs.Graph.Shared
