import DensityGraph.Tensor.Batch
import DensityGraph.Scalar.Number
/-!
# Numeric arrays

Arrays of numbers or truth values, each with the type its entries are kept in.
-/

namespace DensityGraph

inductive IntegerKind where
  | int32
  | int64
  | uint32
  | uint64
deriving Repr, DecidableEq, Inhabited

def IntegerKind.name : IntegerKind → String
  | int32 => "int32"
  | int64 => "int64"
  | uint32 => "uint32"
  | uint64 => "uint64"

def Precision.name : Precision → String
  | literal => "float64"
  | half => "float16"
  | single => "float32"
  | double => "float64"

inductive NumericArray where
  | floats (precision : Precision) (entries : Tensor Float)
  | integers (kind : IntegerKind) (entries : Tensor Int)
  | booleans (entries : Tensor Bool)
deriving Inhabited

namespace NumericArray

def shape : NumericArray → Shape
  | floats _ t => t.shape
  | integers _ t => t.shape
  | booleans t => t.shape

def typeName : NumericArray → String
  | floats p _ => p.name
  | integers k _ => k.name
  | booleans _ => "bool"

def toFloats : NumericArray → Tensor Float
  | floats _ t => t
  | integers _ t => t.map Float.ofInt
  | booleans t => t.map fun b => if b then 1.0 else 0.0

def addBatchAxis : NumericArray → NumericArray
  | floats p t => floats p (t.broadcast (1 :: t.shape))
  | integers k t => integers k (t.broadcast (1 :: t.shape))
  | booleans t => booleans (t.broadcast (1 :: t.shape))

def repeatRows (n : Nat) : NumericArray → NumericArray
  | floats p t => floats p (t.repeatRows n)
  | integers k t => integers k (t.repeatRows n)
  | booleans t => booleans (t.repeatRows n)

instance : Batched NumericArray where
  batch? a := a.shape.head?
  repeatRows := repeatRows

/-- The array as it is kept when entries of 64 bits are not enabled. -/
def narrow : NumericArray → NumericArray
  | floats .double t => floats .single (t.map Precision.single.round)
  | integers .int64 t => integers .int32 (t.map fun n => Int.bmod n (Nat.pow 2 32))
  | integers .uint64 t => integers .uint32 (t.map fun n => n % (Nat.pow 2 32 : Nat))
  | a => a

def toNumbers (precision : Precision) (t : Tensor Float) : Tensor Number :=
  t.map (Number.ofFloat precision)

def ofNumbers (default : Precision) (t : Tensor Number) : NumericArray :=
  let widest := t.entries.foldl (fun p x => p.join x.precision) .literal
  floats (if widest = .literal then default else widest) (t.map Number.value)

end NumericArray
end DensityGraph
