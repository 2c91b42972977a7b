/-!
# Refusals

The grounds on which numeric code refuses its input without further words.
-/

namespace DensityGraph

inductive Refusal where
  | value
  | type
  | overflow
  | index
  | attribute
  | missingFile
  | missingKey
  | raised (exception : String)
deriving Repr, DecidableEq, Inhabited

end DensityGraph
