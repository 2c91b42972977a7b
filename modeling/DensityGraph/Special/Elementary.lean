/-!
# Elementary functions near zero

`log (1 + x)` and `exp x - 1` without cancellation: the rounding error made in
`1 + x` or `exp x` is divided out again.
-/

namespace DensityGraph
namespace Special

def log1p (x : Float) : Float :=
  let u := 1.0 + x
  if u == 1.0 then x
  else if u.isInf then u
  else u.log * (x / (u - 1.0))

def expm1 (x : Float) : Float :=
  let u := x.exp
  if u == 1.0 then x
  else if u.isInf then u
  else
    let v := u - 1.0
    if v == -1.0 then v
    else v * (x / u.log)

def sigmoid (x : Float) : Float :=
  1.0 / (1.0 + (-x).exp)

def softplus (x : Float) : Float :=
  if x.isNaN then x
  else (if 0.0 < x then x else 0.0) + log1p (-x.abs).exp

end Special
end DensityGraph
