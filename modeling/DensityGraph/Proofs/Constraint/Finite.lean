import DensityGraph.Proofs.Constraint.Covariance
import DensityGraph.Proofs.Constraint.Correlation
import DensityGraph.Proofs.Scalar.Extended
import DensityGraph.Proofs.Tensor.Map
/-!
# Finite values

Between bounds that are finite where the constraint looks at them, free vectors of finite
numbers have finite values, which are those over the reals.
-/

namespace DensityGraph
namespace Constraint

open Extended Rows

variable {n : Nat}

/-!
# Matrices
-/

theorem dot_finite (xs ys : List ℝ) :
    dot (xs.map finite) (ys.map finite) = finite (dot xs ys) := by
  unfold dot
  rw [← sum_finite, List.zipWith_map, List.map_zipWith]
  rfl

theorem gram_finite (m : Rows ℝ) : gram (m.map (List.map finite)) =
    (gram m).map (List.map finite) := by
  unfold gram
  simp only [List.map_map, Function.comp_def, dot_finite]

theorem pad_finite (n : Nat) (row : List ℝ) :
    pad n (row.map finite) = (pad n row).map finite := by
  unfold pad
  rw [List.map_append, List.map_replicate, List.length_map, zero_finite]

theorem unitRow_finite {zs : List ℝ} (hzs : forall z, z ∈ zs -> z ∈ Set.Ioo (-1 : ℝ) 1) {s : ℝ}
    (hs : s < 1) : unitRow (finite s) (zs.map finite) = (unitRow s zs).map finite := by
  have hroot : forall {s : ℝ}, s < 1 ->
      Scalar.sqrt (Scalar.one - finite s) = finite (Scalar.sqrt (Scalar.one - s)) := by
    intro s hs
    have hpos : 0 ≤ (Scalar.one : ℝ) - s := by
      rw [Scalar.one_real]
      exact (sub_pos.mpr hs).le
    rw [← sqrt_finite hpos, ← sub_finite]
    rfl
  induction zs generalizing s with
  | nil =>
      unfold unitRow
      rw [List.map_nil, hroot hs]
      rfl
  | cons z zs ih =>
      have hz := mul_self_lt_one (hzs z (List.mem_cons_self ..))
      have hs' : s + z * √(1 - s) * (z * √(1 - s)) < 1 := by
        rw [← sub_pos, one_sub_sumsq hs.le z]
        exact mul_pos (sub_pos.mpr hs) (sub_pos.mpr hz)
      have hrest := ih (fun z' hz' => hzs z' (List.mem_cons_of_mem _ hz')) hs'
      rw [unitRow_cons, List.map_cons, List.map_cons, ← hrest, unitRow, hroot hs]
      simp only [mul_finite, add_finite, Scalar.one_real]
      rfl

theorem correlationMatrix_finite {x : List ℝ} (hx : x.length = Triangle.start n) :
    correlationMatrix n (x.map finite) = (correlationMatrix n x).map (List.map finite) := by
  have htanh : (x.map finite).map Scalar.tanh = (x.map Real.tanh).map finite := by
    rw [List.map_map, List.map_map]
    rfl
  have hlength : (x.map Real.tanh).length = Triangle.start n := by rw [List.length_map, hx]
  unfold correlationMatrix correlationFactor
  rw [← gram_finite, htanh, Triangle.rows_map, List.map_map, List.map_map]
  congr 1
  apply List.map_congr_left
  intro zs hzs
  have hrange : forall z, z ∈ zs -> z ∈ Set.Ioo (-1 : ℝ) 1 := fun z hz =>
    mem_Ioo_of_mem_map (mem_rows hlength hzs hz)
  rw [Function.comp_apply, Function.comp_apply, zero_finite, Scalar.zero_real,
    unitRow_finite hrange one_pos, pad_finite]

theorem covarianceMatrix_finite (n : Nat) (x : List ℝ) :
    covarianceMatrix n (x.map finite) = (covarianceMatrix n x).map (List.map finite) := by
  have hrow : forall (row : List ℝ) (d : ℝ),
      pad n (row.map finite ++ [Scalar.exp (finite d)]) =
        (pad n (row ++ [Scalar.exp d])).map finite := by
    intro row d
    rw [← pad_finite, List.map_append]
    rfl
  unfold covarianceMatrix covarianceFactor
  rw [← gram_finite, List.map_zipWith, ← List.map_drop, ← List.map_take, Triangle.rows_map,
    List.zipWith_map]
  simp only [hrow]

theorem length_flatten_gram {l : Rows ℝ} (hn : l.length = n) :
    (gram l).flatten.length = Shape.size [n, n] := by
  have hrows : forall r, r ∈ gram l -> r.length = n := fun r hr => (length_row_gram hr).trans hn
  rw [List.length_flatten, List.map_congr_left hrows, List.map_const', List.sum_replicate,
    length_gram, hn, smul_eq_mul, Shape.size_cons, Shape.size_cons, Shape.size_nil, Nat.mul_one]

theorem mapVectors_finite {x : Tensor ℝ} {k size : Nat} {f : List ℝ → Rows ℝ}
    {g : List Extended → Rows Extended} (hx : x.shape = [k, size])
    (hgram : forall v, v.length = size -> ∃ l, f v = gram l ∧ l.length = n)
    (hfinite : forall v, v.length = size -> g (v.map finite) = (f v).map (List.map finite)) :
    (x.map finite).mapVectors [n, n] (fun v => (g v).flatten) =
      (x.mapVectors [n, n] fun v => (f v).flatten).map finite := by
  apply Tensor.mapVectors_map hx
  · intro v hv
    rcases hgram v hv with ⟨l, hl, hn⟩
    rw [hl]
    exact length_flatten_gram hn
  · intro v hv
    rw [hfinite v hv, List.map_flatten]

/-!
# Values
-/

structure Between (c : Constraint) (lower upper : Extended) (l u : ℝ) : Prop where
  lower : c = interval ∨ c = lowerBounded -> lower = finite l
  upper : c = interval ∨ c = upperBounded -> upper = finite u
  ordered : c = interval -> l < u

variable {c : Constraint} {lower upper : Extended} {l u : ℝ} {dim : Shape} {size k : Nat}
  {x : Tensor ℝ}

theorem map_map_finite {f : ℝ → ℝ} {g : Extended → Extended}
    (h : forall v, g (finite v) = finite (f v)) (x : Tensor ℝ) :
    (x.map finite).map g = (x.map f).map finite := by
  have hcomp : g ∘ finite = finite ∘ f := funext h
  unfold Tensor.map
  simp only [Array.map_map, hcomp]

theorem forward_finite (h : c.Between lower upper l u)
    (hsize : (c.freeSize? (dim.map Int.ofNat)).map Int.toNat = some size)
    (hx : x.shape = [k, size]) :
    c.forward lower upper (x.map finite) = (c.forward l u x).map (Tensor.map finite) := by
  have hlast : x.shape.getLast? = some size := by rw [hx]; rfl
  rcases freeSize_cases hsize with
    ⟨rfl, n, rfl, hn, rfl⟩ | ⟨rfl, n, rfl, hn, rfl⟩ | ⟨hmatrix, _⟩
  · have hmatrices := mapVectors_finite hx
      (fun v _ => ⟨_, gram_correlationFactor (n + 1) (v.map Real.tanh), length_unitRows _ _⟩)
      (fun v hv => correlationMatrix_finite (hv.trans (Triangle.start_succ_eq_size n).symm))
    unfold forward sideOf
    rw [Tensor.shape_map, hlast]
    simp only [Triangle.root?_size hn]
    exact congrArg Except.ok hmatrices
  · have hmatrices := mapVectors_finite hx
      (fun v hv => ⟨_, gram_covarianceFactor n v, length_lowerRows hv⟩)
      (fun v _ => covarianceMatrix_finite n v)
    unfold forward sideOf
    rw [Tensor.shape_map, hlast]
    simp only [Triangle.root?_size hn]
    exact congrArg Except.ok hmatrices
  · cases c with
    | unconstrained => rfl
    | interval =>
        rw [h.lower (Or.inl rfl), h.upper (Or.inl rfl)]
        apply congrArg Except.ok
        apply map_map_finite
        intro v
        rw [sub_finite]
        rfl
    | upperBounded =>
        rw [h.upper (Or.inr rfl)]
        apply congrArg Except.ok
        apply map_map_finite
        intro v
        rw [← sub_finite]
        rfl
    | lowerBounded =>
        rw [h.lower (Or.inr rfl)]
        apply congrArg Except.ok
        apply map_map_finite
        intro v
        rfl
    | correlation => cases hmatrix
    | covariance => cases hmatrix

/-!
# Jacobians
-/

theorem log_two_finite : (Scalar.log (Scalar.ofNat 2) : Extended) =
    finite (Scalar.log (Scalar.ofNat 2)) := by
  have hpos : (0 : ℝ) < Scalar.ofNat 2 := two_pos
  rw [ofNat_finite, log_finite hpos]

theorem logOneMinusTanhSquare_finite (v : ℝ) :
    logOneMinusTanhSquare (finite v) = finite (logOneMinusTanhSquare v) := by
  unfold logOneMinusTanhSquare
  rw [← mul_finite, ← sub_finite, ← sub_finite, ← log_two_finite]
  rfl

theorem correlationLogJacobian_finite (n : Nat) (hx : x.shape = [k, size]) :
    correlationLogJacobian n (x.map finite) = (correlationLogJacobian n x).map finite := by
  have hlogs := map_map_finite logOneMinusTanhSquare_finite x
  unfold correlationLogJacobian
  simp only [hlogs]
  generalize hmap : x.map logOneMinusTanhSquare = logs
  have hshape : logs.shape = x.shape := by rw [← hmap, Tensor.shape_map]
  let weight : List Nat → ℝ := fun index => Scalar.ofNat
    (correlationPower n ((Triangle.columns n).toArray.getD (index.getLastD 0) 0))
  let weighted := Tensor.ofFn x.shape fun index => weight index * logs.get index
  have hweighted : (Tensor.ofFn x.shape fun index =>
      Scalar.ofNat (correlationPower n ((Triangle.columns n).toArray.getD (index.getLastD 0) 0)) *
        (logs.map finite).get index) = weighted.map finite := by
    unfold weighted
    rw [Tensor.map_ofFn]
    apply Tensor.ofFn_congr
    intro index hindex
    rw [Tensor.get_map _ (hshape ▸ hindex)]
    rfl
  rw [Tensor.shape_map, hweighted, Tensor.sumEvent_map sum_finite (hshape.trans hx),
    Tensor.sumEvent_map (t := weighted) sum_finite hx, Tensor.map_ofFn]
  apply Tensor.ofFn_congr
  intro index hindex
  have hplain : logs.sumEvent.shape = [k] := (Tensor.sumEvent_rows (hshape.trans hx)).1
  have hpowers : weighted.sumEvent.shape = [k] :=
    (Tensor.sumEvent_rows (t := weighted) hx).1
  rw [Tensor.shape_map] at hindex
  rw [Tensor.get_map _ hindex, Tensor.get_map _ (by rwa [hpowers, ← hplain]), half_finite]
  rfl

theorem covarianceLogJacobian_finite {n : Nat} (hn : n ≤ size) (hx : x.shape = [k, size]) :
    covarianceLogJacobian n (x.map finite) = (covarianceLogJacobian n x).map finite := by
  unfold covarianceLogJacobian
  rw [Tensor.map_ofFn, Tensor.shape_map, hx]
  apply Tensor.ofFn_congr
  intro index hindex
  have hterm : forall i, i ∈ List.range n ->
      Scalar.ofNat (n + 1 - i) * (x.map finite).get (index ++ [i]) =
        finite (Scalar.ofNat (n + 1 - i) * x.get (index ++ [i])) := by
    intro i hi
    have hlt : i < size := lt_of_lt_of_le (List.mem_range.mp hi) hn
    have hwithin : x.shape.Within (index ++ [i]) := by
      rw [hx]
      exact (Shape.within_append (s := [k]) (t := [size])).mpr
        ⟨index, [i], rfl, hindex, hlt, trivial⟩
    rw [Tensor.get_map _ hwithin]
    rfl
  have hterms : ((List.range n).map fun i =>
      Scalar.ofNat (n + 1 - i) * (x.map finite).get (index ++ [i])) =
        ((List.range n).map fun i => Scalar.ofNat (n + 1 - i) * x.get (index ++ [i])).map finite := by
    rw [List.map_map]
    exact List.map_congr_left hterm
  rw [hterms, sum_finite, log_two_finite]
  rfl

theorem logJacobian_finite (h : c.Between lower upper l u)
    (hsize : (c.freeSize? (dim.map Int.ofNat)).map Int.toNat = some size)
    (hx : x.shape = [k, size]) :
    c.logJacobian lower upper (x.map finite) = (c.logJacobian l u x).map (Tensor.map finite) := by
  have hlast : x.shape.getLast? = some size := by rw [hx]; rfl
  have hsum : forall t : Tensor ℝ, t.shape = [k, size] ->
      (t.map finite).sumEvent = t.sumEvent.map finite := fun t ht =>
    Tensor.sumEvent_map sum_finite ht
  rcases freeSize_cases hsize with
    ⟨rfl, n, rfl, hn, rfl⟩ | ⟨rfl, n, rfl, hn, rfl⟩ | ⟨hmatrix, _⟩
  · unfold logJacobian sideOf
    rw [Tensor.shape_map, hlast]
    simp only [Triangle.root?_size hn]
    exact congrArg Except.ok (correlationLogJacobian_finite (n + 1) hx)
  · unfold logJacobian sideOf
    rw [Tensor.shape_map, hlast]
    simp only [Triangle.root?_size hn]
    exact congrArg Except.ok (covarianceLogJacobian_finite (Triangle.le_size n) hx)
  · cases c with
    | unconstrained =>
        unfold logJacobian
        rw [Tensor.shape_map, hx]
        exact congrArg Except.ok (Tensor.map_ofFn finite _).symm
    | interval =>
        have hpos : 0 < u - l := sub_pos.mpr (h.ordered rfl)
        have hreal : Scalar.lessEq (u - l) (Scalar.zero : ℝ) = false := by
          rw [Scalar.zero_real]
          exact Scalar.lessEq_real hpos
        have hextended : Scalar.lessEq (finite (u - l)) (Scalar.zero : Extended) = false := hreal
        unfold logJacobian
        rw [h.lower (Or.inl rfl), h.upper (Or.inl rfl), sub_finite, hextended, hreal,
          log_finite hpos]
        apply congrArg Except.ok
        refine Eq.trans ?_ (hsum (x.map fun v =>
          v - Scalar.ofNat 2 * Scalar.softplus v + Scalar.log (u - l)) hx)
        apply congrArg Tensor.sumEvent
        apply map_map_finite
        intro v
        rw [← add_finite, ← sub_finite]
        rfl
    | upperBounded => exact congrArg Except.ok (hsum x hx)
    | lowerBounded => exact congrArg Except.ok (hsum x hx)
    | correlation => cases hmatrix
    | covariance => cases hmatrix

end Constraint
end DensityGraph
