import DensityGraph.Evaluation.Materialize
import DensityGraph.Proofs.Constraint.FreeSize
import DensityGraph.Proofs.Tensor.RowWise
import DensityGraph.Proofs.Value.Dim
/-!
# Constraints row by row

A constraint makes a value of the declared shape of each free vector, and a Jacobian
of it.
-/

namespace DensityGraph

/-!
# Shapes of values
-/

namespace Shape

theorem complete?_rows {dim : Shape} (hpos : forall k, k ∈ dim -> 1 ≤ k) (k : Nat) :
    complete? (k * dim.size) (-1 :: dim.map Int.ofNat) = some (k :: dim) := by
  have hne : forall j, j ∈ dim.map Int.ofNat -> j ≠ -1 := by
    intro j hj
    rcases List.mem_map.mp hj with ⟨m, _, rfl⟩
    intro heq
    cases heq
  have hknown : ((-1 :: dim.map Int.ofNat).filter (· ≠ -1)).map Int.toNat = dim := by
    rw [List.filter_cons_of_neg (by simp), List.filter_eq_self.mpr (by simp),
      List.map_map]
    exact List.map_id dim
  have hnegative : ((-1 :: dim.map Int.ofNat).any (· < -1)) = false := by
    rw [List.any_eq_false]
    intro j hj
    rcases List.mem_cons.mp hj with rfl | hj
    · decide
    · rcases List.mem_map.mp hj with ⟨m, _, rfl⟩
      have hm : (0 : Int) ≤ Int.ofNat m := Int.natCast_nonneg m
      simp only [decide_eq_true_eq]
      omega
  have hcount : (-1 :: dim.map Int.ofNat).count (-1) = 1 := by
    rw [List.count_cons_self, List.count_eq_zero.mpr]
    intro hmem
    exact hne _ hmem rfl
  have hpositive : dim.size ≠ 0 := Nat.ne_of_gt (Value.size_pos hpos)
  have hfilled : (-1 :: dim.map Int.ofNat).map
      (fun d => if d = -1 then k * dim.size / dim.size else d.toNat) = k :: dim := by
    rw [List.map_cons, if_pos rfl, Nat.mul_div_cancel _ (Nat.pos_of_ne_zero hpositive),
      List.map_map]
    congr 1
    calc dim.map _ = dim.map id := by
          apply List.map_congr_left
          intro m hm
          rw [Function.comp_apply, if_neg (hne _ (List.mem_map_of_mem hm))]
          rfl
      _ = dim := List.map_id dim
  unfold complete?
  simp only [hknown, hnegative, hcount, hfilled, Nat.mul_mod_left]
  simp [hpositive]

end Shape

namespace Tensor

variable {α : Type} [Scalar α] {t : Tensor α} {k : Nat} {d dim : Shape}

omit [Scalar α] in
theorem exists_reshapeRows (ht : t.shape = k :: d) (hpos : forall j, j ∈ dim -> 1 ≤ j)
    (hsize : dim.size = d.size) :
    ∃ r, t.reshapeRows (dim.map Int.ofNat) = .ok r ∧ r.shape = k :: dim ∧
      t.reshape? (k :: dim) = some r := by
  have hcount : t.shape.size = k * dim.size := by
    rw [ht, Shape.size_cons, hsize]
  have hentries : t.entries.size = Shape.size (k :: dim) := by
    rw [t.size_entries, hcount]
    rfl
  have hreshape : t.reshape? (k :: dim) = some ⟨k :: dim, t.entries, hentries⟩ := by
    unfold reshape? ofArray?
    rw [dif_pos hentries]
  unfold reshapeRows
  rw [hcount, Shape.complete?_rows hpos]
  simp only [hreshape]
  exact ⟨_, rfl, rfl, rfl⟩

theorem reshapeRows_rows (ht : t.shape = k :: d) (hpos : forall j, j ∈ dim -> 1 ≤ j)
    (hsize : dim.size = d.size) :
    ∃ r, t.reshapeRows (dim.map Int.ofNat) = .ok r ∧ r.shape = k :: dim ∧
      forall i, i < k -> r.row i = ofFn dim fun index =>
        (t.row i).get ((t.row i).shape.unravel (dim.offset index)) := by
  rcases exists_reshapeRows ht hpos hsize with ⟨r, hr, hshape, hreshape⟩
  refine ⟨r, hr, hshape, ?_⟩
  intro i _
  rw [shape_row ht]
  exact row_reshape? ht hsize hreshape i

theorem vectorAt_row {size i : Nat} (ht : t.shape = [k, size]) :
    t.vectorAt [i] = (t.row i).toList := by
  rw [toList_row ht]
  unfold vectorAt
  rw [ht]
  simp only [Shape.size, Nat.mul_one]
  apply List.map_congr_left
  intro q _
  simp [Shape.unravel, Shape.size]

theorem getD_ofFn {β : Type} {n i : Nat} (f : Fin n → β) (hi : i < n) (x : β) :
    (Array.ofFn f).getD i x = f ⟨i, hi⟩ := by
  unfold Array.getD
  rw [dif_pos (by simpa using hi)]
  simp

theorem mapVectors_rows {size : Nat} (inner : Shape) (f : List α → List α)
    (ht : t.shape = [k, size]) :
    (t.mapVectors inner f).shape = k :: inner ∧ forall i, i < k ->
      (t.mapVectors inner f).row i = ofFn inner fun index =>
        (f (t.row i).toList).toArray.getD (inner.offset index) Scalar.undefined := by
  unfold mapVectors
  rw [ht]
  refine ⟨rfl, ?_⟩
  intro i hi
  refine (row_ofFn (s := inner) _ hi).trans ?_
  apply ofFn_congr
  intro index _
  have hbatch : i < Shape.size [k] := by
    simpa [Shape.size] using hi
  have hoffset : Shape.offset [k] [i] = i := by
    simp [Shape.offset, Shape.size]
  have hindex : Shape.unravel [k] i = [i] := by
    simp [Shape.unravel, Shape.size]
  change Array.getD (Array.getD (Array.ofFn fun b : Fin (Shape.size [k]) =>
    (f (t.vectorAt (Shape.unravel [k] b))).toArray) (Shape.offset [k] [i]) #[])
      (inner.offset index) Scalar.undefined = _
  rw [hoffset, getD_ofFn _ hbatch, hindex, vectorAt_row ht]

theorem row_single {i : Nat} (f : List Nat → α) (hi : i < k) :
    (ofFn [k] f).row i = scalar (f [i]) := by
  rw [row_ofFn (s := []) f hi]
  rfl

theorem get_single (ht : t.shape = [k]) (i : Nat) :
    t.get [i] = (t.row i).get [] :=
  (get_row ht (show Shape.Within [] [] from trivial)).symm

theorem sumEvent_rows (ht : t.shape = k :: d) :
    t.sumEvent.shape = [k] ∧ forall i, i < k ->
      t.sumEvent.row i = scalar (Scalar.sum (t.row i).toList) := by
  have heq : t.sumEvent = ofFn [k] fun index => Scalar.sum (t.event (index.headD 0)) := by
    unfold sumEvent
    split
    · rename_i hnil
      rw [ht] at hnil
      cases hnil
    · rename_i hcons
      rw [ht] at hcons
      cases hcons
      rfl
  rw [heq]
  refine ⟨rfl, ?_⟩
  intro i hi
  rw [row_single _ hi, toList_row ht]
  unfold event
  rw [ht]
  rfl

end Tensor

/-!
# Values and Jacobians
-/

namespace Constraint

open Tensor

variable {c : Constraint} {b : Interval} {dim : Shape} {size : Nat}

theorem freeSize_pos (hdim : dim.IsDim)
    (h : (c.freeSize? (dim.map Int.ofNat)).map Int.toNat = some size) : 0 < size := by
  rcases freeSize_cases h with ⟨_, n, _, hn, rfl⟩ | ⟨_, n, _, hn, rfl⟩ | ⟨_, rfl⟩
  · exact Nat.lt_of_lt_of_le hn (Triangle.le_size n)
  · exact Nat.lt_of_lt_of_le hn (Triangle.le_size n)
  · exact Value.size_pos hdim.positive

variable {α : Type} [Scalar α]

def onFree {ε : Type} (f : Tensor α → Except ε (Tensor α)) (ts : List (Tensor α)) :
    Except ε (Tensor α) :=
  f (ts.headD default)

theorem forward_rowWise (l u : α)
    (hsize : (c.freeSize? (dim.map Int.ofNat)).map Int.toNat = some size) :
    ∃ s : Shape, s.size = dim.size ∧ RowWise (onFree (c.forward l u)) [[size]] s := by
  have hscalar : forall (f : α → α), (forall x, c.forward l u x = .ok (x.map f)) ->
      RowWise (onFree (c.forward l u)) [[size]] [size] := by
    intro f hf
    apply rowWise₁ fun t => t.map f
    intro k t ht
    exact ⟨t.map f, hf t, ht, fun i hi => row_map f ht hi⟩
  rcases freeSize_cases hsize with
    ⟨rfl, n, rfl, hn, rfl⟩ | ⟨rfl, n, rfl, hn, rfl⟩ | ⟨hmatrix, rfl⟩
  · refine ⟨[n + 1, n + 1], rfl, ?_⟩
    let f : List α → List α := fun v => (correlationMatrix (n + 1) v).flatten
    apply rowWise₁ fun t => ofFn [n + 1, n + 1] fun index =>
      (f t.toList).toArray.getD (Shape.offset [n + 1, n + 1] index) Scalar.undefined
    intro k t ht
    refine ⟨t.mapVectors [n + 1, n + 1] f, ?_, mapVectors_rows _ f ht⟩
    unfold onFree forward sideOf
    simp [ht, Triangle.root?_size hn, Except.map, f]
  · refine ⟨[n, n], rfl, ?_⟩
    let f : List α → List α := fun v => (covarianceMatrix n v).flatten
    apply rowWise₁ fun t => ofFn [n, n] fun index =>
      (f t.toList).toArray.getD (Shape.offset [n, n] index) Scalar.undefined
    intro k t ht
    refine ⟨t.mapVectors [n, n] f, ?_, mapVectors_rows _ f ht⟩
    unfold onFree forward sideOf
    simp [ht, Triangle.root?_size hn, Except.map, f]
  · refine ⟨[dim.size], Nat.mul_one _, ?_⟩
    cases c with
    | unconstrained =>
        apply rowWise₁ id
        intro k t ht
        exact ⟨t, rfl, ht, fun _ _ => rfl⟩
    | interval => exact hscalar _ fun _ => rfl
    | upperBounded => exact hscalar _ fun _ => rfl
    | lowerBounded => exact hscalar _ fun _ => rfl
    | correlation => cases hmatrix
    | covariance => cases hmatrix

theorem fromFree_rowWise (b : Interval) (hdim : dim.IsDim)
    (hsize : (c.freeSize? (dim.map Int.ofNat)).map Int.toNat = some size) :
    RowWise (onFree (α := α) (c.fromFree b dim)) [[size]] dim := by
  rcases forward_rowWise (Scalar.literal b.lower : α) (Scalar.literal b.upper) hsize with
    ⟨s, hs, hforward⟩
  rcases hforward.single with ⟨g, hg⟩
  apply rowWise₁ fun t => ofFn dim fun index =>
    (g t).get ((g t).shape.unravel (dim.offset index))
  intro k t ht
  rcases hg k t ht with ⟨r, hr, hshape, hrow⟩
  rcases reshapeRows_rows hshape hdim.positive hs.symm with ⟨r', hr', hshape', hrow'⟩
  refine ⟨r', ?_, hshape', ?_⟩
  · unfold onFree fromFree
    unfold onFree at hr
    rw [List.headD_cons] at hr ⊢
    rw [hr]
    simp only [hr']
    rfl
  · intro i hi
    rw [hrow' i hi, hrow i hi]

theorem logJacobian_unconstrained (l u : α) (size : Nat) :
    RowWise (onFree (unconstrained.logJacobian l u)) [[size]] [] := by
  apply rowWise₁ fun _ => scalar Scalar.zero
  intro k t ht
  refine ⟨full [k] Scalar.zero, ?_, rfl, ?_⟩
  · unfold onFree logJacobian
    simp [ht]
  · intro i hi
    exact row_single _ hi

theorem logJacobian_interval {l u : α} (hwidth : Scalar.lessEq (u - l) Scalar.zero = false)
    (size : Nat) : RowWise (onFree (interval.logJacobian l u)) [[size]] [] := by
  let f : α → α := fun v =>
    v - Scalar.ofNat 2 * Scalar.softplus v + Scalar.log (u - l)
  apply rowWise₁ fun t => scalar (Scalar.sum (t.map f).toList)
  intro k t ht
  have hshape : (t.map f).shape = [k, size] := ht
  rcases sumEvent_rows hshape with ⟨hsum, hsums⟩
  refine ⟨(t.map f).sumEvent, ?_, hsum, ?_⟩
  · unfold onFree logJacobian
    rw [hwidth]
    rfl
  · intro i hi
    rw [hsums i hi, row_map f ht hi]

theorem logJacobian_correlation (l u : α) {n : Nat} (hn : 1 ≤ n) :
    RowWise (onFree (correlation.logJacobian l u)) [[Triangle.size n]] [] := by
  let weight : List Nat → α := fun index => Scalar.ofNat
    (correlationPower (n + 1) ((Triangle.columns (n + 1)).toArray.getD (index.getLastD 0) 0))
  apply rowWise₁ fun t => scalar
    (Scalar.sum (t.map logOneMinusTanhSquare).toList + Scalar.half *
      Scalar.sum (ofFn t.shape fun index =>
        weight index * (t.map logOneMinusTanhSquare).get index).toList)
  intro k t ht
  let logs := t.map logOneMinusTanhSquare
  let weighted := ofFn t.shape fun index => weight index * logs.get index
  have hlogs : logs.shape = [k, Triangle.size n] := ht
  have hweighted : weighted.shape = [k, Triangle.size n] := ht
  rcases sumEvent_rows hlogs with ⟨hplain, hplains⟩
  rcases sumEvent_rows hweighted with ⟨hpower, hpowers⟩
  have hjacobian : onFree (logJacobian correlation l u) [t] =
      .ok (ofFn logs.sumEvent.shape fun index =>
        logs.sumEvent.get index + Scalar.half * weighted.sumEvent.get index) := by
    unfold onFree logJacobian sideOf
    simp [ht, Triangle.root?_size hn, Except.map, correlationLogJacobian, logs, weighted,
      weight]
  refine ⟨_, hjacobian, hplain, ?_⟩
  intro i hi
  have hrow : logs.row i = (t.row i).map logOneMinusTanhSquare := row_map _ ht hi
  have hrow' : weighted.row i = ofFn (t.row i).shape fun index =>
      weight index * ((t.row i).map logOneMinusTanhSquare).get index := by
    rw [← hrow, shape_row ht]
    unfold weighted
    rw [ht]
    refine (row_ofFn _ hi).trans (ofFn_congr ?_)
    intro index hindex
    rw [get_row hlogs hindex]
    cases index with
    | nil => exact absurd hindex id
    | cons j rest => rfl
  rw [hplain, row_single _ hi, get_single hplain i, hplains i hi, get_single hpower i,
    hpowers i hi, hrow, hrow']
  rfl

theorem logJacobian_covariance (l u : α) {n : Nat} (hn : 1 ≤ n) :
    RowWise (onFree (covariance.logJacobian l u)) [[Triangle.size n]] [] := by
  apply rowWise₁ fun t => scalar
    (Scalar.ofNat n * Scalar.log (Scalar.ofNat 2) +
      Scalar.sum ((List.range n).map fun i => Scalar.ofNat (n + 1 - i) * t.get [i]))
  intro k t ht
  have hjacobian : onFree (logJacobian covariance l u) [t] =
      .ok (covarianceLogJacobian n t) := by
    unfold onFree logJacobian sideOf
    simp [ht, Triangle.root?_size hn, Except.map]
  refine ⟨covarianceLogJacobian n t, hjacobian, ?_, ?_⟩
  · unfold covarianceLogJacobian
    rw [ht]
    rfl
  · intro i hi
    unfold covarianceLogJacobian
    rw [ht]
    refine (row_single _ hi).trans ?_
    congr 3
    apply List.map_congr_left
    intro j hj
    have hle := Triangle.le_size n
    have hlt : j < n := List.mem_range.mp hj
    have hwithin : Shape.Within [Triangle.size n] [j] := ⟨by omega, trivial⟩
    rw [get_row ht hwithin]
    rfl

theorem logJacobian_rowWise (l u : α)
    (hwidth : c = .interval -> Scalar.lessEq (u - l) Scalar.zero = false)
    (hsize : (c.freeSize? (dim.map Int.ofNat)).map Int.toNat = some size) :
    RowWise (onFree (c.logJacobian l u)) [[size]] [] := by
  have hsum : (forall x, c.logJacobian l u x = .ok x.sumEvent) ->
      RowWise (onFree (c.logJacobian l u)) [[size]] [] := by
    intro heq
    apply rowWise₁ fun t => scalar (Scalar.sum t.toList)
    intro k t ht
    exact ⟨t.sumEvent, heq t, sumEvent_rows ht⟩
  rcases freeSize_cases hsize with
    ⟨rfl, n, rfl, hn, rfl⟩ | ⟨rfl, n, rfl, hn, rfl⟩ | ⟨hmatrix, rfl⟩
  · exact logJacobian_correlation l u hn
  · exact logJacobian_covariance l u hn
  · cases c with
    | unconstrained => exact logJacobian_unconstrained l u _
    | interval => exact logJacobian_interval (hwidth rfl) _
    | upperBounded => exact hsum fun _ => rfl
    | lowerBounded => exact hsum fun _ => rfl
    | correlation => cases hmatrix
    | covariance => cases hmatrix

theorem logJacobianBetween_rowWise (b : Interval)
    (hwidth : c = .interval -> Scalar.lessEq
      ((Scalar.literal b.upper : α) - Scalar.literal b.lower) Scalar.zero = false)
    (hsize : (c.freeSize? (dim.map Int.ofNat)).map Int.toNat = some size) :
    RowWise (onFree (α := α) (c.logJacobianBetween b)) [[size]] [] := by
  rcases logJacobian_rowWise (Scalar.literal b.lower : α) (Scalar.literal b.upper) hwidth hsize
    with ⟨g, hjacobian⟩
  refine ⟨g, ?_⟩
  intro k ts hts
  rcases hjacobian k ts hts with ⟨r, hr, hrest⟩
  refine ⟨r, ?_, hrest⟩
  unfold onFree at hr ⊢
  unfold logJacobianBetween
  rw [hr]

end Constraint
end DensityGraph
