import DensityGraph.Proofs.Constraint.RowWise
import DensityGraph.Tensor.Matrix
import Mathlib.Data.List.GetD
/-!
# Square matrices in tensors

A single free vector is a tensor with one axis.  The value that is made of it is the tensor
that is filled with the rows of a matrix, and the rows are read off it again.
-/

namespace DensityGraph
namespace Tensor

variable {α : Type} [Scalar α]

omit [Scalar α] in
theorem getD_flatten {rows : Rows α} {n i j : Nat} (hlength : forall r, r ∈ rows -> r.length = n)
    (hi : i < rows.length) (hj : j < n) (d : α) :
    rows.flatten.getD (i * n + j) d = (rows.getD i []).getD j d := by
  induction rows generalizing i with
  | nil => cases hi
  | cons r rows ih =>
      have hr : r.length = n := hlength r (List.mem_cons_self ..)
      rw [List.flatten_cons]
      cases i with
      | zero =>
          rw [Nat.zero_mul, Nat.zero_add, List.getD_append _ _ _ _ (hr ▸ hj), List.getD_cons_zero]
      | succ i =>
          have hshift : (i + 1) * n + j - r.length = i * n + j := by
            rw [hr, Nat.succ_mul]
            omega
          rw [List.getD_append_right _ _ _ _ (by rw [hr, Nat.succ_mul]; omega), hshift,
            List.getD_cons_succ]
          exact ih (fun r' hr' => hlength r' (List.mem_cons_of_mem _ hr'))
            (Nat.lt_of_succ_lt_succ hi)

theorem get_vector {xs : List α} {i : Nat} (hi : i < xs.length) : (vector xs).get [i] = xs[i] := by
  unfold vector get
  simp [Shape.offset, Shape.size, hi]

theorem vectorAt_vector (xs : List α) : (vector xs).vectorAt [] = xs := by
  unfold vectorAt
  apply List.ext_getElem
  · rw [List.length_map, List.length_range]
    rfl
  · intro i _ hi
    rw [List.getElem_map, List.getElem_range, List.nil_append, get_vector hi]

theorem mapVectors_vector (inner : Shape) (f : List α → List α) (xs : List α) :
    (vector xs).mapVectors inner f = ofFn inner fun index =>
      (f xs).toArray.getD (inner.offset index) Scalar.undefined := by
  have hresult : (Array.ofFn fun b : Fin (Shape.size []) =>
      (f ((vector xs).vectorAt (Shape.unravel [] b))).toArray).getD 0 #[] = (f xs).toArray := by
    rw [getD_ofFn _ (show 0 < Shape.size [] from Nat.one_pos)]
    unfold Shape.unravel
    rw [vectorAt_vector]
  unfold mapVectors
  apply ofFn_congr
  intro index _
  exact congrArg (fun results => results.getD (inner.offset index) Scalar.undefined) hresult

theorem ofTensor_ofFn {rows : Rows α} {n : Nat} (hn : rows.length = n)
    (hlength : forall r, r ∈ rows -> r.length = n) (d : α) :
    Rows.ofTensor (ofFn [n, n] fun index =>
      rows.flatten.toArray.getD (Shape.offset [n, n] index) d) [] = rows := by
  unfold Rows.ofTensor Rows.ofFn
  apply List.ext_getElem
  · rw [List.length_map, List.length_range, hn]
    rfl
  · intro i _ hi
    rw [List.getElem_map, List.getElem_range]
    have hrow : rows[i].length = n := hlength _ (List.getElem_mem hi)
    apply List.ext_getElem
    · rw [List.length_map, List.length_range, hrow]
      rfl
    · intro j _ hj
      have hj' : j < n := hrow ▸ hj
      have hoffset : Shape.offset [n, n] [i, j] = i * n + j := by
        simp [Shape.offset, Shape.size]
      have hget : forall k, rows.flatten.toArray.getD k d = rows.flatten.getD k d := by
        intro k
        rw [Array.getD_eq_getD_getElem?, List.getElem?_toArray, List.getD_eq_getElem?_getD]
      have hwithin : Shape.Within [n, n] [i, j] := ⟨hn ▸ hi, hj', trivial⟩
      rw [List.getElem_map, List.getElem_range]
      dsimp only
      rw [List.nil_append, get_ofFn _ hwithin, hoffset, hget,
        getD_flatten hlength hi hj', List.getD_eq_getElem _ _ hi, List.getD_eq_getElem _ _ hj]

theorem columns_square {s : Shape} {n : Nat} (hs : s = [n, n]) : columns s = n := by
  rw [hs]
  rfl

theorem get_ofTensor {t : Tensor α} {n i j : Nat} (ht : t.shape = [n, n]) (hi : i < n)
    (hj : j < n) : (Rows.ofTensor t []).get i j = t.get [i, j] := by
  unfold Rows.ofTensor Rows.ofFn Rows.get
  rw [columns_square ht]
  simp only [List.getD_eq_getElem?_getD, List.getElem?_map, List.getElem?_range hi,
    List.getElem?_range hj, Option.map_some, Option.getD_some, List.nil_append]

theorem ext_square {t u : Tensor α} {n : Nat} (ht : t.shape = [n, n]) (hu : u.shape = [n, n])
    (h : forall i j, i < n -> j < n -> t.get [i, j] = u.get [i, j]) : t = u := by
  apply ext_get (ht.trans hu.symm)
  intro index hindex
  rw [ht] at hindex
  match index, hindex with
  | [i, j], hindex => exact h i j hindex.1 hindex.2.1
  | _ :: _ :: _ :: _, hindex => exact absurd hindex.2.2 id
  | [_], hindex => exact absurd hindex.2 id
  | [], hindex => exact absurd hindex id

end Tensor

end DensityGraph
