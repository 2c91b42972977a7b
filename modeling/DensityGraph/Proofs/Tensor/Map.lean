import DensityGraph.Proofs.Constraint.RowWise
/-!
# Maps of entries

A function that is applied to all entries of a tensor may be applied before or after the
entries are moved to other places.
-/

namespace DensityGraph
namespace Tensor

/-!
# Tensors that are built and reshaped
-/

section Entries

variable {α β : Type} {t : Tensor α} {s : Shape}

theorem map_ofFn (f : α → β) (g : List Nat → α) :
    (ofFn s g).map f = ofFn s fun index => f (g index) := by
  unfold map ofFn
  simp only [Array.map_ofFn, Function.comp_def]

theorem map_scalar (f : α → β) (x : α) : (scalar x).map f = scalar (f x) := by
  unfold map scalar
  simp only [List.map_toArray, List.map_singleton]

theorem toList_map (f : α → β) (t : Tensor α) : (t.map f).toList = t.toList.map f := by
  unfold map toList
  rw [Array.toList_map]

theorem map_map {γ : Type} (g : β → γ) (f : α → β) (t : Tensor α) :
    (t.map f).map g = t.map (g ∘ f) := by
  unfold map
  simp only [Array.map_map]

theorem map_congr {f g : α → β} (h : forall a, a ∈ t.toList -> f a = g a) :
    t.map f = t.map g := by
  have hentries : t.entries.map f = t.entries.map g :=
    Array.map_congr_left fun a ha => h a (Array.mem_toList_iff.mpr ha)
  unfold map
  simp only [hentries]

theorem reshape?_map (f : α → β) (t : Tensor α) (s : Shape) :
    (t.map f).reshape? s = (t.reshape? s).map (map f) := by
  unfold reshape? ofArray?
  by_cases h : t.entries.size = s.size
  · rw [dif_pos h, dif_pos (by rw [map, Array.size_map, h])]
    rfl
  · rw [dif_neg h, dif_neg (by rw [map, Array.size_map]; exact h)]
    rfl

theorem toList_of_reshape? {r : Tensor α} (h : t.reshape? s = some r) : r.toList = t.toList := by
  unfold reshape? ofArray? at h
  split at h
  · cases h
    rfl
  · cases h

theorem reshapeRows_map (f : α → β) (t : Tensor α) (dim : List Int) :
    (t.map f).reshapeRows dim = (t.reshapeRows dim).map (map f) := by
  unfold reshapeRows
  rw [shape_map]
  cases Shape.complete? t.shape.size (-1 :: dim) with
  | none => rfl
  | some s =>
      simp only [reshape?_map]
      cases t.reshape? s with
      | none => rfl
      | some r => rfl

end Entries

/-!
# Rows and vectors
-/

variable {α β : Type} [Scalar α] [Scalar β] {t : Tensor α} {f : α → β} {k : Nat} {d : Shape}

theorem mapVectors_map {size : Nat} {inner : Shape} {g : List α → List α}
    {g' : List β → List β} (ht : t.shape = [k, size])
    (hlength : forall v : List α, v.length = size -> (g v).length = inner.size)
    (hg : forall v : List α, v.length = size -> g' (v.map f) = (g v).map f) :
    (t.map f).mapVectors inner g' = (t.mapVectors inner g).map f := by
  have ht' : (t.map f).shape = [k, size] := ht
  rcases mapVectors_rows inner g ht with ⟨hshape, hrows⟩
  rcases mapVectors_rows inner g' ht' with ⟨hshape', hrows'⟩
  refine ext_row hshape' hshape ?_
  intro i hi
  have hsize : (t.row i).toList.length = size := by
    rw [length_toList, shape_row ht, Shape.size_cons, Shape.size_nil, Nat.mul_one]
  rw [hrows' i hi, row_map f hshape hi, hrows i hi, row_map f ht hi, toList_map, hg _ hsize,
    map_ofFn]
  apply ofFn_congr
  intro index hindex
  have hlt : inner.offset index < (g (t.row i).toList).length := by
    rw [hlength _ hsize]
    exact Shape.offset_lt hindex
  simp [Array.getD_eq_getD_getElem?, hlt]

theorem sumEvent_map (hsum : forall xs : List α, Scalar.sum (xs.map f) = f (Scalar.sum xs))
    (ht : t.shape = k :: d) : (t.map f).sumEvent = t.sumEvent.map f := by
  have ht' : (t.map f).shape = k :: d := ht
  rcases sumEvent_rows ht with ⟨hshape, hrows⟩
  rcases sumEvent_rows ht' with ⟨hshape', hrows'⟩
  refine ext_row hshape' hshape ?_
  intro i hi
  rw [hrows' i hi, row_map f hshape hi, hrows i hi, row_map f ht hi, toList_map, hsum, map_scalar]

end Tensor

end DensityGraph
