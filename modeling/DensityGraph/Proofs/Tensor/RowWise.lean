import DensityGraph.Proofs.Tensor.Rows
import DensityGraph.Tensor.Reduce
/-!
# Computations row by row

A computation on batches works row by row if it makes each row of its result from the
same rows of its arguments, in a way that does not depend on how many rows there are.
-/

namespace DensityGraph

namespace Shape

variable {s t : Shape} {index : List Nat}

theorem within_append : Within (s ++ t) index ↔
    ∃ front back, index = front ++ back ∧ Within s front ∧ Within t back := by
  induction s generalizing index with
  | nil =>
      constructor
      · intro h
        exact ⟨[], index, rfl, trivial, h⟩
      · rintro ⟨front, back, rfl, hfront, hback⟩
        cases front with
        | nil => exact hback
        | cons i rest => exact absurd hfront id
  | cons n s ih =>
      constructor
      · intro h
        cases index with
        | nil => exact absurd h id
        | cons i rest =>
            rcases ih.mp h.2 with ⟨front, back, rfl, hfront, hback⟩
            exact ⟨i :: front, back, rfl, ⟨h.1, hfront⟩, hback⟩
      · rintro ⟨front, back, rfl, hfront, hback⟩
        cases front with
        | nil => exact absurd hfront id
        | cons i rest => exact ⟨hfront.1, ih.mpr ⟨rest, back, rfl, hfront.2, hback⟩⟩

theorem project_row {k i : Nat} (hi : i < k) (h : index.length = s.length) :
    project (k :: s) (i :: index) = i :: project s index := by
  rw [project_cons h]
  split
  · rename_i hone
    have hzero : i = 0 := by omega
    rw [hzero]
  · rfl

end Shape

namespace Tensor

section Rows

variable {α : Type} [Inhabited α] {t : Tensor α} {k i : Nat} {d s : Shape}

theorem toList_row (h : t.shape = k :: s) : (t.row i).toList =
    (List.range s.size).map fun q => t.get (i :: s.unravel q) := by
  unfold row ofFn toList
  rw [h, List.tail_cons]
  apply List.ext_getElem
  · simp
  · intro q _ _
    simp

theorem get_project_row (h : t.shape = k :: d) (hi : i < k) {index : List Nat}
    (hlength : index.length = d.length) (hindex : d.Within (d.project index)) :
    t.get (t.shape.project (i :: index)) = (t.row i).get ((t.row i).shape.project index) := by
  rw [shape_row h, h, Shape.project_row hi hlength, get_row h hindex]

/-!
# The same entries in another shape
-/

omit [Inhabited α] in
theorem reshape?_self (t : Tensor α) : t.reshape? t.shape = some t := by
  unfold reshape? ofArray?
  rw [dif_pos t.size_entries]

theorem row_reshape? {dim : Shape} {r : Tensor α} (h : t.shape = k :: s)
    (hsize : dim.size = s.size) (hr : t.reshape? (k :: dim) = some r) (i : Nat) :
    r.row i = ofFn dim fun index => (t.row i).get (s.unravel (dim.offset index)) := by
  unfold reshape? ofArray? at hr
  split at hr
  · cases hr
    unfold row
    rw [List.tail_cons]
    apply ofFn_congr
    intro index hindex
    have hlt : dim.offset index < s.size := hsize ▸ Shape.offset_lt hindex
    have hwithin := Shape.within_unravel hlt
    rw [h, List.tail_cons, get_ofFn _ hwithin]
    unfold get
    rw [h]
    simp only [Shape.offset]
    rw [hsize, Shape.offset_unravel hlt]
  · cases hr

end Rows

/-!
# Rows of results
-/

variable {α ε : Type} [Inhabited α]

/-- A computation that makes rows of the shape `dim` from rows of the shapes `ds`, each
by the function `g` from the same rows of its arguments. -/
def ByRows (f : List (Tensor α) → Except ε (Tensor α)) (g : List (Tensor α) → Tensor α)
    (ds : List Shape) (dim : Shape) : Prop :=
  forall k ts, List.Forall₂ (fun t d => t.shape = k :: d) ts ds ->
    ∃ r, f ts = .ok r ∧ r.shape = k :: dim ∧
      forall i, i < k -> r.row i = g (ts.map fun t => t.row i)

def RowWise (f : List (Tensor α) → Except ε (Tensor α)) (ds : List Shape) (dim : Shape) :
    Prop :=
  ∃ g, ByRows f g ds dim

variable {f : List (Tensor α) → Except ε (Tensor α)} {ds : List Shape} {dim d e : Shape}

theorem rowWise₁ (g : Tensor α → Tensor α)
    (h : forall k t, t.shape = k :: d -> ∃ r, f [t] = .ok r ∧ r.shape = k :: dim ∧
      forall i, i < k -> r.row i = g (t.row i)) : RowWise f [d] dim := by
  refine ⟨fun rows => g (rows.headD default), ?_⟩
  intro k ts hts
  rcases hts with _ | ⟨hfirst, hrest⟩
  rcases hrest with _ | _
  exact h k _ hfirst

theorem RowWise.single (h : RowWise f [d] dim) : ∃ g : Tensor α → Tensor α,
    forall k t, t.shape = k :: d -> ∃ r, f [t] = .ok r ∧ r.shape = k :: dim ∧
      forall i, i < k -> r.row i = g (t.row i) := by
  rcases h with ⟨g, hg⟩
  refine ⟨fun r => g [r], ?_⟩
  intro k t ht
  exact hg k [t] (List.Forall₂.cons ht List.Forall₂.nil)

theorem rowWise₂ (g : Tensor α → Tensor α → Tensor α)
    (h : forall k t u, t.shape = k :: d -> u.shape = k :: e ->
      ∃ r, f [t, u] = .ok r ∧ r.shape = k :: dim ∧
        forall i, i < k -> r.row i = g (t.row i) (u.row i)) : RowWise f [d, e] dim := by
  refine ⟨fun rows => g (rows.headD default) (rows.tail.headD default), ?_⟩
  intro k ts hts
  rcases hts with _ | ⟨hfirst, hrest⟩
  rcases hrest with _ | ⟨hsecond, hrest⟩
  rcases hrest with _ | _
  exact h k _ _ hfirst hsecond

/-- Applied to matched batches, such a computation makes the row that stands for a
position from the rows that stand for it. -/
theorem ByRows.matched {g : List (Tensor α) → Tensor α} (h : ByRows f g ds dim) {n : Nat}
    {ts : List (Tensor α)} (hrows : List.Forall₂ (fun t d => HasRows n d t) ts ds) :
    ∃ r, f (ts.map (Tensor.matched (batch n ts))) = .ok r ∧ r.shape = batch n ts :: dim ∧
      forall i, i < n -> r.chain i = g (ts.map fun t => t.chain i) := by
  have hmem : List.Forall₂ (fun t d => t ∈ ts ∧ HasRows n d t) ts ds :=
    (List.forall₂_and_left _ _).mpr ⟨fun t ht => ht, hrows⟩
  have hshapes : List.Forall₂ (fun t d => t.shape = batch n ts :: d)
      (ts.map (Tensor.matched (batch n ts))) ds := by
    rw [List.forall₂_map_left_iff]
    apply hmem.imp
    intro t d ht
    exact shape_matched ht.2 ht.1
  rcases h _ _ hshapes with ⟨r, hr, hshape, hrow⟩
  refine ⟨r, hr, hshape, ?_⟩
  have hdims : forall t, t ∈ ts -> ∃ d, HasRows n d t := by
    intro t ht
    rcases exists_right_of_forall₂ hrows ht with ⟨d, _, hd⟩
    exact ⟨d, hd⟩
  have hchain : forall i, i < batch n ts ->
      r.row i = g (ts.map fun t => t.chain i) := by
    intro i hi
    rw [hrow i hi, List.map_map]
    congr 1
    apply List.map_congr_left
    intro t ht
    rcases hdims t ht with ⟨d, hd⟩
    exact row_matched hd ht hi
  intro i hi
  rcases batch_eq n ts with ⟨hbatch, _⟩ | ⟨hbatch, hnone⟩
  · have hlt : i < batch n ts := Nat.lt_of_lt_of_eq hi hbatch.symm
    rw [chain_of_lt hshape hlt]
    exact hchain i hlt
  · -- all of them have a single row, which stands for every position
    rw [hbatch] at hshape
    rw [chain_of_single hshape, hchain 0 (by rw [hbatch]; exact Nat.one_pos)]
    congr 1
    apply List.map_congr_left
    intro t ht
    rcases hdims t ht with ⟨d, k, hs, rfl | rfl⟩
    · rw [chain_of_single hs, chain_of_single hs]
    · exact absurd (by rw [hs, List.head?_cons]) (hnone t ht)

/-- Two runs of such a computation, on batches that are brought to `k` rows and on the rows
of a single chain. -/
theorem RowWise.isChain {ι : Type} {ids : List ι} {shapes : ι → Shape} {t u : ι → Tensor α}
    {n i k : Nat} (h : RowWise f (ids.map shapes) dim) (hi : i < n) (hk : k = 1 ∨ k = n)
    (hchains : forall id, id ∈ ids -> IsChain n i (shapes id) (t id) (u id))
    (hmatched : forall id, id ∈ ids -> (t id).shape.head? = some n -> k = n) :
    ∃ r q, f (ids.map fun id => (t id).matched k) = .ok r ∧ f (ids.map u) = .ok q ∧
      IsChain n i dim r q ∧ r.shape = k :: dim := by
  rcases h with ⟨g, hg⟩
  have hshapes : List.Forall₂ (fun t d => t.shape = k :: d)
      (ids.map fun id => (t id).matched k) (ids.map shapes) := by
    rw [List.forall₂_map_left_iff, List.forall₂_map_right_iff, List.forall₂_same]
    intro id hid
    rcases (hchains id hid).single_or_matched (hmatched id hid) with hs | hs
    · rw [matched_single hs]
      exact shape_repeatRows hs k
    · rw [matched_self hs, hs]
  have hshapes' : List.Forall₂ (fun t d => t.shape = 1 :: d) (ids.map u) (ids.map shapes) := by
    rw [List.forall₂_map_left_iff, List.forall₂_map_right_iff, List.forall₂_same]
    intro id hid
    exact (hchains id hid).shape
  rcases hg k _ hshapes with ⟨r, hr, hshape, hrow⟩
  rcases hg 1 _ hshapes' with ⟨q, hq, hshape', hrow'⟩
  refine ⟨r, q, hr, hq, ⟨⟨k, hshape, hk⟩, hshape', ?_⟩, hshape⟩
  have hrows : forall j, j < k -> (k = 1 ∨ j = i) -> r.row j = q.row 0 := by
    intro j hj hposition
    rw [hrow j hj, hrow' 0 Nat.one_pos, List.map_map, List.map_map]
    congr 1
    apply List.map_congr_left
    intro id hid
    have hchain := hchains id hid
    have hu : (u id).row 0 = (t id).chain i := by
      rw [← chain_of_single hchain.shape 0, hchain.chain]
    change ((t id).matched k).row j = (u id).row 0
    rw [hu]
    rcases hchain.single_or_matched (hmatched id hid) with hs | hs
    · rw [matched_single hs, row_repeatRows hs hj, chain_of_single hs]
    · rw [matched_self hs]
      rcases hposition with rfl | rfl
      · have hzero : j = 0 := by omega
        rw [hzero, chain_of_single hs]
      · rw [chain_of_lt hs hj]
  rw [chain_of_single hshape']
  rcases hk with rfl | rfl
  · rw [chain_of_single hshape, hrows 0 Nat.one_pos (Or.inl rfl)]
  · rw [chain_of_lt hshape hi, hrows i hi (Or.inr rfl)]

end Tensor
end DensityGraph
