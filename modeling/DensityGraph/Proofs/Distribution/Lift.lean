import DensityGraph.Proofs.Tensor.RowWise
import DensityGraph.Proofs.Tensor.Spread
/-!
# Functions of several tensors

Tensors with equally many axes broadcast axis by axis, so that the batch axis stays in
front.  A function that is applied to all of them entry by entry then works row by row.
-/

namespace DensityGraph

namespace Shape

variable {s t u : Shape} {k : Nat}

theorem joins_of_joinReversed? (h : joinReversed? s t = some u) (hlength : s.length = t.length) :
    Joins s t u := by
  induction s generalizing t u with
  | nil =>
      cases t with
      | nil =>
          cases h
          exact Joins.nil
      | cons n t => cases hlength
  | cons m s ih =>
      cases t with
      | nil => cases hlength
      | cons n t =>
          rcases joinReversed?_cons_eq_some.mp h with ⟨k, v, hk, hrest, rfl⟩
          exact Joins.cons hk (ih hrest (Nat.succ.inj hlength))

theorem joins_of_join? (h : join? s t = some u) (hlength : s.length = t.length) :
    Joins s t u := by
  unfold join? at h
  rcases Option.map_eq_some_iff.mp h with ⟨v, hv, rfl⟩
  have hreversed : Joins s.reverse t.reverse v := by
    apply joins_of_joinReversed? hv
    rw [List.length_reverse, List.length_reverse, hlength]
  have hjoins := hreversed.reverse
  rwa [List.reverse_reverse, List.reverse_reverse] at hjoins

theorem single_of_joinReversed? (h : joinReversed? s t = some u) (hs : s.getLast? = some 1)
    (ht : t.getLast? = some 1) : u.getLast? = some 1 := by
  induction s generalizing t u with
  | nil => cases hs
  | cons m s ih =>
      cases t with
      | nil => cases ht
      | cons n t =>
          rcases joinReversed?_cons_eq_some.mp h with ⟨k, v, hk, hrest, rfl⟩
          rw [List.getLast?_cons] at hs ht ⊢
          -- The last axis is reached in both shapes, in one of them, or not yet.
          cases s with
          | nil =>
              cases t with
              | nil =>
                  cases hs
                  cases ht
                  cases hk
                  cases hrest
                  rfl
              | cons b t =>
                  cases hrest
                  exact ht
          | cons a s =>
              cases t with
              | nil =>
                  cases hrest
                  exact hs
              | cons b t =>
                  rw [ih hrest hs ht]
                  rfl

theorem single_of_join? (h : join? s t = some u) (hs : s.head? = some 1)
    (ht : t.head? = some 1) : u.head? = some 1 := by
  unfold join? at h
  rcases Option.map_eq_some_iff.mp h with ⟨v, hv, rfl⟩
  rw [← List.getLast?_reverse] at hs ht
  rw [List.head?_reverse]
  exact single_of_joinReversed? hv hs ht

inductive Meets : Shape → List Shape → Shape → Prop where
  | nil (s : Shape) : Meets s [] s
  | cons {s d v u : Shape} {ds : List Shape} : Joins s d v -> Meets v ds u ->
      Meets s (d :: ds) u

theorem Meets.stretches {ds : List Shape} (h : Meets s ds u) :
    forall d, d ∈ s :: ds -> Stretches d u := by
  induction h with
  | nil s =>
      intro d hd
      rw [List.mem_singleton.mp hd]
      exact stretches_self s
  | @cons s d v u ds hjoins _ ih =>
      have hv : Stretches v u := ih v List.mem_cons_self
      intro e he
      rcases List.mem_cons.mp he with rfl | he
      · exact hjoins.stretches.trans hv
      · rcases List.mem_cons.mp he with rfl | he
        · exact hjoins.symm.stretches.trans hv
        · exact ih e (List.mem_cons_of_mem v he)

end Shape

namespace Tensor

open Shape

variable {α : Type} {s u : Shape} {ds : List Shape} {ts : List (Tensor α)} {k : Nat}

theorem joinShapes_of_meets (h : Meets s ds u)
    (hts : List.Forall₂ (fun t d => t.shape = k :: d) ts ds) :
    joinShapes (k :: s) ts = .ok (k :: u) := by
  induction h generalizing ts with
  | nil s =>
      cases hts
      rfl
  | cons hjoins _ ih =>
      cases hts with
      | cons ht hrest =>
          unfold joinShapes
          rw [ht, (Joins.cons (joinAxis?_self k) hjoins).join?]
          exact ih hrest

theorem meets_of_joinShapes {r : Shape}
    (hts : List.Forall₂ (fun t d => t.shape = k :: d) ts ds)
    (hlength : forall d, d ∈ ds -> d.length = s.length)
    (h : joinShapes (k :: s) ts = .ok r) : ∃ u, Meets s ds u := by
  induction hts generalizing s with
  | nil => exact ⟨s, Meets.nil s⟩
  | @cons t d ts ds ht hrest ih =>
      rcases joinShapes_cons_eq_ok.mp h with ⟨v, hjoin, htail⟩
      rw [ht] at hjoin
      have hd : d.length = s.length := hlength d List.mem_cons_self
      cases joins_of_join? hjoin (congrArg Nat.succ hd.symm) with
      | @cons _ _ j _ _ v hk hjoins =>
          rw [joinAxis?_self] at hk
          cases hk
          have hv : forall e, e ∈ ds -> e.length = v.length := by
            intro e he
            rw [hlength e (List.mem_cons_of_mem d he), hjoins.length_left]
          rcases ih hv htail with ⟨u, hu⟩
          exact ⟨u, Meets.cons hjoins hu⟩

theorem meets_of_mapAll [Scalar α] {f : List α → α} {t r : Tensor α} (ht : t.shape = k :: s)
    (hts : List.Forall₂ (fun t d => t.shape = k :: d) ts ds)
    (hlength : forall d, d ∈ ds -> d.length = s.length) (h : mapAll f (t :: ts) = .ok r) :
    ∃ u, Meets s ds u := by
  have hjoin := joinShapes_of_mapAll h
  rw [joinShapes_nil_cons, ht] at hjoin
  exact meets_of_joinShapes hts hlength hjoin

theorem single_of_joinShapes {r : Shape} (hs : s.head? = some 1)
    (hts : forall t, t ∈ ts -> t.shape.head? = some 1) (h : joinShapes s ts = .ok r) :
    r.head? = some 1 := by
  induction ts generalizing s with
  | nil =>
      cases h
      exact hs
  | cons t ts ih =>
      rcases joinShapes_cons_eq_ok.mp h with ⟨v, hjoin, htail⟩
      exact ih (single_of_join? hjoin hs (hts t List.mem_cons_self))
        (fun u hu => hts u (List.mem_cons_of_mem t hu)) htail

theorem single_of_mapAll [Scalar α] {f : List α → α} {r : Tensor α} (hne : ts ≠ [])
    (hts : forall t, t ∈ ts -> t.shape.head? = some 1) (h : mapAll f ts = .ok r) :
    r.shape.head? = some 1 := by
  cases ts with
  | nil => exact absurd rfl hne
  | cons t ts =>
      have hjoin := joinShapes_of_mapAll h
      rw [joinShapes_nil_cons] at hjoin
      exact single_of_joinShapes (hts t List.mem_cons_self)
        (fun u hu => hts u (List.mem_cons_of_mem t hu)) hjoin

theorem mapAll_rows [Scalar α] (f : List α → α) (h : Meets s ds u) :
    ByRows (mapAll f) (fun rows => ofFn u fun index =>
      f (rows.map fun r => r.get (r.shape.project index))) (s :: ds) u := by
  intro k ts hall
  cases hall with
  | @cons t _ ts _ ht hrest =>
      have hts : List.Forall₂ (fun t d => t.shape = k :: d) (t :: ts) (s :: ds) :=
        List.Forall₂.cons ht hrest
      have hjoin : joinShapes [] (t :: ts) = .ok (k :: u) := by
        rw [joinShapes_nil_cons, ht]
        exact joinShapes_of_meets h hrest
      refine ⟨_, mapAll_of_joinShapes f hjoin, rfl, ?_⟩
      intro i hi
      rw [row_ofFn _ hi]
      apply ofFn_congr
      intro index hindex
      rw [List.map_map]
      congr 1
      apply List.map_congr_left
      intro r hr
      rcases exists_right_of_forall₂ hts hr with ⟨d, hd, hshape⟩
      have hstretches := h.stretches d hd
      have hlength : index.length = d.length :=
        (length_of_within hindex).trans hstretches.length_eq.symm
      exact get_project_row hshape hi hlength (within_project hstretches hindex)

end Tensor
end DensityGraph
