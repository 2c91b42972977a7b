import Mathlib.Data.List.Forall2
import DensityGraph.Evaluation.Density
import DensityGraph.Proofs.Tensor.Broadcast
import DensityGraph.Proofs.Tensor.Rows
/-!
# Broadcasting from the last axis

Shapes with different numbers of axes are aligned at their last axes.  The common shape of
some tensors is then the least one that all of them spread to, and an index of it belongs to
an index of every shape in between.
-/

namespace DensityGraph

namespace Shape

variable {s t u v : Shape} {index : List Nat}

/-- A shape, written from its last axis, that is stretched and gets new axes in front to become
another one. -/
inductive Leads : Shape → Shape → Prop where
  | nil (u : Shape) : Leads [] u
  | cons {m k : Nat} {s u : Shape} : m = 1 ∨ m = k -> Leads s u -> Leads (m :: s) (k :: u)

/-- A shape that broadcasts to another one. -/
def Spreads (s u : Shape) : Prop :=
  Leads s.reverse u.reverse

/-!
# Common shapes
-/

namespace Leads

theorem refl (s : Shape) : Leads s s := by
  induction s with
  | nil => exact nil []
  | cons m s ih => exact cons (Or.inr rfl) ih

theorem trans (h : Leads s t) (h' : Leads t u) : Leads s u := by
  induction h generalizing u with
  | nil t => exact nil u
  | cons hfirst _ ih =>
      cases h' with
      | cons hnext hrest =>
          apply cons _ (ih hrest)
          rcases hfirst with hone | heq
          · exact Or.inl hone
          · rw [heq]
            exact hnext

theorem of_joinReversed? (h : joinReversed? s t = some u) : Leads s u ∧ Leads t u := by
  induction s generalizing t u with
  | nil =>
      cases h
      exact ⟨nil t, refl t⟩
  | cons m s ih =>
      cases t with
      | nil =>
          cases h
          exact ⟨refl (m :: s), nil (m :: s)⟩
      | cons n t =>
          rcases joinReversed?_cons_eq_some.mp h with ⟨k, v, hk, hrest, rfl⟩
          have hsizes : (m = 1 ∨ m = k) ∧ (n = 1 ∨ n = k) := by
            unfold joinAxis? at hk
            grind
          exact ⟨cons hsizes.1 (ih hrest).1, cons hsizes.2 (ih hrest).2⟩

theorem exists_joinReversed? (hs : Leads s u) (ht : Leads t u) :
    ∃ v, joinReversed? s t = some v ∧ Leads v u := by
  induction hs generalizing t with
  | nil u => exact ⟨t, rfl, ht⟩
  | @cons m k s u hm hrest ih =>
      cases ht with
      | nil => exact ⟨m :: s, rfl, cons hm hrest⟩
      | @cons n _ t _ hn hrest' =>
          rcases ih hrest' with ⟨v, hv, hlead⟩
          have haxis : ∃ j, joinAxis? m n = some j ∧ (j = 1 ∨ j = k) := by
            unfold joinAxis?
            grind
          rcases haxis with ⟨j, hj, hjk⟩
          refine ⟨j :: v, ?_, cons hjk hlead⟩
          unfold joinReversed?
          rw [hj, hv]

theorem joinReversed?_left (h : Leads s u) : joinReversed? u s = some u := by
  induction h with
  | nil u => cases u <;> rfl
  | @cons m k s u hm _ ih =>
      have haxis : joinAxis? k m = some k := by
        unfold joinAxis?
        grind
      unfold joinReversed?
      rw [haxis, ih]

end Leads

theorem Spreads.refl (s : Shape) : Spreads s s :=
  Leads.refl s.reverse

theorem Spreads.trans (h : Spreads s t) (h' : Spreads t u) : Spreads s u :=
  Leads.trans h h'

theorem spreads_of_join? (h : join? s t = some u) : Spreads s u ∧ Spreads t u := by
  unfold join? at h
  rcases Option.map_eq_some_iff.mp h with ⟨v, hv, rfl⟩
  unfold Spreads
  rw [List.reverse_reverse]
  exact Leads.of_joinReversed? hv

theorem exists_join? (hs : Spreads s u) (ht : Spreads t u) :
    ∃ v, join? s t = some v ∧ Spreads v u := by
  rcases Leads.exists_joinReversed? hs ht with ⟨v, hv, hlead⟩
  refine ⟨v.reverse, ?_, ?_⟩
  · unfold join?
    rw [hv, Option.map_some]
  · unfold Spreads
    rwa [List.reverse_reverse]

theorem join?_of_spreads (h : Spreads s u) : join? u s = some u := by
  unfold join?
  rw [Leads.joinReversed?_left h, Option.map_some, List.reverse_reverse]

/-!
# Indices
-/

theorem within_iff_forall₂ : Within s index ↔ List.Forall₂ (fun i n => i < n) index s := by
  induction s generalizing index with
  | nil =>
      cases index with
      | nil => exact ⟨fun _ => List.Forall₂.nil, fun _ => trivial⟩
      | cons i rest => exact ⟨fun h => absurd h id, nofun⟩
  | cons n s ih =>
      cases index with
      | nil => exact ⟨fun h => absurd h id, nofun⟩
      | cons i rest =>
          rw [List.forall₂_cons, ← ih]
          rfl

def place (i n : Nat) : Nat :=
  if n = 1 then 0 else i

theorem project_reverse (h : s.length ≤ index.length) :
    (project s index).reverse = List.zipWith place index.reverse s.reverse := by
  let front := index.take (index.length - s.length)
  let back := index.drop (index.length - s.length)
  have hlength : back.length = s.length := by
    rw [List.length_drop]
    omega
  have hlength' : back.reverse.length = s.reverse.length := by
    rw [List.length_reverse, List.length_reverse, hlength]
  have hsplit : index.reverse = back.reverse ++ front.reverse := by
    rw [← List.reverse_append, List.take_append_drop]
  calc
    (project s index).reverse = List.zipWith place back.reverse s.reverse :=
      List.reverse_zipWith hlength
    _ = List.zipWith place back.reverse s.reverse ++ List.zipWith place front.reverse [] := by
      rw [List.zipWith_nil_right, List.append_nil]
    _ = List.zipWith place (back.reverse ++ front.reverse) (s.reverse ++ []) :=
      (List.zipWith_append hlength').symm
    _ = List.zipWith place index.reverse s.reverse := by
      rw [hsplit, List.append_nil]

namespace Leads

theorem zipWith_place (h : Leads s u) (index : List Nat) :
    List.zipWith place (List.zipWith place index u) s = List.zipWith place index s := by
  induction h generalizing index with
  | nil u => rw [List.zipWith_nil_right, List.zipWith_nil_right]
  | @cons m k s u hm _ ih =>
      cases index with
      | nil => rfl
      | cons i rest =>
          rw [List.zipWith_cons_cons, List.zipWith_cons_cons, List.zipWith_cons_cons, ih]
          congr 1
          unfold place
          grind

theorem within (h : Leads s u) (hindex : List.Forall₂ (fun i n => i < n) index u) :
    List.Forall₂ (fun i n => i < n) (List.zipWith place index s) s := by
  induction h generalizing index with
  | nil u =>
      rw [List.zipWith_nil_right]
      exact List.Forall₂.nil
  | @cons m k s u hm _ ih =>
      cases hindex with
      | @cons i _ rest _ hi hrest =>
          rw [List.zipWith_cons_cons]
          apply List.Forall₂.cons _ (ih hrest)
          unfold place
          split <;> omega

theorem length_le (h : Leads s u) : s.length ≤ u.length := by
  induction h with
  | nil u => exact Nat.zero_le _
  | cons _ _ ih => exact Nat.succ_le_succ ih

end Leads

theorem Spreads.length_le (h : Spreads s u) : s.length ≤ u.length := by
  have hle := Leads.length_le h
  rwa [List.length_reverse, List.length_reverse] at hle

theorem within_of_spreads (h : Spreads s u) (hindex : Within u index) :
    Within s (project s index) := by
  have hlength : s.length ≤ index.length := by
    rw [length_of_within hindex]
    exact h.length_le
  rw [within_iff_forall₂, ← List.forall₂_reverse_iff, project_reverse hlength]
  exact Leads.within h (List.forall₂_reverse_iff.mpr (within_iff_forall₂.mp hindex))

/-- The index that belongs to an index of the common shape does not depend on shapes in
between. -/
theorem project_project (h : Spreads s u) (hlength : u.length ≤ index.length) :
    project s (project u index) = project s index := by
  have hu : (project u index).length = u.length := by
    unfold project
    rw [List.length_zipWith, List.length_drop]
    omega
  apply List.reverse_injective
  rw [project_reverse (hu ▸ h.length_le), project_reverse hlength,
    project_reverse (Nat.le_trans h.length_le hlength)]
  exact Leads.zipWith_place h index.reverse

end Shape

/-!
# Common shapes of tensors
-/

namespace Tensor

open Shape

variable {α : Type} {s u : Shape} {ts ps : List (Tensor α)}

theorem joinShapes_cons_eq_ok {t : Tensor α} :
    joinShapes s (t :: ts) = .ok u ↔
      ∃ v, join? s t.shape = some v ∧ joinShapes v ts = .ok u := by
  constructor
  · intro h
    unfold joinShapes at h
    split at h
    · rename_i v hv
      exact ⟨v, hv, h⟩
    · cases h
  · rintro ⟨v, hv, h⟩
    unfold joinShapes
    rw [hv]
    exact h

theorem joinShapes_nil_cons (t : Tensor α) (ts : List (Tensor α)) :
    joinShapes [] (t :: ts) = joinShapes t.shape ts := by
  rw [joinShapes, nil_join?]

theorem spreads_of_joinShapes (h : joinShapes s ts = .ok u) :
    Spreads s u ∧ forall t, t ∈ ts -> Spreads t.shape u := by
  induction ts generalizing s with
  | nil =>
      cases h
      exact ⟨Spreads.refl _, nofun⟩
  | cons t ts ih =>
      rcases joinShapes_cons_eq_ok.mp h with ⟨v, hjoin, htail⟩
      rcases ih htail with ⟨hv, hts⟩
      rcases spreads_of_join? hjoin with ⟨hs, ht⟩
      refine ⟨hs.trans hv, ?_⟩
      intro t' ht'
      rcases List.mem_cons.mp ht' with rfl | hmem
      · exact ht.trans hv
      · exact hts t' hmem

theorem exists_joinShapes (hs : Spreads s u) (hts : forall t, t ∈ ts -> Spreads t.shape u) :
    ∃ v, joinShapes s ts = .ok v ∧ Spreads v u := by
  induction ts generalizing s with
  | nil => exact ⟨s, rfl, hs⟩
  | cons t ts ih =>
      rcases exists_join? hs (hts t List.mem_cons_self) with ⟨v, hv, hspread⟩
      rcases ih hspread fun t' ht' => hts t' (List.mem_cons_of_mem t ht') with ⟨r, hr, hru⟩
      exact ⟨r, joinShapes_cons_eq_ok.mpr ⟨v, hv, hr⟩, hru⟩

theorem joinShapes_of_spreads (hts : forall t, t ∈ ts -> Spreads t.shape s) :
    joinShapes s ts = .ok s := by
  induction ts with
  | nil => rfl
  | cons t ts ih =>
      apply joinShapes_cons_eq_ok.mpr
      exact ⟨s, join?_of_spreads (hts t List.mem_cons_self),
        ih fun t' ht' => hts t' (List.mem_cons_of_mem t ht')⟩

variable [Scalar α] {x : Tensor α}

/-- The entries of some tensors that belong to an index of their common shape. -/
def entriesAt (ts : List (Tensor α)) (index : List Nat) : List α :=
  ts.map fun t => t.get (t.shape.project index)

theorem mapAll_of_joinShapes (f : List α → α) (h : joinShapes [] ts = .ok s) :
    mapAll f ts = .ok (ofFn s fun index => f (entriesAt ts index)) := by
  unfold mapAll
  rw [h]
  rfl

theorem joinShapes_of_mapAll {f : List α → α} {r : Tensor α} (h : mapAll f ts = .ok r) :
    joinShapes [] ts = .ok r.shape := by
  unfold mapAll at h
  cases hjoin : joinShapes [] ts with
  | error e =>
      rw [hjoin] at h
      cases h
  | ok v =>
      rw [hjoin] at h
      cases h
      rfl

theorem join?_of_elementwise {op : α → α → α} {t q r : Tensor α}
    (h : elementwise op t q = .ok r) : join? t.shape q.shape = some r.shape := by
  unfold elementwise map₂? at h
  cases hjoin : join? t.shape q.shape with
  | none =>
      rw [hjoin] at h
      cases h
  | some v =>
      rw [hjoin] at h
      cases h
      rfl

theorem elementwise_mapAll (op : α → α → α) (f g : List α → α)
    (h : joinShapes [] (x :: ps) = .ok s) :
    ∃ r q, mapAll f (x :: ps) = .ok r ∧ mapAll g ps = .ok q ∧
      elementwise op r q =
        .ok (ofFn s fun index => op (f (entriesAt (x :: ps) index)) (g (entriesAt ps index))) := by
  rcases spreads_of_joinShapes h with ⟨hnil, hall⟩
  have hps : forall p, p ∈ ps -> Spreads p.shape s := fun p hp =>
    hall p (List.mem_cons_of_mem x hp)
  rcases exists_joinShapes hnil hps with ⟨u, hu, hspread⟩
  have hread : forall index, s.Within index ->
      entriesAt ps (u.project index) = entriesAt ps index := by
    intro index hindex
    have hlength : u.length ≤ index.length := by
      rw [length_of_within hindex]
      exact hspread.length_le
    unfold entriesAt
    apply List.map_congr_left
    intro p hp
    rw [project_project ((spreads_of_joinShapes hu).2 p hp) hlength]
  refine ⟨_, _, mapAll_of_joinShapes f h, mapAll_of_joinShapes g hu, ?_⟩
  unfold elementwise map₂?
  rw [shape_ofFn, shape_ofFn, join?_of_spreads hspread, Option.map_some]
  simp only
  congr 1
  apply ofFn_congr
  intro index hindex
  rw [project_self hindex, get_ofFn _ hindex, get_ofFn _ (within_of_spreads hspread hindex),
    hread index hindex]

end Tensor
end DensityGraph
