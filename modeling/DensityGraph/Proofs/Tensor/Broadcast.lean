import Mathlib.Data.List.Forall2
import DensityGraph.Tensor.Basic
/-!
# Broadcasting axis by axis

Shapes with equally many axes have a common shape if the axes agree one by one.  An
index of the common shape then belongs to an index of either shape.
-/

namespace DensityGraph
namespace Shape

inductive Joins : Shape → Shape → Shape → Prop where
  | nil : Joins [] [] []
  | cons {m n k : Nat} {s t u : Shape} :
      joinAxis? m n = some k -> Joins s t u -> Joins (m :: s) (n :: t) (k :: u)

variable {m n k : Nat} {s t u : Shape} {index : List Nat}

theorem joinAxis?_self (k : Nat) : joinAxis? k k = some k := by
  unfold joinAxis?
  rw [if_pos rfl]

namespace Joins

theorem concat (h : Joins s t u) (hk : joinAxis? m n = some k) :
    Joins (s ++ [m]) (t ++ [n]) (u ++ [k]) := by
  induction h with
  | nil => exact cons hk nil
  | cons hfirst _ ih => exact cons hfirst ih

theorem reverse (h : Joins s t u) : Joins s.reverse t.reverse u.reverse := by
  induction h with
  | nil => exact nil
  | cons hk _ ih =>
      rw [List.reverse_cons, List.reverse_cons, List.reverse_cons]
      exact ih.concat hk

theorem joinReversed? (h : Joins s t u) : Shape.joinReversed? s t = some u := by
  induction h with
  | nil => rfl
  | cons hk _ ih =>
      unfold Shape.joinReversed?
      rw [hk, ih]

theorem join? (h : Joins s t u) : Shape.join? s t = some u := by
  unfold Shape.join?
  rw [h.reverse.joinReversed?, Option.map_some, List.reverse_reverse]

theorem length_left (h : Joins s t u) : s.length = u.length := by
  induction h with
  | nil => rfl
  | cons _ _ ih => exact congrArg Nat.succ ih

theorem symm (h : Joins s t u) : Joins t s u := by
  induction h with
  | nil => exact nil
  | @cons m n k s t u hk _ ih =>
      refine cons ?_ ih
      unfold joinAxis? at hk ⊢
      grind

end Joins

abbrev Stretches (s u : Shape) : Prop :=
  List.Forall₂ (fun m k => m = 1 ∨ m = k) s u

theorem stretches_self (s : Shape) : Stretches s s := by
  induction s with
  | nil => exact List.Forall₂.nil
  | cons m s ih => exact List.Forall₂.cons (Or.inr rfl) ih

theorem Stretches.trans {v : Shape} (h : Stretches s t) (h' : Stretches t v) : Stretches s v := by
  induction h generalizing v with
  | nil => exact h'
  | cons hfirst _ ih =>
      cases h' with
      | cons hnext hrest =>
          refine List.Forall₂.cons ?_ (ih hrest)
          rcases hfirst with hone | heq
          · exact Or.inl hone
          · rw [heq]
            exact hnext

theorem Joins.stretches (h : Joins s t u) : Stretches s u := by
  induction h with
  | nil => exact List.Forall₂.nil
  | @cons m n k s t u hk _ ih =>
      refine List.Forall₂.cons ?_ ih
      unfold joinAxis? at hk
      grind

theorem joinReversed?_cons_eq_some :
    joinReversed? (m :: s) (n :: t) = some u ↔
      ∃ k v, joinAxis? m n = some k ∧ joinReversed? s t = some v ∧ u = k :: v := by
  constructor
  · intro h
    unfold joinReversed? at h
    split at h
    · rename_i k v hk hv
      cases h
      exact ⟨k, v, hk, hv, rfl⟩
    · cases h
  · rintro ⟨k, v, hk, hv, rfl⟩
    unfold joinReversed?
    rw [hk, hv]

theorem nil_join? (t : Shape) : join? [] t = some t := by
  unfold join?
  rw [List.reverse_nil]
  simp [joinReversed?]

/-!
# Indices
-/

theorem length_of_within (h : Within s index) : index.length = s.length := by
  induction s generalizing index with
  | nil =>
      cases index with
      | nil => rfl
      | cons i rest => exact absurd h id
  | cons n s ih =>
      cases index with
      | nil => exact absurd h id
      | cons i rest => exact congrArg Nat.succ (ih h.2)

theorem project_cons {i : Nat} (h : index.length = s.length) :
    project (n :: s) (i :: index) = (if n = 1 then 0 else i) :: project s index := by
  unfold project
  have hlong : (i :: index).length - (n :: s).length = 0 := by
    rw [List.length_cons, List.length_cons, h, Nat.sub_self]
  have hshort : index.length - s.length = 0 := by
    rw [h, Nat.sub_self]
  rw [hlong, hshort, List.drop_zero, List.drop_zero, List.zipWith_cons_cons]

theorem project_self (h : Within s index) : project s index = index := by
  induction s generalizing index with
  | nil =>
      cases index with
      | nil => rfl
      | cons i rest => exact absurd h id
  | cons n s ih =>
      cases index with
      | nil => exact absurd h id
      | cons i rest =>
          rw [project_cons (length_of_within h.2), ih h.2]
          split
          · rename_i hone
            have hi : i < n := h.1
            have hzero : i = 0 := by omega
            rw [hzero]
          · rfl

theorem within_project (h : Stretches s u) (hindex : Within u index) :
    Within s (project s index) := by
  induction h generalizing index with
  | nil =>
      cases index with
      | nil => trivial
      | cons i rest => exact absurd hindex id
  | @cons m k s u hfirst hrest ih =>
      cases index with
      | nil => exact absurd hindex id
      | cons i rest =>
          have hlength : rest.length = s.length :=
            (length_of_within hindex.2).trans hrest.length_eq.symm
          rw [project_cons hlength]
          refine ⟨?_, ih hindex.2⟩
          have hi : i < k := hindex.1
          split <;> omega

theorem within_project_left (h : Joins s t u) (hindex : Within u index) :
    Within s (project s index) :=
  within_project h.stretches hindex

theorem within_project_right (h : Joins s t u) (hindex : Within u index) :
    Within t (project t index) :=
  within_project_left h.symm hindex

end Shape

namespace Tensor

theorem eq_broadcast {α : Type} [Inhabited α] {t y : Tensor α} {shape : Shape}
    (h : t.broadcastTo? shape = some y) : y = t.broadcast shape := by
  unfold broadcastTo? at h
  split at h
  · exact (Option.some.inj h).symm
  · cases h

end Tensor
end DensityGraph
