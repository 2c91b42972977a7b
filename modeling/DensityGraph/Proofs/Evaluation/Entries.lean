import DensityGraph.Evaluation.Materialize
import DensityGraph.Proofs.Outcome
import DensityGraph.Proofs.Tensor.Rows
/-!
# Entries of an environment

Which entries an environment has is said by the list of their keys.  An entry that is
written under a new key leaves all others readable.
-/

namespace DensityGraph
namespace Environment

variable {α : Type}

/-- The keys of the entries, in the order in which they were written. -/
def keys (e : Environment α) : List (NodeId × EntryKind) :=
  e.entries.map Prod.fst

theorem keys_add (e : Environment α) (id : NodeId) (kind : EntryKind) (entry : Entry α) :
    (e.add id kind entry).keys = e.keys ++ [(id, kind)] := by
  simp [keys, add]

theorem get?_eq_none_iff {e : Environment α} {id : NodeId} {kind : EntryKind} :
    e.get? id kind = none ↔ (id, kind) ∉ e.keys := by
  unfold get? keys
  rw [List.lookup_eq_none_iff]
  constructor
  · intro h hmem
    rcases List.mem_map.mp hmem with ⟨p, hp, hkey⟩
    have hne := bne_iff_ne.mp (h p hp)
    exact hne hkey.symm
  · intro h p hp
    apply bne_iff_ne.mpr
    intro hkey
    exact h (List.mem_map.mpr ⟨p, hp, hkey.symm⟩)

theorem mem_keys_of_get? {e : Environment α} {id : NodeId} {kind : EntryKind}
    {entry : Entry α} (h : e.get? id kind = some entry) : (id, kind) ∈ e.keys := by
  apply Classical.byContradiction
  intro hmem
  rw [get?_eq_none_iff.mpr hmem] at h
  cases h

theorem get?_add_of_get? {e : Environment α} {id other : NodeId} {kind kind' : EntryKind}
    {entry entry' : Entry α} (hnew : (id, kind) ∉ e.keys)
    (h : e.get? other kind' = some entry') :
    (e.add id kind entry).get? other kind' = some entry' := by
  rw [get?_add_of_ne]
  · exact h
  · intro heq
    rw [← heq] at hnew
    exact hnew (mem_keys_of_get? h)

theorem get?_add_eq_some {e : Environment α} {id other : NodeId} {kind kind' : EntryKind}
    {entry x : Entry α} (hnew : (id, kind) ∉ e.keys)
    (h : (e.add id kind entry).get? other kind' = some x) :
    e.get? other kind' = some x ∨ (other = id ∧ kind' = kind) ∧ x = entry := by
  by_cases hkey : (other, kind') = (id, kind)
  · cases hkey
    rw [get?_add_self e entry (get?_eq_none_iff.mpr hnew)] at h
    exact .inr ⟨⟨rfl, rfl⟩, (Option.some.inj h).symm⟩
  · rw [get?_add_of_ne e entry hkey] at h
    exact .inl h

/-!
# Entries that are read
-/

variable {e : Environment α} {w : Workspace} {id : NodeId} {kind : EntryKind} {ids : List NodeId}

theorem read_ok_iff {x : Entry α} : e.read w id kind = .ok x ↔ e.get? id kind = some x := by
  unfold read
  cases e.get? id kind with
  | none =>
      constructor
      · rintro ⟨⟩
      · rintro ⟨⟩
  | some y =>
      constructor
      · rintro ⟨⟩
        rfl
      · rintro ⟨⟩
        rfl

theorem arguments_of_get? {f : NodeId → Argument α}
    (h : forall id, id ∈ ids -> ∃ x, e.get? id kind = some x ∧ Pass.argument x = f id) :
    e.arguments w kind ids = .ok (ids.map f) := by
  unfold arguments
  rw [mapM_eq_ok_iff, List.forall₂_map_right_iff, List.forall₂_same]
  intro id hid
  rcases h id hid with ⟨x, hx, hf⟩
  rw [read_ok_iff.mpr hx, ← hf]
  rfl

end Environment

namespace Pass

variable {α β : Type} {w : Workspace} {e : Environment α}
  {E : Failure → Environment α → Prop}

theorem ends_ofExcept {x : Except Failure β} {Q : β → Environment α → Prop} :
    Ends (ofExcept x) e Q E ↔
      (forall y, x = .ok y -> Q y e) ∧ (forall f, x = .error f -> E f e) := by
  cases x with
  | ok y => simp [ofExcept, ends_pure]
  | error f => simp [ofExcept, ends_throw]

theorem ends_ofRefusal {x : Except Refusal β} {Q : β → Environment α → Prop} :
    Ends (ofRefusal x) e Q E ↔
      (forall y, x = .ok y -> Q y e) ∧ (forall r, x = .error r -> E (.refused r) e) := by
  cases x with
  | ok y => simp [ofRefusal, ends_pure]
  | error r => simp [ofRefusal, ends_throw]

theorem ends_entry {id : NodeId} {kind : EntryKind} {entry : Entry α}
    {Q : Entry α → Environment α → Prop} (h : e.get? id kind = some entry)
    (hQ : Q entry e) : Ends (Pass.entry w id kind) e Q E := by
  unfold Pass.entry
  rw [ends_bind, ends_get, h]
  exact ends_pure.mpr hQ

theorem run_assign (w : Workspace) (id : NodeId) (kind : EntryKind) (x : Entry α)
    (e : Environment α) : (assign w id kind x).run e =
      if (e.get? id kind).isSome then (.error (.alreadyAssigned kind (w.label id)), e)
      else (.ok (), e.add id kind x) := by
  unfold assign run
  rw [run_bind]
  change StateT.run (ExceptT.run _) e = _
  cases e.get? id kind <;> rfl

theorem ends_assign_iff {id : NodeId} {kind : EntryKind} {entry : Entry α}
    {Q : Unit → Environment α → Prop} :
    Ends (assign w id kind entry) e Q E ↔
      ((id, kind) ∉ e.keys -> Q () (e.add id kind entry)) ∧
        ((id, kind) ∈ e.keys -> E (.alreadyAssigned kind (w.label id)) e) := by
  have hrun := run_assign w id kind entry e
  unfold run at hrun
  unfold Ends
  rw [hrun, ← Environment.get?_eq_none_iff]
  by_cases hnone : e.get? id kind = none
  · have hmem := Environment.get?_eq_none_iff.mp hnone
    simp [hnone, hmem]
  · have hmem := mt Environment.get?_eq_none_iff.mpr hnone
    rw [if_pos (Option.isSome_iff_ne_none.mpr hnone)]
    simp [hnone, Classical.not_not.mp hmem]

theorem ends_assign {id : NodeId} {kind : EntryKind} {entry : Entry α}
    {Q : Unit → Environment α → Prop} (hnew : (id, kind) ∉ e.keys)
    (hQ : Q () (e.add id kind entry)) : Ends (assign w id kind entry) e Q E :=
  ends_assign_iff.mpr ⟨fun _ => hQ, fun hold => absurd hold hnew⟩

end Pass
end DensityGraph
