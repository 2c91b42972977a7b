import DensityGraph.Proofs.Evaluation.Reading
import DensityGraph.Proofs.Evaluation.Recursive
/-!
# Runs

What a call of the evaluation comes to: the pass in the workspace of the call, with the feed
that was made of the data.  A run that succeeds has found proper settings and proper free
tensors.
-/

namespace DensityGraph

open Tensor

variable {α : Type} [Scalar α]

namespace Pass

omit [Scalar α] in
theorem ends_assignFree_accepts {w : Workspace}
    {free : NodeId → Option (Except Refusal (Tensor α))} {id : NodeId} {e : Environment α} :
    Ends (assignFree w free id) e (fun _ _ => w.AcceptsFree free id) (fun _ _ => True) := by
  unfold assignFree
  cases hfree : free id with
  | none => trivial
  | some x =>
      simp only [ends_bind]
      rw [ends_ofRefusal]
      constructor
      · intro t ht
        rw [ends_ite]
        constructor
        · intro _
          trivial
        · intro hshape
          rw [ht] at hfree
          have haccepts : w.AcceptsFree free id := by
            have hlength : t.shape.length = 2 := by
              by_contra hne
              exact hshape (by simp [rank, hne])
            rcases List.length_eq_two.mp hlength with ⟨rows, size, hs⟩
            refine ⟨t, rows, hfree, ?_⟩
            by_contra hne
            exact hshape (by simp [hs] at hne ⊢; exact Or.inr hne)
          exact Ends.of_forall (fun _ _ => haccepts) fun _ _ => trivial
      · intro r _
        trivial

end Pass

namespace Dag

variable [CustomCode α] {w : Workspace} {d : Dag} {fed : List (NodeId × Value)}
  {free : NodeId → Option (Except Refusal (Tensor α))} {e : Environment α}

theorem validate_of_environment (h : d.environment w fed free = .ok e) :
    w.settings.validate w.written w.wide = .ok () := by
  unfold environment Environment.start at h
  cases hsettings : w.settings.validate w.written w.wide with
  | error f =>
      rw [hsettings] at h
      cases h
  | ok u => rfl

theorem jointAt_of_environment (h : d.environment w fed free = .ok e) (adjust : Bool) :
    d.jointAt w fed free adjust = d.jointIn w e adjust := by
  unfold jointAt
  rw [h]
  rfl

theorem exists_environment_of_jointAt {adjust : Bool} {t : Tensor α}
    (h : d.jointAt w fed free adjust = .ok t) : ∃ e, d.environment w fed free = .ok e := by
  unfold jointAt at h
  cases he : d.environment w fed free with
  | error f =>
      rw [he] at h
      cases h
  | ok e => exact ⟨e, rfl⟩

theorem run_of_environment (h : d.environment w fed free = .ok e) :
    (Pass.materializeAll w d free).run ⟨[], fed, [], w.settings.dataAsConstants⟩ =
      (.ok (), e) := by
  have hsettings := validate_of_environment h
  unfold environment Environment.start at h
  rw [hsettings] at h
  simp only [bind, Except.bind, pure, Except.pure] at h
  split at h
  · rename_i hrun
    cases h
    exact hrun
  · cases h

theorem acceptsFree_of_environment (h : d.environment w fed free = .ok e) {id : NodeId}
    (hid : id ∈ d.latents w) : w.AcceptsFree free id := by
  have hpass : Ends (Pass.materializeAll w d free) ⟨[], fed, [], w.settings.dataAsConstants⟩
      (fun _ _ => forall id, id ∈ d.latents w -> w.AcceptsFree free id) (fun _ _ => True) := by
    unfold Pass.materializeAll
    have hfrees : Ends ((d.latents w).forM (Pass.assignFree w free))
        ⟨[], fed, [], w.settings.dataAsConstants⟩
        (fun _ _ => forall id, id ∈ d.latents w -> w.AcceptsFree free id)
        (fun _ _ => True) := by
      apply Ends.forM (P := fun done _ => forall id, id ∈ done -> w.AcceptsFree free id)
      · intro id hid
        cases hid
      · intro done id rest _ _ hdone
        apply (Pass.ends_assignFree_accepts).mono
        · intro _ _ haccepts other hother
          rcases List.mem_append.mp hother with hold | hlast
          · exact hdone other hold
          · rw [List.mem_singleton.mp hlast]
            exact haccepts
        · intro _ _ _
          trivial
    apply hfrees.bind
    intro _ _ haccepts
    exact Ends.of_forall (fun _ _ => haccepts) fun _ _ => trivial
  exact hpass.of_ok (run_of_environment h) id hid

end Dag

namespace Action

theorem run_feed_nil (d : Dag) (w : Workspace) :
    (feed d []).run w = (.ok (d.currentFeed w), w) :=
  rfl

variable [CustomCode Number] {w v : Workspace} {d : Dag} {fed : List (NodeId × Value)}
  {free : List (Int × Value)} {data : List (Value × Value)} {adjust : Bool}

theorem run_materialize_of_feed (hfeed : (feed d data).run w = (.ok fed, v)) :
    (materialize d free data).run w = (d.environment w fed (w.freeOf free), v) := by
  have hmessages : w.SameButMessages v := ((ends_feed d data).of_ok hfeed).1
  unfold materialize
  rw [run_bind_of_run hfeed, run_bind_of_run run_get, run_ofExcept,
    Dag.environment_of_messages hmessages]

theorem run_logDensity_of_feed (hfeed : (feed d data).run w = (.ok fed, v)) :
    (logDensity d free data adjust).run w =
      (d.jointAt w fed (w.freeOf free) adjust, v) := by
  have hmessages : w.SameButMessages v := ((ends_feed d data).of_ok hfeed).1
  unfold logDensity
  rw [run_bind_of_run hfeed, run_bind_of_run run_get, run_ofExcept,
    Dag.jointAt_of_messages hmessages]

theorem run_materialize (d : Dag) (free : List (Int × Value)) (w : Workspace) :
    (materialize d free []).run w = (d.environment w (d.currentFeed w) (w.freeOf free), w) :=
  run_materialize_of_feed (run_feed_nil d w)

theorem run_logDensity (d : Dag) (free : List (Int × Value)) (adjust : Bool) (w : Workspace) :
    (logDensity d free [] adjust).run w =
      (d.jointAt w (d.currentFeed w) (w.freeOf free) adjust, w) :=
  run_logDensity_of_feed (run_feed_nil d w)

theorem jointAt_of_run_logDensity {z : Tensor Number}
    (h : (logDensity d free [] adjust).run w = (.ok z, v)) :
    d.jointAt w (d.currentFeed w) (w.freeOf free) adjust = .ok z := by
  rw [run_logDensity, Prod.mk.injEq] at h
  exact h.1

theorem exists_run_logDensity_iff :
    (∃ z v, (logDensity d free [] adjust).run w = (.ok z, v)) ↔
      ∃ z, d.jointAt w (d.currentFeed w) (w.freeOf free) adjust = .ok z := by
  constructor
  · intro h
    rcases h with ⟨z, v, hrun⟩
    exact ⟨z, jointAt_of_run_logDensity hrun⟩
  · intro h
    rcases h with ⟨z, hz⟩
    exact ⟨z, w, by rw [run_logDensity, hz]⟩

theorem exists_of_logDensity {z : Tensor Number}
    (h : (logDensity d free data adjust).run w = (.ok z, v)) :
    ∃ fed e, (feed d data).run w = (.ok fed, v) ∧
      d.environment w fed (w.freeOf free) = .ok e ∧
      e.joint w (d.distributions w) (if adjust then d.latents w else []) = .ok z := by
  cases hfeed : (feed d data).run w with
  | mk result last =>
      cases result with
      | error f =>
          have hrun : (logDensity d free data adjust).run w = (.error f, last) := by
            unfold Action.run at hfeed
            unfold logDensity Action.run
            rw [run_bind, hfeed]
          rw [hrun] at h
          cases h
      | ok fed =>
          rw [run_logDensity_of_feed hfeed, Prod.mk.injEq] at h
          rcases h with ⟨hjoint, rfl⟩
          rcases Dag.exists_environment_of_jointAt hjoint with ⟨e, he⟩
          rw [Dag.jointAt_of_environment he, d.jointIn_eq] at hjoint
          exact ⟨fed, e, rfl, he, hjoint⟩

end Action
end DensityGraph
