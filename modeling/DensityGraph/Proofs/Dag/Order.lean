import Mathlib.Data.List.Perm.Subperm
import Mathlib.Data.List.Nodup
import DensityGraph.Dag.Basic
/-!
# Parents come first

An order is topological if every vertex stands behind its parents.  Taking vertices
from the queue keeps this up, because a vertex enters the queue only when all of its
parents have been taken.
-/

namespace DensityGraph
namespace Order

variable {ν : Type}

/-- Every vertex of the list stands behind its parents. -/
def ParentsFirst (parents : ν → List ν) (order : List ν) : Prop :=
  forall done v rest, order = done ++ v :: rest -> forall p, p ∈ parents v -> p ∈ done

theorem parentsFirst_nil (parents : ν → List ν) : ParentsFirst parents [] := by
  intro done v rest h
  cases done <;> cases h

theorem parentsFirst_concat {parents : ν → List ν} {order : List ν} {v : ν}
    (horder : ParentsFirst parents order) (hv : forall p, p ∈ parents v -> p ∈ order) :
    ParentsFirst parents (order ++ [v]) := by
  intro done u rest h p hp
  rcases List.append_eq_append_iff.mp h with ⟨l, hdone, hrest⟩ | ⟨l, horder', hrest⟩
  · cases l with
    | nil =>
        rw [List.nil_append, List.cons.injEq] at hrest
        rw [← hrest.1] at hp
        rw [hdone, List.append_nil]
        exact hv p hp
    | cons x l =>
        exfalso
        have hlength := congrArg List.length hrest
        simp at hlength
  · cases l with
    | nil =>
        rw [List.nil_append, List.cons.injEq] at hrest
        rw [hrest.1] at hp
        rw [List.append_nil] at horder'
        rw [← horder']
        exact hv p hp
    | cons x l =>
        rw [List.cons_append, List.cons.injEq] at hrest
        rw [← hrest.1] at horder'
        exact horder done u l horder' p hp

theorem ParentsFirst.mem_of_mem {parents : ν → List ν} {order : List ν}
    (horder : ParentsFirst parents order) {v p : ν} (hv : v ∈ order)
    (hp : p ∈ parents v) : p ∈ order := by
  rcases List.append_of_mem hv with ⟨done, rest, heq⟩
  rw [heq]
  exact List.mem_append.mpr (Or.inl (horder done v rest heq p hp))

theorem ParentsFirst.of_append {parents : ν → List ν} {order rest : List ν}
    (horder : ParentsFirst parents (order ++ rest)) : ParentsFirst parents order := by
  intro done v tail heq
  apply horder done v (tail ++ rest)
  rw [heq, List.append_assoc, List.cons_append]

theorem ParentsFirst.induction {parents : ν → List ν} {order : List ν} {P : ν → Prop}
    (horder : ParentsFirst parents order)
    (hstep : forall v, v ∈ order -> (forall p, p ∈ parents v -> P p) -> P v) :
    forall v, v ∈ order -> P v := by
  -- The induction is on the vertices that are left; `P` holds of those that come before them.
  have hprefix : forall rest done, order = done ++ rest -> (forall v, v ∈ done -> P v) ->
      forall v, v ∈ order -> P v := by
    intro rest
    induction rest with
    | nil =>
        intro done heq hdone
        rw [heq, List.append_nil]
        exact hdone
    | cons v rest ih =>
        intro done heq hdone
        apply ih (done ++ [v])
        · rw [heq, List.append_assoc, List.singleton_append]
        · intro u hu
          rcases List.mem_append.mp hu with hold | hlast
          · exact hdone u hold
          · rw [List.mem_singleton.mp hlast]
            apply hstep v
            · rw [heq]
              exact List.mem_append.mpr (Or.inr List.mem_cons_self)
            · intro p hp
              exact hdone p (horder done v rest heq p hp)
  exact hprefix order [] rfl nofun

/-!
# The sorted vertices
-/

structure Advancing (parents : ν → List ν) (vertices taken queue : List ν) : Prop where
  nodup : (taken ++ queue).Nodup
  subset : forall v, v ∈ taken ++ queue -> v ∈ vertices
  parentsFirst : ParentsFirst parents taken
  queued : forall v, v ∈ queue -> forall p, p ∈ parents v -> p ∈ taken

theorem advancing_start {parents : ν → List ν} {vertices : List ν}
    (hnodup : vertices.Nodup) :
    Advancing parents vertices [] (vertices.filter fun v => (parents v).isEmpty) where
  nodup := by
    rw [List.nil_append]
    exact hnodup.filter _
  subset := by
    intro v hv
    rw [List.nil_append] at hv
    exact List.mem_of_mem_filter hv
  parentsFirst := parentsFirst_nil parents
  queued := by
    intro v hv p hp
    have hempty : (parents v).isEmpty = true := (List.mem_filter.mp hv).2
    rw [List.isEmpty_iff.mp hempty] at hp
    cases hp

theorem Advancing.stop {parents : ν → List ν} {vertices taken queue : List ν}
    (h : Advancing parents vertices taken queue) : Advancing parents vertices taken [] := by
  constructor
  · rw [List.append_nil]
    exact h.nodup.of_append_left
  · intro v hv
    rw [List.append_nil] at hv
    exact h.subset v (List.mem_append.mpr (Or.inl hv))
  · exact h.parentsFirst
  · nofun

variable [DecidableEq ν]

theorem mem_ready {parents : ν → List ν} {vertices taken : List ν} {v c : ν} :
    c ∈ ready parents vertices taken v ↔
      c ∈ vertices ∧ v ∈ parents c ∧ forall p, p ∈ parents c -> p ∈ taken := by
  simp [ready]

/-- A vertex that becomes ready has been neither taken nor queued before: its last
parent was still missing. -/
theorem Advancing.step {parents : ν → List ν} {vertices taken queue : List ν} {v : ν}
    (hvertices : vertices.Nodup) (h : Advancing parents vertices taken (v :: queue)) :
    Advancing parents vertices (taken ++ [v])
      (queue ++ ready parents vertices (taken ++ [v]) v) := by
  have hv : v ∉ taken := by
    intro hmem
    exact (List.disjoint_of_nodup_append h.nodup) hmem List.mem_cons_self
  have hparents : forall u, u ∈ taken ++ v :: queue -> forall p, p ∈ parents u -> p ∈ taken := by
    intro u hu p hp
    rcases List.mem_append.mp hu with htaken | hqueue
    · exact h.parentsFirst.mem_of_mem htaken hp
    · exact h.queued u hqueue p hp
  have hfirst : taken ++ v :: queue = (taken ++ [v]) ++ queue := by
    rw [List.append_assoc, List.singleton_append]
  constructor
  · rw [← List.append_assoc, ← hfirst]
    apply List.Nodup.append h.nodup
    · exact hvertices.filter _
    -- All parents of what was taken or queued before had been taken, and `v` had not.
    · intro c hc hready
      have hvc : v ∈ parents c := (mem_ready.mp hready).2.1
      exact hv (hparents c hc v hvc)
  · intro u hu
    rw [← List.append_assoc, ← hfirst] at hu
    rcases List.mem_append.mp hu with hold | hready
    · exact h.subset u hold
    · exact (mem_ready.mp hready).1
  · apply parentsFirst_concat h.parentsFirst
    exact h.queued v List.mem_cons_self
  · intro u hu p hp
    rcases List.mem_append.mp hu with hqueue | hready
    · apply List.mem_append.mpr
      exact Or.inl (h.queued u (List.mem_cons_of_mem v hqueue) p hp)
    · exact (mem_ready.mp hready).2.2 p hp

theorem advancing_advance {parents : ν → List ν} {vertices : List ν}
    (hvertices : vertices.Nodup) (count : Nat) {taken queue : List ν}
    (h : Advancing parents vertices taken queue) :
    Advancing parents vertices (advance parents vertices count taken queue) [] := by
  induction count generalizing taken queue with
  | zero => exact h.stop
  | succ count ih =>
      cases queue with
      | nil => exact h
      | cons v queue => exact ih (h.step hvertices)

theorem advancing_sorted {parents : ν → List ν} {vertices : List ν}
    (hvertices : vertices.Nodup) :
    Advancing parents vertices (sorted parents vertices) [] :=
  advancing_advance hvertices vertices.length (advancing_start hvertices)

theorem parentsFirst_sorted {parents : ν → List ν} {vertices : List ν}
    (hvertices : vertices.Nodup) : ParentsFirst parents (sorted parents vertices) :=
  (advancing_sorted hvertices).parentsFirst

theorem perm_sorted {parents : ν → List ν} {vertices : List ν}
    (hvertices : vertices.Nodup)
    (hlength : vertices.length ≤ (sorted parents vertices).length) :
    (sorted parents vertices).Perm vertices := by
  have h : Advancing parents vertices (sorted parents vertices) [] :=
    advancing_sorted hvertices
  have hnodup : (sorted parents vertices).Nodup := h.nodup.of_append_left
  have hsubset : sorted parents vertices ⊆ vertices := by
    intro v hv
    exact h.subset v (List.mem_append.mpr (Or.inl hv))
  exact (List.subperm_of_subset hnodup hsubset).perm_of_length_le hlength

end Order

/-!
# Compiled graphs
-/

namespace Workspace

theorem nodup_component (w : Workspace) (starts : List NodeId) :
    (w.component starts).Nodup := by
  unfold component
  exact List.nodup_range.filter _

theorem compile_ok {w : Workspace} {starts : List NodeId} {d : Dag}
    (h : w.compile starts = .ok d) :
    d.nodes.Perm (w.component starts) ∧ Order.ParentsFirst w.parents d.nodes := by
  unfold compile at h
  simp only at h
  split at h
  · cases h
  · split at h
    · cases h
    · split at h
      · cases h
      · rename_i hlength
        split at h
        · cases h
        · cases h
          have hnodup := w.nodup_component starts
          exact ⟨Order.perm_sorted hnodup (Nat.le_of_not_lt hlength),
            Order.parentsFirst_sorted hnodup⟩

/-!
# Computing compiled graphs

The worklist stops for a reason that has to be found at every step.  With a bound on the
number of steps it can be run.
-/

def visitWithin? (w : Workspace) : Nat → List NodeId → List NodeId → Option (List NodeId)
  | 0, _, _ => none
  | _ + 1, seen, [] => some seen
  | n + 1, seen, id :: rest =>
      if id ∈ seen ∨ w.nodes.length ≤ id then w.visitWithin? n seen rest
      else w.visitWithin? n (id :: seen) (w.neighbours id ++ rest)

theorem visit_of_visitWithin? {w : Workspace} {n : Nat} {seen work found : List NodeId}
    (h : w.visitWithin? n seen work = some found) : w.visit seen work = found := by
  induction n generalizing seen work with
  | zero => cases h
  | succ n ih =>
      cases work with
      | nil =>
          rw [visit]
          exact Option.some.inj h
      | cons id rest =>
          rw [visit]
          unfold visitWithin? at h
          split at h
          · rename_i hskip
            rw [dif_pos hskip]
            exact ih h
          · rename_i htake
            rw [dif_neg htake]
            exact ih h

theorem component_of_visitWithin? {w : Workspace} {starts ids : List NodeId} (n : Nat)
    (h : (w.visitWithin? n [] starts).map (fun found =>
      (List.range w.nodes.length).filter (· ∈ found)) = some ids) : w.component starts = ids := by
  rcases Option.map_eq_some_iff.mp h with ⟨found, hfound, hids⟩
  unfold component
  rw [visit_of_visitWithin? hfound]
  exact hids

theorem compile_eq {w : Workspace} {starts order : List NodeId}
    {edges : List (NodeId × NodeId)} (ids : List NodeId) (hstarts : starts.isEmpty = false)
    (hids : w.component starts = ids)
    (hstrays : ids.any (w.has fun n => !n.strays.isEmpty) = false)
    (horder : Order.sorted w.parents ids = order) (hlength : ¬order.length < ids.length)
    (hfault : (order.findSome? w.targetFault).isNone = true) (hedges : w.edges ids = edges) :
    w.compile starts = .ok ⟨order, edges⟩ := by
  unfold compile
  rw [Option.isNone_iff_eq_none] at hfault
  simp only [hstarts, hids, hstrays, horder, if_neg hlength, hfault, hedges, Bool.false_eq_true,
    if_false]

end Workspace
end DensityGraph
