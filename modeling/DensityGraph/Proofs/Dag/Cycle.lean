import Mathlib.Data.Fintype.Card
import Mathlib.Data.Set.Finite.List
import Mathlib.Order.WellFounded
import DensityGraph.Proofs.Dag.Order
/-!
# Cycles

A topological order leaves no room for a directed cycle.  The other way round, the sort
stops short of some vertices only where each of them still waits for another one of them,
and then there is a cycle among these.
-/

namespace DensityGraph
namespace Order

variable {ν : Type}

/-- There is a way of one or more edges from parents to children. -/
def Precedes (parents : ν → List ν) : ν → ν → Prop :=
  Relation.TransGen fun p c => p ∈ parents c

variable [DecidableEq ν] {parents : ν → List ν} {vertices taken queue order : List ν} {v u : ν}

theorem ParentsFirst.idxOf_lt (horder : ParentsFirst parents order) (hv : v ∈ order)
    (hu : u ∈ parents v) : order.idxOf u < order.idxOf v := by
  rcases List.eq_append_cons_of_mem hv with ⟨done, rest, heq, hnew⟩
  have hdone : u ∈ done := horder done v rest heq u hu
  rw [heq, List.idxOf_append_of_mem hdone, List.idxOf_append_of_notMem hnew,
    List.idxOf_cons_self, Nat.add_zero]
  exact List.idxOf_lt_length_of_mem hdone

theorem ParentsFirst.idxOf_lt_of_precedes (horder : ParentsFirst parents order)
    (hv : v ∈ order) (h : Precedes parents u v) :
    u ∈ order ∧ order.idxOf u < order.idxOf v := by
  induction h with
  | single hedge => exact ⟨horder.mem_of_mem hv hedge, horder.idxOf_lt hv hedge⟩
  | tail _ hedge ih =>
      have hmiddle := ih (horder.mem_of_mem hv hedge)
      exact ⟨hmiddle.1, Nat.lt_trans hmiddle.2 (horder.idxOf_lt hv hedge)⟩

theorem ParentsFirst.acyclic (horder : ParentsFirst parents order) (hv : v ∈ order) :
    ¬Precedes parents v v := by
  intro h
  exact Nat.lt_irrefl _ (horder.idxOf_lt_of_precedes hv h).2

/-!
# Vertices that are left over

When the queue is empty, a vertex that has not been taken has a parent that has not been taken
either.  Going from parent to parent never ends, so that there is a cycle.
-/

def Exhaustive (parents : ν → List ν) (vertices taken queue : List ν) : Prop :=
  forall c, c ∈ vertices -> (forall p, p ∈ parents c -> p ∈ taken) -> c ∈ taken ++ queue

omit [DecidableEq ν] in
theorem exhaustive_start (parents : ν → List ν) (vertices : List ν) :
    Exhaustive parents vertices [] (vertices.filter fun v => (parents v).isEmpty) := by
  intro c hc hparents
  have hempty : parents c = [] := List.eq_nil_iff_forall_not_mem.mpr fun p hp =>
    List.not_mem_nil (hparents p hp)
  simp [hc, hempty]

theorem Exhaustive.step (h : Exhaustive parents vertices taken (v :: queue)) :
    Exhaustive parents vertices (taken ++ [v])
      (queue ++ ready parents vertices (taken ++ [v]) v) := by
  intro c hc hparents
  by_cases hv : v ∈ parents c
  · have hready : c ∈ ready parents vertices (taken ++ [v]) v :=
      mem_ready.mpr ⟨hc, hv, hparents⟩
    simp [hready]
  · have hold : c ∈ taken ++ v :: queue := by
      apply h c hc
      intro p hp
      rcases List.mem_append.mp (hparents p hp) with htaken | hlast
      · exact htaken
      · rw [List.mem_singleton.mp hlast] at hp
        exact absurd hp hv
    rcases List.mem_append.mp hold with htaken | hqueue
    · simp [htaken]
    · rcases List.mem_cons.mp hqueue with rfl | hqueue
      · simp
      · simp [hqueue]

theorem exhaustive_advance (count : Nat) (h : Exhaustive parents vertices taken queue) :
    (advance parents vertices count taken queue).length = taken.length + count ∨
      Exhaustive parents vertices (advance parents vertices count taken queue) [] := by
  induction count generalizing taken queue with
  | zero => exact Or.inl rfl
  | succ count ih =>
      cases queue with
      | nil => exact Or.inr h
      | cons v queue =>
          rcases ih h.step with hlength | hall
          · left
            rw [List.length_append, List.length_singleton] at hlength
            exact hlength.trans (by omega)
          · exact Or.inr hall

theorem exists_left_over (hvertices : vertices.Nodup)
    (hlength : (sorted parents vertices).length < vertices.length) :
    ∃ v, v ∈ vertices ∧ v ∉ sorted parents vertices := by
  by_contra hnone
  have hsubset : vertices ⊆ sorted parents vertices := by
    intro v hv
    by_contra hnot
    exact hnone ⟨v, hv, hnot⟩
  have hle := (List.subperm_of_subset hvertices hsubset).length_le
  exact Nat.not_lt.mpr hle hlength

theorem exists_parent_left_over
    (hlength : (sorted parents vertices).length < vertices.length) (hv : v ∈ vertices)
    (hleft : v ∉ sorted parents vertices) :
    ∃ p, p ∈ parents v ∧ p ∉ sorted parents vertices := by
  rcases exhaustive_advance vertices.length (exhaustive_start parents vertices) with
    hfull | hall
  · rw [List.length_nil, Nat.zero_add] at hfull
    exact absurd hfull (Nat.ne_of_lt hlength)
  · by_contra hnone
    have hmem : v ∈ sorted parents vertices ++ [] := by
      apply hall v hv
      intro p hp
      by_contra hnot
      exact hnone ⟨p, hp, hnot⟩
    rw [List.append_nil] at hmem
    exact hleft hmem

omit [DecidableEq ν] in
theorem wellFounded_precedes (hacyclic : forall v, v ∈ vertices -> ¬Precedes parents v v) :
    WellFounded fun a b : {v // v ∈ vertices} => Precedes parents a.1 b.1 := by
  have htrans : IsTrans {v // v ∈ vertices} fun a b => Precedes parents a.1 b.1 :=
    ⟨fun _ _ _ hab hbc => hab.trans hbc⟩
  have hirrefl : Std.Irrefl fun a b : {v // v ∈ vertices} => Precedes parents a.1 b.1 :=
    ⟨fun a => hacyclic a.1 a.2⟩
  have hfinite : Finite {v // v ∈ vertices} := (List.finite_toSet vertices).to_subtype
  exact Finite.wellFounded_of_trans_of_irrefl _

/-- If the sort stops short, there is a cycle: the first vertex that is left over would
wait for none of the others. -/
theorem exists_cycle (hvertices : vertices.Nodup)
    (hclosed : forall v, v ∈ vertices -> forall p, p ∈ parents v -> p ∈ vertices)
    (hlength : (sorted parents vertices).length < vertices.length) :
    ∃ v, v ∈ vertices ∧ Precedes parents v v := by
  by_contra hnone
  have hwell : WellFounded fun a b : {v // v ∈ vertices} => Precedes parents a.1 b.1 :=
    wellFounded_precedes fun v hv hcycle => hnone ⟨v, hv, hcycle⟩
  rcases exists_left_over hvertices hlength with ⟨v, hv, hleft⟩
  rcases hwell.has_min {a | a.1 ∉ sorted parents vertices} ⟨⟨v, hv⟩, hleft⟩ with
    ⟨m, hm, hleast⟩
  rcases exists_parent_left_over hlength m.2 hm with ⟨p, hp, hleft'⟩
  exact hleast ⟨p, hclosed m.1 m.2 p hp⟩ hleft' (Relation.TransGen.single hp)

theorem length_sorted_lt_iff (hvertices : vertices.Nodup)
    (hclosed : forall v, v ∈ vertices -> forall p, p ∈ parents v -> p ∈ vertices) :
    (sorted parents vertices).length < vertices.length ↔
      ∃ v, v ∈ vertices ∧ Precedes parents v v := by
  constructor
  · exact exists_cycle hvertices hclosed
  · rintro ⟨v, hv, hcycle⟩
    apply Nat.lt_of_not_le
    intro hle
    have hmem := (perm_sorted hvertices hle).mem_iff.mpr hv
    exact (parentsFirst_sorted hvertices).acyclic hmem hcycle

end Order
end DensityGraph
