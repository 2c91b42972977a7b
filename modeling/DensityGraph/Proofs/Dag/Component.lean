import Mathlib.Logic.Relation
import DensityGraph.Proofs.Dag.Order
import DensityGraph.Proofs.Graph.Edges
/-!
# Components

The worklist leaves out nothing that a visited node is linked to, and takes up nothing
else.  So a component holds exactly the nodes that the starting points are connected to,
and does not depend on where in it one starts.
-/

namespace DensityGraph
namespace Workspace

variable {w : Workspace} {x y : NodeId}

/-- Reachable through parents and children. -/
def Connected (w : Workspace) : NodeId → NodeId → Prop :=
  Relation.ReflTransGen fun x y => y ∈ w.neighbours x

/-!
# The worklist
-/

/-- What holds of the starting points and passes on to neighbours holds of everything
that is visited. -/
theorem forall_mem_visit {P : NodeId → Prop}
    (hnext : forall x y, P x -> y ∈ w.neighbours x -> P y) {seen work : List NodeId}
    (hseen : forall x, x ∈ seen -> P x) (hwork : forall x, x ∈ work -> P x) :
    forall x, x ∈ w.visit seen work -> P x := by
  fun_induction visit w seen work with
  | case1 seen => exact hseen
  | case2 seen id rest hskip ih =>
      exact ih hseen fun x hx => hwork x (List.mem_cons_of_mem id hx)
  | case3 seen id rest htake ih =>
      have hid : P id := hwork id List.mem_cons_self
      apply ih
      · intro x hx
        rcases List.mem_cons.mp hx with rfl | hx
        · exact hid
        · exact hseen x hx
      · intro x hx
        rcases List.mem_append.mp hx with hneighbour | hrest
        · exact hnext id x hid hneighbour
        · exact hwork x (List.mem_cons_of_mem id hrest)

/-- What a worklist leads to: it keeps what has been seen, takes up what is on the list, and
follows every edge of the nodes that it takes up. -/
structure Visits (w : Workspace) (seen work found : List NodeId) : Prop where
  mem_of_seen : forall x, x ∈ seen -> x ∈ found
  mem_of_work : forall x, x ∈ work -> x < w.nodes.length -> x ∈ found
  mem_of_neighbour : forall x, x ∈ found -> x ∉ seen -> forall y, y ∈ w.neighbours x ->
    y < w.nodes.length -> y ∈ found

theorem visits_visit (w : Workspace) (seen work : List NodeId) :
    w.Visits seen work (w.visit seen work) := by
  fun_induction visit w seen work with
  | case1 seen => exact ⟨fun _ h => h, nofun, fun x h hnot => absurd h hnot⟩
  | case2 seen id rest hskip ih =>
      refine ⟨ih.mem_of_seen, ?_, ih.mem_of_neighbour⟩
      intro x hx hlt
      rcases List.mem_cons.mp hx with rfl | hrest
      · rcases hskip with hmem | hlength
        · exact ih.mem_of_seen x hmem
        · exact absurd hlt (Nat.not_lt.mpr hlength)
      · exact ih.mem_of_work x hrest hlt
  | case3 seen id rest htake ih =>
      constructor
      · intro x hx
        exact ih.mem_of_seen x (List.mem_cons_of_mem id hx)
      · intro x hx hlt
        rcases List.mem_cons.mp hx with rfl | hrest
        · exact ih.mem_of_seen x List.mem_cons_self
        · exact ih.mem_of_work x (List.mem_append.mpr (Or.inr hrest)) hlt
      · intro x hx hnot y hy hlt
        by_cases hid : x = id
        · rw [hid] at hy
          exact ih.mem_of_work y (List.mem_append.mpr (Or.inl hy)) hlt
        · apply ih.mem_of_neighbour x hx _ y hy hlt
          intro hmem
          rcases List.mem_cons.mp hmem with heq | hold
          · exact hid heq
          · exact hnot hold

/-!
# Connected nodes
-/

theorem Closed.isSome_of_connected (h : w.Closed) (hx : (w.node? x).isSome = true)
    (hxy : w.Connected x y) : (w.node? y).isSome = true := by
  induction hxy with
  | refl => exact hx
  | tail _ hstep _ => exact h _ _ hstep

theorem Mutual.mem_neighbours_comm (h : w.Mutual) :
    y ∈ w.neighbours x ↔ x ∈ w.neighbours y := by
  rw [mem_neighbours, mem_neighbours, h.agree y x, ← h.agree x y]
  exact or_comm

theorem Mutual.connected_symm (h : w.Mutual) (hxy : w.Connected x y) : w.Connected y x := by
  induction hxy with
  | refl => exact Relation.ReflTransGen.refl
  | tail _ hstep ih => exact Relation.ReflTransGen.head (h.mem_neighbours_comm.mp hstep) ih

theorem Closed.mem_component (h : w.Closed) {starts : List NodeId}
    (hstarts : forall s, s ∈ starts -> (w.node? s).isSome = true) :
    x ∈ w.component starts ↔ ∃ s, s ∈ starts ∧ w.Connected s x := by
  unfold component
  simp only [List.mem_filter, List.mem_range, decide_eq_true_eq]
  constructor
  · rintro ⟨_, hx⟩
    apply forall_mem_visit (P := fun x => ∃ s, s ∈ starts ∧ w.Connected s x) _ _ _ x hx
    · rintro y z ⟨s, hs, hsy⟩ hz
      exact ⟨s, hs, hsy.tail hz⟩
    · intro y hy
      cases hy
    · intro s hs
      exact ⟨s, hs, Relation.ReflTransGen.refl⟩
  · rintro ⟨s, hs, hsx⟩
    have hvisits := w.visits_visit [] starts
    refine ⟨lt_length_of_isSome (h.isSome_of_connected (hstarts s hs) hsx), ?_⟩
    induction hsx with
    | refl => exact hvisits.mem_of_work s hs (lt_length_of_isSome (hstarts s hs))
    | tail _ hstep ih =>
        exact hvisits.mem_of_neighbour _ ih List.not_mem_nil _ hstep
          (lt_length_of_isSome (h _ _ hstep))

theorem Mutual.component_eq (h : w.Mutual) {starts starts' : List NodeId}
    (hstarts : forall s, s ∈ starts -> (w.node? s).isSome = true)
    (hmeet : forall s, s ∈ starts -> ∃ t, t ∈ starts' ∧ w.Connected s t)
    (hmeet' : forall t, t ∈ starts' -> ∃ s, s ∈ starts ∧ w.Connected s t) :
    w.component starts' = w.component starts := by
  have hstarts' : forall t, t ∈ starts' -> (w.node? t).isSome = true := by
    intro t ht
    rcases hmeet' t ht with ⟨s, hs, hst⟩
    exact h.closed.isSome_of_connected (hstarts s hs) hst
  have hmem : forall x, x ∈ w.component starts' ↔ x ∈ w.component starts := by
    intro x
    rw [h.closed.mem_component hstarts, h.closed.mem_component hstarts']
    constructor
    · rintro ⟨t, ht, htx⟩
      rcases hmeet' t ht with ⟨s, hs, hst⟩
      exact ⟨s, hs, hst.trans htx⟩
    · rintro ⟨s, hs, hsx⟩
      rcases hmeet s hs with ⟨t, ht, hst⟩
      exact ⟨t, ht, (h.connected_symm hst).trans hsx⟩
  apply List.filter_congr
  intro x hx
  have hiff := hmem x
  unfold component at hiff
  simp only [List.mem_filter, decide_eq_true_eq, hx, true_and] at hiff
  exact decide_eq_decide.mpr hiff

theorem Closed.isSome_of_mem_compile (h : w.Closed) {starts : List NodeId} {d : Dag}
    (hstarts : forall s, s ∈ starts -> (w.node? s).isSome = true)
    (hcompile : w.compile starts = .ok d) (hx : x ∈ d.nodes) : (w.node? x).isSome = true := by
  have hmem : x ∈ w.component starts := (compile_ok hcompile).1.mem_iff.mp hx
  rcases (h.mem_component hstarts).mp hmem with ⟨s, hs, hsx⟩
  exact h.isSome_of_connected (hstarts s hs) hsx

end Workspace
end DensityGraph
