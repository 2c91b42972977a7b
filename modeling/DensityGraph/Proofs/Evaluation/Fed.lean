import DensityGraph.Proofs.Evaluation.Fixed
import DensityGraph.Proofs.Evaluation.Splitting
import DensityGraph.Proofs.Graph.Reached
/-!
# Data for a single call

A call is fed with values for data nodes, under the nodes or under their numbers.  It goes
as if the values had been assigned to the nodes one after the other, except that nothing of
them stays behind.
-/

namespace DensityGraph

namespace Workspace

end Workspace

namespace Action

open Workspace

variable {w v : Workspace} {d : Dag} {key x : Value} {id : NodeId} {p : Value × Value}
  {n : Node} {fed : List (NodeId × Value)} {data : List (Value × Value)}

/-!
# What is accepted

A pair is looked at in three steps, its key, its node and its value, and the first of them that
is wrong is the reason for a refusal.  Pairs are looked at in order up to the first that is
refused.
-/

end Action

namespace Workspace

structure Follows (w : Workspace) (d : Dag) (fed : List (NodeId × Value)) (v : Workspace) :
    Prop where
  same : w.SameModel v
  mode : v.settings.dataAsConstants = w.settings.dataAsConstants
  data : forall id n, id ∈ d.nodes -> w.node? id = some n -> n.isData = true ->
    ∃ (a : NumericArray) (nv : NodeValue), fed.lookup id = some (.array false a.addBatchAxis) ∧
      v.node? id = some { n with value := nv } ∧ a.shape = n.dim ∧ nv.array.shape = n.dim ∧
        (Value.array false a.addBatchAxis).toFloats =
          (Value.array false nv.array.addBatchAxis).toFloats

variable {w v : Workspace} {d : Dag} {fed : List (NodeId × Value)} {id : NodeId} {n : Node}

theorem Follows.set (h : w.Follows d fed v) (hn : w.node? id = some n) {a : NumericArray}
    {nv : NodeValue} (ha : a.shape = n.dim) (hnv : nv.array.shape = n.dim)
    (hsame : (Value.array false a.addBatchAxis).toFloats =
      (Value.array false nv.array.addBatchAxis).toFloats) :
    w.Follows d (setPair id (.array false a.addBatchAxis) fed) (v.edit (.value id nv)) where
  same := h.same.trans (sameModel_value v id nv)
  mode := h.mode
  data := by
    intro other m hother hm hdata
    rcases h.data other m hother hm hdata with ⟨b, nb, hfed, hv, hb, hnb, hsame'⟩
    have hnode : (v.edit (.value id nv)).node? other =
        some (if other = id then { m with value := nv } else { m with value := nb }) := by
      change (v.update id fun n => { n with value := nv }).node? other = _
      rw [node?_update, hv, Option.map_some]
    rw [hnode]
    by_cases heq : other = id
    · rw [heq] at hm ⊢
      rw [hn] at hm
      cases hm
      refine ⟨a, nv, lookup_setPair_self _ _ _, ?_, ha, hnv, hsame⟩
      rw [if_pos rfl]
    · refine ⟨b, nb, ?_, ?_, hb, hnb, hsame'⟩
      · rw [lookup_setPair_of_ne _ _ heq, hfed]
      · rw [if_neg heq]

end Workspace

namespace Action

open Workspace

variable {w v : Workspace} {d : Dag} {p : Value × Value} {fed : List (NodeId × Value)}
  {data : List (Value × Value)}

end Action

namespace Dag

open Workspace

variable {α : Type} [Scalar α] {w v : Workspace} {d : Dag} {fed : List (NodeId × Value)}

end Dag

/-!
# Nothing stays behind
-/

namespace Action

open Workspace

section Leaves

variable {β γ : Type} {w : Workspace}

/-- The action ends in the workspace that it began in. -/
def Leaves (a : Action β) (w : Workspace) : Prop :=
  (a.run w).2 = w

theorem leaves_get : (get : Action Workspace).Leaves w :=
  rfl

theorem leaves_ofRefusal (x : Except Refusal β) : (ofRefusal x).Leaves w := by
  cases x <;> rfl

theorem Leaves.bind {a : Action β} {next : β → Action γ} (h : a.Leaves w)
    (hnext : forall x, (next x).Leaves w) : (a >>= next).Leaves w := by
  unfold Leaves at h
  cases hrun : a.run w with
  | mk result last =>
      rw [hrun] at h
      cases h
      cases result with
      | ok x => exact (congrArg Prod.snd (run_bind_of_run hrun next)).trans (hnext x)
      | error f => exact congrArg Prod.snd (run_bind_of_error hrun next)

theorem Leaves.mapM {f : β → Action γ} {xs : List β} (h : forall x, x ∈ xs -> (f x).Leaves w) :
    (xs.mapM f).Leaves w := by
  induction xs with
  | nil => rfl
  | cons x xs ih =>
      rw [List.mapM_cons]
      apply (h x List.mem_cons_self).bind
      intro y
      apply (ih fun z hz => h z (List.mem_cons_of_mem x hz)).bind
      intro ys
      rfl

end Leaves

section Calls

variable {w : Workspace} {d : Dag} {data : List (Value × Value)}

end Calls

attribute [local instance] CustomCode.refusing

end Action
end DensityGraph
