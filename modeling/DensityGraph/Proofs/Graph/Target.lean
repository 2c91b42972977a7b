import DensityGraph.Proofs.Graph.Build
/-!
# Targets and parameters by edits

Each call that changes a distribution node makes one edit, after data have been made of
a parameter or an observation that is no node.
-/

namespace DensityGraph
namespace Action

open Workspace

variable {w : Workspace}

theorem ends_distribution (id : NodeId) :
    Ends (distribution id) w
      (fun d w' => w' = w ∧ ∃ n, w.node? id = some n ∧ n.distribution? = some d) Fails := by
  unfold distribution
  apply ends_bind_node
  intro n hn
  split
  · rename_i d hd
    exact ends_pure.mpr ⟨rfl, n, hn, hd⟩
  · exact trivial

theorem ends_addParent (child : NodeId) (parent : Value) :
    Ends (addParent child parent) w
      (fun _ w' => ∃ p, parent = .node p ∧ p ≠ child ∧ w' = w.link child p) Fails := by
  unfold addParent
  split
  · rename_i p
    simp only
    refine ends_unless trivial ?_
    intro hne
    exact ends_modify.mpr ⟨p, rfl, hne, rfl⟩
  · rw [ends_bind]
    exact trivial

theorem ends_removeParent (child : NodeId) (parent : Value) :
    Ends (removeParent child parent) w
      (fun _ w' => ∃ p, parent = .node p ∧ w' = w.unlink child p) Fails := by
  unfold removeParent
  split
  · rename_i p
    exact ends_modify.mpr ⟨p, rfl, rfl⟩
  · rw [ends_bind]
    exact trivial

theorem ends_assignValue (id : NodeId) (nv : NodeValue) :
    Ends (assignValue id nv) w
      (fun _ w' => w.Admits (.value id nv) ∧ w' = w.edit (.value id nv)) Fails := by
  unfold assignValue
  apply ends_bind_node
  intro n hn
  refine ends_unless trivial ?_
  intro hshape
  rw [ends_update]
  exact ⟨⟨n, hn, Classical.not_not.mp hshape⟩, rfl⟩

theorem ends_setValue (id : NodeId) (v : Value) :
    Ends (setValue id v) w
      (fun _ w' => ∃ nv, toNodeValue v = .ok nv ∧ w.Admits (.value id nv) ∧
        w' = w.edit (.value id nv)) Fails := by
  unfold setValue
  apply ends_bind_ofRefusal
  intro nv hnv
  apply (ends_assignValue id nv).imp
  intro _ w' h
  exact ⟨nv, hnv, h⟩

theorem dim_of_attaching {id t : NodeId} {n k : Node} {d' : Distribution → Distribution}
    (hn : w.node? id = some n) (hne : t ≠ id)
    (hk : ((w.update id (Node.mapDistribution d')).link id t).node? id = some k) :
    k.dim = n.dim := by
  rw [node?_link, node?_update_self, hn] at hk
  simp only [Option.map_some, Option.some.injEq, if_pos] at hk
  rw [← hk]
  rw [if_neg (Ne.symm hne), Node.addParent_eq]
  exact Node.dim_mapDistribution n _

theorem ends_addTarget (id : NodeId) (target : Value) :
    Ends (addTarget id target) w
      (fun _ w' => ∃ t v, target = .node t ∧ w.Admits (.attach id t v) ∧
        w' = w.edit (.attach id t v)) Fails := by
  unfold addTarget
  apply Ends.bind (ends_distribution id)
  intro d v hd
  rcases hd with ⟨rfl, n, hn, hdist⟩
  refine ends_unless trivial ?_
  intro htarget
  cases target with
  | node t =>
      apply ends_bind_node
      intro m hm
      apply ends_bind_node
      intro n' hn'
      rw [hn] at hn'
      cases hn'
      refine ends_unless trivial ?_
      intro hdim
      refine ends_unless trivial ?_
      intro hfree
      unfold updateDistribution
      rw [ends_bind, ends_update]
      apply Ends.bind (ends_addParent id (.node t))
      intro _ u hu
      rcases hu with ⟨p, hp, hne, rfl⟩
      cases hp
      apply Ends.bind (ends_assignValue id m.value)
      intro _ u hu
      rcases hu with ⟨⟨k, hk, hshape⟩, rfl⟩
      rw [ends_update]
      refine ⟨t, m.value, rfl, ⟨n, d, m, hn, hdist, ?_, hm, ?_, ?_, hne, ?_⟩, rfl⟩
      · simpa using htarget
      · exact Classical.not_not.mp hdim
      · simpa using hfree
      · exact hshape.trans (dim_of_attaching hn hne hk)
  | _ => exact trivial

theorem ends_removeTarget (id : NodeId) :
    Ends (removeTarget id) w
      (fun _ w' => ∃ t, w.Admits (.detach id t) ∧ w' = w.edit (.detach id t)) Fails := by
  unfold removeTarget targetOf
  simp only [ends_bind]
  apply (ends_distribution id).imp
  intro d v hd
  rcases hd with ⟨rfl, n, hn, hdist⟩
  cases htarget : d.target with
  | none => exact trivial
  | some t =>
      rw [ends_pure]
      exact ⟨t, ⟨n, d, hn, hdist, htarget⟩, rfl⟩

theorem ends_addParameter (id : NodeId) (parameter : Value) (name : String) :
    Ends (addParameter id parameter name) w
      (fun _ w' => ∃ v p, w.GrowsTo v ∧ v.StandsFor parameter p ∧
        v.Admits (.parameter id p name) ∧ w' = v.edit (.parameter id p name)) Fails := by
  unfold addParameter
  apply Ends.bind (ends_distribution id)
  intro d v hd
  rcases hd with ⟨rfl, n, hn, hdist⟩
  apply Ends.bind (ends_toNode parameter)
  intro p u hp
  apply Ends.bind (ends_addParent id (.node p))
  intro _ u' hu'
  rcases hu' with ⟨q, hq, hne, rfl⟩
  cases hq
  unfold updateDistribution
  rw [ends_bind, ends_update, ends_pure]
  exact ⟨u, p, hp.1, hp.2, ⟨n, d, hp.1.node? hn, hdist, hne⟩, rfl⟩

end Action
end DensityGraph
