import DensityGraph.Proofs.Graph.Failed
/-!
# Failed changes of the graph

Most calls that change edges, targets, parameters or values check everything before they
change anything.  Two do not: a distribution that is to become its own target has noted the
target before the edge is refused, and a value that is no node is listed as a parent, or
taken off the list, before it is asked for its children.
-/

namespace DensityGraph

namespace Node

variable {n : Node} {v : Value}

def isUnbound (n : Node) : Bool :=
  n.isDistribution && n.target?.isNone && n.distribution.isNone

theorem addStray_of_any (h : n.strays.any v.same = true) : n.addStray v = n := by
  unfold addStray
  rw [if_pos h]

theorem strays_addStray (h : n.strays.any v.same = false) :
    (n.addStray v).strays = n.strays ++ [v] := by
  unfold addStray
  rw [if_neg (by rw [h]; exact Bool.false_ne_true)]

theorem removeStray_of_any (h : n.strays.any v.same = false) : n.removeStray v = n := by
  have hkeep : n.strays.filter (fun u => !v.same u) = n.strays := by
    rw [List.filter_eq_self]
    intro u hu
    rw [List.any_eq_false] at h
    simpa using h u hu
  unfold removeStray
  rw [hkeep]

theorem length_strays_removeStray (h : n.strays.any v.same = true) :
    (n.removeStray v).strays.length < n.strays.length := by
  rcases List.any_eq_true.mp h with ⟨u, hu, hsame⟩
  unfold removeStray
  apply List.length_filter_lt_length_iff_exists.mpr
  refine ⟨u, hu, ?_⟩
  rw [hsame]
  simp

end Node

namespace Workspace

variable {w : Workspace} {id : NodeId} {n : Node} {f : Node → Node} {p : Node → Bool}

theorem update_eq_self (h : forall n, w.node? id = some n -> f n = n) : w.update id f = w := by
  have hnodes : w.nodes.modify id (Option.map f) = w.nodes := by
    apply List.ext_getElem?
    intro k
    rw [List.getElem?_modify]
    split
    · rename_i hk
      cases ho : w.nodes[k]? with
      | none => rfl
      | some o =>
          cases o with
          | none => rfl
          | some m =>
              have hm : w.node? id = some m := by
                unfold node?
                rw [hk, ho]
                rfl
              simp [h m hm]
    · simp
  unfold update
  rw [hnodes]

/-- Whether a call fails after it has changed something. -/
def spoils (w : Workspace) : Call → Bool
  | .addTarget id (.node t) => t == id && w.has Node.isUnbound id
  | .addParent child v => !Action.isNode v && w.has (fun n => !n.strays.any v.same) child
  | .removeParent child v => !Action.isNode v && w.has (fun n => n.strays.any v.same) child
  | _ => false

def spoiled (w : Workspace) : Call → Workspace
  | .addTarget id _ => w.update id (Node.mapDistribution (Distribution.setTarget (some id)))
  | .addParent child v => w.update child (Node.addStray v)
  | .removeParent child v => w.update child (Node.removeStray v)
  | _ => w

structure FailsTo (w : Workspace) (c : Call) (v : Workspace) : Prop where
  grows : w.spoils c = false -> w.GrowsTo v
  spoils : w.spoils c = true -> v = w.spoiled c

theorem failsTo_of_growsTo {c : Call} {v : Workspace} (h : w.GrowsTo v)
    (hc : w.spoils c = false) : w.FailsTo c v := by
  refine ⟨fun _ => h, ?_⟩
  rw [hc]
  nofun

end Workspace

namespace Action

open Workspace

variable {w : Workspace}

/-!
# Targets
-/

theorem exists_of_spoils {id : NodeId} {target : Value}
    (h : w.spoils (.addTarget id target) = true) : target = .node id ∧ ∃ n d,
      w.node? id = some n ∧ n.distribution? = some d ∧ d.target = none ∧
        n.distribution = none := by
  cases target with
  | node t =>
      simp only [spoils, Bool.and_eq_true, beq_iff_eq] at h
      rcases h with ⟨rfl, h⟩
      rcases exists_node_of_has h with ⟨n, hn, hunbound⟩
      simp only [Node.isUnbound, Node.isDistribution, Bool.and_eq_true, Option.isNone_iff_eq_none]
        at hunbound
      rcases hunbound with ⟨⟨hkind, htarget⟩, hfree⟩
      rcases Option.isSome_iff_exists.mp hkind with ⟨d, hd⟩
      rw [Node.target?, hd] at htarget
      exact ⟨rfl, n, d, hn, hd, htarget, hfree⟩
  | _ => cases h

theorem ends_addTarget_of_spoils {id : NodeId} {target : Value}
    (h : w.spoils (.addTarget id target) = true) :
    Ends (addTarget id target) w (fun _ _ => True)
      (fun _ w' => w' = w.spoiled (.addTarget id target)) := by
  rcases exists_of_spoils h with ⟨rfl, n, d, hn, hd, htarget, hfree⟩
  unfold addTarget updateDistribution addParent
  rw [ends_bind, ends_distribution_of_some hn hd]
  simp only [htarget, Option.isSome_none, Bool.false_eq_true, if_false, nodeId, pure_bind]
  rw [ends_bind, ends_node_of_some hn, ends_bind, ends_node_of_some hn]
  simp only [ne_eq, not_true, if_false, hfree, Option.isSome_none, Bool.false_eq_true, if_true]
  rw [ends_bind, ends_update, ends_bind, ends_bind, ends_label, ends_bind, ends_invalid]
  rfl

theorem ends_addTarget_of_fitsValues (hvalues : w.FitsValues) {id : NodeId} {target : Value}
    (h : w.spoils (.addTarget id target) = false) :
    Ends (addTarget id target) w (fun _ _ => True) (fun _ w' => w.GrowsTo w') := by
  unfold addTarget
  rw [ends_bind]
  apply ((along_distribution (R := GrowsTo) id).ends (ends_distribution id)).mono
  · rintro d v ⟨⟨rfl, n, hn, hd⟩, hgrows⟩
    refine ends_unless hgrows ?_
    intro htarget
    cases target with
    | node t =>
        simp only [nodeId, pure_bind]
        rw [ends_bind, ends_node]
        refine ⟨?_, fun _ => hgrows⟩
        intro m hm
        rw [ends_bind, ends_node_of_some hn]
        refine ends_unless hgrows ?_
        intro hdim
        refine ends_unless hgrows ?_
        intro hfree
        have hne : t ≠ id := by
          rintro rfl
          rw [hn] at hm
          cases hm
          have hnone : d.target = none := by simpa using htarget
          have hunbound : n.isUnbound = true := by
            unfold Node.isUnbound Node.isDistribution Node.target?
            rw [hd, Option.bind_some, hnone]
            simpa using hfree
          simp [spoils, has_of_node? hn, hunbound] at h
        have hvalue : m.value.array.shape = n.dim :=
          (hvalues t m hm).trans (Classical.not_not.mp hdim)
        exact (ends_attach hn hne hvalue).imp fun _ _ _ => trivial
    | _ => exact hgrows
  · intro _ _ hgrows
    exact hgrows

theorem ends_addTarget_fails (hvalues : w.FitsValues) (id : NodeId) (target : Value) :
    Ends (addTarget id target) w (fun _ _ => True)
      (fun _ w' => w.FailsTo (.addTarget id target) w') := by
  cases h : w.spoils (.addTarget id target) with
  | true =>
      apply (ends_addTarget_of_spoils h).mono (fun _ _ h => h)
      rintro _ _ rfl
      refine ⟨?_, fun _ => rfl⟩
      rw [h]
      nofun
  | false =>
      apply (ends_addTarget_of_fitsValues hvalues h).mono (fun _ _ h => h)
      intro _ _ hgrows
      exact failsTo_of_growsTo hgrows h

/-!
# Parents
-/

theorem ends_addParent_fails (child : NodeId) (parent : Value) :
    Ends (addParent child parent) w (fun _ _ => True)
      (fun _ w' => w.FailsTo (.addParent child parent) w') := by
  unfold addParent
  split
  · exact ends_unless (failsTo_of_growsTo (growsTo_refl w) rfl) fun _ => ends_modify.mpr trivial
  · rename_i hnode
    have hnot : isNode parent = false := isNode_eq_false hnode
    rw [ends_bind, ends_update]
    refine ⟨?_, fun _ => rfl⟩
    intro hspoils
    rw [update_eq_self]
    · exact growsTo_refl w
    · intro n hn
      apply Node.addStray_of_any
      simpa [spoils, hnot, has_of_node? hn] using hspoils

theorem ends_removeParent_fails (child : NodeId) (parent : Value) :
    Ends (removeParent child parent) w (fun _ _ => True)
      (fun _ w' => w.FailsTo (.removeParent child parent) w') := by
  unfold removeParent
  split
  · exact ends_modify.mpr trivial
  · rename_i hnode
    have hnot : isNode parent = false := isNode_eq_false hnode
    rw [ends_bind, ends_update]
    refine ⟨?_, fun _ => rfl⟩
    intro hspoils
    rw [update_eq_self]
    · exact growsTo_refl w
    · intro n hn
      apply Node.removeStray_of_any
      simpa [spoils, hnot, has_of_node? hn] using hspoils

/-!
# All calls
-/

theorem atomic_assignValue (id : NodeId) (nv : NodeValue) : Atomic GrowsTo (assignValue id nv) := by
  intro w
  unfold assignValue
  rw [ends_bind, ends_node]
  refine ⟨?_, fun _ => growsTo_refl w⟩
  intro n _
  exact ends_unless (growsTo_refl w) fun _ => ends_update.mpr trivial

theorem atomic_removeTarget (id : NodeId) : Atomic GrowsTo (removeTarget id) := by
  unfold removeTarget targetOf
  refine Along.bind_atomic ?_ fun t => ?_
  · refine (along_distribution id).bind fun d => ?_
    split
    · exact along_pure _
    · exact (along_label id).bind fun _ => along_throw _
  · intro w
    exact trivial

theorem atomic_addParameter (id : NodeId) (parameter : Value) (name : String) :
    Atomic GrowsTo (addParameter id parameter name) := by
  refine (along_distribution id).bind_atomic fun d => (along_toNode parameter).bind_atomic
    fun p => ?_
  intro w
  unfold addParent updateDistribution
  rw [ends_bind]
  exact ends_unless (growsTo_refl w) fun _ => ends_modify.mpr trivial

end Action

namespace Call

open Workspace DensityGraph.Action

/-- A failed call that changes the graph adds data at most, or leaves behind the one change
that it began with. -/
theorem ends_perform_fails {c : Call} {w : Workspace} (hc : c.isConstruction = false)
    (hvalues : w.FitsValues) :
    Ends c.perform w (fun _ _ => True) fun _ w' => w.FailsTo c w' := by
  have hatomic : w.spoils c = false -> Atomic GrowsTo c.perform ->
      Ends c.perform w (fun _ _ => True) fun _ w' => w.FailsTo c w' := by
    intro hspoils h
    exact (h w).mono (fun _ _ h => h) fun _ _ hgrows => failsTo_of_growsTo hgrows hspoils
  cases c with
  | addTarget id target => exact ends_addTarget_fails hvalues id target
  | removeTarget id => exact hatomic rfl (atomic_removeTarget id)
  | addParameter id parameter name =>
      exact hatomic rfl (atomic_addParameter id parameter name).discard
  | addParent child parent => exact ends_addParent_fails child parent
  | removeParent child parent => exact ends_removeParent_fails child parent
  | setValue id v =>
      exact hatomic rfl ((along_ofRefusal _).bind_atomic fun nv => atomic_assignValue id nv)
  | _ => cases hc

end Call
end DensityGraph
