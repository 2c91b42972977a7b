import DensityGraph.Proofs.Graph.Edges
import DensityGraph.Proofs.Graph.Linked
/-!
# Consistent workspaces

Whatever is called with nodes that exist, parents and children agree, targets and the
distributions that they belong to agree, and a number stays with the node that it was given
to.
-/

namespace DensityGraph

/-!
# Calls with existing nodes
-/

namespace Call

/-- The values that a call is given where it may be given nodes. -/
def given : Call → List Value
  | operation _ args _ _ _ _ => args
  | binary _ a b => [a, b]
  | negate a => [a]
  | function _ args => args
  | declare _ args named => args ++ named.map Prod.snd
  | observe y user => [y, user]
  | addTarget id target => [.node id, target]
  | removeTarget id => [.node id]
  | addParameter id parameter _ => [.node id, parameter]
  | addParent child parent => [.node child, parent]
  | removeParent child parent => [.node child, parent]
  | setValue id _ => [.node id]
  | _ => []

theorem mem_given_of_operands {c : Call} {v : Value} (h : v ∈ c.operands) : v ∈ c.given := by
  cases c <;> first | exact h | cases h

end Call

namespace Node

variable {n n' : Node} {f : Distribution → Distribution} {x : NodeId}

theorem label_congr (hrole : n'.role = n.role) (hdim : n'.dim = n.dim) :
    n'.label x = n.label x := by
  unfold label
  rw [hrole, hdim]

theorem label_mapDistribution (hfamily : forall d, (f d).family = d.family)
    (hname : forall d, (f d).name = d.name) : (n.mapDistribution f).label x = n.label x := by
  unfold label mapDistribution
  cases hrole : n.role <;> simp [hrole, hfamily, hname]

theorem eq_of_label {i j : NodeId} (h : n.label i = n'.label j) : i = j := by
  unfold label at h
  cases hrole : n.role <;> cases hrole' : n'.role <;> simp_all

end Node

namespace Workspace

variable {u v w : Workspace} {e : Edit} {c : Call} {x : NodeId} {n n' : Node}

def isKnown (w : Workspace) : Value → Bool
  | .node id => (w.node? id).isSome
  | _ => true

/-- Whether all nodes that a call is given exist. -/
def knows (w : Workspace) (c : Call) : Bool :=
  c.given.all w.isKnown

theorem isSome_of_knows (h : w.knows c = true) (hx : .node x ∈ c.given) :
    (w.node? x).isSome = true :=
  List.all_eq_true.mp h (.node x) hx

theorem leads_of_makes (hc : u.knows c = true) (hedits : Edits (c.Makes u) u v)
    (h : c.Makes u v e) : v.Leads e := by
  cases e with
  | compute b id n arguments =>
      intro a ha
      rcases h.2.2 a ha with hoperand | hdata
      · exact hedits.isSome (isSome_of_knows hc (Call.mem_given_of_operands hoperand))
      · exact isSome_of_has hdata
  | link child parent =>
      cases h
      exact ⟨hedits.isSome (isSome_of_knows hc List.mem_cons_self),
        hedits.isSome (isSome_of_knows hc (List.mem_cons_of_mem _ List.mem_cons_self))⟩
  | parameter id p name =>
      apply Call.isSome_of_makes_parameter h
      rintro rfl
      exact hedits.isSome (isSome_of_knows hc (List.mem_cons_of_mem _ List.mem_cons_self))
  | _ => exact trivial

theorem mutual_of_built (h : w.Built fun w c => w.knows c = true) : w.Mutual := by
  apply h.preserves Mutual.empty
  intro u v c e hv hc hedits hadmits hmakes
  exact hv.edit hadmits (leads_of_makes hc hedits hmakes)

theorem hasNoStrays_of_built {allowed : Workspace → Call → Prop} (h : w.Built allowed) :
    w.HasNoStrays := by
  apply h.preserves
  · intro settings wide x n hn
    cases hn
  · intro u v c e hv _ _ hadmits _
    exact hv.edit hadmits

theorem fitsTargets_of_built {allowed : Workspace → Call → Prop} (h : w.Built allowed) :
    w.FitsTargets := by
  apply h.preserves
  · intro settings wide x n hn
    cases hn
  · intro u v c e hv _ _ hadmits _
    exact hv.edit hadmits

theorem fitsData_of_built {allowed : Workspace → Call → Prop} (h : w.Built allowed) :
    w.FitsData := by
  apply h.preserves
  · intro settings wide x n hn
    cases hn
  · intro u v c e hv _ _ hadmits _
    exact hv.edit hadmits

/-!
# Numbers
-/

theorem label_of_changes (h : e.Changes x n n') : n'.label x = n.label x := by
  rcases h.role_cases with hrole | ⟨f, hf, hrole⟩
  · exact Node.label_congr hrole h.dim
  · rw [Node.label_congr hrole (h.dim.trans (Node.dim_mapDistribution n f).symm)]
    exact Node.label_mapDistribution (fun d => (hf.keeps d).family) hf.name

theorem label_of_node? (hn : w.node? x = some n) : w.label x = n.label x := by
  unfold label
  rw [hn]

theorem Edits.label {P : Workspace → Edit → Prop} (h : Edits P w v)
    (hx : (w.node? x).isSome = true) : (v.node? x).isSome = true ∧ v.label x = w.label x := by
  apply h.preserves (I := fun v => (v.node? x).isSome = true ∧ v.label x = w.label x)
  · exact ⟨hx, rfl⟩
  · intro u e hu hadmits _
    rcases Option.isSome_iff_exists.mp hu.1 with ⟨n, hn⟩
    rcases exists_node?_edit hadmits hn with ⟨n', hn', hchanges⟩
    refine ⟨by rw [hn']; rfl, ?_⟩
    rw [label_of_node? hn', label_of_changes hchanges, ← label_of_node? hn, hu.2]

theorem eq_of_label {i j : NodeId} (hi : (w.node? i).isSome = true)
    (hj : (w.node? j).isSome = true) (h : w.label i = w.label j) : i = j := by
  rcases Option.isSome_iff_exists.mp hi with ⟨n, hn⟩
  rcases Option.isSome_iff_exists.mp hj with ⟨m, hm⟩
  rw [label_of_node? hn, label_of_node? hm] at h
  exact Node.eq_of_label h

/-!
# What all calls preserve
-/

/-- Both sides of every edge and of every target know each other, targets have the shape of
their distribution, and numbers stay with their nodes. -/
theorem links_agree (w : Workspace) (h : w.Built fun w c => w.knows c = true) :
    w.Mutual ∧
    (forall t id, w.owner? t = some id ↔ w.target? id = some t) ∧
    (forall t i j, w.target? i = some t -> w.target? j = some t -> i = j) ∧
    (forall id t, w.target? id = some t ->
      ∃ n m, w.node? id = some n ∧ w.node? t = some m ∧ m.dim = n.dim) ∧
    (forall i j, (w.node? i).isSome = true -> (w.node? j).isSome = true ->
      w.label i = w.label j -> i = j) ∧
    forall (c : Call) (w' : Workspace), c.perform.run w = (.ok (), w') ->
      forall id, (w.node? id).isSome = true ->
        (w'.node? id).isSome = true ∧ w'.label id = w.label id := by
  have hpaired : w.Paired := paired_of_built h
  refine ⟨mutual_of_built h, hpaired, ?_, ?_, ?_, ?_⟩
  · intro t i j hi hj
    rw [← hpaired t i] at hi
    rw [← hpaired t j, hi] at hj
    exact Option.some.inj hj
  · intro id t ht
    cases hn : w.node? id with
    | none =>
        unfold target? at ht
        rw [hn] at ht
        cases ht
    | some n =>
        rw [target?_of_node? hn] at ht
        rcases fitsTargets_of_built h id n hn t ht with ⟨m, hm, hdim⟩
        exact ⟨n, m, rfl, hm, hdim⟩
  · intro i j hi hj
    exact eq_of_label hi hj
  · intro c w' hrun id hid
    exact ((c.ends_perform w).of_ok hrun).label hid

theorem links_agree_selfCentred :
    2 ∈ selfCentred.children 0 ∧ selfCentred.owner? 0 = some 2 := by
  have hbuilt : selfCentred.Built fun w c => w.knows c = true :=
    built_foldl (.empty {} true) (by decide +kernel)
  rcases links_agree selfCentred hbuilt with ⟨hmutual, hpaired, _⟩
  constructor
  · exact (hmutual.agree 0 2).mp (by decide +kernel)
  · exact (hpaired 0 2).mpr (by decide +kernel)

end Workspace
end DensityGraph
