import DensityGraph.Proofs.Evaluation.Simulation
/-!
# Faithful environments

An environment is faithful to a graph if it has exactly the entries that belong to its
nodes, and every tensor in it is the one that recursion gives.
-/

namespace DensityGraph

variable {α : Type} [Scalar α] [CustomCode α]

/-- The keys of all entries that belong to a graph: a value for every node, and a free
tensor and a Jacobian for every variable. -/
def Dag.entryKeys (d : Dag) (w : Workspace) : List (NodeId × EntryKind) :=
  (d.latents w).map (fun id => (id, .free)) ++
    ((d.latents w).map (fun id => (id, .adjustment)) ++ d.nodes.map fun id => (id, .value))

/-- The environment has the entries of the graph and no others, and they are those that
recursion gives. -/
structure Environment.Faithful (w : Workspace) (d : Dag) (fed : List (NodeId × Value))
    (free : NodeId → Option (Except Refusal (Tensor α))) (e : Environment α) : Prop where
  nodup : e.keys.Nodup
  keys : e.keys.Perm (d.entryKeys w)
  frees : forall id, id ∈ d.latents w ->
    ∃ t, free id = some (.ok t) ∧ e.get? id .free = some (.tensor t)
  adjustments : forall id, id ∈ d.latents w ->
    ∃ t, w.adjustment free id = some t ∧ e.get? id .adjustment = some (.tensor t)
  values : forall id, id ∈ d.nodes -> w.has Node.isDistribution id = false ->
    ∃ t, w.evaluate fed free id = some t ∧ e.get? id .value = some (.tensor t)
  densities : forall id, id ∈ d.nodes -> w.has Node.isDistribution id = true ->
    e.get? id .value = some (.density id)

namespace Dag

variable {w : Workspace} {d : Dag}

theorem perm_flatMap_entryKeys (w : Workspace) (nodes : List NodeId) :
    (nodes.flatMap w.entryKeys).Perm
      ((nodes.filter (w.has Node.isLatent)).map (fun id => (id, EntryKind.adjustment)) ++
        nodes.map fun id => (id, EntryKind.value)) := by
  induction nodes with
  | nil => exact List.Perm.refl []
  | cons id rest ih =>
      rw [List.flatMap_cons, List.map_cons]
      cases hlatent : w.has Node.isLatent id with
      | true =>
          rw [List.filter_cons_of_pos hlatent, List.map_cons]
          have hkeys : w.entryKeys id = [(id, .adjustment), (id, .value)] := by
            simp [Workspace.entryKeys, hlatent]
          rw [hkeys, List.cons_append, List.cons_append, List.cons_append, List.nil_append]
          apply List.Perm.cons
          exact (ih.cons _).trans List.perm_middle.symm
      | false =>
          rw [List.filter_cons_of_neg (by simp [hlatent])]
          have hkeys : w.entryKeys id = [(id, .value)] := by
            simp [Workspace.entryKeys, hlatent]
          rw [hkeys, List.cons_append, List.nil_append]
          exact (ih.cons _).trans List.perm_middle.symm

theorem nodup_entryKeys (hnodup : d.nodes.Nodup) : (d.entryKeys w).Nodup := by
  have hmap : forall (kind : EntryKind) (ids : List NodeId), ids.Nodup ->
      (ids.map fun id => (id, kind)).Nodup := by
    intro kind ids hids
    apply hids.map
    intro a b heq
    exact congrArg Prod.fst heq
  have hlatents : (d.latents w).Nodup := hnodup.filter _
  unfold entryKeys
  apply (hmap _ _ hlatents).append ((hmap _ _ hlatents).append (hmap _ _ hnodup) _) _
  · intro k hk hk'
    rcases List.mem_map.mp hk with ⟨a, _, rfl⟩
    rcases List.mem_map.mp hk' with ⟨b, _, heq⟩
    cases heq
  · intro k hk hk'
    rcases List.mem_map.mp hk with ⟨a, _, rfl⟩
    rcases List.mem_append.mp hk' with hadj | hval
    · rcases List.mem_map.mp hadj with ⟨b, _, heq⟩
      cases heq
    · rcases List.mem_map.mp hval with ⟨b, _, heq⟩
      cases heq

end Dag

namespace Pass

variable {w : Workspace} {d : Dag} {fed : List (NodeId × Value)}
  {free : NodeId → Option (Except Refusal (Tensor α))} {e : Environment α}

theorem Filled.faithful (hnodup : d.nodes.Nodup)
    (h : Filled w fed free (d.latents w) d.nodes e) : e.Faithful w d fed free := by
  have hkeys : e.keys.Perm (d.entryKeys w) := by
    rw [h.keys]
    exact (Dag.perm_flatMap_entryKeys w d.nodes).append_left _
  constructor
  · exact hkeys.nodup_iff.mpr (Dag.nodup_entryKeys hnodup)
  · exact hkeys
  · exact h.frees
  · intro id hid
    rcases Workspace.mem_select.mp hid with ⟨hmem, hlatent⟩
    exact h.adjustments id hmem hlatent
  · exact h.values
  · exact h.densities

end Pass

/-!
# Passes over graphs
-/

structure Workspace.Sorts (w : Workspace) (d : Dag) : Prop where
  nodup : d.nodes.Nodup
  parentsFirst : Order.ParentsFirst w.parents d.nodes

theorem Workspace.sorts_of_compile {w : Workspace} {starts : List NodeId} {d : Dag}
    (h : w.compile starts = .ok d) : w.Sorts d := by
  rcases compile_ok h with ⟨hperm, hfirst⟩
  exact ⟨hperm.nodup_iff.mpr (w.nodup_component starts), hfirst⟩

namespace Dag

variable {w : Workspace} {d : Dag} {fed : List (NodeId × Value)}
  {free : NodeId → Option (Except Refusal (Tensor α))}

theorem isEntryFault_of_validate {label : NodeId → String} {wide : Bool} {s : Settings}
    {f : Failure} (h : s.validate label wide = .error f) : f.isEntryFault = false := by
  unfold Settings.validate at h
  cases hcount : Settings.lessThanOne s.defaultChains with
  | error r =>
      simp only [hcount, Refusal.lift] at h
      split at h
      · split at h
        · cases h
          rfl
        · cases h
          rfl
      · cases h
        rfl
  | ok small =>
      simp only [hcount, Refusal.lift] at h
      split at h
      · split at h
        · cases h
          rfl
        · cases small
          · cases h
          · cases h
            rfl
      · cases h
        rfl

theorem environment_filled (hsorts : w.Sorts d)
    (hfinds : forall id n, id ∈ d.nodes -> w.node? id = some n -> w.FindsArguments n)
    (hfeeds : w.FeedsData d fed)
    (free : NodeId → Option (Except Refusal (Tensor α))) :
    (forall e, d.environment w fed free = .ok e ->
      Pass.Filled w fed free (d.latents w) d.nodes e) ∧
      (forall f, d.environment w fed free = .error f -> f.isEntryFault = false ∧
        (w.settings.validate w.written w.wide = .error f ∨ Pass.Refuses w d fed free)) := by
  unfold environment Environment.start
  cases hsettings : w.settings.validate w.written w.wide with
  | error f =>
      constructor
      · intro e he
        cases he
      · intro g hg
        cases hg
        exact ⟨isEntryFault_of_validate hsettings, Or.inl rfl⟩
  | ok u =>
      let start : Environment α := ⟨[], fed, [], w.settings.dataAsConstants⟩
      have hpass := Pass.ends_materializeAll hsorts.nodup hsorts.parentsFirst hfinds
        hfeeds (Pass.Filled.start w fed free)
      simp only [bind, Except.bind, pure, Except.pure]
      cases hrun : (Pass.materializeAll w d free).run start with
      | mk result last =>
          cases result with
          | ok y =>
              constructor
              · intro e he
                cases he
                exact hpass.of_ok hrun
              · intro f hf
                cases hf
          | error g =>
              constructor
              · intro e he
                cases he
              · intro f hf
                cases hf
                rcases hpass.of_error hrun with ⟨hfault, hrefuses⟩
                exact ⟨hfault, Or.inr hrefuses⟩

theorem environment_ends (hsorts : w.Sorts d)
    (hfinds : forall id n, id ∈ d.nodes -> w.node? id = some n -> w.FindsArguments n)
    (hfeeds : w.FeedsData d fed)
    (free : NodeId → Option (Except Refusal (Tensor α))) :
    (forall e, d.environment w fed free = .ok e -> e.Faithful w d fed free) ∧
      (forall f, d.environment w fed free = .error f -> f.isEntryFault = false ∧
        (w.settings.validate w.written w.wide = .error f ∨ Pass.Refuses w d fed free)) := by
  rcases environment_filled hsorts hfinds hfeeds free with ⟨hfilled, hfails⟩
  exact ⟨fun e he => (hfilled e he).faithful hsorts.nodup, hfails⟩

end Dag

/-!
# Every order of a compiled graph
-/

namespace Action

open Workspace

variable [CustomCode Number] {w : Workspace}

theorem ends_materialize {d : Dag} (hsorts : w.Sorts d)
    (hfinds : forall id n, id ∈ d.nodes -> w.node? id = some n -> w.FindsArguments n)
    (free : List (Int × Value)) (data : List (Value × Value)) :
    Ends (materialize d free data) w
      (fun e w' => ∃ fed, (feed d data).run w = (.ok fed, w') ∧
        e.Faithful w d fed (w.freeOf free))
      (fun f _ => f.isEntryFault = false) := by
  unfold materialize
  apply Ends.bind (((ends_feed d data).and ends_run).mono (fun _ _ h => h) fun f w' hf => hf.1)
  intro fed w' hfeed
  rcases hfeed with ⟨⟨hmessages, hfeeds⟩, hrun⟩
  rw [ends_bind, ends_get, ends_ofExcept, Dag.environment_of_messages hmessages]
  have henvironment := Dag.environment_ends hsorts hfinds hfeeds (w.freeOf free)
  constructor
  · intro e he
    exact ⟨fed, hrun, henvironment.1 e he⟩
  · intro f hf
    exact (henvironment.2 f hf).1

/-- Whatever topological order is taken and whatever custom functions do, a pass over a compiled
graph misses no entry, writes none twice, and leaves an environment that is faithful to the
graph.  That no operation is applied to a distribution is not needed. -/
theorem materialize_faithful {starts : List NodeId} {d : Dag} (hreads : w.ReadsParents)
    (hcompile : w.compile starts = .ok d) (free : List (Int × Value))
    (data : List (Value × Value)) :
    Order.ParentsFirst w.parents d.nodes ∧
      forall order, order.Perm d.nodes -> Order.ParentsFirst w.parents order ->
        Ends (materialize ⟨order, d.edges⟩ free data) w
          (fun e w' => ∃ fed, (feed ⟨order, d.edges⟩ data).run w = (.ok fed, w') ∧
            e.Faithful w ⟨order, d.edges⟩ fed (w.freeOf free))
          (fun f _ => f.isEntryFault = false) := by
  have hsorts := sorts_of_compile hcompile
  constructor
  · exact hsorts.parentsFirst
  · intro order hperm hfirst
    apply ends_materialize _ fun id n _ => hreads.findsArguments
    constructor
    · exact hperm.nodup_iff.mpr hsorts.nodup
    · exact hfirst

end Action

/-!
A model in which two nodes are shared: a variable and data are added, and the data are
observed around their own sum with the variable.
-/

namespace Workspace

def sharing : Workspace where
  nodes :=
    [some { Node.lone [1, 1] (.blank [1, 1]) .data with children := [2, 3] },
      some { Node.lone [1, 1] (.blank [1, 1]) (.latent .whole .unconstrained 1) with
        children := [2, 3] },
      some { Node.lone [1, 1] (.blank [1, 1]) (.operation (.named .add) [0, 1] []) with
        parents := [0, 1], children := [3] },
      some { Node.lone [1, 1] (.blank [1, 1])
          (.distribution ⟨.normal, "normal", false, .whole, none,
            [("mean", 2), ("sd", 1)], some 0, 0⟩) with
        parents := [0, 2, 1] }]
  settings := {}
  wide := false
  messages := []
  modes := []

theorem readsParents_sharing : sharing.ReadsParents := by
  intro id n hn r hr
  match id, hn with
  | 0, hn =>
      cases hn
      cases hr
  | 1, hn =>
      cases hn
      cases hr
  | 2, hn =>
      cases hn
      exact hr
  | 3, hn =>
      cases hn
      exact hr

theorem compile_sharing : sharing.compile [3] =
    .ok ⟨[0, 1, 2, 3], [(0, 2), (1, 2), (0, 3), (2, 3), (1, 3)]⟩ :=
  compile_eq [0, 1, 2, 3] rfl (component_of_visitWithin? 16 (by decide +kernel)) (by decide +kernel)
    (by decide +kernel) (by decide) (by decide +kernel) (by decide +kernel)

theorem parentsFirst_sharing : Order.ParentsFirst sharing.parents [1, 0, 2, 3] := by
  have hone : Order.ParentsFirst sharing.parents ([] ++ [1]) := by
    apply Order.parentsFirst_concat (Order.parentsFirst_nil _)
    simp [parents, node?, sharing, Node.lone]
  have htwo : Order.ParentsFirst sharing.parents ([1] ++ [0]) := by
    apply Order.parentsFirst_concat hone
    simp [parents, node?, sharing, Node.lone]
  have hthree : Order.ParentsFirst sharing.parents ([1, 0] ++ [2]) := by
    apply Order.parentsFirst_concat htwo
    simp [parents, node?, sharing, Node.lone]
  apply Order.parentsFirst_concat hthree
  simp [parents, node?, sharing, Node.lone]

attribute [local instance] CustomCode.refusing

theorem materialize_faithful_sharing :
    Ends (Action.materialize ⟨[1, 0, 2, 3], [(0, 2), (1, 2), (0, 3), (2, 3), (1, 3)]⟩
        [(1, .list [.list [.float 0.5]])] []) sharing
      (fun e w => ∃ fed, (Action.feed ⟨[1, 0, 2, 3],
          [(0, 2), (1, 2), (0, 3), (2, 3), (1, 3)]⟩ []).run sharing = (.ok fed, w) ∧
        e.Faithful sharing ⟨[1, 0, 2, 3], [(0, 2), (1, 2), (0, 3), (2, 3), (1, 3)]⟩ fed
          (sharing.freeOf [(1, .list [.list [.float 0.5]])]))
      (fun f _ => f.isEntryFault = false) :=
  (Action.materialize_faithful readsParents_sharing compile_sharing
    [(1, .list [.list [.float 0.5]])] []).2 [1, 0, 2, 3] (by decide) parentsFirst_sharing

end Workspace
end DensityGraph
