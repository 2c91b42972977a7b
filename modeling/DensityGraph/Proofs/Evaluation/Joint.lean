import Mathlib.Logic.Equiv.Basic
import DensityGraph.Proofs.Evaluation.Renamed
import DensityGraph.Proofs.Scalar.Real
/-!
# The joint density of a compiled graph

A graph is compiled from the components of some nodes.  Its joint density is the total of one
term for every distribution in these components and, with adjustment, of one Jacobian for
every variable.  Neither the numbers of the nodes nor the order in which the graph has them
are of any importance.
-/

namespace DensityGraph

variable {α : Type} [Scalar α]

/-- All nodes of a kind that belong to the components of some nodes, each of them once and
in any order. -/
structure Workspace.Enumerates (w : Workspace) (starts : List NodeId) (p : Node → Bool)
    (ids : List NodeId) : Prop where
  nodup : ids.Nodup
  mem : forall id, id ∈ ids ↔ id ∈ w.component starts ∧ w.has p id = true

namespace Workspace

variable {w : Workspace} {starts : List NodeId} {p : Node → Bool} {ids ids' : List NodeId}

theorem Enumerates.perm (h : w.Enumerates starts p ids) (h' : w.Enumerates starts p ids') :
    ids.Perm ids' := by
  rw [List.perm_ext_iff_of_nodup h.nodup h'.nodup]
  intro id
  rw [h.mem, h'.mem]

theorem enumerates_select {d : Dag} (hcompile : w.compile starts = .ok d) (p : Node → Bool) :
    w.Enumerates starts p (d.select w p) where
  nodup := (sorts_of_compile hcompile).nodup.filter _
  mem id := by rw [mem_select, (compile_ok hcompile).1.mem_iff]

end Workspace

namespace Dag

/-- The joint density is the total of the terms of all distributions and, if it is adjusted,
of the Jacobians of all variables.  Hence graphs that differ in the numbers of their nodes
have the same joint density, or neither has one, with their current data as well as with the
same data for corresponding nodes.  Custom functions may compute anything and may apply the
densities that they are given. -/
theorem jointAt_total [CustomCode α] [Scalar.Exact α] {w v : Workspace} {starts : List NodeId}
    {d : Dag}
    {data : List (Value × Value)} {fed : List (NodeId × Value)}
    (hcompile : w.compile starts = .ok d) (hreads : d.ReadsParents w)
    (hfeed : (Action.feed d data).run w = (.ok fed, v))
    (free : NodeId → Option (Except Refusal (Tensor α))) (adjust : Bool) :
    (forall t, d.jointAt w fed free adjust = .ok t ->
      forall distributions latents, w.Enumerates starts Node.isDistribution distributions ->
        w.Enumerates starts Node.isLatent latents ->
          ∃ ts, w.logTerms fed free distributions (if adjust then latents else []) = some ts ∧
            Tensor.IsTotal ts t) ∧
    (forall σ w' starts' d' data' fed' v' free', w'.compile starts' = .ok d' ->
      d.Renamed σ w d' w' -> (Action.feed d' data').run w' = (.ok fed', v') ->
        (data = [] ∧ data' = [] ∨
          forall id, id ∈ d.data w -> fed'.lookup (σ id) = fed.lookup id) ->
        (forall id, id ∈ d.latents w -> free' (σ id) = free id) ->
          (d'.jointAt w' fed' free' adjust).toOption = (d.jointAt w fed free adjust).toOption) := by
  have hsorts := Workspace.sorts_of_compile hcompile
  have hfeeds : w.FeedsData d fed := ((Action.ends_feed d data).of_ok hfeed).2
  constructor
  · intro t hjoint distributions latents hdistributions hlatents
    rcases exists_environment_of_jointAt hjoint with ⟨e, he⟩
    rcases toOption_jointAt hsorts hreads hfeeds he adjust with ⟨p, _, hterms⟩
    rw [hjoint] at hterms
    rcases Option.bind_eq_some_iff.mp hterms.symm with ⟨us, hus, hsum⟩
    have hperm : (if adjust then d.latents w else []).Perm
        (if adjust then latents else []) := by
      cases adjust with
      | true => exact (Workspace.enumerates_select hcompile _).perm hlatents
      | false => exact List.Perm.refl []
    have hperm' := (Workspace.enumerates_select hcompile _).perm hdistributions
    rcases Workspace.logTerms_perm hperm' hperm hus with ⟨ts, hts, husts⟩
    exact ⟨ts, hts, (Environment.isTotal_of_sumTerms (toOption_eq_some.mp hsum)).perm husts⟩
  · intro σ w' starts' d' data' fed' v' free' hcompile' hrenamed hfeed' hdata hfree
    have hinputs : d.SameInputs σ w fed fed' free free' := by
      rcases hdata with ⟨rfl, rfl⟩ | hdata
      · rw [Action.run_feed_nil, Prod.mk.injEq, Except.ok.injEq] at hfeed hfeed'
        rw [← hfeed.1, ← hfeed'.1]
        exact hrenamed.sameInputs_current hfree
      · exact ⟨hdata, hfree⟩
    exact hrenamed.jointAt hsorts (Workspace.sorts_of_compile hcompile') hreads hfeeds hinputs
      adjust

end Dag

/-!
The model with two shared nodes, and the same model in which the variable was made before
the data.
-/

namespace Workspace

/-- Two chains of real numbers for one variable. -/
noncomputable def exactChains (id other : NodeId) : Option (Except Refusal (Tensor ℝ)) :=
  if other = id then some (.ok (Tensor.full [2, 1] 1)) else none

def sharingDag : Dag :=
  ⟨[0, 1, 2, 3], [(0, 2), (1, 2), (0, 3), (2, 3), (1, 3)]⟩

def sharingSwapped : Workspace where
  nodes :=
    [some { Node.lone [1, 1] (.blank [1, 1]) (.latent .whole .unconstrained 1) with
        children := [2, 3] },
      some { Node.lone [1, 1] (.blank [1, 1]) .data with children := [2, 3] },
      some { Node.lone [1, 1] (.blank [1, 1]) (.operation (.named .add) [1, 0] []) with
        parents := [1, 0], children := [3] },
      some { Node.lone [1, 1] (.blank [1, 1])
          (.distribution ⟨.normal, "normal", false, .whole, none,
            [("sd", 0), ("mean", 2)], some 1, 0⟩) with
        parents := [1, 0, 2] }]
  settings := {}
  wide := false
  messages := []
  modes := []

def sharingSwappedDag : Dag :=
  ⟨[0, 1, 2, 3], [(1, 2), (0, 2), (1, 3), (0, 3), (2, 3)]⟩

theorem compile_sharingSwapped : sharingSwapped.compile [2] = .ok sharingSwappedDag :=
  compile_eq [0, 1, 2, 3] rfl (component_of_visitWithin? 16 (by decide +kernel)) (by decide +kernel)
    (by decide +kernel) (by decide) (by decide +kernel) (by decide +kernel)

theorem renamed_sharing :
    sharingDag.Renamed (Equiv.swap 0 1) sharing sharingSwappedDag sharingSwapped where
  settings := rfl
  wide := rfl
  bijective := by
    refine ⟨?_, (Equiv.swap 0 1).injective.injOn, ?_⟩
    · intro id hid
      simp [sharingDag, sharingSwappedDag] at hid ⊢
      rcases hid with rfl | rfl | rfl | rfl <;> decide
    · intro id hid
      refine ⟨Equiv.swap 0 1 id, ?_, Equiv.swap_apply_self 0 1 id⟩
      simp [sharingDag, sharingSwappedDag] at hid ⊢
      rcases hid with rfl | rfl | rfl | rfl <;> decide
  nodes := by
    intro id hid
    simp [sharingDag] at hid
    rcases hid with rfl | rfl | rfl | rfl
    · exact ⟨_, _, rfl, rfl, rfl, .data, by decide, fun _ => rfl⟩
    · exact ⟨_, _, rfl, rfl, rfl, .latent .whole .unconstrained 1, by decide, nofun⟩
    · exact ⟨_, _, rfl, rfl, rfl, .operation (.named .add) [0, 1] [], by decide, nofun⟩
    · refine ⟨_, _, rfl, rfl, rfl, .distribution _ _ ?_, by decide, nofun⟩
      exact ⟨rfl, rfl, rfl, by decide, by decide, rfl⟩

attribute [local instance] CustomCode.refusing

theorem jointAt_total_sharing :
    ∃ t ts, sharingDag.jointAt sharing (sharingDag.currentFeed sharing) (exactChains 1) true =
        .ok t ∧
      sharing.logTerms (sharingDag.currentFeed sharing) (exactChains 1) [3] [1] = some ts ∧
      Tensor.IsTotal ts t ∧
      (sharingSwappedDag.jointAt sharingSwapped (sharingSwappedDag.currentFeed sharingSwapped)
        (exactChains 0) true).toOption = some t := by
  have hcompile : sharing.compile [3] = .ok sharingDag := compile_sharing
  have hreads : sharingDag.ReadsParents sharing := fun id n _ => readsParents_sharing id n
  have hsome : (sharingDag.jointAt sharing (sharingDag.currentFeed sharing)
      (exactChains 1) true).toOption.isSome = true := by decide +kernel
  rcases Option.isSome_iff_exists.mp hsome with ⟨t, hjoint⟩
  have ht := toOption_eq_some.mp hjoint
  rcases Dag.jointAt_total hcompile hreads (Action.run_feed_nil sharingDag sharing)
    (exactChains 1) true with ⟨htotal, hrenamed⟩
  rcases htotal t ht [3] [1] (enumerates_select hcompile _) (enumerates_select hcompile _)
    with ⟨ts, hts, hsum⟩
  refine ⟨t, ts, ht, hts, hsum, ?_⟩
  rw [← hjoint]
  apply hrenamed _ _ _ _ [] _ _ _ compile_sharingSwapped renamed_sharing
    (Action.run_feed_nil sharingSwappedDag sharingSwapped) (Or.inl ⟨rfl, rfl⟩)
  intro id hid
  have hone : id = 1 := List.mem_singleton.mp hid
  rw [hone]
  rfl

end Workspace
end DensityGraph
