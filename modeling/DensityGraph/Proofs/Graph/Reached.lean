import DensityGraph.Proofs.Graph.Spoiled
/-!
# Workspaces after any calls

A caller may go on after a call that has failed.  In all workspaces that are reached so,
values have the shape of their nodes, and every node that says it is the target of a
distribution is.  This decides what a failed change of the graph leaves behind.
-/

namespace DensityGraph

/-- The workspaces that are reached from an empty one by allowed calls, whether these return
or fail. -/
inductive Workspace.Reached (allowed : Workspace → Call → Prop) : Workspace → Prop where
  | empty (settings : Settings) (wide : Bool) : Reached allowed (empty settings wide)
  | call {w : Workspace} (c : Call) : Reached allowed w -> allowed w c ->
      Reached allowed (w.after c)

namespace Call

/-- The node that a call changes. -/
def receiver? : Call → Option NodeId
  | addTarget id _ | removeTarget id | addParameter id _ _ | addParent id _ | removeParent id _
  | setValue id _ => some id
  | _ => none

end Call

namespace Workspace

variable {u v w : Workspace} {c : Call} {x : NodeId} {n n' : Node}
  {allowed : Workspace → Call → Prop}

theorem Built.reached (h : w.Built allowed) : w.Reached allowed := by
  induction h with
  | empty settings wide => exact .empty settings wide
  | @call u u' c _ hallowed hrun ih =>
      have hafter : u.after c = u' := congrArg Prod.snd hrun
      rw [← hafter]
      exact ih.call c hallowed

theorem reached_foldl {cs : List Call} (hw : w.Reached fun _ _ => True) :
    (cs.foldl after w).Reached fun _ _ => True := by
  induction cs generalizing w with
  | nil => exact hw
  | cons c cs ih => exact ih (hw.call c trivial)

/-!
# What a spoiled node keeps
-/

/-- What a call that fails does not change in any node. -/
structure SameLinks (n n' : Node) : Prop where
  value : n'.value = n.value
  parents : n'.parents = n.parents
  children : n'.children = n.children
  distribution : n'.distribution = n.distribution
  parameters : n'.parameters = n.parameters

theorem SameLinks.refl (n : Node) : SameLinks n n :=
  ⟨rfl, rfl, rfl, rfl, rfl⟩

theorem sameLinks_setTarget (n : Node) (t : Option NodeId) :
    SameLinks n (n.mapDistribution (Distribution.setTarget t)) := by
  constructor
  · exact Node.value_mapDistribution n _
  · exact Node.parents_mapDistribution n _
  · exact Node.children_mapDistribution
  · exact Node.distribution_mapDistribution n _
  · unfold Node.parameters
    rw [Node.distribution?_of_mapDistribution rfl]
    cases n.distribution? <;> rfl

theorem sameLinks_addStray (n : Node) (v : Value) : SameLinks n (n.addStray v) := by
  unfold Node.addStray
  split <;> exact ⟨rfl, rfl, rfl, rfl, rfl⟩

theorem sameLinks_update {id : NodeId} {f : Node → Node} (hf : forall n, SameLinks n (f n))
    (hn : w.node? x = some n) :
    ∃ n', (w.update id f).node? x = some n' ∧ (some id ≠ some x -> n' = n) ∧ SameLinks n n' := by
  rw [node?_update, hn, Option.map_some]
  refine ⟨_, rfl, ?_, ?_⟩
  · intro hne
    exact if_neg fun hx => hne (congrArg some hx.symm)
  · split
    · exact hf n
    · exact SameLinks.refl n

/-- A failed call that spoils something changes one node, and in it the target or the
list of values that are no nodes. -/
theorem exists_node?_spoiled (hspoils : w.spoils c = true) (hn : w.node? x = some n) :
    ∃ n', (w.spoiled c).node? x = some n' ∧ (c.receiver? ≠ some x -> n' = n) ∧
      SameLinks n n' := by
  cases c with
  | addTarget id target => exact sameLinks_update (fun n => sameLinks_setTarget n (some id)) hn
  | addParent child v => exact sameLinks_update (fun n => sameLinks_addStray n v) hn
  | removeParent child v => exact sameLinks_update (fun n => ⟨rfl, rfl, rfl, rfl, rfl⟩) hn
  | _ => cases hspoils

theorem not_retains_spoiled (hspoils : w.spoils c = true) : ¬w.Retains (w.spoiled c) := by
  intro h
  cases c with
  | addTarget id target =>
      rcases Action.exists_of_spoils hspoils with ⟨_, n, d, hn, hd, htarget, _⟩
      have hkept := h id n hn
      rw [spoiled, node?_update_self, hn, Option.map_some] at hkept
      have hsame := congrArg Node.distribution? (Option.some.inj hkept)
      rw [Node.distribution?_of_mapDistribution rfl, hd, Option.map_some] at hsame
      have hnone : some id = none := by
        rw [← htarget, ← Option.some.inj hsame]
        rfl
      cases hnone
  | addParent child v =>
      simp only [spoils, Bool.and_eq_true] at hspoils
      rcases exists_node_of_has hspoils.2 with ⟨n, hn, hany⟩
      have hkept := h child n hn
      rw [spoiled, node?_update_self, hn, Option.map_some] at hkept
      have hsame := congrArg Node.strays (Option.some.inj hkept)
      rw [Node.strays_addStray (by simpa using hany)] at hsame
      simp at hsame
  | removeParent child v =>
      simp only [spoils, Bool.and_eq_true] at hspoils
      rcases exists_node_of_has hspoils.2 with ⟨n, hn, hany⟩
      have hkept := h child n hn
      rw [spoiled, node?_update_self, hn, Option.map_some] at hkept
      have hless := Node.length_strays_removeStray hany
      rw [Option.some.inj hkept] at hless
      exact Nat.lt_irrefl _ hless
  | _ => cases hspoils

/-!
# What holds after all calls
-/

theorem owner?_update {id : NodeId} {f : Node → Node}
    (hf : forall n, (f n).distribution = n.distribution) (x : NodeId) :
    (w.update id f).owner? x = w.owner? x := by
  unfold owner?
  rw [node?_update]
  cases w.node? x with
  | none => rfl
  | some n =>
      simp only [Option.map_some, Option.bind_some]
      split
      · exact hf n
      · rfl

theorem target?_update {id : NodeId} {f : Node → Node}
    (hf : forall n, w.node? id = some n -> forall t, n.target? = some t -> (f n).target? = some t)
    {t : NodeId} (h : w.target? x = some t) : (w.update id f).target? x = some t := by
  unfold target? at h ⊢
  rw [node?_update]
  cases hn : w.node? x with
  | none =>
      rw [hn] at h
      cases h
  | some n =>
      rw [hn, Option.bind_some] at h
      simp only [Option.map_some, Option.bind_some]
      split
      · rename_i hx
        exact hf n (hx ▸ hn) t h
      · exact h

theorem Owned.update (h : w.Owned) {id : NodeId} {f : Node → Node}
    (hdistribution : forall n, (f n).distribution = n.distribution)
    (htarget : forall n, w.node? id = some n ->
      forall t, n.target? = some t -> (f n).target? = some t) : (w.update id f).Owned := by
  intro t y ht
  rw [owner?_update hdistribution] at ht
  exact target?_update htarget (h t y ht)

theorem Owned.spoiled (h : w.Owned) (hspoils : w.spoils c = true) : (w.spoiled c).Owned := by
  cases c with
  | addTarget id target =>
      rcases Action.exists_of_spoils hspoils with ⟨_, n, d, hn, hd, hnone, _⟩
      apply h.update fun n => Node.distribution_mapDistribution n _
      intro m hm t ht
      rw [hn] at hm
      cases hm
      rw [Node.target?, hd, Option.bind_some, hnone] at ht
      cases ht
  | addParent child v =>
      apply h.update fun n => (sameLinks_addStray n v).distribution
      intro n _ t ht
      rw [← ht]
      apply Node.target?_of_role
      unfold Node.addStray
      split <;> rfl
  | removeParent child v => exact h.update (fun _ => rfl) fun _ _ _ ht => ht
  | _ => cases hspoils

theorem FitsValues.update (h : w.FitsValues) {id : NodeId} {f : Node → Node}
    (hf : forall n, (f n).value = n.value ∧ (f n).dim = n.dim) : (w.update id f).FitsValues := by
  intro x n' hn'
  rcases node?_update_some hn' with ⟨n, hn, rfl⟩
  split
  · rw [(hf n).1, (hf n).2]
    exact h x n hn
  · exact h x n hn

theorem FitsValues.spoiled (h : w.FitsValues) (hspoils : w.spoils c = true) :
    (w.spoiled c).FitsValues := by
  cases c with
  | addTarget id target =>
      exact h.update fun n => ⟨Node.value_mapDistribution n _, Node.dim_mapDistribution n _⟩
  | addParent child v =>
      apply h.update
      intro n
      unfold Node.addStray
      split <;> exact ⟨rfl, rfl⟩
  | removeParent child v => exact h.update fun _ => ⟨rfl, rfl⟩
  | _ => cases hspoils

theorem edits_of_fails (howned : w.Owned) (hvalues : w.FitsValues) (h : w.returns c = false)
    (hspoils : w.spoils c = false) : Edits (c.Makes w) w (w.after c) := by
  rcases run_of_fails h with ⟨f, hrun⟩
  cases hc : c.isConstruction with
  | true =>
      rcases (c.ends_perform_construction hc howned hvalues.fitsData).of_error hrun with
        hgrows | ⟨data, u, rfl, habandons⟩
      · exact Call.makes_of_growsTo hgrows
      · exact habandons.edits data
  | false =>
      have hfails := (Call.ends_perform_fails hc hvalues).of_error hrun
      exact Call.makes_of_growsTo (hfails.grows hspoils)

theorem after_of_spoils (hvalues : w.FitsValues) (h : w.returns c = false)
    (hspoils : w.spoils c = true) : w.after c = w.spoiled c := by
  rcases run_of_fails h with ⟨f, hrun⟩
  have hc : c.isConstruction = false := by
    cases c <;> first | rfl | cases hspoils
  exact ((Call.ends_perform_fails hc hvalues).of_error hrun).spoils hspoils

/-- What the edits of a call preserve, and its failure if that spoils something, too, holds
after the call. -/
theorem preserves_after {I : Workspace → Prop} (howned : u.Owned) (hvalues : u.FitsValues)
    (hu : I u)
    (hstep : forall v e, I v -> Edits (c.Makes u) u v -> v.Admits e -> c.Makes u v e ->
      I (v.edit e))
    (hspoiled : u.spoils c = true -> I (u.spoiled c)) :
    (u.after c).Owned ∧ (u.after c).FitsValues ∧ I (u.after c) := by
  have hedits : forall v, Edits (c.Makes u) u v ->
      Edits (c.Makes u) u v ∧ v.Owned ∧ v.FitsValues ∧ I v := by
    intro v h
    apply h.preserves (I := fun v => Edits (c.Makes u) u v ∧ v.Owned ∧ v.FitsValues ∧ I v)
    · exact ⟨Edits.refl u, howned, hvalues, hu⟩
    · rintro v e ⟨hbefore, hv, hv', hI⟩ hadmits hmakes
      exact ⟨Edits.tail e hbefore hadmits hmakes, hv.edit hadmits, hv'.edit hadmits,
        hstep v e hI hbefore hadmits hmakes⟩
  cases hreturns : u.returns c with
  | true => exact (hedits _ ((c.ends_perform u).of_ok (run_of_returns hreturns))).2
  | false =>
      cases hspoils : u.spoils c with
      | true =>
          rw [after_of_spoils hvalues hreturns hspoils]
          exact ⟨howned.spoiled hspoils, hvalues.spoiled hspoils, hspoiled hspoils⟩
      | false => exact (hedits _ (edits_of_fails howned hvalues hreturns hspoils)).2

theorem Reached.preserves {I : Workspace → Prop} (h : w.Reached allowed)
    (hempty : forall settings wide, I (Workspace.empty settings wide))
    (hstep : forall u v c e, I v -> allowed u c -> Edits (c.Makes u) u v -> v.Admits e ->
      c.Makes u v e -> I (v.edit e))
    (hspoiled : forall v c, I v -> allowed v c -> v.spoils c = true -> I (v.spoiled c)) :
    w.Owned ∧ w.FitsValues ∧ I w := by
  induction h with
  | empty settings wide =>
      exact ⟨owned_empty settings wide, fitsValues_empty settings wide, hempty settings wide⟩
  | @call u c _ hallowed ih =>
      rcases ih with ⟨howned, hvalues, hu⟩
      exact preserves_after howned hvalues hu
        (fun v e hv hedits hadmits hmakes => hstep u v c e hv hallowed hedits hadmits hmakes)
        (hspoiled u c hu hallowed)

theorem owned_of_reached (h : w.Reached allowed) : w.Owned :=
  (h.preserves (I := fun _ => True) (fun _ _ => trivial) (fun _ _ _ _ _ _ _ _ _ => trivial)
    fun _ _ _ _ _ => trivial).1

theorem fitsValues_of_reached (h : w.Reached allowed) : w.FitsValues :=
  (h.preserves (I := fun _ => True) (fun _ _ => trivial) (fun _ _ _ _ _ _ _ _ _ => trivial)
    fun _ _ _ _ _ => trivial).2.1

/-!
# Failed changes
-/

/-- A change of the graph that fails has left all nodes as they were, unless a distribution
was to become its own target, or a value that is no node to become a parent or to stop
being one.  Then it has changed the target of that distribution, or the list of such
values, and nothing else. -/
theorem retains_iff_of_fails (w : Workspace) (h : w.Reached fun _ _ => True) (c : Call)
    (hc : c.isConstruction = false) (f : Failure) (w' : Workspace)
    (hrun : c.perform.run w = (.error f, w')) :
    ((forall id n, w.node? id = some n -> w'.node? id = some n) ↔ w.spoils c = false) ∧
    forall id n, w.node? id = some n -> ∃ n', w'.node? id = some n' ∧
      (c.receiver? ≠ some id -> n' = n) ∧ SameLinks n n' := by
  have hfails := (Call.ends_perform_fails hc (fitsValues_of_reached h)).of_error hrun
  cases hspoils : w.spoils c with
  | true =>
      rw [hfails.spoils hspoils]
      constructor
      · constructor
        · intro hretains
          exact absurd hretains (not_retains_spoiled hspoils)
        · nofun
      · intro id n hn
        exact exists_node?_spoiled hspoils hn
  | false =>
      have hretains := (hfails.grows hspoils).retains
      refine ⟨⟨fun _ => rfl, fun _ => hretains⟩, ?_⟩
      intro id n hn
      exact ⟨n, hretains id n hn, fun _ => rfl, SameLinks.refl n⟩

/-- A normal distribution whose target has been taken away. -/
def released : Workspace :=
  [.declare .normal [.float 0.0, .float 1.0] [], .removeTarget 2].foldl after (empty {} true)

theorem retains_iff_of_fails_released :
    (released.after (.addParent 2 (.node 2))).node? 2 = released.node? 2 ∧
      ¬forall id n, released.node? id = some n ->
        (released.after (.addTarget 2 (.node 2))).node? id = some n := by
  have hreached : released.Reached fun _ _ => True := reached_foldl (.empty {} true)
  have hparent : released.returns (.addParent 2 (.node 2)) = false := by decide +kernel
  have htarget : released.returns (.addTarget 2 (.node 2)) = false := by decide +kernel
  rcases run_of_fails hparent with ⟨f, hrun⟩
  rcases run_of_fails htarget with ⟨f', hrun'⟩
  have hsome : (released.node? 2).isSome = true := by decide +kernel
  rcases Option.isSome_iff_exists.mp hsome with ⟨n, hn⟩
  constructor
  · rw [hn]
    exact (retains_iff_of_fails released hreached (.addParent 2 (.node 2)) rfl f _ hrun).1.mpr
      rfl 2 n hn
  · rw [(retains_iff_of_fails released hreached (.addTarget 2 (.node 2)) rfl f' _ hrun').1]
    decide +kernel

/-- A distribution that is to become its own target keeps it, though the call fails. -/
theorem not_retains_released :
    ¬forall (w : Workspace) (c : Call) (f : Failure) (w' : Workspace),
      w.Reached (fun _ _ => True) -> c.isConstruction = false ->
        c.perform.run w = (.error f, w') ->
          forall id n, w.node? id = some n -> w'.node? id = some n := by
  intro h
  have hreached : released.Reached fun _ _ => True := reached_foldl (.empty {} true)
  have hfails : released.returns (.addTarget 2 (.node 2)) = false := by decide +kernel
  rcases run_of_fails hfails with ⟨f, hrun⟩
  have hspoils : released.spoils (.addTarget 2 (.node 2)) = true := by decide +kernel
  have hafter := (Call.ends_perform_fails rfl (fitsValues_of_reached hreached)).of_error hrun
  apply not_retains_spoiled hspoils
  rw [← hafter.spoils hspoils]
  exact h released _ f _ hreached rfl hrun

end Workspace
end DensityGraph
