import DensityGraph.Proofs.Graph.Declare
import DensityGraph.Proofs.Graph.Retain
/-!
# Declarations that fail

A declaration that fails has left all nodes as they were, and has kept every relation that
holds along the building of its arguments.  What it does at last, attaching the first target
and naming the parameters, cannot fail any more.
-/

namespace DensityGraph

namespace Workspace

variable {w : Workspace} {x : NodeId}

theorem isSome_of_dims? {ids : List NodeId} {ds : List Shape} (h : w.dims? ids = some ds)
    (hx : x ∈ ids) : (w.node? x).isSome = true := by
  induction ids generalizing ds with
  | nil => cases hx
  | cons id ids ih =>
      rcases exists_of_dims? h with ⟨n, es, hn, hes, _⟩
      rcases List.mem_cons.mp hx with rfl | hx
      · rw [hn]
        rfl
      · exact ih hes hx

end Workspace

namespace Action

open Workspace

variable {β : Type} {w : Workspace} {R : Workspace → Workspace → Prop} [Gathers R]
  {E : Failure → Workspace → Prop} {id t : NodeId}
  {n m : Node} {d : Distribution}

/-!
# Targets
-/

theorem ends_node_of_some {Q : Node → Workspace → Prop} (hn : w.node? id = some n) :
    Ends (node id) w Q E ↔ Q n w := by
  rw [ends_node]
  simp [hn]

theorem ends_distribution_of_some {Q : Distribution → Workspace → Prop}
    (hn : w.node? id = some n) (hd : n.distribution? = some d) :
    Ends (distribution id) w Q E ↔ Q d w := by
  unfold distribution
  rw [ends_bind, ends_node_of_some hn, hd]
  exact ends_pure

theorem ends_removeTarget_of_some {Q : Unit → Workspace → Prop} (hn : w.node? id = some n)
    (hd : n.distribution? = some d) (ht : d.target = some t) :
    Ends (removeTarget id) w Q E ↔ Q () (w.edit (.detach id t)) := by
  unfold removeTarget targetOf
  rw [ends_bind, ends_bind, ends_distribution_of_some hn hd, ht]
  exact Iff.rfl

theorem ends_attach {nv : NodeValue} (hn : w.node? id = some n) (hne : t ≠ id)
    (hvalue : nv.array.shape = n.dim) :
    Ends (do
      updateDistribution id (Distribution.setTarget (some t))
      addParent id (.node t)
      assignValue id nv
      update t fun n => { n with distribution := some id }) w
      (fun _ w' => w' = w.edit (.attach id t nv)) E := by
  have hlinked : ∃ n', ((w.update id (Node.mapDistribution (Distribution.setTarget (some t)))).link
      id t).node? id = some n' ∧ n'.dim = n.dim := by
    refine ⟨(n.mapDistribution (Distribution.setTarget (some t))).addParent t, ?_, ?_⟩
    · rw [node?_link, node?_update_self, hn]
      simp [Ne.symm hne]
    · rw [Node.dim_addParent, Node.dim_mapDistribution]
  rcases hlinked with ⟨n', hn', hdim'⟩
  unfold updateDistribution addParent assignValue
  rw [ends_bind, ends_update, ends_bind]
  simp only [hne, if_false]
  rw [ends_modify, ends_bind, ends_bind, ends_node_of_some hn']
  simp only [hvalue, hdim', ne_eq, not_true, if_false]
  rw [ends_update, ends_update]
  rfl

theorem ends_addTarget_of_fits (hn : w.node? id = some n) (hd : n.distribution? = some d)
    (hfree : d.target = none) (hm : w.node? t = some m) (hdim : m.dim = n.dim)
    (howner : m.distribution = none) (hne : t ≠ id) (hvalue : m.value.array.shape = n.dim) :
    Ends (addTarget id (.node t)) w (fun _ w' => w' = w.edit (.attach id t m.value)) E := by
  unfold addTarget
  rw [ends_bind, ends_distribution_of_some hn hd]
  simp only [hfree, Option.isSome_none, Bool.false_eq_true, if_false, nodeId, pure_bind]
  rw [ends_bind, ends_node_of_some hm, ends_bind, ends_node_of_some hn]
  simp only [hdim, ne_eq, not_true, if_false, howner, Option.isSome_none, Bool.false_eq_true]
  exact ends_attach hn hne hvalue

/-!
# Parameters
-/

theorem ends_toNode_float (x : Float) :
    Ends (toNode (.float x)) w (fun p _ => p = w.nodes.length) E := by
  have hdata : ∃ t, (Value.float x).toData w.kindOf = .ok t ∧ t.shape = [1, 1] := ⟨_, rfl, rfl⟩
  rcases hdata with ⟨t, ht, hshape⟩
  unfold toNode newData
  rw [ends_bind, ends_get, ht, ends_bind, ends_ofExcept]
  constructor
  · rintro _ ⟨⟩
    rw [ends_bind, ends_reserve, hshape]
    rfl
  · intro f hf
    cases hf

def IsParameter (id : NodeId) (v : Value) : Prop :=
  (∃ p, v = .node p ∧ p ≠ id) ∨ ∃ x, v = .float x

theorem ends_addParameter_of_family {family : Family} {v : Value} {name : String}
    (hfamily : w.HasFamily id family) (hv : IsParameter id v) :
    Ends (addParameter id v name) w (fun _ w' => w'.HasFamily id family) E := by
  rcases hfamily with ⟨n, d, hn, hd, hf⟩
  have hrest : forall p u, p ≠ id -> Ends (do
      addParent id (.node p)
      updateDistribution id (Distribution.setParameter name p)
      return p) u (fun _ _ => True) fun _ _ => False := by
    intro p u hne
    unfold addParent updateDistribution
    simp only [hne, if_false]
    rw [ends_bind, ends_modify, ends_bind, ends_update, ends_pure]
    trivial
  have hreturns : Ends (addParameter id v name) w (fun _ _ => True) fun _ _ => False := by
    unfold addParameter
    rw [ends_bind, ends_distribution_of_some hn hd, ends_bind]
    rcases hv with ⟨p, rfl, hne⟩ | ⟨x, rfl⟩
    · exact ends_pure.mpr (hrest p w hne)
    · apply (ends_toNode_float x).imp
      rintro p u rfl
      apply hrest
      rintro rfl
      rw [node?_length] at hn
      cases hn
  apply ((ends_addParameter id v name).and hreturns).mono
  · rintro _ w' ⟨⟨u, p, hgrows, _, hadmits, rfl⟩, _⟩
    exact (Edits.hasFamily hgrows ⟨n, d, hn, hd, hf⟩).edit hadmits
  · intro _ _ h
    exact h.2.elim

theorem ends_addParameters_of_family {family : Family} (hfamily : w.HasFamily id family)
    {parameters : List (String × Value)}
    (hparameters : forall p, p ∈ parameters -> IsParameter id p.2) :
    Ends (addParameters id parameters) w (fun _ w' => w'.HasFamily id family) E := by
  unfold addParameters
  apply Ends.forM (P := fun _ (w' : Workspace) => w'.HasFamily id family) hfamily
  intro done parameter rest v hsplit hv
  rcases parameter with ⟨name, x⟩
  rw [ends_bind]
  apply (ends_addParameter_of_family hv _).imp
  intro _ _ h
  exact h
  · apply hparameters (name, x)
    rw [hsplit]
    exact List.mem_append.mpr (Or.inr List.mem_cons_self)

/-!
# New distributions
-/

theorem along_checkTruncation (name : GivenName) (support : Interval) (hasCdf : Bool)
    (v : Value) : Along R (checkTruncation name support hasCdf v) := by
  unfold checkTruncation
  split
  · exact along_pure _
  · split
    · exact along_refuse _
    · exact (along_written _).bind fun _ => along_invalid _
    · simp only
      apply Along.ite
      · apply Along.ite
        · exact (along_requireText _).bind fun _ =>
            (along_report _ _ _).bind fun _ => along_pure _
        · apply Along.ite
          · exact along_invalid _
          · apply Along.ite
            · exact along_pure _
            · exact along_invalid _
      · exact along_invalid _

theorem ends_newTarget_node (family : Family) (dim : Shape) (range : Interval) :
    Ends (newTarget family dim range) w
      (fun id w' => ∃ role, id = w.nodes.length ∧
        w' = w.reserve.put w.nodes.length (Node.lone dim (NodeValue.blank dim) role))
      (fun _ w' => R w w') := by
  have hbuild : forall (range : Interval) (constraint : Value), Ends (do
      let b ← bounds (.float range.lower) (.float range.upper)
      putVariable b (← constraintOf b constraint) dim) w
      (fun id w' => ∃ role, id = w.nodes.length ∧
        w' = w.reserve.put w.nodes.length (Node.lone dim (NodeValue.blank dim) role))
      (fun _ w' => R w w') := by
    intro range constraint
    apply Ends.bind ((along_bounds _ _).ends (ends_bounds _ _))
    rintro b v ⟨⟨rfl, _⟩, _⟩
    apply Ends.bind ((along_constraintOf b constraint).ends (ends_constraintOf b constraint))
    rintro c v ⟨⟨rfl, _⟩, _⟩
    exact ends_putVariable_node b c dim
  unfold newTarget
  simp only
  split
  · exact hbuild _ _
  · exact hbuild _ _
  · exact hbuild _ _

theorem atomic_newDistribution (family : Family) (name : GivenName) (isDiscrete : Bool)
    (support : Interval) (dim truncation : Value) :
    Atomic R (newDistribution family name isDiscrete support dim truncation) := by
  refine (along_checkTruncation name support family.hasCdf truncation).bind_atomic fun t =>
    ?_
  intro w
  rw [ends_bind, ends_reserve, ends_bind, ends_ofExcept]
  constructor
  · intro d hd
    have hdim := Value.isDim_toDim hd
    apply Ends.bind ((ends_newTarget family hdim (t.getD support)).and
      (ends_newTarget_node family d (t.getD support)) |>.mono (fun _ _ h => h)
        fun _ _ h => Gathers.trans (Gathers.reserve w) h.2)
    rintro target u ⟨⟨⟨hgrows, _, _⟩, _⟩, role, rfl, rfl⟩
    have hlength : forall v : Workspace, v.nodes.length < v.reserve.nodes.length := by
      intro v
      simp [Workspace.reserve]
    have hne : w.nodes.length ≠ w.reserve.nodes.length := Nat.ne_of_lt (hlength w)
    rw [ends_bind, ends_put]
    have hself := node?_put_self _ (Node.lone d (NodeValue.blank d)
      (.distribution ⟨family, name, isDiscrete, support, t, [], none, w.reserve.nodes.length⟩))
        (Nat.lt_of_lt_of_le (hlength w) (Edits.length_le hgrows))
    apply Ends.bind (ends_addTarget_of_fits hself rfl rfl
      ((node?_put_of_ne _ _ hne).trans (node?_put_self _ _ (hlength w.reserve))) rfl rfl
        (Ne.symm hne) rfl)
    rintro _ _ rfl
    exact ends_pure.mpr trivial
  · intro _ _
    exact Gathers.reserve w

/-- A new distribution with its parameters, which are nodes that were there before, or
numbers. -/
theorem ends_withParameters_node {family : Family} {name : GivenName} {isDiscrete : Bool}
    {support : Interval} {dim truncation : Value} {parameters : List (String × Value)}
    (hsupport : support.lower < support.upper) (hparameters : forall p, p ∈ parameters ->
      (∃ x, p.2 = .node x ∧ (w.node? x).isSome = true) ∨ ∃ x, p.2 = .float x) :
    Ends (do
      let id ← newDistribution family name isDiscrete support dim truncation
      addParameters id parameters
      return id) w (fun id w' => w'.HasFamily id family) (fun _ w' => R w w') := by
  apply Ends.bind ((ends_newDistribution family name isDiscrete hsupport dim truncation).and
    (atomic_newDistribution family name isDiscrete support dim truncation w)
      |>.mono (fun _ _ h => h.1) fun _ _ h => h.2)
  rintro id v ⟨_, hfamily, hle⟩
  apply Ends.bind (ends_addParameters_of_family hfamily _)
  · intro _ v' hv'
    exact ends_pure.mpr hv'
  · intro p hp
    rcases hparameters p hp with ⟨x, hx, hsome⟩ | hnumber
    · left
      refine ⟨x, hx, ?_⟩
      rintro rfl
      rw [node?_eq_none_of_length_le hle] at hsome
      cases hsome
    · exact Or.inr hnumber

/-!
# Declarations
-/

theorem along_checkDims (parameters : List NodeId) (target : Value) :
    Along R (checkDims parameters target) := by
  refine (along_dims parameters).bind fun ds => ?_
  split
  · exact along_invalid _
  · split
    · exact along_pure _
    · refine (along_ofExcept _).bind fun d => ?_
      split
      · exact along_invalid _
      · exact along_pure _

theorem along_fixedNumber (name : String) (v : Value) : Along R (fixedNumber name v) := by
  have hbad : Along R (do invalid (.notFiniteNumber name (← written v)) : Action Float) :=
    (along_written v).bind fun _ => along_invalid _
  refine (along_ofRefusal _).bind fun content => ?_
  simp only
  split
  · exact hbad
  · split
    · split
      · exact (along_pure _).ite hbad
      · exact hbad
    · exact (along_refuse _).ite hbad
    · exact (along_refuse _).ite hbad

theorem along_checkScalar (name : String) (id : NodeId) : Along R (checkScalar name id) :=
  (along_node id).bind fun _ => (along_invalid _).ite (along_pure _)

/-- What a declaration ends in: a distribution node, or the nodes that were there before and
new ones. -/
abbrev Declared (R : Workspace → Workspace → Prop) (w : Workspace) (a : Action NodeId) :
    Prop :=
  Ends a w (fun id w' => ∃ family, w'.HasFamily id family) (fun _ w' => R w w')

theorem Along.declared {a : Action β} {next : β → Action NodeId} {Q : β → Workspace → Prop}
    (h : Along R a) (ha : Ends a w Q Fails) (hnext : forall x v, Q x v -> Declared R v (next x)) :
    Declared R w (a >>= next) := by
  apply Ends.bind (h.ends ha)
  intro x v hv
  exact (hnext x v hv.1).mono (fun _ _ h => h) fun _ _ => Gathers.trans hv.2

omit [Gathers R] in
theorem Declared.ite {c : Prop} [Decidable c] {a b : Action NodeId} (ha : c -> Declared R w a)
    (hb : ¬c -> Declared R w b) : Declared R w (if c then a else b) :=
  ends_ite.mpr ⟨ha, hb⟩

theorem declared_invalid (reason : Invalid) (next : β → Action NodeId) :
    Declared R w (invalid reason >>= next) := by
  unfold Declared
  rw [ends_bind, ends_invalid]
  exact Gathers.refl w

theorem declared_blank (name : GivenName) (isDiscrete : Bool) (dim truncation : Value) :
    Declared R w (newDistribution .blank name isDiscrete Interval.whole dim truncation) := by
  apply ((ends_newDistribution .blank name isDiscrete lt_whole dim truncation).and
    (atomic_newDistribution (R := R) .blank name isDiscrete Interval.whole dim truncation w)).mono
  · intro _ _ h
    exact ⟨.blank, h.1.2.1⟩
  · intro _ _ h
    exact h.2

theorem declared_withParameters {family : Family} {name : GivenName} {isDiscrete : Bool}
    {support : Interval} {dim truncation : Value} {parameters : List (String × Value)}
    (hsupport : support.lower < support.upper) (hparameters : forall p, p ∈ parameters ->
      (∃ x, p.2 = .node x ∧ (w.node? x).isSome = true) ∨ ∃ x, p.2 = .float x) :
    Declared R w (do
      let id ← newDistribution family name isDiscrete support dim truncation
      addParameters id parameters
      return id) := by
  apply (ends_withParameters_node hsupport hparameters).imp
  intro _ _ h
  exact ⟨family, h⟩

theorem declared_simple (family : Family) (parameters : List Value) (dim truncation : Value) :
    Declared R w (declareSimple family parameters dim truncation) := by
  unfold declareSimple
  apply (Along.mapM along_toNode parameters).declared (ends_toNodes parameters)
  intro ps v _
  apply (along_checkDims ps dim).declared (ends_checkDims ps dim)
  rintro d _ ⟨rfl, ds, hds, _⟩
  apply declared_withParameters (lt_support family)
  intro p hp
  rcases List.mem_map.mp (List.of_mem_zip hp).2 with ⟨id, hid, heq⟩
  exact Or.inl ⟨id, heq.symm, isSome_of_dims? hds hid⟩

theorem declared_uniform (min max dim : Value) : Declared R w (declareUniform min max dim) := by
  unfold declareUniform
  apply (along_fixedNumber "min" min).declared (ends_fixedNumber "min" min)
  rintro l v ⟨rfl, _⟩
  apply (along_fixedNumber "max" max).declared (ends_fixedNumber "max" max)
  rintro u v' ⟨rfl, _⟩
  refine Declared.ite (fun hlt => ?_) fun _ => declared_invalid _ _
  have hsupport : (Interval.mk l u).lower < (Interval.mk l u).upper := hlt
  unfold Declared
  rw [ends_bind, ends_ofExcept]
  constructor
  · intro d _
    apply declared_withParameters hsupport
    intro p hp
    right
    rcases List.mem_cons.mp hp with rfl | hp
    · exact ⟨l, rfl⟩
    · rw [List.mem_singleton.mp hp]
      exact ⟨u, rfl⟩
  · intro _ _
    exact Gathers.refl _

theorem declared_binomial (size prob dim : Value) : Declared R w (declareBinomial size prob dim) := by
  unfold declareBinomial
  apply (along_fixedNumber "size" size).declared (ends_fixedNumber "size" size)
  rintro k v ⟨rfl, hfinite⟩
  refine Declared.ite (fun _ => declared_invalid _ _) fun hcount => ?_
  simp only [Bool.or_eq_true, decide_eq_true_eq, not_or] at hcount
  have hsupport : (Interval.mk 0.0 k).lower < (Interval.mk 0.0 k).upper :=
    Number.pos_of_not_lt_one hfinite hcount.1
  apply (along_toNode (.float k)).declared (ends_toNode (.float k))
  intro sizeNode v' hv'
  apply (along_toNode prob).declared (ends_toNode prob)
  intro p u hu
  apply (along_checkDims [p] dim).declared (ends_checkDims [p] dim)
  rintro d _ ⟨rfl, ds, hds, _⟩
  apply declared_withParameters hsupport
  intro q hq
  left
  rcases List.mem_cons.mp hq with rfl | hq
  · rcases hu.1.standsFor hv'.2 with hnode | ⟨_, hdata⟩
    · cases hnode
    · exact ⟨sizeNode, rfl, isSome_of_has hdata⟩
  · rw [List.mem_singleton.mp hq]
    exact ⟨p, rfl, isSome_of_dims? hds List.mem_cons_self⟩

theorem declared_lkj (eta dimension : Value) : Declared R w (declareLkj eta dimension) := by
  unfold declareLkj
  apply (along_toNode eta).declared (ends_toNode eta)
  intro e v _
  apply (along_checkScalar "eta" e).declared (ends_checkScalar "eta" e)
  rintro _ _ ⟨rfl, n, hn, _⟩
  apply declared_withParameters lt_whole
  intro p hp
  left
  rw [List.mem_singleton.mp hp]
  refine ⟨e, rfl, ?_⟩
  rw [hn]
  rfl

theorem declared_wishart (df sigma : Value) : Declared R w (declareWishart df sigma) := by
  unfold declareWishart
  apply (along_toNode df).declared (ends_toNode df)
  intro k v _
  apply (along_toNode sigma).declared (ends_toNode sigma)
  intro s v' _
  apply (along_checkScalar "df" k).declared (ends_checkScalar "df" k)
  rintro _ u ⟨rfl, m, hm, _⟩
  unfold Declared
  rw [ends_bind, ends_node]
  constructor
  · intro n hn
    refine Declared.ite (fun _ => ?_) fun _ => declared_invalid _ _
    apply declared_withParameters lt_whole
    intro p hp
    left
    rcases List.mem_cons.mp hp with rfl | hp
    · refine ⟨k, rfl, ?_⟩
      rw [hm]
      rfl
    · rw [List.mem_singleton.mp hp]
      refine ⟨s, rfl, ?_⟩
      rw [hn]
      rfl
  · intro _
    exact Gathers.refl _

theorem declared_bound (family : Family) (args : List Value) :
    Declared R w (declareBound family args) := by
  unfold declareBound
  split
  · unfold Declared
    rw [ends_bind, ends_get, ends_bind, ends_ofRefusal]
    refine ⟨fun isDiscrete _ => declared_blank _ isDiscrete _ _, fun _ _ => ?_⟩
    exact Gathers.refl w
  · exact declared_uniform _ _ _
  · exact declared_binomial _ _ _
  · exact declared_lkj _ _
  · exact declared_wishart _ _
  · exact declared_simple _ _ _ _

/-- The node that a declaration returns belongs to a distribution: that it is found cannot
fail. -/
theorem atomic_declare (family : Family) (args : List Value) (named : List (String × Value)) :
    Atomic R (declare family args named) := by
  refine (along_ofRefusal _).bind_atomic fun xs => ?_
  intro w
  apply Ends.bind (declared_bound family xs)
  rintro id v ⟨_, n, d, hn, hd, _⟩
  rw [ends_bind, ends_distribution_of_some hn hd, ends_pure]
  trivial

end Action
end DensityGraph
