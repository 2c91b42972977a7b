import DensityGraph.Proofs.Graph.Build
import DensityGraph.Proofs.Graph.Change
/-!
# Targets and parameters among the parents

A distribution node refers to its target and to its parameters.  Edits keep both among
the parents of the node, with one exception: a target that is taken away loses its
edge, even if it is a parameter of the same distribution.
-/

namespace DensityGraph

namespace Node

/-- The target of the distribution, if the node is a distribution node. -/
def target? (n : Node) : Option NodeId :=
  n.distribution?.bind Distribution.target

/-- The parameters of the distribution, if the node is a distribution node. -/
def parameters (n : Node) : List NodeId :=
  match n.distribution? with
  | some d => d.parameters.map Prod.snd
  | none => []

variable {n n' : Node} {f : Distribution → Distribution}

theorem mem_reads {r : NodeId} : r ∈ n.role.reads ↔
    r ∈ n.arguments ∨ n.target? = some r ∨ r ∈ n.parameters := by
  unfold arguments target? parameters distribution?
  cases n.role <;> simp [Role.reads]

theorem target?_of_role (h : n'.role = n.role) : n'.target? = n.target? := by
  unfold target? distribution?
  rw [h]

theorem target?_of_mapDistribution (h : n'.role = (n.mapDistribution f).role) :
    n'.target? = n.distribution?.bind fun d => (f d).target := by
  unfold target?
  rw [distribution?_of_mapDistribution h]
  cases n.distribution? <;> rfl

theorem parameters_of_role (h : n'.role = n.role) : n'.parameters = n.parameters := by
  unfold parameters distribution?
  rw [h]

theorem arguments_of_role (h : n'.role = n.role) : n'.arguments = n.arguments := by
  unfold arguments
  rw [h]

theorem arguments_of_mapDistribution (h : n'.role = (n.mapDistribution f).role) :
    n'.arguments = n.arguments := by
  rw [arguments_of_role h]
  unfold arguments mapDistribution
  cases hn : n.role <;> simp [hn]

end Node

def Edit.keepsTargets : Edit → Bool
  | place _ n => !n.isDistribution
  | detach _ _ => false
  | _ => true

namespace Workspace

variable {w : Workspace} {e : Edit} {x : NodeId} {n n' : Node}

/-!
# Targets and their distributions
-/

/-- The distribution whose target a node says it is. -/
def owner? (w : Workspace) (x : NodeId) : Option NodeId :=
  (w.node? x).bind Node.distribution

def target? (w : Workspace) (x : NodeId) : Option NodeId :=
  (w.node? x).bind Node.target?

def Paired (w : Workspace) : Prop :=
  forall t id, w.owner? t = some id ↔ w.target? id = some t

theorem owner?_of_node? (hn : w.node? x = some n) : w.owner? x = n.distribution := by
  unfold owner?
  rw [hn, Option.bind_some]

theorem target?_of_node? (hn : w.node? x = some n) : w.target? x = n.target? := by
  unfold target?
  rw [hn, Option.bind_some]

theorem target?_of_creates (h : e.Creates x n) : n.target? = none := by
  rcases h.made with ⟨_, hmade⟩ | ⟨b, m, arguments, o, extras, _, hrole, _⟩
  · cases hmade with
    | data t _ => rfl
    | latent dim v b c size _ _ _ => rfl
    | distribution dim v d _ htarget _ _ _ => exact htarget
  · unfold Node.target? Node.distribution?
    rw [hrole]
    rfl

theorem bind_node?_edit {α : Type} {g : Node → Option α} {after : Option α → Option α}
    (hadmits : w.Admits e) (hcreates : forall n, e.Creates x n -> g n = none)
    (hafter : w.node? x = none -> after none = none)
    (hchanges : forall n n', w.node? x = some n -> e.Changes x n n' -> g n' = after (g n)) :
    ((w.edit e).node? x).bind g = after ((w.node? x).bind g) := by
  cases hn : w.node? x with
  | some n =>
      rcases exists_node?_edit hadmits hn with ⟨n', hn', h⟩
      rw [hn', Option.bind_some, Option.bind_some]
      exact hchanges n n' hn h
  | none =>
      rw [Option.bind_none, hafter hn]
      cases hn' : (w.edit e).node? x with
      | none => rfl
      | some n' =>
          rcases node?_edit hadmits hn' with ⟨n, hsome, _⟩ | ⟨_, h⟩
          · rw [hn] at hsome
            cases hsome
          · exact hcreates n' h

theorem owner?_edit (hadmits : w.Admits e) (x : NodeId) :
    (w.edit e).owner? x = e.ownerAfter x (w.owner? x) := by
  apply bind_node?_edit hadmits
  · intro n h
    exact h.distribution
  · intro hn
    cases e with
    | attach id t v =>
        rcases hadmits with ⟨_, _, m, _, _, _, hm, _⟩
        have hne : x ≠ t := by
          rintro rfl
          rw [hn] at hm
          cases hm
        exact if_neg hne
    | detach id t => exact ite_self none
    | _ => rfl
  · intro n n' _ h
    exact h.distribution

theorem target?_of_changes (hadmits : w.Admits e) (hn : w.node? x = some n)
    (hchanges : e.Changes x n n') : n'.target? = e.targetAfter x n.target? := by
  have hrole := hchanges.role
  unfold Edit.roleAfter at hrole
  unfold Edit.targetAfter
  cases e with
  | attach id t v =>
      rcases hadmits with ⟨m, d, _, hm, hd, _⟩
      simp only at hrole ⊢
      split at hrole
      · rename_i hx
        rw [hx, hm] at hn
        cases hn
        rw [if_pos hx, Node.target?_of_mapDistribution hrole, hd]
        rfl
      · rename_i hx
        rw [if_neg hx, Node.target?_of_role hrole]
  | detach id t =>
      simp only at hrole ⊢
      split at hrole
      · rename_i hx
        rw [if_pos hx, Node.target?_of_mapDistribution hrole]
        cases n.distribution? <;> rfl
      · rename_i hx
        rw [if_neg hx, Node.target?_of_role hrole]
  | parameter id p name =>
      simp only at hrole ⊢
      split at hrole
      · rw [Node.target?_of_mapDistribution hrole]
        unfold Node.target? Distribution.setParameter
        congr 1
        funext d
        split <;> rfl
      · exact Node.target?_of_role hrole
  | user id y =>
      simp only at hrole ⊢
      split at hrole
      · exact (Node.target?_of_mapDistribution hrole).trans rfl
      · exact Node.target?_of_role hrole
  | _ => exact Node.target?_of_role hrole

theorem target?_edit (hadmits : w.Admits e) (x : NodeId) :
    (w.edit e).target? x = e.targetAfter x (w.target? x) := by
  apply bind_node?_edit hadmits
  · intro n h
    exact target?_of_creates h
  · intro hn
    cases e with
    | attach id t v =>
        rcases hadmits with ⟨m, _, _, hm, _⟩
        have hne : x ≠ id := by
          rintro rfl
          rw [hn] at hm
          cases hm
        exact if_neg hne
    | detach id t => exact ite_self none
    | _ => rfl
  · intro n n' hn h
    exact target?_of_changes hadmits hn h

theorem paired_empty (settings : Settings) (wide : Bool) : (empty settings wide).Paired := by
  intro t id
  constructor <;> intro h <;> cases h

theorem Paired.edit (h : w.Paired) (hadmits : w.Admits e) : (w.edit e).Paired := by
  intro x y
  rw [owner?_edit hadmits, target?_edit hadmits]
  cases e with
  | attach id t v =>
      rcases hadmits with ⟨n, d, m, hn, hd, hnone, hm, _, hfree, _⟩
      have htarget : w.target? id = none := by
        rw [target?_of_node? hn, Node.target?, hd]
        exact hnone
      have howner : w.owner? t = none := (owner?_of_node? hm).trans hfree
      simp only [Edit.ownerAfter, Edit.targetAfter]
      by_cases hx : x = t <;> by_cases hy : y = id
      · simp [hx, hy]
      · rw [if_pos hx, if_neg hy, hx, ← h t y, howner]
        simp [Ne.symm hy]
      · rw [if_neg hx, if_pos hy, hy, h x id, htarget]
        simp [Ne.symm hx]
      · rw [if_neg hx, if_neg hy]
        exact h x y
  | detach id t =>
      rcases hadmits with ⟨n, d, hn, hd, hsome⟩
      have htarget : w.target? id = some t := by
        rw [target?_of_node? hn, Node.target?, hd]
        exact hsome
      have howner : w.owner? t = some id := (h t id).mpr htarget
      simp only [Edit.ownerAfter, Edit.targetAfter]
      by_cases hx : x = t <;> by_cases hy : y = id
      · simp [hx, hy]
      · rw [if_pos hx, if_neg hy, hx, ← h t y, howner]
        simp [Ne.symm hy]
      · rw [if_neg hx, if_pos hy, hy, h x id, htarget]
        simp [Ne.symm hx]
      · rw [if_neg hx, if_neg hy]
        exact h x y
  | _ => exact h x y

def Owned (w : Workspace) : Prop :=
  forall t id, w.owner? t = some id -> w.target? id = some t

theorem Paired.owned (h : w.Paired) : w.Owned :=
  fun t id => (h t id).mp

theorem owned_empty (settings : Settings) (wide : Bool) : (empty settings wide).Owned :=
  (paired_empty settings wide).owned

theorem Owned.edit (h : w.Owned) (hadmits : w.Admits e) : (w.edit e).Owned := by
  intro x y hx
  rw [owner?_edit hadmits] at hx
  rw [target?_edit hadmits]
  cases e with
  | attach id t v =>
      rcases hadmits with ⟨n, d, m, hn, hd, hnone, _⟩
      have htarget : w.target? id = none := by
        rw [target?_of_node? hn, Node.target?, hd]
        exact hnone
      simp only [Edit.ownerAfter, Edit.targetAfter] at hx ⊢
      split at hx
      · rename_i heq
        rw [if_pos (Option.some.inj hx).symm, heq]
      · have hold := h x y hx
        have hne : y ≠ id := by
          rintro rfl
          rw [htarget] at hold
          cases hold
        rw [if_neg hne]
        exact hold
  | detach id t =>
      rcases hadmits with ⟨n, d, hn, hd, hsome⟩
      have htarget : w.target? id = some t := by
        rw [target?_of_node? hn, Node.target?, hd]
        exact hsome
      simp only [Edit.ownerAfter, Edit.targetAfter] at hx ⊢
      split at hx
      · cases hx
      · rename_i hxt
        have hold := h x y hx
        have hne : y ≠ id := by
          rintro rfl
          rw [htarget] at hold
          exact hxt (Option.some.inj hold).symm
        rw [if_neg hne]
        exact hold
  | _ => exact h x y hx

theorem GrowsTo.target? {v : Workspace} (h : w.GrowsTo v) (x : NodeId) :
    v.target? x = w.target? x := by
  apply h.preserves (I := fun v => v.target? x = w.target? x) rfl
  intro u e hu hadmits he
  rw [target?_edit hadmits]
  cases e <;> first | exact hu | cases he

/-!
# Distributions without a target

A distribution loses its target when it is detached, and has none between the moment when it
is put down and the end of its declaration.
-/

def Untargeted (w : Workspace) (x : NodeId) : Prop :=
  w.has Node.isDistribution x = true ∧ w.target? x = none

def Targeted (w : Workspace) : Prop :=
  forall x, ¬w.Untargeted x

theorem Untargeted.of_edit (h : (w.edit e).Untargeted x) (hadmits : w.Admits e) :
    (w.Untargeted x ∧ forall t v, e ≠ .attach x t v) ∨ (∃ t, e = .detach x t) ∨
      ∃ n, e = .place x n ∧ n.isDistribution = true := by
  rcases h with ⟨hafter, hnone⟩
  rcases exists_node_of_has hafter with ⟨n', hn', hkind⟩
  rw [target?_edit hadmits] at hnone
  rcases node?_edit hadmits hn' with ⟨n, hn, hchanges⟩ | ⟨_, hcreates⟩
  · rw [isDistribution_of_changes hchanges] at hkind
    have hhas : w.has Node.isDistribution x = true := by
      rw [has_of_node? hn]
      exact hkind
    cases e with
    | attach id t v =>
        simp only [Edit.targetAfter] at hnone
        split at hnone
        · cases hnone
        · rename_i hne
          refine Or.inl ⟨⟨hhas, hnone⟩, ?_⟩
          rintro _ _ ⟨⟩
          exact hne rfl
    | detach id t =>
        simp only [Edit.targetAfter] at hnone
        split at hnone
        · rename_i hx
          exact Or.inr (Or.inl ⟨t, by rw [hx]⟩)
        · exact Or.inl ⟨⟨hhas, hnone⟩, nofun⟩
    | _ => exact Or.inl ⟨⟨hhas, hnone⟩, nofun⟩
  · rcases hcreates.made with ⟨rfl, _⟩ | ⟨b, m, arguments, o, extras, _, hrole, _⟩
    · exact Or.inr (Or.inr ⟨n', rfl, hkind⟩)
    · unfold Node.isDistribution Node.distribution? at hkind
      rw [hrole] at hkind
      cases hkind

theorem Targeted.edit (hw : w.Targeted) (hadmits : w.Admits e) (he : e.keepsTargets = true) :
    (w.edit e).Targeted := by
  intro x hx
  rcases hx.of_edit hadmits with ⟨hold, _⟩ | ⟨t, rfl⟩ | ⟨n, rfl, hkind⟩
  · exact hw x hold
  · cases he
  · simp [Edit.keepsTargets, hkind] at he

theorem Edits.targeted {P : Workspace → Edit → Prop} {v : Workspace} (h : Edits P w v)
    (hP : forall u e, P u e -> e.keepsTargets = true) (hw : w.Targeted) : v.Targeted := by
  apply h.preserves hw
  intro u e hu hadmits he
  exact hu.edit hadmits (hP u e he)

theorem GrowsTo.targeted {v : Workspace} (h : w.GrowsTo v) (hw : w.Targeted) : v.Targeted := by
  apply Edits.targeted h _ hw
  intro u e he
  cases e <;> first | rfl | exact he

theorem Targeted.attach {id t : NodeId} {nv : NodeValue} (hw : w.Targeted) (hadmits : w.Admits e)
    (he : (∃ u, e = .detach id u) ∨ ∃ m, e = .place id m)
    (hattach : (w.edit e).Admits (.attach id t nv)) :
    ((w.edit e).edit (.attach id t nv)).Targeted := by
  intro x hx
  rcases hx.of_edit hattach with ⟨hold, hne⟩ | ⟨u, hu⟩ | ⟨m, hm, _⟩
  · have hid : x ≠ id := fun heq => hne t nv (by rw [heq])
    rcases hold.of_edit hadmits with ⟨hbefore, _⟩ | ⟨u, rfl⟩ | ⟨m, rfl, _⟩
    · exact hw x hbefore
    · rcases he with ⟨u', heq⟩ | ⟨m, heq⟩
      · cases heq
        exact hid rfl
      · cases heq
    · rcases he with ⟨u', heq⟩ | ⟨m', heq⟩
      · cases heq
      · cases heq
        exact hid rfl
  · cases hu
  · cases hm

/-!
# Shapes of targets
-/

theorem exists_dim_edit {P : Shape → Prop} {y : NodeId} (hadmits : w.Admits e)
    (h : ∃ m, w.node? y = some m ∧ P m.dim) : ∃ m, (w.edit e).node? y = some m ∧ P m.dim := by
  rcases h with ⟨m, hm, hdim⟩
  rcases exists_node?_edit hadmits hm with ⟨m', hm', hchanges⟩
  refine ⟨m', hm', ?_⟩
  rw [hchanges.dim]
  exact hdim

theorem exists_target_edit (hadmits : w.Admits e) (hn : w.node? x = some n)
    (hchanges : e.Changes x n n')
    (h : forall t, n.target? = some t -> ∃ m, w.node? t = some m ∧ m.dim = n.dim) :
    forall t, n'.target? = some t -> ∃ m, w.node? t = some m ∧ m.dim = n.dim := by
  intro t ht
  rw [target?_of_changes hadmits hn hchanges] at ht
  unfold Edit.targetAfter at ht
  cases e with
  | attach id t' v =>
      simp only at ht
      split at ht
      · rename_i hx
        rcases hadmits with ⟨k, d, m, hk, _, _, hm, hdim, _⟩
        cases ht
        rw [← hx, hn] at hk
        cases hk
        exact ⟨m, hm, hdim⟩
      · exact h t ht
  | detach id t' =>
      simp only at ht
      split at ht
      · cases ht
      · exact h t ht
  | _ => exact h t ht

def FitsTargets (w : Workspace) : Prop :=
  forall x n, w.node? x = some n -> forall t, n.target? = some t ->
    ∃ m, w.node? t = some m ∧ m.dim = n.dim

theorem FitsTargets.edit (h : w.FitsTargets) (hadmits : w.Admits e) :
    (w.edit e).FitsTargets := by
  intro x n' hn' t ht
  rcases node?_edit hadmits hn' with ⟨n, hn, hchanges⟩ | ⟨_, hcreates⟩
  · rw [hchanges.dim]
    apply exists_dim_edit (P := fun dim => dim = n.dim) hadmits
    exact exists_target_edit hadmits hn hchanges (h x n hn) t ht
  · rw [target?_of_creates hcreates] at ht
    cases ht

/-!
# Shapes of values
-/

theorem shape_value_of_changes (hadmits : w.Admits e) (hn : w.node? x = some n)
    (hchanges : e.Changes x n n') (h : n.value.array.shape = n.dim) :
    n'.value.array.shape = n'.dim := by
  rw [hchanges.value, hchanges.dim]
  cases e with
  | attach id t v =>
      rcases hadmits with ⟨m, d, _, hm, _, _, _, _, _, _, hshape⟩
      simp only [Edit.valueAfter]
      split
      · rename_i hx
        rw [← hx, hn] at hm
        cases hm
        exact hshape
      · exact h
  | value id v =>
      rcases hadmits with ⟨m, hm, hshape⟩
      simp only [Edit.valueAfter]
      split
      · rename_i hx
        rw [← hx, hn] at hm
        cases hm
        exact hshape
      · exact h
  | _ => exact h

def FitsValues (w : Workspace) : Prop :=
  forall x n, w.node? x = some n -> n.value.array.shape = n.dim

theorem fitsValues_empty (settings : Settings) (wide : Bool) :
    (empty settings wide).FitsValues := by
  intro x n hn
  cases hn

theorem FitsValues.edit (h : w.FitsValues) (hadmits : w.Admits e) : (w.edit e).FitsValues := by
  intro x n' hn'
  rcases node?_edit hadmits hn' with ⟨n, hn, hchanges⟩ | ⟨_, hcreates⟩
  · exact shape_value_of_changes hadmits hn hchanges (h x n hn)
  · exact hcreates.value

def FitsData (w : Workspace) : Prop :=
  forall x n, w.node? x = some n -> n.isData = true -> n.value.array.shape = n.dim

theorem isDistribution_of_isData (h : n.isData = true) : n.isDistribution = false := by
  apply Node.isDistribution_eq_false
  intro d
  rw [Node.role_of_isData h]
  rintro ⟨⟩

theorem isData_of_changes (h : e.Changes x n n') (hdata : n'.isData = true) :
    n.isData = true := by
  have hkind := (isDistribution_of_changes h).symm.trans (isDistribution_of_isData hdata)
  unfold Node.isData at hdata ⊢
  rw [role_of_changes h hkind] at hdata
  exact hdata

theorem FitsData.edit (h : w.FitsData) (hadmits : w.Admits e) : (w.edit e).FitsData := by
  intro x n' hn' hdata
  rcases node?_edit hadmits hn' with ⟨n, hn, hchanges⟩ | ⟨_, hcreates⟩
  · exact shape_value_of_changes hadmits hn hchanges (h x n hn (isData_of_changes hchanges hdata))
  · exact hcreates.value

theorem FitsValues.fitsData (h : w.FitsValues) : w.FitsData :=
  fun x n hn _ => h x n hn

/-!
# Edges of arguments, targets and parameters
-/

/-- Every argument of an operation and every target of a distribution is a parent. -/
def LinksArguments (w : Workspace) : Prop :=
  forall id n, w.node? id = some n -> forall r,
    r ∈ n.arguments ∨ n.target? = some r -> r ∈ n.parents

def LinksParameters (w : Workspace) : Prop :=
  forall id n, w.node? id = some n -> forall r, r ∈ n.parameters -> r ∈ n.parents

theorem readsParents_iff : w.ReadsParents ↔ w.LinksArguments ∧ w.LinksParameters := by
  constructor
  · intro h
    constructor
    · intro id n hn r hr
      exact h id n hn r (Node.mem_reads.mpr (or_assoc.mp (Or.inl hr)))
    · intro id n hn r hr
      exact h id n hn r (Node.mem_reads.mpr (Or.inr (Or.inr hr)))
  · rintro ⟨harguments, hparameters⟩ id n hn r hr
    rcases or_assoc.mpr (Node.mem_reads.mp hr) with hargument | hparameter
    · exact harguments id n hn r hargument
    · exact hparameters id n hn r hparameter

theorem mem_parents_of_creates {r : NodeId} (h : e.Creates x n) (hr : r ∈ n.role.reads) :
    r ∈ n.parents := by
  rcases h.made with ⟨_, hmade⟩ | ⟨b, m, arguments, o, extras, _, hrole, _, _, hparents⟩
  · cases hmade with
    | data t _ => cases hr
    | latent dim v b c size _ _ _ => cases hr
    | distribution dim v d _ htarget hparameters _ _ =>
        simp [Node.lone, Role.reads, htarget, hparameters] at hr
  · rw [hrole] at hr
    exact (hparents r).mpr hr

theorem arguments_of_changes (h : e.Changes x n n') : n'.arguments = n.arguments := by
  rcases h.role_cases with hrole | ⟨f, _, hrole⟩
  · exact Node.arguments_of_role hrole
  · exact Node.arguments_of_mapDistribution hrole

theorem mem_parameters_of_changes {r : NodeId} (h : e.Changes x n n')
    (hr : r ∈ n'.parameters) : r ∈ n.parameters ∨ ∃ name, e = .parameter x r name := by
  rcases distribution?_of_changes h with ⟨f, hkeeps, hmap⟩
  unfold Node.parameters at hr ⊢
  rw [hmap] at hr
  cases hd : n.distribution? with
  | none =>
      rw [hd] at hr
      cases hr
  | some d =>
      rw [hd] at hr
      rcases List.mem_map.mp hr with ⟨q, hq, rfl⟩
      rcases (hkeeps d).parameters q hq with hold | hnew
      · exact Or.inl (List.mem_map.mpr ⟨q, hold, rfl⟩)
      · exact Or.inr ⟨q.1, hnew⟩

theorem mem_parents_of_changes {p : NodeId} (h : e.Changes x n n') (hp : p ∈ n.parents)
    (hunlink : forall c q, e ≠ .unlink c q) (hdetach : e ≠ .detach x p) : p ∈ n'.parents := by
  rw [h.parents]
  unfold Edit.HasParent
  cases e with
  | unlink c q => exact absurd rfl (hunlink c q)
  | detach id t =>
      refine ⟨hp, ?_⟩
      rintro ⟨rfl, rfl⟩
      exact hdetach rfl
  | link c q => exact Or.inl hp
  | attach id t v => exact Or.inl hp
  | parameter id q name => exact Or.inl hp
  | _ => exact hp

theorem LinksArguments.edit (h : w.LinksArguments) (hadmits : w.Admits e)
    (hunlink : forall c q, e ≠ .unlink c q) : (w.edit e).LinksArguments := by
  intro x n' hn' r hr
  rcases node?_edit hadmits hn' with ⟨n, hn, hchanges⟩ | ⟨_, hcreates⟩
  · rcases hr with hargument | htarget
    · rw [arguments_of_changes hchanges] at hargument
      apply mem_parents_of_changes hchanges (h x n hn r (Or.inl hargument)) hunlink
      rintro rfl
      rcases hadmits with ⟨m, d, hm, hd, _⟩
      rw [hn] at hm
      cases hm
      unfold Node.arguments at hargument
      unfold Node.distribution? at hd
      cases hrole : n.role <;> simp [hrole] at hargument hd
    · rw [target?_of_changes hadmits hn hchanges] at htarget
      have hold : n.target? = some r -> e ≠ .detach x r -> r ∈ n'.parents := fun hsome =>
        mem_parents_of_changes hchanges (h x n hn r (Or.inr hsome)) hunlink
      cases e with
      | attach id t v =>
          simp only [Edit.targetAfter] at htarget
          split at htarget
          · rename_i hx
            cases htarget
            exact (hchanges.parents r).mpr (Or.inr ⟨hx, rfl⟩)
          · exact hold htarget nofun
      | detach id t =>
          simp only [Edit.targetAfter] at htarget
          split at htarget
          · cases htarget
          · rename_i hx
            apply hold htarget
            intro heq
            cases heq
            exact hx rfl
      | _ => exact hold htarget nofun
  · exact mem_parents_of_creates hcreates (Node.mem_reads.mpr (or_assoc.mp (Or.inl hr)))

theorem LinksParameters.edit (h : w.LinksParameters) (hadmits : w.Admits e)
    (hunlink : forall c q, e ≠ .unlink c q)
    (hdetach : forall id t n, e = .detach id t -> w.node? id = some n -> t ∉ n.parameters) :
    (w.edit e).LinksParameters := by
  intro x n' hn' r hr
  rcases node?_edit hadmits hn' with ⟨n, hn, hchanges⟩ | ⟨_, hcreates⟩
  · rcases mem_parameters_of_changes hchanges hr with hold | ⟨name, rfl⟩
    · apply mem_parents_of_changes hchanges (h x n hn r hold) hunlink
      intro heq
      exact hdetach x r n heq hn hold
    · exact (hchanges.parents r).mpr (Or.inr ⟨rfl, rfl⟩)
  · exact mem_parents_of_creates hcreates (Node.mem_reads.mpr (Or.inr (Or.inr hr)))

end Workspace
end DensityGraph
