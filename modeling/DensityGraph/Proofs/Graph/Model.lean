import DensityGraph.Proofs.Graph.Call
import DensityGraph.Proofs.Graph.Edges
import DensityGraph.Proofs.Graph.Parents
import DensityGraph.Proofs.Operation.RowWise
import DensityGraph.Proofs.Value.Array
/-!
# Models

In a model every computed node comes from an operator or a function, which is applied
to nodes that are no distributions.  Edges that are drawn or removed by hand lead to
distribution nodes, the arrays that are set as values can be read, and every array has
fewer than `2 ^ 63` entries, as everything has that is held in memory.
-/

namespace DensityGraph

namespace Workspace

variable {u v w : Workspace} {e : Edit} {c : Call} {x : NodeId} {n : Node}

def IsVariate (w : Workspace) (x : NodeId) : Prop :=
  ∃ n, w.node? x = some n ∧ n.isDistribution = false

def Composes (w : Workspace) : Call → Prop
  | .operation _ _ _ _ _ _ => False
  | .addParent child parent => w.has Node.isDistribution child = true ∧
      forall p, parent = .node p -> (w.node? p).isSome = true
  | .removeParent child _ => w.has Node.isDistribution child = true
  | .addParameter _ parameter _ => forall p, parameter = .node p -> (w.node? p).isSome = true
  | .setValue _ v => forall nv, Action.toNodeValue v = .ok nv -> nv.array.IsReadable
  | c => forall a, .node a ∈ c.operands -> w.IsVariate a

def InMemory (w : Workspace) : Prop :=
  forall n, some n ∈ w.nodes -> n.dim.size < 2 ^ 63

instance (w : Workspace) : Decidable w.InMemory :=
  decidable_of_iff (forall o, o ∈ w.nodes -> forall n, o = some n -> n.dim.size < 2 ^ 63)
    ⟨fun h n hn => h (some n) hn n rfl, fun h _ ho n hn => h n (hn ▸ ho)⟩

/-- The calls that a model is built by.  They draw and remove no edges by hand but those that
lead to distribution nodes. -/
def Models (w : Workspace) (c : Call) : Prop :=
  w.Composes c ∧ (w.after c).InMemory

def Builds (w : Workspace) : Edit → Prop
  | .compute isDeclared _ _ arguments => isDeclared = true ∧
      forall a, a ∈ arguments -> w.IsVariate a
  | .link child parent => w.has Node.isDistribution child = true ∧
      (w.node? parent).isSome = true
  | .unlink child _ => w.has Node.isDistribution child = true
  | .parameter _ p _ => (w.node? p).isSome = true
  | .value _ nv => nv.array.IsReadable
  | _ => True

theorem isVariate_of_isData (h : w.has Node.isData x = true) : w.IsVariate x := by
  rcases exists_node_of_has h with ⟨n, hn, hdata⟩
  refine ⟨n, hn, ?_⟩
  unfold Node.isData at hdata
  unfold Node.isDistribution Node.distribution?
  cases hrole : n.role <;> simp_all

section Edits

variable {P : Workspace → Edit → Prop}

theorem Edits.isVariate (h : Edits P w v) (hx : w.IsVariate x) : v.IsVariate x := by
  rcases hx with ⟨n, hn, hkind⟩
  rcases h.exists_node? hn with ⟨n', hn', _, hsame⟩
  exact ⟨n', hn', hsame.trans hkind⟩

theorem InMemory.size_lt (h : w.InMemory) (hn : w.node? x = some n) : n.dim.size < 2 ^ 63 := by
  unfold node? at hn
  exact h n (List.mem_of_getElem? (Option.join_eq_some_iff.mp hn))

theorem InMemory.of_edits (h : v.InMemory) (hedits : Edits P w v) : w.InMemory := by
  intro n hn
  rcases List.getElem?_of_mem hn with ⟨x, hx⟩
  have hnode : w.node? x = some n := Option.join_eq_some_iff.mpr hx
  rcases hedits.exists_node? hnode with ⟨n', hn', hdim, _⟩
  rw [← hdim]
  exact h.size_lt hn'

theorem Edits.isDistribution (h : Edits P w v) (hx : w.has Node.isDistribution x = true) :
    v.has Node.isDistribution x = true := by
  rcases exists_node_of_has hx with ⟨n, hn, hkind⟩
  rcases h.exists_node? hn with ⟨n', hn', _, hsame⟩
  rw [has_of_node? hn', hsame, hkind]

end Edits

theorem builds_of_makes (hc : u.Composes c) (hedits : Edits (c.Makes u) u v)
    (h : c.Makes u v e) : v.Builds e := by
  cases e with
  | compute b id n arguments =>
      have hoperation : c.isOperation = false := by
        cases c <;> first | rfl | cases hc
      refine ⟨?_, ?_⟩
      · rcases h.1 with hdeclared | hfree
        · exact hdeclared
        · rw [hoperation] at hfree
          cases hfree
      · intro a ha
        rcases h.2.2 a ha with hoperand | hdata
        · apply hedits.isVariate
          cases c <;> first | exact hc a hoperand | exact hc.elim | cases hoperand
        · exact isVariate_of_isData hdata
  | link child parent =>
      cases h
      exact ⟨hedits.isDistribution hc.1, hedits.isSome (hc.2 parent rfl)⟩
  | unlink child parent =>
      cases h
      exact hedits.isDistribution hc
  | parameter id p name =>
      apply Call.isSome_of_makes_parameter h
      rintro rfl
      exact hedits.isSome (hc p rfl)
  | value id nv =>
      rcases h with ⟨y, rfl, hy⟩
      exact hc nv hy
  | _ => exact trivial

/-!
# What is known of every node of a model
-/

/-- The shape of a node is the one that its role gives it, and nodes that are no
distributions have their arguments as parents. -/
structure Describes (w : Workspace) (n : Node) : Prop where
  dim : n.dim.IsDim
  inMemory : n.dim.size < 2 ^ 63
  data : n.role = .data -> n.value.array.shape = n.dim ∧ n.value.array.IsReadable
  latent : forall b c size, n.role = .latent b c size -> b.Fits c ∧
    (c.freeSize? (n.dim.map Int.ofNat)).map Int.toNat = some size
  declared : n.isOperation = true -> w.Declares n.dim n.role
  arguments : forall a, a ∈ n.arguments -> w.IsVariate a
  parents : n.isDistribution = false -> forall p, p ∈ n.parents ↔ p ∈ n.arguments

def IsModel (w : Workspace) : Prop :=
  forall x n, w.node? x = some n -> w.Describes n

theorem Edits.declares {P : Workspace → Edit → Prop} {dim : Shape} {role : Role}
    (h : Edits P w v) (hw : w.Declares dim role) : v.Declares dim role := by
  unfold Declares at hw ⊢
  split at hw
  · rcases hw with ⟨hextras, ds, hds, hdim⟩
    exact ⟨hextras, ds, h.dims? hds, hdim⟩
  · cases hw

theorem isOperation_of_declares {dim : Shape} {role : Role} (h : w.Declares dim role) :
    ∃ o arguments ds, role = .operation (.named o) arguments [] ∧
      w.dims? arguments = some ds ∧ o.Declares ds dim := by
  unfold Declares at h
  split at h
  · rcases h with ⟨rfl, ds, hds, hdim⟩
    exact ⟨_, _, ds, rfl, hds, hdim⟩
  · cases h

theorem IsModel.isDim_of_dims? (h : w.IsModel) {ids : List NodeId} {ds : List Shape}
    (hds : w.dims? ids = some ds) : forall d, d ∈ ds -> d.IsDim :=
  forall_of_dims? (fun id n hn => (h id n hn).dim) hds

theorem role_of_not_isDistribution {n' : Node} (hchanges : e.Changes x n n')
    (hkind : n'.isDistribution = false) : n'.role = n.role :=
  role_of_changes hchanges ((isDistribution_of_changes hchanges).symm.trans hkind)

theorem data_of_changes {n' : Node} (h : w.Describes n) (hn : w.node? x = some n)
    (hadmits : w.Admits e) (hbuilds : w.Builds e) (hchanges : e.Changes x n n')
    (hdata : n.role = .data) : n'.value.array.shape = n.dim ∧ n'.value.array.IsReadable := by
  rw [hchanges.value]
  unfold Edit.valueAfter
  cases e with
  | attach id t v =>
      have hne : x ≠ id := by
        rintro rfl
        rcases hadmits with ⟨m, d, _, hm, hd, _⟩
        rw [hn] at hm
        cases hm
        unfold Node.distribution? at hd
        rw [hdata] at hd
        cases hd
      simp only [if_neg hne]
      exact h.data hdata
  | value id v =>
      simp only
      split
      · rename_i hx
        rcases hadmits with ⟨m, hm, hshape⟩
        rw [← hx, hn] at hm
        cases hm
        exact ⟨hshape, hbuilds⟩
      · exact h.data hdata
  | _ => exact h.data hdata

theorem hasParent_of_builds (hn : w.node? x = some n) (hadmits : w.Admits e)
    (hbuilds : w.Builds e) (hkind : n.isDistribution = false) (p : NodeId) :
    e.HasParent x n p ↔ p ∈ n.parents := by
  have hadmitted : forall {id : NodeId} {m : Node} {d : Distribution},
      w.node? id = some m -> m.distribution? = some d -> x ≠ id := by
    rintro id m d hm hd rfl
    rw [hn] at hm
    cases hm
    unfold Node.isDistribution at hkind
    rw [hd] at hkind
    cases hkind
  have hbuilt : forall {id : NodeId}, w.has Node.isDistribution id = true -> x ≠ id := by
    rintro id htrue rfl
    rw [has_of_node? hn, hkind] at htrue
    cases htrue
  unfold Edit.HasParent
  cases e with
  | link child q => simp [hbuilt hbuilds.1]
  | unlink child q => simp [hbuilt hbuilds]
  | attach id t v =>
      rcases hadmits with ⟨m, d, _, hm, hd, _⟩
      simp [hadmitted hm hd]
  | detach id t =>
      rcases hadmits with ⟨m, d, hm, hd, _⟩
      simp [hadmitted hm hd]
  | parameter id q name =>
      rcases hadmits with ⟨m, d, hm, hd, _⟩
      simp [hadmitted hm hd]
  | _ => rfl

theorem describes_of_changes {n' : Node} (h : w.Describes n) (hn : w.node? x = some n)
    (hadmits : w.Admits e) (hbuilds : w.Builds e) (hchanges : e.Changes x n n') :
    (w.edit e).Describes n' := by
  have hedits : Edits (fun _ _ => True) w (w.edit e) := Edits.single hadmits trivial
  have hrole : (forall d, n'.role ≠ .distribution d) -> n'.role = n.role := by
    intro hne
    exact role_of_not_isDistribution hchanges (Node.isDistribution_eq_false hne)
  constructor
  · rw [hchanges.dim]
    exact h.dim
  · rw [hchanges.dim]
    exact h.inMemory
  · intro hdata
    rw [hrole (by simp [hdata])] at hdata
    rw [hchanges.dim]
    exact data_of_changes h hn hadmits hbuilds hchanges hdata
  · intro b c size hlatent
    rw [hrole (by simp [hlatent])] at hlatent
    rw [hchanges.dim]
    exact h.latent b c size hlatent
  · intro hoperation
    have hsame : n'.role = n.role := by
      apply hrole
      intro d hcase
      unfold Node.isOperation at hoperation
      rw [hcase] at hoperation
      cases hoperation
    unfold Node.isOperation at hoperation
    rw [hsame] at hoperation ⊢
    rw [hchanges.dim]
    exact hedits.declares (h.declared hoperation)
  · intro a ha
    rw [arguments_of_changes hchanges] at ha
    exact hedits.isVariate (h.arguments a ha)
  · intro hkind p
    rw [isDistribution_of_changes hchanges] at hkind
    rw [arguments_of_changes hchanges, hchanges.parents, ← h.parents hkind p]
    exact hasParent_of_builds hn hadmits hbuilds hkind p

theorem describes_of_creates (h : w.IsModel) (hadmits : w.Admits e) (hbuilds : w.Builds e)
    (hcreates : e.Creates x n) (hsize : n.dim.size < 2 ^ 63) : (w.edit e).Describes n := by
  have hedits : Edits (fun _ _ => True) w (w.edit e) := Edits.single hadmits trivial
  rcases hcreates.made with ⟨_, hmade⟩ |
    ⟨b, m, arguments, o, extras, rfl, hrole, hdim, hsame, hparents⟩
  · cases hmade with
    | data t hdim =>
        exact ⟨hdim, hsize, fun _ => ⟨rfl, NumericArray.isReadable_ofFloats t⟩, nofun, nofun,
          nofun, fun _ _ => Iff.rfl⟩
    | latent dim v b c size hdim hfits hfree =>
        refine ⟨hdim, hsize, nofun, ?_, nofun, nofun, fun _ _ => Iff.rfl⟩
        intro b' c' size' hlatent
        cases hlatent
        exact ⟨hfits, hfree⟩
    | distribution dim v d hdim _ _ _ _ =>
        exact ⟨hdim, hsize, nofun, nofun, nofun, nofun, nofun⟩
  · rcases hadmits with ⟨_, _, _, hdeclares, _⟩
    have hdeclared := hdeclares hbuilds.1
    rw [hdim, hsame] at hdeclared
    rcases isOperation_of_declares hdeclared with ⟨o', arguments', ds, hrole', hds, hshape⟩
    have harguments := Node.arguments_of_operation hrole
    constructor
    · exact (hshape.rowWise (α := Number) (h.isDim_of_dims? hds) hsize).1
    · exact hsize
    · rw [hrole]
      nofun
    · rw [hrole]
      nofun
    · intro _
      exact hedits.declares hdeclared
    · intro a ha
      rw [harguments] at ha
      exact hedits.isVariate (hbuilds.2 a ha)
    · intro _ p
      rw [harguments]
      exact hparents p

theorem IsModel.edit (h : w.IsModel) (hadmits : w.Admits e) (hbuilds : w.Builds e)
    (hmemory : (w.edit e).InMemory) : (w.edit e).IsModel := by
  intro x n' hn'
  rcases node?_edit hadmits hn' with ⟨n, hn, hchanges⟩ | ⟨_, hcreates⟩
  · exact describes_of_changes (h x n hn) hn hadmits hbuilds hchanges
  · exact describes_of_creates h hadmits hbuilds hcreates (hmemory.size_lt hn')

theorem inMemory_of_built (h : w.Built Models) : w.InMemory := by
  cases h with
  | empty settings wide =>
      intro n hn
      cases hn
  | call c _ hmodels hrun =>
      have hmemory := hmodels.2
      unfold after at hmemory
      rwa [hrun] at hmemory

theorem isModel_of_built (h : w.Built Models) : w.IsModel := by
  refine h.preserves (I := fun v => v.InMemory -> v.IsModel) ?_ ?_ (inMemory_of_built h)
  · intro settings wide _ x n hn
    cases hn
  · intro u v c e hv hc hedits hadmits hmakes hmemory
    have hbefore : v.InMemory :=
      hmemory.of_edits (Edits.single (P := fun _ _ => True) hadmits trivial)
    exact (hv hbefore).edit hadmits (builds_of_makes hc.1 hedits hmakes) hmemory

theorem leads_of_builds (h : w.Builds e) : w.Leads e := by
  cases e with
  | compute b id n arguments =>
      intro a ha
      rcases h.2 a ha with ⟨m, hm, _⟩
      rw [hm]
      rfl
  | link child parent => exact ⟨isSome_of_has h.1, h.2⟩
  | parameter id p name => exact h
  | _ => exact trivial

theorem mutual_of_models (h : w.Built Models) : w.Mutual := by
  apply h.preserves Mutual.empty
  intro u v c e hv hc hedits hadmits hmakes
  exact hv.edit hadmits (leads_of_builds (builds_of_makes hc.1 hedits hmakes))

theorem IsModel.computes (h : w.IsModel) : w.ComputesFromParents := by
  intro x n hn a ha
  have hkind : n.isDistribution = false := by
    unfold Node.arguments at ha
    unfold Node.isDistribution Node.distribution?
    cases hrole : n.role <;> simp_all
  exact ((h x n hn).parents hkind a).mpr ha

theorem IsModel.appliesToTensors (h : w.IsModel) : w.AppliesToTensors := by
  intro x n o arguments extras hn hrole a ha
  rw [← Node.arguments_of_operation hrole] at ha
  rcases (h x n hn).arguments a ha with ⟨m, hm, hkind⟩
  rw [has_of_node? hm, hkind]

theorem IsModel.findsArguments (h : w.IsModel) (hn : w.node? x = some n) : w.FindsArguments n :=
  findsArguments_of_computes h.computes h.appliesToTensors hn

end Workspace
end DensityGraph
