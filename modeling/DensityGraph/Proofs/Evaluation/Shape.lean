import Mathlib.Logic.Relation
import DensityGraph.Proofs.Evaluation.Runs
import DensityGraph.Proofs.Constraint.Width
import DensityGraph.Proofs.Dag.Component
import DensityGraph.Proofs.Evaluation.Faithful
import DensityGraph.Proofs.Evaluation.Rows
/-!
# Declared shapes are real

The shape of a node is fixed when the node is built, and the shapes of tensors come about
when a graph is evaluated.  Behind the batch axis they agree in every model, and the batch
axis is as long as that of the sources that a node depends on.
-/

namespace DensityGraph

open Tensor

variable {α : Type}

namespace Workspace

/-- A node is another one or among its ancestors. -/
def Precedes (w : Workspace) : NodeId → NodeId → Prop :=
  Relation.ReflTransGen fun p id => p ∈ w.parents id

structure HasBatch (w : Workspace) (fed : List (NodeId × Value))
    (free : NodeId → Option (Except Refusal (Tensor α))) (n : Nat) (id : NodeId) (k : Nat) :
    Prop where
  full : (∃ a, w.Precedes a id ∧ w.rows? fed free a = some n) -> k = n
  single : (forall a, w.Precedes a id -> w.rows? fed free a ≠ some n) -> k = 1

structure Supplies (w : Workspace) (d : Dag) (fed : List (NodeId × Value))
    (free : NodeId → Option (Except Refusal (Tensor α))) (n : Nat) : Prop where
  mode : w.KnowsMode d
  feeds : w.FeedsData d fed
  frees : forall id, id ∈ d.latents w -> w.AcceptsFree free id
  rows : forall id, id ∈ d.nodes -> forall k, w.rows? fed free id = some k -> k = 1 ∨ k = n

variable {w : Workspace} {d : Dag} {fed : List (NodeId × Value)}
  {free : NodeId → Option (Except Refusal (Tensor α))} {n : Nat} {id : NodeId} {m : Node}

theorem precedes_iff {a : NodeId} :
    w.Precedes a id ↔ a = id ∨ ∃ p, p ∈ w.parents id ∧ w.Precedes a p := by
  constructor
  · intro h
    rcases Relation.ReflTransGen.cases_tail h with heq | ⟨p, hp, hid⟩
    · exact Or.inl heq.symm
    · exact Or.inr ⟨p, hid, hp⟩
  · rintro (rfl | ⟨p, hid, hp⟩)
    · exact Relation.ReflTransGen.refl
    · exact hp.tail hid

theorem hasBatch_of_source (hparents : forall p, p ∉ w.parents id) {k : Nat}
    (hrows : w.rows? fed free id = some k) (hk : k = 1 ∨ k = n) : w.HasBatch fed free n id k := by
  have hself : forall a, w.Precedes a id ↔ a = id := by
    intro a
    rw [precedes_iff]
    constructor
    · rintro (rfl | ⟨p, hp, _⟩)
      · rfl
      · exact absurd hp (hparents p)
    · exact Or.inl
  constructor
  · rintro ⟨a, ha, hn⟩
    rw [(hself a).mp ha, hrows] at hn
    exact Option.some.inj hn
  · intro hnone
    rcases hk with rfl | rfl
    · rfl
    · exact absurd hrows (hnone id ((hself id).mpr rfl))

theorem hasBatch_of_arguments {arguments : List NodeId} {ts : List (Tensor α)}
    (hrows : w.rows? fed free id = none) (hparents : forall p, p ∈ w.parents id ↔ p ∈ arguments)
    (hmem : forall t, t ∈ ts ->
      ∃ a k, a ∈ arguments ∧ t.shape.head? = some k ∧ w.HasBatch fed free n a k)
    (hvalues : forall a, a ∈ arguments ->
      ∃ t k, t ∈ ts ∧ t.shape.head? = some k ∧ w.HasBatch fed free n a k) :
    w.HasBatch fed free n id (batch n ts) := by
  constructor
  · rintro ⟨a, ha, hn⟩
    rcases precedes_iff.mp ha with rfl | ⟨p, hp, hbefore⟩
    · rw [hrows] at hn
      cases hn
    · rcases hvalues p ((hparents p).mp hp) with ⟨t, k, ht, hhead, hbatch⟩
      rw [hbatch.full ⟨a, hbefore, hn⟩] at hhead
      exact batch_of_mem ht hhead
  · intro hnone
    apply batch_of_single
    intro t ht
    rcases hmem t ht with ⟨a, k, ha, hhead, hbatch⟩
    rw [hhead, hbatch.single]
    intro b hb
    exact hnone b (precedes_iff.mpr (Or.inr ⟨a, (hparents a).mpr ha, hb⟩))

theorem Supplies.exists_free (h : w.Supplies d fed free n) (hid : id ∈ d.nodes)
    (hm : w.node? id = some m) {b : Interval} {c : Constraint} {size : Nat}
    (hrole : m.role = .latent b c size) :
    ∃ t k, free id = some (.ok t) ∧ t.shape = [k, size] ∧
      w.rows? fed free id = some k := by
  rcases h.frees id (mem_latents hid hm hrole) with ⟨t, k, ht, hshape⟩
  rw [hm, Option.map_some, Option.getD_some, (Node.isLatent_of_role hrole).2] at hshape
  refine ⟨t, k, ht, hshape, ?_⟩
  unfold rows?
  rw [hm, Option.map_some, hrole, ht]
  simp [Except.toOption, hshape]

/-!
# Every node of a graph

By induction along the order of the graph, the tensor of every node has the declared shape
behind its batch axis.  No check of the pass can therefore fail.
-/

variable [Scalar α]

section Shaped

variable [CustomCode α]

structure Shaped (w : Workspace) (fed : List (NodeId × Value))
    (free : NodeId → Option (Except Refusal (Tensor α))) (n : Nat) (id : NodeId) (m : Node)
    (t : Tensor α) (k : Nat) : Prop where
  evaluate : w.evaluate fed free id = some t
  shape : t.shape = k :: m.dim
  rows : k = 1 ∨ k = n
  batch : w.HasBatch fed free n id k

theorem parents_of_arguments (hmodel : w.IsModel) (hm : w.node? id = some m)
    (hkind : m.isDistribution = false) (p : NodeId) : p ∈ w.parents id ↔ p ∈ m.arguments := by
  rw [parents_of_node? hm]
  exact (hmodel id m hm).parents hkind p

theorem not_mem_parents_of_source (hmodel : w.IsModel) (hm : w.node? id = some m)
    (hkind : m.isDistribution = false) (hsource : m.isOperation = false) (p : NodeId) :
    p ∉ w.parents id := by
  rw [parents_of_arguments hmodel hm hkind, Node.arguments_eq_nil hsource]
  exact List.not_mem_nil

/-- What holds of data and variables, and of a computed node as soon as it holds of the
arguments, holds of all nodes of a graph that are no distributions. -/
theorem IsModel.induction {P : NodeId → Node → Prop} (hmodel : w.IsModel) (hsorts : w.Sorts d)
    (hdata : forall id m, id ∈ d.nodes -> w.node? id = some m -> m.role = .data -> P id m)
    (hlatent : forall id m b c size, id ∈ d.nodes -> w.node? id = some m ->
      m.role = .latent b c size -> P id m)
    (hoperation : forall id m, w.node? id = some m -> m.isOperation = true ->
      (forall a k, a ∈ m.arguments -> w.node? a = some k -> P a k) -> P id m) :
    forall id, id ∈ d.nodes -> forall m, w.node? id = some m -> m.isDistribution = false ->
      P id m := by
  -- The arguments of a computed node are its parents, which come before it.
  apply hsorts.parentsFirst.induction (P := fun id => forall m, w.node? id = some m ->
    m.isDistribution = false -> P id m)
  intro id hid hparents m hm hkind
  cases hrole : m.role with
  | data => exact hdata id m hid hm hrole
  | latent b c size => exact hlatent id m b c size hid hm hrole
  | operation o arguments extras =>
      apply hoperation id m hm (Node.isOperation_of_role hrole)
      intro a k ha hk
      rcases (hmodel id m hm).arguments a ha with ⟨k', hk', hvariate⟩
      rw [hk] at hk'
      cases hk'
      exact hparents a ((parents_of_arguments hmodel hm hkind a).mpr ha) k hk hvariate
  | distribution r => exact absurd hrole (Node.role_ne_of_isDistribution hkind r)

theorem shaped_data (hmodel : w.IsModel) (hsupplies : w.Supplies d fed free n)
    {p : Precision} (hp : w.settings.tensorPrecision w.wide = .ok p) (hid : id ∈ d.nodes)
    (hm : w.node? id = some m) (hrole : m.role = .data) :
    ∃ t k, w.Shaped fed free n id m t k := by
  have hdata := Node.isData_of_role hrole
  have hkind := Node.isDistribution_eq_false (n := m) (by simp [hrole])
  have hparents := not_mem_parents_of_source hmodel hm hkind (by simp [Node.isOperation, hrole])
  have hexists : ∃ t : Tensor α, ∃ k, w.evaluate fed free id = some t ∧
      t.shape = k :: m.dim ∧ w.rows? fed free id = some k :=
    evaluate_data_rows hp hm (hmodel id m hm) hrole (hsupplies.mode.truth hid hm hdata)
      (hsupplies.feeds id m hid hm hdata)
  rcases hexists with ⟨t, k, ht, hshape, hrows⟩
  have hk := hsupplies.rows id hid k hrows
  exact ⟨t, k, ht, hshape, hk, hasBatch_of_source hparents hrows hk⟩

theorem shaped_latent (hmodel : w.IsModel) (hsupplies : w.Supplies d fed free n)
    (hid : id ∈ d.nodes) (hm : w.node? id = some m) {b : Interval} {c : Constraint}
    {size : Nat} (hrole : m.role = .latent b c size) : ∃ t k, w.Shaped fed free n id m t k := by
  have hkind := Node.isDistribution_eq_false (n := m) (by simp [hrole])
  have hparents := not_mem_parents_of_source hmodel hm hkind (by simp [Node.isOperation, hrole])
  rcases hsupplies.exists_free hid hm hrole with ⟨t, k, hfree, ht, hrows⟩
  rcases evaluate_latent_rows (α := α) (hmodel id m hm) hm hrole with ⟨g, hg⟩
  rcases hg fed free t k hfree ht with ⟨r, hr, hshape, _⟩
  have hk := hsupplies.rows id hid k hrows
  exact ⟨r, k, hr, hshape, hk, hasBatch_of_source hparents hrows hk⟩

theorem shaped_operation (hmodel : w.IsModel) (hm : w.node? id = some m)
    (hoperation : m.isOperation = true)
    (harguments : forall a k, a ∈ m.arguments -> w.node? a = some k ->
      ∃ t j, w.Shaped fed free n a k t j) : ∃ t k, w.Shaped fed free n id m t k := by
  have hdescribes := hmodel id m hm
  rcases isOperation_of_declares (hdescribes.declared hoperation) with
    ⟨o, arguments, ds, hrole, hds, hdeclares⟩
  have hnames := Node.arguments_of_operation hrole
  have hkind := Node.isDistribution_eq_false (n := m) (by simp [hrole])
  have hrows : w.rows? fed free id = none := by
    unfold rows?
    rw [hm, Option.map_some, hrole]
  rw [hnames] at harguments
  rcases (hdeclares.rowWise (α := α) (hmodel.isDim_of_dims? hds)
    hdescribes.inMemory).2 with ⟨g, hg⟩
  rcases exists_tensors (f := w.evaluate fed free) (n := n) hds
    (fun a k ha hk => by
      rcases harguments a k ha hk with ⟨t, j, ht⟩
      exact ⟨t, ht.evaluate, j, ht.shape, ht.rows⟩) with ⟨ts, hts, hvalues, hbatches⟩
  rcases evaluate_operation_rows hg hm hrole hts hbatches with ⟨r, hr, hshape, _⟩
  have hexists : forall a, a ∈ arguments -> forall t, w.evaluate fed free a = some t ->
      ∃ j, t.shape.head? = some j ∧ w.HasBatch fed free n a j := by
    intro a ha t ht
    rcases hdescribes.arguments a (hnames ▸ ha) with ⟨k, hk, _⟩
    rcases harguments a k ha hk with ⟨u, j, hu⟩
    rw [hu.evaluate] at ht
    cases ht
    refine ⟨j, ?_, hu.batch⟩
    rw [hu.shape, List.head?_cons]
  have hbatch : w.HasBatch fed free n id (batch n ts) := by
    have hparents : forall p, p ∈ w.parents id ↔ p ∈ arguments := by
      intro p
      rw [parents_of_arguments hmodel hm hkind, hnames]
    apply hasBatch_of_arguments hrows hparents
    · intro t ht
      rcases exists_left_of_forall₂ hvalues ht with ⟨a, ha, hvalue⟩
      rcases hexists a ha t hvalue with ⟨j, hhead, hj⟩
      exact ⟨a, j, ha, hhead, hj⟩
    · intro a ha
      rcases exists_right_of_forall₂ hvalues ha with ⟨t, ht, hvalue⟩
      rcases hexists a ha t hvalue with ⟨j, hhead, hj⟩
      exact ⟨t, j, ht, hhead, hj⟩
  refine ⟨r, batch n ts, hr, hshape, ?_, hbatch⟩
  rcases batch_eq n ts with ⟨hn, _⟩ | ⟨hone, _⟩
  · exact Or.inr hn
  · exact Or.inl hone

theorem exists_shaped (hmodel : w.IsModel) (hsorts : w.Sorts d)
    (hsupplies : w.Supplies d fed free n) {p : Precision}
    (hp : w.settings.tensorPrecision w.wide = .ok p) :
    forall id, id ∈ d.nodes -> forall m, w.node? id = some m -> m.isDistribution = false ->
      ∃ t k, w.Shaped fed free n id m t k := by
  apply hmodel.induction hsorts (P := fun id m => ∃ t k, w.Shaped fed free n id m t k)
  · intro id m hid hm hrole
    exact shaped_data hmodel hsupplies hp hid hm hrole
  · intro id m b c size hid hm hrole
    exact shaped_latent hmodel hsupplies hid hm hrole
  · intro id m hm hoperation harguments
    exact shaped_operation hmodel hm hoperation harguments

end Shaped

/-- The variables of a graph that are kept in intervals have intervals of a positive width. -/
def HasWidths (α : Type) [Scalar α] (w : Workspace) (d : Dag) : Prop :=
  forall id m b size, id ∈ d.nodes -> w.node? id = some m ->
    m.role = .latent b .interval size ->
      Scalar.lessEq ((Scalar.literal b.upper : α) - Scalar.literal b.lower) Scalar.zero = false

theorem HasWidths.width (h : w.HasWidths α d) (hid : id ∈ d.nodes) (hm : w.node? id = some m)
    {b : Interval} {c : Constraint} {size : Nat} (hrole : m.role = .latent b c size)
    (hc : c = .interval) :
    Scalar.lessEq ((Scalar.literal b.upper : α) - Scalar.literal b.lower) Scalar.zero = false := by
  rw [hc] at hrole
  exact h id m b size hid hm hrole

theorem hasWidths_of_isModel (hmodel : w.IsModel) (d : Dag) : w.HasWidths Number d := by
  intro id m b size _ hm hrole
  exact ((hmodel id m hm).latent b _ _ hrole).1.width

variable [CustomCode α]

theorem not_refuses (hwidths : w.HasWidths α d) (hmodel : w.IsModel) (hsorts : w.Sorts d)
    (hnodes : forall id, id ∈ d.nodes -> (w.node? id).isSome = true)
    (hsupplies : w.Supplies d fed free n) {p : Precision}
    (hp : w.settings.tensorPrecision w.wide = .ok p) : ¬Pass.Refuses w d fed free := by
  rintro (⟨id, hid, hfree⟩ | ⟨id, hid, hobstructed⟩)
  · exact hfree (hsupplies.frees id hid)
  · rcases Option.isSome_iff_exists.mp (hnodes id hid) with ⟨m, hm⟩
    cases hobstructed with
    | absent hnone =>
        rw [hm] at hnone
        cases hnone
    | value hkind hnone =>
        rw [has_of_node? hm] at hkind
        rcases exists_shaped hmodel hsorts hsupplies hp id hid m hm hkind with ⟨t, k, ht⟩
        rw [ht.evaluate] at hnone
        cases hnone
    | adjustment hlatent hnone =>
        rw [has_of_node? hm] at hlatent
        rcases Node.role_of_isLatent hlatent with ⟨b, c, hrole⟩
        rcases hsupplies.exists_free hid hm hrole with ⟨t, k, hfree, ht, _⟩
        rcases adjustment_latent_rows (hwidths.width hid hm hrole) (hmodel id m hm) hm hrole with
          ⟨g, hg⟩
        rcases hg free t k hfree ht with ⟨r, hr, _⟩
        rw [hr] at hnone
        cases hnone
    | shape hfits =>
        apply hfits
        by_cases hrole : m.role = .data
        · rcases hsupplies.feeds id m hid hm (Node.isData_of_role hrole) with ⟨v, hfed, hv⟩
          exact fitsFeed_of_feedable hm hfed hv ((hmodel id m hm).data hrole).1
        · exact fitsFeed_of_role hm hrole

theorem exists_environment (hwidths : w.HasWidths α d) (hmodel : w.IsModel) (hsorts : w.Sorts d)
    (hnodes : forall id, id ∈ d.nodes -> (w.node? id).isSome = true)
    (hsupplies : w.Supplies d fed free n)
    (hsettings : w.settings.validate w.written w.wide = .ok ()) :
    ∃ e, d.environment w fed free = .ok e ∧ e.Faithful w d fed free := by
  rcases precision_of_validate hsettings with ⟨p, hp⟩
  have hends := Dag.environment_ends hsorts (fun id n _ => hmodel.findsArguments)
    hsupplies.feeds free
  cases henvironment : d.environment w fed free with
  | ok e => exact ⟨e, rfl, hends.1 e henvironment⟩
  | error f =>
      exfalso
      rcases (hends.2 f henvironment).2 with hinvalid | hrefuses
      · rw [hsettings] at hinvalid
        cases hinvalid
      · exact not_refuses hwidths hmodel hsorts hnodes hsupplies hp hrefuses

end Workspace

theorem Environment.Faithful.knowsMode [Scalar α] [CustomCode α] {w : Workspace} {d : Dag}
    {fed : List (NodeId × Value)} {free : NodeId → Option (Except Refusal (Tensor α))}
    {e : Environment α} (he : e.Faithful w d fed free) : w.KnowsMode d := by
  intro id hid
  rcases Workspace.mem_select.mp hid with ⟨hmem, hdata⟩
  rcases Workspace.exists_node_of_has hdata with ⟨m, hm, hkind⟩
  have hrole := Node.role_of_isData hkind
  have hvariate : w.has Node.isDistribution id = false := by
    rw [Workspace.has_of_node? hm, Node.isDistribution_eq_false (by simp [hrole])]
  rcases he.values id hmem hvariate with ⟨t, ht, _⟩
  rw [Workspace.evaluate_data hm hrole] at ht
  unfold Workspace.dataTensor at ht
  cases hmode : w.settings.dataAsConstants.truth with
  | ok on => exact ⟨on, rfl⟩
  | error r =>
      rw [hmode] at ht
      cases ht

/-!
# Passes over models
-/

namespace Action

open Workspace

variable [CustomCode Number] {w w' : Workspace} {d : Dag} {fed : List (NodeId × Value)} {n : Nat}

/-- The tensors of an environment have the declared shapes of their nodes behind batch axes,
which are as long as the longest among the sources of the nodes. -/
def HasShapes (w : Workspace) (d : Dag) (fed : List (NodeId × Value))
    (free : NodeId → Option (Except Refusal (Tensor Number))) (n : Nat)
    (e : Environment Number) : Prop :=
  forall id m, id ∈ d.nodes -> w.node? id = some m -> m.isDistribution = false ->
    ∃ t k, e.get? id .value = some (.tensor t) ∧ t.shape = k :: m.dim ∧
      w.HasBatch fed free n id k

/-- In every model, a pass ends with tensors of the declared shapes for all data, variables
and computed nodes.  Nothing but the check of the settings can fail.  In a model, edges are
drawn and removed by hand at distribution nodes only, because no other node would read such
parents, and all arrays have fewer than `2 ^ 63` entries.  A data mode that is neither true nor
false is left out. -/
theorem materialize_shapes {starts : List NodeId} (hbuilt : w.Built Models)
    (hstarts : forall s, s ∈ starts -> (w.node? s).isSome = true)
    (hcompile : w.compile starts = .ok d) {free : List (Int × Value)}
    {data : List (Value × Value)} (hfeed : (feed d data).run w = (.ok fed, w'))
    (hmode : w.KnowsMode d)
    (hfree : forall id, id ∈ d.latents w -> w.AcceptsFree (w.freeOf free) id)
    (hrows : forall id, id ∈ d.nodes -> forall k, w.rows? fed (w.freeOf free) id = some k ->
      k = 1 ∨ k = n) :
    (∃ e, (materialize d free data).run w = (.ok e, w') ∧
      HasShapes w d fed (w.freeOf free) n e) ∨
      ∃ f, w.settings.validate w.written w.wide = .error f ∧
        (materialize d free data).run w = (.error f, w') := by
  have hmodel := isModel_of_built hbuilt
  have hsorts := sorts_of_compile hcompile
  have hfeeds : w.FeedsData d fed := ((ends_feed d data).of_ok hfeed).2
  have hsupplies : w.Supplies d fed (w.freeOf free) n := ⟨hmode, hfeeds, hfree, hrows⟩
  rw [run_materialize_of_feed hfeed]
  cases hsettings : w.settings.validate w.written w.wide with
  | error f =>
      right
      refine ⟨f, rfl, ?_⟩
      unfold Dag.environment Environment.start
      rw [hsettings]
      rfl
  | ok _ =>
      left
      rcases precision_of_validate hsettings with ⟨p, hp⟩
      have hnodes : forall id, id ∈ d.nodes -> (w.node? id).isSome = true := by
        intro id hid
        exact (mutual_of_models hbuilt).closed.isSome_of_mem_compile hstarts hcompile hid
      rcases exists_environment (hasWidths_of_isModel hmodel d) hmodel hsorts hnodes hsupplies
        hsettings with ⟨e, he, hfaithful⟩
      refine ⟨e, by rw [he], ?_⟩
      intro id m hid hm hkind
      rcases exists_shaped hmodel hsorts hsupplies hp id hid m hm hkind with ⟨t, k, ht⟩
      rcases hfaithful.values id hid (by rw [has_of_node? hm, hkind]) with ⟨u, hu, hget⟩
      rw [ht.evaluate] at hu
      cases hu
      exact ⟨t, k, hget, ht.shape, ht.batch⟩

end Action

/-!
A variable between zero and one is multiplied by a single number, in two chains.
-/

namespace Workspace

open DensityGraph.Action

attribute [local instance] CustomCode.refusing

def scaled : Workspace :=
  [.data (.float 2.0), .latent (.float 0.0) (.float 1.0) (.tuple [.int 1, .int 2]) .none,
    .binary .multiply (.node 0) (.node 1)].foldl after (empty {} true)

theorem built_scaled : scaled.Built Models := by
  have hdata : (after (empty {} true) (.data (.float 2.0))).Built Models := by
    refine (Built.empty {} true).call (.data (.float 2.0)) ⟨?_, by decide +kernel⟩
      (run_of_returns (by decide +kernel))
    intro a ha
    cases ha
  have hlatent : (after (after (empty {} true) (.data (.float 2.0))) (.latent (.float 0.0)
      (.float 1.0) (.tuple [.int 1, .int 2]) .none)).Built Models := by
    refine hdata.call _ ⟨?_, by decide +kernel⟩ (run_of_returns (by decide +kernel))
    intro a ha
    cases ha
  refine hlatent.call (.binary .multiply (.node 0) (.node 1)) ⟨?_, by decide +kernel⟩
    (run_of_returns (by decide +kernel))
  intro a ha
  simp only [Call.operands, List.mem_cons, List.not_mem_nil, or_false, Value.node.injEq] at ha
  rcases ha with rfl | rfl
  · exact ⟨_, rfl, rfl⟩
  · exact ⟨_, rfl, rfl⟩

theorem compile_scaled : scaled.compile [2] = .ok ⟨[0, 1, 2], [(0, 2), (1, 2)]⟩ :=
  compile_eq [0, 1, 2] rfl (component_of_visitWithin? 16 (by decide +kernel)) (by decide +kernel)
    (by decide +kernel) (by decide) (by decide +kernel) (by decide +kernel)

def twoChains : List (Int × Value) :=
  [(1, .array false (.floats .double (Tensor.full [2, 2] 0.5)))]

theorem acceptsFree_scaled : scaled.AcceptsFree (scaled.freeOf twoChains) 1 := by
  have hprecision : scaled.settings.tensorPrecision scaled.wide = .ok .single := by
    decide +kernel
  have hreadable : (NumericArray.floats .double (Tensor.full [2, 2] 0.5)).IsReadable := trivial
  refine ⟨_, 2, congrArg some (tensorOf_array hprecision hreadable false), ?_⟩
  have hsize : ((scaled.node? 1).map Node.freeSize).getD 0 = 2 := by decide +kernel
  rw [hsize]
  rfl

theorem materialize_shapes_scaled :
    ∃ fed w', (feed ⟨[0, 1, 2], [(0, 2), (1, 2)]⟩ []).run scaled = (.ok fed, w') ∧
      ((∃ e, (materialize ⟨[0, 1, 2], [(0, 2), (1, 2)]⟩ twoChains []).run scaled = (.ok e, w') ∧
        HasShapes scaled ⟨[0, 1, 2], [(0, 2), (1, 2)]⟩ fed (scaled.freeOf twoChains) 2 e) ∨
        ∃ f, scaled.settings.validate scaled.written scaled.wide = .error f ∧
          (materialize ⟨[0, 1, 2], [(0, 2), (1, 2)]⟩ twoChains []).run scaled =
            (.error f, w')) := by
  refine ⟨_, _, rfl, materialize_shapes built_scaled ?_ compile_scaled rfl ?_ ?_ ?_⟩
  · intro s hs
    rw [List.mem_singleton.mp hs]
    decide +kernel
  · intro _ _
    exact ⟨false, by decide +kernel⟩
  · intro id hid
    have hlatents : Dag.latents ⟨[0, 1, 2], [(0, 2), (1, 2)]⟩ scaled = [1] := by decide +kernel
    rw [hlatents, List.mem_singleton] at hid
    rw [hid]
    exact acceptsFree_scaled
  · intro id hid k hk
    simp only [List.mem_cons, List.not_mem_nil, or_false] at hid
    rcases hid with rfl | rfl | rfl
    · left
      rw [show scaled.rows? _ _ 0 = some 1 by decide +kernel] at hk
      exact (Option.some.inj hk).symm
    · right
      rw [show scaled.rows? _ _ 1 = some 2 by decide +kernel] at hk
      exact (Option.some.inj hk).symm
    · rw [show scaled.rows? _ _ 2 = none by decide +kernel] at hk
      cases hk

/-!
A node that is computed from a single number gets a variable as a further parent.
-/

def adopted : Workspace :=
  [.data (.float 1.0), .negate (.node 0), .latent (.float (-1.0 / 0.0)) (.float (1.0 / 0.0))
    (.tuple [.int 1, .int 1]) .none, .addParent 1 (.node 2)].foldl after (empty {} true)

def adoptedDag : Dag :=
  ⟨[0, 2, 1], [(0, 1), (2, 1)]⟩

/-- Whether a call applies operators and functions only, and those to nodes that are no
distributions. -/
def appliesToVariates (w : Workspace) (c : Call) : Bool :=
  !c.isOperation && c.operands.all fun
    | .node a => (w.node? a).any fun n => !n.isDistribution
    | _ => true

theorem built_adopted : adopted.Built fun w c => w.appliesToVariates c = true :=
  built_foldl (.empty {} true) (by decide +kernel)

theorem compile_adopted : adopted.compile [1] = .ok adoptedDag :=
  compile_eq [0, 1, 2] rfl (component_of_visitWithin? 16 (by decide +kernel)) (by decide +kernel)
    (by decide +kernel) (by decide) (by decide +kernel) (by decide +kernel)

def twoRows : List (Int × Value) :=
  [(2, .array false (.floats .double (Tensor.full [2, 1] 0.0)))]

theorem rows?_adopted : forall id, id ∈ adoptedDag.nodes -> forall k,
    adopted.rows? (adoptedDag.currentFeed adopted) (adopted.freeOf twoRows) id = some k ->
      k = 1 ∨ k = 2 := by
  intro id hid k hk
  simp only [adoptedDag, List.mem_cons, List.not_mem_nil, or_false] at hid
  rcases hid with rfl | rfl | rfl
  · left
    rw [show adopted.rows? _ _ 0 = some 1 by decide +kernel] at hk
    exact (Option.some.inj hk).symm
  · right
    rw [show adopted.rows? _ _ 2 = some 2 by decide +kernel] at hk
    exact (Option.some.inj hk).symm
  · rw [show adopted.rows? _ _ 1 = none by decide +kernel] at hk
    cases hk

/-- The variable has two rows and is an ancestor of the node, which has one row nevertheless. -/
theorem not_shapes_adopted :
    ¬forall (w w' : Workspace) (starts : List NodeId) (d : Dag) (n : Nat)
      (fed : List (NodeId × Value)) (free : List (Int × Value)) (e : Environment Number),
      w.Built (fun w c => w.appliesToVariates c = true) -> w.compile starts = .ok d ->
        (feed d []).run w = (.ok fed, w) ->
          (forall id, id ∈ d.nodes -> forall k, w.rows? fed (w.freeOf free) id = some k ->
            k = 1 ∨ k = n) ->
          (materialize d free []).run w = (.ok e, w') ->
            HasShapes w d fed (w.freeOf free) n e := by
  intro h
  have hsingle : (((materialize adoptedDag twoRows []).run adopted).1.toOption.bind fun e =>
      (e.get? 1 .value).map fun
        | .tensor t => t.shape
        | .density _ => []) = some [1, 1, 1] := by decide +kernel
  rcases Option.bind_eq_some_iff.mp hsingle with ⟨e, he, hentry⟩
  have hshapes := h adopted _ [1] adoptedDag 2 _ twoRows e built_adopted compile_adopted rfl
    rows?_adopted (Prod.ext (toOption_eq_some.mp he) rfl)
  have hnode : (adopted.node? 1).map Node.isDistribution = some false := by decide +kernel
  have hparents : 2 ∈ adopted.parents 1 := by decide +kernel
  rcases Option.map_eq_some_iff.mp hnode with ⟨m, hm, hkind⟩
  rcases hshapes 1 m (by decide) hm hkind with ⟨t, k, hget, hshape, hbatch⟩
  have hk : k = 2 :=
    hbatch.full ⟨2, Relation.ReflTransGen.single hparents, by decide +kernel⟩
  rw [hget] at hentry
  have hone : t.shape = [1, 1, 1] := Option.some.inj hentry
  rw [hshape, hk] at hone
  cases hone

end Workspace
end DensityGraph
