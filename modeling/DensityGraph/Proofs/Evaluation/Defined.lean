import DensityGraph.Proofs.Distribution.Combines
import DensityGraph.Proofs.Evaluation.Chainwise
import DensityGraph.Proofs.Evaluation.Terms
/-!
# Distributions that have a density

In a graph whose nodes have equally many axes, whether a distribution has a density does not
depend on values, and the density has as many rows as what the distribution reads.
-/

namespace DensityGraph

open Tensor

variable {α : Type} [Scalar α]

/-- A graph has what a distribution with a target needs: all that the distribution reads, the
parameters of its family among them, and tensors whose shapes go together. -/
structure Dag.Serves (d : Dag) (w : Workspace) (r : Distribution) (x : NodeId)
    (ids : List NodeId) : Prop where
  target : r.target = some x
  family : r.family ≠ .blank
  inputs : r.inputs? = some ids
  nodes : forall q, q ∈ x :: r.parameters.map Prod.snd -> q ∈ d.nodes
  variates : forall q, q ∈ x :: ids -> w.IsVariate q
  combines : r.Combines ((x :: ids).map w.shape)

namespace Workspace

/-- A distribution that a graph has all for that it needs. -/
def HasDensity (w : Workspace) (d : Dag) (id : NodeId) : Prop :=
  ∃ m r x ids, w.node? id = some m ∧ m.distribution? = some r ∧ d.Serves w r x ids

/-- A distribution that reads a value to which a variable leads. -/
def Varies (w : Workspace) (id : NodeId) : Prop :=
  ∃ m q a, w.node? id = some m ∧ q ∈ m.role.reads ∧ w.IsVariate q ∧ w.Precedes a q ∧
    w.has Node.isLatent a = true

def TermShape (w : Workspace) (n : Nat) (id : NodeId) (t : Tensor α) : Prop :=
  (w.Varies id -> t.shape = [n]) ∧ (¬w.Varies id -> t.shape = [1])

end Workspace

/-- A free tensor of `n` rows for every variable of a graph. -/
def Dag.HasFreeRows (d : Dag) (w : Workspace)
    (free : NodeId → Option (Except Refusal (Tensor α))) (n : Nat) : Prop :=
  forall id, id ∈ d.latents w ->
    ∃ t, free id = some (.ok t) ∧ t.shape = [n, ((w.node? id).map Node.freeSize).getD 0]

/-!
# Rows of sources
-/

namespace Workspace

variable {w : Workspace} {d : Dag} {fed : List (NodeId × Value)}
  {free : NodeId → Option (Except Refusal (Tensor α))} {n : Nat} {id a : NodeId} {m : Node}

omit [Scalar α] in
theorem rows?_latent (hfree : d.HasFreeRows w free n) (hid : id ∈ d.latents w) :
    w.rows? fed free id = some n := by
  rcases exists_node_of_has (mem_select.mp hid).2 with ⟨m, hm, hlatent⟩
  rcases Node.role_of_isLatent hlatent with ⟨b, c, hrole⟩
  rcases hfree id hid with ⟨t, ht, hshape⟩
  unfold rows?
  rw [hm, Option.map_some, hrole, ht]
  simp [Except.toOption, hshape]

omit [Scalar α] in
theorem rows?_current (hid : id ∈ d.nodes) {k : Nat}
    (hk : w.rows? (d.currentFeed w) free id = some k) : k = 1 ∨ id ∈ d.latents w := by
  rcases source_of_rows? hk with ⟨m, hm, hrole, hsource⟩ | ⟨m, b, c, size, t, hm, hrole, _⟩
  · left
    rcases hsource with hone | ⟨v, s, hv, hs, hhead⟩
    · exact hone
    · rw [lookup_currentFeed hid hm (Node.isData_of_role hrole)] at hv
      cases hv
      rw [Value.shape_array, NumericArray.shape_addBatchAxis] at hs
      cases hs
      exact (Option.some.inj hhead).symm
  · exact Or.inr (mem_latents hid hm hrole)

omit [Scalar α] in
theorem supplies_current (hmode : w.KnowsMode d) (hfree : d.HasFreeRows w free n) :
    w.Supplies d (d.currentFeed w) free n := by
  refine ⟨hmode, feedsData_current w d, ?_, ?_⟩
  · intro id hid
    rcases hfree id hid with ⟨t, ht, hshape⟩
    exact ⟨t, n, ht, hshape⟩
  · intro id hid k hk
    rcases rows?_current hid hk with hone | hlatent
    · exact Or.inl hone
    · rw [rows?_latent hfree hlatent] at hk
      exact Or.inr (Option.some.inj hk).symm

theorem Precedes.mem (h : w.Precedes a id) (hsorts : w.Sorts d) (hid : id ∈ d.nodes) :
    a ∈ d.nodes := by
  induction h with
  | refl => exact hid
  | tail _ hparent ih => exact ih (hsorts.parentsFirst.mem_of_mem hid hparent)

/-!
# What a distribution reads

Arguments of a distribution that have `k` rows together are brought to `k` rows.  In a graph,
the rows are those of the variables, or single ones.
-/

variable [CustomCode α]

def argumentAt (w : Workspace) (fed : List (NodeId × Value))
    (free : NodeId → Option (Except Refusal (Tensor α))) (k : Nat) (q : NodeId) : Argument α :=
  (w.argumentOf fed free q).matched k

section Arguments

variable {q : NodeId} {qs : List NodeId} {t : Tensor α} {p : Precision} {k : Nat}

theorem argumentOf_cases (w : Workspace) (fed : List (NodeId × Value))
    (free : NodeId → Option (Except Refusal (Tensor α))) (q : NodeId) :
    (∃ t, w.argumentOf fed free q = .tensor t) ∨ w.argumentOf fed free q = .density q := by
  unfold argumentOf argumentFrom
  cases w.evaluate fed free q with
  | none => exact Or.inr rfl
  | some t => exact Or.inl ⟨t, rfl⟩

theorem argumentAt_ne_extra (v : Extra) : w.argumentAt fed free k q ≠ .extra v := by
  intro hextra
  unfold argumentAt at hextra
  rcases w.argumentOf_cases fed free q with ⟨t, ht⟩ | hdensity
  · rw [ht] at hextra
    cases hextra
  · rw [hdensity] at hextra
    cases hextra

theorem exists_of_argumentAt (ht : w.argumentAt fed free k q = .tensor t) :
    ∃ u, w.argumentOf fed free q = .tensor u := by
  rcases w.argumentOf_cases fed free q with htensor | hdensity
  · exact htensor
  · unfold argumentAt at ht
    rw [hdensity] at ht
    cases ht

theorem isVariate_of_argumentOf (hnode : (w.node? q).isSome = true)
    (ht : w.argumentOf fed free q = .tensor t) : w.IsVariate q := by
  rcases Option.isSome_iff_exists.mp hnode with ⟨m, hm⟩
  refine ⟨m, hm, ?_⟩
  cases hkind : m.isDistribution with
  | false => rfl
  | true =>
      rw [argumentOf_of_isDistribution (by rw [has_of_node? hm, hkind])] at ht
      cases ht

variable (hd : w.CompilesModel d) (hsupplies : w.Supplies d fed free n)
  (hp : w.settings.tensorPrecision w.wide = .ok p)

include hd hsupplies hp

theorem exists_argumentOf (hq : q ∈ d.nodes) (hvariate : w.IsVariate q) :
    ∃ t k, w.argumentOf fed free q = .tensor t ∧ t.shape = k :: w.shape q ∧
      (k = 1 ∨ k = n) ∧ w.HasBatch fed free n q k := by
  rcases hvariate with ⟨m, hm, hkind⟩
  rcases exists_shaped hd.model hd.sorts hsupplies hp q hq m hm hkind with ⟨t, k, ht⟩
  refine ⟨t, k, ?_, ?_, ht.rows, ht.batch⟩
  · exact argumentOf_of_evaluate ht.evaluate
  · rw [ht.shape, shape_of_node? hm]

theorem hasRows_of_argumentOf (hq : q ∈ d.nodes) (ht : w.argumentOf fed free q = .tensor t) :
    ∃ k, t.shape = k :: w.shape q ∧ (k = 1 ∨ k = n) ∧ w.HasBatch fed free n q k := by
  have hvariate := isVariate_of_argumentOf (hd.nodes q hq) ht
  rcases exists_argumentOf hd hsupplies hp hq hvariate with ⟨u, k, hu, hshape, hrows⟩
  rw [ht] at hu
  cases hu
  exact ⟨k, hshape, hrows⟩

variable (hqs : forall q, q ∈ qs -> q ∈ d.nodes)

include hqs

theorem reconciled_arguments : Batched.reconciled (qs.map (w.argumentOf fed free)) =
    .ok (qs.map (w.argumentAt fed free (batchOf n (qs.map (w.argumentOf fed free))))) := by
  unfold Batched.reconciled
  rw [reconcile_arguments (n := n), List.map_map]
  · rfl
  · intro v hv
    rcases List.mem_map.mp hv with ⟨q, _, hextra⟩
    rcases w.argumentOf_cases fed free q with ⟨t, ht⟩ | hdensity
    · rw [ht] at hextra
      cases hextra
    · rw [hdensity] at hextra
      cases hextra
  · intro t ht
    rcases List.mem_map.mp ht with ⟨q, hq, heq⟩
    rcases hasRows_of_argumentOf hd hsupplies hp (hqs q hq) heq with ⟨k, hshape, hk, _⟩
    exact ⟨_, k, hshape, hk⟩

theorem exists_argumentAt (hq : q ∈ qs) (hvariate : w.IsVariate q) :
    ∃ t, w.argumentAt fed free (batchOf n (qs.map (w.argumentOf fed free))) q = .tensor t ∧
      t.shape = batchOf n (qs.map (w.argumentOf fed free)) :: w.shape q := by
  rcases exists_argumentOf hd hsupplies hp (hqs q hq) hvariate with ⟨t, k, ht, hshape, hk, _⟩
  refine ⟨t.matched (batchOf n (qs.map (w.argumentOf fed free))), ?_, ?_⟩
  · unfold argumentAt
    rw [ht]
    rfl
  · apply shape_matched ⟨k, hshape, hk⟩
    exact List.mem_filterMap.mpr ⟨_, List.mem_map.mpr ⟨q, hq, rfl⟩, by rw [ht]; rfl⟩

end Arguments

theorem batchOf_reads (hd : w.CompilesModel d) (hmode : w.KnowsMode d)
    (hfree : d.HasFreeRows w free n) {p : Precision}
    (hp : w.settings.tensorPrecision w.wide = .ok p) (hm : w.node? id = some m)
    {qs : List NodeId} (hreads : m.role.reads = qs) (hqs : forall q, q ∈ qs -> q ∈ d.nodes) :
    (w.Varies id -> batchOf n (qs.map (w.argumentOf (d.currentFeed w) free)) = n) ∧
      (¬w.Varies id -> batchOf n (qs.map (w.argumentOf (d.currentFeed w) free)) = 1) := by
  have hsupplies := supplies_current hmode hfree
  constructor
  · rintro ⟨m', q, a, hm', hq, hvariate, ha, hlatent⟩
    rw [hm] at hm'
    cases hm'
    rw [hreads] at hq
    rcases exists_argumentOf hd hsupplies hp (hqs q hq) hvariate with
      ⟨t, k, ht, hshape, _, hbatch⟩
    have hrows : w.rows? (d.currentFeed w) free a = some n :=
      rows?_latent hfree (mem_select.mpr ⟨ha.mem hd.sorts (hqs q hq), hlatent⟩)
    apply Distribution.batchOf_of_mem hq ht
    rw [hshape, hbatch.full ⟨a, ha, hrows⟩, List.head?_cons]
  · intro hsteady
    apply Distribution.batchOf_of_single
    intro q hq t ht
    rcases hasRows_of_argumentOf hd hsupplies hp (hqs q hq) ht with ⟨k, hshape, hk, hbatch⟩
    have hone : k = 1 := by
      by_cases hn : n = 1
      · rw [hn, or_self] at hk
        exact hk
      · apply hbatch.single
        intro a ha hrows
        rcases rows?_current (ha.mem hd.sorts (hqs q hq)) hrows with hone | hlatent
        · exact hn hone
        · exact hsteady ⟨m, q, a, hm, hreads ▸ hq,
            isVariate_of_argumentOf (hd.nodes q (hqs q hq)) ht, ha, (mem_select.mp hlatent).2⟩
    rw [hshape, hone, List.head?_cons]

end Workspace

/-!
# Densities at arguments
-/

namespace Distribution

variable {r : Distribution} {w : Workspace} {id x : NodeId} {m : Node} {p : Precision}
  {f : NodeId → Argument α} {dims : NodeId → Shape} {ids : List NodeId} {k : Nat} {z : Tensor α}

theorem exists_tensors_of_densityOf (hextra : forall q v, f q ≠ .extra v)
    (h : r.densityOf w id m ((x :: r.parameters.map Prod.snd).map f) = .ok z) :
    r.family ≠ .blank ∧ ∃ ids, r.inputs? = some ids ∧
      forall q, q ∈ x :: ids -> ∃ t, f q = .tensor t := by
  rw [List.map_cons] at h
  rcases exists_of_densityOf h with ⟨hblank, u, us, hu, hus⟩
  rw [zip_parameters] at hus
  rcases exists_inputs hus with ⟨ids, hids, htensors⟩
  refine ⟨hblank, ids, hids, ?_⟩
  intro q hq
  have htensor : ∃ u, (f q).toTensor = .ok u := by
    rcases List.mem_cons.mp hq with rfl | hq
    · exact ⟨u, hu⟩
    · exact htensors q hq
  rcases htensor with ⟨u, hu⟩
  cases hargument : f q with
  | tensor t => exact ⟨t, rfl⟩
  | density y =>
      rw [hargument] at hu
      cases hu
  | extra v => exact absurd hargument (hextra q v)

theorem exists_densityOf (hp : w.settings.tensorPrecision w.wide = .ok p)
    (hblank : r.family ≠ .blank) (hids : r.inputs? = some ids)
    (htensors : forall q, q ∈ x :: ids -> ∃ t, f q = .tensor t ∧ t.shape = k :: dims q) :
    ∃ ts, List.Forall₂ (fun t e => t.shape = k :: e) ts ((x :: ids).map dims) ∧
      r.densityOf w id m ((x :: r.parameters.map Prod.snd).map f) =
        Refusal.lift (r.total p m.dim ts) := by
  choose! t ht hshape using htensors
  refine ⟨(x :: ids).map t, ?_, ?_⟩
  · rw [List.forall₂_map_left_iff, List.forall₂_map_right_iff, List.forall₂_same]
    exact hshape
  · apply densityOf_tensors hp hblank hids
    intro q hq
    rw [ht q hq]
    rfl

end Distribution

/-!
# Terms
-/

namespace Environment

open Workspace

variable [CustomCode α] {w : Workspace} {d : Dag}
  {free : NodeId → Option (Except Refusal (Tensor α))} {n : Nat} {id x : NodeId} {m : Node}
  {r : Distribution} {e : Environment α} {p : Precision} {axes : Nat}

theorem Faithful.exists_of_term {fed : List (NodeId × Value)} (he : e.Faithful w d fed free)
    (hid : id ∈ d.distributions w) {a : Argument α} (h : e.term w id = .ok a) :
    ∃ m r x z, w.node? id = some m ∧ m.distribution? = some r ∧ r.target = some x ∧
      (forall q, q ∈ x :: r.parameters.map Prod.snd -> q ∈ d.nodes) ∧
      (Batched.reconciled ((x :: r.parameters.map Prod.snd).map (w.argumentOf fed free)) >>=
        r.densityOf w id m) = .ok z := by
  rcases Environment.exists_of_term h with ⟨y, x, v, z, hy, htarget, hv, hz, rfl⟩
  rcases Option.bind_eq_some_iff.mp htarget with ⟨r, hr, hrtarget⟩
  rcases Option.bind_eq_some_iff.mp hr with ⟨m, hm, hmr⟩
  rcases mem_select.mp hid with ⟨hmem, hkind⟩
  rw [he.densities id hmem hkind] at hy
  cases hy
  have hparameters : forall q, q ∈ r.parameters.map Prod.snd -> q ∈ d.nodes := by
    unfold Environment.density at hz
    rw [hm] at hz
    simp only at hz
    rw [hmr] at hz
    simp only at hz
    cases hvalues : e.arguments w .value (r.parameters.map Prod.snd) with
    | error f =>
        rw [hvalues] at hz
        cases hz
    | ok values =>
        intro q hq
        rcases Option.isSome_iff_exists.mp (isSome_of_arguments hvalues q hq) with ⟨u, hu⟩
        exact he.mem_nodes hu
  have hx := he.mem_nodes hv
  rw [he.density hm hmr hparameters, ← argument_of_get? hv, (he.isSome hx).2] at hz
  refine ⟨m, r, x, z, hm, hmr, hrtarget, ?_, hz⟩
  intro q hq
  rcases List.mem_cons.mp hq with rfl | hq
  · exact hx
  · exact hparameters q hq

theorem aligned_of_axes (haxes : forall id, id ∈ d.nodes -> (w.shape id).length = axes)
    (hid : id ∈ d.distributions w) (hm : w.node? id = some m) (h : w.Prescribes m r)
    (htarget : r.target = some x) {ids : List NodeId} (hblank : r.family ≠ .blank)
    (hids : r.inputs? = some ids)
    (hnodes : forall q, q ∈ x :: r.parameters.map Prod.snd -> q ∈ d.nodes) :
    r.Aligned ((x :: ids).map w.shape) := by
  apply h.aligned htarget hblank hids
  intro _ q hq
  have hq' := Distribution.mem_reads_of_inputs hids q (List.mem_cons_of_mem x hq)
  rw [haxes q (hnodes q hq'), ← shape_of_node? hm, haxes id (mem_select.mp hid).1]

section Level

variable (hd : w.CompilesModel d) (hfree : d.HasFreeRows w free n)
  (hp : w.settings.tensorPrecision w.wide = .ok p)
  (he : e.Faithful w d (d.currentFeed w) free)
  (haxes : forall id, id ∈ d.nodes -> (w.shape id).length = axes)
  (hid : id ∈ d.distributions w)
  (hprescribes : forall m r, w.node? id = some m -> m.distribution? = some r ->
    w.Prescribes m r)

include hd hfree hp he haxes hid hprescribes

theorem exists_term (h : w.HasDensity d id) :
    ∃ t, e.term w id = .ok (.tensor t) ∧ w.TermShape n id t := by
  rcases h with ⟨m, r, x, ids, hm, hr, hserves⟩
  have hsupplies := supplies_current he.knowsMode hfree
  have hreads : m.role.reads = x :: r.parameters.map Prod.snd := by
    rw [Node.role_of_distribution? hr, Role.reads, hserves.target]
    rfl
  have haligned := aligned_of_axes haxes hid hm (hprescribes m r hm hr) hserves.target
    hserves.family hserves.inputs hserves.nodes
  rcases Distribution.exists_densityOf hp hserves.family hserves.inputs
    fun q hq => exists_argumentAt hd hsupplies hp hserves.nodes
      (Distribution.mem_reads_of_inputs hserves.inputs q hq) (hserves.variates q hq) with
    ⟨ts, hts, hdensity⟩
  rcases hserves.combines.rowWise (α := α) (p := p) haligned with ⟨g, hg⟩
  rcases hg _ ts hts with ⟨z, hz, hshape, _⟩
  have hrows := batchOf_reads hd he.knowsMode hfree hp hm hreads hserves.nodes
  refine ⟨z, ?_, ?_, ?_⟩
  · rw [he.term_of_nodes hid hm hr hserves.target hserves.nodes,
      reconciled_arguments hd hsupplies hp hserves.nodes]
    rw [hz] at hdensity
    exact congrArg (Except.map Argument.tensor) hdensity
  · intro hvaries
    rw [hshape, hrows.1 hvaries]
  · intro hsteady
    rw [hshape, hrows.2 hsteady]

theorem hasDensity_of_term {a : Argument α} (h : e.term w id = .ok a) : w.HasDensity d id := by
  have hsupplies := supplies_current he.knowsMode hfree
  rcases he.exists_of_term hid h with ⟨m, r, x, z, hm, hr, htarget, hnodes, hz⟩
  rw [reconciled_arguments hd hsupplies hp hnodes] at hz
  rcases Distribution.exists_tensors_of_densityOf (fun _ v => argumentAt_ne_extra v) hz with
    ⟨hblank, ids, hids, htensors⟩
  have hinputs : forall q, q ∈ x :: ids -> q ∈ x :: r.parameters.map Prod.snd :=
    Distribution.mem_reads_of_inputs hids
  have hvariates : forall q, q ∈ x :: ids -> w.IsVariate q := by
    intro q hq
    rcases htensors q hq with ⟨t, ht⟩
    rcases exists_of_argumentAt ht with ⟨u, hu⟩
    exact isVariate_of_argumentOf (hd.nodes q (hnodes q (hinputs q hq))) hu
  rcases Distribution.exists_densityOf hp hblank hids fun q hq =>
    exists_argumentAt hd hsupplies hp hnodes (hinputs q hq) (hvariates q hq) with
    ⟨ts, hts, hdensity⟩
  have htotal := lift_eq_ok.mp (hdensity.symm.trans hz)
  have haligned := aligned_of_axes haxes hid hm (hprescribes m r hm hr) htarget hblank hids
    hnodes
  exact ⟨m, r, x, ids, hm, hr, htarget, hblank, hids, hnodes, hvariates,
    Distribution.combines_of_total haligned hts htotal⟩

end Level

end Environment
end DensityGraph
