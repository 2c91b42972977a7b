import DensityGraph.Proofs.Evaluation.Independent
import DensityGraph.Proofs.Evaluation.Runs
import DensityGraph.Proofs.Evaluation.Splitting
/-!
# Log-densities chain by chain

In a model whose elementwise distributions have parameters of as many axes as they have
themselves, the log-density of a state of `n` rows consists of the log-densities of its
rows.
-/

namespace DensityGraph

open Tensor

variable {α : Type} [Scalar α]

/-!
# Entries
-/

namespace Tensor

theorem get_inhabited {β : Type} {a b : Inhabited β} {t : Tensor β} {index : List Nat}
    (h : t.shape.Within index) : @get β a t index = @get β b t index := by
  have hlt : t.shape.offset index < t.entries.size := by
    rw [t.size_entries]
    exact Shape.offset_lt h
  unfold get Array.getD
  rw [dif_pos hlt, dif_pos hlt]

theorem IsChain.get_eq {β : Type} [Inhabited β] {n i : Nat} {y z : Tensor β}
    (h : IsChain n i [] y z) (hy : y.shape = [n]) (hi : i < n) : y.get [i] = z.get [0] := by
  have hwithin : Shape.Within [] [] := trivial
  have hchain := h.chain
  rw [chain_of_lt hy hi, chain_of_single h.shape] at hchain
  rw [← get_row hy hwithin, ← hchain, get_row h.shape hwithin]

end Tensor

/-!
# Environments of a run and of its chains

A graph that is compiled from nodes of a model is run with all chains, and with one of them
alone.  Both environments are faithful, and each entry of the second one is a row of the
first.
-/

namespace Workspace

structure CompilesModel (w : Workspace) (d : Dag) : Prop where
  model : w.IsModel
  sorts : w.Sorts d
  nodes : forall id, id ∈ d.nodes -> (w.node? id).isSome = true

theorem compilesModel_of_built {w : Workspace} {starts : List NodeId} {d : Dag}
    (hbuilt : w.Built Models) (hstarts : forall s, s ∈ starts -> (w.node? s).isSome = true)
    (hcompile : w.compile starts = .ok d) : w.CompilesModel d := by
  refine ⟨isModel_of_built hbuilt, sorts_of_compile hcompile, ?_⟩
  intro id hid
  exact (mutual_of_models hbuilt).closed.isSome_of_mem_compile hstarts hcompile hid

variable {w : Workspace} {d : Dag} {fed fed' : List (NodeId × Value)}
  {free free' : NodeId → Option (Except Refusal (Tensor α))} {n i : Nat} {id : NodeId}
  {m : Node}

theorem Splits.rows (h : w.Splits d fed fed' free free' n i) (hid : id ∈ d.nodes) {k : Nat}
    (hk : w.rows? fed free id = some k) : k = 1 ∨ k = n := by
  rcases source_of_rows? hk with ⟨m, hm, hrole, hsource⟩ | ⟨m, b, c, size, t, hm, hrole, ht, hhead⟩
  · rcases h.data id m hid hm (Node.isData_of_role hrole) with ⟨v, v', hv, _, hchain⟩
    rcases hsource with hone | ⟨u, s, hu, hs, hhead⟩
    · exact Or.inl hone
    · rw [hv] at hu
      cases hu
      cases hchain with
      | own =>
          rw [Value.shape_array, NumericArray.shape_addBatchAxis] at hs
          cases hs
          exact Or.inl (Option.some.inj hhead).symm
      | given t u ht _ =>
          have hshape : (NumericArray.floats .double t).shape = n :: m.dim := ht
          rw [Value.shape_array, hshape] at hs
          cases hs
          exact Or.inr (Option.some.inj hhead).symm
  · rcases h.frees id m (mem_latents hid hm hrole) hm with ⟨u, _, hu, _, hshape, _⟩
    rw [hu] at ht
    cases ht
    rw [hshape] at hhead
    exact Or.inr (Option.some.inj hhead).symm

theorem Splits.supplies (h : w.Splits d fed fed' free free' n i) (hfeeds : w.FeedsData d fed) :
    w.Supplies d fed free n := by
  refine ⟨h.mode, hfeeds, ?_, fun id hid k hk => h.rows hid hk⟩
  intro id hid
  rcases exists_node_of_has (mem_select.mp hid).2 with ⟨m, hm, _⟩
  rcases h.frees id m hid hm with ⟨t, _, ht, _, hshape, _⟩
  refine ⟨t, n, ht, ?_⟩
  rw [hm]
  exact hshape

end Workspace

namespace Environment

open Workspace

variable [CustomCode α] {w : Workspace} {d : Dag} {fed fed' : List (NodeId × Value)}
  {free free' : NodeId → Option (Except Refusal (Tensor α))} {n i : Nat} {id : NodeId}
  {m : Node} {e e' : Environment α}

theorem Faithful.mem_nodes (h : e.Faithful w d fed free) {x : Entry α}
    (hx : e.get? id .value = some x) : id ∈ d.nodes := by
  have hkey := h.keys.mem_iff.mp (mem_keys_of_get? hx)
  unfold Dag.entryKeys at hkey
  simpa using hkey

omit [Scalar α] [CustomCode α] in
theorem get?_of_argument {t : Tensor α} (h : e.argument .value id = .tensor t) :
    e.get? id .value = some (.tensor t) := by
  unfold argument at h
  cases hx : e.get? id .value with
  | none =>
      rw [hx] at h
      cases h
  | some x =>
      rw [hx] at h
      cases x with
      | density y => cases h
      | tensor u =>
          cases h
          rfl

theorem Faithful.get?_of_evaluate (h : e.Faithful w d fed free) (hid : id ∈ d.nodes)
    (hm : w.node? id = some m) (hkind : m.isDistribution = false) {t : Tensor α}
    (ht : w.evaluate fed free id = some t) : e.get? id .value = some (.tensor t) := by
  rcases h.values id hid (by rw [has_of_node? hm, hkind]) with ⟨u, hu, hget⟩
  rw [ht] at hu
  cases hu
  exact hget

theorem exists_chain_adjustment (hi : i < n) (hmodel : w.IsModel)
    (hwidths : w.HasWidths α d)
    (h : w.Splits d fed fed' free free' n i) (he : e.Faithful w d fed free)
    (he' : e'.Faithful w d fed' free') (hid : id ∈ d.latents w) :
    ∃ t u, e.get? id .adjustment = some (.tensor t) ∧
      e'.get? id .adjustment = some (.tensor u) ∧ t.shape = [n] ∧ IsChain n i [] t u := by
  rcases exists_node_of_has (mem_select.mp hid).2 with ⟨m, hm, hlatent⟩
  rcases Node.role_of_isLatent hlatent with ⟨b, c, hrole⟩
  have hwidth := hwidths.width (mem_select.mp hid).1 hm hrole
  rcases adjustment_latent_rows hwidth (hmodel id m hm) hm hrole with ⟨g, hg⟩
  rcases h.frees id m hid hm with ⟨t, u, ht, hu, hshape, hchain⟩
  rcases hg free t n ht hshape with ⟨r, hr, hrshape, hrow⟩
  rcases hg free' u 1 hu hchain.shape with ⟨q, hq, hqshape, hrow'⟩
  rcases he.adjustments id hid with ⟨r', hr', hget⟩
  rcases he'.adjustments id hid with ⟨q', hq', hget'⟩
  rw [hr] at hr'
  rw [hq] at hq'
  cases hr'
  cases hq'
  exact ⟨r, q, hget, hget', hrshape,
    hchain.of_rows hi hshape hrshape hrow hqshape (hrow' 0 Nat.one_pos)⟩

theorem hasChain_of_splits (hi : i < n) (hd : w.CompilesModel d) (hwidths : w.HasWidths α d)
    (h : w.Splits d fed fed' free free' n i) {p : Precision}
    (hp : w.settings.tensorPrecision w.wide = .ok p) (he : e.Faithful w d fed free)
    (he' : e'.Faithful w d fed' free') : HasChain w d n i e e' := by
  constructor
  · intro id hsome
    rcases Option.isSome_iff_exists.mp hsome with ⟨x', hx'⟩
    have hid := he'.mem_nodes hx'
    rcases Option.isSome_iff_exists.mp (hd.nodes id hid) with ⟨m, hm⟩
    cases hkind : m.isDistribution with
    | true =>
        have hget := he.densities id hid (by rw [has_of_node? hm, hkind])
        have hget' := he'.densities id hid (by rw [has_of_node? hm, hkind])
        refine ⟨by rw [hget]; rfl, m, hm, ?_⟩
        rw [argument_of_get? hget, argument_of_get? hget']
        exact Argument.IsChain.density id
    | false =>
        rcases exists_chain hi hd.model hd.sorts h hp id hid m hm hkind with
          ⟨t, u, ht, hu, hchain⟩
        have hget := he.get?_of_evaluate hid hm hkind ht
        have hget' := he'.get?_of_evaluate hid hm hkind hu
        refine ⟨by rw [hget]; rfl, m, hm, ?_⟩
        rw [argument_of_get? hget, argument_of_get? hget']
        exact Argument.IsChain.tensor t u hchain
  · intro id y hy
    have hid := he'.mem_nodes hy
    cases hkind : w.has Node.isDistribution id with
    | true =>
        rw [he'.densities id hid hkind] at hy
        cases hy
        rfl
    | false =>
        rcases he'.values id hid hkind with ⟨u, _, hget⟩
        rw [hget] at hy
        cases hy
  · intro id hid
    exact exists_chain_adjustment hi hd.model hwidths h he he' hid

theorem head?_of_isSteady (hd : w.CompilesModel d) (hsupplies : w.Supplies d fed free n)
    {p : Precision} (hp : w.settings.tensorPrecision w.wide = .ok p)
    (he : e.Faithful w d fed free) (hsteady : n = 1 ∨ w.IsSteady fed free n id)
    (hm : w.node? id = some m) {q : NodeId} (hq : q ∈ m.role.reads) {t : Tensor α}
    (ht : e.argument .value q = .tensor t) : t.shape.head? = some 1 := by
  have hget := get?_of_argument ht
  have hid := he.mem_nodes hget
  rcases Option.isSome_iff_exists.mp (hd.nodes q hid) with ⟨k, hk⟩
  cases hkind : k.isDistribution with
  | true =>
      rw [he.densities q hid (by rw [has_of_node? hk, hkind])] at hget
      cases hget
  | false =>
      rcases exists_shaped hd.model hd.sorts hsupplies hp q hid k hk hkind with ⟨u, j, hu⟩
      rw [he.get?_of_evaluate hid hk hkind hu.evaluate] at hget
      cases hget
      have hj : j = 1 := by
        rcases hsteady with rfl | hsteady
        · rcases hu.rows with hone | hone
          · exact hone
          · exact hone
        · exact hu.batch.single (hsteady m hm q hq)
      rw [hu.shape, hj, List.head?_cons]

theorem joint_chain (hi : i < n) (hd : w.CompilesModel d) (hprescribed : w.Prescribed)
    (hwidths : w.HasWidths α d)
    (h : w.Splits d fed fed' free free' n i) (hsupplies : w.Supplies d fed free n)
    {p : Precision} (hp : w.settings.tensorPrecision w.wide = .ok p)
    (he : e.Faithful w d fed free) (he' : e'.Faithful w d fed' free')
    (hlatents : d.latents w ≠ [])
    (hlevel : forall id, id ∈ d.distributions w ->
      w.IsLevel id ∨ n = 1 ∨ w.IsSteady fed free n id)
    {z : Tensor α} (hz : e'.joint w (d.distributions w) (d.latents w) = .ok z) :
    ∃ y, e.joint w (d.distributions w) (d.latents w) = .ok y ∧ y.shape = [n] ∧
      z.shape = [1] ∧ y.get [i] = z.get [0] := by
  have hchain := hasChain_of_splits hi hd hwidths h hp he he'
  have hsingle : forall id, id ∈ d.distributions w -> w.IsLevel id ∨
      forall m, w.node? id = some m -> forall q, q ∈ m.role.reads ->
        forall t, e.argument .value q = .tensor t -> t.shape.head? = some 1 := by
    intro id hid
    rcases hlevel id hid with hlevel | hsteady
    · exact Or.inl hlevel
    · right
      intro m hm q hq t ht
      exact head?_of_isSteady hd hsupplies hp he hsteady hm hq ht
  rcases joint_isChain hi hp hprescribed hchain hlatents hsingle hz with ⟨y, hy, hshape, hyz⟩
  exact ⟨y, hy, hshape, hyz.shape, hyz.get_eq hshape hi⟩

end Environment

/-!
# Log-densities
-/

namespace Action

open Workspace

variable {w v : Workspace} {d : Dag} {n i : Nat}
  {free free' : List (Int × Value)} {data data' : List (Value × Value)} {z : Tensor Number}

theorem exists_splits [CustomCode Number] (hd : w.CompilesModel d) (hi : i < n)
    (hfree : List.Forall₂ (Value.IsFreeRow n i) free free')
    (hdata : List.Forall₂ (w.FeedsRow n i) data data')
    (hrun : (logDensity d free' data' true).run w = (.ok z, v)) :
    w.settings.validate w.written w.wide = .ok () ∧
      ∃ fed fed', ∃ e : Environment Number, (feed d data).run w = (.ok fed, v) ∧
        w.Splits d fed fed' (w.freeOf free) (w.freeOf free') n i ∧
        e.Faithful w d fed' (w.freeOf free') ∧
        e.joint w (d.distributions w) (d.latents w) = .ok z := by
  rcases exists_of_logDensity hrun with ⟨fed', e, hfeed', he, hjoint⟩
  rcases exists_feed hi hdata hfeed' with ⟨fed, hfeed, hpairs⟩
  have hsettings := Dag.validate_of_environment he
  have hfeeds' : w.FeedsData d fed' := ((ends_feed d data').of_ok hfeed').2
  have hfaithful : e.Faithful w d fed' (w.freeOf free') :=
    (Dag.environment_ends hd.sorts (fun id n _ => hd.model.findsArguments) hfeeds' _).1 e he
  rcases precision_of_validate hsettings with ⟨p, hp⟩
  refine ⟨hsettings, fed, fed', e, hfeed, ⟨hfaithful.knowsMode, hpairs, ?_⟩, hfaithful, hjoint⟩
  intro id m hid hm
  exact exists_free_chain hp hi hfree hm (Dag.acceptsFree_of_environment he hid)

/-- If every chain of a state has a log-density, then so has the state, and its entries are
those of the chains.  The parameters of an elementwise distribution have as many axes as the
distribution, or nothing that the distribution reads varies from chain to chain.  As in every
model, edges are drawn by hand at distribution nodes only, and all arrays have fewer than
`2 ^ 63` entries. -/
theorem logDensity_chains [CustomCode Number] {starts : List NodeId}
    {frees : Nat → List (Int × Value)}
    {datas : Nat → List (Value × Value)} (hbuilt : w.Built ModelsDeclared)
    (hstarts : forall s, s ∈ starts -> (w.node? s).isSome = true)
    (hcompile : w.compile starts = .ok d) (hlatents : d.latents w ≠ []) (hn : 0 < n)
    (hfree : forall i, i < n -> List.Forall₂ (Value.IsFreeRow n i) free (frees i))
    (hdata : forall i, i < n -> List.Forall₂ (w.FeedsRow n i) data (datas i))
    (hchains : forall i, i < n ->
      ∃ z v, (logDensity d (frees i) (datas i) true).run w = (.ok z, v))
    (hlevel : forall id, id ∈ d.distributions w -> w.IsLevel id ∨ n = 1 ∨
      forall fed v, (feed d data).run w = (.ok fed, v) ->
        w.IsSteady fed (w.freeOf free) n id) :
    ∃ y v, (logDensity d free data true).run w = (.ok y, v) ∧ y.shape = [n] ∧
      forall i, i < n -> ∃ z, (logDensity d (frees i) (datas i) true).run w = (.ok z, v) ∧
        z.shape = [1] ∧ y.get [i] = z.get [0] := by
  have hd := compilesModel_of_built (hbuilt.mono fun _ _ h => h.1) hstarts hcompile
  rcases hchains 0 hn with ⟨_, v, hzero⟩
  rcases exists_splits hd hn (hfree 0 hn) (hdata 0 hn) hzero with
    ⟨hsettings, fed, _, _, hfeed, hsplits, _⟩
  have hsupplies := hsplits.supplies ((ends_feed d data).of_ok hfeed).2
  rcases precision_of_validate hsettings with ⟨p, hp⟩
  have hwidths := hasWidths_of_isModel hd.model d
  rcases exists_environment hwidths hd.model hd.sorts hd.nodes hsupplies hsettings with
    ⟨e, he, hfaithful⟩
  have hsteady : forall id, id ∈ d.distributions w ->
      w.IsLevel id ∨ n = 1 ∨ w.IsSteady fed (w.freeOf free) n id := by
    intro id hid
    rcases hlevel id hid with hlevel | hone | hsteady
    · exact Or.inl hlevel
    · exact Or.inr (Or.inl hone)
    · exact Or.inr (Or.inr (hsteady fed v hfeed))
  have hentries : forall i, i < n -> ∃ y z : Tensor Number,
      e.joint w (d.distributions w) (d.latents w) = .ok y ∧ y.shape = [n] ∧
        (logDensity d (frees i) (datas i) true).run w = (.ok z, v) ∧ z.shape = [1] ∧
          y.get [i] = z.get [0] := by
    intro i hi
    rcases hchains i hi with ⟨z, v', hrun⟩
    rcases exists_splits hd hi (hfree i hi) (hdata i hi) hrun with
      ⟨_, fed', _, e', hfeed', hsplits', hfaithful', hjoint⟩
    -- The feed of the run is the same beside every chain.
    rw [hfeed] at hfeed'
    cases hfeed'
    rcases Environment.joint_chain hi hd (prescribed_of_built hbuilt) hwidths hsplits' hsupplies
      hp hfaithful hfaithful' hlatents hsteady hjoint with ⟨y, hy, hshape, hsingle, hentry⟩
    have hfull : y.shape.Within [i] := by
      rw [hshape]
      exact ⟨hi, trivial⟩
    have hone : z.shape.Within [0] := by
      rw [hsingle]
      exact ⟨Nat.one_pos, trivial⟩
    exact ⟨y, z, hy, hshape, hrun, hsingle,
      (get_inhabited hfull).trans (hentry.trans (get_inhabited hone))⟩
  rcases hentries 0 hn with ⟨y, _, hy, hshape, _⟩
  refine ⟨y, v, ?_, hshape, ?_⟩
  · rw [run_logDensity_of_feed hfeed, Dag.jointAt_of_environment he, d.jointIn_eq]
    exact congrArg (fun x => (x, v)) hy
  · intro i hi
    rcases hentries i hi with ⟨y', z, hy', _, hrun, hsingle, hentry⟩
    rw [hy] at hy'
    cases hy'
    exact ⟨z, hrun, hsingle, hentry⟩

/-!
A variable has a standard normal distribution.  With two axes its chains are independent.
With more axes the chains of the parameters, of which there are as many as chains of the
variable, are lined up with the wrong axis.
-/

def standard (dim : List Value) : Workspace :=
  after (empty { floatType := .text "float64" } true)
    (.declare .normal [.float 0.0, .float 1.0] [("dim", .tuple dim)])

def standardDag : Dag :=
  ⟨[0, 1, 3, 2], [(3, 2), (0, 2), (1, 2)]⟩

theorem built_standard {dim : List Value}
    (h : (empty { floatType := .text "float64" } true).returns
      (.declare .normal [.float 0.0, .float 1.0] [("dim", .tuple dim)]) = true)
    (hmemory : (standard dim).InMemory) : (standard dim).Built ModelsDeclared := by
  refine (Built.empty { floatType := .text "float64" } true).call _ ⟨⟨?_, hmemory⟩, ?_⟩
    (run_of_returns h)
  · intro a ha
    simp [Call.operands] at ha
  · rintro id x name ⟨⟩

def table : Tensor Float :=
  ofFn [2, 2] fun index => Float.ofNat index.sum

def means : Tensor Float :=
  ofFn [2, 1, 1] fun index => Float.ofNat index.sum

theorem feedsRow_means {i : Nat} (hi : i < 2) :
    (standard [.int 1, .int 2]).FeedsRow 2 i (.node 0, .ofTensor means)
      (.node 0, .rowOf means i) := by
  refine ⟨rfl, ?_⟩
  intro id m hkey hm
  have hid : id = 0 := by
    rcases hkey with hkey | hkey
    · cases hkey
      rfl
    · cases hkey
  have hdim : ((standard [.int 1, .int 2]).node? 0).map Node.dim = some [1, 1] := by
    decide +kernel
  rw [hid] at hm
  rw [hm, Option.map_some, Option.some.injEq] at hdim
  rw [hdim]
  exact Or.inl (Value.isRow_rowOf rfl hi)

attribute [local instance] CustomCode.refusing

/-- Two chains, with a mean of its own fed for each of them. -/
theorem logDensity_chains_standard :
    ∃ y v, (logDensity standardDag [(3, .ofTensor table)] [(.node 0, .ofTensor means)]
        true).run (standard [.int 1, .int 2]) = (.ok y, v) ∧ y.shape = [2] ∧
      forall i, i < 2 -> ∃ z, (logDensity standardDag [(3, .rowOf table i)]
          [(.node 0, .rowOf means i)] true).run (standard [.int 1, .int 2]) = (.ok z, v) ∧
        z.shape = [1] ∧ y.get [i] = z.get [0] := by
  have hcompile : (standard [.int 1, .int 2]).compile [3] = .ok standardDag :=
    compile_eq [0, 1, 2, 3] rfl (component_of_visitWithin? 16 (by decide +kernel))
      (by decide +kernel) (by decide +kernel) (by decide) (by decide +kernel)
      (by decide +kernel)
  apply logDensity_chains (built_standard (by decide +kernel) (by decide +kernel)) _ hcompile
    (by decide +kernel)
    (by decide)
  · intro i hi
    exact List.Forall₂.cons ⟨rfl, [2], Value.isRow_rowOf rfl hi⟩ List.Forall₂.nil
  · intro i hi
    exact List.Forall₂.cons (feedsRow_means hi) List.Forall₂.nil
  · intro i hi
    apply exists_run_of_isOk
    have hcases : i = 0 ∨ i = 1 := by omega
    rcases hcases with rfl | rfl
    · decide +kernel
    · decide +kernel
  · intro id hid
    have hdistributions : standardDag.distributions (standard [.int 1, .int 2]) = [2] := by
      decide +kernel
    rw [hdistributions, List.mem_singleton] at hid
    rw [hid]
    exact Or.inl (by decide +kernel)
  · intro s hs
    rw [List.mem_singleton.mp hs]
    decide +kernel

/-- A state of three rows has no log-density although each of its rows has one. -/
theorem not_chains_standard :
    ¬forall (w : Workspace) (starts : List NodeId) (d : Dag) (n : Nat)
      (free : List (Int × Value)) (data : List (Value × Value))
      (frees : Nat → List (Int × Value)) (datas : Nat → List (Value × Value)),
      w.Built ModelsDeclared -> (forall s, s ∈ starts -> (w.node? s).isSome = true) ->
        w.compile starts = .ok d -> d.latents w ≠ [] -> 0 < n ->
          (forall i, i < n -> List.Forall₂ (Value.IsFreeRow n i) free (frees i)) ->
          (forall i, i < n -> List.Forall₂ (w.FeedsRow n i) data (datas i)) ->
          (forall i, i < n ->
            ∃ z v, (logDensity d (frees i) (datas i) true).run w = (.ok z, v)) ->
          ∃ y v, (logDensity d free data true).run w = (.ok y, v) := by
  intro h
  have hcompile : (standard [.int 2, .int 2, .int 2]).compile [3] = .ok standardDag :=
    compile_eq [0, 1, 2, 3] rfl (component_of_visitWithin? 16 (by decide +kernel))
      (by decide +kernel) (by decide +kernel) (by decide) (by decide +kernel)
      (by decide +kernel)
  have hfails : ((logDensity standardDag [(3, .ofTensor (Tensor.full [3, 8] 0.0))] []
      true).run (standard [.int 2, .int 2, .int 2])).1.isOk = false := by
    decide +kernel
  have hsucceeds := h (standard [.int 2, .int 2, .int 2]) [3] standardDag 3
    [(3, .ofTensor (Tensor.full [3, 8] 0.0))] []
    (fun i => [(3, .rowOf (Tensor.full [3, 8] 0.0) i)]) (fun _ => [])
    (built_standard (by decide +kernel) (by decide +kernel))
    (fun s hs => by
      rw [List.mem_singleton.mp hs]
      decide +kernel)
    hcompile (by decide +kernel) (by decide)
    (fun i hi => List.Forall₂.cons ⟨rfl, [8], Value.isRow_rowOf rfl hi⟩ List.Forall₂.nil)
    (fun _ _ => List.Forall₂.nil)
    (fun i hi => by
      apply exists_run_of_isOk
      have hcases : i = 0 ∨ i = 1 ∨ i = 2 := by omega
      rcases hcases with rfl | rfl | rfl
      · decide +kernel
      · decide +kernel
      · decide +kernel)
  rcases hsucceeds with ⟨y, v, hrun⟩
  rw [hrun] at hfails
  cases hfails

end Action
end DensityGraph
