import DensityGraph.Proofs.Evaluation.Shape
/-!
# The chains of a run

Next to a run in which the free tensors have `n` rows stand runs of single rows, one for
each position.  In every tensor of the run, what stands for a position is the only row of
the tensor that the run of this position has in its place.
-/

namespace DensityGraph

open Tensor

inductive Node.FeedsChain (m : Node) (n i : Nat) : Value → Value → Prop where
  | own : FeedsChain m n i (.array false m.value.array.addBatchAxis)
      (.array false m.value.array.addBatchAxis)
  | given (t u : Tensor Float) : t.shape = n :: m.dim -> IsChain n i m.dim t u ->
      FeedsChain m n i (.array false (.floats .double t)) (.array false (.floats .double u))

namespace Workspace

variable {α : Type} [Scalar α]

structure Splits (w : Workspace) (d : Dag) (fed fed' : List (NodeId × Value))
    (free free' : NodeId → Option (Except Refusal (Tensor α))) (n i : Nat) : Prop where
  mode : w.KnowsMode d
  data : forall id m, id ∈ d.nodes -> w.node? id = some m -> m.isData = true ->
    ∃ v v', fed.lookup id = some v ∧ fed'.lookup id = some v' ∧ m.FeedsChain n i v v'
  frees : forall id m, id ∈ d.latents w -> w.node? id = some m ->
    ∃ t u, free id = some (.ok t) ∧ free' id = some (.ok u) ∧ t.shape = [n, m.freeSize] ∧
      IsChain n i [m.freeSize] t u

variable [CustomCode α] {w : Workspace} {d : Dag} {fed fed' : List (NodeId × Value)}
  {free free' : NodeId → Option (Except Refusal (Tensor α))} {n i : Nat} {id : NodeId}
  {m : Node}

/-!
# Single nodes
-/

theorem exists_chain_data (hi : i < n) {p : Precision}
    (hp : w.settings.tensorPrecision w.wide = .ok p) (hm : w.node? id = some m)
    (hdescribes : w.Describes m) (hrole : m.role = .data)
    (hmode : ∃ on, w.settings.dataAsConstants.truth = .ok on) {v v' : Value}
    (hv : fed.lookup id = some v) (hv' : fed'.lookup id = some v') (h : m.FeedsChain n i v v') :
    ∃ t u, w.evaluate fed free id = some t ∧ w.evaluate fed' free' id = some u ∧
      IsChain n i m.dim t u := by
  rcases tensorOf_own (α := α) hp hdescribes hrole with ⟨_, s, hs, hown⟩
  rw [evaluate_data hm hrole, evaluate_data hm hrole]
  unfold dataTensor
  rcases hmode with ⟨on, hon⟩
  rw [hon]
  cases on with
  | true =>
      simp only
      rw [hs]
      exact ⟨s, s, rfl, rfl, isChain_self hown⟩
  | false =>
      rw [hv, hv']
      cases h with
      | own =>
          simp only
          rw [hs]
          exact ⟨s, s, rfl, rfl, isChain_self hown⟩
      | given t u ht hchain =>
          have hreadable : forall r : Tensor Float, w.tensorOf (α := α)
              (.array false (.floats .double r)) = .ok (r.map (Scalar.constant p)) :=
            fun r => tensorOf_array hp (NumericArray.isReadable_ofFloats r) false
          simp only
          rw [hreadable, hreadable]
          exact ⟨_, _, rfl, rfl, hchain.map _ hi⟩

theorem exists_chain_latent (hi : i < n) (hdescribes : w.Describes m) (hm : w.node? id = some m)
    {b : Interval} {c : Constraint} {size : Nat} (hrole : m.role = .latent b c size)
    {t u : Tensor α} (hfree : free id = some (.ok t)) (hfree' : free' id = some (.ok u))
    (h : IsChain n i [size] t u) :
    ∃ r q, w.evaluate fed free id = some r ∧ w.evaluate fed' free' id = some q ∧
      IsChain n i m.dim r q := by
  rcases evaluate_latent_rows (α := α) hdescribes hm hrole with ⟨g, hg⟩
  rcases h.rows with ⟨k, ht, _⟩
  rcases hg fed free t k hfree ht with ⟨r, hr, hshape, hrow⟩
  rcases hg fed' free' u 1 hfree' h.shape with ⟨q, hq, hshape', hrow'⟩
  exact ⟨r, q, hr, hq, h.of_rows hi ht hshape hrow hshape' (hrow' 0 Nat.one_pos)⟩

omit [CustomCode α] in
theorem exists_chain_tensors {f f' : NodeId → Option (Tensor α)} {arguments : List NodeId}
    {ds : List Shape} (hds : w.dims? arguments = some ds)
    (h : forall a k, a ∈ arguments -> w.node? a = some k ->
      ∃ t u, f a = some t ∧ f' a = some u ∧ IsChain n i k.dim t u) :
    ∃ ts us, arguments.mapM f = some ts ∧ arguments.mapM f' = some us ∧
      List.Forall₂ (fun t d => HasRows n d t) ts ds ∧
      List.Forall₂ (fun u d => HasRows 1 d u) us ds ∧
      (ts.map fun t => t.chain i) = us.map fun u => u.chain 0 := by
  induction arguments generalizing ds with
  | nil =>
      cases hds
      exact ⟨[], [], rfl, rfl, List.Forall₂.nil, List.Forall₂.nil, rfl⟩
  | cons a arguments ih =>
      rcases exists_of_dims? hds with ⟨k, es, hk, hes, rfl⟩
      rcases h a k List.mem_cons_self hk with ⟨t, u, ht, hu, hchain⟩
      rcases ih hes fun a k ha => h a k (List.mem_cons_of_mem _ ha) with
        ⟨ts, us, hts, hus, hrows, hrows', heq⟩
      refine ⟨t :: ts, u :: us, ?_, ?_, List.Forall₂.cons hchain.rows hrows,
        List.Forall₂.cons ⟨1, hchain.shape, Or.inl rfl⟩ hrows', ?_⟩
      · rw [List.mapM_cons, ht, hts]
        rfl
      · rw [List.mapM_cons, hu, hus]
        rfl
      · rw [List.map_cons, List.map_cons, heq, hchain.chain]

theorem exists_chain_operation (hi : i < n) (hmodel : w.IsModel) (hm : w.node? id = some m)
    (hoperation : m.isOperation = true)
    (harguments : forall a k, a ∈ m.arguments -> w.node? a = some k ->
      ∃ t u, w.evaluate fed free a = some t ∧ w.evaluate fed' free' a = some u ∧
        IsChain n i k.dim t u) :
    ∃ r q, w.evaluate fed free id = some r ∧ w.evaluate fed' free' id = some q ∧
      IsChain n i m.dim r q := by
  rcases isOperation_of_declares ((hmodel id m hm).declared hoperation) with
    ⟨o, arguments, ds, hrole, hds, hdeclares⟩
  rw [Node.arguments_of_operation hrole] at harguments
  rcases (hdeclares.rowWise (α := α) (hmodel.isDim_of_dims? hds)
    (hmodel id m hm).inMemory).2 with ⟨g, hg⟩
  rcases exists_chain_tensors hds harguments with ⟨ts, us, hts, hus, hrows, hrows', heq⟩
  rcases evaluate_operation_rows hg hm hrole hts hrows with ⟨r, hr, hshape, hchain⟩
  rcases evaluate_operation_rows hg hm hrole hus hrows' with ⟨q, hq, hshape', hchain'⟩
  refine ⟨r, q, hr, hq, ⟨batch n ts, hshape, ?_⟩, ?_, ?_⟩
  · rcases batch_eq n ts with ⟨hn, _⟩ | ⟨hone, _⟩
    · exact Or.inr hn
    · exact Or.inl hone
  · rw [hshape', batch_one]
  · rw [hchain i hi, hchain' 0 Nat.one_pos, heq]

/-!
# Every node of a graph
-/

theorem exists_chain (hi : i < n) (hmodel : w.IsModel) (hsorts : w.Sorts d)
    (hsplits : w.Splits d fed fed' free free' n i) {p : Precision}
    (hp : w.settings.tensorPrecision w.wide = .ok p) :
    forall id, id ∈ d.nodes -> forall m, w.node? id = some m -> m.isDistribution = false ->
      ∃ t u, w.evaluate fed free id = some t ∧ w.evaluate fed' free' id = some u ∧
        IsChain n i m.dim t u := by
  apply hmodel.induction hsorts (P := fun id m => ∃ t u, w.evaluate fed free id = some t ∧
    w.evaluate fed' free' id = some u ∧ IsChain n i m.dim t u)
  · intro id m hid hm hrole
    rcases hsplits.data id m hid hm (Node.isData_of_role hrole) with ⟨v, v', hv, hv', hchain⟩
    have hmode := hsplits.mode.truth hid hm (Node.isData_of_role hrole)
    exact exists_chain_data hi hp hm (hmodel id m hm) hrole hmode hv hv' hchain
  · intro id m b c size hid hm hrole
    rcases hsplits.frees id m (mem_latents hid hm hrole) hm with ⟨t, u, ht, hu, _, hchain⟩
    rw [(Node.isLatent_of_role hrole).2] at hchain
    exact exists_chain_latent hi (hmodel id m hm) hm hrole ht hu hchain
  · intro id m hm hoperation harguments
    exact exists_chain_operation hi hmodel hm hoperation harguments

end Workspace
end DensityGraph
