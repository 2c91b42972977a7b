import DensityGraph.Proofs.Evaluation.Chains
import DensityGraph.Proofs.Evaluation.Matched
import DensityGraph.Proofs.Evaluation.Total
import DensityGraph.Proofs.Graph.Prescribed
/-!
# Independent chains

The joint density of a run has one entry for each chain.  As long as the parameters of
elementwise distributions have as many axes as the distributions, each entry is the density
that the run of the chain alone has.
-/

namespace DensityGraph

open Tensor

variable {α : Type} [Scalar α]

/-!
# Entries of two runs
-/

namespace Environment

structure HasChain (w : Workspace) (d : Dag) (n i : Nat) (e e' : Environment α) : Prop where
  values : forall id, (e'.get? id .value).isSome = true -> (e.get? id .value).isSome = true ∧
    ∃ m, w.node? id = some m ∧
      Argument.IsChain n i m.dim (e.argument .value id) (e'.argument .value id)
  densities : forall id y, e'.get? id .value = some (.density y) -> y = id
  adjustments : forall id, id ∈ d.latents w ->
    ∃ t u, e.get? id .adjustment = some (.tensor t) ∧
      e'.get? id .adjustment = some (.tensor u) ∧ t.shape = [n] ∧ IsChain n i [] t u

end Environment

/-!
# Sums of terms
-/

theorem exists_terms {f f' : NodeId → Except Failure (Argument α)} {ids : List NodeId}
    {terms' : List (Argument α)} {n i : Nat} (h : ids.mapM f' = .ok terms')
    (hterms : forall id, id ∈ ids -> forall a, f' id = .ok a ->
      ∃ t u, f id = .ok (.tensor t) ∧ a = .tensor u ∧ IsChain n i [] t u) :
    ∃ pairs : List (Tensor α × Tensor α),
      ids.mapM f = .ok (pairs.map fun q => .tensor q.1) ∧
        terms' = pairs.map (fun q => .tensor q.2) ∧
        forall q, q ∈ pairs -> IsChain n i [] q.1 q.2 := by
  rw [mapM_eq_ok_iff] at h
  induction h with
  | nil => exact ⟨[], rfl, rfl, nofun⟩
  | @cons id a ids rest hfirst _ ih =>
      rcases hterms id List.mem_cons_self a hfirst with ⟨t, u, ht, rfl, hchain⟩
      rcases ih fun id hid => hterms id (List.mem_cons_of_mem _ hid) with
        ⟨pairs, hpairs, rfl, hchains⟩
      refine ⟨(t, u) :: pairs, ?_, rfl, ?_⟩
      · rw [List.mapM_cons, ht, hpairs]
        rfl
      · intro q hq
        rcases List.mem_cons.mp hq with rfl | hq
        · exact hchain
        · exact hchains q hq

theorem sumOf_rowWise {ι : Type} {ids : List ι} (hne : ids ≠ []) :
    RowWise (α := α) (ε := Failure)
      (fun ts => .ok (Tensor.sumOf (ts.headD default).shape ts)) (ids.map fun _ => []) [] := by
  refine ⟨fun rows => scalar (Scalar.sum (rows.map fun r => r.get [])), ?_⟩
  intro k ts hts
  have hall : forall u, u ∈ ts -> u.shape = [k] := by
    intro u hu
    rcases exists_right_of_forall₂ hts hu with ⟨d, hd, hshape⟩
    rcases List.mem_map.mp hd with ⟨_, _, rfl⟩
    exact hshape
  cases ts with
  | nil => exact absurd (List.map_eq_nil_iff.mp (List.forall₂_nil_left_iff.mp hts)) hne
  | cons t ts =>
      have ht : t.shape = [k] := hall t List.mem_cons_self
      refine ⟨_, rfl, ht, ?_⟩
      intro i hi
      have hsum : Tensor.sumOf t.shape (t :: ts) =
          ofFn [k] fun index => Scalar.sum ((t :: ts).map fun u => u.get index) := by
        unfold Tensor.sumOf
        rw [ht]
      have hrows : ((t :: ts).map fun u => u.row i).map (fun r => r.get []) =
          (t :: ts).map fun u => u.get [i] := by
        rw [List.map_map]
        apply List.map_congr_left
        intro u hu
        exact get_row (hall u hu) trivial
      change (Tensor.sumOf t.shape (t :: ts)).row i =
        scalar (Scalar.sum (((t :: ts).map fun u => u.row i).map fun r => r.get []))
      rw [hsum, row_single _ hi, hrows]

namespace Environment

variable {n i : Nat} {pairs : List (Tensor α × Tensor α)}

theorem sumTerms_of_shape {zero : Tensor α} {ts : List (Tensor α)} {args : List (Argument α)}
    {k : Nat} (hne : ts ≠ []) (hargs : Batched.reconciled args = .ok (ts.map Argument.tensor))
    (hts : forall t, t ∈ ts -> t.shape = [k]) :
    sumTerms zero args = .ok (Tensor.sumOf (ts.headD default).shape ts) := by
  have hhead : (ts.headD default).shape = [k] := by
    cases ts with
    | nil => exact absurd rfl hne
    | cons t ts => exact hts t List.mem_cons_self
  rw [sumTerms_ok_iff hargs]
  exact Or.inr ⟨hne, fun u hu => (hts u hu).trans hhead.symm, rfl⟩

theorem reconciled_rows (hpairs : forall q, q ∈ pairs -> IsChain n i [] q.1 q.2)
    (hfull : ∃ q, q ∈ pairs ∧ q.1.shape = [n]) :
    Batched.reconciled (pairs.map fun q => .tensor q.1) =
      .ok ((pairs.map fun q => q.1.matched n).map Argument.tensor) := by
  rcases hfull with ⟨q₀, hq₀, hshape₀⟩
  have hrows : Batched.reconcile ((pairs.map Prod.fst).map Argument.tensor) = _ :=
    reconcile_rows (n := n) fun t ht => by
      rcases List.mem_map.mp ht with ⟨q, hq, rfl⟩
      exact ⟨[], (hpairs q hq).rows⟩
  have hbatch : batch n (pairs.map Prod.fst) = n := by
    apply batch_of_mem (List.mem_map.mpr ⟨q₀, hq₀, rfl⟩)
    rw [hshape₀, List.head?_cons]
  rw [hbatch, List.map_map, List.map_map] at hrows
  have hargs : (pairs.map fun q => Argument.tensor q.1) =
      pairs.map (Argument.tensor ∘ Prod.fst) := rfl
  unfold Batched.reconciled
  rw [hargs, hrows, List.map_map, List.map_map]
  rfl

theorem reconciled_chain (hpairs : forall q, q ∈ pairs -> IsChain n i [] q.1 q.2) :
    Batched.reconciled (pairs.map fun q => .tensor q.2) =
      .ok ((pairs.map Prod.snd).map Argument.tensor) := by
  unfold Batched.reconciled
  rw [List.map_map, reconcile_single]
  · rfl
  · intro v hv
    rcases List.mem_map.mp hv with ⟨q, _, heq⟩
    cases heq
  · intro t ht
    rcases List.mem_map.mp ht with ⟨q, hq, heq⟩
    cases heq
    exact ⟨[], (hpairs q hq).shape⟩

theorem shape_matched_of_isChain {t u : Tensor α} (h : IsChain n i [] t u) :
    (t.matched n).shape = [n] := by
  rcases h.rows with ⟨k, hk, rfl | rfl⟩
  · rw [matched_single hk]
    exact shape_repeatRows hk n
  · rw [matched_self hk, hk]

theorem sumTerms_isChain (zero : Tensor α) (hi : i < n)
    (hpairs : forall q, q ∈ pairs -> IsChain n i [] q.1 q.2)
    (hfull : ∃ q, q ∈ pairs ∧ q.1.shape = [n]) :
    ∃ y z, sumTerms zero (pairs.map fun q => .tensor q.1) = .ok y ∧
      sumTerms zero (pairs.map fun q => .tensor q.2) = .ok z ∧ y.shape = [n] ∧
        IsChain n i [] y z := by
  have hne : pairs ≠ [] := by
    rcases hfull with ⟨q, hq, _⟩
    exact List.ne_nil_of_mem hq
  rcases (sumOf_rowWise (α := α) hne).isChain (t := Prod.fst) (u := Prod.snd) hi (Or.inr rfl)
    hpairs (fun _ _ _ => rfl) with ⟨y, z, hy, hz, hyz, hshape⟩
  refine ⟨y, z, ?_, ?_, hshape, hyz⟩
  · rw [sumTerms_of_shape (k := n) _ (reconciled_rows hpairs hfull), hy]
    · intro t ht
      rcases List.mem_map.mp ht with ⟨q, hq, rfl⟩
      exact shape_matched_of_isChain (hpairs q hq)
    · rw [ne_eq, List.map_eq_nil_iff]
      exact hne
  · rw [sumTerms_of_shape (k := 1) _ (reconciled_chain hpairs), hz]
    · intro t ht
      rcases List.mem_map.mp ht with ⟨q, hq, rfl⟩
      exact (hpairs q hq).shape
    · rw [ne_eq, List.map_eq_nil_iff]
      exact hne

end Environment

/-!
# Distributions whose chains are independent

What a level distribution reads either has as many axes as its target or consists of single
rows.  Its density in the run of a chain is then the entry of that chain in the whole run, and
so is the sum of all terms.
-/

namespace Workspace

variable {w : Workspace} {d : Dag} {fed : List (NodeId × Value)}
  {free : NodeId → Option (Except Refusal (Tensor α))} {n i : Nat} {id : NodeId}
  {e e' : Environment α}

def shape (w : Workspace) (id : NodeId) : Shape :=
  ((w.node? id).map Node.dim).getD []

/-- An elementwise distribution that reads only parameters of as many axes as it has. -/
def IsLevel (w : Workspace) (id : NodeId) : Prop :=
  forall m, m ∈ w.node? id -> forall r, r ∈ m.distribution? -> r.family.isMatrix = false ->
    forall ids, ids ∈ r.inputs? -> forall q, q ∈ ids -> (w.shape q).length = m.dim.length

instance (w : Workspace) (id : NodeId) : Decidable (w.IsLevel id) :=
  inferInstanceAs (Decidable (forall m, m ∈ w.node? id -> forall r, r ∈ m.distribution? ->
    r.family.isMatrix = false -> forall ids, ids ∈ r.inputs? ->
      forall q, q ∈ ids -> (w.shape q).length = m.dim.length))

/-- A distribution whose target and parameters do not depend on values of `n` rows. -/
def IsSteady (w : Workspace) (fed : List (NodeId × Value))
    (free : NodeId → Option (Except Refusal (Tensor α))) (n : Nat) (id : NodeId) : Prop :=
  forall m, w.node? id = some m -> forall q, q ∈ m.role.reads ->
    forall a, w.Precedes a q -> w.rows? fed free a ≠ some n

theorem shape_of_node? {m : Node} (hm : w.node? id = some m) : w.shape id = m.dim := by
  unfold shape
  rw [hm]
  rfl

theorem Prescribes.aligned {m : Node} {r : Distribution} {target : NodeId} {ids : List NodeId}
    (h : w.Prescribes m r) (htarget : r.target = some target) (hblank : r.family ≠ .blank)
    (hids : r.inputs? = some ids)
    (hlevel : r.family.isMatrix = false ->
      forall q, q ∈ ids -> (w.shape q).length = m.dim.length) :
    r.Aligned ((target :: ids).map w.shape) := by
  have hnames := r.mem_parameters_of_inputs hids
  rcases h.target target htarget with ⟨t, ht, hdim⟩
  have hfirst : w.shape target = m.dim := (shape_of_node? ht).trans hdim
  constructor
  · rw [List.length_map, List.length_cons, hnames.length_eq]
  · exact hblank
  · intro hmatrix
    refine ⟨⟨?_, ?_⟩, h.truncation hmatrix⟩
    · rw [List.map_cons, List.headD_cons, hfirst]
      exact h.square hmatrix
    · rintro ⟨name, dim⟩ hq
      rw [List.map_cons, List.tail_cons] at hq
      have hpairs : List.Forall₂ (fun name dim => ∃ q, (name, q) ∈ r.parameters ∧
          dim = w.shape q) r.family.parameterNames (ids.map w.shape) := by
        rw [List.forall₂_map_right_iff]
        apply hnames.imp
        intro name q hname
        exact ⟨q, hname, rfl⟩
      rcases (List.forall₂_iff_zip.mp hpairs).2 hq with ⟨q, hname, rfl⟩
      rcases h.parameters hmatrix _ hname with ⟨k, hk, hscales⟩
      change Shape.Scales name (w.shape q)
      rw [shape_of_node? hk]
      exact hscales
  · intro hmatrix
    refine ⟨m.dim.length, ?_⟩
    intro dim hdim
    rcases List.mem_map.mp hdim with ⟨q, hq, rfl⟩
    rcases List.mem_cons.mp hq with rfl | hq
    · rw [hfirst]
    · exact hlevel hmatrix q hq

end Workspace

namespace Environment

open Workspace

variable {w : Workspace} {d : Dag} {fed : List (NodeId × Value)}
  {free : NodeId → Option (Except Refusal (Tensor α))} {n i : Nat} {id : NodeId}
  {e e' : Environment α}

theorem HasChain.read_density (h : HasChain w d n i e e') {y : NodeId}
    (hy : e'.get? id .value = some (.density y)) : e.get? id .value = some (.density y) := by
  have hsome : (e'.get? id .value).isSome = true := by
    rw [hy]
    rfl
  rcases h.values id hsome with ⟨hsome', m, _, hchain⟩
  rcases Option.isSome_iff_exists.mp hsome' with ⟨x, hx⟩
  rw [argument_of_get? hx, argument_of_get? hy] at hchain
  rw [hx]
  cases x with
  | tensor t => cases hchain
  | density y' =>
      cases hchain
      rfl

theorem exists_of_term {a : Argument α} (h : e.term w id = .ok a) :
    ∃ y target x z, e.get? id .value = some (.density y) ∧
      ((w.node? id).bind Node.distribution?).bind Distribution.target = some target ∧
      e.get? target .value = some x ∧ e.density w y (Pass.argument x) = .ok z ∧
      a = .tensor z := by
  unfold term at h
  cases hf : e.read w id .value with
  | error f =>
      rw [hf] at h
      cases h
  | ok f =>
      rw [hf] at h
      cases htarget : ((w.node? id).bind Node.distribution?).bind Distribution.target with
      | none =>
          rw [htarget] at h
          cases h
      | some target =>
          rw [htarget] at h
          cases hx : e.read w target .value with
          | error f =>
              simp only [bind, Except.bind, hx] at h
              cases h
          | ok x =>
              cases f with
              | tensor t =>
                  simp only [bind, Except.bind, hx] at h
                  cases h
              | density y =>
                  cases hz : e.density w y (Pass.argument x) with
                  | error f =>
                      simp only [bind, Except.bind, hx, hz] at h
                      cases h
                  | ok z =>
                      simp only [bind, Except.bind, hx, hz] at h
                      cases h
                      exact ⟨y, target, x, z, read_ok_iff.mp hf, rfl, read_ok_iff.mp hx, hz,
                        rfl⟩

omit [Scalar α] in
theorem aligned_or_single (hprescribed : w.Prescribed)
    (hlevel : w.IsLevel id ∨ forall m, w.node? id = some m -> forall q, q ∈ m.role.reads ->
      forall t, e.argument .value q = .tensor t -> t.shape.head? = some 1)
    {m : Node} {r : Distribution} {target : NodeId} {ids : List NodeId}
    (hm : w.node? id = some m) (hr : m.distribution? = some r)
    (htarget : r.target = some target) (hblank : r.family ≠ .blank)
    (hids : r.inputs? = some ids) :
    r.Aligned ((target :: ids).map w.shape) ∨ r.family.isMatrix = false ∧
      forall q, q ∈ m.role.reads -> forall t, e.argument .value q = .tensor t ->
        t.shape.head? = some 1 := by
  have hprescribes := hprescribed id m r hm hr
  cases hmatrix : r.family.isMatrix with
  | true =>
      left
      apply hprescribes.aligned htarget hblank hids
      intro hfalse
      rw [hmatrix] at hfalse
      cases hfalse
  | false =>
      rcases hlevel with hlevel | hsingle
      · left
        apply hprescribes.aligned htarget hblank hids
        intro _
        exact hlevel m hm r hr hmatrix ids hids
      · right
        exact ⟨rfl, hsingle m hm⟩

theorem density_isChain (hi : i < n) {p : Precision}
    (hp : w.settings.tensorPrecision w.wide = .ok p) (hprescribed : w.Prescribed)
    (h : HasChain w d n i e e') (hlevel : w.IsLevel id ∨ forall m, w.node? id = some m ->
      forall q, q ∈ m.role.reads -> forall t, e.argument .value q = .tensor t ->
        t.shape.head? = some 1)
    {m : Node} {r : Distribution} {target : NodeId} (hm : w.node? id = some m)
    (hr : m.distribution? = some r) (htarget : r.target = some target)
    (hread : (e'.get? target .value).isSome = true) {z : Tensor α}
    (hok : e'.density w id (e'.argument .value target) = .ok z) :
    ∃ y, e.density w id (e.argument .value target) = .ok y ∧ IsChain n i [] y z := by
  unfold density at hok ⊢
  rw [hm] at hok ⊢
  simp only at hok ⊢
  rw [hr] at hok ⊢
  simp only at hok ⊢
  cases hvalues : e'.arguments w .value (r.parameters.map Prod.snd) with
  | error f =>
      rw [hvalues] at hok
      cases hok
  | ok values' =>
      have hsome := isSome_of_arguments hvalues
      have hsome' : forall q, q ∈ r.parameters.map Prod.snd ->
          (e.get? q .value).isSome = true := by
        intro q hq
        exact (h.values q (hsome q hq)).1
      rw [arguments_of_isSome hsome] at hok
      rw [arguments_of_isSome hsome']
      have hargs : forall q, q ∈ target :: r.parameters.map Prod.snd ->
          Argument.IsChain n i (w.shape q) (e.argument .value q) (e'.argument .value q) := by
        intro q hq
        have hentry : (e'.get? q .value).isSome = true := by
          rcases List.mem_cons.mp hq with rfl | hq
          · exact hread
          · exact hsome q hq
        rcases h.values q hentry with ⟨_, k, hk, hchain⟩
        rw [shape_of_node? hk]
        exact hchain
      apply Distribution.densityOf_isChain hi hp hargs _ hok
      intro ids hblank hids
      rcases aligned_or_single hprescribed hlevel hm hr htarget hblank hids with
        haligned | ⟨hmatrix, hsingle⟩
      · exact Or.inl haligned
      · right
        refine ⟨hmatrix, ?_⟩
        intro q hq t ht
        exact hsingle q (Node.mem_reads_of_distribution hr htarget hq) t ht

theorem term_isChain (hi : i < n) {p : Precision}
    (hp : w.settings.tensorPrecision w.wide = .ok p) (hprescribed : w.Prescribed)
    (h : HasChain w d n i e e') (hlevel : w.IsLevel id ∨ forall m, w.node? id = some m ->
      forall q, q ∈ m.role.reads -> forall t, e.argument .value q = .tensor t ->
        t.shape.head? = some 1) {a : Argument α} (hok : e'.term w id = .ok a) :
    ∃ y z, e.term w id = .ok (.tensor y) ∧ a = .tensor z ∧ IsChain n i [] y z := by
  rcases exists_of_term hok with ⟨y, target, x, z, hy, htarget, hx, hz, rfl⟩
  have hid : y = id := h.densities id y hy
  rw [hid] at hy hz
  rw [← argument_of_get? hx] at hz
  rcases Option.bind_eq_some_iff.mp htarget with ⟨r, hr, hrtarget⟩
  rcases Option.bind_eq_some_iff.mp hr with ⟨m, hm, hmr⟩
  have hread : (e'.get? target .value).isSome = true := by
    rw [hx]
    rfl
  rcases density_isChain hi hp hprescribed h hlevel hm hmr hrtarget hread hz with
    ⟨q, hq, hchain⟩
  rcases Option.isSome_iff_exists.mp (h.values target hread).1 with ⟨x', hx'⟩
  rw [argument_of_get? hx'] at hq
  refine ⟨q, z, ?_, rfl, hchain⟩
  unfold term
  rw [read_ok_iff.mpr (h.read_density hy), htarget]
  change (e.read w target .value >>= fun x =>
    (e.density w id (Pass.argument x) >>= fun t => pure (Argument.tensor t))) = _
  rw [read_ok_iff.mpr hx']
  change (e.density w id (Pass.argument x') >>= fun t => pure (Argument.tensor t)) = _
  rw [hq]
  rfl

theorem exists_adjustments (h : HasChain w d n i e e') (hlatents : d.latents w ≠ []) :
    ∃ pairs : List (Tensor α × Tensor α),
      e.arguments w .adjustment (d.latents w) = .ok (pairs.map fun q => .tensor q.1) ∧
      e'.arguments w .adjustment (d.latents w) = .ok (pairs.map fun q => .tensor q.2) ∧
      (forall q, q ∈ pairs -> IsChain n i [] q.1 q.2) ∧ ∃ q, q ∈ pairs ∧ q.1.shape = [n] := by
  have hsome : forall id, id ∈ d.latents w -> (e'.get? id .adjustment).isSome = true := by
    intro id hid
    rcases h.adjustments id hid with ⟨t, u, _, hu, _⟩
    rw [hu]
    rfl
  have hvalues : e'.arguments w .adjustment (d.latents w) = _ := arguments_of_isSome hsome
  have hread : forall id, id ∈ d.latents w -> forall a,
      (e'.read w id .adjustment).map Pass.argument = .ok a ->
        ∃ t u, (e.read w id .adjustment).map Pass.argument = .ok (.tensor t) ∧
          a = .tensor u ∧ IsChain n i [] t u := by
    intro id hid a ha
    rcases h.adjustments id hid with ⟨t, u, ht, hu, _, hchain⟩
    rw [read_ok_iff.mpr hu] at ha
    cases ha
    rw [read_ok_iff.mpr ht]
    exact ⟨t, u, rfl, rfl, hchain⟩
  rcases exists_terms hvalues hread with ⟨pairs, hpairs, heq, hchains⟩
  refine ⟨pairs, hpairs, by rw [hvalues, heq], hchains, ?_⟩
  rcases List.exists_mem_of_ne_nil _ hlatents with ⟨id, hid⟩
  rcases h.adjustments id hid with ⟨t, u, ht, _, hshape, _⟩
  rcases exists_right_of_forall₂ (mapM_eq_ok_iff.mp hpairs) hid with ⟨a, ha, hat⟩
  rcases List.mem_map.mp ha with ⟨q, hq, rfl⟩
  rw [read_ok_iff.mpr ht] at hat
  cases hat
  exact ⟨q, hq, hshape⟩

theorem joint_isChain (hi : i < n) {p : Precision}
    (hp : w.settings.tensorPrecision w.wide = .ok p) (hprescribed : w.Prescribed)
    (h : HasChain w d n i e e') (hlatents : d.latents w ≠ [])
    (hlevel : forall id, id ∈ d.distributions w -> w.IsLevel id ∨
      forall m, w.node? id = some m -> forall q, q ∈ m.role.reads ->
        forall t, e.argument .value q = .tensor t -> t.shape.head? = some 1)
    {z : Tensor α} (hok : e'.joint w (d.distributions w) (d.latents w) = .ok z) :
    ∃ y, e.joint w (d.distributions w) (d.latents w) = .ok y ∧ y.shape = [n] ∧
      IsChain n i [] y z := by
  unfold joint at hok ⊢
  cases hterms : (d.distributions w).mapM (e'.term w) with
  | error f =>
      rw [hterms] at hok
      cases hok
  | ok terms' =>
      rw [hterms] at hok
      rcases exists_terms hterms (fun id hid _ ha =>
        term_isChain hi hp hprescribed h (hlevel id hid) ha) with ⟨pairs, hpairs, rfl, hchains⟩
      rcases exists_adjustments h hlatents with ⟨others, hothers, hothers', hchains', hfull⟩
      have hall : forall q, q ∈ pairs ++ others -> IsChain n i [] q.1 q.2 := by
        intro q hq
        rcases List.mem_append.mp hq with hq | hq
        · exact hchains q hq
        · exact hchains' q hq
      have hsome : ∃ q, q ∈ pairs ++ others ∧ q.1.shape = [n] := by
        rcases hfull with ⟨q, hq, hshape⟩
        exact ⟨q, List.mem_append.mpr (Or.inr hq), hshape⟩
      rcases sumTerms_isChain (Tensor.full [1] (Scalar.constant p 0.0)) hi hall hsome with
        ⟨y, z', hy, hz', hshape, hyz⟩
      rw [List.map_append] at hy hz'
      rw [hothers'] at hok
      rw [hpairs, hothers]
      rw [hp] at hok ⊢
      change sumTerms _ _ = _ at hok
      rw [hz'] at hok
      cases hok
      exact ⟨y, hy, hshape, hyz⟩

end Environment
end DensityGraph
