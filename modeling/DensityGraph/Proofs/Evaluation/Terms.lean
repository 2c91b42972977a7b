import DensityGraph.Proofs.Evaluation.Faithful
import DensityGraph.Proofs.Evaluation.Rows
import DensityGraph.Proofs.Evaluation.Runs
import DensityGraph.Proofs.Evaluation.Total
/-!
# Terms by recursion

A pass over a graph is completed unless the settings, a free tensor or a node stand in its
way.  Then the joint density is added up from the densities of the distribution nodes, at
what recursion gives for their targets and parameters, and from the Jacobians.
-/

namespace DensityGraph

variable {α : Type} [Scalar α]

section Results

variable {ε β γ δ : Type}

theorem mapM_map {f : β → Option γ} (g : γ → δ) (xs : List β) :
    (xs.mapM fun x => (f x).map g) = (xs.mapM f).map (List.map g) := by
  induction xs with
  | nil => rfl
  | cons x xs ih =>
      rw [List.mapM_cons, List.mapM_cons, ih]
      cases f x with
      | none => rfl
      | some y =>
          cases xs.mapM f with
          | none => rfl
          | some ys => rfl

theorem mapM_congr {f g : β → Option γ} {xs : List β} (h : forall x, x ∈ xs -> f x = g x) :
    xs.mapM f = xs.mapM g := by
  induction xs with
  | nil => rfl
  | cons x xs ih =>
      rw [List.mapM_cons, List.mapM_cons, h x List.mem_cons_self,
        ih fun y hy => h y (List.mem_cons_of_mem x hy)]

theorem mapM_perm {f : β → Option γ} {xs ys : List β} {us : List γ} (h : xs.Perm ys)
    (hus : xs.mapM f = some us) : ∃ vs, ys.mapM f = some vs ∧ us.Perm vs := by
  rcases List.perm_comp_forall₂ h.symm (mapM_eq_some_iff.mp hus) with ⟨vs, hvs, hperm⟩
  exact ⟨vs, mapM_eq_some_iff.mpr hvs, hperm.symm⟩

end Results

/-!
# What is added up
-/

namespace Workspace

variable [CustomCode α]

/-- The log-density of a distribution node at its target and its parameters, all of them
evaluated by recursion. -/
def logTerm (w : Workspace) (fed : List (NodeId × Value))
    (free : NodeId → Option (Except Refusal (Tensor α))) (id : NodeId) :
    Option (Tensor α) := do
  let n ← w.node? id
  let r ← n.distribution?
  let target ← r.target
  let args ← (Batched.reconciled
    ((target :: r.parameters.map Prod.snd).map (w.argumentOf fed free))).toOption
  (r.densityOf w id n args).toOption

/-- The log-densities of some distribution nodes and the Jacobians of some variables. -/
def logTerms (w : Workspace) (fed : List (NodeId × Value))
    (free : NodeId → Option (Except Refusal (Tensor α))) (distributions latents : List NodeId) :
    Option (List (Tensor α)) := do
  let densities ← distributions.mapM (w.logTerm fed free)
  let adjustments ← latents.mapM (w.adjustment free)
  return densities ++ adjustments

variable {w : Workspace} {fed : List (NodeId × Value)}
  {free : NodeId → Option (Except Refusal (Tensor α))}

theorem logTerm_of_distribution {id : NodeId} {n : Node} {r : Distribution}
    (hn : w.node? id = some n) (hr : n.distribution? = some r) :
    w.logTerm fed free id = r.target.bind fun t =>
      (Batched.reconciled ((t :: r.parameters.map Prod.snd).map (w.argumentOf fed free)) >>=
        r.densityOf w id n).toOption := by
  unfold logTerm
  rw [hn]
  change (n.distribution?).bind _ = _
  rw [hr]
  simp only [toOption_bind]
  rfl

theorem logTerms_perm {ids ids' latents latents' : List NodeId} {ts : List (Tensor α)}
    (hids : ids.Perm ids') (hlatents : latents.Perm latents')
    (h : w.logTerms fed free ids latents = some ts) :
    ∃ us, w.logTerms fed free ids' latents' = some us ∧ ts.Perm us := by
  unfold logTerms at h
  rcases Option.bind_eq_some_iff.mp h with ⟨densities, hdensities, hrest⟩
  rcases Option.bind_eq_some_iff.mp hrest with ⟨adjustments, hadjustments, hts⟩
  cases hts
  rcases mapM_perm hids hdensities with ⟨densities', hdensities', hperm⟩
  rcases mapM_perm hlatents hadjustments with ⟨adjustments', hadjustments', hperm'⟩
  refine ⟨densities' ++ adjustments', ?_, hperm.append hperm'⟩
  unfold logTerms
  rw [hdensities', hadjustments']
  rfl

theorem logTerms_total_perm [Scalar.Exact α] {ids ids' latents latents' : List NodeId}
    {zero : Tensor α} (hids : ids.Perm ids') (hlatents : latents.Perm latents') :
    ((w.logTerms fed free ids latents).bind fun ts =>
        (Environment.sumTerms zero (ts.map Argument.tensor)).toOption) =
      (w.logTerms fed free ids' latents').bind fun ts =>
        (Environment.sumTerms zero (ts.map Argument.tensor)).toOption := by
  cases hts : w.logTerms fed free ids latents with
  | some ts =>
      rcases logTerms_perm hids hlatents hts with ⟨us, hus, hperm⟩
      rw [hus]
      exact Environment.sumTerms_perm hperm
  | none =>
      cases hus : w.logTerms fed free ids' latents' with
      | none => rfl
      | some us =>
          rcases logTerms_perm hids.symm hlatents.symm hus with ⟨ts, hts', _⟩
          rw [hts] at hts'
          cases hts'

end Workspace

/-!
# Graphs that read parents
-/

namespace Dag

variable {d : Dag} {w : Workspace} {id r : NodeId} {n : Node}

/-- Every node of the graph has all nodes that it reads among its parents. -/
def ReadsParents (d : Dag) (w : Workspace) : Prop :=
  forall id n, id ∈ d.nodes -> w.node? id = some n ->
    forall r, r ∈ n.role.reads -> r ∈ n.parents

theorem ReadsParents.mem (h : d.ReadsParents w) (hsorts : w.Sorts d) (hid : id ∈ d.nodes)
    (hn : w.node? id = some n) (hr : r ∈ n.role.reads) : r ∈ d.nodes := by
  have hparent := h id n hid hn r hr
  rw [← Workspace.parents_of_node? hn] at hparent
  exact hsorts.parentsFirst.mem_of_mem hid hparent

theorem ReadsParents.findsArguments (h : d.ReadsParents w) (hsorts : w.Sorts d)
    (hid : id ∈ d.nodes) (hn : w.node? id = some n) : w.FindsArguments n := by
  intro a ha
  have hread := Node.mem_reads_of_mem_arguments ha
  refine ⟨h id n hid hn a hread, fun r hr q hq => ?_⟩
  rcases Option.bind_eq_some_iff.mp hr with ⟨m, hm, hdistribution⟩
  rw [Workspace.parents_of_node? hm]
  exact h a m (h.mem hsorts hid hn hread) hm q (Node.mem_reads_of_parameter hdistribution hq)

end Dag

/-!
# Terms in faithful environments

In a faithful environment the density of a distribution is read at what recursion gives for
its target and its parameters.
-/

namespace Environment

open Workspace

variable [CustomCode α] {e : Environment α} {w : Workspace} {d : Dag}
  {fed : List (NodeId × Value)} {free : NodeId → Option (Except Refusal (Tensor α))} {id : NodeId}

theorem Faithful.isSome (h : e.Faithful w d fed free) (hid : id ∈ d.nodes) :
    (e.get? id .value).isSome = true ∧ e.argument .value id = w.argumentOf fed free id := by
  rcases exists_argument (h.values id hid) (h.densities id hid) with ⟨x, hx, harg⟩
  rw [argument_of_get? hx, hx]
  exact ⟨rfl, harg⟩

theorem Faithful.density (h : e.Faithful w d fed free) {n : Node} {r : Distribution}
    (hn : w.node? id = some n) (hr : n.distribution? = some r)
    (hparameters : forall q, q ∈ r.parameters.map Prod.snd -> q ∈ d.nodes) (x : Argument α) :
    e.density w id x = (Batched.reconciled
      (x :: (r.parameters.map Prod.snd).map (w.argumentOf fed free)) >>= r.densityOf w id n) := by
  have hvalues : e.arguments w .value (r.parameters.map Prod.snd) =
      .ok ((r.parameters.map Prod.snd).map (w.argumentOf fed free)) := by
    rw [arguments_of_isSome fun q hq => (h.isSome (hparameters q hq)).1]
    exact congrArg Except.ok
      (List.map_congr_left fun q hq => (h.isSome (hparameters q hq)).2)
  unfold Environment.density
  rw [hn]
  simp only
  rw [hr]
  simp only
  rw [hvalues]
  rfl

omit [Scalar α] [CustomCode α] in
theorem target_of_node? {n : Node} {r : Distribution} (hn : w.node? id = some n)
    (hr : n.distribution? = some r) :
    ((w.node? id).bind Node.distribution?).bind Distribution.target = r.target := by
  rw [hn]
  change (n.distribution?).bind Distribution.target = r.target
  rw [hr]
  rfl

theorem Faithful.term_of_nodes (h : e.Faithful w d fed free) (hid : id ∈ d.distributions w)
    {n : Node} {r : Distribution} {t : NodeId} (hn : w.node? id = some n)
    (hr : n.distribution? = some r) (htarget : r.target = some t)
    (hread : forall q, q ∈ t :: r.parameters.map Prod.snd -> q ∈ d.nodes) :
    e.term w id = (Batched.reconciled
      ((t :: r.parameters.map Prod.snd).map (w.argumentOf fed free)) >>=
        r.densityOf w id n).map Argument.tensor := by
  rcases mem_select.mp hid with ⟨hmem, hkind⟩
  have hentry : e.read w id .value = .ok (.density id) :=
    read_ok_iff.mpr (h.densities id hmem hkind)
  have ht := hread t List.mem_cons_self
  rcases exists_argument (h.values t ht) (h.densities t ht) with ⟨x, hx, harg⟩
  rw [List.map_cons, ← harg, ← h.density hn hr
    (fun q hq => hread q (List.mem_cons_of_mem t hq)) (Pass.argument x)]
  unfold Environment.term
  rw [hentry, target_of_node? hn hr, htarget]
  change (e.read w t .value >>= fun x =>
    (e.density w id (Pass.argument x) >>= fun z => pure (Argument.tensor z))) = _
  rw [read_ok_iff.mpr hx]
  change (e.density w id (Pass.argument x) >>= fun z => pure (Argument.tensor z)) = _
  cases e.density w id (Pass.argument x) with
  | error f => rfl
  | ok z => rfl

theorem Faithful.term (h : e.Faithful w d fed free) (hsorts : w.Sorts d)
    (hreads : d.ReadsParents w) (hid : id ∈ d.distributions w) :
    (e.term w id).toOption = (w.logTerm fed free id).map Argument.tensor := by
  rcases mem_select.mp hid with ⟨hmem, hkind⟩
  rcases exists_node_of_has hkind with ⟨n, hn, hdistribution⟩
  rcases Option.isSome_iff_exists.mp hdistribution with ⟨r, hr⟩
  rw [logTerm_of_distribution hn hr]
  cases htarget : r.target with
  | none =>
      unfold Environment.term
      rw [read_ok_iff.mpr (h.densities id hmem hkind), target_of_node? hn hr, htarget]
      rfl
  | some t =>
      rw [h.term_of_nodes hid hn hr htarget
        fun q hq => hreads.mem hsorts hmem hn (Node.mem_reads_of_distribution hr htarget hq)]
      change _ = (_ >>= r.densityOf w id n).toOption.map Argument.tensor
      cases Batched.reconciled ((t :: r.parameters.map Prod.snd).map (w.argumentOf fed free)) >>=
          r.densityOf w id n with
      | error f => rfl
      | ok z => rfl

theorem Faithful.joint (h : e.Faithful w d fed free) (hsorts : w.Sorts d)
    (hreads : d.ReadsParents w) {p : Precision}
    (hp : w.settings.tensorPrecision w.wide = .ok p) {latents : List NodeId}
    (hlatents : forall id, id ∈ latents -> id ∈ d.latents w) :
    (e.joint w (d.distributions w) latents).toOption =
      (w.logTerms fed free (d.distributions w) latents).bind fun ts =>
        (sumTerms (Tensor.full [1] (Scalar.constant p 0.0))
          (ts.map Argument.tensor)).toOption := by
  have hterms : ((d.distributions w).mapM (e.term w)).toOption =
      ((d.distributions w).mapM (w.logTerm fed free)).map (List.map Argument.tensor) := by
    rw [toOption_mapM, ← mapM_map]
    exact mapM_congr fun id hid => h.term hsorts hreads hid
  have hadjustments : (e.arguments w .adjustment latents).toOption =
      (latents.mapM (w.adjustment free)).map (List.map Argument.tensor) := by
    unfold Environment.arguments
    rw [toOption_mapM, ← mapM_map]
    apply mapM_congr
    intro id hid
    rcases h.adjustments id (hlatents id hid) with ⟨t, ht, hget⟩
    rw [read_ok_iff.mpr hget, ht]
    rfl
  unfold Environment.joint logTerms
  rw [hp]
  simp only [toOption_bind, hterms, hadjustments]
  cases (d.distributions w).mapM (w.logTerm fed free) with
  | none => rfl
  | some densities =>
      cases latents.mapM (w.adjustment free) with
      | none => rfl
      | some adjustments =>
          change (sumTerms _ (densities.map Argument.tensor ++
            adjustments.map Argument.tensor)).toOption = _
          rw [← List.map_append]
          rfl

end Environment

/-!
# Passes that are completed
-/

namespace Dag

open Workspace

variable [CustomCode α] {w : Workspace} {d : Dag} {fed : List (NodeId × Value)}
  {free : NodeId → Option (Except Refusal (Tensor α))} {e : Environment α}

theorem toOption_jointAt (hsorts : w.Sorts d) (hreads : d.ReadsParents w)
    (hfeeds : w.FeedsData d fed) (h : d.environment w fed free = .ok e) (adjust : Bool) :
    ∃ p, w.settings.tensorPrecision w.wide = .ok p ∧
      (d.jointAt w fed free adjust).toOption =
        (w.logTerms fed free (d.distributions w)
          (if adjust then d.latents w else [])).bind fun ts =>
            (Environment.sumTerms (Tensor.full [1] (Scalar.constant p 0.0))
              (ts.map Argument.tensor)).toOption := by
  have hfaithful :=
    (environment_ends hsorts (fun _ _ => hreads.findsArguments hsorts) hfeeds free).1 e h
  rcases precision_of_validate (validate_of_environment h) with ⟨p, hp⟩
  refine ⟨p, hp, ?_⟩
  rw [jointAt_of_environment h, jointIn_eq]
  apply hfaithful.joint hsorts hreads hp
  intro id hid
  cases adjust with
  | true => exact hid
  | false => cases hid

structure Completes (d : Dag) (w : Workspace) (fed : List (NodeId × Value))
    (free : NodeId → Option (Except Refusal (Tensor α))) : Prop where
  settings : w.settings.validate w.written w.wide = .ok ()
  frees : forall id, id ∈ d.latents w -> w.AcceptsFree free id
  nodes : forall id, id ∈ d.nodes -> ¬w.Obstructed fed free id

theorem completes_of_environment (hsorts : w.Sorts d) (hreads : d.ReadsParents w)
    (hfeeds : w.FeedsData d fed) (h : d.environment w fed free = .ok e) :
    d.Completes w fed free := by
  have hfilled :=
    (environment_filled hsorts (fun _ _ => hreads.findsArguments hsorts) hfeeds free).1 e h
  refine ⟨validate_of_environment h, fun id => acceptsFree_of_environment h, ?_⟩
  intro id hid hobstructed
  have hvalue : w.has Node.isDistribution id = false ->
      w.evaluate fed free id ≠ none := by
    intro hkind hnone
    rcases hfilled.values id hid hkind with ⟨t, ht, _⟩
    rw [ht] at hnone
    cases hnone
  cases hobstructed with
  | absent hnone =>
      apply hvalue
      · unfold has
        rw [hnone]
      · rw [evaluate_eq, tensorFrom, hnone]
  | value hkind hnone => exact hvalue hkind hnone
  | adjustment hlatent hnone =>
      rcases hfilled.adjustments id hid hlatent with ⟨t, ht, _⟩
      rw [ht] at hnone
      cases hnone
  | shape hfits => exact hfits (hfilled.fits id hid)

theorem Completes.exists_environment (h : d.Completes w fed free) (hsorts : w.Sorts d)
    (hreads : d.ReadsParents w) (hfeeds : w.FeedsData d fed) :
    ∃ e, d.environment w fed free = .ok e := by
  have hends := environment_ends hsorts (fun _ _ => hreads.findsArguments hsorts) hfeeds free
  cases henvironment : d.environment w fed free with
  | ok e => exact ⟨e, rfl⟩
  | error f =>
      exfalso
      rcases (hends.2 f henvironment).2 with hinvalid | ⟨id, hid, hfree⟩ | ⟨id, hid, hobstructed⟩
      · rw [h.settings] at hinvalid
        cases hinvalid
      · exact hfree (h.frees id hid)
      · exact h.nodes id hid hobstructed

theorem jointAt_of_not_completes (hsorts : w.Sorts d) (hreads : d.ReadsParents w)
    (hfeeds : w.FeedsData d fed) (h : ¬d.Completes w fed free) (adjust : Bool) :
    (d.jointAt w fed free adjust).toOption = none := by
  unfold Dag.jointAt
  cases henvironment : d.environment w fed free with
  | error f => rfl
  | ok e => exact absurd (completes_of_environment hsorts hreads hfeeds henvironment) h

end Dag
end DensityGraph
