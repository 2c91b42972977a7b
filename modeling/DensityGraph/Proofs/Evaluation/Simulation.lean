import DensityGraph.Proofs.Evaluation.Recursive
import DensityGraph.Proofs.Operation.Density
/-!
# Passes evaluate recursively

Taken in topological order, every node finds the entries of its arguments and adds the
entries of its own.  A pass that stops early has come to a variable without a proper
free tensor or to a node that has no value by recursion either.
-/

namespace DensityGraph

variable {α : Type} [Scalar α]

namespace Workspace

variable {w : Workspace} {fed : List (NodeId × Value)}
  {free : NodeId → Option (Except Refusal (Tensor α))} {id : NodeId} {n : Node}

theorem adjustment_latent {b : Interval} {c : Constraint} {size : Nat}
    (hn : w.node? id = some n) (hrole : n.role = .latent b c size) {t : Tensor α}
    (hfree : free id = some (.ok t)) :
    w.adjustment free id = (c.logJacobianBetween b t).toOption := by
  unfold adjustment
  simp only [hn, Option.map_some, hrole, hfree]

omit [Scalar α] in
theorem isReadable_of_findsIn {values : NodeId → Option (Tensor α)} {nodes : List NodeId}
    {a : NodeId} (hsettled : forall p, p ∈ nodes -> w.isSettled values p = true)
    (hfinds : w.FindsIn nodes n) (ha : a ∈ n.arguments) : w.isReadable values a = true := by
  rcases hfinds a ha with ⟨hmem, hparameters⟩
  unfold isReadable
  cases hr : (w.node? a).bind Node.distribution? with
  | some r => exact List.all_eq_true.mpr fun q hq => hsettled q (hparameters r hr q hq)
  | none =>
      have hkind : w.has Node.isDistribution a = false := by
        apply eq_false_of_ne_true
        intro htrue
        rcases exists_node_of_has htrue with ⟨m, hm, hdistribution⟩
        rw [hm, Option.bind_some] at hr
        rw [Node.isDistribution, hr] at hdistribution
        cases hdistribution
      have hvalue := hsettled a hmem
      unfold isSettled at hvalue
      rw [hkind, Bool.false_or] at hvalue
      exact hvalue

variable [CustomCode α]

theorem evaluate_data (hn : w.node? id = some n) (hrole : n.role = .data) :
    w.evaluate fed free id = (w.dataTensor fed id n).toOption := by
  rw [evaluate_eq, tensorFrom, hn]
  simp only [hrole]

theorem isReadable_of_evaluate {t : Tensor α} (h : w.evaluate fed free id = some t) :
    w.isReadable (w.evaluate fed free) id = true := by
  unfold isReadable
  cases hr : (w.node? id).bind Node.distribution? with
  | none =>
      rw [h]
      rfl
  | some r =>
      rcases Option.bind_eq_some_iff.mp hr with ⟨m, hm, hdistribution⟩
      have hkind : w.has Node.isDistribution id = true := by
        rw [has_of_node? hm, Node.isDistribution, hdistribution]
        rfl
      rw [evaluate_distribution hkind] at h
      cases h

theorem evaluate_operation {o : Operation} {arguments : List NodeId} {extras : List Value}
    (hn : w.node? id = some n) (hrole : n.role = .operation o arguments extras)
    (hreadable : forall a, a ∈ arguments -> w.isReadable (w.evaluate fed free) a = true) :
    w.evaluate fed free id =
      (Batched.reconcile (arguments.map (w.argumentOf fed free) ++ w.given extras)).toOption.bind
        fun args => (o.apply (w.densityOf fed free) args).toOption := by
  rw [evaluate_eq, tensorFrom, hn]
  simp only [hrole]
  rw [if_pos (List.all_eq_true.mpr hreadable)]
  rfl

theorem evaluate_latent {b : Interval} {c : Constraint} {size : Nat}
    (hn : w.node? id = some n) (hrole : n.role = .latent b c size) {t : Tensor α}
    (hfree : free id = some (.ok t)) :
    w.evaluate fed free id = (c.fromFree b n.dim t).toOption := by
  rw [evaluate_eq, tensorFrom, hn]
  simp only [hrole, hfree]

end Workspace

namespace Pass

open Workspace

variable {w : Workspace} {fed : List (NodeId × Value)}
  {free : NodeId → Option (Except Refusal (Tensor α))} {latents nodes : List NodeId}
  {e : Environment α} {id : NodeId} {n : Node}

/-!
# Arguments
-/

omit [Scalar α] in
theorem ends_arguments {arguments : List NodeId} {f : NodeId → Argument α}
    {E : Failure → Environment α → Prop}
    (hentries : forall a, a ∈ arguments ->
      ∃ x, e.get? a .value = some x ∧ argument x = f a) :
    Ends (arguments.mapM fun a => return argument (← entry w a .value)) e
      (fun ys e' => e' = e ∧ ys = arguments.map f) E := by
  apply Ends.mapM (P := fun done ys e' => e' = e ∧ ys = done.map f)
  · exact ⟨rfl, rfl⟩
  · intro done a rest ys e' harguments hdone
    rcases hdone with ⟨rfl, rfl⟩
    have ha : a ∈ arguments := by
      rw [harguments]
      exact List.mem_append.mpr (Or.inr List.mem_cons_self)
    rcases hentries a ha with ⟨x, hget, hx⟩
    rw [ends_bind]
    apply ends_entry hget
    rw [ends_pure, hx, List.map_append, List.map_singleton]
    exact ⟨rfl, rfl⟩

theorem ends_reconcile {args : List (Argument α)} {Q : List (Argument α) → Environment α → Prop}
    {E : Failure → Environment α → Prop}
    (hok : forall ys, Batched.reconcile args = .ok ys -> Q ys e)
    (herror : forall sizes, Batched.reconcile args = .error sizes -> E (.batches sizes) e) :
    Ends (reconcile args) e Q E := by
  unfold reconcile
  rw [ends_ofExcept]
  unfold Batched.reconciled
  cases h : Batched.reconcile args with
  | ok ys =>
      constructor
      · rintro _ ⟨⟩
        exact hok ys h
      · rintro _ ⟨⟩
  | error sizes =>
      constructor
      · rintro _ ⟨⟩
      · rintro _ ⟨⟩
        exact herror sizes h

/-!
# Failures

Neither variables nor densities nor operations blame the environment.
-/

section Failures

variable {f : Failure}

omit [Scalar α] in
theorem isEntryFault_of_lift {x : Except Refusal β} (h : Refusal.lift x = .error f) :
    f.isEntryFault = false := by
  cases x with
  | ok y => cases h
  | error r =>
      cases h
      rfl

theorem isEntryFault_toFailure (fault : TransformFault) :
    fault.toFailure.isEntryFault = false := by
  cases fault <;> rfl

theorem isEntryFault_of_fromFree {c : Constraint} {b : Interval} {dim : Shape}
    {t : Tensor α} {f : Failure} (h : c.fromFree b dim t = .error f) :
    f.isEntryFault = false := by
  unfold Constraint.fromFree at h
  split at h
  · cases h
    exact isEntryFault_toFailure _
  · exact isEntryFault_of_lift h

theorem isEntryFault_of_logJacobianBetween {c : Constraint} {b : Interval}
    {t : Tensor α} {f : Failure} (h : c.logJacobianBetween b t = .error f) :
    f.isEntryFault = false := by
  unfold Constraint.logJacobianBetween at h
  split at h
  · cases h
    exact isEntryFault_toFailure _
  · cases h

theorem isEntryFault_of_logDensity {r : Distribution} {dim : Shape}
    {parameters : List (String × Argument α)} {x : Argument α}
    (h : r.logDensity dim parameters x = .error f) : f.isEntryFault = false := by
  unfold Distribution.logDensity at h
  split at h
  · cases h
    rfl
  · exact isEntryFault_of_lift h

theorem isEntryFault_of_logMass {r : Distribution} {label : Label} {p : Precision}
    {parameters : List (String × Argument α)} (h : r.logMass label p parameters = .error f) :
    f.isEntryFault = false := by
  unfold Distribution.logMass at h
  split at h
  · cases h
    rfl
  · exact isEntryFault_of_lift h

theorem isEntryFault_of_densityOf {r : Distribution} {args : List (Argument α)}
    (h : r.densityOf w id n args = .error f) : f.isEntryFault = false := by
  cases args with
  | nil =>
      cases h
      rfl
  | cons x values =>
      rcases bind_eq_error h with hlogs | ⟨logs, _, h⟩
      · exact isEntryFault_of_logDensity hlogs
      · split at h
        · cases h
        · rcases bind_eq_error h with hp | ⟨p, _, h⟩
          · exact isEntryFault_of_lift hp
          · rcases bind_eq_error h with hmass | ⟨mass, _, h⟩
            · exact isEntryFault_of_logMass hmass
            · rcases bind_eq_error h with hdifference | ⟨t, _, h⟩
              · exact isEntryFault_of_lift hdifference
              · cases h

theorem isEntryFault_of_reconciled {args : List (Argument α)}
    (h : Batched.reconciled args = .error f) : f.isEntryFault = false := by
  unfold Batched.reconciled at h
  split at h
  · cases h
  · cases h
    rfl

theorem isEntryFault_of_densityFrom {values : NodeId → Option (Tensor α)} {x : Argument α}
    (h : w.densityFrom values id x = .error f) : f.isEntryFault = false := by
  unfold densityFrom at h
  split at h
  · cases h
    rfl
  · split at h
    · cases h
      rfl
    · rcases bind_eq_error h with hargs | ⟨args, _, h⟩
      · exact isEntryFault_of_reconciled hargs
      · exact isEntryFault_of_densityOf h

theorem isEntryFault_of_apply [CustomCode α] {o : Operation} {args : List (Argument α)}
    (h : o.apply (w.densityOf fed free) args = .error f) : f.isEntryFault = false :=
  Operation.failure_of_apply (P := fun f => f.isEntryFault = false) (fun _ => rfl)
    (fun _ _ _ _ => isEntryFault_of_densityFrom) h

end Failures

/-!
# One node

A step of the pass at a node whose parents have their entries gives it the entry that
recursion gives, or stops where recursion has no value either.
-/

theorem ends_placeholder {v : Value} {expected : List Int} {Q : Tensor α → Environment α → Prop}
    {E : Failure → Environment α → Prop} (hfed : e.feed.lookup id = some v)
    (hok : forall s t, v.shape = .ok s -> (s.map Int.ofNat).tail = expected.tail ->
      w.tensorOf v = .ok t -> Q t e)
    (hshape : forall s, v.shape = .ok s -> (s.map Int.ofNat).tail ≠ expected.tail ->
      E (.invalid (.fedShape (w.label id) (s.map Int.ofNat) expected)) e)
    (hvalue : forall r, v.shape = .error r -> E (.refused r) e)
    (htensor : forall r, w.tensorOf (α := α) v = .error r -> E (.refused r) e) :
    Ends (placeholder w id expected) e Q E := by
  unfold placeholder
  rw [ends_bind, ends_get]
  simp only [hfed]
  simp only [ends_bind]
  rw [ends_ofRefusal]
  constructor
  · intro s hs
    rw [ends_ite]
    constructor
    · intro htail
      rw [ends_bind]
      exact hshape s hs htail
    · intro htail
      rw [ends_ofRefusal]
      constructor
      · intro t ht
        exact hok s t hs (of_not_not htail) ht
      · intro r hr
        exact htensor r hr
  · intro r hr
    exact hvalue r hr

variable [CustomCode α]

def Stops (w : Workspace) (fed : List (NodeId × Value))
    (free : NodeId → Option (Except Refusal (Tensor α))) (id : NodeId)
    (f : Failure) (_ : Environment α) : Prop :=
  f.isEntryFault = false ∧ w.Obstructed fed free id

theorem not_has_of_data (hn : w.node? id = some n) (hrole : n.role = .data) :
    w.has Node.isLatent id = false ∧ w.has Node.isDistribution id = false := by
  constructor
  · rw [has_of_node? hn, Node.isLatent, hrole]
  · rw [has_of_node? hn, Node.isDistribution, Node.distribution?, hrole]
    rfl

theorem ends_assignData (hfilled : Filled w fed free latents nodes e) (hid : id ∉ nodes)
    (hn : w.node? id = some n) (hrole : n.role = .data) {t : Tensor α}
    (ht : w.dataTensor fed id n = .ok t) (hfits : w.FitsFeed fed id) :
    Ends (assign w id .value (.tensor t)) e
      (fun _ e' => Filled w fed free latents (nodes ++ [id]) e') (Stops w fed free id) := by
  rcases not_has_of_data hn hrole with ⟨hlatent, hdistribution⟩
  apply ends_assign (hfilled.fresh hid (by decide))
  apply hfilled.add_value hid hlatent _ hfits
  constructor
  · intro _
    refine ⟨t, ?_, rfl⟩
    rw [evaluate_data hn hrole, ht]
    rfl
  · intro htrue
    rw [hdistribution] at htrue
    cases htrue

theorem stops_of_dataTensor (hn : w.node? id = some n) (hrole : n.role = .data) {r : Refusal}
    (hr : w.dataTensor (α := α) fed id n = .error r) :
    Stops w fed free id (.refused r) e := by
  refine ⟨rfl, Obstructed.value (not_has_of_data hn hrole).2 ?_⟩
  rw [evaluate_data hn hrole, hr]
  rfl

theorem tail_addBatchAxis (a : NumericArray) :
    (a.addBatchAxis.shape.map Int.ofNat).tail = a.shape.map Int.ofNat := by
  cases a <;> rfl

theorem fitsFeed_iff (hn : w.node? id = some n) (hrole : n.role = .data)
    (hmode : w.settings.dataAsConstants.truth = .ok false) {v : Value}
    (hfed : fed.lookup id = some v) {s : Shape} (hs : v.shape = .ok s) :
    w.FitsFeed fed id ↔
      (s.map Int.ofNat).tail = (n.value.array.addBatchAxis.shape.map Int.ofNat).tail := by
  rw [tail_addBatchAxis, ← List.map_tail]
  constructor
  · intro hfits
    rw [hfits n v s hn hrole hmode hfed hs]
  · intro htail m u r hm _ _ hu hr
    rw [hn, Option.some.injEq] at hm
    rw [hfed, Option.some.injEq] at hu
    rw [← hu, hs, Except.ok.injEq] at hr
    rw [← hm, ← hr]
    exact List.map_injective_iff.mpr (fun _ _ => Int.ofNat.inj) htail

/-- A data node gets the value that was fed for it, unless that has another shape than its own
value. -/
theorem ends_materializeData (hfilled : Filled w fed free latents nodes e)
    (hid : id ∉ nodes) (hn : w.node? id = some n) (hrole : n.role = .data)
    {v : Value} (hfed : fed.lookup id = some v) (hv : n.Feedable v) :
    Ends (materializeData w id n) e
      (fun _ e' => Filled w fed free latents (nodes ++ [id]) e')
      (Stops w fed free id) := by
  unfold materializeData
  rw [ends_bind, ends_get]
  simp only
  rw [hfilled.mode, ends_bind, ends_ofRefusal]
  constructor
  · intro isOn hmode
    cases isOn with
    | true =>
        have hconstant : w.dataTensor (α := α) fed id n =
            w.tensorOf (.array false n.value.array.addBatchAxis) := by
          unfold dataTensor
          rw [hmode]
        rw [if_pos rfl, ends_bind, ends_ofRefusal, ← hconstant]
        constructor
        · intro t ht
          apply ends_assignData hfilled hid hn hrole ht
          intro _ _ _ _ _ hfalse
          rw [hmode] at hfalse
          cases hfalse
        · intro r hr
          exact stops_of_dataTensor hn hrole hr
    | false =>
        have hplaceholder : w.dataTensor (α := α) fed id n = w.tensorOf v := by
          unfold dataTensor
          rw [hmode]
          simp only [hfed]
        rw [if_neg Bool.false_ne_true, ends_bind, ends_modify, ends_bind]
        have hfilled' := hfilled.register id n.value.array.addBatchAxis
        apply ends_placeholder (v := v)
        · rw [hfilled'.feed]
          exact hfed
        · intro s t hs htail ht
          apply ends_assignData hfilled' hid hn hrole (hplaceholder.trans ht)
          exact (fitsFeed_iff hn hrole hmode hfed hs).mpr htail
        · intro s hs htail
          have hfits := fitsFeed_iff hn hrole hmode hfed hs
          exact ⟨rfl, Obstructed.shape (mt hfits.mp htail)⟩
        · intro r hr
          cases hv <;> cases hr
        · intro r hr
          exact stops_of_dataTensor hn hrole (hplaceholder.trans hr)
  · intro r hr
    apply stops_of_dataTensor hn hrole
    unfold dataTensor
    rw [hr]

theorem apply_densities (hfilled : Filled w fed free latents nodes e)
    (hfinds : w.FindsIn nodes n) {o : Operation} {arguments : List NodeId} {extras : List Value}
    (hrole : n.role = .operation o arguments extras) {args : List (Argument α)}
    (hargs : Batched.reconcile (arguments.map (w.argumentOf fed free) ++ w.given extras) =
      .ok args) :
    o.apply (e.density w) args = o.apply (w.densityOf fed free) args := by
  apply Operation.apply_congr
  intro a ha
  have hmem := mem_of_density_mem (Argument.density_mem_of_reconcile hargs ha)
  rw [← Node.arguments_of_operation hrole] at hmem
  exact density_of_entries fun r hr q hq => hfilled.argument ((hfinds a hmem).2 r hr q hq)

theorem ends_materializeOperation (hfilled : Filled w fed free latents nodes e)
    (hid : id ∉ nodes) (hn : w.node? id = some n) {o : Operation}
    {arguments : List NodeId} {extras : List Value}
    (hrole : n.role = .operation o arguments extras) (hfinds : w.FindsIn nodes n) :
    Ends (materializeOperation w id o arguments extras) e
      (fun _ e' => Filled w fed free latents (nodes ++ [id]) e')
      (Stops w fed free id) := by
  have hlatent : w.has Node.isLatent id = false := by
    rw [has_of_node? hn, Node.isLatent, hrole]
  have hdistribution : w.has Node.isDistribution id = false := by
    rw [has_of_node? hn, Node.isDistribution, Node.distribution?, hrole]
    rfl
  have harguments := Node.arguments_of_operation hrole
  rw [← harguments]
  unfold materializeOperation
  apply Ends.bind (ends_arguments fun a ha => hfilled.argument (hfinds a ha).1)
  intro ys e' hys
  rcases hys with ⟨rfl, rfl⟩
  have heval : w.evaluate fed free id = (Batched.reconcile
      (n.arguments.map (w.argumentOf fed free) ++ w.given extras)).toOption.bind
        fun args => (o.apply (w.densityOf fed free) args).toOption := by
    rw [harguments]
    apply evaluate_operation hn hrole
    intro a ha
    rw [← harguments] at ha
    exact isReadable_of_findsIn (fun p => hfilled.isSettled) hfinds ha
  rw [ends_bind]
  apply ends_reconcile
  · intro args hargs
    rw [hargs] at heval
    rw [ends_bind, ends_get, ends_bind, ends_ofExcept,
      apply_densities hfilled hfinds hrole (harguments ▸ hargs)]
    constructor
    · intro t ht
      apply ends_assign (hfilled.fresh hid (by decide))
      apply hfilled.add_value hid hlatent _ (fitsFeed_of_role hn (by simp [hrole]))
      constructor
      · intro _
        refine ⟨t, ?_, rfl⟩
        rw [heval]
        simp [Except.toOption, ht]
      · intro htrue
        rw [hdistribution] at htrue
        cases htrue
    · intro f hf
      refine ⟨isEntryFault_of_apply hf, Obstructed.value hdistribution ?_⟩
      rw [heval]
      simp [Except.toOption, hf]
  · intro sizes hsizes
    rw [hsizes] at heval
    exact ⟨rfl, Obstructed.value hdistribution heval⟩

theorem ends_materializeLatent (hfilled : Filled w fed free latents nodes e)
    (hid : id ∉ nodes) (hlatents : id ∈ latents) (hn : w.node? id = some n)
    {b : Interval} {c : Constraint} {size : Nat} (hrole : n.role = .latent b c size) :
    Ends (materializeLatent w id n.dim b c) e
      (fun _ e' => Filled w fed free latents (nodes ++ [id]) e')
      (Stops w fed free id) := by
  have hlatent : w.has Node.isLatent id = true := by
    rw [has_of_node? hn, Node.isLatent, hrole]
  have hdistribution : w.has Node.isDistribution id = false := by
    rw [has_of_node? hn, Node.isDistribution, Node.distribution?, hrole]
    rfl
  rcases hfilled.frees id hlatents with ⟨t, hfree, hget⟩
  have heval : w.evaluate fed free id = (c.fromFree b n.dim t).toOption :=
    evaluate_latent hn hrole hfree
  have hadj : w.adjustment free id = (c.logJacobianBetween b t).toOption :=
    adjustment_latent hn hrole hfree
  unfold materializeLatent
  rw [ends_bind]
  apply ends_entry hget
  simp only [ends_bind]
  rw [ends_ofExcept]
  constructor
  · intro a ha
    rw [ha] at hadj
    apply ends_assign (hfilled.fresh hid (by decide))
    rw [ends_ofExcept]
    constructor
    · intro value hvalue
      rw [hvalue] at heval
      apply ends_assign
      · rw [Environment.keys_add]
        intro hmem
        rcases List.mem_append.mp hmem with hold | hlast
        · exact hfilled.fresh hid (by decide) hold
        · simp at hlast
      · apply hfilled.add_latent hid hlatent hadj
        constructor
        · intro _
          exact ⟨value, heval, rfl⟩
        · intro htrue
          rw [hdistribution] at htrue
          cases htrue
    · intro f hf
      rw [hf] at heval
      exact ⟨isEntryFault_of_fromFree hf, Obstructed.value hdistribution heval⟩
  · intro f hf
    rw [hf] at hadj
    exact ⟨isEntryFault_of_logJacobianBetween hf, Obstructed.adjustment hlatent hadj⟩

theorem ends_materialize (hfilled : Filled w fed free latents nodes e) (hid : id ∉ nodes)
    (hlatents : w.has Node.isLatent id = true -> id ∈ latents)
    (hfinds : forall n, w.node? id = some n -> w.FindsIn nodes n)
    (hfeeds : forall n, w.node? id = some n -> n.isData = true ->
      ∃ v, fed.lookup id = some v ∧ n.Feedable v) :
    Ends (materialize w id) e
      (fun _ e' => Filled w fed free latents (nodes ++ [id]) e')
      (Stops w fed free id) := by
  unfold materialize
  cases hn : w.node? id with
  | none => exact ⟨rfl, Obstructed.absent hn⟩
  | some n =>
      simp only
      cases hrole : n.role with
      | data =>
          have hdata : n.isData = true := by
            rw [Node.isData, hrole]
          rcases hfeeds n hn hdata with ⟨v, hfed, hv⟩
          exact ends_materializeData hfilled hid hn hrole hfed hv
      | operation o arguments extras =>
          exact ends_materializeOperation hfilled hid hn hrole (hfinds n hn)
      | latent b c size =>
          have hmem : id ∈ latents := by
            apply hlatents
            rw [has_of_node? hn, Node.isLatent, hrole]
          exact ends_materializeLatent hfilled hid hmem hn hrole
      | distribution d =>
          have hdistribution : w.has Node.isDistribution id = true := by
            rw [has_of_node? hn, Node.isDistribution, Node.distribution?, hrole]
            rfl
          have hlatent : w.has Node.isLatent id = false := by
            rw [has_of_node? hn, Node.isLatent, hrole]
          apply ends_assign (hfilled.fresh hid (by decide))
          apply hfilled.add_value hid hlatent _ (fitsFeed_of_role hn (by simp [hrole]))
          constructor
          · intro hfalse
            rw [hdistribution] at hfalse
            cases hfalse
          · intro _
            rfl

/-!
# The whole pass
-/

def Refuses (w : Workspace) (d : Dag) (fed : List (NodeId × Value))
    (free : NodeId → Option (Except Refusal (Tensor α))) : Prop :=
  (∃ id, id ∈ d.latents w ∧ ¬w.AcceptsFree free id) ∨
    ∃ id, id ∈ d.nodes ∧ w.Obstructed fed free id

theorem ends_assignFree (hfilled : Filled w fed free latents [] e) (hid : id ∉ latents) :
    Ends (assignFree w free id) e
      (fun _ e' => Filled w fed free (latents ++ [id]) [] e')
      (fun f _ => f.isEntryFault = false ∧ ¬w.AcceptsFree free id) := by
  unfold assignFree
  cases hfree : free id with
  | none =>
      refine ⟨rfl, ?_⟩
      rintro ⟨t, rows, hsome, _⟩
      rw [hfree] at hsome
      cases hsome
  | some x =>
      simp only [ends_bind]
      rw [ends_ofRefusal]
      constructor
      · intro t ht
        rw [ht] at hfree
        rw [ends_ite]
        constructor
        · intro hshape
          rw [ends_bind]
          refine ⟨rfl, ?_⟩
          rintro ⟨u, rows, hsome, hu⟩
          rw [hfree] at hsome
          cases hsome
          simp [Tensor.rank, hu] at hshape
        · intro _
          apply ends_assign (hfilled.fresh_free hid)
          exact hfilled.add_free hid hfree
      · intro r hr
        rw [hr] at hfree
        refine ⟨rfl, ?_⟩
        rintro ⟨u, rows, hsome, _⟩
        rw [hfree] at hsome
        cases hsome

theorem findsIn_of_parentsFirst {done rest : List NodeId}
    (horder : Order.ParentsFirst w.parents (done ++ id :: rest)) (hn : w.node? id = some n)
    (h : w.FindsArguments n) : w.FindsIn done n := by
  intro a ha
  rcases h a ha with ⟨hparent, hparameters⟩
  rw [← parents_of_node? hn] at hparent
  have hmem : a ∈ done := horder done id rest rfl a hparent
  exact ⟨hmem, fun r hr q hq => horder.of_append.mem_of_mem hmem (hparameters r hr q hq)⟩

theorem ends_materializeAll {d : Dag} (hnodup : d.nodes.Nodup)
    (horder : Order.ParentsFirst w.parents d.nodes)
    (hfinds : forall id n, id ∈ d.nodes -> w.node? id = some n -> w.FindsArguments n)
    (hfeeds : w.FeedsData d fed) (hstart : Filled w fed free [] [] e) :
    Ends (materializeAll w d free) e
      (fun _ e' => Filled w fed free (d.latents w) d.nodes e')
      (fun f _ => f.isEntryFault = false ∧ Refuses w d fed free) := by
  unfold materializeAll
  have hlatents : (d.latents w).Nodup := hnodup.filter _
  -- The same invariant carries both loops: first the variables grow in it, and then the nodes.
  have hfree : Ends ((d.latents w).forM (assignFree w free)) e
      (fun _ e' => Filled w fed free (d.latents w) [] e')
      (fun f _ => f.isEntryFault = false ∧ Refuses w d fed free) := by
    apply Ends.forM (P := fun done e' => Filled w fed free done [] e') hstart
    intro done id rest e' hsplit hfilled
    have hid : id ∉ done := by
      rw [hsplit] at hlatents
      exact fun hmem => (List.disjoint_of_nodup_append hlatents) hmem List.mem_cons_self
    apply (ends_assignFree hfilled hid).mono
    · intro _ _ h
      exact h
    · intro f _ hf
      refine ⟨hf.1, Or.inl ⟨id, ?_, hf.2⟩⟩
      rw [hsplit]
      exact List.mem_append.mpr (Or.inr List.mem_cons_self)
  apply Ends.bind hfree
  intro _ e' hfilled
  apply Ends.forM (P := fun done e'' => Filled w fed free (d.latents w) done e'') hfilled
  intro done id rest e'' hsplit hdone
  have hmem : id ∈ d.nodes := by
    rw [hsplit]
    exact List.mem_append.mpr (Or.inr List.mem_cons_self)
  have hid : id ∉ done := by
    rw [hsplit] at hnodup
    exact fun hmem => (List.disjoint_of_nodup_append hnodup) hmem List.mem_cons_self
  have horder' : Order.ParentsFirst w.parents (done ++ id :: rest) := hsplit ▸ horder
  apply (ends_materialize hdone hid _
    (fun n hn => findsIn_of_parentsFirst horder' hn (hfinds id n hmem hn)) _).mono
  · intro _ _ h
    exact h
  · intro f _ hf
    exact ⟨hf.1, Or.inr ⟨id, hmem, hf.2⟩⟩
  · intro hlatent
    exact mem_select.mpr ⟨hmem, hlatent⟩
  · intro n hn hdata
    exact hfeeds id n hmem hn hdata

end Pass
end DensityGraph
