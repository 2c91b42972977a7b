import DensityGraph.Proofs.Evaluation.Reading
/-!
# Densities at matched arguments
-/

namespace DensityGraph

variable {α : Type} [Scalar α]

namespace Distribution

variable {d : Distribution} {w : Workspace} {id : NodeId} {n : Node} {dim : Shape}
  {p : Precision} {x : Argument α} {values : List (Argument α)} {t z : Tensor α}
  {ps : List (Tensor α)} {parameters : List (String × Argument α)}

theorem logDensity_eq (hblank : d.family ≠ .blank) (hx : x.toTensor = .ok t)
    (hps : d.familyParameters parameters = .ok ps) :
    d.logDensity dim parameters x = Refusal.lift (d.logs dim (t :: ps)) := by
  unfold logDensity
  rw [if_neg hblank, hps, hx]
  rfl

theorem logMass_eq {label : Label} {i : Interval} (htruncation : d.truncation = some i)
    (hps : d.familyParameters parameters = .ok ps) :
    d.logMass label p parameters = Refusal.lift (d.mass p i ps) := by
  unfold logMass
  rw [htruncation]
  simp only
  rw [hps]
  rfl

/-- The density of a distribution is made of the tensors of the target and the parameters
of the family. -/
theorem densityOf_eq (hp : w.settings.tensorPrecision w.wide = .ok p)
    (hblank : d.family ≠ .blank) (hx : x.toTensor = .ok t)
    (hps : d.familyParameters ((d.parameters.map Prod.fst).zip values) = .ok ps) :
    d.densityOf w id n (x :: values) = Refusal.lift (d.total p n.dim (t :: ps)) := by
  unfold densityOf
  simp only
  rw [logDensity_eq hblank hx hps, hp]
  unfold total
  cases htruncation : d.truncation with
  | none =>
      simp only [Option.isNone_none, if_true]
      cases d.logs n.dim (t :: ps) with
      | error r => rfl
      | ok logs => rfl
  | some i =>
      cases d.logs n.dim (t :: ps) with
      | error r => rfl
      | ok logs =>
          have hmass : d.logMass (n.label id) p ((d.parameters.map Prod.fst).zip values) =
              Refusal.lift (d.mass p i ps) := logMass_eq htruncation hps
          change (d.logMass (n.label id) p ((d.parameters.map Prod.fst).zip values) >>=
            fun mass => do
              return (← Refusal.lift (Tensor.elementwise (· - ·) logs mass)).sumEvent) = _
          rw [hmass]
          change _ = Refusal.lift (Except.map Tensor.sumEvent (d.mass p i ps >>= fun mass =>
            Tensor.elementwise (· - ·) logs mass))
          cases d.mass p i ps with
          | error r => rfl
          | ok mass =>
              change (Refusal.lift (Tensor.elementwise (· - ·) logs mass) >>= fun q =>
                pure q.sumEvent) = Refusal.lift (Except.map Tensor.sumEvent
                  (Tensor.elementwise (· - ·) logs mass))
              cases Tensor.elementwise (· - ·) logs mass with
              | error r => rfl
              | ok q => rfl

theorem exists_of_densityOf (h : d.densityOf w id n (x :: values) = .ok z) :
    d.family ≠ .blank ∧ ∃ t ps, x.toTensor = .ok t ∧
      d.familyParameters ((d.parameters.map Prod.fst).zip values) = .ok ps := by
  unfold densityOf logDensity at h
  simp only at h
  by_cases hblank : d.family = .blank
  · rw [if_pos hblank] at h
    cases h
  · rw [if_neg hblank] at h
    refine ⟨hblank, ?_⟩
    cases hps : d.familyParameters ((d.parameters.map Prod.fst).zip values) with
    | error r =>
        rw [hps] at h
        cases h
    | ok ps =>
        cases hx : x.toTensor with
        | error r =>
            rw [hps, hx] at h
            cases h
        | ok t => exact ⟨t, ps, rfl, rfl⟩

/-!
# Parameters by node
-/

def inputs? (d : Distribution) : Option (List NodeId) :=
  d.family.parameterNames.mapM fun name => d.parameters.lookup name

theorem lookup_map {β γ : Type} (f : β → γ) (name : String) (pairs : List (String × β)) :
    (pairs.map fun q => (q.1, f q.2)).lookup name = (pairs.lookup name).map f := by
  induction pairs with
  | nil => rfl
  | cons q pairs ih =>
      rw [List.map_cons, List.lookup_cons, List.lookup_cons, ih]
      cases name == q.1 with
      | true => rfl
      | false => rfl

theorem mem_of_lookup {β : Type} {name : String} {y : β} {pairs : List (String × β)}
    (h : pairs.lookup name = some y) : (name, y) ∈ pairs := by
  induction pairs with
  | nil => cases h
  | cons q pairs ih =>
      rw [List.lookup_cons] at h
      cases hname : name == q.1 with
      | true =>
          rw [hname] at h
          cases h
          rw [eq_of_beq hname]
          exact List.mem_cons_self
      | false =>
          rw [hname] at h
          exact List.mem_cons_of_mem q (ih h)

theorem mem_parameters_of_inputs {ids : List NodeId} (h : d.inputs? = some ids) :
    List.Forall₂ (fun name id => (name, id) ∈ d.parameters) d.family.parameterNames ids := by
  apply (mapM_eq_some_iff.mp h).imp
  intro name id hlookup
  exact mem_of_lookup hlookup

theorem familyParameters_ok {f : NodeId → Argument α} {ids : List NodeId}
    (hids : d.inputs? = some ids) {u : NodeId → Tensor α}
    (hu : forall id, id ∈ ids -> (f id).toTensor = .ok (u id)) :
    d.familyParameters (d.parameters.map fun q => (q.1, f q.2)) = .ok (ids.map u) := by
  unfold familyParameters
  rw [mapM_eq_ok_iff, List.forall₂_map_right_iff]
  have hmem : List.Forall₂ (fun name id => id ∈ ids ∧ d.parameters.lookup name = some id)
      d.family.parameterNames ids :=
    ((List.forall₂_and_left _ _).mpr ⟨fun _ h => h, (mapM_eq_some_iff.mp hids).flip⟩).flip
  apply hmem.imp
  intro name id h
  rw [lookup_map, h.2, Option.map_some]
  exact hu id h.1

theorem exists_inputs {f : NodeId → Argument α}
    (h : d.familyParameters (d.parameters.map fun q => (q.1, f q.2)) = .ok ps) :
    ∃ ids, d.inputs? = some ids ∧ forall id, id ∈ ids -> ∃ u, (f id).toTensor = .ok u := by
  unfold familyParameters at h
  rw [mapM_eq_ok_iff] at h
  unfold inputs?
  generalize d.family.parameterNames = names at h
  induction h with
  | nil => exact ⟨[], rfl, nofun⟩
  | @cons name u names us hfirst _ ih =>
      rcases ih with ⟨ids, hids, htensors⟩
      rw [lookup_map] at hfirst
      cases hname : d.parameters.lookup name with
      | none =>
          rw [hname] at hfirst
          cases hfirst
      | some id =>
          rw [hname] at hfirst
          rw [List.mapM_cons, hname, hids]
          refine ⟨id :: ids, rfl, ?_⟩
          intro id' hid'
          rcases List.mem_cons.mp hid' with rfl | hid'
          · exact ⟨u, hfirst⟩
          · exact htensors id' hid'

omit [Scalar α] in
theorem zip_parameters (f : NodeId → Argument α) :
    (d.parameters.map Prod.fst).zip ((d.parameters.map Prod.snd).map f) =
      d.parameters.map fun q => (q.1, f q.2) := by
  rw [List.map_map, List.zip_map', List.map_congr_left]
  intro q _
  rfl

end Distribution

/-!
# A run and the run of a chain

Arguments of a run are matched to their common batch size, and those of the run of a chain
stay single rows.  Where all of them have equally many axes, a density at the one is an entry
of that at the other.
-/

section Chains

variable {f f' : NodeId → Argument α} {dims : NodeId → Shape} {ids : List NodeId} {rows i : Nat}

def batchOf (rows : Nat) (args : List (Argument α)) : Nat :=
  Tensor.batch rows (args.filterMap Argument.tensor?)

omit [Scalar α] in
theorem ne_extra_of_isChain [Inhabited α] {d : Shape} {a b : Argument α}
    (h : Argument.IsChain rows i d a b) (v : Extra) : a ≠ .extra v ∧ b ≠ .extra v := by
  cases h with
  | tensor t u _ => exact ⟨nofun, nofun⟩
  | density id => exact ⟨nofun, nofun⟩

omit [Scalar α] in
theorem rows_of_isChain [Inhabited α] {d : Shape} {a b : Argument α} {t : Tensor α}
    (h : Argument.IsChain rows i d a b) (ha : a = .tensor t) : Tensor.HasRows rows d t := by
  cases h with
  | tensor t' u hchain =>
      cases ha
      exact hchain.rows
  | density id => cases ha

omit [Scalar α] in
theorem shape_of_isChain [Inhabited α] {d : Shape} {a b : Argument α} {u : Tensor α}
    (h : Argument.IsChain rows i d a b) (hb : b = .tensor u) : u.shape = 1 :: d := by
  cases h with
  | tensor t u' hchain =>
      cases hb
      exact hchain.shape
  | density id => cases hb

theorem reconciled_chains
    (hargs : forall q, q ∈ ids -> Argument.IsChain rows i (dims q) (f q) (f' q)) :
    Batched.reconciled (ids.map f) =
        .ok (ids.map fun q => (f q).matched (batchOf rows (ids.map f))) ∧
      Batched.reconciled (ids.map f') = .ok (ids.map f') := by
  unfold Batched.reconciled
  constructor
  · rw [Tensor.reconcile_arguments (n := rows), List.map_map]
    · rfl
    · intro v hv
      rcases List.mem_map.mp hv with ⟨q, hq, heq⟩
      exact (ne_extra_of_isChain (hargs q hq) v).1 heq
    · intro t ht
      rcases List.mem_map.mp ht with ⟨q, hq, heq⟩
      exact ⟨_, rows_of_isChain (hargs q hq) heq⟩
  · rw [Tensor.reconcile_single]
    · intro v hv
      rcases List.mem_map.mp hv with ⟨q, hq, heq⟩
      exact (ne_extra_of_isChain (hargs q hq) v).2 heq
    · intro u hu
      rcases List.mem_map.mp hu with ⟨q, hq, heq⟩
      exact ⟨_, shape_of_isChain (hargs q hq) heq⟩

theorem exists_tensor_of_isChain {d : Shape} {a b : Argument α} {u : Tensor α}
    (h : Argument.IsChain rows i d a b) (hb : b.toTensor = .ok u) :
    ∃ t, a = .tensor t ∧ b = .tensor u ∧ Tensor.IsChain rows i d t u := by
  cases h with
  | tensor t u' hchain =>
      cases hb
      exact ⟨t, rfl, rfl, hchain⟩
  | density id => cases hb

theorem lift_eq_ok {β : Type} {x : Except Refusal β} {y : β} :
    Refusal.lift x = .ok y ↔ x = .ok y := by
  cases x with
  | error r =>
      constructor
      · rintro ⟨⟩
      · rintro ⟨⟩
  | ok z =>
      constructor
      · rintro ⟨⟩
        rfl
      · rintro ⟨⟩
        rfl

namespace Distribution

variable {d : Distribution} {w : Workspace} {id target : NodeId} {n : Node} {p : Precision}
  {z : Tensor α}

theorem densityOf_tensors (hp : w.settings.tensorPrecision w.wide = .ok p)
    (hblank : d.family ≠ .blank) (hids : d.inputs? = some ids) {t : NodeId → Tensor α}
    (ht : forall q, q ∈ target :: ids -> (f q).toTensor = .ok (t q)) :
    d.densityOf w id n (f target :: (d.parameters.map Prod.snd).map f) =
      Refusal.lift (d.total p n.dim ((target :: ids).map t)) := by
  apply densityOf_eq hp hblank (ht target List.mem_cons_self)
  rw [zip_parameters]
  exact familyParameters_ok hids fun q hq => ht q (List.mem_cons_of_mem _ hq)

theorem mem_reads_of_inputs (hids : d.inputs? = some ids) :
    forall q, q ∈ target :: ids -> q ∈ target :: d.parameters.map Prod.snd := by
  intro q hq
  rcases List.mem_cons.mp hq with rfl | hq
  · exact List.mem_cons_self
  · rcases exists_left_of_forall₂ (mem_parameters_of_inputs hids) hq with ⟨name, _, hname⟩
    exact List.mem_cons_of_mem _ (List.mem_map.mpr ⟨_, hname, rfl⟩)

theorem exists_of_densityOf_chain
    (hargs : forall q, q ∈ target :: d.parameters.map Prod.snd ->
      Argument.IsChain rows i (dims q) (f q) (f' q))
    (hok : d.densityOf w id n (f' target :: (d.parameters.map Prod.snd).map f') = .ok z) :
    d.family ≠ .blank ∧ ∃ ids, d.inputs? = some ids ∧ forall q, q ∈ target :: ids ->
      ∃ t u, f q = .tensor t ∧ f' q = .tensor u ∧ Tensor.IsChain rows i (dims q) t u := by
  rcases exists_of_densityOf hok with ⟨hblank, u₀, us, hu₀, hus⟩
  rw [zip_parameters] at hus
  rcases exists_inputs hus with ⟨ids, hids, htensors⟩
  refine ⟨hblank, ids, hids, ?_⟩
  intro q hq
  have htensor : ∃ u, (f' q).toTensor = .ok u := by
    rcases List.mem_cons.mp hq with rfl | hq
    · exact ⟨u₀, hu₀⟩
    · exact htensors q hq
  rcases htensor with ⟨u, hu⟩
  rcases exists_tensor_of_isChain (hargs q (mem_reads_of_inputs hids q hq)) hu with
    ⟨t, ht, hu', hchain⟩
  exact ⟨t, u, ht, hu', hchain⟩

section Totals

variable {t u : NodeId → Tensor α} {dim : Shape} {k : Nat}

theorem exists_total_of_aligned (hi : i < rows) (haligned : Aligned d ((target :: ids).map dims))
    (hchains : forall q, q ∈ target :: ids -> Tensor.IsChain rows i (dims q) (t q) (u q))
    (hk : k = 1 ∨ k = rows)
    (hmatched : forall q, q ∈ target :: ids -> (t q).shape.head? = some rows -> k = rows)
    (hz : d.total p dim ((target :: ids).map u) = .ok z) :
    ∃ r, d.total p dim ((target :: ids).map fun q => (t q).matched k) = .ok r ∧
      Tensor.IsChain rows i [] r z := by
  have hshapes : List.Forall₂ (fun t e => t.shape = 1 :: e) ((target :: ids).map u)
      ((target :: ids).map dims) := by
    rw [List.forall₂_map_left_iff, List.forall₂_map_right_iff, List.forall₂_same]
    intro q hq
    exact (hchains q hq).shape
  rcases (total_rowWise haligned hshapes hz).isChain hi hk hchains hmatched with
    ⟨r, z', hr, hz', hrz, _⟩
  rw [hz] at hz'
  cases hz'
  exact ⟨r, hr, hrz⟩

theorem exists_total_of_single (hfamily : d.family.isMatrix = false)
    (hblank : d.family ≠ .blank) (hids : d.inputs? = some ids)
    (hchains : forall q, q ∈ target :: ids -> Tensor.IsChain rows i (dims q) (t q) (u q))
    (hsingle : forall q, q ∈ target :: ids -> (t q).shape.head? = some 1)
    (hz : d.total p dim ((target :: ids).map u) = .ok z) :
    ∃ r, d.total p dim ((target :: ids).map fun q => (t q).matched 1) = .ok r ∧
      Tensor.IsChain rows i [] r z := by
  have hsame : forall q, q ∈ target :: ids -> (t q).matched 1 = u q := by
    intro q hq
    rcases (hchains q hq).rows with ⟨j, hj, _⟩
    have hhead := hsingle q hq
    rw [hj, List.head?_cons, Option.some.injEq] at hhead
    rw [hhead] at hj
    rw [Tensor.matched_self hj, (hchains q hq).eq hj]
  have hshape : z.shape = [1] := by
    apply shape_total_single hfamily hblank _ _ hz
    · rw [List.length_map, List.length_cons, (mem_parameters_of_inputs hids).length_eq]
    · intro r hr
      rcases List.mem_map.mp hr with ⟨q, hq, rfl⟩
      rw [(hchains q hq).shape, List.head?_cons]
  rw [List.map_congr_left hsame]
  exact ⟨z, hz, Tensor.isChain_self hshape⟩

end Totals

section Batches

variable {qs : List NodeId} {t : Tensor α} {q : NodeId}

omit [Scalar α] in
theorem batchOf_eq (args : List (Argument α)) :
    batchOf rows args = 1 ∨ batchOf rows args = rows := by
  rcases Tensor.batch_eq rows (args.filterMap Argument.tensor?) with h | h
  · exact Or.inr h.1
  · exact Or.inl h.1

omit [Scalar α] in
theorem batchOf_of_mem (hq : q ∈ qs) (ht : f q = .tensor t) (h : t.shape.head? = some rows) :
    batchOf rows (qs.map f) = rows := by
  apply Tensor.batch_of_mem _ h
  exact List.mem_filterMap.mpr ⟨f q, List.mem_map.mpr ⟨q, hq, rfl⟩, by rw [ht]; rfl⟩

omit [Scalar α] in
theorem batchOf_of_single
    (h : forall q, q ∈ qs -> forall t, f q = .tensor t -> t.shape.head? = some 1) :
    batchOf rows (qs.map f) = 1 := by
  apply Tensor.batch_of_single
  intro r hr
  rcases List.mem_filterMap.mp hr with ⟨a, ha, har⟩
  rcases List.mem_map.mp ha with ⟨q, hq, rfl⟩
  cases hcase : f q with
  | tensor t =>
      rw [hcase] at har
      cases har
      exact h q hq r hcase
  | _ =>
      rw [hcase] at har
      cases har

end Batches

/-- The density of a chain is an entry of the density of the run, if the tensors have
equally many axes or single rows. -/
theorem densityOf_isChain (hi : i < rows) (hp : w.settings.tensorPrecision w.wide = .ok p)
    (hargs : forall q, q ∈ target :: d.parameters.map Prod.snd ->
      Argument.IsChain rows i (dims q) (f q) (f' q))
    (haligned : forall ids, d.family ≠ .blank -> d.inputs? = some ids ->
      Aligned d ((target :: ids).map dims) ∨ d.family.isMatrix = false ∧
        forall q, q ∈ target :: d.parameters.map Prod.snd -> forall t, f q = .tensor t ->
          t.shape.head? = some 1)
    (hok : (Batched.reconciled ((target :: d.parameters.map Prod.snd).map f') >>=
      d.densityOf w id n) = .ok z) :
    ∃ r, (Batched.reconciled ((target :: d.parameters.map Prod.snd).map f) >>=
        d.densityOf w id n) = .ok r ∧ Tensor.IsChain rows i [] r z := by
  rcases reconciled_chains hargs with ⟨hrun, hchain⟩
  rw [hchain, List.map_cons] at hok
  change d.densityOf w id n (f' target :: (d.parameters.map Prod.snd).map f') = .ok z at hok
  rcases exists_of_densityOf_chain hargs hok with ⟨hblank, ids, hids, hread⟩
  have hmem : forall q, q ∈ target :: ids -> q ∈ target :: d.parameters.map Prod.snd :=
    mem_reads_of_inputs hids
  choose! t u ht hu hchains using hread
  rw [densityOf_tensors hp hblank hids fun q hq => by rw [hu q hq]; rfl, lift_eq_ok] at hok
  have hmatched : forall k, d.densityOf w id n ((f target).matched k ::
      (d.parameters.map Prod.snd).map fun q => (f q).matched k) =
        Refusal.lift (d.total p n.dim ((target :: ids).map fun q => (t q).matched k)) := by
    intro k
    apply densityOf_tensors (f := fun q => (f q).matched k) hp hblank hids
    intro q hq
    rw [ht q hq]
    rfl
  rw [hrun, List.map_cons]
  change ∃ r, d.densityOf w id n ((f target).matched _ ::
    (d.parameters.map Prod.snd).map fun q => (f q).matched _) = .ok r ∧ _
  rw [hmatched]
  simp only [lift_eq_ok]
  rcases haligned ids hblank hids with haligned | ⟨hfamily, hsingle⟩
  · apply exists_total_of_aligned hi haligned hchains (batchOf_eq _) _ hok
    intro q hq hhead
    exact batchOf_of_mem (hmem q hq) (ht q hq) hhead
  · rw [batchOf_of_single hsingle]
    apply exists_total_of_single hfamily hblank hids hchains _ hok
    intro q hq
    exact hsingle q (hmem q hq) (t q) (ht q hq)

end Distribution

end Chains
end DensityGraph
