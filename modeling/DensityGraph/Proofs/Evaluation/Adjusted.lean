import DensityGraph.Proofs.Scalar.Real
import DensityGraph.Proofs.Evaluation.Defined
import DensityGraph.Proofs.Evaluation.Joint
/-!
# The adjustment of the joint density

With adjustment the Jacobians of the variables are added to the joint density.  A Jacobian has
a row for every chain, but the density of a distribution that no variable leads to has a single
one, and without any distribution the sum is a single zero.
-/

namespace DensityGraph

open Tensor

variable {α : Type} [Scalar α]

/-!
# Sums of single rows and of full rows
-/

namespace Tensor

variable {n i : Nat} {t : Tensor α} {ts : List (Tensor α)}

theorem get_matched_single (ht : t.shape = [1]) (hi : i < n) :
    (t.matched n).get [i] = t.get [0] := by
  have hwithin : Shape.Within [] [] := trivial
  have hshape : (t.repeatRows n).shape = [n] := shape_repeatRows ht n
  rw [matched_single ht, ← get_row hshape hwithin, row_repeatRows ht hi, get_row ht hwithin]

theorem IsTotal.get_matched (h : IsTotal ts t)
    (hts : forall u, u ∈ ts -> u.shape = [1] ∨ u.shape = [n]) (ht : t.shape = [1] ∨ t.shape = [n])
    (hi : i < n) : (t.matched n).get [i] = Scalar.sum (ts.map fun u => (u.matched n).get [i]) := by
  rcases ht with hone | hfull
  · have hterms : forall u, u ∈ ts -> u.shape = [1] := by
      intro u hu
      have hshape := h.shape u hu
      rw [hone, List.headD_cons] at hshape
      rcases hts u hu with hu | hu
      · exact hu
      · by_cases hn : n = 1
        · rw [hu, hn]
        · unfold matched at hshape
          rw [hu, List.head?_cons, if_neg (fun heq => hn (Option.some.inj heq)), hu] at hshape
          exact absurd (List.head_eq_of_cons_eq hshape) hn
    rw [get_matched_single hone hi, h.get [0] (by rw [hone]; exact ⟨Nat.one_pos, trivial⟩), hone,
      List.headD_cons]
    congr 1
    apply List.map_congr_left
    intro u hu
    rw [matched_self (hterms u hu), get_matched_single (hterms u hu) hi]
  · rw [matched_self hfull, h.get [i] (by rw [hfull]; exact ⟨hi, trivial⟩), hfull,
      List.headD_cons]

end Tensor

namespace Environment

variable {k : Nat} {ts : List (Tensor α)} {zero : Tensor α}

omit [Scalar α] in
theorem haveRows_of_shapes (hts : forall t, t ∈ ts -> t.shape = [1] ∨ t.shape = [k])
    (hfull : k = 1 ∨ ∃ t, t ∈ ts ∧ t.shape = [k]) : HaveRows k ts := by
  constructor
  · rcases hfull with hone | ⟨t, ht, hshape⟩
    · exact Or.inl hone
    · exact Or.inr ⟨t, ht, by rw [hshape, List.head?_cons]⟩
  · intro t ht m hm
    rcases hts t ht with hshape | hshape
    · rw [hshape] at hm
      exact Or.inl (Option.some.inj hm).symm
    · rw [hshape] at hm
      exact Or.inr (Option.some.inj hm).symm

theorem exists_sumTerms (hzero : zero.shape = [1])
    (hts : forall t, t ∈ ts -> t.shape = [1] ∨ t.shape = [k])
    (hfull : k = 1 ∨ ∃ t, t ∈ ts ∧ t.shape = [k]) :
    ∃ y, sumTerms zero (ts.map Argument.tensor) = .ok y ∧ y.shape = [k] := by
  have hmatched := (haveRows_of_shapes hts hfull).reconciled
  by_cases hempty : ts = []
  · refine ⟨zero, (sumTerms_ok_iff hmatched).mpr (Or.inl ⟨by rw [hempty]; rfl, rfl⟩), ?_⟩
    rcases hfull with hone | ⟨t, ht, _⟩
    · rw [hzero, hone]
    · rw [hempty] at ht
      cases ht
  · refine ⟨sumOf [k] (ts.map (Tensor.matched k)),
      (sumTerms_ok_iff hmatched).mpr (Or.inr ⟨?_, ?_, rfl⟩), rfl⟩
    · exact fun hnil => hempty (List.map_eq_nil_iff.mp hnil)
    · intro u hu
      rcases List.mem_map.mp hu with ⟨t, ht, rfl⟩
      rcases hts t ht with hshape | hshape
      · rw [matched_single hshape]
        exact shape_repeatRows hshape k
      · rw [matched_self hshape, hshape]
        rfl

/-!
# Jacobians and densities in an environment
-/

open Workspace

variable {w : Workspace} {d : Dag} {fed : List (NodeId × Value)}
  {free : NodeId → Option (Except Refusal (Tensor α))} {n : Nat} {id : NodeId}
  {e : Environment α} {p : Precision} {ids latents : List NodeId} {js : List (Tensor α)}

theorem Faithful.exists_jacobians [CustomCode α] (he : e.Faithful w d fed free)
    (hlatents : forall id, id ∈ latents -> id ∈ d.latents w) :
    ∃ js, e.arguments w .adjustment latents = .ok (js.map Argument.tensor) ∧
      List.Forall₂ (fun x j => w.adjustment free x = some j) latents js := by
  have hall : forall id, id ∈ latents -> ∃ j, w.adjustment free id = some j ∧
      e.get? id .adjustment = some (.tensor j) := fun id hid => he.adjustments id (hlatents id hid)
  choose! j hj hget using hall
  refine ⟨latents.map j, ?_, ?_⟩
  · unfold arguments
    rw [mapM_eq_ok_iff, List.map_map, List.forall₂_map_right_iff, List.forall₂_same]
    intro id hid
    rw [read_ok_iff.mpr (hget id hid)]
    rfl
  · rw [List.forall₂_map_right_iff, List.forall₂_same]
    exact hj

theorem joint_of_terms (hp : w.settings.tensorPrecision w.wide = .ok p)
    (hts : ids.mapM (e.term w) = .ok (ts.map Argument.tensor))
    (hjs : e.arguments w .adjustment latents = .ok (js.map Argument.tensor)) :
    e.joint w ids latents = sumTerms (Tensor.full [1] (Scalar.constant p 0.0))
      ((ts ++ js).map Argument.tensor) := by
  unfold joint
  rw [hts, hjs, hp, List.map_append]
  rfl

theorem mapM_term_of_joint {y : Tensor α} (h : e.joint w ids latents = .ok y) :
    ∃ args, ids.mapM (e.term w) = .ok args := by
  unfold joint at h
  cases hterms : ids.mapM (e.term w) with
  | error f =>
      rw [hterms] at h
      cases h
  | ok args => exact ⟨args, rfl⟩

end Environment

namespace Workspace

variable {w : Workspace} {free : NodeId → Option (Except Refusal (Tensor α))} {id : NodeId}
  {m : Node} {b : Interval} {size : Nat} {t j : Tensor α}

theorem width_of_adjustment (hm : w.node? id = some m) (hrole : m.role = .latent b .interval size)
    (hfree : free id = some (.ok t)) (hj : w.adjustment free id = some j) :
    Scalar.lessEq ((Scalar.literal b.upper : α) - Scalar.literal b.lower) Scalar.zero = false := by
  rw [adjustment_latent hm hrole hfree] at hj
  unfold Constraint.logJacobianBetween Constraint.logJacobian at hj
  cases hempty : Scalar.lessEq ((Scalar.literal b.upper : α) - Scalar.literal b.lower)
      Scalar.zero with
  | false => rfl
  | true =>
      simp only [hempty, if_true] at hj
      cases hj

end Workspace

/-!
# The joint density with and without adjustment
-/

/-- The joint density `y` with adjustment and `z` without it.  Both are added up from the
densities `ts` of the distributions, and one of them from the Jacobians `js` besides. -/
structure Workspace.Adjusts (w : Workspace) (d : Dag)
    (free : NodeId → Option (Except Refusal (Tensor α))) (n : Nat) (p : Precision)
    (ts js : List (Tensor α)) (y z : Tensor α) : Prop where
  rows : y.shape = [n]
  varying : (∃ id, id ∈ d.distributions w ∧ w.Varies id) -> z.shape = [n]
  steady : (forall id, id ∈ d.distributions w -> ¬w.Varies id) -> z.shape = [1]
  terms : forall t, t ∈ ts -> t.shape = [1] ∨ t.shape = [n]
  jacobians : List.Forall₂ (fun x j => w.adjustment free x = some j ∧ j.shape = [n])
    (d.latents w) js
  adjusted : Environment.sumTerms (Tensor.full [1] (Scalar.constant p 0.0))
    ((ts ++ js).map Argument.tensor) = .ok y
  plain : Environment.sumTerms (Tensor.full [1] (Scalar.constant p 0.0))
    (ts.map Argument.tensor) = .ok z

namespace Environment

open Workspace

variable [CustomCode α] {w : Workspace} {d : Dag}
  {free : NodeId → Option (Except Refusal (Tensor α))} {n : Nat} {e : Environment α}
  {p : Precision} {axes : Nat} {ids : List NodeId} {zero : Tensor α}
  {ts : List (Tensor α)} (hd : w.CompilesModel d) (hfree : d.HasFreeRows w free n)
  (hp : w.settings.tensorPrecision w.wide = .ok p)
  (he : e.Faithful w d (d.currentFeed w) free)
  (haxes : forall id, id ∈ d.nodes -> (w.shape id).length = axes)
  (hprescribes : forall id m r, id ∈ d.distributions w -> w.node? id = some m ->
    m.distribution? = some r -> w.Prescribes m r)

omit [Scalar α] [CustomCode α] in
theorem shape_of_densities (hshapes : List.Forall₂ (w.TermShape n) ids ts) :
    forall t, t ∈ ts -> t.shape = [1] ∨ t.shape = [n] := by
  intro t ht
  rcases exists_left_of_forall₂ hshapes ht with ⟨id, _, hvaries, hsteady⟩
  by_cases hid : w.Varies id
  · exact Or.inr (hvaries hid)
  · exact Or.inl (hsteady hid)

omit [CustomCode α] in
theorem exists_sumTerms_densities (hzero : zero.shape = [1])
    (hshapes : List.Forall₂ (w.TermShape n) ids ts) :
    ∃ z, sumTerms zero (ts.map Argument.tensor) = .ok z ∧
      ((∃ id, id ∈ ids ∧ w.Varies id) -> z.shape = [n]) ∧
      ((forall id, id ∈ ids -> ¬w.Varies id) -> z.shape = [1]) := by
  by_cases hvaries : ∃ id, id ∈ ids ∧ w.Varies id
  · rcases hvaries with ⟨id, hid, hid'⟩
    rcases exists_right_of_forall₂ hshapes hid with ⟨t, ht, hfull, _⟩
    rcases exists_sumTerms hzero (shape_of_densities hshapes)
      (Or.inr ⟨t, ht, hfull hid'⟩) with ⟨z, hz, hshape⟩
    exact ⟨z, hz, fun _ => hshape, fun hnone => absurd hid' (hnone id hid)⟩
  · have hsingle : forall t, t ∈ ts -> t.shape = [1] ∨ t.shape = [1] := by
      intro t ht
      rcases exists_left_of_forall₂ hshapes ht with ⟨id, hid, _, hsteady⟩
      exact Or.inl (hsteady fun hid' => hvaries ⟨id, hid, hid'⟩)
    rcases exists_sumTerms hzero hsingle (Or.inl rfl) with ⟨z, hz, hshape⟩
    exact ⟨z, hz, fun hex => absurd hex hvaries, fun _ => hshape⟩

include hfree he in
theorem hasWidths_of_faithful : w.HasWidths α d := by
  intro id m b size hid hm hrole
  have hlatent := mem_latents hid hm hrole
  rcases hfree id hlatent with ⟨t, ht, _⟩
  rcases he.adjustments id hlatent with ⟨j, hj, _⟩
  exact width_of_adjustment hm hrole ht hj

include hd hfree he in
theorem exists_rows_jacobians : ∃ js,
    e.arguments w .adjustment (d.latents w) = .ok (js.map Argument.tensor) ∧
      List.Forall₂ (fun x j => w.adjustment free x = some j ∧ j.shape = [n]) (d.latents w) js := by
  rcases he.exists_jacobians fun id hid => hid with ⟨js, hargs, hjs⟩
  refine ⟨js, hargs, ?_⟩
  have hmem : List.Forall₂ (fun x j => x ∈ d.latents w ∧ w.adjustment free x = some j)
      (d.latents w) js := (List.forall₂_and_left _ _).mpr ⟨fun _ hx => hx, hjs⟩
  apply hmem.imp
  intro x j hx
  rcases exists_node_of_has (mem_select.mp hx.1).2 with ⟨m, hm, hlatent⟩
  rcases Node.role_of_isLatent hlatent with ⟨b, c, hrole⟩
  have hwidth := (hasWidths_of_faithful hfree he).width (mem_select.mp hx.1).1 hm hrole
  rcases hfree x hx.1 with ⟨t, ht, hshape⟩
  rw [hm] at hshape
  rcases adjustment_latent_rows hwidth (hd.model x m hm) hm hrole with ⟨g, hg⟩
  rcases hg free t n ht hshape with ⟨y, hy, hyshape, _⟩
  rw [hx.2] at hy
  cases hy
  exact ⟨hx.2, hyshape⟩

include hd hfree hp he haxes hprescribes

theorem exists_densities (h : forall id, id ∈ d.distributions w -> w.HasDensity d id) :
    ∃ ts, (d.distributions w).mapM (e.term w) = .ok (ts.map Argument.tensor) ∧
      List.Forall₂ (w.TermShape n) (d.distributions w) ts := by
  have hall : forall id, id ∈ d.distributions w -> ∃ t, e.term w id = .ok (.tensor t) ∧
      w.TermShape n id t := fun id hid =>
    exists_term hd hfree hp he haxes hid (fun m r => hprescribes id m r hid) (h id hid)
  choose! t ht hshapes using hall
  refine ⟨(d.distributions w).map t, ?_, ?_⟩
  · rw [mapM_eq_ok_iff, List.map_map, List.forall₂_map_right_iff, List.forall₂_same]
    exact ht
  · rw [List.forall₂_map_right_iff, List.forall₂_same]
    exact hshapes

theorem hasDensity_of_joint {latents : List NodeId} {y : Tensor α}
    (h : e.joint w (d.distributions w) latents = .ok y) :
    forall id, id ∈ d.distributions w -> w.HasDensity d id := by
  intro id hid
  rcases mapM_term_of_joint h with ⟨args, hargs⟩
  rcases exists_right_of_forall₂ (mapM_eq_ok_iff.mp hargs) hid with ⟨a, _, ha⟩
  exact hasDensity_of_term hd hfree hp he haxes hid (fun m r => hprescribes id m r hid) ha

theorem exists_joint (hlatents : d.latents w ≠ [])
    (h : forall id, id ∈ d.distributions w -> w.HasDensity d id) :
    ∃ ts js y z, e.joint w (d.distributions w) (d.latents w) = .ok y ∧
      e.joint w (d.distributions w) [] = .ok z ∧ w.Adjusts d free n p ts js y z := by
  rcases exists_densities hd hfree hp he haxes hprescribes h with ⟨ts, hts, hshapes⟩
  rcases exists_rows_jacobians hd hfree he with ⟨js, hargs, hjs⟩
  have hterms := shape_of_densities hshapes
  have hjacobians : forall j, j ∈ js -> j.shape = [n] := by
    intro j hj
    rcases exists_left_of_forall₂ hjs hj with ⟨_, _, _, hshape⟩
    exact hshape
  have hzero : (Tensor.full [1] (Scalar.constant p 0.0 : α)).shape = [1] := rfl
  have hnil : e.arguments w .adjustment [] = .ok (([] : List (Tensor α)).map Argument.tensor) := rfl
  have hadjusted : ∃ y, sumTerms (Tensor.full [1] (Scalar.constant p 0.0))
      ((ts ++ js).map Argument.tensor) = .ok y ∧ y.shape = [n] := by
    apply exists_sumTerms hzero
    · intro t ht
      rcases List.mem_append.mp ht with ht | ht
      · exact hterms t ht
      · exact Or.inr (hjacobians t ht)
    · right
      rcases List.exists_mem_of_ne_nil _ hlatents with ⟨x, hx⟩
      rcases exists_right_of_forall₂ hjs hx with ⟨j, hj, _, hshape⟩
      exact ⟨j, List.mem_append_right ts hj, hshape⟩
  rcases hadjusted with ⟨y, hy, hyshape⟩
  rcases exists_sumTerms_densities hzero hshapes with ⟨z, hz, hfull, hsingle⟩
  refine ⟨ts, js, y, z, ?_, ?_, hyshape, hfull, hsingle, hterms, hjs, hy, hz⟩
  · rw [joint_of_terms hp hts hargs, hy]
  · rw [joint_of_terms hp hts hnil, List.append_nil, hz]

end Environment

namespace Dag

open Workspace

variable [CustomCode α] {w : Workspace} {d : Dag}
  {free : NodeId → Option (Except Refusal (Tensor α))} {n : Nat} {axes : Nat}
  (hd : w.CompilesModel d) (hfree : d.HasFreeRows w free n)
  (haxes : forall id, id ∈ d.nodes -> (w.shape id).length = axes)
  (hprescribes : forall id m r, id ∈ d.distributions w -> w.node? id = some m ->
    m.distribution? = some r -> w.Prescribes m r)

include hd hfree haxes hprescribes

theorem conditions_of_jointAt {adjust : Bool} {x : Tensor α}
    (hx : d.jointAt w (d.currentFeed w) free adjust = .ok x) :
    w.settings.validate w.written w.wide = .ok () ∧ w.KnowsMode d ∧
      (forall id, id ∈ d.distributions w -> w.HasDensity d id) ∧ w.HasWidths α d := by
  rcases exists_environment_of_jointAt hx with ⟨e, he⟩
  have hsettings := validate_of_environment he
  rcases precision_of_validate hsettings with ⟨p, hp⟩
  have hfaithful := (environment_ends hd.sorts (fun id n _ => hd.model.findsArguments)
    (feedsData_current w d) free).1 e he
  rw [jointAt_of_environment he, jointIn_eq] at hx
  refine ⟨hsettings, hfaithful.knowsMode, ?_, Environment.hasWidths_of_faithful hfree hfaithful⟩
  exact Environment.hasDensity_of_joint hd hfree hp hfaithful haxes hprescribes hx

/-- Joint densities are there with and without adjustment if the settings are valid, every
distribution has a density and the intervals of the variables have widths. -/
theorem exists_adjusts (hlatents : d.latents w ≠ [])
    (h : w.settings.validate w.written w.wide = .ok () ∧ w.KnowsMode d ∧
      (forall id, id ∈ d.distributions w -> w.HasDensity d id) ∧ w.HasWidths α d) :
    ∃ p ts js y z, d.jointAt w (d.currentFeed w) free true = .ok y ∧
      d.jointAt w (d.currentFeed w) free false = .ok z ∧ w.Adjusts d free n p ts js y z := by
  rcases h with ⟨hsettings, hmode, hserved, hwidths⟩
  rcases precision_of_validate hsettings with ⟨p, hp⟩
  rcases exists_environment hwidths hd.model hd.sorts hd.nodes (supplies_current hmode hfree)
    hsettings with ⟨e, he, hfaithful⟩
  rcases Environment.exists_joint hd hfree hp hfaithful haxes hprescribes hlatents hserved with
    ⟨ts, js, y, z, hy, hz, hadjusts⟩
  refine ⟨p, ts, js, y, z, ?_, ?_, hadjusts⟩
  · rw [jointAt_of_environment he, jointIn_eq]
    exact hy
  · rw [jointAt_of_environment he, jointIn_eq]
    exact hz

theorem exists_jointAt_iff (hlatents : d.latents w ≠ []) (adjust : Bool) :
    (∃ x, d.jointAt w (d.currentFeed w) free adjust = .ok x) ↔
      w.settings.validate w.written w.wide = .ok () ∧ w.KnowsMode d ∧
        (forall id, id ∈ d.distributions w -> w.HasDensity d id) ∧ w.HasWidths α d := by
  constructor
  · intro h
    rcases h with ⟨x, hx⟩
    exact conditions_of_jointAt hd hfree haxes hprescribes hx
  · intro h
    rcases exists_adjusts hd hfree haxes hprescribes hlatents h with ⟨_, _, _, y, z, hy, hz, _⟩
    cases adjust with
    | true => exact ⟨y, hy⟩
    | false => exact ⟨z, hz⟩

theorem adjusts_of_jointAt (hlatents : d.latents w ≠ []) {y z : Tensor α}
    (hy : d.jointAt w (d.currentFeed w) free true = .ok y)
    (hz : d.jointAt w (d.currentFeed w) free false = .ok z) :
    ∃ p ts js, w.Adjusts d free n p ts js y z := by
  have hconditions := conditions_of_jointAt hd hfree haxes hprescribes hy
  rcases exists_adjusts hd hfree haxes hprescribes hlatents hconditions with
    ⟨p, ts, js, y', z', hy', hz', hadjusts⟩
  rw [hy] at hy'
  rw [hz] at hz'
  cases hy'
  cases hz'
  exact ⟨p, ts, js, hadjusts⟩

end Dag

/-!
# Exact adjustments
-/

namespace Workspace

variable {w : Workspace} {d : Dag} {free : NodeId → Option (Except Refusal (Tensor ℝ))}
  {n i : Nat} {p : Precision} {ts js : List (Tensor ℝ)} {y z : Tensor ℝ}

theorem Adjusts.sub (h : w.Adjusts d free n p ts js y z) (hi : i < n) :
    y.get [i] - (z.matched n).get [i] = (js.map fun j => j.get [i]).sum := by
  have hjs : forall j, j ∈ js -> j.shape = [n] := by
    intro j hj
    rcases exists_left_of_forall₂ h.jacobians hj with ⟨_, _, _, hshape⟩
    exact hshape
  have hall : forall t, t ∈ ts ++ js -> t.shape = [1] ∨ t.shape = [n] := by
    intro t ht
    rcases List.mem_append.mp ht with ht | ht
    · exact h.terms t ht
    · exact Or.inr (hjs t ht)
  have hzshape : z.shape = [1] ∨ z.shape = [n] := by
    by_cases hvaries : ∃ id, id ∈ d.distributions w ∧ w.Varies id
    · exact Or.inr (h.varying hvaries)
    · exact Or.inl (h.steady fun id hid hvarying => hvaries ⟨id, hid, hvarying⟩)
  have hself : (js.map fun j => (j.matched n).get [i]) = js.map fun j => j.get [i] := by
    apply List.map_congr_left
    intro j hj
    rw [matched_self (hjs j hj)]
  have hadjusted : (y.matched n).get [i] = _ :=
    (Environment.isTotal_of_sumTerms h.adjusted).get_matched hall (Or.inr h.rows) hi
  have hplain : (z.matched n).get [i] = _ :=
    (Environment.isTotal_of_sumTerms h.plain).get_matched h.terms hzshape hi
  rw [matched_self h.rows, Scalar.sum_real, List.map_append, List.sum_append, hself] at hadjusted
  rw [Scalar.sum_real] at hplain
  rw [hadjusted, hplain]
  exact add_sub_cancel_left _ _

end Workspace

/-!
# Log-densities with and without adjustment
-/

namespace Action

open Workspace

variable {w : Workspace} {d : Dag} {n : Nat}

/-- In a model whose nodes have equally many axes, a log-density is returned with and without
adjustment exactly if the settings are valid, the data mode is known and every distribution has
all that it needs.  With adjustment it has one entry for every chain.  Without, it has one for
every chain if a variable leads to a distribution, and otherwise a single one, which counts for
every chain.  Over the reals, where intervals need a width besides, the difference of both is
the sum of the Jacobians of the variables, chain by chain.  As in every model, edges are drawn
by hand at distribution nodes only, and all arrays have fewer than `2 ^ 63` entries. -/
theorem logDensity_adjusted [CustomCode Number] [CustomCode ℝ] {starts : List NodeId}
    (hbuilt : w.Built Models)
    (hstarts : forall s, s ∈ starts -> (w.node? s).isSome = true)
    (hcompile : w.compile starts = .ok d) (hlatents : d.latents w ≠ [])
    {axes : Nat}
    (haxes : forall id, id ∈ d.nodes -> (w.shape id).length = axes)
    (hscales : forall id m r, id ∈ d.distributions w -> w.node? id = some m ->
      m.distribution? = some r -> r.family.isMatrix = true -> forall q, q ∈ r.parameters ->
        ∃ k, w.node? q.2 = some k ∧ k.dim.Scales q.1) :
    (forall free : List (Int × Value), d.HasFreeRows w (w.freeOf free) n ->
      (forall adjust, (∃ y v, (logDensity d free [] adjust).run w = (.ok y, v)) ↔
        w.settings.validate w.written w.wide = .ok () ∧ w.KnowsMode d ∧
          forall id, id ∈ d.distributions w -> w.HasDensity d id) ∧
      forall y z v v', (logDensity d free [] true).run w = (.ok y, v) ->
        (logDensity d free [] false).run w = (.ok z, v') ->
          y.shape = [n] ∧
          ((∃ id, id ∈ d.distributions w ∧ w.Varies id) -> z.shape = [n]) ∧
          ((forall id, id ∈ d.distributions w -> ¬w.Varies id) -> z.shape = [1])) ∧
    forall free : NodeId → Option (Except Refusal (Tensor ℝ)), d.HasFreeRows w free n ->
      (forall adjust, (∃ y, d.jointAt w (d.currentFeed w) free adjust = .ok y) ↔
        w.settings.validate w.written w.wide = .ok () ∧ w.KnowsMode d ∧
          (forall id, id ∈ d.distributions w -> w.HasDensity d id) ∧ w.HasWidths ℝ d) ∧
      forall y z, d.jointAt w (d.currentFeed w) free true = .ok y ->
        d.jointAt w (d.currentFeed w) free false = .ok z ->
          ∃ js, List.Forall₂ (fun x j => w.adjustment free x = some j ∧ j.shape = [n])
              (d.latents w) js ∧
            forall i, i < n ->
              y.get [i] - (z.matched n).get [i] = (js.map fun j => j.get [i]).sum := by
  have hd := compilesModel_of_built hbuilt hstarts hcompile
  have hprescribes : forall id m r, id ∈ d.distributions w -> w.node? id = some m ->
      m.distribution? = some r -> w.Prescribes m r := by
    intro id m r hid hm hr
    have hsuits := suits_of_built hbuilt id m r hm hr
    exact ⟨hsuits.target, hsuits.square, hsuits.truncation, hscales id m r hid hm hr⟩
  constructor
  · intro free hfree
    constructor
    · intro adjust
      rw [exists_run_logDensity_iff,
        Dag.exists_jointAt_iff hd hfree haxes hprescribes hlatents adjust]
      constructor
      · exact fun h => ⟨h.1, h.2.1, h.2.2.1⟩
      · exact fun h => ⟨h.1, h.2.1, h.2.2, hasWidths_of_isModel hd.model d⟩
    · intro y z v v' hy hz
      rcases Dag.adjusts_of_jointAt hd hfree haxes hprescribes hlatents
        (jointAt_of_run_logDensity hy) (jointAt_of_run_logDensity hz) with ⟨_, _, _, h⟩
      exact ⟨h.rows, h.varying, h.steady⟩
  · intro free hfree
    constructor
    · exact Dag.exists_jointAt_iff hd hfree haxes hprescribes hlatents
    · intro y z hy hz
      rcases Dag.adjusts_of_jointAt hd hfree haxes hprescribes hlatents hy hz with
        ⟨_, _, js, h⟩
      exact ⟨js, h.jacobians, fun i hi => h.sub hi⟩

/-- A number with a standard normal distribution. -/
def single : Workspace :=
  standard [.int 1, .int 1]

/-- Two chains of the number. -/
def normals : List (Int × Value) :=
  [(3, .ofTensor (Tensor.full [2, 1] 0.5))]

theorem compile_single : single.compile [3] = .ok standardDag :=
  compile_eq [0, 1, 2, 3] rfl (component_of_visitWithin? 16 (by decide +kernel))
    (by decide +kernel) (by decide +kernel) (by decide) (by decide +kernel) (by decide +kernel)

theorem varies_single : single.Varies 2 := by
  have hreads : (single.node? 2).map (fun m => m.role.reads) = some [3, 0, 1] := by
    decide +kernel
  have hlatent : single.has Node.isLatent 3 = true := by decide +kernel
  have hkind : (single.node? 3).map Node.isDistribution = some false := by decide +kernel
  rcases Option.map_eq_some_iff.mp hreads with ⟨m, hm, hmreads⟩
  rcases Option.map_eq_some_iff.mp hkind with ⟨k, hk, hvariate⟩
  exact ⟨m, 3, 3, hm, by rw [hmreads]; exact List.mem_cons_self, ⟨k, hk, hvariate⟩,
    Relation.ReflTransGen.refl, hlatent⟩

theorem hasFreeRows_single {α : Type} {free : NodeId → Option (Except Refusal (Tensor α))}
    {t : Tensor α} (hfree : free 3 = some (.ok t)) (ht : t.shape = [2, 1]) :
    standardDag.HasFreeRows single free 2 := by
  have hlatents : standardDag.latents single = [3] := by decide +kernel
  have hsize : ((single.node? 3).map Node.freeSize).getD 0 = 1 := by decide +kernel
  intro id hid
  rw [hlatents, List.mem_singleton] at hid
  rw [hid, hsize]
  exact ⟨t, hfree, ht⟩

attribute [local instance] CustomCode.refusing

theorem logDensity_adjusted_standard :
    (∃ y z v v', (logDensity standardDag normals [] true).run single = (.ok y, v) ∧
      (logDensity standardDag normals [] false).run single = (.ok z, v') ∧
        y.shape = [2] ∧ z.shape = [2]) ∧
    ∃ y z js, standardDag.jointAt single (standardDag.currentFeed single) (exactChains 3) true =
        .ok y ∧
      standardDag.jointAt single (standardDag.currentFeed single) (exactChains 3) false = .ok z ∧
      List.Forall₂ (fun x j => single.adjustment (exactChains 3) x = some j ∧ j.shape = [2])
        (standardDag.latents single) js ∧
      forall i, i < 2 -> y.get [i] - (z.matched 2).get [i] = (js.map fun j => j.get [i]).sum := by
  have hbuilt : single.Built ModelsDeclared :=
    built_standard (by decide +kernel) (by decide +kernel)
  have hstarts : forall s, s ∈ [3] -> (single.node? s).isSome = true := by
    intro s hs
    rw [List.mem_singleton.mp hs]
    decide +kernel
  have haxes : forall id, id ∈ standardDag.nodes -> (single.shape id).length = 2 := by
    decide +kernel
  rcases logDensity_adjusted (n := 2) (hbuilt.mono fun _ _ h => h.1) hstarts compile_single
    (by decide +kernel) haxes
    (fun id m r _ hm hr => (prescribed_of_built hbuilt id m r hm hr).parameters) with
    ⟨hnumbers, hreals⟩
  constructor
  · have hprecision : single.settings.tensorPrecision single.wide = .ok .double := by
      decide +kernel
    have hnormals : single.freeOf normals 3 =
        some (.ok ((Tensor.full [2, 1] 0.5).map (Scalar.constant .double))) :=
      congrArg some (tensorOf_array hprecision (NumericArray.isReadable_ofFloats _) false)
    have hvaries : ∃ id, id ∈ standardDag.distributions single ∧ single.Varies id :=
      ⟨2, by decide +kernel, varies_single⟩
    rcases exists_run_of_isOk (a := logDensity standardDag normals [] true) (w := single)
      (by decide +kernel) with ⟨y, v, hy⟩
    rcases exists_run_of_isOk (a := logDensity standardDag normals [] false) (w := single)
      (by decide +kernel) with ⟨z, v', hz⟩
    rcases (hnumbers normals (hasFreeRows_single hnormals rfl)).2 y z v v' hy hz with
      ⟨hrows, hvarying, _⟩
    exact ⟨y, z, v, v', hy, hz, hrows, hvarying hvaries⟩
  · have hy : (standardDag.jointAt single (standardDag.currentFeed single) (exactChains 3)
        true).toOption.isSome = true := by decide +kernel
    have hz : (standardDag.jointAt single (standardDag.currentFeed single) (exactChains 3)
        false).toOption.isSome = true := by decide +kernel
    rcases Option.isSome_iff_exists.mp hy with ⟨y, hy⟩
    rcases Option.isSome_iff_exists.mp hz with ⟨z, hz⟩
    rw [toOption_eq_some] at hy hz
    rcases (hreals (exactChains 3) (hasFreeRows_single rfl rfl)).2 y z hy hz with ⟨js, hjs, hsub⟩
    exact ⟨y, z, js, hy, hz, hjs, hsub⟩

/-- A variable without a distribution. -/
def lone : Workspace :=
  after (empty {} true) (.latent (.float (-1.0 / 0.0)) (.float (1.0 / 0.0))
    (.tuple [.int 1, .int 1]) .none)

/-- Two chains have a single log-density between them if no distribution reads the variable. -/
theorem not_chains_lone :
    ¬forall (w : Workspace) (starts : List NodeId) (d : Dag) (n : Nat)
      (free : List (Int × Value)) (z : Tensor Number) (v : Workspace),
      w.Built Models -> (forall s, s ∈ starts -> (w.node? s).isSome = true) ->
        w.compile starts = .ok d -> d.latents w ≠ [] -> 0 < n ->
          (forall id, id ∈ d.nodes -> (w.shape id).length = 2) ->
          d.HasFreeRows w (w.freeOf free) n ->
            (logDensity d free [] false).run w = (.ok z, v) -> z.shape = [n] := by
  intro h
  have hbuilt : lone.Built Models := by
    refine (Built.empty {} true).call _ ⟨?_, by decide +kernel⟩
      (run_of_returns (by decide +kernel))
    intro a ha
    cases ha
  have hcompile : lone.compile [0] = .ok ⟨[0], []⟩ :=
    compile_eq [0] rfl (component_of_visitWithin? 4 (by decide +kernel)) (by decide +kernel)
      (by decide +kernel) (by decide) (by decide +kernel) (by decide +kernel)
  have hlatents : Dag.latents ⟨[0], []⟩ lone = [0] := by decide +kernel
  have hsize : ((lone.node? 0).map Node.freeSize).getD 0 = 1 := by decide +kernel
  have hshape : (((logDensity ⟨[0], []⟩ [(0, .ofTensor (Tensor.full [2, 1] 0.0))] []
      false).run lone).1.toOption.map Tensor.shape) = some [1] := by decide +kernel
  rcases Option.map_eq_some_iff.mp hshape with ⟨z, hz, hzshape⟩
  have hrun := h lone [0] ⟨[0], []⟩ 2 [(0, .ofTensor (Tensor.full [2, 1] 0.0))] z
    ((logDensity ⟨[0], []⟩ [(0, .ofTensor (Tensor.full [2, 1] 0.0))] [] false).run lone).2
    hbuilt
    (fun s hs => by
      rw [List.mem_singleton.mp hs]
      decide +kernel)
    hcompile (by rw [hlatents]; exact List.cons_ne_nil 0 []) Nat.two_pos (by decide +kernel)
    (fun id hid => by
      rw [hlatents, List.mem_singleton] at hid
      rw [hid, hsize]
      exact ⟨_, rfl, rfl⟩)
    (Prod.ext (toOption_eq_some.mp hz) rfl)
  rw [hzshape] at hrun
  cases hrun

end Action
end DensityGraph
