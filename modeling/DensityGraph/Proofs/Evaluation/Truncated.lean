import DensityGraph.Proofs.Distribution.Cumulative
import DensityGraph.Proofs.Evaluation.Matched
import DensityGraph.Proofs.Evaluation.Rows
import DensityGraph.Proofs.Graph.Range
import DensityGraph.Proofs.Tensor.Spread
/-!
# Truncated densities

A truncation is accepted if it is an interval within the support; if it is the whole support
it is forgotten, and otherwise the family has to have a distribution function.  The density
of a distribution that is truncated then takes from the logarithm for each entry that of the
mass within the truncation.  The entries are those of the common shape of the target and the
parameters, which is the shape of the target if all parameters broadcast to it.
-/

namespace DensityGraph

open Extended

/-!
# Accepted truncations
-/

/-- An interval that may be given as a truncation. -/
structure Interval.Cuts (t support : Interval) (hasCdf : Bool) : Prop where
  ordered : t.lower < t.upper
  lower : support.lower ≤ t.lower
  upper : t.upper ≤ support.upper
  used : t.sameAs support = true ∨ hasCdf = true

theorem Interval.Cuts.truncates {t b : Interval} {hasCdf : Bool} (h : t.Cuts b hasCdf)
    (hb : b.lower < b.upper) (hproper : t.sameAs b = false) : t.Truncates b := by
  have hsupport := isNaN_of_lt hb
  have hends := isNaN_of_lt h.ordered
  exact ⟨h.ordered, (not_lt_iff hends.1 hsupport.1).mpr h.lower,
    (not_lt_iff hsupport.2 hends.2).mpr h.upper, hproper⟩

namespace Action

open DensityGraph.Interval

variable {w : Workspace} {b t : Interval} {v : Value}

theorem le_of_beq {x y : Float} (hx : x.isNaN = false) (hy : y.isNaN = false)
    (h : (x == y) = true) : x ≤ y := by
  rw [← not_lt_iff hy hx, lt_iff hy hx, (beq_iff hx hy).mp h]
  exact lt_irrefl _

theorem ends_checkTruncation_of_pair (hb : b.lower < b.upper) (ht : pairOf v = .ok t)
    (name : String) (hasCdf : Bool) :
    Ends (checkTruncation name b hasCdf v) w
      (fun r _ => t.Cuts b hasCdf ∧ r = if t.sameAs b then none else some t)
      (fun f _ => (∃ reason, f = .invalid reason) ∧ ¬t.Cuts b hasCdf) := by
  have hsupport := isNaN_of_lt hb
  unfold checkTruncation
  split
  · cases ht
  · rw [ht]
    simp only
    rw [ends_ite]
    constructor
    case right =>
      intro hordered
      rw [ends_bind, ends_invalid]
      exact ⟨⟨_, rfl⟩, fun h => hordered h.ordered⟩
    intro hordered
    have hends := isNaN_of_lt hordered
    rw [ends_ite]
    constructor
    · intro hsame
      have hequal : (t.lower == b.lower) = true ∧ (t.upper == b.upper) = true := by
        unfold sameAs at hsame
        rwa [Bool.and_eq_true] at hsame
      have hlower : b.lower ≤ t.lower := by
        apply le_of_beq hsupport.1 hends.1
        rw [beq_iff hsupport.1 hends.1, (beq_iff hends.1 hsupport.1).mp hequal.1]
      have htext : requireText (GivenName.ofText name).isWritable = pure () := rfl
      rw [htext, pure_bind, ends_bind, ends_report, ends_pure, if_pos hsame]
      exact ⟨⟨hordered, hlower, le_of_beq hends.2 hsupport.2 hequal.2, Or.inl hsame⟩, rfl⟩
    intro hproper
    rw [ends_ite]
    constructor
    · intro houtside
      rw [ends_bind, ends_invalid]
      refine ⟨⟨_, rfl⟩, ?_⟩
      intro h
      simp only [Bool.or_eq_true, decide_eq_true_eq] at houtside
      rcases houtside with hlower | hupper
      · exact (not_lt_iff hends.1 hsupport.1).mpr h.lower hlower
      · exact (not_lt_iff hsupport.2 hends.2).mpr h.upper hupper
    intro hwithin
    simp only [Bool.or_eq_true, decide_eq_true_eq, not_or] at hwithin
    rw [ends_ite]
    constructor
    · intro hcdf
      rw [ends_pure, if_neg hproper]
      exact ⟨⟨hordered, (not_lt_iff hends.1 hsupport.1).mp hwithin.1,
        (not_lt_iff hsupport.2 hends.2).mp hwithin.2, Or.inr hcdf⟩, rfl⟩
    · intro hcdf
      rw [ends_bind, ends_invalid]
      refine ⟨⟨_, rfl⟩, ?_⟩
      intro h
      rcases h.used with hsame | hhas
      · exact hproper hsame
      · exact hcdf hhas

end Action

theorem Family.of_hasCdf {f : Family} (h : f.hasCdf = true) :
    f ≠ .blank ∧ f.isMatrix = false := by
  cases f with
  | blank => cases h
  | lkj => cases h
  | wishart => cases h
  | _ => exact ⟨nofun, rfl⟩

/-!
# Inputs of densities

The density of a truncated distribution is a sum over the shape that its target and parameters
have in common.  Without such a shape there is none.
-/

section Inputs

variable {α : Type} [Scalar α]

/-- The tensors that a density is computed from, brought to one batch size: the target, and
behind it the parameters in the order of the family. -/
def Environment.inputs (e : Environment α) (w : Workspace) (d : Distribution) (x : Argument α) :
    Except Failure (List (Tensor α)) := do
  let values ← e.arguments w .value (d.parameters.map Prod.snd)
  match ← Batched.reconciled (x :: values) with
  | [] => .error (.refused .type)
  | x :: values => Refusal.lift do
      let ps ← d.familyParameters ((d.parameters.map Prod.fst).zip values)
      return (← x.toTensor) :: ps

variable {e : Environment α} {w : Workspace} {id : NodeId} {n : Node} {d : Distribution}
  {x : Argument α} {p : Precision} {ts ps : List (Tensor α)} {y : Tensor α} {s : Shape}
  {t : Interval} {dim : Shape}

theorem Environment.density_of_inputs (hn : w.node? id = some n) (hd : n.distribution? = some d)
    (hp : w.settings.tensorPrecision w.wide = .ok p) (hblank : d.family ≠ .blank)
    (hts : e.inputs w d x = .ok ts) :
    e.density w id x = Refusal.lift (d.total p n.dim ts) := by
  unfold density
  rw [hn]
  simp only [hd]
  unfold inputs at hts
  cases hvalues : e.arguments w .value (d.parameters.map Prod.snd) with
  | error f =>
      rw [hvalues] at hts
      cases hts
  | ok values =>
      rw [hvalues] at hts
      change (Batched.reconciled (x :: values) >>= d.densityOf w id n) = _
      change (Batched.reconciled (x :: values) >>= _) = _ at hts
      cases hargs : Batched.reconciled (x :: values) with
      | error f =>
          rw [hargs] at hts
          cases hts
      | ok args =>
          rw [hargs] at hts
          cases args with
          | nil => cases hts
          | cons x' values' =>
              change Refusal.lift (d.familyParameters _ >>= fun ps => _) = _ at hts
              cases hps : d.familyParameters ((d.parameters.map Prod.fst).zip values') with
              | error r =>
                  rw [hps] at hts
                  cases hts
              | ok ps =>
                  rw [hps] at hts
                  cases hx : x'.toTensor with
                  | error r =>
                      simp only [hx] at hts
                      cases hts
                  | ok y =>
                      simp only [hx] at hts
                      cases hts
                      exact Distribution.densityOf_eq hp hblank hx hps

theorem Distribution.total_of_truncation (hmatrix : d.family.isMatrix = false)
    (ht : d.truncation = some t) (hs : Tensor.joinShapes [] (y :: ps) = .ok s) :
    d.total p dim (y :: ps) = .ok (Tensor.ofFn s fun index =>
      d.family.logDensity (Tensor.entriesAt ps index) (y.get (y.shape.project index)) -
        d.family.logMass (Tensor.entriesAt ps index) d.support t (Scalar.constant p t.lower)
          (Scalar.constant p t.upper)).sumEvent := by
  have hlift : ∃ f : List α → α, d.logs dim (y :: ps) = Tensor.mapAll f (y :: ps) ∧
      forall v vs, f (v :: vs) = d.family.logDensity vs v := by
    rw [logs_of_isMatrix hmatrix]
    exact ⟨_, rfl, fun _ _ => rfl⟩
  rcases hlift with ⟨f, hf, hcons⟩
  rcases Tensor.elementwise_mapAll (· - ·) f (fun ps => d.family.logMass ps d.support t
    (Scalar.constant p t.lower) (Scalar.constant p t.upper)) hs with ⟨r, q, hr, hq, hsub⟩
  have hlogs : d.logs dim (y :: ps) = .ok r := hf.trans hr
  have hmass : d.mass p t ps = .ok q := hq
  unfold total
  rw [ht, hlogs]
  change Except.map Tensor.sumEvent (d.mass p t ps >>= fun mass =>
    Tensor.elementwise (· - ·) r mass) = _
  rw [hmass]
  change Except.map Tensor.sumEvent (Tensor.elementwise (· - ·) r q) = _
  rw [hsub]
  have hentries : forall index, f (Tensor.entriesAt (y :: ps) index) =
      d.family.logDensity (Tensor.entriesAt ps index) (y.get (y.shape.project index)) :=
    fun index => hcons _ _
  simp only [hentries]
  rfl

theorem Distribution.total_refused {r : Refusal} (hmatrix : d.family.isMatrix = false)
    (ht : d.truncation = some t) (hs : Tensor.joinShapes [] (y :: ps) = .error r) :
    d.total p dim (y :: ps) = .error r := by
  have hlogs : d.logs dim (y :: ps) = .error r := by
    rw [logs_of_isMatrix hmatrix]
    unfold lift Tensor.mapAll
    rw [hs]
    rfl
  unfold total
  rw [ht, hlogs]
  rfl

omit [Scalar α] in
theorem Tensor.eq_shape_iff_spreads (hs : joinShapes [] (y :: ps) = .ok s) :
    s = y.shape ↔ forall q, q ∈ ps -> q.shape.Spreads y.shape := by
  constructor
  · intro hshape q hq
    rw [← hshape]
    exact (spreads_of_joinShapes hs).2 q (List.mem_cons_of_mem y hq)
  · intro hspreads
    have hself : joinShapes [] (y :: ps) = .ok y.shape := by
      rw [joinShapes_nil_cons]
      exact joinShapes_of_spreads hspreads
    rw [hself] at hs
    cases hs
    rfl

theorem Tensor.entriesAt_full {u : Shape} (h : u.Spreads s) {index : List Nat}
    (hindex : s.Within index) (vs : List α) : entriesAt (vs.map (full u)) index = vs := by
  unfold entriesAt
  rw [List.map_map]
  conv_rhs => rw [← List.map_id vs]
  apply List.map_congr_left
  intro v _
  exact get_ofFn _ (Shape.within_of_spreads h hindex)

end Inputs

namespace Workspace

open DensityGraph.Interval

/-- A pair is accepted as a truncation if and only if it is an interval within the support that
equals the support, in which case it is forgotten, or can be used because the family has a
distribution function.  The mass that the density then takes away is that between the ends,
however it is computed.  The density of every distribution that is truncated sums the entries
of the common shape of target and parameters, which is the shape of the target if and only if
all parameters broadcast to it. -/
theorem truncated_of_reached (w : Workspace) (hw : w.Reached fun _ _ => True) :
    (forall (name : String) (f : Family) (b t : Interval) (v : Value), b.lower < b.upper ->
      Action.pairOf v = .ok t ->
        ((∃ r w', (Action.checkTruncation name b f.hasCdf v).run w = (.ok r, w')) ↔
          t.Cuts b f.hasCdf) ∧
        forall r w', (Action.checkTruncation name b f.hasCdf v).run w = (.ok r, w') ->
          r = (if t.sameAs b then none else some t) ∧
          (t.sameAs b = false -> forall ps F, f.Distributes ps b F ->
            massBelow F t.lower < massBelow F t.upper ->
              f.logMass ps b t (ofFloat t.lower) (ofFloat t.upper) =
                finite (Real.log (massBelow F t.upper - massBelow F t.lower)))) ∧
    forall id n d t, w.node? id = some n -> n.distribution? = some d -> d.truncation = some t ->
      w.settings.validate w.written w.wide = .ok () ->
        forall (e : Environment Extended) (x : Argument Extended) (y : Tensor Extended)
          (ps : List (Tensor Extended)) (s : Shape) (F : List Nat → ℝ → ℝ),
          e.inputs w d x = .ok (y :: ps) -> Tensor.joinShapes [] (y :: ps) = .ok s ->
            (forall index, s.Within index ->
              d.family.Distributes (Tensor.entriesAt ps index) d.support (F index) ∧
                massBelow (F index) t.lower < massBelow (F index) t.upper) ->
              (Pass.density w id x).run e =
                (.ok (Tensor.ofFn s fun index =>
                  d.family.logDensity (Tensor.entriesAt ps index)
                      (y.get (y.shape.project index)) -
                    finite (Real.log (massBelow (F index) t.upper -
                      massBelow (F index) t.lower))).sumEvent, e) ∧
              (s = y.shape ↔ forall q, q ∈ ps -> q.shape.Spreads y.shape) := by
  constructor
  · intro name f b t v hb ht
    have hends := Action.ends_checkTruncation_of_pair (w := w) hb ht name f.hasCdf
    constructor
    · exact hends.exists_ok_iff (fun _ _ h => h.1) (fun _ _ h => h.2)
    · intro r w' hrun
      rcases hends.of_ok hrun with ⟨hcuts, hr⟩
      refine ⟨hr, ?_⟩
      intro hproper ps F hF hlt
      exact hF.logMass_eq (hcuts.truncates hb hproper) hlt
  · intro id n d t hn hd ht hsettings e x y ps s F hinputs hs hF
    rcases (hasRanges_of_reached hw id n d hn hd).truncation t ht with ⟨htruncates, hcdf⟩
    rcases precision_of_validate hsettings with ⟨p, hp⟩
    rcases Family.of_hasCdf hcdf with ⟨hblank, hmatrix⟩
    constructor
    · have hrun : (Pass.density w id x).run e = (e.density w id x, e) :=
        Pass.reads_density w id x e
      rw [hrun, Environment.density_of_inputs hn hd hp hblank hinputs,
        Distribution.total_of_truncation hmatrix ht hs]
      change (Except.ok (Tensor.sumEvent _), e) = _
      congr 3
      apply Tensor.ofFn_congr
      intro index hindex
      rcases hF index hindex with ⟨hdistributes, hlt⟩
      rw [← hdistributes.logMass_eq htruncates hlt]
      rfl
    · exact Tensor.eq_shape_iff_spreads hs

/-- Numbers with three axes that have the positive half of a standard normal distribution. -/
def halfNormals : Workspace :=
  [Call.declare .normal [.float 0.0, .float 1.0]
    [("dim", .tuple [.int 3, .int 2, .int 2]),
      ("truncation", .tuple [.float 0.0, .float (1.0 / 0.0)])]].foldl Workspace.after
    (.empty {} true)

/-- The parameters as they are in all passes. -/
noncomputable def halfNormalParameters : Environment Extended where
  entries := [((0, .value), .tensor (Tensor.full [1, 1, 1] (finite 0))),
    ((1, .value), .tensor (Tensor.full [1, 1, 1] (finite 1)))]
  feed := []
  dataList := []
  dataAsConstants := .bool false

theorem node?_halfNormals : ∃ n d t, halfNormals.node? 2 = some n ∧ n.distribution? = some d ∧
    d.truncation = some t ∧ d.family = .normal ∧ d.support = Interval.whole ∧
      d.parameters = [("mean", 0), ("sd", 1)] ∧ t.lower = 0.0 ∧ t.upper = 1.0 / 0.0 :=
  ⟨_, _, _, rfl, rfl, rfl, rfl, rfl, rfl, rfl, rfl⟩

theorem matched_full (k : Nat) (d : Shape) (v : Extended) :
    (Tensor.full (1 :: d) v).matched k = Tensor.full (k :: d) v := by
  rw [Tensor.matched_single (d := d) rfl]
  apply Tensor.ext_row (Tensor.shape_repeatRows (s := d) rfl k) rfl
  intro i hi
  rw [Tensor.row_repeatRows (s := d) rfl hi]
  unfold Tensor.full
  rw [Tensor.row_ofFn _ hi, Tensor.row_ofFn _ one_pos]

theorem inputs_halfNormals {d : Distribution} (hfamily : d.family = .normal)
    (hparameters : d.parameters = [("mean", 0), ("sd", 1)]) (k : Nat) :
    halfNormalParameters.inputs halfNormals d (.tensor (Tensor.full [k, 3, 2, 2] (finite 1))) =
      .ok (Tensor.full [k, 3, 2, 2] (finite 1) ::
        [finite 0, finite 1].map (Tensor.full [k, 1, 1])) := by
  let ts : List (Tensor Extended) := [Tensor.full [k, 3, 2, 2] (finite 1),
    Tensor.full [1, 1, 1] (finite 0), Tensor.full [1, 1, 1] (finite 1)]
  have hbatch : Tensor.batch k ts = k := Tensor.batch_of_mem List.mem_cons_self rfl
  have hrows : forall t, t ∈ ts -> ∃ d, Tensor.HasRows k d t := by
    intro t ht
    simp only [ts, List.mem_cons, List.not_mem_nil, or_false] at ht
    rcases ht with rfl | rfl | rfl
    · exact ⟨[3, 2, 2], k, rfl, Or.inr rfl⟩
    · exact ⟨[1, 1], 1, rfl, Or.inl rfl⟩
    · exact ⟨[1, 1], 1, rfl, Or.inl rfl⟩
  have hmatch : Batched.reconciled (ts.map Argument.tensor) =
      .ok [.tensor (Tensor.full [k, 3, 2, 2] (finite 1)),
        .tensor (Tensor.full [k, 1, 1] (finite 0)),
        .tensor (Tensor.full [k, 1, 1] (finite 1))] := by
    unfold Batched.reconciled
    rw [Tensor.reconcile_rows hrows, hbatch]
    simp only [ts, List.map_cons, List.map_nil, matched_full]
    rw [Tensor.matched_self (k := k) (d := [3, 2, 2]) rfl]
  have hvalues : halfNormalParameters.arguments halfNormals .value [0, 1] =
      .ok [.tensor (Tensor.full [1, 1, 1] (finite 0)),
        .tensor (Tensor.full [1, 1, 1] (finite 1))] := rfl
  unfold Environment.inputs
  rw [hparameters]
  change (halfNormalParameters.arguments halfNormals .value [0, 1] >>= _) = _
  rw [hvalues]
  change (Batched.reconciled (ts.map Argument.tensor) >>= _) = _
  rw [hmatch]
  change Refusal.lift (d.familyParameters _ >>= _) = _
  unfold Distribution.familyParameters
  rw [hfamily]
  rfl

theorem distributes_halfNormals {d : Distribution} (hfamily : d.family = .normal)
    (hsupport : d.support = Interval.whole) :
    d.family.Distributes [finite 0, finite 1] d.support (Family.normal.cdf [0, 1]) := by
  rw [hfamily, hsupport]
  exact Family.distributes_normal one_pos

theorem mass_halfNormals {t : Interval} (hlower : t.lower = 0.0) (hupper : t.upper = 1.0 / 0.0) :
    massBelow (Family.normal.cdf [0, 1]) t.lower <
      massBelow (Family.normal.cdf [0, 1]) t.upper := by
  have hcarries := (Family.distributes_normal (a := 0) (b := 1) one_pos).carries
  have hvalue : Family.normal.cdf [0, 1] 0 < 1 := by
    have hpos := Cumulative.cdf_gaussian_pos (-((0 - 0) / 1))
    rw [Cumulative.cdf_gaussian_neg] at hpos
    exact sub_pos.mp hpos
  rw [hlower, hupper, massBelow_of_finite ofFloat_zero]
  exact hvalue.trans_eq hcarries.massBelow_upper.symm

/-- With one row of numbers the density takes the mass from every entry. -/
theorem truncated_of_reached_halfNormals :
    ∃ (n : Node) (d : Distribution) (t : Interval), halfNormals.node? 2 = some n ∧
      n.distribution? = some d ∧ d.truncation = some t ∧
        (Pass.density halfNormals 2 (.tensor (Tensor.full [1, 3, 2, 2] (finite 1)))).run
          halfNormalParameters = (.ok (Tensor.ofFn [1, 3, 2, 2] fun index =>
            d.family.logDensity
                (Tensor.entriesAt ([finite 0, finite 1].map (Tensor.full [1, 1, 1])) index)
                ((Tensor.full [1, 3, 2, 2] (finite 1)).get (Shape.project [1, 3, 2, 2] index)) -
              finite (Real.log (massBelow (Family.normal.cdf [0, 1]) t.upper -
                massBelow (Family.normal.cdf [0, 1]) t.lower))).sumEvent,
            halfNormalParameters) := by
  rcases node?_halfNormals with
    ⟨n, d, t, hn, hd, ht, hfamily, hsupport, hparameters, hlower, hupper⟩
  have hspread : Shape.Spreads [1, 1, 1] [1, 3, 2, 2] :=
    (Shape.spreads_of_join? (show Shape.join? [1, 1, 1] [1, 3, 2, 2] = some [1, 3, 2, 2]
      from rfl)).1
  have hF : forall index, Shape.Within [1, 3, 2, 2] index ->
      d.family.Distributes
          (Tensor.entriesAt ([finite 0, finite 1].map (Tensor.full [1, 1, 1])) index) d.support
          (Family.normal.cdf [0, 1]) ∧
        massBelow (Family.normal.cdf [0, 1]) t.lower <
          massBelow (Family.normal.cdf [0, 1]) t.upper := by
    intro index hindex
    rw [Tensor.entriesAt_full hspread hindex]
    exact ⟨distributes_halfNormals hfamily hsupport, mass_halfNormals hlower hupper⟩
  have hdensity := ((truncated_of_reached halfNormals (reached_foldl (.empty {} true))).2 2 n d t
    hn hd ht rfl halfNormalParameters _ _ _ [1, 3, 2, 2] (fun _ => Family.normal.cdf [0, 1])
    (inputs_halfNormals hfamily hparameters 1) rfl hF).1
  exact ⟨n, d, t, hn, hd, ht, hdensity⟩

/-- With two rows the parameters, which have fewer axes than the numbers, do not broadcast to
them: the density is not the sum over the entries of its target. -/
theorem not_entries_halfNormals :
    ¬forall (w : Workspace) (id : NodeId) (n : Node) (d : Distribution) (t : Interval)
      (e : Environment Extended) (y : Tensor Extended) (vs : List Extended) (k : Nat)
      (F : ℝ → ℝ), w.Reached (fun _ _ => True) -> w.node? id = some n ->
        n.distribution? = some d -> d.truncation = some t ->
          w.settings.validate w.written w.wide = .ok () ->
            e.inputs w d (.tensor y) = .ok (y :: vs.map (Tensor.full [k, 1, 1])) ->
              d.family.Distributes vs d.support F ->
                massBelow F t.lower < massBelow F t.upper ->
                  (Pass.density w id (.tensor y)).run e =
                    (.ok (Tensor.ofFn y.shape fun index => d.family.logDensity vs (y.get index) -
                      finite (Real.log (massBelow F t.upper - massBelow F t.lower))).sumEvent,
                        e) := by
  intro h
  rcases node?_halfNormals with
    ⟨n, d, t, hn, hd, ht, hfamily, hsupport, hparameters, hlower, hupper⟩
  have hinputs := inputs_halfNormals hfamily hparameters 2
  have hrun := h halfNormals 2 n d t halfNormalParameters (Tensor.full [2, 3, 2, 2] (finite 1))
    [finite 0, finite 1] 2 (Family.normal.cdf [0, 1]) (reached_foldl (.empty {} true)) hn hd ht
    rfl hinputs (distributes_halfNormals hfamily hsupport) (mass_halfNormals hlower hupper)
  have hblank : d.family ≠ .blank := by
    rw [hfamily]
    exact nofun
  have hmatrix : d.family.isMatrix = false := by rw [hfamily]; rfl
  rcases precision_of_validate (w := halfNormals) rfl with ⟨p, hp⟩
  have hreads : (Pass.density halfNormals 2 (.tensor (Tensor.full [2, 3, 2, 2]
      (finite 1)))).run halfNormalParameters = (halfNormalParameters.density halfNormals 2 _,
        halfNormalParameters) := Pass.reads_density halfNormals 2 _ halfNormalParameters
  rw [hreads, Environment.density_of_inputs hn hd hp hblank hinputs,
    Distribution.total_refused (r := .value) hmatrix ht rfl] at hrun
  cases hrun

end Workspace

end DensityGraph
