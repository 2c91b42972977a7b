import DensityGraph.Proofs.Distribution.Mass
/-!
# Distribution functions of the families

Every family that can be truncated has a distribution function for its parameters, which
rises from zero to one over its support.  What the family computes are the logarithms of
this function and of what it leaves above a number.
-/

namespace DensityGraph

open MeasureTheory ProbabilityTheory Filter Topology Set

/-!
# Functions of probability measures
-/

namespace Cumulative

variable {a b x : ℝ}

theorem cdf_gaussian_pos (x : ℝ) : 0 < cdf (gaussianReal 0 1) x := by
  rw [cdf_eq_real]
  apply lt_of_le_of_ne measureReal_nonneg
  intro hzero
  have hgaussian : gaussianReal 0 1 (Iic x) = 0 := (measureReal_eq_zero_iff).mp hzero.symm
  have hvolume := gaussianReal_absolutelyContinuous' 0 one_ne_zero hgaussian
  rw [Real.volume_Iic] at hvolume
  cases hvolume

theorem cdf_gaussian_neg (x : ℝ) :
    cdf (gaussianReal 0 1) (-x) = 1 - cdf (gaussianReal 0 1) x := by
  have hsingle := nullSingletonClass_gaussianReal (μ := 0) (v := 1) one_ne_zero
  have hmap : (gaussianReal 0 1).map (fun y => -y) = gaussianReal 0 1 := by
    rw [gaussianReal_map_neg, neg_zero]
  have hpreimage : preimage (fun y : ℝ => -y) (Iic (-x)) = Ici x := by
    ext y
    show -y ≤ -x ↔ x ≤ y
    exact neg_le_neg_iff
  have hreflect : gaussianReal 0 1 (Iic (-x)) = gaussianReal 0 1 (Ici x) := by
    rw [← hpreimage, ← Measure.map_apply measurable_neg measurableSet_Iic, hmap]
  have hcompl : (Iic x)ᶜ = Ioi x := compl_Iic
  have hends : gaussianReal 0 1 (Ici x) = gaussianReal 0 1 (Ioi x) :=
    measure_congr Ioi_ae_eq_Ici.symm
  rw [cdf_eq_real, cdf_eq_real, ← probReal_compl_eq_one_sub measurableSet_Iic, hcompl]
  unfold Measure.real
  rw [hreflect, hends]

theorem cdf_gamma_zero (ha : 0 < a) : cdf (gammaMeasure a 1) 0 = 0 := by
  rw [cdf_gammaMeasure_eq_lintegral ha one_pos, setLIntegral_congr Iio_ae_eq_Iic.symm,
    lintegral_gammaPDF_of_nonpos le_rfl]
  rfl

theorem cdf_beta_zero (ha : 0 < a) (hb : 0 < b) : cdf (betaMeasure a b) 0 = 0 := by
  have hprobability := isProbabilityMeasureBeta ha hb
  rw [cdf_eq_real]
  unfold Measure.real betaMeasure
  rw [withDensity_apply _ measurableSet_Iic, setLIntegral_congr_fun (g := fun _ => 0)
    measurableSet_Iic fun y hy => betaPDF_eq_zero_of_nonpos hy, lintegral_zero]
  rfl

theorem cdf_beta_one (ha : 0 < a) (hb : 0 < b) : cdf (betaMeasure a b) 1 = 1 := by
  have hprobability := isProbabilityMeasureBeta ha hb
  have habove : (betaMeasure a b).real (Ioi 1) = 0 := by
    unfold Measure.real betaMeasure
    rw [withDensity_apply _ measurableSet_Ioi, setLIntegral_congr_fun (g := fun _ => 0)
      measurableSet_Ioi fun y hy => betaPDF_eq_zero_of_one_le (le_of_lt hy), lintegral_zero]
    rfl
  have hcompl : (Iic (1 : ℝ))ᶜ = Ioi 1 := compl_Iic
  have hsum := probReal_compl_eq_one_sub (μ := betaMeasure a b) (measurableSet_Iic (a := (1 : ℝ)))
  rw [hcompl, habove] at hsum
  rw [cdf_eq_real]
  linarith

end Cumulative

/-!
# The families
-/

namespace Interval

open Extended

theorem ofFloat_whole :
    ofFloat whole.lower = infinite true ∧ ofFloat whole.upper = infinite false :=
  ⟨ofFloat_of_infinity (unpack_of_isInfinity (s := .negative) (x := whole.lower)
      (by decide +kernel)),
    ofFloat_of_infinity (unpack_of_isInfinity (s := .positive) (x := whole.upper)
      (by decide +kernel))⟩

theorem ofFloat_zero : ofFloat 0.0 = finite 0 := by
  rw [ofFloat_of_isFinite (by decide +kernel), Dyadic.toReal_zero]

theorem ofFloat_one : ofFloat 1.0 = finite 1 := by
  have hone : Dyadic.ofFloat 1.0 = ⟨false, 2 ^ 52, -52⟩ := by decide +kernel
  have hfinite : Float.isFinite 1.0 = true := by decide +kernel
  rw [ofFloat_of_isFinite hfinite]
  unfold Dyadic.toReal
  rw [if_pos hfinite, hone]
  norm_num

variable {F : ℝ → ℝ}

theorem carries_whole (hmonotone : Monotone F) (hbottom : Tendsto F atBot (𝓝 0))
    (htop : Tendsto F atTop (𝓝 1)) : whole.Carries F where
  ordered := by decide +kernel
  monotone := hmonotone
  lower v hv := by
    rw [ofFloat_whole.1] at hv
    cases hv
  upper v hv := by
    rw [ofFloat_whole.2] at hv
    cases hv
  bottom _ := hbottom
  top _ := htop

theorem carries_positive (hmonotone : Monotone F) (hzero : F 0 = 0)
    (htop : Tendsto F atTop (𝓝 1)) : positive.Carries F where
  ordered := by decide +kernel
  monotone := hmonotone
  lower v hv := by
    rw [show ofFloat positive.lower = finite 0 from ofFloat_zero] at hv
    cases hv
    exact hzero
  upper v hv := by
    rw [show ofFloat positive.upper = infinite false from ofFloat_whole.2] at hv
    cases hv
  bottom hv := by
    rw [show ofFloat positive.lower = finite 0 from ofFloat_zero] at hv
    cases hv
  top _ := htop

theorem carries_unit (hmonotone : Monotone F) (hzero : F 0 = 0) (hone : F 1 = 1) :
    unit.Carries F where
  ordered := by decide +kernel
  monotone := hmonotone
  lower v hv := by
    rw [show ofFloat unit.lower = finite 0 from ofFloat_zero] at hv
    cases hv
    exact hzero
  upper v hv := by
    rw [show ofFloat unit.upper = finite 1 from ofFloat_one] at hv
    cases hv
    exact hone
  bottom hv := by
    rw [show ofFloat unit.lower = finite 0 from ofFloat_zero] at hv
    cases hv
  top hv := by
    rw [show ofFloat unit.upper = finite 1 from ofFloat_one] at hv
    cases hv

end Interval

namespace Family

open Extended DensityGraph.Interval Cumulative

def Allows : Family → List ℝ → Prop
  | normal, [_, sd] => 0 < sd
  | lognormal, [_, sdlog] => 0 < sdlog
  | exponential, [rate] => 0 < rate
  | gamma, [shape, rate] => 0 < shape ∧ 0 < rate
  | beta, [shape1, shape2] => 0 < shape1 ∧ 0 < shape2
  | cauchy, [_, scale] => 0 < scale
  | student, [df, _, sigma] => 0 < df ∧ 0 < sigma
  | _, _ => False

noncomputable def studentTail (df z : ℝ) : ℝ :=
  Scalar.half * ProbabilityTheory.cdf (betaMeasure (df * Scalar.half) Scalar.half)
    (df / (df + z * z))

/-- The distribution function of a family that can be truncated. -/
noncomputable def cdf : Family → List ℝ → ℝ → ℝ
  | normal, [mean, sd], x => ProbabilityTheory.cdf (gaussianReal 0 1) ((x - mean) / sd)
  | lognormal, [meanlog, sdlog], x =>
      if 0 < x then ProbabilityTheory.cdf (gaussianReal 0 1) ((Real.log x - meanlog) / sdlog)
      else 0
  | exponential, [rate], x => if 0 < x then 1 - Real.exp (-(rate * x)) else 0
  | gamma, [shape, rate], x => ProbabilityTheory.cdf (gammaMeasure shape 1) (rate * x)
  | beta, [shape1, shape2], x => ProbabilityTheory.cdf (betaMeasure shape1 shape2) x
  | cauchy, [location, scale], x =>
      Scalar.half + Real.arctan ((x - location) / scale) / Real.pi
  | student, [df, mu, sigma], x =>
      if x < mu then studentTail df ((x - mu) / sigma) else 1 - studentTail df ((x - mu) / sigma)
  | _, _, _ => 0

variable {a b c : ℝ}

theorem tendsto_standardized_atTop (hb : 0 < b) : Tendsto (fun x => (x - a) / b) atTop atTop :=
  (tendsto_atTop_add_const_right _ (-a) tendsto_id).atTop_div_const hb

theorem tendsto_standardized_atBot (hb : 0 < b) : Tendsto (fun x => (x - a) / b) atBot atBot :=
  (tendsto_atBot_add_const_right _ (-a) tendsto_id).atBot_div_const hb

theorem monotone_standardized (hb : 0 < b) : Monotone fun x => (x - a) / b := by
  intro x y hxy
  exact div_le_div_of_nonneg_right (sub_le_sub_right hxy a) hb.le

theorem standardized_finite (hb : b ≠ 0) (x : ℝ) :
    (finite x - finite a) / finite b = finite ((x - a) / b) := by
  rw [sub_finite, div_finite _ hb]

theorem logNormalCdf_finite (z : ℝ) : Scalar.logNormalCdf (finite z) =
    Scalar.log (finite (ProbabilityTheory.cdf (gaussianReal 0 1) z)) :=
  (log_pos_finite (cdf_gaussian_pos z)).symm

theorem logNormalCdf_neg_finite (z : ℝ) : Scalar.logNormalCdf (-(finite z)) =
    Scalar.log (finite (1 - ProbabilityTheory.cdf (gaussianReal 0 1) z)) := by
  rw [← cdf_gaussian_neg]
  exact logNormalCdf_finite (-z)

theorem distributes_normal (hb : 0 < b) :
    normal.Distributes [finite a, finite b] whole (normal.cdf [a, b]) where
  carries := by
    apply carries_whole
    · exact (monotone_cdf _).comp (monotone_standardized hb)
    · exact (tendsto_cdf_atBot _).comp (tendsto_standardized_atBot hb)
    · exact (tendsto_cdf_atTop _).comp (tendsto_standardized_atTop hb)
  logCdf v _ := by
    change Scalar.logNormalCdf ((finite v - finite a) / finite b) = _
    rw [standardized_finite hb.ne']
    exact logNormalCdf_finite _
  logSurvival v _ := by
    change Scalar.logNormalCdf (-((finite v - finite a) / finite b)) = _
    rw [standardized_finite hb.ne']
    exact logNormalCdf_neg_finite _

theorem pos_of_contains {v : ℝ} (hv : positive.Contains (finite v)) : 0 < v :=
  hv.lower_lt ofFloat_zero

theorem log_of_contains {v : ℝ} (hv : positive.Contains (finite v)) :
    Scalar.log (finite v) = finite (Real.log v) :=
  log_pos_finite (pos_of_contains hv)

theorem distributes_lognormal (hb : 0 < b) :
    lognormal.Distributes [finite a, finite b] positive (lognormal.cdf [a, b]) where
  carries := by
    apply carries_positive
    · intro x y hxy
      change (if 0 < x then _ else (0 : ℝ)) ≤ if 0 < y then _ else (0 : ℝ)
      by_cases hx : 0 < x
      · rw [if_pos hx, if_pos (hx.trans_le hxy)]
        exact monotone_cdf _ (monotone_standardized hb (Real.log_le_log hx hxy))
      · rw [if_neg hx]
        split
        · exact cdf_nonneg _ _
        · exact le_rfl
    · exact if_neg (lt_irrefl 0)
    · apply Tendsto.congr' _ ((tendsto_cdf_atTop (gaussianReal 0 1)).comp
        ((tendsto_standardized_atTop (a := a) hb).comp Real.tendsto_log_atTop))
      filter_upwards [eventually_gt_atTop (0 : ℝ)] with x hx
      exact (if_pos hx).symm
  logCdf v hv := by
    change Scalar.logNormalCdf ((Scalar.log (finite v) - finite a) / finite b) =
      Scalar.log (finite (if 0 < v then _ else 0))
    rw [log_of_contains hv, standardized_finite hb.ne', if_pos (pos_of_contains hv)]
    exact logNormalCdf_finite _
  logSurvival v hv := by
    change Scalar.logNormalCdf (-((Scalar.log (finite v) - finite a) / finite b)) =
      Scalar.log (finite (1 - if 0 < v then _ else 0))
    rw [log_of_contains hv, standardized_finite hb.ne', if_pos (pos_of_contains hv)]
    exact logNormalCdf_neg_finite _

theorem distributes_exponential (ha : 0 < a) :
    exponential.Distributes [finite a] positive (exponential.cdf [a]) where
  carries := by
    apply carries_positive
    · intro x y hxy
      change (if 0 < x then 1 - Real.exp (-(a * x)) else (0 : ℝ)) ≤
        if 0 < y then 1 - Real.exp (-(a * y)) else (0 : ℝ)
      by_cases hx : 0 < x
      · rw [if_pos hx, if_pos (hx.trans_le hxy)]
        have hscaled : a * x ≤ a * y := mul_le_mul_of_nonneg_left hxy ha.le
        have hexp := Real.exp_le_exp.mpr (neg_le_neg hscaled)
        linarith
      · rw [if_neg hx]
        split
        case isTrue hy =>
          have hexp := Real.exp_le_one_iff.mpr (neg_nonpos.mpr (mul_pos ha hy).le)
          linarith
        case isFalse => exact le_rfl
    · exact if_neg (lt_irrefl 0)
    · have hlimit : Tendsto (fun x => 1 - Real.exp (-(a * x))) atTop (𝓝 (1 - 0)) := by
        apply Tendsto.const_sub
        exact Real.tendsto_exp_neg_atTop_nhds_zero.comp (tendsto_id.const_mul_atTop ha)
      rw [sub_zero] at hlimit
      apply Tendsto.congr' _ hlimit
      filter_upwards [eventually_gt_atTop (0 : ℝ)] with x hx
      exact (if_pos hx).symm
  logCdf v hv := by
    change Scalar.log (finite (-(Real.exp (-(a * v)) - 1))) =
      Scalar.log (finite (if 0 < v then 1 - Real.exp (-(a * v)) else 0))
    rw [if_pos (pos_of_contains hv), neg_sub]
  logSurvival v hv := by
    change finite (-(a * v)) =
      Scalar.log (finite (1 - if 0 < v then 1 - Real.exp (-(a * v)) else 0))
    rw [if_pos (pos_of_contains hv), sub_sub_cancel, log_pos_finite (Real.exp_pos _),
      Real.log_exp]

theorem distributes_gamma (ha : 0 < a) (hb : 0 < b) :
    gamma.Distributes [finite a, finite b] positive (gamma.cdf [a, b]) where
  carries := by
    apply carries_positive
    · intro x y hxy
      exact monotone_cdf _ (mul_le_mul_of_nonneg_left hxy hb.le)
    · change ProbabilityTheory.cdf (gammaMeasure a 1) (b * 0) = 0
      rw [mul_zero, cdf_gamma_zero ha]
    · exact (tendsto_cdf_atTop _).comp (tendsto_id.const_mul_atTop hb)
  logCdf v _ := rfl
  logSurvival v _ := by
    change Scalar.log (finite (1 + -ProbabilityTheory.cdf (gammaMeasure a 1) (b * v))) = _
    rw [← sub_eq_add_neg]
    rfl

theorem betaCdf_finite {v : ℝ} (hv : unit.Contains (finite v)) :
    Cumulative.betaCdf (finite a) (finite b) (finite v) =
      finite (ProbabilityTheory.cdf (betaMeasure a b) v) := by
  have hlower : 0 < v := hv.lower_lt ofFloat_zero
  have hupper : v < 1 := hv.lt_upper ofFloat_one
  have hzero : (Scalar.zero : Extended) = finite 0 := by rw [zero_finite, Scalar.zero_real]
  have hone : (Scalar.one : Extended) = finite 1 := by rw [one_finite, Scalar.one_real]
  have hbelow : Scalar.lessEq (finite v) (finite 0) = false := by
    change (decide (v < 0) || decide (v = 0)) = false
    rw [decide_eq_false (not_lt_of_gt hlower), decide_eq_false hlower.ne']
    rfl
  have habove : Scalar.lessEq (finite 1) (finite v) = false := by
    change (decide (1 < v) || decide (1 = v)) = false
    rw [decide_eq_false (not_lt_of_gt hupper), decide_eq_false hupper.ne']
    rfl
  have hinside : (Scalar.less (finite 0) (finite v) && Scalar.less (finite v) (finite 1)) =
      true := by
    change (decide (0 < v) && decide (v < 1)) = true
    rw [decide_eq_true hlower, decide_eq_true hupper]
    rfl
  unfold Cumulative.betaCdf
  simp only [hzero, hone, hbelow, habove, hinside]
  rfl

theorem distributes_beta (ha : 0 < a) (hb : 0 < b) :
    beta.Distributes [finite a, finite b] unit (beta.cdf [a, b]) where
  carries := carries_unit (monotone_cdf _) (cdf_beta_zero ha hb) (cdf_beta_one ha hb)
  logCdf v hv := by
    change Scalar.log (Cumulative.betaCdf (finite a) (finite b) (finite v)) = _
    rw [betaCdf_finite hv]
    rfl
  logSurvival v hv := by
    change Scalar.log1mexp (Scalar.log (Cumulative.betaCdf (finite a) (finite b) (finite v))) = _
    rw [betaCdf_finite hv]
    exact log1mexp_log (cdf_nonneg _ _) (cdf_le_one _ _)

theorem cauchy_finite (hb : b ≠ 0) (v : ℝ) :
    Cumulative.cauchy (finite a) (finite b) (finite v) =
      Scalar.log (finite (cauchy.cdf [a, b] v)) := by
  have hpi : (0 : ℝ) < Real.pi := Real.pi_pos
  have hangle := Real.neg_pi_div_two_lt_arctan ((v - a) / b)
  have hpos : 0 < 1 + 2 / Real.pi * Real.arctan ((v - a) / b) := by
    have hscaled := mul_lt_mul_of_pos_left hangle (div_pos two_pos hpi)
    have hone : 2 / Real.pi * -(Real.pi / 2) = -1 := by field_simp
    linarith
  have hvalue : cauchy.cdf [a, b] v = (1 + 2 / Real.pi * Real.arctan ((v - a) / b)) / 2 := by
    change Scalar.half + Real.arctan ((v - a) / b) / Real.pi = _
    rw [Scalar.half_real]
    field_simp
  have htwo : (Scalar.ofNat 2 : Extended) = finite 2 := congrArg finite Nat.cast_two
  have hinner : Scalar.ofNat 2 / Scalar.pi *
      Scalar.arctan ((finite v - finite a) / finite b) =
        finite (2 / Real.pi * Real.arctan ((v - a) / b)) := by
    rw [standardized_finite hb, htwo]
    change finite 2 / finite Real.pi * finite (Real.arctan ((v - a) / b)) = _
    rw [div_finite _ hpi.ne', mul_finite]
  unfold Cumulative.cauchy
  rw [hinner, htwo, hvalue, log_pos_finite two_pos, log_pos_finite (half_pos hpos),
    Real.log_div hpos.ne' two_ne_zero]
  change Scalar.log (finite (1 + _)) - _ = _
  rw [log_pos_finite hpos, sub_finite]

theorem distributes_cauchy (hb : 0 < b) :
    cauchy.Distributes [finite a, finite b] whole (cauchy.cdf [a, b]) := by
  have hcarries : whole.Carries (cauchy.cdf [a, b]) := by
    have hlimit : forall {l : Filter ℝ} {y : ℝ},
        Tendsto (fun x => Real.arctan ((x - a) / b)) l (𝓝 y) ->
          Tendsto (cauchy.cdf [a, b]) l (𝓝 (Scalar.half + y / Real.pi)) :=
      fun h => (h.div_const Real.pi).const_add Scalar.half
    have hright := (Real.tendsto_arctan_atTop.mono_right nhdsWithin_le_nhds).comp
      (tendsto_standardized_atTop (a := a) hb)
    have hleft := (Real.tendsto_arctan_atBot.mono_right nhdsWithin_le_nhds).comp
      (tendsto_standardized_atBot (a := a) hb)
    have hone : Scalar.half + Real.pi / 2 / Real.pi = 1 := by
      rw [Scalar.half_real]
      field_simp
      norm_num
    have hzero : Scalar.half + -(Real.pi / 2) / Real.pi = 0 := by
      rw [Scalar.half_real]
      field_simp
      norm_num
    apply carries_whole
    · intro x y hxy
      have hangle := Real.arctan_strictMono.monotone (monotone_standardized (a := a) hb hxy)
      exact add_le_add_right (div_le_div_of_nonneg_right hangle Real.pi_pos.le) _
    · rw [← hzero]
      exact hlimit hleft
    · rw [← hone]
      exact hlimit hright
  constructor
  · exact hcarries
  · intro v _
    exact cauchy_finite hb.ne' v
  · intro v hv
    change Scalar.log1mexp (Cumulative.cauchy (finite a) (finite b) (finite v)) = _
    rw [cauchy_finite hb.ne' v]
    exact log1mexp_log (hcarries.nonneg hv) (hcarries.le_one hv)

/-!
# Student's distribution
-/

variable {z w : ℝ}

theorem studentTail_eq (df z : ℝ) : studentTail df z =
    1 / 2 * ProbabilityTheory.cdf (betaMeasure (df * (1 / 2)) (1 / 2)) (df / (df + z * z)) := by
  unfold studentTail
  rw [Scalar.half_real]

theorem studentTail_le (ha : 0 < a) (hz : w * w ≤ z * z) : studentTail a z ≤ studentTail a w := by
  have hratio : a / (a + z * z) ≤ a / (a + w * w) :=
    div_le_div_of_nonneg_left ha.le (by nlinarith [mul_self_nonneg w]) (by linarith)
  rw [studentTail_eq, studentTail_eq]
  exact mul_le_mul_of_nonneg_left (monotone_cdf _ hratio) (by norm_num)

theorem studentTail_le_half (z : ℝ) : studentTail a z ≤ 1 / 2 := by
  have hle := cdf_le_one (betaMeasure (a * (1 / 2)) (1 / 2)) (a / (a + z * z))
  rw [studentTail_eq]
  linarith

theorem tendsto_studentTail (ha : 0 < a) {l : Filter ℝ} {g : ℝ → ℝ}
    (hg : Tendsto (fun x => g x * g x) l atTop) :
    Tendsto (fun x => studentTail a (g x)) l (𝓝 0) := by
  have hratio : Tendsto (fun x => a / (a + g x * g x)) l (𝓝[≥] 0) := by
    apply tendsto_nhdsWithin_iff.mpr
    constructor
    · exact (tendsto_atTop_add_const_left l a hg).const_div_atTop a
    · apply Eventually.of_forall
      intro x
      exact div_nonneg ha.le (add_nonneg ha.le (mul_self_nonneg (g x)))
  have hright := (ProbabilityTheory.cdf (betaMeasure (a * (1 / 2)) (1 / 2))).right_continuous 0
  have hlimit := (hright.tendsto.comp hratio).const_mul (1 / 2)
  rw [cdf_beta_zero (mul_pos ha one_half_pos) one_half_pos, mul_zero] at hlimit
  exact hlimit.congr fun x => (studentTail_eq a (g x)).symm

theorem monotone_studentCdf (ha : 0 < a) (hc : 0 < c) : Monotone (student.cdf [a, b, c]) := by
  intro x y hxy
  change (if x < b then studentTail a ((x - b) / c) else 1 - studentTail a ((x - b) / c)) ≤
    if y < b then studentTail a ((y - b) / c) else 1 - studentTail a ((y - b) / c)
  have hstandard : (x - b) / c ≤ (y - b) / c := monotone_standardized hc hxy
  by_cases hx : x < b
  · have hneg : (x - b) / c < 0 := div_neg_of_neg_of_pos (sub_neg.mpr hx) hc
    rw [if_pos hx]
    split
    case isTrue hy =>
      have hneg' : (y - b) / c < 0 := div_neg_of_neg_of_pos (sub_neg.mpr hy) hc
      apply studentTail_le ha
      nlinarith
    case isFalse =>
      have hle := studentTail_le_half (a := a) ((x - b) / c)
      have hle' := studentTail_le_half (a := a) ((y - b) / c)
      linarith
  · have hpos : 0 ≤ (x - b) / c := div_nonneg (sub_nonneg.mpr (not_lt.mp hx)) hc.le
    rw [if_neg hx, if_neg fun hy => hx (hxy.trans_lt hy)]
    apply sub_le_sub_left
    apply studentTail_le ha
    nlinarith

theorem carries_studentCdf (ha : 0 < a) (hc : 0 < c) :
    whole.Carries (student.cdf [a, b, c]) := by
  have htop := tendsto_standardized_atTop (a := b) hc
  have hbottom := tendsto_standardized_atBot (a := b) hc
  apply carries_whole (monotone_studentCdf ha hc)
  · have htail := tendsto_studentTail ha (hbottom.atBot_mul_atBot₀ hbottom)
    apply Tendsto.congr' _ htail
    filter_upwards [eventually_lt_atBot b] with x hx
    exact (if_pos hx).symm
  · have htail := (tendsto_studentTail ha (htop.atTop_mul_atTop₀ htop)).const_sub 1
    rw [sub_zero] at htail
    apply Tendsto.congr' _ htail
    filter_upwards [eventually_ge_atTop b] with x hx
    exact (if_neg (not_lt.mpr hx)).symm

theorem studentCdf_finite (ha : 0 < a) (hc : 0 < c) (v : ℝ) :
    Cumulative.studentCdf (finite a) (finite b) (finite c) (finite v) =
      finite (student.cdf [a, b, c] v) := by
  have hscale : Scalar.abs (finite c) = finite c := congrArg finite (abs_of_pos hc)
  have hhalf : (Scalar.half : Extended) = finite (1 / 2) := by rw [half_finite, Scalar.half_real]
  have hzero : (Scalar.zero : Extended) = finite 0 := by rw [zero_finite, Scalar.zero_real]
  have hone : (Scalar.one : Extended) = finite 1 := by rw [one_finite, Scalar.one_real]
  have hpos : a + (v - b) / c * ((v - b) / c) ≠ 0 :=
    (add_pos_of_pos_of_nonneg ha (mul_self_nonneg _)).ne'
  have htail : finite (1 / 2) * Scalar.betaCdf (finite a * finite (1 / 2)) (finite (1 / 2))
      (finite a / (finite a + Scalar.square (finite ((v - b) / c)))) =
        finite (studentTail a ((v - b) / c)) := by
    change finite (1 / 2) * Scalar.betaCdf (finite (a * (1 / 2))) (finite (1 / 2))
      (finite a / finite (a + (v - b) / c * ((v - b) / c))) = _
    rw [div_finite _ hpos, studentTail_eq]
    rfl
  have hless : Scalar.less (finite ((v - b) / c)) (finite 0) = decide (v < b) := by
    apply decide_eq_decide.mpr
    rw [div_neg_iff, sub_neg]
    constructor
    · rintro (⟨_, hneg⟩ | ⟨hlt, _⟩)
      · exact absurd hneg (not_lt_of_gt hc)
      · exact hlt
    · exact fun hlt => Or.inr ⟨hlt, hc⟩
  have hcdf : student.cdf [a, b, c] v = if v < b then studentTail a ((v - b) / c)
      else 1 - studentTail a ((v - b) / c) := rfl
  unfold Cumulative.studentCdf
  simp only [hscale, standardized_finite hc.ne', hhalf, hzero, hone, htail, hless]
  rw [hcdf, sub_finite]
  change (if decide (v < b) = true then _ else _) = _
  by_cases hv : v < b
  · rw [decide_eq_true hv, if_pos rfl, if_pos hv]
  · rw [decide_eq_false hv, if_neg Bool.false_ne_true, if_neg hv]

theorem distributes_student (ha : 0 < a) (hc : 0 < c) :
    student.Distributes [finite a, finite b, finite c] whole (student.cdf [a, b, c]) where
  carries := carries_studentCdf ha hc
  logCdf v _ := by
    change Scalar.log (Cumulative.studentCdf (finite a) (finite b) (finite c) (finite v)) = _
    rw [studentCdf_finite ha hc]
  logSurvival v _ := by
    change Scalar.log (finite 1 + -(Cumulative.studentCdf (finite a) (finite b) (finite c)
      (finite v))) = _
    rw [studentCdf_finite ha hc]
    change Scalar.log (finite (1 + -student.cdf [a, b, c] v)) = _
    rw [← sub_eq_add_neg]

/-!
# All families
-/

theorem distributes_cdf {f : Family} {ps : List ℝ} (h : f.Allows ps) :
    f.Distributes (ps.map finite) f.support (f.cdf ps) := by
  unfold Allows at h
  split at h
  · exact distributes_normal h
  · exact distributes_lognormal h
  · exact distributes_exponential h
  · exact distributes_gamma h.1 h.2
  · exact distributes_beta h.1 h.2
  · exact distributes_cauchy h
  · exact distributes_student h.1 h.2
  · exact absurd h id

end Family

end DensityGraph
