import Mathlib.Probability.CDF
import DensityGraph.Proofs.Scalar.Doubles
import DensityGraph.Distribution.Cumulative
import DensityGraph.Proofs.Graph.Edit
/-!
# Masses of truncations

The mass that a distribution has within a truncation is the difference of its distribution
function at the two ends.  Its logarithm is computed from the logarithms of the distribution
function and of what is left above a number, and in four ways: an end at which nothing is cut
off is not read, and of the two differences the one with the smaller parts is taken.  Over
exact scalars all of them agree.
-/

namespace DensityGraph

/-!
# Logarithms of differences
-/

namespace Extended

open Scalar

variable {a b : ℝ}

theorem log_zero_finite : Scalar.log (finite 0) = infinite true := by
  change (if (0 : ℝ) < 0 then _ else if (0 : ℝ) = 0 then infinite true else undefined) = _
  rw [if_neg (lt_irrefl 0), if_pos rfl]

theorem log_pos_finite (ha : 0 < a) : Scalar.log (finite a) = finite (Real.log a) :=
  log_finite ha

theorem less_log (ha : 0 ≤ a) (hb : 0 ≤ b) :
    Scalar.less (Scalar.log (finite a)) (Scalar.log (finite b)) = decide (a < b) := by
  rcases ha.eq_or_lt with rfl | hpos
  · rcases hb.eq_or_lt with rfl | hpos'
    · rw [log_zero_finite, decide_eq_false (lt_irrefl 0)]
      rfl
    · rw [log_zero_finite, log_pos_finite hpos', decide_eq_true hpos']
      rfl
  · rcases hb.eq_or_lt with rfl | hpos'
    · rw [log_zero_finite, log_pos_finite hpos, decide_eq_false (not_lt_of_gt hpos)]
      rfl
    · rw [log_pos_finite hpos, log_pos_finite hpos']
      exact decide_eq_decide.mpr (Real.log_lt_log_iff hpos hpos')

theorem equal_log (ha : 0 ≤ a) (hb : 0 ≤ b) :
    Scalar.equal (Scalar.log (finite a)) (Scalar.log (finite b)) = decide (a = b) := by
  rcases ha.eq_or_lt with rfl | hpos
  · rcases hb.eq_or_lt with rfl | hpos'
    · rw [log_zero_finite, decide_eq_true rfl]
      rfl
    · rw [log_zero_finite, log_pos_finite hpos', decide_eq_false hpos'.ne]
      rfl
  · rcases hb.eq_or_lt with rfl | hpos'
    · rw [log_zero_finite, log_pos_finite hpos, decide_eq_false hpos.ne']
      rfl
    · rw [log_pos_finite hpos, log_pos_finite hpos']
      apply decide_eq_decide.mpr
      constructor
      · exact fun heq => Real.log_injOn_pos hpos hpos' heq
      · exact fun heq => congrArg Real.log heq

theorem larger_log (ha : 0 ≤ a) (hab : a < b) :
    larger (Scalar.log (finite a)) (Scalar.log (finite b)) = Scalar.log (finite b) ∧
      larger (Scalar.log (finite b)) (Scalar.log (finite a)) = Scalar.log (finite b) := by
  have hb := ha.trans hab.le
  unfold larger
  rw [equal_log ha hb, equal_log hb ha, less_log ha hb, less_log hb ha,
    decide_eq_false hab.ne, decide_eq_false hab.ne', decide_eq_true hab,
    decide_eq_false (not_lt_of_gt hab)]
  exact ⟨rfl, rfl⟩

theorem smaller_log (ha : 0 ≤ a) (hab : a < b) :
    smaller (Scalar.log (finite a)) (Scalar.log (finite b)) = Scalar.log (finite a) ∧
      smaller (Scalar.log (finite b)) (Scalar.log (finite a)) = Scalar.log (finite a) := by
  have hb := ha.trans hab.le
  unfold smaller
  rw [equal_log ha hb, equal_log hb ha, less_log ha hb, less_log hb ha,
    decide_eq_false hab.ne, decide_eq_false hab.ne', decide_eq_true hab,
    decide_eq_false (not_lt_of_gt hab)]
  exact ⟨rfl, rfl⟩

theorem log1mexp_finite (c : ℝ) :
    log1mexp (finite c) = Scalar.log (finite (1 - Real.exp (-|c|))) := by
  have hbelow : Scalar.log (-(Scalar.expm1 (-(finite |c|)))) =
      Scalar.log (finite (1 - Real.exp (-|c|))) := by
    change Scalar.log (finite (-(Real.exp (-|c|) - 1))) = _
    rw [neg_sub]
  have habove : Scalar.log1p (-(Scalar.exp (-(finite |c|)))) =
      Scalar.log (finite (1 - Real.exp (-|c|))) := by
    change Scalar.log (finite (1 + -Real.exp (-|c|))) = _
    rw [← sub_eq_add_neg]
  change (if Scalar.less (finite |c|) (Scalar.log (Scalar.ofNat 2)) then
    Scalar.log (-(Scalar.expm1 (-(finite |c|))))
      else Scalar.log1p (-(Scalar.exp (-(finite |c|))))) = _
  split
  · exact hbelow
  · exact habove

theorem log1mexp_infinite (s : Bool) : log1mexp (infinite s) = finite 0 := by
  have habs : Scalar.abs (infinite s) = infinite false := by cases s <;> rfl
  have hlog : Scalar.log1p (-(Scalar.exp (-(infinite false)))) = Scalar.log (finite (1 + -0)) :=
    rfl
  have hless : Scalar.less (infinite false) (Scalar.log (Scalar.ofNat 2)) = false := by
    cases Scalar.log (Scalar.ofNat 2 : Extended) <;> rfl
  unfold log1mexp
  simp only [habs, hless]
  change Scalar.log1p (-(Scalar.exp (-(infinite false)))) = _
  rw [hlog, neg_zero, add_zero, log_pos_finite one_pos, Real.log_one]

/-- What is left of a probability has the logarithm that is computed from that of the
probability. -/
theorem log1mexp_log (ha : 0 ≤ a) (ha' : a ≤ 1) :
    log1mexp (Scalar.log (finite a)) = Scalar.log (finite (1 - a)) := by
  rcases ha.eq_or_lt with rfl | hpos
  · rw [log_zero_finite, log1mexp_infinite, sub_zero, log_pos_finite one_pos, Real.log_one]
  · rw [log_pos_finite hpos, log1mexp_finite,
      abs_of_nonpos (Real.log_nonpos ha ha'), neg_neg, Real.exp_log hpos]

theorem add_log1mexp (ha : 0 ≤ a) (hab : a < b) :
    Scalar.log (finite b) + log1mexp (larger (Scalar.log (finite b) - Scalar.log (finite a))
      zero) = Scalar.log (finite (b - a)) := by
  have hb : 0 < b := ha.trans_lt hab
  rw [log_pos_finite hb, log_pos_finite (sub_pos.mpr hab)]
  rcases ha.eq_or_lt with rfl | hpos
  · have hlarger : larger (infinite false) (zero : Extended) = infinite false := rfl
    have hsub : finite (Real.log b) - Scalar.log (finite 0) = infinite false := by
      rw [log_zero_finite]
      rfl
    rw [hsub, hlarger, log1mexp_infinite, add_finite, add_zero, sub_zero]
  · have hlog : 0 < Real.log b - Real.log a := sub_pos.mpr (Real.log_lt_log hpos hab)
    have hlarger : larger (finite (Real.log b - Real.log a)) zero =
        finite (Real.log b - Real.log a) := by
      unfold larger
      have hequal : Scalar.equal (finite (Real.log b - Real.log a)) zero = false := by
        rw [zero_finite, Scalar.zero_real]
        exact decide_eq_false hlog.ne'
      have hless : Scalar.less (finite (Real.log b - Real.log a)) zero = false := by
        rw [zero_finite, Scalar.zero_real]
        exact decide_eq_false (not_lt_of_gt hlog)
      rw [hequal, hless]
      rfl
    have hratio : Real.exp (-|Real.log b - Real.log a|) = a / b := by
      rw [abs_of_pos hlog, neg_sub, ← Real.log_div hpos.ne' hb.ne', Real.exp_log (div_pos hpos hb)]
    have hrest : 0 < 1 - a / b := sub_pos.mpr ((div_lt_one hb).mpr hab)
    rw [log_pos_finite hpos, sub_finite, hlarger, log1mexp_finite, hratio,
      log_pos_finite hrest, add_finite, ← Real.log_mul hb.ne' hrest.ne']
    congr 2
    field_simp

theorem logSubExp_log (ha : 0 ≤ a) (hb : 0 ≤ b) (hne : a ≠ b) :
    logSubExp (Scalar.log (finite a)) (Scalar.log (finite b)) = Scalar.log (finite |a - b|) := by
  unfold logSubExp
  rcases lt_or_gt_of_ne hne with hlt | hgt
  · simp only [(larger_log ha hlt).1, (smaller_log ha hlt).1]
    rw [add_log1mexp ha hlt, abs_sub_comm, abs_of_pos (sub_pos.mpr hlt)]
  · simp only [(larger_log hb hgt).2, (smaller_log hb hgt).2]
    rw [add_log1mexp hb hgt, abs_of_pos (sub_pos.mpr hgt)]

end Extended

/-!
# Distribution functions
-/

namespace Interval

open Extended Filter Topology

/-- A function that rises from zero to one over an interval; it does so in the limit at an
infinite end. -/
structure Carries (b : Interval) (F : ℝ → ℝ) : Prop where
  ordered : b.lower < b.upper
  monotone : Monotone F
  lower : forall v, ofFloat b.lower = finite v -> F v = 0
  upper : forall v, ofFloat b.upper = finite v -> F v = 1
  bottom : ofFloat b.lower = infinite true -> Tendsto F atBot (𝓝 0)
  top : ofFloat b.upper = infinite false -> Tendsto F atTop (𝓝 1)

/-- The value at a number that a double stands for, and the limits at the infinities. -/
noncomputable def massBelow (F : ℝ → ℝ) (x : Float) : ℝ :=
  match ofFloat x with
  | finite v => F v
  | infinite true => 0
  | _ => 1

variable {b t : Interval} {F : ℝ → ℝ} {x : Float} {v : ℝ}

theorem massBelow_of_finite (hx : ofFloat x = finite v) : massBelow F x = F v := by
  unfold massBelow
  rw [hx]

theorem massBelow_of_beq {y : Float} (h : (x == y) = true) : massBelow F x = massBelow F y := by
  have heq : ofFloat x = ofFloat y := eq_of_equal ((equal_ofFloat x y).trans h)
  unfold massBelow
  rw [heq]

namespace Carries

theorem nonneg (h : b.Carries F) (hv : b.Contains (finite v)) : 0 ≤ F v := by
  cases hlower : ofFloat b.lower with
  | undefined =>
      have hless := hv.1
      rw [hlower] at hless
      cases hless
  | infinite s =>
      cases s with
      | true => exact h.monotone.le_of_tendsto (h.bottom hlower) v
      | false =>
          have hless := hv.1
          rw [hlower] at hless
          cases hless
  | finite u =>
      rw [← h.lower u hlower]
      exact h.monotone (hv.lower_lt hlower).le

theorem le_one (h : b.Carries F) (hv : b.Contains (finite v)) : F v ≤ 1 := by
  cases hupper : ofFloat b.upper with
  | undefined =>
      have hless := hv.2
      rw [hupper] at hless
      cases hless
  | infinite s =>
      cases s with
      | false => exact h.monotone.ge_of_tendsto (h.top hupper) v
      | true =>
          have hless := hv.2
          rw [hupper] at hless
          cases hless
  | finite u =>
      rw [← h.upper u hupper]
      exact h.monotone (hv.lt_upper hupper).le

theorem massBelow_lower (h : b.Carries F) : massBelow F b.lower = 0 := by
  have hless := less_ofFloat b.lower b.upper
  rw [decide_eq_true h.ordered] at hless
  cases hlower : ofFloat b.lower with
  | undefined =>
      rw [hlower] at hless
      cases hless
  | finite v =>
      rw [massBelow_of_finite hlower]
      exact h.lower v hlower
  | infinite s =>
      unfold massBelow
      rw [hlower]
      cases s with
      | true => rfl
      | false =>
          rw [hlower] at hless
          cases hupper : ofFloat b.upper <;> rw [hupper] at hless <;> cases hless

theorem massBelow_upper (h : b.Carries F) : massBelow F b.upper = 1 := by
  have hless := less_ofFloat b.lower b.upper
  rw [decide_eq_true h.ordered] at hless
  cases hupper : ofFloat b.upper with
  | undefined =>
      rw [hupper] at hless
      cases hlower : ofFloat b.lower <;> rw [hlower] at hless <;> cases hless
  | finite v =>
      rw [massBelow_of_finite hupper]
      exact h.upper v hupper
  | infinite s =>
      unfold massBelow
      rw [hupper]
      cases s with
      | false => rfl
      | true =>
          rw [hupper] at hless
          cases hlower : ofFloat b.lower with
          | infinite s => cases s <;> rw [hlower] at hless <;> cases hless
          | _ => rw [hlower] at hless; cases hless

end Carries

theorem exists_finite (hlower : b.lower < x) (hupper : x < b.upper) :
    ∃ v, ofFloat x = finite v ∧ b.Contains (finite v) := by
  have hcontains : b.Contains (ofFloat x) := by
    constructor
    · exact (less_ofFloat b.lower x).trans (decide_eq_true hlower)
    · exact (less_ofFloat x b.upper).trans (decide_eq_true hupper)
  rcases isFinite_iff.mp (Constraint.isFinite_of_contains hcontains) with ⟨v, hv⟩
  rw [hv] at hcontains
  exact ⟨v, hv, hcontains⟩

namespace Truncates

theorem ends (h : t.Truncates b) (hb : b.lower < b.upper) :
    (ofFloat b.lower).toEReal ≤ (ofFloat t.lower).toEReal ∧
      (ofFloat t.lower).toEReal < (ofFloat t.upper).toEReal ∧
      (ofFloat t.upper).toEReal ≤ (ofFloat b.upper).toEReal := by
  have hsupport := isNaN_of_lt hb
  have hends := isNaN_of_lt h.ordered
  have hlower := h.lower
  have hupper := h.upper
  rw [lt_iff hends.1 hsupport.1] at hlower
  rw [lt_iff hsupport.2 hends.2] at hupper
  exact ⟨not_lt.mp hlower, (lt_iff hends.1 hends.2).mp h.ordered, not_lt.mp hupper⟩

theorem lt_upper (h : t.Truncates b) (hb : b.lower < b.upper) : b.lower < t.upper := by
  have hends := h.ends hb
  rw [lt_iff (isNaN_of_lt hb).1 (isNaN_of_lt h.ordered).2]
  exact hends.1.trans_lt hends.2.1

theorem lower_lt (h : t.Truncates b) (hb : b.lower < b.upper) : t.lower < b.upper := by
  have hends := h.ends hb
  rw [lt_iff (isNaN_of_lt h.ordered).1 (isNaN_of_lt hb).2]
  exact hends.2.1.trans_le hends.2.2

theorem lt_lower (h : t.Truncates b) (hb : b.lower < b.upper)
    (hne : (t.lower == b.lower) = false) : b.lower < t.lower := by
  have hnan := (isNaN_of_lt h.ordered).1
  have hnan' := (isNaN_of_lt hb).1
  rw [lt_iff hnan' hnan]
  apply lt_of_le_of_ne (h.ends hb).1
  intro heq
  rw [(beq_iff hnan hnan').mpr heq.symm] at hne
  cases hne

theorem upper_lt (h : t.Truncates b) (hb : b.lower < b.upper)
    (hne : (t.upper == b.upper) = false) : t.upper < b.upper := by
  have hnan := (isNaN_of_lt h.ordered).2
  have hnan' := (isNaN_of_lt hb).2
  rw [lt_iff hnan hnan']
  apply lt_of_le_of_ne (h.ends hb).2.2
  intro heq
  rw [(beq_iff hnan hnan').mpr heq] at hne
  cases hne

theorem upper_ne (h : t.Truncates b) (heq : (t.lower == b.lower) = true) :
    (t.upper == b.upper) = false := by
  have hproper := h.proper
  unfold sameAs at hproper
  rwa [heq, Bool.true_and] at hproper

end Truncates

end Interval

/-!
# Masses
-/

namespace Family

open Extended DensityGraph.Interval

/-- For its parameters a family has a distribution function on its support.  The logarithms of
the function, and of what is left above a number, are those that the family computes. -/
structure Distributes (f : Family) (ps : List Extended) (b : Interval) (F : ℝ → ℝ) : Prop where
  carries : b.Carries F
  logCdf : forall v, b.Contains (finite v) ->
    f.logCdf ps (finite v) = Scalar.log (finite (F v))
  logSurvival : forall v, b.Contains (finite v) ->
    f.logSurvival ps (finite v) = Scalar.log (finite (1 - F v))

namespace Distributes

variable {f : Family} {ps : List Extended} {b t : Interval} {F : ℝ → ℝ} {u v : ℝ}

theorem logSubExp_logCdf (h : f.Distributes ps b F) (hu : b.Contains (finite u))
    (hv : b.Contains (finite v)) (hlt : F u < F v) :
    Scalar.logSubExp (f.logCdf ps (finite v)) (f.logCdf ps (finite u)) =
      finite (Real.log (F v - F u)) := by
  rw [h.logCdf v hv, h.logCdf u hu, logSubExp_log (h.carries.nonneg hv) (h.carries.nonneg hu)
    hlt.ne', abs_of_pos (sub_pos.mpr hlt), log_pos_finite (sub_pos.mpr hlt)]

theorem logSubExp_logSurvival (h : f.Distributes ps b F) (hu : b.Contains (finite u))
    (hv : b.Contains (finite v)) (hlt : F u < F v) :
    Scalar.logSubExp (f.logSurvival ps (finite u)) (f.logSurvival ps (finite v)) =
      finite (Real.log (F v - F u)) := by
  have hleft : 0 ≤ 1 - F u := sub_nonneg.mpr (h.carries.le_one hu)
  have hleft' : 0 ≤ 1 - F v := sub_nonneg.mpr (h.carries.le_one hv)
  have hne : 1 - F u ≠ 1 - F v := (sub_lt_sub_left hlt 1).ne'
  have hmass : 1 - F u - (1 - F v) = F v - F u := by ring
  rw [h.logSurvival u hu, h.logSurvival v hv, logSubExp_log hleft hleft' hne, hmass,
    abs_of_pos (sub_pos.mpr hlt), log_pos_finite (sub_pos.mpr hlt)]

theorem logMass_eq (h : f.Distributes ps b F) (ht : t.Truncates b)
    (hlt : massBelow F t.lower < massBelow F t.upper) :
    f.logMass ps b t (ofFloat t.lower) (ofFloat t.upper) =
      finite (Real.log (massBelow F t.upper - massBelow F t.lower)) := by
  have hb := h.carries.ordered
  unfold logMass
  cases hlower : t.lower == b.lower with
  | true =>
      -- Something is cut off above only.
      rcases exists_finite (ht.lt_upper hb) (ht.upper_lt hb (ht.upper_ne hlower)) with
        ⟨v, hv, hinside⟩
      have hzero : massBelow F t.lower = 0 := by
        rw [massBelow_of_beq hlower, h.carries.massBelow_lower]
      rw [hzero, massBelow_of_finite hv] at hlt ⊢
      rw [if_pos rfl, hv, h.logCdf v hinside, log_pos_finite hlt, sub_zero]
  | false =>
      rcases exists_finite (ht.lt_lower hb hlower) (ht.lower_lt hb) with ⟨u, hu, hinside⟩
      rw [if_neg Bool.false_ne_true]
      simp only
      cases hupper : t.upper == b.upper with
      | true =>
          -- Something is cut off below only.
          have hone : massBelow F t.upper = 1 := by
            rw [massBelow_of_beq hupper, h.carries.massBelow_upper]
          rw [hone, massBelow_of_finite hu] at hlt ⊢
          rw [if_pos rfl, hu, h.logSurvival u hinside, log_pos_finite (sub_pos.mpr hlt)]
      | false =>
          rcases exists_finite (ht.lt_upper hb) (ht.upper_lt hb hupper) with ⟨v, hv, hinside'⟩
          rw [massBelow_of_finite hu, massBelow_of_finite hv] at hlt ⊢
          rw [if_neg Bool.false_ne_true, hu, hv, h.logSubExp_logCdf hinside hinside' hlt,
            h.logSubExp_logSurvival hinside hinside' hlt]
          exact ite_self _

end Distributes

end Family

end DensityGraph
