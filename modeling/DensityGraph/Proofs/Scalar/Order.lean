import DensityGraph.Proofs.Constraint.Width
import DensityGraph.Proofs.Scalar.Extended
/-!
# Doubles in order

A finite double stands for a real number, and the larger of two finite doubles stands for the
larger number.  The infinite doubles are the infinities.
-/

namespace DensityGraph

open Float.Model Float.Model.UnpackedFloat Rounding Number

/-!
# What doubles stand for
-/

namespace Dyadic

variable {x y : Float} {s : Sign} {m : Nat} {e : Int} {h : 0 < m}

def isNegative : Sign → Bool
  | .negative => true
  | .positive => false

def bits (x : Float) : BitVec Format.binary64.numBits :=
  x.toModel.toBits.toBitVec

theorem ofFloat_eq (x : Float) : ofFloat x =
    { negative := isNegative (Sign.ofBitVec (unpackSign (bits x)))
      mantissa := if (unpackExponent (bits x)).toNat = 0 then (unpackMantissa (bits x)).toNat
        else 2 ^ 52 + (unpackMantissa (bits x)).toNat
      exponent := if (unpackExponent (bits x)).toNat = 0 then -1074
        else ((unpackExponent (bits x)).toNat : Int) - 1075 } := by
  have hsign : forall v : BitVec 1, isNegative (Sign.ofBitVec v) = (v.toNat == 1) := by decide
  rw [hsign, toNat_unpackSign, toNat_unpackExponent, toNat_unpackMantissa]
  rfl

def Reads (d : Dyadic) : UnpackedFloat → Prop
  | .finite s m e _ => d = ⟨isNegative s, m, e⟩
  | .zero _ => d.mantissa = 0
  | .infinity s => d.negative = isNegative s
  | .notANumber => True

theorem reads_unpack (x : Float) : (ofFloat x).Reads x.toModel.unpack := by
  have hplaces := (unpackMantissa (bits x)).isLt
  rw [ofFloat_eq]
  change Reads _ (UnpackedFloat.unpack Format.binary64 (bits x))
  unfold UnpackedFloat.unpack
  dsimp only
  by_cases hlast : unpackExponent (bits x) = -1#_
  · rw [if_pos hlast]
    by_cases hzero : unpackMantissa (bits x) = 0#_
    · rw [if_pos hzero]
      rfl
    · rw [if_neg hzero]
      trivial
  · rw [if_neg hlast]
    by_cases hfirst : unpackExponent (bits x) = 0#_
    · rw [if_pos hfirst]
      by_cases hzero : unpackMantissa (bits x) = 0#_
      · rw [dif_pos hzero, hfirst, hzero]
        rfl
      · rw [dif_neg hzero, hfirst]
        rfl
    · have hne : (unpackExponent (bits x)).toNat ≠ 0 :=
        Nat.ne_of_gt (BitVec.toNat_pos_of_ne_zero hfirst)
      rw [if_neg hfirst, if_neg hne, if_neg hne]
      change Dyadic.mk _ _ _ = Dyadic.mk _ _ _
      rw [BitVec.toNat_append, ← Nat.shiftLeft_add_eq_or_of_lt hplaces]
      rfl

theorem ofFloat_of_finite (hx : x.toModel.unpack = .finite s m e h) :
    ofFloat x = ⟨isNegative s, m, e⟩ := by
  have hreads := reads_unpack x
  rwa [hx] at hreads

theorem mantissa_of_zero (hx : x.toModel.unpack = .zero s) : (ofFloat x).mantissa = 0 := by
  have hreads := reads_unpack x
  rwa [hx] at hreads

theorem negative_of_infinity (hx : x.toModel.unpack = .infinity s) :
    (ofFloat x).negative = isNegative s := by
  have hreads := reads_unpack x
  rwa [hx] at hreads

/-!
# Order
-/

theorem toReal_eq (hx : x.isFinite = true) : toReal x = value x.toModel.unpack := by
  unfold toReal
  rw [if_pos hx]
  cases hu : x.toModel.unpack with
  | infinity s =>
      change x.toModel.unpack.isFinite = true at hx
      rw [hu] at hx
      cases hx
  | notANumber =>
      change x.toModel.unpack.isFinite = true at hx
      rw [hu] at hx
      cases hx
  | zero s =>
      simp only [mantissa_of_zero hu, Nat.cast_zero, mul_zero, zero_mul]
      rfl
  | finite s m e h =>
      rw [ofFloat_of_finite hu]
      cases s with
      | positive =>
          change (if false = true then (-1 : ℝ) else 1) * m * 2 ^ e = _
          rw [if_neg Bool.false_ne_true, one_mul]
          rfl
      | negative =>
          change (if true = true then (-1 : ℝ) else 1) * m * 2 ^ e = _
          rw [if_pos rfl, neg_one_mul, neg_mul]
          rfl

theorem value_pos (m : Nat) (e : Int) (h : 0 < m) : 0 < (m : ℝ) * 2 ^ e :=
  mul_pos (Nat.cast_pos.mpr h) (zpow_pos two_pos e)

theorem value_lt {m' : Nat} {e' : Int} (hlt : e < e' ∨ e = e' ∧ m < m') (hm : Canonical m e)
    (hm' : Canonical m' e') : (m : ℝ) * 2 ^ e < m' * 2 ^ e' := by
  have hshift : forall (n : Nat) (i : Int), min e e' ≤ i ->
      (n : ℝ) * 2 ^ i = ((n <<< (i - min e e').toNat : Nat) : ℝ) * 2 ^ min e e' := by
    intro n i hi
    have hexponent : i = ((i - min e e').toNat : Int) + min e e' := by omega
    rw [Nat.shiftLeft_eq, Nat.cast_mul, Nat.cast_pow, Nat.cast_ofNat, mul_assoc, ← zpow_natCast,
      ← zpow_add₀ two_ne_zero, ← hexponent]
  rw [hshift m e (min_le_left e e'), hshift m' e' (min_le_right e e')]
  exact mul_lt_mul_of_pos_right (Nat.cast_lt.mpr (shifted_lt hlt hm hm')) (zpow_pos two_pos _)

theorem value_lt_of_le_eq_false {u v : UnpackedFloat} (hu : u.isFinite = true)
    (hv : v.isFinite = true)
    (hcu : forall s m e h, u = .finite s m e h -> Canonical m e)
    (hcv : forall s m e h, v = .finite s m e h -> Canonical m e) (hle : u.le v = false) :
    value v < value u := by
  cases u with
  | infinity s => cases hu
  | notANumber => cases hu
  | zero s =>
      cases v with
      | infinity s' => cases hv
      | notANumber => cases hv
      | zero s' => cases hle
      | finite s' m' e' h' =>
          cases s' with
          | positive => cases hle
          | negative => exact neg_lt_zero.mpr (value_pos m' e' h')
  | finite s m e h =>
      have hm := hcu _ _ _ _ rfl
      cases v with
      | infinity s' => cases hv
      | notANumber => cases hv
      | zero s' =>
          cases s with
          | negative => cases hle
          | positive => exact value_pos m e h
      | finite s' m' e' h' =>
          have hm' := hcv _ _ _ _ rfl
          cases s with
          | positive =>
              cases s' with
              | positive => exact value_lt (isLE_then hle) hm' hm
              | negative => exact (neg_lt_zero.mpr (value_pos m' e' h')).trans (value_pos m e h)
          | negative =>
              cases s' with
              | positive => cases hle
              | negative => exact neg_lt_neg (value_lt (isLE_swap_then hle) hm hm')

theorem toReal_lt (hx : x.isFinite = true) (hy : y.isFinite = true) (hle : ¬x ≤ y) :
    toReal y < toReal x := by
  rw [toReal_eq hx, toReal_eq hy]
  apply value_lt_of_le_eq_false hx hy
  · intro s m e h heq
    exact canonical_unpack heq
  · intro s m e h heq
    exact canonical_unpack heq
  · cases hbool : x.toModel.unpack.le y.toModel.unpack with
    | false => rfl
    | true => exact absurd (decide_eq_true hbool) hle

theorem compare_mantissas {m' : Nat} {e' : Int} (hm : Canonical m e) (hm' : Canonical m' e') :
    (compare e e').then (compare m m') = compare ((m : ℝ) * 2 ^ e) (m' * 2 ^ e') := by
  have hlt : forall {n n' : Nat} {i i' : Int}, i < i' ∨ i = i' ∧ n < n' -> Canonical n i ->
      Canonical n' i' -> compare ((n : ℝ) * 2 ^ i) (n' * 2 ^ i') = .lt :=
    fun hless hn hn' => compare_lt_iff_lt.mpr (value_lt hless hn hn')
  rcases lt_trichotomy e e' with he | rfl | he
  · rw [compare_lt_iff_lt.mpr he, hlt (Or.inl he) hm hm']
    rfl
  · rw [compare_eq_iff_eq.mpr rfl]
    rcases lt_trichotomy m m' with hless | rfl | hless
    · rw [compare_lt_iff_lt.mpr hless, hlt (Or.inr ⟨rfl, hless⟩) hm hm']
      rfl
    · rw [compare_eq_iff_eq.mpr rfl, compare_eq_iff_eq.mpr rfl]
      rfl
    · have hgt := value_lt (Or.inr ⟨rfl, hless⟩) hm' hm
      rw [compare_gt_iff_gt.mpr hless, compare_gt_iff_gt.mpr hgt]
      rfl
  · have hgt := value_lt (Or.inl he) hm' hm
    rw [compare_gt_iff_gt.mpr he, compare_gt_iff_gt.mpr hgt]
    rfl

theorem compare_neg (x y : ℝ) : compare (-x) (-y) = (compare x y).swap := by
  rcases lt_trichotomy x y with hlt | rfl | hgt
  · rw [compare_lt_iff_lt.mpr hlt, compare_gt_iff_gt.mpr (neg_lt_neg hlt)]
    rfl
  · rw [compare_eq_iff_eq.mpr rfl, compare_eq_iff_eq.mpr rfl]
    rfl
  · rw [compare_gt_iff_gt.mpr hgt, compare_lt_iff_lt.mpr (neg_lt_neg hgt)]
    rfl

end Dyadic

/-!
# Extended numbers of doubles
-/

namespace Extended

variable {x : Float}

theorem ofFloat_of_isFinite (hx : x.isFinite = true) : ofFloat x = finite (Dyadic.toReal x) := by
  change x.toModel.unpack.isFinite = true at hx
  have hnan : x.isNaN = false := by
    change x.toModel.unpack.isNaN = false
    cases hu : x.toModel.unpack <;> rw [hu] at hx <;> first | rfl | cases hx
  have hinf : x.isInf = false := by
    change x.toModel.unpack.isInf = false
    cases hu : x.toModel.unpack <;> rw [hu] at hx <;> first | rfl | cases hx
  unfold ofFloat
  rw [hnan, hinf]
  rfl

theorem ofFloat_of_infinity {s : Sign} (hx : x.toModel.unpack = .infinity s) :
    ofFloat x = infinite (Dyadic.isNegative s) := by
  have hnan : x.isNaN = false := by
    change x.toModel.unpack.isNaN = false
    rw [hx]
    rfl
  have hinf : x.isInf = true := by
    change x.toModel.unpack.isInf = true
    rw [hx]
    rfl
  unfold ofFloat
  rw [hnan, hinf, Dyadic.negative_of_infinity hx]
  rfl

/-!
# Comparisons
-/

/-- How two numbers compare, if they do. -/
noncomputable def order : Extended → Extended → Option Ordering
  | finite x, finite y => some (compare x y)
  | infinite s, finite _ => some (if s then .lt else .gt)
  | finite _, infinite s => some (if s then .gt else .lt)
  | infinite s, infinite t => some (compare (!s) !t)
  | _, _ => none

theorem less_eq_order (x y : Extended) : Scalar.less x y = (order x y == some .lt) := by
  change less x y = _
  cases x with
  | undefined => rfl
  | infinite s =>
      cases y with
      | undefined => rfl
      | infinite t => cases s <;> cases t <;> rfl
      | finite y => cases s <;> rfl
  | finite x =>
      cases y with
      | undefined => rfl
      | infinite t => cases t <;> rfl
      | finite y =>
        rw [Bool.eq_iff_iff]
        simp [less, order, compare_lt_iff_lt]

theorem equal_eq_order (x y : Extended) : Scalar.equal x y = (order x y == some .eq) := by
  change equal x y = _
  cases x with
  | undefined => rfl
  | infinite s =>
      cases y with
      | undefined => rfl
      | infinite t => cases s <;> cases t <;> rfl
      | finite y => cases s <;> rfl
  | finite x =>
      cases y with
      | undefined => rfl
      | infinite t => cases t <;> rfl
      | finite y =>
        rw [Bool.eq_iff_iff]
        simp [equal, order]

noncomputable def ofUnpacked : UnpackedFloat → Extended
  | .infinity s => infinite (Dyadic.isNegative s)
  | .notANumber => undefined
  | u => finite (Dyadic.value u)

theorem ofFloat_eq_ofUnpacked (x : Float) : ofFloat x = ofUnpacked x.toModel.unpack := by
  unfold ofFloat
  change (if x.toModel.unpack.isNaN then undefined else
    if x.toModel.unpack.isInf then infinite (Dyadic.ofFloat x).negative
    else finite (Dyadic.toReal x)) = _
  have hfinite : x.isFinite = x.toModel.unpack.isFinite := rfl
  cases hx : x.toModel.unpack with
  | infinity s => exact congrArg infinite (Dyadic.negative_of_infinity hx)
  | notANumber => rfl
  | zero s =>
      rw [hx] at hfinite
      exact congrArg finite ((Dyadic.toReal_eq hfinite).trans (congrArg Dyadic.value hx))
  | finite s m e h =>
      rw [hx] at hfinite
      exact congrArg finite ((Dyadic.toReal_eq hfinite).trans (congrArg Dyadic.value hx))

theorem order_ofUnpacked {u v : UnpackedFloat}
    (hu : forall s m e h, u = .finite s m e h -> Canonical m e)
    (hv : forall s m e h, v = .finite s m e h -> Canonical m e) :
    order (ofUnpacked u) (ofUnpacked v) = u.compare v := by
  cases u with
  | notANumber => cases v <;> rfl
  | infinity s =>
      cases v with
      | notANumber => rfl
      | infinity t => cases s <;> cases t <;> rfl
      | zero t => cases s <;> rfl
      | finite t m e h => cases s <;> cases t <;> rfl
  | zero s =>
      cases v with
      | notANumber => rfl
      | infinity t => cases t <;> rfl
      | zero t => exact congrArg some (compare_eq_iff_eq.mpr rfl)
      | finite t m e h =>
          have hpos := Dyadic.value_pos m e h
          cases t with
          | positive => exact congrArg some (compare_lt_iff_lt.mpr hpos)
          | negative => exact congrArg some (compare_gt_iff_gt.mpr (neg_lt_zero.mpr hpos))
  | finite s m e h =>
      have hpos := Dyadic.value_pos m e h
      have hm := hu _ _ _ _ rfl
      cases v with
      | notANumber => cases s <;> rfl
      | infinity t => cases s <;> cases t <;> rfl
      | zero t =>
          cases s with
          | positive => exact congrArg some (compare_gt_iff_gt.mpr hpos)
          | negative => exact congrArg some (compare_lt_iff_lt.mpr (neg_lt_zero.mpr hpos))
      | finite t m' e' h' =>
          have hpos' := Dyadic.value_pos m' e' h'
          have hm' := hv _ _ _ _ rfl
          cases s with
          | positive =>
              cases t with
              | positive => exact congrArg some (Dyadic.compare_mantissas hm hm').symm
              | negative =>
                  exact congrArg some (compare_gt_iff_gt.mpr ((neg_lt_zero.mpr hpos').trans hpos))
          | negative =>
              cases t with
              | positive =>
                  exact congrArg some (compare_lt_iff_lt.mpr ((neg_lt_zero.mpr hpos).trans hpos'))
              | negative =>
                  exact congrArg some ((Dyadic.compare_neg _ _).trans
                    (congrArg Ordering.swap (Dyadic.compare_mantissas hm hm').symm))

theorem order_ofFloat (x y : Float) :
    order (ofFloat x) (ofFloat y) = x.toModel.unpack.compare y.toModel.unpack := by
  rw [ofFloat_eq_ofUnpacked, ofFloat_eq_ofUnpacked]
  apply order_ofUnpacked
  · intro s m e h heq
    exact canonical_unpack heq
  · intro s m e h heq
    exact canonical_unpack heq

theorem less_ofFloat (x y : Float) :
    Scalar.less (ofFloat x) (ofFloat y) = decide (x < y) := by
  rw [less_eq_order, order_ofFloat]
  rw [Bool.eq_iff_iff, decide_eq_true_iff]
  exact decide_eq_true_iff.symm

theorem equal_ofFloat (x y : Float) : Scalar.equal (ofFloat x) (ofFloat y) = (x == y) := by
  rw [equal_eq_order, order_ofFloat]
  rfl

theorem isFinite_ofFloat (x : Float) : Scalar.isFinite (ofFloat x) = x.isFinite := by
  change isFinite (ofFloat x) = x.toModel.unpack.isFinite
  rw [ofFloat_eq_ofUnpacked]
  cases x.toModel.unpack <;> rfl

end Extended
end DensityGraph
