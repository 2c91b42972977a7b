import Mathlib.Algebra.Ring.Nat
import DensityGraph.Scalar.Number
/-!
# Rounding to doubles

A positive number that is not too small is rounded to a positive double.  So the
difference of two doubles vanishes only if they are equal, and large whole numbers stay
large.
-/

namespace DensityGraph

open Float.Model Float.Model.UnpackedFloat

namespace Rounding

/-!
# Mantissas

A positive number is shifted until it has 53 places at most, and rounding then adds one at
most.  The leading place is kept, so that the result is positive.
-/

theorem mantissa_shiftRight (em : ExtendedMantissa) (k : Nat) :
    (em >>> k).mantissa = em.mantissa / 2 ^ k := by
  induction k with
  | zero => exact (Nat.div_one em.mantissa).symm
  | succ k ih =>
      have hstep : (em >>> (k + 1)).mantissa = (em >>> k).mantissa / 2 := rfl
      rw [hstep, ih, Nat.div_div_eq_div_mul, Nat.pow_succ]

theorem mantissa_exact (m : Nat) : (ExtendedMantissa.ofMantissaAndAccuracy m .exact).mantissa = m :=
  rfl

theorem le_roundedMantissa (em : ExtendedMantissa) : em.mantissa ≤ em.roundedMantissa := by
  unfold ExtendedMantissa.roundedMantissa Accuracy.roundToNearestEven
  split
  · exact Nat.le_refl _
  · exact Nat.le_refl _
  · exact Nat.le_add_right _ _
  · exact Nat.le_add_right _ _

def excess (m : Nat) (e : Int) : Nat :=
  (Format.binary64.targetExponent (totalExponent m e) - e).toNat

theorem targetExponent_double (t : Int) :
    Format.binary64.targetExponent t = max (t - 53) (-1074) :=
  rfl

theorem shifted_bounds {m : Nat} {e : Int} (hm : 0 < m) (he : -1074 ≤ e) :
    0 < m / 2 ^ excess m e ∧ m / 2 ^ excess m e < 2 ^ 53 ∧
      (2 ^ 52 ≤ m -> 2 ^ 52 ≤ m / 2 ^ excess m e ∧ excess m e = m.log2 - 52) := by
  have hlow : 2 ^ m.log2 ≤ m := Nat.log2_self_le (Nat.ne_of_gt hm)
  have hhigh : m < 2 ^ (m.log2 + 1) := Nat.lt_log2_self
  have hexcess : excess m e = m.log2 - 52 := by
    unfold excess totalExponent
    rw [targetExponent_double]
    omega
  rw [hexcess]
  by_cases hlog : 52 ≤ m.log2
  · have hsplit : 2 ^ m.log2 = 2 ^ 52 * 2 ^ (m.log2 - 52) := by
      rw [← Nat.pow_add]
      congr 1
      omega
    have hleading : 2 ^ 52 ≤ m / 2 ^ (m.log2 - 52) := by
      rw [Nat.le_div_iff_mul_le (Nat.two_pow_pos _), ← hsplit]
      exact hlow
    refine ⟨Nat.lt_of_lt_of_le (by decide) hleading, ?_, fun _ => ⟨hleading, rfl⟩⟩
    rw [Nat.div_lt_iff_lt_mul (Nat.two_pow_pos _), ← Nat.pow_add]
    have hplaces : 53 + (m.log2 - 52) = m.log2 + 1 := by omega
    rw [hplaces]
    exact hhigh
  · have hnone : m.log2 - 52 = 0 := by omega
    rw [hnone, Nat.pow_zero, Nat.div_one]
    have hsmall : m < 2 ^ 52 := by
      apply Nat.lt_of_lt_of_le hhigh
      apply Nat.pow_le_pow_right (by decide)
      omega
    refine ⟨hm, Nat.lt_trans hsmall (by decide), ?_⟩
    intro hlarge
    omega

def rounded (m : Nat) (e : Int) : Nat :=
  (ExtendedMantissa.ofMantissaAndAccuracy m .exact >>> excess m e).roundedMantissa

theorem le_rounded (m : Nat) (e : Int) : m / 2 ^ excess m e ≤ rounded m e := by
  have hle := le_roundedMantissa
    (ExtendedMantissa.ofMantissaAndAccuracy m .exact >>> excess m e)
  rwa [mantissa_shiftRight, mantissa_exact] at hle

theorem roundWithAccuracy_exact {m : Nat} {e : Int}
    (h : 0 < rounded m e / 2 ^ excess (rounded m e) (e + excess m e)) :
    roundWithAccuracy Format.binary64 .positive m e .exact =
      .finite .positive (rounded m e / 2 ^ excess (rounded m e) (e + excess m e))
        (e + excess m e + excess (rounded m e) (e + excess m e)) h := by
  have hmantissa : (ExtendedMantissa.ofMantissaAndAccuracy (rounded m e) .exact >>>
      excess (rounded m e) (e + excess m e)).mantissa =
        rounded m e / 2 ^ excess (rounded m e) (e + excess m e) := by
    rw [mantissa_shiftRight, mantissa_exact]
  have hnonzero : (ExtendedMantissa.ofMantissaAndAccuracy (rounded m e) .exact >>>
      excess (rounded m e) (e + excess m e)).mantissa ≠ 0 := by
    rw [hmantissa]
    exact Nat.ne_of_gt h
  refine (dif_neg hnonzero).trans ?_
  congr 1

def Settled (u : UnpackedFloat) : Prop :=
  ∃ m e h, u = .finite .positive m e h ∧ m < 2 ^ 53 ∧ -1074 ≤ e

theorem roundWithAccuracy_bounds {m : Nat} {e : Int} (hm : 0 < m) (he : -1074 ≤ e) :
    ∃ m' e' h, roundWithAccuracy Format.binary64 .positive m e .exact =
        .finite .positive m' e' h ∧ m' < 2 ^ 53 ∧ -1074 ≤ e' ∧
      (2 ^ 52 ≤ m -> 2 ^ 52 ≤ m' ∧ e + (m.log2 - 52 : Nat) ≤ e') := by
  rcases shifted_bounds hm he with ⟨hpos, _, hlarge⟩
  have hrounded : m / 2 ^ excess m e ≤ rounded m e := le_rounded m e
  have he' : -1074 ≤ e + (excess m e : Int) := by omega
  rcases shifted_bounds (Nat.lt_of_lt_of_le hpos hrounded) he' with ⟨hpos', hplaces, hlarge'⟩
  refine ⟨_, _, hpos', roundWithAccuracy_exact hpos', hplaces, ?_, ?_⟩
  · omega
  · intro hleading
    rcases hlarge hleading with ⟨hquotient, hexcess⟩
    refine ⟨(hlarge' (Nat.le_trans hquotient hrounded)).1, ?_⟩
    omega

theorem settled_round {m : Nat} {e : Int} (hm : 0 < m) (he : -1074 ≤ e) :
    Settled (round Format.binary64 .positive m e) := by
  have hpos : 0 < m <<< (e - Format.binary64.targetExponent (totalExponent m e)).toNat := by
    rw [Nat.shiftLeft_eq]
    exact Nat.mul_pos hm (Nat.two_pow_pos _)
  have he' : -1074 ≤ e - ((e - Format.binary64.targetExponent (totalExponent m e)).toNat : Int) := by
    rw [targetExponent_double]
    omega
  rcases roundWithAccuracy_bounds hpos he' with ⟨m', e', h, heq, hplaces, hleast, _⟩
  exact ⟨m', e', h, heq, hplaces, hleast⟩

/-!
# Bits
-/

theorem exponentBias_double : Format.binary64.exponentBias = 1023 :=
  rfl

theorem sign_eq_extract {spec : Format} (b : BitVec spec.numBits) :
    unpackSign b = b.extractLsb' (spec.mantissaBitsWithoutImplicit + spec.exponentBits) 1 := by
  ext i hi
  change (BitVec.cast _ (BitVec.extractLsb _ _ b))[i] = _
  rw [BitVec.getElem_cast, BitVec.getElem_extract, BitVec.getElem_extractLsb']

theorem sign_packComponents {spec : Format} {sign : Sign}
    {exponent : BitVec spec.exponentBits} {mantissa : BitVec spec.mantissaBitsWithoutImplicit} :
    unpackSign (packComponents spec sign exponent mantissa) = sign.toBitVec := by
  ext i hi
  have hexponent : ¬spec.mantissaBitsWithoutImplicit + spec.exponentBits + i -
      spec.mantissaBitsWithoutImplicit < spec.exponentBits := by
    omega
  have hmantissa : ¬spec.mantissaBitsWithoutImplicit + spec.exponentBits + i <
      spec.mantissaBitsWithoutImplicit := by
    omega
  have hsign : spec.mantissaBitsWithoutImplicit + spec.exponentBits + i -
      spec.mantissaBitsWithoutImplicit - spec.exponentBits = i := by
    omega
  simp [sign_eq_extract, packComponents, BitVec.getLsbD_append, hexponent, hmantissa, hsign,
    BitVec.getLsbD_eq_getElem hi]

def IsPositive : UnpackedFloat → Prop
  | .infinity .positive => True
  | .finite .positive _ _ _ => True
  | _ => False

theorem isPositive_unpack {spec : Format} {b : BitVec spec.numBits}
    (hsign : unpackSign b = Sign.positive.toBitVec)
    (hinfinity : unpackExponent b = -1#_ -> unpackMantissa b = 0#_)
    (hzero : unpackExponent b = 0#_ -> unpackMantissa b ≠ 0#_) :
    IsPositive (UnpackedFloat.unpack spec b) := by
  have hpositive : Sign.ofBitVec (unpackSign b) = .positive := by
    rw [hsign]
    rfl
  unfold UnpackedFloat.unpack
  dsimp only
  by_cases hlast : unpackExponent b = -1#_
  · rw [if_pos hlast, if_pos (hinfinity hlast), hpositive]
    trivial
  · rw [if_neg hlast]
    by_cases hfirst : unpackExponent b = 0#_
    · rw [if_pos hfirst, dif_neg (hzero hfirst), hpositive]
      trivial
    · rw [if_neg hfirst, hpositive]
      trivial

theorem isPositive_infinity :
    IsPositive (UnpackedFloat.unpack Format.binary64 (packedInfinity Format.binary64 .positive)) := by
  unfold packedInfinity
  apply isPositive_unpack sign_packComponents
  · intro _
    exact unpackMantissa_packComponents
  · intro hfalse
    rw [unpackExponent_packComponents] at hfalse
    exact absurd hfalse (by decide)

theorem isPositive_pack {u : UnpackedFloat} (h : Settled u) :
    IsPositive (UnpackedFloat.unpack Format.binary64 (UnpackedFloat.pack Format.binary64 u)) := by
  rcases h with ⟨m, e, hm, rfl, hplaces, hleast⟩
  unfold UnpackedFloat.pack
  simp only
  rw [exponentBias_double]
  split
  · exact isPositive_infinity
  · rename_i hfinite
    split
    · apply isPositive_unpack sign_packComponents
      · intro hall
        rw [unpackExponent_packComponents] at hall
        have hnat := congrArg BitVec.toNat hall
        simp at hnat
        omega
      · intro hnone
        rw [unpackExponent_packComponents] at hnone
        have hnat := congrArg BitVec.toNat hnone
        simp at hnat
        omega
    · rename_i hsubnormal
      apply isPositive_unpack sign_packComponents
      · intro hfalse
        rw [unpackExponent_packComponents] at hfalse
        exact absurd hfalse (by decide)
      · intro _ hnone
        rw [unpackMantissa_packComponents] at hnone
        have hnat := congrArg BitVec.toNat hnone
        have hlog : m.log2 < 53 := (Nat.log2_lt (Nat.ne_of_gt hm)).mpr hplaces
        have hlog' : m.log2 + 1 ≠ 53 := hsubnormal
        have hsmall : m < 2 ^ 52 := (Nat.log2_lt (Nat.ne_of_gt hm)).mp (by omega)
        simp at hnat
        omega

/-!
# Differences

Doubles are ordered by their exponents and then by their mantissas.  Shifted to the smaller
exponent, the mantissas are in the same order, so that the difference is positive.
-/

structure Canonical (m : Nat) (e : Int) : Prop where
  places : m < 2 ^ 53
  least : -1074 ≤ e
  leading : -1074 < e -> 2 ^ 52 ≤ m

theorem canonical_unpack {b : BitVec Format.binary64.numBits} {s : Sign} {m : Nat} {e : Int}
    {h : 0 < m} (heq : UnpackedFloat.unpack Format.binary64 b = .finite s m e h) :
    Canonical m e := by
  have hplaces : (unpackMantissa b).toNat < 2 ^ 52 := (unpackMantissa b).isLt
  unfold UnpackedFloat.unpack at heq
  dsimp only at heq
  by_cases hlast : unpackExponent b = -1#_
  · rw [if_pos hlast] at heq
    by_cases hzero : unpackMantissa b = 0#_
    · rw [if_pos hzero] at heq
      cases heq
    · rw [if_neg hzero] at heq
      cases heq
  · rw [if_neg hlast] at heq
    by_cases hfirst : unpackExponent b = 0#_
    · rw [if_pos hfirst] at heq
      by_cases hzero : unpackMantissa b = 0#_
      · rw [dif_pos hzero] at heq
        cases heq
      · rw [dif_neg hzero] at heq
        injection heq with _ hm he
        have hleast : e = -1074 := by
          rw [← he, hfirst]
          rfl
        exact ⟨by omega, by omega, by omega⟩
    · rw [if_neg hfirst, exponentBias_double] at heq
      injection heq with _ hm he
      have hpositive : 0 < (unpackExponent b).toNat := BitVec.toNat_pos_of_ne_zero hfirst
      have hleading : m = 2 ^ 52 + (unpackMantissa b).toNat := by
        rw [← hm, BitVec.toNat_append, ← Nat.shiftLeft_add_eq_or_of_lt hplaces]
        rfl
      exact ⟨by omega, by omega, by omega⟩

theorem shifted_lt {m m' : Nat} {e e' : Int} (h : e < e' ∨ e = e' ∧ m < m')
    (hm : Canonical m e) (hm' : Canonical m' e') :
    m <<< (e - min e e').toNat < m' <<< (e' - min e e').toNat := by
  rw [Nat.shiftLeft_eq, Nat.shiftLeft_eq]
  rcases h with hlt | ⟨rfl, hlt⟩
  · have hsame : (e - min e e').toNat = 0 := by omega
    have hmore : 1 ≤ (e' - min e e').toNat := by omega
    rw [hsame, Nat.pow_zero, Nat.mul_one]
    have hdouble : 2 ^ 1 ≤ 2 ^ (e' - min e e').toNat := Nat.pow_le_pow_right (by decide) hmore
    have hleading := hm'.leading (Int.lt_of_le_of_lt hm.least hlt)
    calc m < 2 ^ 52 * 2 ^ 1 := hm.places
      _ ≤ m' * 2 ^ (e' - min e e').toNat := Nat.mul_le_mul hleading hdouble
  · exact Nat.mul_lt_mul_of_pos_right hlt (Nat.two_pow_pos _)

theorem settled_normalize {m e : Int} (hm : 0 < m) (he : -1074 ≤ e) :
    Settled (UnpackedFloat.normalize Format.binary64 m e .positive) := by
  have hcompare : compare m 0 = .gt := Int.compare_eq_gt.mpr hm
  unfold UnpackedFloat.normalize
  rw [hcompare]
  exact settled_round (by omega) he

theorem isLE_then {e e' : Int} {m m' : Nat}
    (h : ((compare e e').then (compare m m')).isLE = false) : e' < e ∨ e' = e ∧ m' < m := by
  cases he : compare e e' with
  | lt =>
      rw [he] at h
      cases h
  | gt => exact Or.inl (Int.compare_eq_gt.mp he)
  | eq =>
      rw [he] at h
      right
      refine ⟨(Int.compare_eq_eq.mp he).symm, ?_⟩
      cases hm : compare m m' with
      | lt =>
          rw [hm] at h
          cases h
      | eq =>
          rw [hm] at h
          cases h
      | gt => exact Nat.compare_eq_gt.mp hm

theorem isLE_swap_then {e e' : Int} {m m' : Nat}
    (h : ((compare e e').then (compare m m')).swap.isLE = false) : e < e' ∨ e = e' ∧ m < m' := by
  apply isLE_then
  rwa [Ordering.swap_then, Int.compare_swap, Nat.compare_swap] at h

theorem settled_sub {x y : UnpackedFloat} (hx : x.isFinite = true) (hy : y.isFinite = true)
    (hcx : forall s m e h, x = .finite s m e h -> Canonical m e)
    (hcy : forall s m e h, y = .finite s m e h -> Canonical m e)
    (hle : x.le y = false) : Settled (x.sub Format.binary64 y) := by
  cases x with
  | infinity s => cases hx
  | notANumber => cases hx
  | zero s =>
      cases y with
      | infinity s' => cases hy
      | notANumber => cases hy
      | zero s' => cases hle
      | finite s' m' e' h' =>
          have hm' := hcy _ _ _ _ rfl
          cases s' with
          | positive => cases hle
          | negative => exact ⟨m', e', h', rfl, hm'.places, hm'.least⟩
  | finite s m e h =>
      have hm := hcx _ _ _ _ rfl
      cases y with
      | infinity s' => cases hy
      | notANumber => cases hy
      | zero s' =>
          cases s with
          | negative => cases hle
          | positive => exact ⟨m, e, h, rfl, hm.places, hm.least⟩
      | finite s' m' e' h' =>
          have hm' := hcy _ _ _ _ rfl
          -- At the smaller one of the exponents the difference is one of integers.
          have hleast : -1074 ≤ min e e' := Int.le_min.mpr ⟨hm.least, hm'.least⟩
          apply settled_normalize _ hleast
          cases s with
          | positive =>
              cases s' with
              | positive =>
                  have hlt := shifted_lt (isLE_then hle) hm' hm
                  rw [Int.min_comm e' e] at hlt
                  simp only [Sign.apply]
                  omega
              | negative =>
                  have hpos : 0 < m <<< (e - min e e').toNat := by
                    rw [Nat.shiftLeft_eq]
                    exact Nat.mul_pos h (Nat.two_pow_pos _)
                  have hpos' : 0 < m' <<< (e' - min e e').toNat := by
                    rw [Nat.shiftLeft_eq]
                    exact Nat.mul_pos h' (Nat.two_pow_pos _)
                  simp only [Sign.apply]
                  omega
          | negative =>
              cases s' with
              | positive => cases hle
              | negative =>
                  have hlt := shifted_lt (isLE_swap_then hle) hm hm'
                  simp only [Sign.apply]
                  omega

end Rounding

namespace Number

open Rounding

theorem isPositive_sub {x y : Float} (hx : x.isFinite = true) (hy : y.isFinite = true)
    (hle : ¬x ≤ y) : IsPositive (x - y).toModel.unpack := by
  apply isPositive_pack
  apply settled_sub hx hy
  · intro s m e h heq
    exact canonical_unpack heq
  · intro s m e h heq
    exact canonical_unpack heq
  · cases hbool : x.toModel.unpack.le y.toModel.unpack with
    | false => rfl
    | true => exact absurd (decide_eq_true hbool) hle

def IsZero (x : Float) : Bool :=
  match x.toModel.unpack with
  | .zero _ => true
  | _ => false

theorem isPositive_abs {x : Float} (h : IsPositive x.toModel.unpack) :
    IsPositive x.abs.toModel.unpack := by
  change IsPositive (UnpackedFloat.unpack Format.binary64
    (UnpackedFloat.pack Format.binary64 x.toModel.unpack.abs))
  cases hx : x.toModel.unpack with
  | infinity s => exact isPositive_infinity
  | notANumber =>
      rw [hx] at h
      cases h
  | zero s =>
      rw [hx] at h
      cases h
  | finite s m e hm =>
      have hcanonical := canonical_unpack hx
      apply isPositive_pack
      exact ⟨m, e, hm, rfl, hcanonical.places, hcanonical.least⟩

theorem compare_of_isPositive {x z : Float} (h : IsPositive x.toModel.unpack)
    (hz : IsZero z = true) : x.toModel.unpack.compare z.toModel.unpack = some .gt := by
  unfold IsZero at hz
  split at hz
  · rename_i s hs
    rw [hs]
    cases hx : x.toModel.unpack with
    | infinity s' =>
        rw [hx] at h
        cases s' with
        | positive => rfl
        | negative => cases h
    | notANumber =>
        rw [hx] at h
        cases h
    | zero s' =>
        rw [hx] at h
        cases h
    | finite s' m e hm =>
        rw [hx] at h
        cases s' with
        | positive => rfl
        | negative => cases h
  · cases hz

theorem not_lt_of_isPositive {x z : Float} (h : IsPositive x.toModel.unpack)
    (hz : IsZero z = true) : ¬x < z := by
  have hless : x.toModel.unpack.lt z.toModel.unpack = false := by
    unfold UnpackedFloat.lt
    rw [compare_of_isPositive h hz]
    rfl
  change ¬decide (x.toModel.unpack.lt z.toModel.unpack = true) = true
  rw [hless]
  decide

theorem beq_of_isPositive {x z : Float} (h : IsPositive x.toModel.unpack)
    (hz : IsZero z = true) : (x == z) = false := by
  change x.toModel.unpack.beq z.toModel.unpack = false
  unfold UnpackedFloat.beq
  rw [compare_of_isPositive h hz]
  rfl

def IsAbove (x : Float) : Bool :=
  match x.toModel.unpack with
  | .finite .positive _ _ _ => true
  | _ => false

theorem pos_of_not_lt_one {x : Float} (hx : x.isFinite = true) (h : ¬x < 1.0) : 0.0 < x := by
  have hone : IsAbove 1.0 = true := by decide +kernel
  have hzero : IsZero 0.0 = true := by decide +kernel
  change x.toModel.unpack.isFinite = true at hx
  change ¬decide (x.toModel.unpack.lt (1.0 : Float).toModel.unpack = true) = true at h
  change decide ((0.0 : Float).toModel.unpack.lt x.toModel.unpack = true) = true
  unfold IsAbove at hone
  unfold IsZero at hzero
  split at hone
  case h_2 => cases hone
  case h_1 m e hm hunpack =>
    rw [hunpack] at h
    split at hzero
    case h_2 => cases hzero
    case h_1 s hs =>
      rw [hs]
      cases hu : x.toModel.unpack with
      | infinity s' =>
          rw [hu] at hx
          cases hx
      | notANumber =>
          rw [hu] at hx
          cases hx
      | zero s' =>
          rw [hu] at h
          exact absurd rfl h
      | finite s' m' e' hm' =>
          rw [hu] at h
          cases s' with
          | positive => rfl
          | negative => exact absurd rfl h

theorem lessEq_literal_sub {x y : Float} (h : IsPositive (x - y).toModel.unpack) :
    Scalar.lessEq (Scalar.literal x - Scalar.literal y : Number) Scalar.zero = false := by
  have hsettle : Precision.literal.settle (x - y) = x - y := by
    unfold Precision.settle
    exact if_neg (not_lt_of_isPositive (isPositive_abs h) (by decide +kernel))
  have hvalue : (Scalar.literal x - Scalar.literal y : Number) = Number.literal (x - y) :=
    congrArg Number.literal hsettle
  rw [hvalue]
  unfold Scalar.lessEq
  rw [Bool.or_eq_false_iff]
  constructor
  · exact decide_eq_false (not_lt_of_isPositive h (by decide +kernel))
  · exact beq_of_isPositive h (by decide +kernel)

theorem isPositive_sub_infinity {x y : Float} (hx : x.toModel.unpack = .infinity .positive)
    (hy : y.toModel.unpack = .infinity .negative) : IsPositive (x - y).toModel.unpack := by
  change IsPositive (UnpackedFloat.unpack Format.binary64 (UnpackedFloat.pack Format.binary64
    (x.toModel.unpack.sub Format.binary64 y.toModel.unpack)))
  rw [hx, hy]
  exact isPositive_infinity

/-!
# Large whole numbers
-/

theorem toNat_unpackExponent (b : BitVec Format.binary64.numBits) :
    (unpackExponent b).toNat = b.toNat / Nat.pow 2 52 % Nat.pow 2 11 := by
  simp [unpackExponent, BitVec.extractLsb_toNat, Nat.shiftRight_eq_div_pow]

theorem toNat_unpackMantissa (b : BitVec Format.binary64.numBits) :
    (unpackMantissa b).toNat = b.toNat % Nat.pow 2 52 := by
  simp [unpackMantissa, BitVec.extractLsb_toNat]

theorem toNat_unpackSign (b : BitVec Format.binary64.numBits) :
    (unpackSign b).toNat = b.toNat / Nat.pow 2 63 := by
  have hbits : b.toNat < 2 ^ 64 := b.isLt
  rw [sign_eq_extract]
  simp [Nat.shiftRight_eq_div_pow]
  omega

theorem ofFloat_pack {m : Nat} {e : Int} (hm : 0 < m) (hplaces : m < 2 ^ 53)
    (hleading : 2 ^ 52 ≤ m) (hleast : -1074 ≤ e) :
    (Float.ofModel (.pack (.finite .positive m e hm))).isInf = true ∨
      Dyadic.ofFloat (.ofModel (.pack (.finite .positive m e hm))) = ⟨false, m, e⟩ := by
  have hlog : m.log2 + 1 = Format.binary64.mantissaBits := by
    have hlow : 52 ≤ m.log2 := (Nat.le_log2 (Nat.ne_of_gt hm)).mpr hleading
    have hhigh : m.log2 < 53 := (Nat.log2_lt (Nat.ne_of_gt hm)).mpr hplaces
    change m.log2 + 1 = 53
    omega
  by_cases hlarge : 2 ^ 11 ≤ (e + 1023 + 52).toNat + 1
  · left
    have hpack : UnpackedFloat.pack Format.binary64 (.finite .positive m e hm) =
        packedInfinity Format.binary64 .positive := by
      unfold UnpackedFloat.pack
      dsimp only
      rw [exponentBias_double]
      exact if_pos hlarge
    change (UnpackedFloat.unpack Format.binary64
      (UnpackedFloat.pack Format.binary64 (.finite .positive m e hm))).isInf = true
    rw [hpack]
    decide +kernel
  · right
    have hpack : UnpackedFloat.pack Format.binary64 (.finite .positive m e hm) =
        packComponents Format.binary64 .positive (BitVec.ofNat _ (e + 1023 + 52).toNat)
          (BitVec.ofNat _ m) := by
      unfold UnpackedFloat.pack
      dsimp only
      rw [exponentBias_double]
      exact (if_neg hlarge).trans (if_pos hlog)
    have hexponent := congrArg BitVec.toNat (congrArg unpackExponent hpack)
    have hmantissa := congrArg BitVec.toNat (congrArg unpackMantissa hpack)
    have hsign := congrArg BitVec.toNat (congrArg unpackSign hpack)
    rw [toNat_unpackExponent, unpackExponent_packComponents, BitVec.toNat_ofNat] at hexponent
    rw [toNat_unpackMantissa, unpackMantissa_packComponents, BitVec.toNat_ofNat] at hmantissa
    rw [toNat_unpackSign, sign_packComponents] at hsign
    have hbits : (Float.ofModel (.pack (.finite .positive m e hm))).toBits.toNat =
        (UnpackedFloat.pack Format.binary64 (.finite .positive m e hm)).toNat :=
      rfl
    unfold Dyadic.ofFloat
    dsimp only
    rw [hbits, hexponent, hmantissa, hsign]
    have hexponent' : (e + 1023 + 52).toNat % 2 ^ 11 = (e + 1075).toNat := by omega
    have hmantissa' : m % 2 ^ 52 = m - 2 ^ 52 := by omega
    have hbiased : (e + 1075).toNat ≠ 0 := by omega
    have hm' : Nat.pow 2 52 + (m - 2 ^ 52) = m := Nat.add_sub_cancel' hleading
    have he' : ((e + 1075).toNat : Int) - 1075 = e := by omega
    rw [hexponent', hmantissa', if_neg hbiased, if_neg hbiased, hm', he']
    rfl

theorem ofScientific_zero {n : Nat} (hn : n ≠ 0) :
    UnpackedFloat.ofScientific Format.binary64 n 0 =
      roundWithAccuracy Format.binary64 .positive (n * 2 ^ 53) (-53) .exact := by
  unfold UnpackedFloat.ofScientific
  have hexponents : ¬(0 : Int) < -((2 ^ Format.binary64.exponentBits : Int) + n.log2) := by
    change ¬(0 : Int) < -(2048 + n.log2)
    omega
  rw [dif_neg hn, if_neg (by decide), if_neg hexponents, if_pos (Int.le_refl 0)]
  have hproduct : (n <<< Format.binary64.mantissaBits) * 10 ^ (0 : Int).toNat = n * 2 ^ 53 := by
    rw [Nat.shiftLeft_eq]
    exact Nat.mul_one _
  rw [← hproduct]
  rfl

theorem ofFloat_ofNat {n : Nat} (hn : 2 ^ 63 ≤ n) :
    (Float.ofNat n).isInf = true ∨
      ∃ m e, Dyadic.ofFloat (Float.ofNat n) = ⟨false, m, e⟩ ∧ 2 ^ 52 ≤ m ∧ 11 ≤ e := by
  have hlog : 116 ≤ (n * 2 ^ 53).log2 := by
    rw [Nat.le_log2 (by omega)]
    omega
  have hround : Float.ofNat n = .ofModel (.pack
      (roundWithAccuracy Format.binary64 .positive (n * 2 ^ 53) (-53) .exact)) := by
    rw [← ofScientific_zero (by omega)]
    change Float.ofScientific n false 0 = _
    unfold Float.ofScientific
    exact dif_neg (by omega)
  rcases roundWithAccuracy_bounds (m := n * 2 ^ 53) (e := -53) (by omega) (by decide) with
    ⟨m, e, hm, heq, hplaces, hleast, hlarge⟩
  rcases hlarge (by omega) with ⟨hleading, hexponent⟩
  rw [hround, heq]
  rcases ofFloat_pack hm hplaces hleading hleast with hinf | hdyadic
  · exact Or.inl hinf
  · exact Or.inr ⟨m, e, hdyadic, hleading, by omega⟩

end Number
end DensityGraph
