import Mathlib.Algebra.Ring.Parity
import Mathlib.Order.Monotone.Basic
import Mathlib.Tactic.Ring
import DensityGraph.Constraint.Triangle
import DensityGraph.Tensor.Shape
/-!
# Lengths of free vectors

The free vector of a matrix fills a triangle, and that of anything else has an entry
for every entry of the value.
-/

namespace DensityGraph

/-!
# Sides of triangles
-/

namespace Triangle

theorem size_succ (n : Nat) : size (n + 1) = size n + (n + 1) := by
  have hsum : (n + 1) * (n + 1 + 1) = n * (n + 1) + 2 * (n + 1) := by
    rw [← Nat.add_mul, Nat.mul_comm]
  unfold size
  rw [hsum, Nat.add_mul_div_left _ _ (by decide)]

theorem size_strictMono : StrictMono size := by
  apply strictMono_nat_of_lt_succ
  intro n
  rw [size_succ]
  exact Nat.lt_add_of_pos_right (Nat.succ_pos n)

theorem le_size (n : Nat) : n ≤ size n := by
  induction n with
  | zero => exact Nat.zero_le _
  | succ n _ =>
      rw [size_succ]
      exact Nat.le_add_left _ _

theorem two_mul_size (n : Nat) : 2 * size n = n * (n + 1) := by
  induction n with
  | zero => rfl
  | succ n ih =>
      rw [size_succ, Nat.mul_add, ih]
      ring

theorem eight_mul_size (n : Nat) : 8 * size n + 1 = (2 * n + 1) * (2 * n + 1) := by
  have hquadruple : 8 * size n = 4 * (2 * size n) := by ring
  rw [hquadruple, two_mul_size]
  ring

/-!
# Rounding
-/

theorem roundQuotient_near (n : Nat) {unit : Nat} (hunit : 0 < unit) :
    2 * n ≤ 2 * (Significant.roundQuotient n unit * unit) + unit ∧
      2 * (Significant.roundQuotient n unit * unit) ≤ 2 * n + unit ∧
        n / unit ≤ Significant.roundQuotient n unit := by
  have hdivision : n = n / unit * unit + n % unit := (Nat.div_add_mod' n unit).symm
  have hrest : n % unit < unit := Nat.mod_lt n hunit
  have hnext : (n / unit + 1) * unit = n / unit * unit + unit := Nat.succ_mul _ _
  unfold Significant.roundQuotient
  simp only
  split
  · omega
  · split
    · rw [hnext]
      omega
    · split
      · omega
      · rw [hnext]
        omega

theorem roundPlaces_of_lt {n : Nat} (h : n < 2 ^ 53) : roundPlaces n = n := by
  have hlog : n.log2 - 52 = 0 := by
    by_cases hn : n = 0
    · rw [hn]
      rfl
    · have hlt := (Nat.log2_lt hn).mpr h
      omega
  unfold roundPlaces Significant.roundQuotient
  simp [hlog, Nat.mod_one, Nat.pow_eq]

theorem le_roundPlaces {n : Nat} (hn : n ≠ 0) : 2 ^ n.log2 ≤ roundPlaces n := by
  by_cases hlog : n.log2 < 52
  · rw [roundPlaces_of_lt ((Nat.log2_lt hn).mp (by omega))]
    exact Nat.log2_self_le hn
  · have hsplit : 2 ^ n.log2 = 2 ^ 52 * 2 ^ (n.log2 - 52) := by
      rw [← Nat.pow_add]
      congr 1
      omega
    have hquotient : 2 ^ 52 ≤ n / 2 ^ (n.log2 - 52) := by
      rw [Nat.le_div_iff_mul_le (Nat.two_pow_pos _), ← hsplit]
      exact Nat.log2_self_le hn
    have hrounded := (roundQuotient_near n (Nat.two_pow_pos (n.log2 - 52))).2.2
    rw [hsplit]
    exact Nat.mul_le_mul_right _ (Nat.le_trans hquotient hrounded)

/-!
# Square roots
-/

theorem nearestRoot_eq {n r : Nat} (hlower : r * r < n + r) (hupper : n ≤ r * r + r) :
    nearestRoot n = r := by
  have hsquare : (r + 1) * (r + 1) = r * r + 2 * r + 1 := by ring
  unfold nearestRoot
  by_cases hle : r * r ≤ n
  · have hroot : n.sqrt = r := (Nat.eq_sqrt.mpr ⟨hle, by omega⟩).symm
    simp only [hroot]
    exact if_neg (Nat.not_lt.mpr hupper)
  · cases r with
    | zero => omega
    | succ s =>
        have hstep : (s + 1) * (s + 1) = s * s + 2 * s + 1 := by ring
        have hroot : n.sqrt = s := (Nat.eq_sqrt.mpr ⟨by omega, by omega⟩).symm
        simp only [hroot]
        exact if_pos (by omega)

theorem nearestRoot_near (n : Nat) :
    nearestRoot n * nearestRoot n ≤ n + nearestRoot n ∧
      n ≤ nearestRoot n * nearestRoot n + nearestRoot n := by
  have hlower : n.sqrt * n.sqrt ≤ n := Nat.sqrt_le n
  have hupper : n < (n.sqrt + 1) * (n.sqrt + 1) := Nat.sqrt_lt.mp (Nat.lt_succ_self _)
  have hsquare : (n.sqrt + 1) * (n.sqrt + 1) = n.sqrt * n.sqrt + 2 * n.sqrt + 1 := by ring
  unfold nearestRoot
  simp only
  split
  · omega
  · omega

theorem mul_self_scaled (r p : Nat) : r * 2 ^ p * (r * 2 ^ p) = r * r * 4 ^ p := by
  have hfour : (4 : Nat) ^ p = 2 ^ p * 2 ^ p := by
    rw [← Nat.mul_pow]
  rw [hfour]
  ring

/-- What rounding to 53 digits changes in a square, read at the scale of the root, is smaller than
the root. -/
theorem scaled_lt {r d p leading : Nat} (hleading : 2 ^ leading ≤ r * r) (hmany : 52 ≤ leading)
    (hfew : leading < 66) (hp : p ≤ 52 - leading / 2) (hd : 2 * d ≤ 2 ^ (leading - 52)) :
    d * 2 ^ p < r := by
  have hscaled : 2 * (d * 2 ^ p) ≤ 2 ^ (leading - leading / 2) := by
    calc
      2 * (d * 2 ^ p) = 2 * d * 2 ^ p := (Nat.mul_assoc ..).symm
      _ ≤ 2 ^ (leading - 52) * 2 ^ (52 - leading / 2) :=
        Nat.mul_le_mul hd (Nat.pow_le_pow_right Nat.two_pos hp)
      _ = 2 ^ (leading - leading / 2) := by
        rw [← Nat.pow_add]
        congr 1
        omega
  have hroot : 2 ^ (leading - leading / 2) < 2 * r := by
    apply Nat.mul_self_lt_mul_self_iff.mp
    calc
      2 ^ (leading - leading / 2) * 2 ^ (leading - leading / 2) ≤ 2 ^ (leading + 1) := by
        rw [← Nat.pow_add]
        apply Nat.pow_le_pow_right Nat.two_pos
        omega
      _ < 2 ^ (leading + 2) := Nat.pow_lt_pow_right Nat.one_lt_two (Nat.lt_succ_self _)
      _ = 2 ^ leading * 4 := Nat.pow_add ..
      _ ≤ r * r * 4 := Nat.mul_le_mul_right 4 hleading
      _ = 2 * r * (2 * r) := by ring
  omega

theorem nearestRoot_roundPlaces {r p : Nat} (hr : r ≠ 0) (hlt : r * r < 2 ^ 66)
    (hp : p = 52 - (roundPlaces (r * r)).log2 / 2) :
    nearestRoot (roundPlaces (r * r) * 4 ^ p) = r * 2 ^ p := by
  have hsquare : r * r ≠ 0 := Nat.mul_ne_zero hr hr
  have hleading : 2 ^ (r * r).log2 ≤ r * r := Nat.log2_self_le hsquare
  have hfew : (r * r).log2 < 66 := (Nat.log2_lt hsquare).mpr hlt
  have hle := le_roundPlaces hsquare
  have hnonzero : roundPlaces (r * r) ≠ 0 :=
    Nat.ne_of_gt (Nat.lt_of_lt_of_le (Nat.two_pow_pos _) hle)
  have hlog : (r * r).log2 ≤ (roundPlaces (r * r)).log2 := (Nat.le_log2 hnonzero).mpr hle
  have herror : forall d, 2 * d ≤ 2 ^ ((r * r).log2 - 52) ->
      (roundPlaces (r * r) = r * r -> d = 0) -> d * 4 ^ p < r * 2 ^ p := by
    intro d hd hnone
    have hfour : (4 : Nat) ^ p = 2 ^ p * 2 ^ p := by
      rw [← Nat.mul_pow]
    rw [hfour, ← Nat.mul_assoc]
    apply Nat.mul_lt_mul_of_pos_right _ (Nat.two_pow_pos p)
    by_cases hmany : 52 ≤ (r * r).log2
    · exact scaled_lt hleading hmany hfew (by omega) hd
    · rw [hnone (roundPlaces_of_lt ((Nat.log2_lt hsquare).mp (by omega))), Nat.zero_mul]
      exact Nat.pos_of_ne_zero hr
  have hnear := roundQuotient_near (r * r) (Nat.two_pow_pos ((r * r).log2 - 52))
  change 2 * (r * r) ≤ 2 * roundPlaces (r * r) + _ ∧ 2 * roundPlaces (r * r) ≤ _ ∧ _ at hnear
  generalize roundPlaces (r * r) = n at hnear herror
  have hbelow := herror (r * r - n) (by omega) (by omega)
  have habove := herror (n - r * r) (by omega) (by omega)
  rw [Nat.sub_mul] at hbelow habove
  apply nearestRoot_eq
  · rw [mul_self_scaled]
    omega
  · rw [mul_self_scaled]
    omega

/-!
# Numbers of rows

The number of rows is found from the rounded root of a rounded number.  What rounding does is
bounded here, which is enough to decide all lengths up to a bound, and the first length beyond
it is misread.
-/

theorem roundedRoot?_size {n : Nat} (hlt : size n < 2 ^ 63) : roundedRoot? (size n) = some n := by
  have hsquare := eight_mul_size n
  have hroot := nearestRoot_roundPlaces (r := 2 * n + 1) (by omega) (by omega) rfl
  unfold roundedRoot?
  simp only [hsquare, Nat.pow_eq, hroot]
  generalize 52 - (roundPlaces ((2 * n + 1) * (2 * n + 1))).log2 / 2 = p
  have hread : (2 * n + 1) * 2 ^ p = 2 ^ p + 2 * 2 ^ p * n := by ring
  have hpos := Nat.two_pow_pos p
  have hhalf : 2 ^ p < 2 * 2 ^ p := by omega
  rw [hread, Nat.add_mul_mod_self_left, Nat.mod_eq_of_lt hhalf, if_pos rfl,
    Nat.add_mul_div_left _ _ (Nat.lt_trans hpos hhalf), Nat.div_eq_of_lt hhalf, Nat.zero_add]

theorem root?_size {n : Nat} (hn : 1 ≤ n) : root? (size n) = some n := by
  have hle := le_size n
  unfold root?
  rw [if_neg (by omega)]
  split
  · rename_i hlt
    exact roundedRoot?_size hlt
  · unfold exactRoot?
    simp only [eight_mul_size, Nat.sqrt_eq, if_true]
    congr 1
    omega

/-- The one is half of a unit at most, and half of a unit is rounded to an even quotient. -/
theorem roundQuotient_eight_mul {k unit : Nat} (hunit : unit = 2 ∨ unit = 4 ∨ unit = 8) :
    Significant.roundQuotient (8 * k + 1) unit * unit = 8 * k := by
  unfold Significant.roundQuotient
  rcases hunit with rfl | rfl | rfl
  · simp only
    split_ifs <;> omega
  · simp only
    split_ifs <;> omega
  · simp only
    split_ifs <;> omega

theorem roundPlaces_eight_mul {k : Nat} (h : k < 2 ^ 53) :
    roundPlaces (8 * k + 1) = 8 * k + 1 ∨ roundPlaces (8 * k + 1) = 8 * k := by
  by_cases hsmall : k < 2 ^ 50
  · exact Or.inl (roundPlaces_of_lt (by omega))
  · right
    have hne : 8 * k + 1 ≠ 0 := by omega
    have hlower : 53 ≤ (8 * k + 1).log2 := (Nat.le_log2 hne).mpr (by omega)
    have hupper : (8 * k + 1).log2 < 56 := (Nat.log2_lt hne).mpr (by omega)
    have hcases : (8 * k + 1).log2 = 53 ∨ (8 * k + 1).log2 = 54 ∨ (8 * k + 1).log2 = 55 := by
      omega
    apply roundQuotient_eight_mul
    rcases hcases with hlog | hlog | hlog
    · exact Or.inl (congrArg (fun l => 2 ^ (l - 52)) hlog)
    · exact Or.inr (Or.inl (congrArg (fun l => 2 ^ (l - 52)) hlog))
    · exact Or.inr (Or.inr (congrArg (fun l => 2 ^ (l - 52)) hlog))

theorem lt_of_near {r n p e : Nat} (hodd : r % 2 = 1) (hn : n < 2 ^ (2 * e + 2))
    (hnear : r * r * 2 ^ p ≤ n * 2 ^ p + r) : r < 2 ^ (e + 1) := by
  by_contra hle
  have heven : 2 ^ (e + 1) = 2 * 2 ^ e := by rw [Nat.pow_succ, Nat.mul_comm]
  have hsquare : 2 ^ (2 * e + 2) = 2 ^ (e + 1) * 2 ^ (e + 1) := by
    rw [← Nat.pow_add]
    congr 1
    omega
  have hcancel : r * r ≤ n + r := by
    apply Nat.le_of_mul_le_mul_right _ (Nat.two_pow_pos p)
    calc
      r * r * 2 ^ p ≤ n * 2 ^ p + r := hnear
      _ ≤ n * 2 ^ p + r * 2 ^ p :=
        Nat.add_le_add_left (Nat.le_mul_of_pos_right r (Nat.two_pow_pos p)) _
      _ = (n + r) * 2 ^ p := (Nat.add_mul ..).symm
  have hnext : (2 ^ (e + 1) + 1) * r ≤ r * r := Nat.mul_le_mul_right r (by omega)
  rw [Nat.succ_mul] at hnext
  have hlt : 2 ^ (e + 1) * r < 2 ^ (e + 1) * 2 ^ (e + 1) := by omega
  exact hle (Nat.lt_of_mul_lt_mul_left hlt)

/-- Squares of odd numbers differ by multiples of eight.  For small numbers this is more than
rounding can make good. -/
theorem eq_size_of_near {k m n : Nat} (hk : k < 6896136988131329)
    (hn : n = 8 * k + 1 ∨ n = 8 * k)
    (hlower : (2 * m + 1) * (2 * m + 1) * 2 ^ (52 - n.log2 / 2) ≤
      n * 2 ^ (52 - n.log2 / 2) + (2 * m + 1))
    (hupper : n * 2 ^ (52 - n.log2 / 2) ≤
      (2 * m + 1) * (2 * m + 1) * 2 ^ (52 - n.log2 / 2) + (2 * m + 1)) : k = size m := by
  have hsquare := eight_mul_size m
  have hlog : n.log2 < 56 := by
    by_cases hzero : n = 0
    · rw [hzero]
      decide
    · exact (Nat.log2_lt hzero).mpr (by omega)
  have hroot : 2 * m + 1 < 2 ^ (n.log2 / 2 + 1) := by
    apply lt_of_near (by omega) _ hlower
    apply Nat.lt_of_lt_of_le Nat.lt_log2_self
    exact Nat.pow_le_pow_right Nat.two_pos (by omega)
  have hhalf : n.log2 / 2 < 28 := by omega
  generalize n.log2 / 2 = e at hlower hupper hroot hhalf
  rcases Nat.lt_trichotomy k (size m) with hless | heq | hmore
  · have hgap : (n + 8) * 2 ^ (52 - e) ≤ (2 * m + 1) * (2 * m + 1) * 2 ^ (52 - e) :=
      Nat.mul_le_mul_right _ (by omega)
    rw [Nat.add_mul] at hgap
    have hpower : 2 ^ (52 - e + 3) < 2 ^ (e + 1) := by
      rw [Nat.pow_succ, Nat.pow_succ, Nat.pow_succ]
      omega
    have hexponent := (Nat.pow_lt_pow_iff_right Nat.one_lt_two).mp hpower
    omega
  · exact heq
  · have hgap : ((2 * m + 1) * (2 * m + 1) + 7) * 2 ^ (52 - e) ≤ n * 2 ^ (52 - e) :=
      Nat.mul_le_mul_right _ (by omega)
    rw [Nat.add_mul] at hgap
    have hlarge : 2 ^ 25 ≤ 2 ^ (52 - e) := Nat.pow_le_pow_right Nat.two_pos (by omega)
    -- The root is so large that its triangle has more entries than are asked for.
    have hsize : size 117440512 ≤ size m := size_strictMono.monotone (by omega)
    have hvalue : size 117440512 = 6896136988131328 := by decide
    omega

/-- The lengths that belong to a triangle are the triangular numbers, as far as a root in doubles
can tell. -/
theorem root?_eq_some_iff {k n : Nat} (hk : k < 6896136988131329) :
    root? k = some n ↔ 1 ≤ n ∧ k = size n := by
  constructor
  · intro h
    unfold root? at h
    split at h
    · cases h
    · rename_i hpos
      have hshort : k < Nat.pow 2 63 := by
        rw [Nat.pow_eq]
        omega
      rw [if_pos hshort] at h
      unfold roundedRoot? at h
      simp only [Nat.pow_eq] at h
      generalize hplaces : roundPlaces (8 * k + 1) = x at h
      split at h
      · rename_i hodd
        have hread := Nat.div_add_mod (nearestRoot (x * 4 ^ (52 - x.log2 / 2)))
          (2 * 2 ^ (52 - x.log2 / 2))
        rw [hodd, Option.some.inj h] at hread
        have hnear := nearestRoot_near (x * 4 ^ (52 - x.log2 / 2))
        have hroot : nearestRoot (x * 4 ^ (52 - x.log2 / 2)) =
            (2 * n + 1) * 2 ^ (52 - x.log2 / 2) := by
          rw [← hread]
          ring
        have hfour : (4 : Nat) ^ (52 - x.log2 / 2) =
            2 ^ (52 - x.log2 / 2) * 2 ^ (52 - x.log2 / 2) := by
          rw [← Nat.mul_pow]
        have hscale := Nat.two_pow_pos (52 - x.log2 / 2)
        rw [hroot, mul_self_scaled, hfour, ← Nat.mul_assoc, ← Nat.mul_assoc, ← Nat.add_mul,
          ← Nat.add_mul] at hnear
        have hsize : k = size n := by
          apply eq_size_of_near hk (n := x)
          · rw [← hplaces]
            exact roundPlaces_eight_mul (by omega)
          · exact Nat.le_of_mul_le_mul_right hnear.1 hscale
          · exact Nat.le_of_mul_le_mul_right hnear.2 hscale
        refine ⟨Nat.pos_of_ne_zero ?_, hsize⟩
        rintro rfl
        exact hpos hsize
      · cases h
  · rintro ⟨hn, rfl⟩
    exact root?_size hn

theorem root?_misread : root? 6896136988131329 = some 117440512 ∧
    6896136988131329 ≠ size 117440512 := by
  decide +kernel

end Triangle

namespace Constraint

theorem exists_side {dim : Shape} {n : Nat} (h : squareSide? (dim.map Int.ofNat) = some n) :
    dim = [n, n] ∧ 2 ≤ n := by
  unfold squareSide? at h
  split at h
  · rename_i m l hdim
    match dim, hdim with
    | [m', l'], hdim =>
        cases hdim
        split at h
        · rename_i hsquare
          cases h
          have heq : m' = l' := Int.ofNat.inj hsquare.1
          have hle : 2 ≤ l' := Int.ofNat_le.mp hsquare.2
          rw [heq]
          exact ⟨rfl, hle⟩
        · cases h
  · cases h

theorem exists_side_of_map {f : Nat → Int} {dim : Shape} {size : Nat}
    (h : ((squareSide? (dim.map Int.ofNat)).map f).map Int.toNat = some size) :
    ∃ n, dim = [n, n] ∧ 2 ≤ n ∧ size = (f n).toNat := by
  rcases Option.map_eq_some_iff.mp h with ⟨k, hk, hsize⟩
  rcases Option.map_eq_some_iff.mp hk with ⟨n, hside, rfl⟩
  rcases exists_side hside with ⟨hdim, hle⟩
  exact ⟨n, hdim, hle, hsize.symm⟩

theorem foldl_ofNat (dim : Shape) (m : Nat) :
    (dim.map Int.ofNat).foldl (· * ·) (Int.ofNat m) = Int.ofNat (m * dim.size) := by
  induction dim generalizing m with
  | nil => rw [Shape.size_nil, Nat.mul_one, List.map_nil, List.foldl_nil]
  | cons n dim ih =>
      rw [List.map_cons, List.foldl_cons, Shape.size_cons, ← Nat.mul_assoc, ← ih]
      rfl

theorem freeSize_cases {c : Constraint} {dim : Shape} {size : Nat}
    (h : (c.freeSize? (dim.map Int.ofNat)).map Int.toNat = some size) :
    (c = .correlation ∧ ∃ n, dim = [n + 1, n + 1] ∧ 1 ≤ n ∧ size = Triangle.size n) ∨
      (c = .covariance ∧ ∃ n, dim = [n, n] ∧ 1 ≤ n ∧ size = Triangle.size n) ∨
      (c.isMatrix = false ∧ size = dim.size) := by
  cases c with
  | correlation =>
      left
      rcases exists_side_of_map h with ⟨n, hdim, hle, hsize⟩
      cases n with
      | zero => omega
      | succ n =>
          refine ⟨rfl, n, hdim, Nat.le_of_succ_le_succ hle, ?_⟩
          unfold Triangle.size
          rw [hsize, Int.toNat_natCast, Nat.add_sub_cancel, Nat.mul_comm]
  | covariance =>
      right
      left
      rcases exists_side_of_map h with ⟨n, hdim, hle, hsize⟩
      exact ⟨rfl, n, hdim, by omega, hsize.trans (Int.toNat_natCast _)⟩
  | _ =>
      right
      right
      refine ⟨rfl, ?_⟩
      have hfold := foldl_ofNat dim 1
      rw [Nat.one_mul] at hfold
      unfold freeSize? at h
      simp only [Option.map_some, Option.some.injEq] at h
      rw [← h]
      exact (congrArg Int.toNat hfold)

end Constraint

end DensityGraph
