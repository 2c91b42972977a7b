import Mathlib.Analysis.Matrix.LDL
import Mathlib.Data.List.GetD
import DensityGraph.Proofs.Scalar.Real
import DensityGraph.Tensor.Matrix
/-!
# Cholesky factors

A factor is a lower triangular matrix with a positive diagonal, of which each row is kept
up to the diagonal.  The products of its rows form a positive definite matrix, from which
the factorization gets the factor back, and every positive definite matrix has a factor.
Only the lower triangle counts for what a factorization finds.
-/

namespace DensityGraph
namespace Rows

open Matrix

/-!
# Products of rows
-/

theorem dot_nil (ys : List ℝ) : dot [] ys = 0 := by
  unfold dot
  rw [List.zipWith_nil_left, Scalar.sum_real, List.sum_nil]

theorem dot_cons (x y : ℝ) (xs ys : List ℝ) :
    dot (x :: xs) (y :: ys) = x * y + dot xs ys := by
  unfold dot
  rw [List.zipWith_cons_cons, Scalar.sum_real, Scalar.sum_real, List.sum_cons]

theorem dot_comm (xs ys : List ℝ) : dot xs ys = dot ys xs := by
  unfold dot
  rw [List.zipWith_comm]
  simp only [mul_comm]

theorem dot_append {xs ys : List ℝ} (h : xs.length = ys.length) (xs' ys' : List ℝ) :
    dot (xs ++ xs') (ys ++ ys') = dot xs ys + dot xs' ys' := by
  unfold dot
  rw [List.zipWith_append h, Scalar.sum_real, Scalar.sum_real, Scalar.sum_real,
    List.sum_append]

theorem dot_eq_sum {xs : List ℝ} {n : Nat} (h : xs.length ≤ n) (ys : List ℝ) :
    dot xs ys = ∑ k ∈ Finset.range n, xs.getD k 0 * ys.getD k 0 := by
  induction xs generalizing n ys with
  | nil => simp [dot_nil]
  | cons x xs ih =>
      cases n with
      | zero => cases h
      | succ n =>
          cases ys with
          | nil => simp [dot_comm (x :: xs), dot_nil]
          | cons y ys =>
              rw [dot_cons, ih (Nat.le_of_succ_le_succ h), Finset.sum_range_succ', add_comm]
              simp

theorem dot_zeros (xs : List ℝ) (k : Nat) (ys : List ℝ) :
    dot (xs ++ List.replicate k 0) ys = dot xs ys := by
  have hget : forall j, (xs ++ List.replicate k 0).getD j 0 = xs.getD j 0 := by
    intro j
    rcases Nat.lt_or_ge j xs.length with hj | hj
    · rw [List.getD_append _ _ _ _ hj]
    · rw [List.getD_append_right _ _ _ _ hj, List.getD_eq_getElem?_getD,
        List.getElem?_getD_replicate_default_eq, List.getD_eq_default _ _ hj]
  rw [dot_eq_sum (le_refl _), dot_eq_sum (n := (xs ++ List.replicate k 0).length) (by simp)]
  simp only [hget]

theorem dot_self_nonneg (xs : List ℝ) : 0 ≤ dot xs xs := by
  rw [dot_eq_sum (le_refl _)]
  exact Finset.sum_nonneg fun k _ => mul_self_nonneg _

/-!
# Factors
-/

def IsFactor (l : Rows ℝ) : Prop :=
  forall i r, l[i]? = some r -> ∃ cs d, r = cs ++ [d] ∧ cs.length = i ∧ 0 < d

theorem IsFactor.of_append {l l' : Rows ℝ} (h : IsFactor (l ++ l')) : IsFactor l := by
  intro i r hr
  have hi : i < l.length := (List.getElem?_eq_some_iff.mp hr).1
  apply h
  rw [List.getElem?_append_left hi, hr]

theorem IsFactor.next {l l' : Rows ℝ} {r : List ℝ} (h : IsFactor (l ++ r :: l')) :
    ∃ cs d, r = cs ++ [d] ∧ cs.length = l.length ∧ 0 < d := by
  apply h
  rw [List.getElem?_append_right (le_refl _), Nat.sub_self, List.getElem?_cons_zero]

/-!
# The factorization finds the factor
-/

theorem zip_map_append {β γ : Type} (xs : List β) (f : β → γ) (rest : List γ) :
    xs.zip (xs.map f ++ rest) = xs.map fun x => (x, f x) := by
  induction xs with
  | nil => rfl
  | cons x xs ih => rw [List.map_cons, List.cons_append, List.zip_cons_cons, ih, List.map_cons]

theorem factorRow_dot {above : Rows ℝ} (h : IsFactor above) {row : List ℝ}
    (hle : above.length ≤ row.length) (rest : List ℝ) :
    factorRow above (above.map (dot row) ++ rest) = row.take above.length := by
  unfold factorRow
  rw [zip_map_append, List.foldl_map]
  -- The last row has the last entry to itself: what the rows above it account for cancels.
  induction above using List.reverseRecOn with
  | nil => rfl
  | append_singleton above r ih =>
      rcases h.next with ⟨rs, d, rfl, hlength, hd⟩
      rw [List.length_append, List.length_singleton] at hle
      have hrow : row = row.take above.length ++ row[above.length] :: row.drop (above.length + 1) := by
        rw [List.getElem_cons_drop, List.take_append_drop]
      have htake : (row.take above.length).length = rs.length := by
        rw [List.length_take_of_le (Nat.le_of_succ_le hle), hlength]
      have hwhole : dot row (rs ++ [d]) =
          dot (row.take above.length) rs + row[above.length] * d := by
        conv_lhs => rw [hrow]
        rw [dot_append htake, dot_cons, dot_comm _ [], dot_nil, add_zero]
      have hpart : dot (row.take above.length) (rs ++ [d]) = dot (row.take above.length) rs := by
        rw [← List.append_nil (row.take above.length), dot_append htake, dot_nil, add_zero,
          List.append_nil]
      rw [List.foldl_append, List.foldl_cons, List.foldl_nil, ih h.of_append (by omega)]
      simp only [hwhole, hpart, List.getLastD_concat, add_sub_cancel_left,
        mul_div_cancel_right₀ _ (ne_of_gt hd)]
      rw [List.take_append_getElem, List.length_append, List.length_singleton]

theorem factorRows?_dot {above rest : Rows ℝ} (h : IsFactor (above ++ rest)) :
    factorRows? above (rest.map fun r => (above ++ rest).map (dot r)) = some (above ++ rest) := by
  -- The induction is on the rows that are left, below any rows that have been found.
  induction rest generalizing above with
  | nil =>
      rw [List.append_nil]
      rfl
  | cons r rest ih =>
      rcases h.next with ⟨cs, d, rfl, hlength, hd⟩
      have hstep : above ++ (cs ++ [d]) :: rest = (above ++ [cs ++ [d]]) ++ rest := by
        rw [List.append_assoc, List.singleton_append]
      have hentries : (above ++ (cs ++ [d]) :: rest).map (dot (cs ++ [d])) =
          above.map (dot (cs ++ [d])) ++
            dot (cs ++ [d]) (cs ++ [d]) :: rest.map (dot (cs ++ [d])) := by
        rw [List.map_append, List.map_cons]
      have hrow : factorRow above ((above ++ (cs ++ [d]) :: rest).map (dot (cs ++ [d]))) = cs := by
        rw [hentries, factorRow_dot h.of_append (by simp [hlength]), ← hlength]
        exact List.take_left
      have hentry : ((above ++ (cs ++ [d]) :: rest).map (dot (cs ++ [d]))).getD above.length
          Scalar.zero = dot cs cs + d * d := by
        rw [hentries, List.getD_append_right _ _ _ _ (by simp), dot_append rfl, dot_cons, dot_nil]
        simp
      have hpivot : dot cs cs + d * d - dot cs cs = d * d := add_sub_cancel_left _ _
      have hpositive : Scalar.less Scalar.zero (d * d) = true := by
        rw [Scalar.zero_real]
        exact decide_eq_true (mul_pos hd hd)
      have hroot : Scalar.sqrt (d * d) = d := Real.sqrt_mul_self hd.le
      rw [List.map_cons]
      unfold factorRows?
      simp only [hrow, hentry, hpivot, hpositive, hroot, if_true]
      rw [hstep] at h ⊢
      exact ih h

theorem cholesky?_gram {l : Rows ℝ} (h : IsFactor l) : cholesky? (gram l) = some l := by
  rw [← List.nil_append l] at h
  exact factorRows?_dot h

/-!
# Factors as matrices
-/

noncomputable def toMatrix (n : Nat) (m : Rows ℝ) : Matrix (Fin n) (Fin n) ℝ :=
  Matrix.of fun i j => m.get i j

variable {n : Nat} {l : Rows ℝ}

theorem get_eq {i : Nat} (hi : i < l.length) (j : Nat) : l.get i j = l[i].getD j 0 := by
  unfold get
  rw [List.getD_eq_getElem _ _ hi, Scalar.zero_real]

theorem get_gram {i j : Nat} (hi : i < l.length) (hj : j < l.length) :
    (gram l).get i j = dot l[i] l[j] := by
  have hlength : i < (l.map fun r => l.map fun s => dot r s).length := by
    rw [List.length_map]
    exact hi
  unfold gram get
  rw [List.getD_eq_getElem _ _ hlength, List.getElem_map, List.getD_eq_getElem _ _
    (by rwa [List.length_map]), List.getElem_map]

theorem IsFactor.getElem (h : IsFactor l) {i : Nat} (hi : i < l.length) :
    ∃ cs d, l[i] = cs ++ [d] ∧ cs.length = i ∧ 0 < d :=
  h i _ (List.getElem?_eq_getElem hi)

theorem IsFactor.length_row (h : IsFactor l) {i : Nat} (hi : i < l.length) :
    l[i].length = i + 1 := by
  rcases h.getElem hi with ⟨cs, d, hrow, hlength, _⟩
  rw [hrow, List.length_append, List.length_singleton, hlength]

theorem toMatrix_gram (h : IsFactor l) (hn : l.length = n) :
    (gram l).toMatrix n = l.toMatrix n * (l.toMatrix n)ᵀ := by
  subst hn
  ext i j
  have hle : l[i.1].length ≤ l.length := by
    rw [h.length_row i.isLt]
    exact i.isLt
  unfold toMatrix
  rw [Matrix.mul_apply, Matrix.of_apply, get_gram i.isLt j.isLt, dot_eq_sum hle, Finset.sum_range]
  simp only [Matrix.transpose_apply, Matrix.of_apply, get_eq i.isLt, get_eq j.isLt]

theorem IsFactor.isLowerTriangular (h : IsFactor l) :
    (l.toMatrix l.length).IsLowerTriangular := by
  intro i j hij
  have hlt : i.1 < j.1 := hij
  unfold toMatrix
  rw [Matrix.of_apply, get_eq i.isLt, List.getD_eq_default]
  rw [h.length_row i.isLt]
  exact hlt

theorem IsFactor.diagonal_pos (h : IsFactor l) (i : Fin l.length) :
    0 < l.toMatrix l.length i i := by
  rcases h.getElem i.isLt with ⟨cs, d, hrow, hlength, hd⟩
  unfold toMatrix
  rw [Matrix.of_apply, get_eq i.isLt, hrow, List.getD_append_right _ _ _ _ hlength.le, hlength,
    Nat.sub_self]
  exact hd

theorem posDef_gram (h : IsFactor l) (hn : l.length = n) : ((gram l).toMatrix n).PosDef := by
  subst hn
  have hdet : (l.toMatrix l.length).det ≠ 0 := by
    rw [Matrix.det_of_isLowerTriangular _ h.isLowerTriangular]
    exact Finset.prod_ne_zero_iff.mpr fun i _ => ne_of_gt (h.diagonal_pos i)
  have hunit : IsUnit (l.toMatrix l.length) :=
    (Matrix.isUnit_iff_isUnit_det _).mpr (isUnit_iff_ne_zero.mpr hdet)
  rw [toMatrix_gram h rfl, ← Matrix.conjTranspose_eq_transpose_of_trivial]
  exact Matrix.PosDef.mul_conjTranspose_self _ (Matrix.vecMul_injective_iff_isUnit.mpr hunit)

/-!
# Positive definite matrices have factors
-/

theorem exists_lowerTriangular {A : Matrix (Fin n) (Fin n) ℝ} (hA : A.PosDef) :
    ∃ C : Matrix (Fin n) (Fin n) ℝ,
      C.IsLowerTriangular ∧ (forall i, 0 < C i i) ∧ C * Cᵀ = A := by
  let L := LDL.lower hA
  let D := LDL.diagEntries hA
  have hinverse : (LDL.lowerInv hA).IsLowerTriangular := fun _ _ hij =>
    LDL.lowerInv_triangular hA hij
  have hunit : IsUnit (LDL.lowerInv hA) := isUnit_of_invertible _
  have hlower : L.IsLowerTriangular := Matrix.blockTriangular_inv_of_blockTriangular hinverse
  have hdiagonal : forall i, L i i ≠ 0 := by
    have hdet : L.det ≠ 0 := by
      rw [← isUnit_iff_ne_zero, ← Matrix.isUnit_iff_isUnit_det]
      exact Matrix.isUnit_nonsing_inv_iff.mpr hunit
    rw [Matrix.det_of_isLowerTriangular _ hlower] at hdet
    exact fun i => Finset.prod_ne_zero_iff.mp hdet i (Finset.mem_univ i)
  have hpos : forall i, 0 < D i := by
    have hconj := hA.mul_mul_conjTranspose_same (Matrix.vecMul_injective_iff_isUnit.mpr hunit)
    rw [← LDL.diag_eq_lowerInv_conj] at hconj
    exact Matrix.posDef_diagonal_iff.mp hconj
  -- The columns of `L` are scaled, and turned so that the diagonal becomes positive.
  let s : Fin n → ℝ := fun j => |L j j| / L j j * Real.sqrt (D j)
  have hs : forall j, s j * s j = D j := by
    intro j
    have hsign : |L j j| / L j j * (|L j j| / L j j) = 1 := by
      rw [div_mul_div_comm, abs_mul_abs_self, div_self (mul_self_ne_zero.mpr (hdiagonal j))]
    calc s j * s j = |L j j| / L j j * (|L j j| / L j j) *
          (Real.sqrt (D j) * Real.sqrt (D j)) := mul_mul_mul_comm _ _ _ _
      _ = D j := by rw [hsign, one_mul, Real.mul_self_sqrt (hpos j).le]
  refine ⟨L * Matrix.diagonal s, ?_, ?_, ?_⟩
  · intro i j hij
    rw [Matrix.mul_diagonal, hlower hij, zero_mul]
  · intro i
    have hentry : L i i * s i = |L i i| * Real.sqrt (D i) := by
      rw [← mul_assoc, mul_div_cancel₀ _ (hdiagonal i)]
    rw [Matrix.mul_diagonal, hentry]
    exact mul_pos (abs_pos.mpr (hdiagonal i)) (Real.sqrt_pos.mpr (hpos i))
  · have hsquare : Matrix.diagonal s * Matrix.diagonal s = LDL.diag hA := by
      rw [Matrix.diagonal_mul_diagonal]
      exact congrArg Matrix.diagonal (funext hs)
    rw [Matrix.transpose_mul, Matrix.diagonal_transpose, Matrix.mul_assoc,
      ← Matrix.mul_assoc (Matrix.diagonal s), hsquare, ← Matrix.mul_assoc,
      ← Matrix.conjTranspose_eq_transpose_of_trivial]
    exact LDL.lower_conj_diag hA

noncomputable def ofLower (C : Matrix (Fin n) (Fin n) ℝ) : Rows ℝ :=
  List.ofFn fun i : Fin n => List.ofFn fun j : Fin (i + 1) => C i ⟨j, by omega⟩

theorem length_ofLower (C : Matrix (Fin n) (Fin n) ℝ) : (ofLower C).length = n :=
  List.length_ofFn

theorem isFactor_ofLower {C : Matrix (Fin n) (Fin n) ℝ} (h : forall i, 0 < C i i) :
    IsFactor (ofLower C) := by
  intro i r hr
  unfold ofLower at hr
  rw [List.getElem?_ofFn] at hr
  split at hr
  · cases hr
    rw [List.ofFn_succ_last]
    exact ⟨_, _, rfl, List.length_ofFn, h _⟩
  · cases hr

theorem toMatrix_ofLower {C : Matrix (Fin n) (Fin n) ℝ} (h : C.IsLowerTriangular) :
    (ofLower C).toMatrix n = C := by
  ext i j
  have hi : i.1 < (ofLower C).length := (length_ofLower C).symm ▸ i.isLt
  have hrow : (ofLower C)[i.1] = List.ofFn fun j : Fin (i + 1) => C i ⟨j, by omega⟩ :=
    List.getElem_ofFn _
  unfold toMatrix
  rw [Matrix.of_apply, get_eq hi, hrow]
  rcases Nat.lt_or_ge i.1 j.1 with hij | hij
  · rw [List.getD_eq_default _ _ (by rw [List.length_ofFn]; exact hij)]
    exact (h hij).symm
  · rw [List.getD_eq_getElem _ _ (by rw [List.length_ofFn]; omega), List.getElem_ofFn]

theorem exists_factor {A : Matrix (Fin n) (Fin n) ℝ} (hA : A.PosDef) :
    ∃ l, IsFactor l ∧ l.length = n ∧ (gram l).toMatrix n = A := by
  rcases exists_lowerTriangular hA with ⟨C, hlower, hdiagonal, hproduct⟩
  have hfactor := isFactor_ofLower hdiagonal
  refine ⟨ofLower C, hfactor, length_ofLower C, ?_⟩
  rw [toMatrix_gram hfactor (length_ofLower C), toMatrix_ofLower hlower, hproduct]

/-!
# What a factorization finds

A row of the factor is determined by its products with the rows above and with itself.  The
factorization goes from row to row and keeps it that the products found so far are the
entries of the lower triangle.
-/

theorem dot_append_left {xs rs : List ℝ} (h : rs.length ≤ xs.length) (xs' : List ℝ) :
    dot (xs ++ xs') rs = dot xs rs := by
  rw [dot_comm, dot_eq_sum (le_refl _), dot_comm, dot_eq_sum (le_refl _)]
  apply Finset.sum_congr rfl
  intro k hk
  rw [List.getD_append _ _ _ _ (Nat.lt_of_lt_of_le (Finset.mem_range.mp hk) h)]

theorem zip_concat {β : Type} (xs : List β) (x : β) {entries : List ℝ}
    (hlt : xs.length < entries.length) :
    (xs ++ [x]).zip entries = xs.zip entries ++ [(x, entries.getD xs.length 0)] := by
  induction xs generalizing entries with
  | nil =>
      cases entries with
      | nil => cases hlt
      | cons a entries => rfl
  | cons y xs ih =>
      cases entries with
      | nil => cases hlt
      | cons a entries =>
          rw [List.cons_append, List.zip_cons_cons, List.zip_cons_cons,
            ih (Nat.lt_of_succ_lt_succ hlt), List.cons_append, List.length_cons,
            List.getD_cons_succ]

theorem factorRow_concat (above : Rows ℝ) (r : List ℝ) {entries : List ℝ}
    (hlt : above.length < entries.length) :
    factorRow (above ++ [r]) entries = factorRow above entries ++
      [(entries.getD above.length 0 - dot (factorRow above entries) r) / r.getLastD 1] := by
  unfold factorRow
  rw [zip_concat above r hlt, List.foldl_append, List.foldl_cons, List.foldl_nil,
    Scalar.one_real]

theorem dot_factorRow {above : Rows ℝ} (h : IsFactor above) {entries : List ℝ}
    (hle : above.length ≤ entries.length) :
    (factorRow above entries).length = above.length ∧ forall j, j < above.length ->
      dot (factorRow above entries) (above.getD j []) = entries.getD j 0 := by
  -- Each step adds the entry that the last row above needs; the others are not touched.
  induction above using List.reverseRecOn with
  | nil => exact ⟨rfl, nofun⟩
  | append_singleton above r ih =>
      rcases h.next with ⟨rs, d, rfl, hlength, hd⟩
      rw [List.length_append, List.length_singleton] at hle ⊢
      rcases ih h.of_append (Nat.le_of_succ_le hle) with ⟨hrow, hdots⟩
      rw [factorRow_concat _ _ hle, List.getLastD_concat]
      generalize factorRow above entries = row at hrow hdots ⊢
      refine ⟨by rw [List.length_append, List.length_singleton, hrow], ?_⟩
      intro j hj
      rcases Nat.lt_succ_iff_lt_or_eq.mp hj with hj | rfl
      · rw [List.getD_append _ _ _ _ hj, dot_append_left, hdots j hj]
        have hj' : above.getD j [] = above[j] := List.getD_eq_getElem _ _ hj
        rw [hj', h.of_append.length_row hj, hrow]
        exact hj
      · have hsame : row.length = rs.length := hrow.trans hlength.symm
        have hpart : dot row (rs ++ [d]) = dot row rs := by
          rw [dot_comm, dot_append_left hsame.le, dot_comm]
        rw [List.getD_append_right _ _ _ _ (le_refl _), Nat.sub_self, List.getD_cons_zero,
          dot_append hsame, dot_cons, dot_nil, add_zero, hpart, div_mul_cancel₀ _ hd.ne',
          add_sub_cancel]

structure Factors (l : Rows ℝ) (a : Nat → Nat → ℝ) : Prop where
  factor : IsFactor l
  products : forall i j, i < l.length -> j ≤ i -> dot (l.getD i []) (l.getD j []) = a i j

variable {above rest l l' m : Rows ℝ} {a b : Nat → Nat → ℝ} {cs : List ℝ} {d : ℝ}

theorem IsFactor.concat (h : IsFactor above)
    (hlength : cs.length = above.length) (hd : 0 < d) : IsFactor (above ++ [cs ++ [d]]) := by
  intro i r hr
  rcases Nat.lt_or_ge i above.length with hi | hi
  · rw [List.getElem?_append_left hi] at hr
    exact h i r hr
  · rw [List.getElem?_append_right hi, List.getElem?_singleton] at hr
    split at hr
    · cases hr
      exact ⟨cs, d, rfl, by omega, hd⟩
    · cases hr

theorem Factors.concat (h : Factors above a) (hlength : cs.length = above.length) (hd : 0 < d)
    (hdots : forall j, j < above.length -> dot cs (above.getD j []) = a above.length j)
    (hself : dot cs cs + d * d = a above.length above.length) :
    Factors (above ++ [cs ++ [d]]) a where
  factor := h.factor.concat hlength hd
  products := by
    intro i j hi hj
    rw [List.length_append, List.length_singleton] at hi
    have hlast : (above ++ [cs ++ [d]]).getD above.length [] = cs ++ [d] := by
      rw [List.getD_append_right _ _ _ _ (le_refl _), Nat.sub_self, List.getD_cons_zero]
    rcases Nat.lt_succ_iff_lt_or_eq.mp hi with hi | rfl
    · rw [List.getD_append _ _ _ _ hi, List.getD_append _ _ _ _ (Nat.lt_of_le_of_lt hj hi)]
      exact h.products i j hi hj
    · rw [hlast]
      rcases Nat.lt_or_eq_of_le hj with hj | rfl
      · have hrow : (above.getD j []).length = j + 1 := by
          rw [List.getD_eq_getElem _ _ hj, h.factor.length_row hj]
        rw [List.getD_append _ _ _ _ hj, dot_append_left (by omega), hdots j hj]
      · rw [hlast, dot_append rfl, dot_cons, dot_nil, add_zero, hself]

theorem factorRows?_spec (habove : Factors above m.get) (hrest : m.drop above.length = rest)
    (hle : forall r, r ∈ m -> m.length ≤ r.length) (h : factorRows? above rest = some l) :
    Factors l m.get ∧ l.length = above.length + rest.length := by
  -- The induction is on the rows that are left; the rows above them are a factor already.
  induction rest generalizing above with
  | nil =>
      cases h
      exact ⟨habove, rfl⟩
  | cons entries rest ih =>
      have hget : m[above.length]? = some entries := by
        rw [← List.head?_drop, hrest, List.head?_cons]
      have hwidth : above.length ≤ entries.length :=
        (List.getElem?_eq_some_iff.mp hget).1.le.trans (hle _ (List.mem_of_getElem? hget))
      have hentries : forall j, m.get above.length j = entries.getD j 0 := by
        intro j
        unfold get
        rw [Scalar.zero_real, (List.getD_eq_getElem?_getD : m.getD above.length [] = _), hget,
          Option.getD_some]
      rcases dot_factorRow habove.factor hwidth with ⟨hlength, hdots⟩
      unfold factorRows? at h
      dsimp only at h
      split at h
      case isFalse => cases h
      case isTrue hless =>
        have hpivot : 0 < entries.getD above.length 0 -
            dot (factorRow above entries) (factorRow above entries) := by
          rw [Scalar.zero_real] at hless
          exact of_decide_eq_true hless
        rw [Scalar.zero_real] at h
        have hnext := habove.concat hlength (Real.sqrt_pos.mpr hpivot)
          (fun j hj => (hdots j hj).trans (hentries j).symm)
          (by rw [Real.mul_self_sqrt hpivot.le, hentries, add_sub_cancel])
        have hdrop : m.drop (above ++ [factorRow above entries ++
            [√(entries.getD above.length 0 -
              dot (factorRow above entries) (factorRow above entries))]]).length = rest := by
          rw [List.length_append, List.length_singleton, ← List.drop_drop, hrest, List.drop_one,
            List.tail_cons]
        rcases ih hnext hdrop h with ⟨hl, hlength⟩
        refine ⟨hl, ?_⟩
        rw [hlength, List.length_append, List.length_singleton, List.length_cons]
        omega

theorem cholesky?_spec (hle : forall r, r ∈ m -> m.length ≤ r.length)
    (h : cholesky? m = some l) : Factors l m.get ∧ l.length = m.length := by
  have hnil : Factors [] m.get := ⟨nofun, nofun⟩
  have hspec := factorRows?_spec hnil rfl hle h
  rwa [List.length_nil, Nat.zero_add, List.drop_zero] at hspec

/-!
# Lower triangles of positive definite matrices
-/

theorem Factors.of_append (h : Factors (l ++ l') a) : Factors l a where
  factor := h.factor.of_append
  products := by
    intro i j hi hj
    have hproduct := h.products i j (by rw [List.length_append]; omega) hj
    rwa [List.getD_append _ _ _ _ hi, List.getD_append _ _ _ _ (Nat.lt_of_le_of_lt hj hi)]
      at hproduct

theorem Factors.next (h : Factors (above ++ (cs ++ [d]) :: rest) a) :
    cs.length = above.length ∧ 0 < d ∧
      (forall j, j < above.length -> dot cs (above.getD j []) = a above.length j) ∧
        dot cs cs + d * d = a above.length above.length := by
  rcases h.factor.next with ⟨cs', d', hrow, hlength, hd⟩
  rcases List.append_inj' hrow rfl with ⟨rfl, hlast⟩
  cases hlast
  have hlt : above.length < (above ++ (cs ++ [d]) :: rest).length := by
    rw [List.length_append, List.length_cons]
    omega
  have hget : (above ++ (cs ++ [d]) :: rest).getD above.length [] = cs ++ [d] := by
    rw [List.getD_append_right _ _ _ _ (le_refl _), Nat.sub_self, List.getD_cons_zero]
  refine ⟨hlength, hd, ?_, ?_⟩
  · intro j hj
    have hshort : (above.getD j []).length ≤ cs.length := by
      rw [List.getD_eq_getElem _ _ hj, h.factor.of_append.length_row hj]
      omega
    rw [← h.products above.length j hlt hj.le, hget, List.getD_append _ _ _ _ hj,
      dot_append_left hshort]
  · rw [← h.products above.length above.length hlt (le_refl _), hget, dot_append rfl, dot_cons,
      dot_nil, add_zero]

theorem Factors.congr (h : Factors l a)
    (hab : forall i j, i < l.length -> j ≤ i -> a i j = b i j) : Factors l b where
  factor := h.factor
  products i j hi hj := (h.products i j hi hj).trans (hab i j hi hj)

def mirror (n : Nat) (a : Nat → Nat → ℝ) : Matrix (Fin n) (Fin n) ℝ :=
  Matrix.of fun i j => a (max i j) (min i j)

theorem Factors.dot_rows (h : Factors l a) {i j : Nat} (hi : i < l.length) (hj : j < l.length) :
    dot l[i] l[j] = a (max i j) (min i j) := by
  rw [← List.getD_eq_getElem _ [] hi, ← List.getD_eq_getElem _ [] hj]
  rcases le_total j i with hij | hij
  · rw [max_eq_left hij, min_eq_right hij, h.products i j hi hij]
  · rw [max_eq_right hij, min_eq_left hij, dot_comm, h.products j i hj hij]

theorem Factors.toMatrix_gram (h : Factors l a) (hn : l.length = n) :
    (gram l).toMatrix n = mirror n a := by
  subst hn
  ext i j
  unfold Rows.toMatrix mirror
  rw [Matrix.of_apply, Matrix.of_apply, get_gram i.isLt j.isLt, h.dot_rows]

theorem posDef_mirror_iff : (mirror n a).PosDef ↔ ∃ l, Factors l a ∧ l.length = n := by
  constructor
  · intro h
    rcases exists_factor h with ⟨l, hfactor, rfl, hgram⟩
    refine ⟨l, ⟨hfactor, ?_⟩, rfl⟩
    intro i j hi hij
    have hj := Nat.lt_of_le_of_lt hij hi
    have hentry := congrFun (congrFun hgram ⟨i, hi⟩) ⟨j, hj⟩
    unfold Rows.toMatrix mirror at hentry
    rw [Matrix.of_apply, Matrix.of_apply, get_gram hi hj] at hentry
    rw [List.getD_eq_getElem _ _ hi, List.getD_eq_getElem _ _ hj, hentry, max_eq_left hij,
      min_eq_right hij]
  · rintro ⟨l, h, hn⟩
    rw [← h.toMatrix_gram hn]
    exact posDef_gram h.factor hn

theorem Factors.unique (h : Factors l a) (h' : Factors l' a) (hlength : l.length = l'.length) :
    l = l' := by
  have hgram : gram l = gram l' := by
    unfold gram
    apply List.ext_getElem
    · rw [List.length_map, List.length_map, hlength]
    · intro i hi hi'
      rw [List.getElem_map, List.getElem_map]
      apply List.ext_getElem
      · rw [List.length_map, List.length_map, hlength]
      · intro j hj hj'
        rw [List.length_map] at hi hi' hj hj'
        rw [List.getElem_map, List.getElem_map, h.dot_rows hi hj, h'.dot_rows hi' hj']
  apply Option.some.inj
  rw [← cholesky?_gram h.factor, hgram, cholesky?_gram h'.factor]

theorem IsFactor.eq_of_dots (h : IsFactor above) {cs cs' : List ℝ}
    (hlength : cs.length = above.length) (hlength' : cs'.length = above.length)
    (hdots : forall j, j < above.length -> dot cs (above.getD j []) = dot cs' (above.getD j [])) :
    cs = cs' := by
  have hmap : above.map (dot cs) = above.map (dot cs') := by
    apply List.ext_getElem
    · rw [List.length_map, List.length_map]
    · intro j hj _
      rw [List.length_map] at hj
      rw [List.getElem_map, List.getElem_map, ← List.getD_eq_getElem _ [] hj]
      exact hdots j hj
  calc cs = cs.take above.length := by rw [← hlength, List.take_length]
    _ = factorRow above (above.map (dot cs) ++ []) := (factorRow_dot h hlength.ge []).symm
    _ = cs'.take above.length := by rw [hmap, factorRow_dot h hlength'.ge]
    _ = cs' := by rw [← hlength', List.take_length]

/-- The leading block with `i + 1` rows of the symmetric matrix with a given lower triangle, but
with a one at the end of its diagonal. -/
def leading (a : Nat → Nat → ℝ) (i : Nat) : Matrix (Fin (i + 1)) (Fin (i + 1)) ℝ :=
  mirror (i + 1) fun j k => if j = i ∧ k = i then 1 else a j k

/-- A one at the end of the diagonal leaves the block positive definite as long as the row of the
factor in front of the diagonal is shorter than one. -/
theorem posDef_leading_iff (h : Factors (above ++ (cs ++ [d]) :: rest) a) :
    (leading a above.length).PosDef ↔ dot cs cs < 1 := by
  let b : Nat → Nat → ℝ := fun j k => if j = above.length ∧ k = above.length then 1 else a j k
  have hoff : forall j k, j < above.length ∨ k < above.length -> b j k = a j k :=
    fun j k hjk => if_neg (by omega)
  have hend : b above.length above.length = 1 := if_pos ⟨rfl, rfl⟩
  have habove : Factors above b := h.of_append.congr fun j k hj _ => (hoff j k (Or.inl hj)).symm
  rcases h.next with ⟨hlength, _, hdots, _⟩
  constructor
  · intro hpos
    rcases posDef_mirror_iff.mp hpos with ⟨l, hl, hn⟩
    rcases List.eq_nil_or_concat' l with rfl | ⟨above', r, rfl⟩
    · cases hn
    · rw [List.length_append, List.length_singleton] at hn
      have hsame : above' = above := hl.of_append.unique habove (Nat.succ.inj hn)
      subst hsame
      -- The rows above are the same, and so is the last row in front of the diagonal.
      rcases hl.factor.next with ⟨cs', d', rfl, _⟩
      rcases hl.next with ⟨hlength', hd', hdots', hself⟩
      have hcs : cs' = cs := by
        apply habove.factor.eq_of_dots hlength' hlength
        intro j hj
        rw [hdots' j hj, hdots j hj]
        exact hoff _ j (Or.inr hj)
      have hone : dot cs cs + d' * d' = 1 := by
        rw [← hcs]
        exact hself.trans hend
      linarith [mul_pos hd' hd']
  · intro hlt
    have hpos : 0 < 1 - dot cs cs := sub_pos.mpr hlt
    have hself : dot cs cs + √(1 - dot cs cs) * √(1 - dot cs cs) =
        b above.length above.length := by
      rw [Real.mul_self_sqrt hpos.le, add_sub_cancel, hend]
    have hdots' : forall j, j < above.length ->
        dot cs (above.getD j []) = b above.length j := by
      intro j hj
      rw [hdots j hj, hoff _ j (Or.inr hj)]
    apply posDef_mirror_iff.mpr
    refine ⟨_, habove.concat hlength (Real.sqrt_pos.mpr hpos) hdots' hself, ?_⟩
    rw [List.length_append, List.length_singleton]

end Rows
end DensityGraph
