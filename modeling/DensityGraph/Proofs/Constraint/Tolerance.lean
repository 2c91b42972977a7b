import DensityGraph.Proofs.Constraint.Finite
/-!
# Tolerances

The inverse of the correlation constraint takes a diagonal that is one up to rounding.  An entry
above one can leave a row of the factor too long for partial correlations.  It does not, as long
as every leading block stays positive definite with a one at the end of its diagonal.
-/

namespace DensityGraph
namespace Constraint

open Extended Rows

/-!
# Rows with partial correlations
-/

def radicands {α : Type} [Scalar α] (sumsq : α) : List α → List α
  | [] => []
  | c :: cs => (Scalar.one - sumsq) :: radicands (sumsq + c * c) cs

/-- A row in front of the diagonal from which partial correlations are read. -/
structure Proper (s : ℝ) (cs : List ℝ) : Prop where
  radicands : forall r, r ∈ radicands s cs -> 0 < r
  correlations : forall z, z ∈ partialCorrelations s cs -> z ∈ Set.Ioo (-1) 1

variable {s c d : ℝ} {cs : List ℝ}

theorem proper_nil (s : ℝ) : Proper s [] :=
  ⟨nofun, nofun⟩

theorem proper_cons : Proper s (c :: cs) ↔
    (s < 1 ∧ c / √(1 - s) ∈ Set.Ioo (-1) 1) ∧ Proper (s + c * c) cs := by
  have hradicands : Constraint.radicands s (c :: cs) =
      (1 - s) :: Constraint.radicands (s + c * c) cs := by
    rw [Constraint.radicands, Scalar.one_real]
  constructor
  · rintro ⟨hpos, hrange⟩
    rw [hradicands] at hpos
    rw [partialCorrelations_cons] at hrange
    exact ⟨⟨sub_pos.mp (hpos _ (List.mem_cons_self ..)), hrange _ (List.mem_cons_self ..)⟩,
      fun r hr => hpos r (List.mem_cons_of_mem _ hr),
      fun z hz => hrange z (List.mem_cons_of_mem _ hz)⟩
  · rintro ⟨⟨hs, hz⟩, hpos, hrange⟩
    constructor
    · rw [hradicands]
      exact List.forall_mem_cons.mpr ⟨sub_pos.mpr hs, hpos⟩
    · rw [partialCorrelations_cons]
      exact List.forall_mem_cons.mpr ⟨hz, hrange⟩

theorem proper_iff (hs : s < 1) : Proper s cs ↔ s + dot cs cs < 1 := by
  induction cs generalizing s with
  | nil =>
      rw [dot_nil, add_zero]
      exact ⟨fun _ => hs, fun _ => proper_nil s⟩
  | cons c cs ih =>
      rw [proper_cons, div_sqrt_mem_Ioo_iff hs, dot_cons, ← add_assoc]
      constructor
      · rintro ⟨⟨_, hlt⟩, hproper⟩
        exact (ih hlt).mp hproper
      · intro h
        have hlt : s + c * c < 1 := by linarith [dot_self_nonneg cs]
        exact ⟨⟨hs, hlt⟩, (ih hlt).mpr h⟩

/-- Partial correlations are read off all rows of a factor if the blocks of the matrix stay
positive definite with a one at the end of their diagonals. -/
theorem proper_factor_iff {l : Rows ℝ} {a : Nat → Nat → ℝ} (h : Factors l a) :
    (forall row, row ∈ l -> Proper 0 row.dropLast) ↔
      forall i, i < l.length -> (leading a i).PosDef := by
  have hrow : forall i (hi : i < l.length),
      Proper 0 l[i].dropLast ↔ (leading a i).PosDef := by
    intro i hi
    rcases h.factor.getElem hi with ⟨cs, d, hlast, _⟩
    have hsplit : l = l.take i ++ (cs ++ [d]) :: l.drop (i + 1) := by
      rw [← hlast, List.getElem_cons_drop, List.take_append_drop]
    have hleading := posDef_leading_iff (hsplit ▸ h)
    rw [List.length_take_of_le hi.le] at hleading
    rw [hlast, List.dropLast_concat, proper_iff one_pos, zero_add, hleading]
  constructor
  · intro hall i hi
    exact (hrow i hi).mp (hall _ (List.getElem_mem hi))
  · intro hall row hmem
    rcases List.getElem_of_mem hmem with ⟨i, hi, rfl⟩
    exact (hrow i hi).mpr (hall i hi)

theorem proper_of_diagonal_le {l : Rows ℝ} {a : Nat → Nat → ℝ} (h : Factors l a)
    (hle : forall i, i < l.length -> a i i ≤ 1) : forall row, row ∈ l -> Proper 0 row.dropLast := by
  intro row hmem
  rcases List.getElem_of_mem hmem with ⟨i, hi, rfl⟩
  rcases h.factor.getElem hi with ⟨cs, d, hlast, _, hd⟩
  have hself : dot cs cs + d * d = a i i := by
    have hdot := h.dot_rows hi hi
    rwa [max_self, min_self, hlast, dot_append rfl, dot_cons, dot_nil, add_zero] at hdot
  rw [hlast, List.dropLast_concat, proper_iff one_pos, zero_add]
  linarith [hle i hi, mul_pos hd hd]

/-!
# Factors of finite numbers
-/

theorem isClose_finite (x y : ℝ) : isClose (finite x) (finite y) = isClose x y := by
  have hquotient : forall k, (Scalar.one / Scalar.ofNat (Nat.pow 10 k) : Extended) =
      finite (Scalar.one / Scalar.ofNat (Nat.pow 10 k)) := by
    intro k
    have hpow : (Scalar.ofNat (Nat.pow 10 k) : ℝ) ≠ 0 :=
      Nat.cast_ne_zero.mpr (Nat.pow_pos (by decide)).ne'
    exact div_finite _ hpow
  unfold isClose
  rw [hquotient, hquotient, sub_finite]
  rfl

theorem getD_map_finite (xs : List ℝ) (j : Nat) :
    (xs.map finite).getD j Scalar.zero = finite (xs.getD j Scalar.zero) := by
  rw [zero_finite]
  exact List.getD_map ..

theorem get_finite (m : Rows ℝ) (i j : Nat) :
    get (m.map (List.map finite)) i j = finite (m.get i j) := by
  have hrow : (m.map (List.map finite)).getD i [] = (m.getD i []).map finite :=
    List.getD_map m [] (List.map finite)
  unfold Rows.get
  rw [hrow, getD_map_finite]

theorem isSymmetric_finite (m : Rows ℝ) :
    isSymmetric (m.map (List.map finite)) = isSymmetric m := by
  unfold isSymmetric
  simp only [List.length_map, get_finite, isClose_finite]

theorem hasUnitDiagonal_finite (m : Rows ℝ) :
    hasUnitDiagonal (m.map (List.map finite)) = hasUnitDiagonal m := by
  unfold hasUnitDiagonal
  simp only [List.length_map, get_finite, one_finite, isClose_finite]

section Factorization

variable {above : Rows ℝ}

theorem factorRow_finite (h : forall r, r ∈ above -> r.getLastD Scalar.one ≠ 0)
    (entries : List ℝ) : factorRow (above.map (List.map finite)) (entries.map finite) =
      (factorRow above entries).map finite := by
  have hlast : forall r : List ℝ,
      (r.map finite).getLastD Scalar.one = finite (r.getLastD Scalar.one) := by
    intro r
    rw [List.getLastD_eq_getLast?, List.getLastD_eq_getLast?, List.getLast?_map]
    exact Option.getD_map ..
  have hfold : forall row : List ℝ, ((above.map (List.map finite)).zip (entries.map finite)).foldl
      (fun row (r, a) => row ++ [(a - dot row r) / r.getLastD Scalar.one]) (row.map finite) =
        ((above.zip entries).foldl
          (fun row (r, a) => row ++ [(a - dot row r) / r.getLastD Scalar.one]) row).map finite := by
    induction above generalizing entries with
    | nil => exact fun _ => rfl
    | cons r above ih =>
        cases entries with
        | nil => exact fun _ => rfl
        | cons a entries =>
            intro row
            have hr := h r (List.mem_cons_self ..)
            simp only [List.map_cons, List.zip_cons_cons, List.foldl_cons]
            rw [dot_finite, sub_finite, hlast, div_finite _ hr, ← List.map_singleton,
              ← List.map_append]
            exact ih (fun r' hr' => h r' (List.mem_cons_of_mem _ hr')) entries _
  exact hfold []

theorem factorRows?_finite (h : forall r, r ∈ above -> r.getLastD Scalar.one ≠ 0)
    (rest : Rows ℝ) :
    factorRows? (above.map (List.map finite)) (rest.map (List.map finite)) =
      (factorRows? above rest).map (List.map (List.map finite)) := by
  induction rest generalizing above with
  | nil => rfl
  | cons entries rest ih =>
      let row := factorRow above entries
      let pivot := entries.getD above.length Scalar.zero - dot row row
      have hpivot : (entries.map finite).getD (above.map (List.map finite)).length Scalar.zero -
          dot (row.map finite) (row.map finite) = finite pivot := by
        rw [List.length_map, getD_map_finite, dot_finite, sub_finite]
      have hless : Scalar.less Scalar.zero (finite pivot) = Scalar.less Scalar.zero pivot := rfl
      rw [List.map_cons, factorRows?, factorRows?, factorRow_finite h, hpivot, hless]
      split
      case isFalse => rfl
      case isTrue hpos =>
        have hlt : 0 < pivot := by
          rw [Scalar.zero_real] at hpos
          exact of_decide_eq_true hpos
        have hnext : forall r, r ∈ above ++ [row ++ [Scalar.sqrt pivot]] ->
            r.getLastD Scalar.one ≠ 0 := by
          intro r hr
          rcases List.mem_append.mp hr with hr | hr
          · exact h r hr
          · rw [List.mem_singleton.mp hr, List.getLastD_concat]
            exact (Real.sqrt_pos.mpr hlt).ne'
        rw [← ih hnext, sqrt_finite hlt.le, List.map_append, List.map_singleton, List.map_append,
          List.map_singleton]

theorem ofTensor_finite {t : Tensor ℝ} {n : Nat} (ht : t.shape = [n, n]) :
    ofTensor (t.map finite) [] = (ofTensor t []).map (List.map finite) := by
  unfold ofTensor Rows.ofFn
  rw [Tensor.shape_map, Tensor.columns_square ht, List.map_map]
  apply List.map_congr_left
  intro i hi
  rw [Function.comp_apply, List.map_map]
  apply List.map_congr_left
  intro j hj
  rw [List.mem_range] at hi hj
  exact Tensor.get_map _ (ht ▸ ⟨hi, hj, trivial⟩)

theorem factorOf_finite {t : Tensor ℝ} {n : Nat} (ht : t.shape = [n, n]) :
    factorOf (t.map finite) = (factorOf t).map fun p =>
      (p.1.map (List.map finite), p.2.map (List.map finite)) := by
  have hcholesky : cholesky? ((ofTensor t []).map (List.map finite)) =
      (cholesky? (ofTensor t [])).map (List.map (List.map finite)) := by
    have hnil : forall r : List ℝ, r ∈ ([] : Rows ℝ) -> r.getLastD Scalar.one ≠ 0 := nofun
    exact factorRows?_finite hnil _
  unfold factorOf
  rw [Tensor.shape_map, ht]
  simp only [ofTensor_finite ht, isSymmetric_finite, hcholesky]
  split
  · cases cholesky? (ofTensor t []) <;> rfl
  · rfl

end Factorization

/-!
# Finite free vectors
-/

theorem div_sqrt_eq_finite_iff {s c z : ℝ} :
    finite c / Scalar.sqrt (Scalar.one - finite s) = finite z ↔ s < 1 ∧ c / √(1 - s) = z := by
  have hsub : Scalar.one - finite s = finite (1 - s) := by
    rw [one_finite, sub_finite, Scalar.one_real]
  rw [hsub]
  rcases lt_trichotomy s 1 with hs | rfl | hs
  · have hpos : 0 < 1 - s := sub_pos.mpr hs
    have hroot : Scalar.sqrt (1 - s) ≠ 0 := (Real.sqrt_pos.mpr hpos).ne'
    rw [sqrt_finite hpos.le, div_finite _ hroot]
    exact ⟨fun h => ⟨hs, finite.inj h⟩, fun h => congrArg finite h.2⟩
  · rw [sub_self, sqrt_finite (le_refl _)]
    refine ⟨fun h => ?_, fun h => absurd h.1 (lt_irrefl _)⟩
    change (if √0 = 0 then if c = 0 then undefined else infinite _ else _) = finite z at h
    rw [if_pos Real.sqrt_zero] at h
    split at h <;> cases h
  · have hundefined : Scalar.sqrt (finite (1 - s)) = undefined :=
      if_neg (not_le_of_gt (sub_neg.mpr hs))
    rw [hundefined]
    exact ⟨nofun, fun h => absurd h.1 (lt_asymm hs)⟩

theorem isFinite_partialCorrelations_iff (s : ℝ) (cs : List ℝ) :
    (forall z, z ∈ partialCorrelations (finite s) (cs.map finite) ->
      Scalar.isFinite (Scalar.arctanh z) = true) ↔ Proper s cs := by
  induction cs generalizing s with
  | nil => exact ⟨fun _ => proper_nil s, fun _ => nofun⟩
  | cons c cs ih =>
      have hhead : Scalar.isFinite (Scalar.arctanh
          (finite c / Scalar.sqrt (Scalar.one - finite s))) = true ↔
            s < 1 ∧ c / √(1 - s) ∈ Set.Ioo (-1) 1 := by
        simp only [isFinite_arctanh_iff, div_sqrt_eq_finite_iff]
        exact ⟨fun ⟨z, hz, hs, heq⟩ => ⟨hs, heq ▸ hz⟩, fun ⟨hs, hz⟩ => ⟨_, hz, hs, rfl⟩⟩
      rw [proper_cons, ← ih, List.map_cons, partialCorrelations, List.forall_mem_cons, hhead,
        mul_finite, add_finite]

/-!
# Accepted matrices
-/

/-- Every leading block of the lower triangle stays positive definite with a one at the end of its
diagonal. -/
def HasUnitBlocks (n : Nat) (t : Tensor ℝ) : Prop :=
  forall i, i < n -> (leading (fun j k => t.get [j, k]) i).PosDef

/-- A matrix that the inverse of the correlation constraint accepts has a factor, off whose rows
the free vector is read.  All radicands are positive and all partial correlations lie between minus
one and one if and only if the matrix has unit blocks, and so it is with free vectors that are
finite.  Whenever no entry of the diagonal is above one, the matrix has unit blocks. -/
theorem proper_iff_of_inverse_correlation {t : Tensor ℝ} {n : Nat} {lower upper : ℝ} {x : List ℝ}
    (ht : t.shape = [n, n]) (h : correlation.inverse lower upper t = .ok x) :
    ∃ l, factorOf t = .ok (ofTensor t [], l) ∧
      x = (partialRows l).flatten.map Scalar.arctanh ∧
      ((forall row, row ∈ l -> Proper 0 row.dropLast) ↔ HasUnitBlocks n t) ∧
      (forall l u : Extended, ∃ free, correlation.inverse l u (t.map finite) = .ok free ∧
        ((forall z, z ∈ free -> Scalar.isFinite z = true) ↔ HasUnitBlocks n t)) ∧
      ((forall i, i < n -> t.get [i, i] ≤ 1) -> HasUnitBlocks n t) := by
  rcases inverseCorrelation_eq_ok_iff.mp h with ⟨rows, l, hfactor, hdiagonal, rfl⟩
  rcases factors_of_factorOf ht hfactor with ⟨rfl, hl, rfl⟩
  have hproper : (forall row, row ∈ l -> Proper 0 row.dropLast) ↔ HasUnitBlocks l.length t :=
    proper_factor_iff hl
  refine ⟨l, hfactor, ?_, hproper, ?_, ?_⟩
  · unfold partialRows
    rw [List.flatMap_def, Scalar.zero_real]
  · intro lower' upper'
    have hfinite := factorOf_finite ht
    rw [hfactor] at hfinite
    have hdiagonal' := (hasUnitDiagonal_finite _).trans hdiagonal
    refine ⟨_, inverseCorrelation_eq_ok_iff.mpr ⟨_, _, hfinite, hdiagonal', rfl⟩, ?_⟩
    have hrow : forall row : List ℝ,
        (forall z, z ∈ partialCorrelations Scalar.zero (row.map finite).dropLast ->
          Scalar.isFinite (Scalar.arctanh z) = true) ↔ Proper 0 row.dropLast := by
      intro row
      rw [← List.map_dropLast, zero_finite, Scalar.zero_real, isFinite_partialCorrelations_iff]
    rw [← hproper]
    simp only [List.forall_mem_map, List.forall_mem_flatMap, hrow]
  · intro hle
    exact hproper.mp (proper_of_diagonal_le hl hle)

noncomputable section

theorem isFactor_two {x y z : ℝ} (hx : 0 < x) (hz : 0 < z) : IsFactor [[x], [y, z]] := by
  intro i r hr
  match i, hr with
  | 0, hr =>
      cases hr
      exact ⟨[], x, rfl, rfl, hx⟩
  | 1, hr =>
      cases hr
      exact ⟨[y], z, rfl, rfl, hz⟩

/-- A correlation matrix with two rows. -/
def correlated : Tensor ℝ :=
  ⟨[2, 2], #[1, 3 / 5, 3 / 5, 1], rfl⟩

theorem proper_iff_of_inverse_correlation_two : correlated.shape = [2, 2] ∧
    ∃ x l, correlation.inverse 0 0 correlated = .ok x ∧
      factorOf correlated = .ok (ofTensor correlated [], l) ∧
        (forall row, row ∈ l -> Proper 0 row.dropLast) ∧
        ∃ free, correlation.inverse (infinite true) (infinite false) (correlated.map finite) =
          .ok free ∧ forall z, z ∈ free -> Scalar.isFinite z = true := by
  have hunit : IsUnitFactor [[1], [3 / 5, 4 / 5]] := by
    refine ⟨isFactor_two one_pos (by norm_num), ?_⟩
    simp only [List.forall_mem_cons, dot_cons, dot_nil]
    norm_num
  have hrows : ofTensor correlated [] = gram [[1], [3 / 5, 4 / 5]] := by
    change [[1, 3 / 5], [3 / 5, 1]] = [[dot _ _, dot _ _], [dot _ _, dot _ _]]
    simp only [dot_cons, dot_nil, dot_comm _ []]
    norm_num
  have hinverse : correlation.inverse 0 0 correlated = .ok _ :=
    inverseCorrelation_gram (t := correlated) hunit rfl hrows
  rcases proper_iff_of_inverse_correlation rfl hinverse with
    ⟨l, hfactor, hx, hproper, hfinite, hdiagonal⟩
  have hleading := hdiagonal (by
    intro i hi
    match i, hi with
    | 0, _ => exact le_refl (1 : ℝ)
    | 1, _ => exact le_refl (1 : ℝ))
  rcases hfinite (infinite true) (infinite false) with ⟨free, hfree, hiff⟩
  exact ⟨rfl, _, l, hinverse, hfactor, hproper.mpr hleading, free, hfree, hiff.mpr hleading⟩

def rounded : Tensor ℝ :=
  ⟨[2, 2], #[1, 1, 1, 1 + 1 / 1000000], rfl⟩

/-- It is accepted, and its partial correlation is one. -/
theorem not_proper_rounded : ¬forall (n : Nat) (t : Tensor ℝ) (x : List ℝ), 2 ≤ n ->
    t.shape = [n, n] -> correlation.inverse 0 0 t = .ok x ->
      ∃ l, factorOf t = .ok (ofTensor t [], l) ∧ forall row, row ∈ l -> Proper 0 row.dropLast := by
  have hfactor : IsFactor [[1], [1, 1 / 1000]] := isFactor_two one_pos (by norm_num)
  have hrows : ofTensor rounded [] = gram [[1], [1, 1 / 1000]] := by
    change [[1, 1], [1, 1 + 1 / 1000000]] = [[dot _ _, dot _ _], [dot _ _, dot _ _]]
    simp only [dot_cons, dot_nil, dot_comm _ []]
    norm_num
  have hdiagonal : hasUnitDiagonal (ofTensor rounded []) = true := by
    have hclose : isClose (1 + 1 / 1000000 : ℝ) 1 = true := by
      rw [isClose_iff]
      norm_num
    change (isClose (1 : ℝ) Scalar.one &&
      (isClose (1 + 1 / 1000000 : ℝ) Scalar.one && true)) = true
    rw [Scalar.one_real, isClose_self, hclose]
    rfl
  have hfactorOf := factorOf_gram (t := rounded) hfactor rfl hrows
  rw [← hrows] at hfactorOf
  intro hall
  rcases hall 2 rounded _ (le_refl 2) rfl
    (inverseCorrelation_eq_ok_iff.mpr ⟨_, _, hfactorOf, hdiagonal, rfl⟩) with ⟨l, hl, hproper⟩
  rw [hfactorOf] at hl
  cases hl
  have hrow := hproper [1, 1 / 1000] (by simp)
  have hone := (proper_iff one_pos).mp hrow
  simp [dot_cons, dot_nil] at hone

end

end Constraint
end DensityGraph
