import DensityGraph.Proofs.Constraint.Factor
import DensityGraph.Proofs.Constraint.Triangle
/-!
# Correlation matrices

The rows of the Cholesky factor of a correlation matrix are unit vectors.  Each of them has
one list of partial correlations in the interval from `-1` to `1`, and these lists fill a
strict triangle.  Hence free vectors and correlation matrices correspond to each other.
-/

namespace DensityGraph
namespace Constraint

open Rows

/-!
# Rows of unit length
-/

theorem one_sub_sumsq {s : ℝ} (hs : s ≤ 1) (z : ℝ) :
    1 - (s + z * √(1 - s) * (z * √(1 - s))) = (1 - s) * (1 - z * z) := by
  have hroot : √(1 - s) * √(1 - s) = 1 - s := Real.mul_self_sqrt (sub_nonneg.mpr hs)
  calc 1 - (s + z * √(1 - s) * (z * √(1 - s)))
      = 1 - s - z * z * (√(1 - s) * √(1 - s)) := by ring
    _ = (1 - s) * (1 - z * z) := by rw [hroot]; ring

theorem mul_self_lt_one {z : ℝ} (hz : z ∈ Set.Ioo (-1) 1) : z * z < 1 := by
  nlinarith [hz.1, hz.2]

theorem div_sqrt_mem_Ioo_iff {s c : ℝ} (hs : s < 1) :
    c / √(1 - s) ∈ Set.Ioo (-1) 1 ↔ s + c * c < 1 := by
  have hroot : 0 < √(1 - s) := Real.sqrt_pos.mpr (sub_pos.mpr hs)
  rw [Set.mem_Ioo, ← abs_lt, abs_div, abs_of_pos hroot, div_lt_one hroot,
    Real.lt_sqrt (abs_nonneg c), sq_abs, pow_two]
  constructor
  · intro h
    linarith
  · intro h
    linarith

theorem unitRow_nil (s : ℝ) : unitRow s [] = [√(1 - s)] := by
  unfold unitRow
  rw [Scalar.one_real]
  rfl

theorem unitRow_cons (s z : ℝ) (zs : List ℝ) :
    unitRow s (z :: zs) =
      z * √(1 - s) :: unitRow (s + z * √(1 - s) * (z * √(1 - s))) zs := by
  rw [unitRow, Scalar.one_real]
  rfl

theorem partialCorrelations_cons (s c : ℝ) (cs : List ℝ) :
    partialCorrelations s (c :: cs) = c / √(1 - s) :: partialCorrelations (s + c * c) cs := by
  rw [partialCorrelations, Scalar.one_real]
  rfl

/-- Partial correlations make a row with a positive last entry, which fills up the sum of
the squares to one, and are read off the row again. -/
theorem unitRow_spec {zs : List ℝ} (hzs : forall z, z ∈ zs -> z ∈ Set.Ioo (-1 : ℝ) 1) {s : ℝ}
    (hs : s < 1) : ∃ cs d, unitRow s zs = cs ++ [d] ∧ cs.length = zs.length ∧ 0 < d ∧
      dot cs cs + d * d = 1 - s ∧ partialCorrelations s cs = zs := by
  -- The sum of the squares so far stays below one, so that no root is zero.
  induction zs generalizing s with
  | nil =>
      have hpos : 0 < 1 - s := sub_pos.mpr hs
      refine ⟨[], √(1 - s), unitRow_nil s, rfl, Real.sqrt_pos.mpr hpos, ?_, rfl⟩
      rw [dot_nil, zero_add, Real.mul_self_sqrt hpos.le]
  | cons z zs ih =>
      have hz := mul_self_lt_one (hzs z (List.mem_cons_self ..))
      have hpos : 0 < 1 - s := sub_pos.mpr hs
      have hsum := one_sub_sumsq hs.le z
      have hs' : s + z * √(1 - s) * (z * √(1 - s)) < 1 := by
        rw [← sub_pos, hsum]
        exact mul_pos hpos (sub_pos.mpr hz)
      rcases ih (fun z' hz' => hzs z' (List.mem_cons_of_mem _ hz')) hs' with
        ⟨cs, d, hrow, hlength, hd, hdot, hpartial⟩
      refine ⟨z * √(1 - s) :: cs, d, ?_, ?_, hd, ?_, ?_⟩
      · rw [unitRow_cons, hrow, List.cons_append]
      · rw [List.length_cons, List.length_cons, hlength]
      · rw [dot_cons, add_assoc, hdot]
        ring
      · rw [partialCorrelations_cons, hpartial,
          mul_div_cancel_right₀ _ (ne_of_gt (Real.sqrt_pos.mpr hpos))]

/-- A row with a positive last entry is made from the partial correlations that are read off
it. -/
theorem partialCorrelations_spec {cs : List ℝ} {d s : ℝ} (hd : 0 < d)
    (h : dot cs cs + d * d = 1 - s) : unitRow s (partialCorrelations s cs) = cs ++ [d] ∧
      (partialCorrelations s cs).length = cs.length ∧
        forall z, z ∈ partialCorrelations s cs -> z ∈ Set.Ioo (-1 : ℝ) 1 := by
  have hdd := mul_pos hd hd
  induction cs generalizing s with
  | nil =>
      rw [dot_nil, zero_add] at h
      unfold partialCorrelations
      refine ⟨?_, rfl, fun _ hz => absurd hz List.not_mem_nil⟩
      rw [unitRow_nil, ← h, Real.sqrt_mul_self hd.le, List.nil_append]
  | cons c cs ih =>
      rw [dot_cons] at h
      rcases ih (s := s + c * c) (by linarith) with ⟨hrow, hlength, hrange⟩
      have hnonneg : 0 ≤ dot cs cs := dot_self_nonneg cs
      have hpos : 0 < 1 - s := by nlinarith [mul_self_nonneg c]
      have hroot : 0 < √(1 - s) := Real.sqrt_pos.mpr hpos
      have hentry : c / √(1 - s) * √(1 - s) = c := div_mul_cancel₀ _ (ne_of_gt hroot)
      have hlt : s + c * c < 1 := by linarith
      rw [partialCorrelations_cons]
      refine ⟨?_, ?_, ?_⟩
      · rw [unitRow_cons, hentry, hrow, List.cons_append]
      · rw [List.length_cons, List.length_cons, hlength]
      · intro z hz
        rcases List.mem_cons.mp hz with rfl | hz
        · exact (div_sqrt_mem_Ioo_iff (sub_pos.mp hpos)).mpr hlt
        · exact hrange z hz

/-!
# Factors of correlation matrices
-/

variable {n : Nat} {z : List ℝ}

noncomputable def unitRows (n : Nat) (z : List ℝ) : Rows ℝ :=
  (Triangle.rows n z).map (unitRow 0)

theorem gram_correlationFactor (n : Nat) (z : List ℝ) :
    gram (correlationFactor n z) = gram (unitRows n z) := by
  have hpad : correlationFactor n z = (unitRows n z).map (pad n) := by
    unfold correlationFactor unitRows
    rw [Scalar.zero_real, List.map_map]
    rfl
  rw [hpad, gram_map_pad]

theorem length_unitRows (n : Nat) (z : List ℝ) : (unitRows n z).length = n := by
  unfold unitRows
  rw [List.length_map, Triangle.length_rows]

structure IsUnitFactor (l : Rows ℝ) : Prop where
  factor : IsFactor l
  unit : forall r, r ∈ l -> dot r r = 1

theorem mem_rows (hlength : z.length = Triangle.start n) {zs : List ℝ}
    (hzs : zs ∈ Triangle.rows n z) {x : ℝ} (hx : x ∈ zs) : x ∈ z := by
  rw [← Triangle.flatten_rows hlength]
  exact List.mem_flatten_of_mem hzs hx

theorem isUnitFactor_unitRows (hz : forall x, x ∈ z -> x ∈ Set.Ioo (-1 : ℝ) 1)
    (hlength : z.length = Triangle.start n) : IsUnitFactor (unitRows n z) where
  factor := by
    intro i r hr
    unfold unitRows at hr
    rw [List.getElem?_map, Option.map_eq_some_iff] at hr
    rcases hr with ⟨zs, hzs, rfl⟩
    rcases unitRow_spec (fun x hx => hz x (mem_rows hlength (List.mem_of_getElem? hzs) hx))
      one_pos with ⟨cs, d, hrow, hcs, hd, _⟩
    exact ⟨cs, d, hrow, hcs.trans (Triangle.length_row hlength hzs), hd⟩
  unit := by
    intro r hr
    rcases List.mem_map.mp hr with ⟨zs, hzs, rfl⟩
    rcases unitRow_spec (fun x hx => hz x (mem_rows hlength hzs hx)) one_pos with
      ⟨cs, d, hrow, _, _, hdot, _⟩
    rw [hrow, dot_append rfl, dot_cons, dot_nil, add_zero, hdot, sub_zero]

/-- The partial correlations of all rows of a factor, row by row. -/
noncomputable def partialRows (l : Rows ℝ) : Rows ℝ :=
  l.map fun r => partialCorrelations 0 r.dropLast

theorem partialRows_unitRows (hz : forall x, x ∈ z -> x ∈ Set.Ioo (-1 : ℝ) 1)
    (hlength : z.length = Triangle.start n) : (partialRows (unitRows n z)).flatten = z := by
  have hrows : partialRows (unitRows n z) = Triangle.rows n z := by
    unfold partialRows unitRows
    rw [List.map_map]
    refine (List.map_congr_left ?_).trans (List.map_id _)
    intro zs hzs
    rcases unitRow_spec (fun x hx => hz x (mem_rows hlength hzs hx)) one_pos with
      ⟨cs, d, hrow, _, _, _, hpartial⟩
    rw [Function.comp_apply, hrow, List.dropLast_concat, hpartial, id_eq]
  rw [hrows, Triangle.flatten_rows hlength]

section UnitFactor

variable {l : Rows ℝ}

theorem IsUnitFactor.row (h : IsUnitFactor l) {i : Nat} {r : List ℝ} (hr : l[i]? = some r) :
    unitRow 0 (partialCorrelations 0 r.dropLast) = r ∧
      (partialCorrelations 0 r.dropLast).length = i ∧
        forall z, z ∈ partialCorrelations 0 r.dropLast -> z ∈ Set.Ioo (-1 : ℝ) 1 := by
  rcases h.factor i r hr with ⟨cs, d, rfl, hlength, hd⟩
  have hdot := h.unit _ (List.mem_of_getElem? hr)
  rw [dot_append rfl, dot_cons, dot_nil, add_zero] at hdot
  rw [List.dropLast_concat, ← hlength]
  exact partialCorrelations_spec hd (by rw [hdot, sub_zero])

theorem IsUnitFactor.map_length (h : IsUnitFactor l) :
    (partialRows l).map List.length = List.range l.length := by
  unfold partialRows
  rw [List.map_map]
  apply List.ext_getElem
  · rw [List.length_map, List.length_range]
  · intro i hi _
    rw [List.length_map] at hi
    rw [List.getElem_map, List.getElem_range]
    exact (h.row (List.getElem?_eq_getElem hi)).2.1

theorem IsUnitFactor.unitRows_eq (h : IsUnitFactor l) :
    unitRows l.length (partialRows l).flatten = l := by
  unfold unitRows
  rw [Triangle.rows_flatten h.map_length]
  unfold partialRows
  rw [List.map_map]
  refine (List.map_congr_left ?_).trans (List.map_id l)
  intro r hr
  rcases List.mem_iff_getElem?.mp hr with ⟨i, hi⟩
  exact (h.row hi).1

theorem IsUnitFactor.mem_range (h : IsUnitFactor l) {x : ℝ} (hx : x ∈ (partialRows l).flatten) :
    x ∈ Set.Ioo (-1) 1 := by
  rcases List.mem_flatten.mp hx with ⟨zs, hzs, hxs⟩
  rcases List.mem_map.mp hzs with ⟨r, hr, rfl⟩
  rcases List.mem_iff_getElem?.mp hr with ⟨i, hi⟩
  exact (h.row hi).2.2 x hxs

end UnitFactor

/-!
# Correlation matrices
-/

/-- Symmetric positive definite matrices with a unit diagonal. -/
structure IsCorrelation (n : Nat) (t : Tensor ℝ) : Prop where
  shape : t.shape = [n, n]
  posDef : (Matrix.of fun i j : Fin n => t.get [i, j]).PosDef
  diagonal : forall i, i < n -> t.get [i, i] = 1

variable {t : Tensor ℝ} {l : Rows ℝ}

theorem hasUnitDiagonal_gram (h : IsUnitFactor l) : hasUnitDiagonal (gram l) = true := by
  unfold hasUnitDiagonal
  rw [length_gram, List.all_eq_true]
  intro i hi
  rw [List.mem_range] at hi
  rw [get_gram hi hi, h.unit _ (List.getElem_mem hi), Scalar.one_real]
  exact isClose_self _

theorem inverseCorrelation_eq_ok_iff {α : Type} [Scalar α] {t : Tensor α} {x : List α} :
    inverseCorrelation t = .ok x ↔ ∃ rows l, factorOf t = .ok (rows, l) ∧
      hasUnitDiagonal rows = true ∧
        x = (l.flatMap fun row => partialCorrelations Scalar.zero row.dropLast).map
          Scalar.arctanh := by
  unfold inverseCorrelation
  constructor
  · intro h
    cases hfactor : factorOf t with
    | error e =>
        rw [hfactor] at h
        cases h
    | ok p =>
        rw [hfactor] at h
        change (do
          unless hasUnitDiagonal p.1 do throw Misfit.noUnitDiagonal
          return _) = _ at h
        cases hdiagonal : hasUnitDiagonal p.1 with
        | false =>
            rw [hdiagonal] at h
            cases h
        | true =>
            rw [hdiagonal] at h
            exact ⟨p.1, p.2, rfl, hdiagonal, (Except.ok.inj h).symm⟩
  · rintro ⟨rows, l, hfactor, hdiagonal, rfl⟩
    rw [hfactor]
    change (do
      unless hasUnitDiagonal rows do throw Misfit.noUnitDiagonal
      return _) = _
    rw [hdiagonal]
    rfl

theorem inverseCorrelation_gram (h : IsUnitFactor l) (hshape : t.shape = [l.length, l.length])
    (hrows : ofTensor t [] = gram l) :
    inverseCorrelation t = .ok ((partialRows l).flatten.map Scalar.arctanh) := by
  refine inverseCorrelation_eq_ok_iff.mpr
    ⟨_, _, factorOf_gram h.factor hshape hrows, hasUnitDiagonal_gram h, ?_⟩
  rw [Scalar.zero_real, List.flatMap_def]
  rfl

theorem isCorrelation_of_factor (h : IsUnitFactor l) (hn : l.length = n)
    (hshape : t.shape = [n, n])
    (hget : forall i j, i < n -> j < n -> t.get [i, j] = (gram l).get i j) :
    IsCorrelation n t where
  shape := hshape
  posDef := (isCovariance_of_factor h.factor hn hshape hget).posDef
  diagonal := by
    intro i hi
    rw [hget i i hi hi, get_gram (hn ▸ hi) (hn ▸ hi), h.unit _ (List.getElem_mem _)]

theorem IsCorrelation.exists_factor (h : IsCorrelation n t) :
    ∃ l, IsUnitFactor l ∧ l.length = n ∧
      forall i j, i < n -> j < n -> t.get [i, j] = (gram l).get i j := by
  rcases IsCovariance.exists_factor ⟨h.shape, h.posDef⟩ with ⟨l, hfactor, rfl, hget⟩
  refine ⟨l, ⟨hfactor, ?_⟩, rfl, hget⟩
  intro r hr
  rcases List.getElem_of_mem hr with ⟨i, hi, rfl⟩
  rw [← get_gram hi hi, ← hget i i hi hi, h.diagonal i hi]

/-!
# Free vectors and correlation matrices
-/

theorem makesMatrices_correlation (lower upper : ℝ) {m : Nat} (hm : 1 ≤ m) :
    MakesMatrices correlation lower upper (Triangle.size m) (m + 1) (correlationMatrix (m + 1)) := by
  intro x hx
  unfold forward sideOf
  rw [hx]
  simp only [Triangle.root?_size hm]
  rfl

theorem forward_vector (lower upper : ℝ) {m : Nat} (hm : 1 ≤ m) {x : List ℝ}
    (hx : x.length = Triangle.size m) :
    ∃ t, correlation.forward lower upper (Tensor.vector x) = .ok t ∧ t.shape = [m + 1, m + 1] ∧
      ofTensor t [] = gram (unitRows (m + 1) (x.map Real.tanh)) :=
  (makesMatrices_correlation lower upper hm).vector hx
    (gram_correlationFactor (m + 1) (x.map Real.tanh)) (length_unitRows _ _)

theorem forward_batch (lower upper : ℝ) {b m : Nat} (hm : 1 ≤ m) {x : Tensor ℝ}
    (hx : x.shape = [b, Triangle.size m]) :
    ∃ t, correlation.forward lower upper x = .ok t ∧ t.shape = [b, m + 1, m + 1] ∧
      forall r, r < b ->
        correlation.forward lower upper (Tensor.vector (x.row r).toList) = .ok (t.row r) :=
  (makesMatrices_correlation lower upper hm).batch hx

theorem tanh_mem_Ioo (v : ℝ) : Real.tanh v ∈ Set.Ioo (-1) 1 :=
  ⟨Real.neg_one_lt_tanh v, Real.tanh_lt_one v⟩

theorem mem_Ioo_of_mem_map {x : List ℝ} {z : ℝ} (hz : z ∈ x.map Real.tanh) :
    z ∈ Set.Ioo (-1 : ℝ) 1 := by
  rcases List.mem_map.mp hz with ⟨v, _, rfl⟩
  exact tanh_mem_Ioo v

theorem map_arctanh_tanh (x : List ℝ) : (x.map Real.tanh).map Scalar.arctanh = x := by
  rw [List.map_map]
  refine (List.map_congr_left ?_).trans (List.map_id x)
  intro v _
  rw [Function.comp_apply, Scalar.arctanh_real (tanh_mem_Ioo v), Real.artanh_tanh, id_eq]

theorem map_tanh_arctanh {z : List ℝ} (hz : forall v, v ∈ z -> v ∈ Set.Ioo (-1 : ℝ) 1) :
    (z.map Scalar.arctanh).map Real.tanh = z := by
  rw [List.map_map]
  refine (List.map_congr_left ?_).trans (List.map_id z)
  intro v hv
  rw [Function.comp_apply, Scalar.arctanh_real (hz v hv), Real.tanh_artanh (hz v hv), id_eq]

theorem inverse_forward (lower upper : ℝ) {m : Nat} (hm : 1 ≤ m) {x : List ℝ}
    (hx : x.length = Triangle.size m) :
    ∃ t, correlation.forward lower upper (Tensor.vector x) = .ok t ∧ IsCorrelation (m + 1) t ∧
      correlation.inverse lower upper t = .ok x := by
  rcases forward_vector lower upper hm hx with ⟨t, hforward, hshape, hrows⟩
  have hlength : (x.map Real.tanh).length = Triangle.start (m + 1) := by
    rw [List.length_map, hx, Triangle.start_succ_eq_size]
  have hunit := isUnitFactor_unitRows (fun _ => mem_Ioo_of_mem_map) hlength
  have hn := length_unitRows (m + 1) (x.map Real.tanh)
  refine ⟨t, hforward, isCorrelation_of_factor hunit hn hshape ?_, ?_⟩
  · intro i j hi hj
    rw [← hrows, Tensor.get_ofTensor hshape hi hj]
  · change inverseCorrelation t = _
    rw [inverseCorrelation_gram hunit (by rw [hn, hshape]) hrows,
      partialRows_unitRows (fun _ => mem_Ioo_of_mem_map) hlength, map_arctanh_tanh]

theorem exists_forward (lower upper : ℝ) {m : Nat} (hm : 1 ≤ m) {t : Tensor ℝ}
    (ht : IsCorrelation (m + 1) t) : ∃ x : List ℝ, x.length = Triangle.size m ∧
      correlation.forward lower upper (Tensor.vector x) = .ok t := by
  rcases ht.exists_factor with ⟨l, hunit, hn, hget⟩
  have hlength : ((partialRows l).flatten.map Scalar.arctanh).length = Triangle.size m := by
    rw [List.length_map, Triangle.length_flatten hunit.map_length, hn, Triangle.start_succ_eq_size]
  rcases forward_vector lower upper hm hlength with ⟨u, hforward, hshape, hrows⟩
  rw [map_tanh_arctanh fun _ => hunit.mem_range, ← hn, hunit.unitRows_eq] at hrows
  have heq : t = u := by
    apply Tensor.ext_square ht.shape hshape
    intro i j hi hj
    rw [hget i j hi hj, ← hrows, Tensor.get_ofTensor hshape hi hj]
  exact ⟨_, hlength, heq ▸ hforward⟩

/-- Free vectors of length `n * (n - 1) / 2` correspond one to one to correlation matrices with
`n` rows.  The map of the constraint goes one way, and its inverse goes back.  A batch of free
vectors goes the same way, one by one. -/
theorem exists_correlation_equiv {n : Nat} (hn : 2 ≤ n) (lower upper : ℝ) :
    ∃ e : {x : List ℝ // x.length = n * (n - 1) / 2} ≃ {t : Tensor ℝ // IsCorrelation n t},
      (forall x, correlation.forward lower upper (Tensor.vector x.1) = .ok (e x).1) ∧
        (forall t, correlation.inverse lower upper t.1 = .ok (e.symm t).1) ∧
        forall b x, x.shape = [b, n * (n - 1) / 2] ->
          ∃ t, correlation.forward lower upper x = .ok t ∧ t.shape = [b, n, n] ∧
            forall r, r < b ->
              correlation.forward lower upper (Tensor.vector (x.row r).toList) = .ok (t.row r) := by
  rcases Nat.exists_eq_add_of_le' hn with ⟨k, rfl⟩
  have hm : 1 ≤ k + 1 := Nat.le_add_left 1 k
  have hsize : (k + 2) * (k + 2 - 1) / 2 = Triangle.size (k + 1) :=
    Triangle.half_mul_pred (k + 1)
  rw [hsize]
  choose f hforward hcorrelation hinverse using
    fun x : {x : List ℝ // x.length = Triangle.size (k + 1)} =>
      inverse_forward lower upper hm x.2
  have hbijective : Function.Bijective fun x => (⟨f x, hcorrelation x⟩ :
      {t : Tensor ℝ // IsCorrelation (k + 2) t}) := by
    constructor
    · intro x y hxy
      have hsame := hinverse x
      rw [Subtype.mk.inj hxy, hinverse y] at hsame
      exact Subtype.ext (Except.ok.inj hsame).symm
    · rintro ⟨t, ht⟩
      rcases exists_forward lower upper hm ht with ⟨x, hx, hvalue⟩
      have hsame := hforward ⟨x, hx⟩
      rw [hvalue] at hsame
      exact ⟨⟨x, hx⟩, Subtype.ext (Except.ok.inj hsame).symm⟩
  refine ⟨Equiv.ofBijective _ hbijective, hforward, ?_, fun b x => forward_batch lower upper hm⟩
  intro t
  rcases hbijective.2 t with ⟨x, rfl⟩
  rw [Equiv.ofBijective_symm_apply_apply]
  exact hinverse x

theorem exists_correlation_equiv_three : 2 ≤ 3 ∧
    ∃ e : {x : List ℝ // x.length = 3} ≃ {t : Tensor ℝ // IsCorrelation 3 t},
      (forall x, correlation.forward 0 0 (Tensor.vector x.1) = .ok (e x).1) ∧
        (forall t, correlation.inverse 0 0 t.1 = .ok (e.symm t).1) ∧
          ∃ t, correlation.forward 0 0 (Tensor.full [2, 3] (0 : ℝ)) = .ok t ∧
            t.shape = [2, 3, 3] := by
  rcases exists_correlation_equiv (show 2 ≤ 3 by decide) 0 0 with
    ⟨e, hforward, hinverse, hbatch⟩
  rcases hbatch 2 (Tensor.full [2, 3] 0) rfl with ⟨t, ht, hshape, _⟩
  exact ⟨by decide, e, hforward, hinverse, t, ht, hshape⟩

end Constraint
end DensityGraph
