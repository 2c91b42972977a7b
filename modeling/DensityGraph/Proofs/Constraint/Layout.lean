import Mathlib.Data.Set.Function
import DensityGraph.Proofs.Constraint.Jacobian
import DensityGraph.Proofs.Constraint.Lengths
/-!
# The layout of free vectors

Three functions read or write the free vector of a correlation matrix: the map takes its rows
from the front, the logarithm of the Jacobian looks up the column of each position, and the
inverse appends row after row.  All of them number the cells below the diagonal in the same
way, and they find the number of rows from the length alone.
-/

namespace DensityGraph

/-!
# Positions
-/

namespace Triangle

variable {α : Type} {i j n : Nat} {r : List α} {rs : List (List α)}

def position (i j : Nat) : Nat :=
  i * (i - 1) / 2 + j

theorem half_mul_pred_eq_start (n : Nat) : n * (n - 1) / 2 = start n := by
  cases n with
  | zero => rfl
  | succ m => rw [half_mul_pred, start_succ_eq_size]

theorem position_eq (i j : Nat) : position i j = start i + j :=
  congrArg (· + j) (half_mul_pred_eq_start i)

theorem bijOn_position (n : Nat) :
    Set.BijOn (fun cell : Nat × Nat => position cell.1 cell.2)
      {cell | cell.2 < cell.1 ∧ cell.1 < n} (Set.Iio (start n)) := by
  refine ⟨?_, ?_, ?_⟩
  · rintro ⟨i, j⟩ ⟨hj, hi⟩
    have hle := start_le hi
    change position i j < start n
    rw [position_eq]
    exact Nat.lt_of_lt_of_le (Nat.add_lt_add_left hj _) hle
  · rintro ⟨i, j⟩ ⟨hj, hi⟩ ⟨i', j'⟩ ⟨hj', hi'⟩ heq
    have hcell := getElem?_cells.mpr ⟨hj, hi, position_eq i j⟩
    have hcell' := getElem?_cells.mpr ⟨hj', hi', position_eq i' j'⟩
    change position i j = position i' j' at heq
    rw [heq] at hcell
    exact Option.some.inj (hcell.symm.trans hcell')
  · intro p hp
    rcases exists_cell rfl ⟨p, hp⟩ with ⟨i, j, _, hj, hi, heq⟩
    exact ⟨(i, j), ⟨hj, hi⟩, (position_eq i j).trans heq.symm⟩

theorem getElem?_flatten (h : rs.map List.length = List.range n) (hr : rs[i]? = some r)
    (hj : j < i) : rs.flatten[position i j]? = r[j]? := by
  have hi : i < n := by
    have hlength := congrArg List.length h
    rw [List.length_map, List.length_range] at hlength
    rw [← hlength]
    exact (List.getElem?_eq_some_iff.mp hr).1
  have hrow := getElem?_rows hi rs.flatten
  rw [rows_flatten h, hr] at hrow
  rw [Option.some.inj hrow, List.getElem?_take_of_lt hj, List.getElem?_drop, position_eq]

/-!
# Numbers of rows
-/

theorem root?_of_eq_half {k m : Nat} (hk : 1 ≤ k) (h : k = m * (m + 1) / 2) :
    root? k = some m := by
  have hm : 1 ≤ m := by
    refine Nat.pos_of_ne_zero ?_
    rintro rfl
    exact absurd hk (by rw [h]; decide)
  rw [h]
  exact root?_size hm

theorem root?_eq_some_iff_half {k m : Nat} (hk : 1 ≤ k) (hlt : k < 6896136988131329) :
    root? k = some m ↔ k = m * (m + 1) / 2 := by
  constructor
  · intro hroot
    exact ((root?_eq_some_iff hlt).mp hroot).2
  · exact root?_of_eq_half hk

theorem root?_eq_none_iff {k : Nat} (hlt : k < 6896136988131329) :
    root? k = none ↔ forall m, 1 ≤ m -> k ≠ m * (m + 1) / 2 := by
  rw [Option.eq_none_iff_forall_ne_some]
  constructor
  · intro h m hm hk
    exact h m ((root?_eq_some_iff hlt).mpr ⟨hm, hk⟩)
  · intro h m hroot
    rcases (root?_eq_some_iff hlt).mp hroot with ⟨hm, hk⟩
    exact h m hm hk

theorem root_eq_iff_half {k m : Nat} :
    (√(8 * (k : ℝ) + 1) - 1) / 2 = m ↔ k = m * (m + 1) / 2 := by
  have hcast : 8 * (k : ℝ) + 1 = (2 * m + 1) * (2 * m + 1) ↔
      8 * k + 1 = (2 * m + 1) * (2 * m + 1) := by
    exact_mod_cast Iff.rfl
  have hroot : (√(8 * (k : ℝ) + 1) - 1) / 2 = m ↔ √(8 * (k : ℝ) + 1) = 2 * m + 1 := by
    constructor
    · intro h
      linarith
    · intro h
      linarith
  rw [hroot, Real.sqrt_eq_iff_mul_self_eq (by positivity) (by positivity), hcast,
    half_mul_succ, ← eight_mul_size]
  omega

end Triangle

namespace Constraint

open Rows

/-!
# The layout of the factor
-/

section Factor

variable {n i j : Nat} {z : List ℝ}

/-- Each entry of a row is a partial correlation times what the entries in front of it leave
over; the last one takes all of it. -/
theorem getD_unitRow (s : ℝ) (zs : List ℝ) (j : Nat) :
    (unitRow s zs).getD j 0 = (zs ++ [1]).getD j 0 *
      √(1 - (s + ∑ m ∈ Finset.range j, (unitRow s zs).getD m 0 ^ 2)) := by
  induction zs generalizing s j with
  | nil =>
      rw [unitRow_nil]
      cases j with
      | zero => simp
      | succ j => simp
  | cons z zs ih =>
      rw [unitRow_cons]
      cases j with
      | zero => simp
      | succ j =>
          rw [Finset.sum_range_succ']
          simp only [List.getD_cons_succ, List.getD_cons_zero, List.cons_append]
          rw [ih, pow_two (z * √(1 - s)), add_comm (Finset.sum _ _), add_assoc]

theorem getD_pad (n j : Nat) (row : List ℝ) : (pad n row).getD j 0 = row.getD j 0 := by
  unfold pad
  rw [Scalar.zero_real]
  rcases Nat.lt_or_ge j row.length with hj | hj
  · exact List.getD_append _ _ _ _ hj
  · rw [List.getD_append_right _ _ _ _ hj, List.getD_eq_default _ _ hj]
    rw [List.getD_eq_getElem?_getD, List.getElem?_getD_replicate_default_eq]

theorem get_correlationFactor (hi : i < n) (j : Nat) :
    (correlationFactor n z).get i j =
      (unitRow 0 ((z.drop (Triangle.start i)).take i)).getD j 0 := by
  have hrow : (correlationFactor n z)[i]? =
      some (pad n (unitRow 0 ((z.drop (Triangle.start i)).take i))) := by
    unfold correlationFactor
    rw [List.getElem?_map, Triangle.getElem?_rows hi, Option.map_some, Scalar.zero_real]
  unfold Rows.get
  rw [List.getD_eq_getElem?_getD (l := correlationFactor n z), hrow, Option.getD_some,
    Scalar.zero_real, getD_pad]

structure Fills (n : Nat) (z : List ℝ) (l : Rows ℝ) : Prop where
  length : l.length = n
  width : forall r, r ∈ l -> r.length = n
  below : forall i j, j < i -> i < n -> l.get i j =
    z.getD (Triangle.position i j) 0 * √(1 - ∑ m ∈ Finset.range j, l.get i m ^ 2)
  diagonal : forall i, i < n -> l.get i i = √(1 - ∑ m ∈ Finset.range i, l.get i m ^ 2)
  above : forall i j, i < j -> i < n -> l.get i j = 0

theorem length_unitRow (s : ℝ) (zs : List ℝ) : (unitRow s zs).length = zs.length + 1 := by
  induction zs generalizing s with
  | nil => rw [unitRow_nil, List.length_singleton, List.length_nil]
  | cons z zs ih => rw [unitRow_cons, List.length_cons, ih, List.length_cons]

theorem fills_correlationFactor (hz : z.length = Triangle.start n) :
    Fills n z (correlationFactor n z) := by
  have hslice : forall i, i < n -> ((z.drop (Triangle.start i)).take i).length = i := by
    intro i hi
    exact Triangle.length_row hz (Triangle.getElem?_rows hi z)
  have hget : forall i j, i < n -> (correlationFactor n z).get i j =
      ((z.drop (Triangle.start i)).take i ++ [1]).getD j 0 *
        √(1 - ∑ m ∈ Finset.range j, (correlationFactor n z).get i m ^ 2) := by
    intro i j hi
    simp only [get_correlationFactor hi]
    rw [getD_unitRow, zero_add]
  refine ⟨?_, ?_, ?_, ?_, ?_⟩
  · unfold correlationFactor
    rw [List.length_map, Triangle.length_rows]
  · intro r hr
    rcases List.mem_map.mp hr with ⟨zs, hzs, rfl⟩
    rcases List.getElem_of_mem hzs with ⟨i, hi, rfl⟩
    have hlength := Triangle.length_row hz (List.getElem?_eq_getElem hi)
    rw [Triangle.length_rows] at hi
    unfold pad
    rw [List.length_append, List.length_replicate, Scalar.zero_real, length_unitRow, hlength]
    omega
  · intro i j hj hi
    have hle := hslice i hi
    rw [hget i j hi, List.getD_append _ _ _ _ (by omega)]
    congr 1
    rw [List.getD_eq_getElem?_getD, List.getD_eq_getElem?_getD, List.getElem?_take_of_lt hj,
      List.getElem?_drop, Triangle.position_eq]
  · intro i hi
    rw [hget i i hi, List.getD_append_right _ _ _ _ (hslice i hi).le, hslice i hi, Nat.sub_self,
      List.getD_cons_zero, one_mul]
  · intro i j hj hi
    rw [hget i j hi, List.getD_eq_default, zero_mul]
    rw [List.length_append, hslice i hi, List.length_singleton]
    exact hj

end Factor

/-!
# The layout of the inverse
-/

section Inverse

variable {n k : Nat} {lower upper : ℝ}

theorem getElem?_partialCorrelations (s : ℝ) (cs : List ℝ) (j : Nat) :
    (partialCorrelations s cs)[j]? =
      cs[j]?.map (· / √(1 - (s + ∑ m ∈ Finset.range j, cs.getD m 0 ^ 2))) := by
  induction cs generalizing s j with
  | nil => rfl
  | cons c cs ih =>
      rw [partialCorrelations_cons]
      cases j with
      | zero => simp
      | succ j =>
          rw [Finset.sum_range_succ']
          simp only [List.getD_cons_succ, List.getD_cons_zero, List.getElem?_cons_succ]
          rw [ih, pow_two c, add_comm (Finset.sum _ _), add_assoc]

structure ReadsFactor (n : Nat) (y : Tensor ℝ) (v : List ℝ) (l : Rows ℝ) : Prop where
  length : l.length = n
  factors : Factors l fun i j => y.get [i, j]
  entry : forall i j, j < i -> i < n -> v[Triangle.position i j]? =
    some (Scalar.arctanh (l.get i j / √(1 - ∑ m ∈ Finset.range j, l.get i m ^ 2)))

theorem getElem?_flatMap_partialCorrelations {l : Rows ℝ} (h : IsFactor l) {i j : Nat} (hj : j < i)
    (hi : i < l.length) :
    (l.flatMap fun row => partialCorrelations 0 row.dropLast)[Triangle.position i j]? =
      some (l.get i j / √(1 - ∑ m ∈ Finset.range j, l.get i m ^ 2)) := by
  have hlengths : (l.map fun row => partialCorrelations 0 row.dropLast).map List.length =
      List.range l.length := by
    apply List.ext_getElem
    · rw [List.length_map, List.length_map, List.length_range]
    · intro i hi _
      rw [List.length_map, List.length_map] at hi
      rw [List.getElem_map, List.getElem_map, List.getElem_range, length_partialCorrelations,
        List.length_dropLast, h.length_row hi, Nat.add_sub_cancel]
  have hrow : (l.map fun row => partialCorrelations 0 row.dropLast)[i]? =
      some (partialCorrelations 0 l[i].dropLast) := by
    rw [List.getElem?_map, List.getElem?_eq_getElem hi, Option.map_some]
  rcases h.getElem hi with ⟨cs, d, hsplit, hcs, _⟩
  have hentry : forall m, m < i -> l.get i m = cs.getD m 0 := by
    intro m hm
    rw [get_eq hi, hsplit, List.getD_append _ _ _ _ (by omega)]
  have hsum : ∑ m ∈ Finset.range j, l.get i m ^ 2 = ∑ m ∈ Finset.range j, cs.getD m 0 ^ 2 := by
    apply Finset.sum_congr rfl
    intro m hm
    rw [hentry m ((Finset.mem_range.mp hm).trans hj)]
  have hlt : j < cs.length := by omega
  rw [List.flatMap_def, Triangle.getElem?_flatten hlengths hrow hj, hsplit, List.dropLast_concat,
    getElem?_partialCorrelations, List.getElem?_eq_getElem hlt, Option.map_some, zero_add, hsum,
    hentry j hj, List.getD_eq_getElem _ _ hlt]

theorem exists_readsFactor {y : Tensor ℝ} {v : List ℝ} (hy : y.shape = [n, n])
    (h : correlation.inverse lower upper y = .ok v) : ∃ l, ReadsFactor n y v l := by
  rcases inverseCorrelation_eq_ok_iff.mp h with ⟨rows, l, hfactor, _, rfl⟩
  rcases factors_of_factorOf hy hfactor with ⟨_, hfactors, hlength⟩
  refine ⟨l, hlength, hfactors, ?_⟩
  intro i j hj hi
  rw [← hlength] at hi
  rw [List.getElem?_map, Scalar.zero_real,
    getElem?_flatMap_partialCorrelations hfactors.factor hj hi, Option.map_some]

end Inverse

/-!
# The layout of the Jacobian
-/

section Jacobian

variable {n b : Nat} {d : Shape} {x : Tensor ℝ}

noncomputable def jacobianTerm (n j : Nat) (v : ℝ) : ℝ :=
  Real.log (1 - Real.tanh v ^ 2) +
    Scalar.half * (((n - j - 2 : Nat) : ℝ) * Real.log (1 - Real.tanh v ^ 2))

noncomputable def jacobianTerms (n : Nat) (x : Tensor ℝ) : Tensor ℝ :=
  Tensor.ofFn x.shape fun index =>
    jacobianTerm n ((Triangle.columns n).toArray.getD (index.getLastD 0) 0) (x.get index)

theorem get_jacobianTerms {batch : List Nat} {i j : Nat} (hj : j < i) (hi : i < n)
    (hindex : x.shape.Within (batch ++ [Triangle.position i j])) :
    (jacobianTerms n x).get (batch ++ [Triangle.position i j]) =
      jacobianTerm n j (x.get (batch ++ [Triangle.position i j])) := by
  unfold jacobianTerms
  rw [Tensor.get_ofFn _ hindex, List.getLastD_concat, Triangle.position_eq, getD_columns hj hi]

theorem correlationLogJacobian_eq (hx : x.shape = b :: d) :
    correlationLogJacobian n x = (jacobianTerms n x).sumEvent := by
  let logs := x.map logOneMinusTanhSquare
  let weighted := Tensor.ofFn x.shape fun index => Scalar.ofNat (correlationPower n
    ((Triangle.columns n).toArray.getD (index.getLastD 0) 0)) * logs.get index
  have hlogs : logs.shape = b :: d := hx
  have hweighted : weighted.shape = b :: d := hx
  have hterms : (jacobianTerms n x).shape = b :: d := hx
  have hshape : (correlationLogJacobian n x).shape = [b] := (Tensor.sumEvent_rows hlogs).1
  have hterm : forall index, x.shape.Within index -> (jacobianTerms n x).get index =
      logs.get index + Scalar.half * weighted.get index := by
    intro index hindex
    have hlog : logs.get index = Real.log (1 - Real.tanh (x.get index) ^ 2) := by
      rw [Tensor.get_map _ hindex, logOneMinusTanhSquare_real, pow_two]
    unfold jacobianTerms
    rw [Tensor.get_ofFn _ hindex, Tensor.get_ofFn _ hindex, hlog]
    rfl
  apply Tensor.ext_get (hshape.trans (Tensor.sumEvent_rows hterms).1.symm)
  intro index hindex
  rw [hshape] at hindex
  match index, hindex with
  | [r], ⟨hr, _⟩ =>
      have hwithin : forall q, q ∈ List.range d.size ->
          x.shape.Within (r :: d.unravel q) := by
        intro q hq
        rw [hx]
        exact ⟨hr, Shape.within_unravel (List.mem_range.mp hq)⟩
      calc (correlationLogJacobian n x).get [r]
          = logs.sumEvent.get [r] + Scalar.half * weighted.sumEvent.get [r] := by
            apply Tensor.get_ofFn
            rw [(Tensor.sumEvent_rows hlogs).1]
            exact ⟨hr, trivial⟩
        _ = ((List.range d.size).map fun q => logs.get (r :: d.unravel q) +
              Scalar.half * weighted.get (r :: d.unravel q)).sum := by
            rw [get_sumEvent_cons hlogs hr, get_sumEvent_cons hweighted hr,
              List.sum_map_add, List.sum_map_mul_left]
        _ = (jacobianTerms n x).sumEvent.get [r] := by
            rw [get_sumEvent_cons hterms hr]
            congr 1
            apply List.map_congr_left
            intro q hq
            rw [hterm _ (hwithin q hq)]

end Jacobian

/-!
# One layout
-/

section Layout

/-- What the free vectors of length `k` have to do with matrices of `n` rows. -/
structure Layout (lower upper : ℝ) (n k : Nat) : Prop where
  /-- The length is that of the declaration. -/
  freeSize : correlation.freeSize? [(n : Int), (n : Int)] = some (k : Int)
  /-- The length determines the number of rows. -/
  root : Triangle.root? k = some (n - 1)
  /-- Each position belongs to one cell below the diagonal. -/
  positions : Set.BijOn (fun cell : Nat × Nat => Triangle.position cell.1 cell.2)
    {cell | cell.2 < cell.1 ∧ cell.1 < n} (Set.Iio k)
  /-- The rows take all entries, each of them once. -/
  consumed : forall z : List ℝ, z.length = k -> (Triangle.rows n z).flatten = z
  /-- The factor has its entries at their positions. -/
  fills : forall z : List ℝ, z.length = k -> Fills n z (correlationFactor n z)
  forward : forall x : Tensor ℝ, x.shape.getLast? = some k ->
    correlation.forward lower upper x = .ok (x.mapVectors [n, n] fun v =>
      (gram (correlationFactor n (v.map Real.tanh))).flatten)
  /-- The Jacobian weighs each entry by the column of its position. -/
  logJacobian : forall x : Tensor ℝ, x.shape.getLast? = some k -> ∃ terms : Tensor ℝ,
    terms.shape = x.shape ∧
      (forall batch i j, j < i -> i < n ->
        x.shape.Within (batch ++ [Triangle.position i j]) ->
          terms.get (batch ++ [Triangle.position i j]) =
            jacobianTerm n j (x.get (batch ++ [Triangle.position i j]))) ∧
      correlation.logJacobian lower upper x = .ok terms.sumEvent
  /-- The inverse writes each partial correlation at its position. -/
  inverse : forall (y : Tensor ℝ) (v : List ℝ), y.shape = [n, n] ->
    correlation.inverse lower upper y = .ok v -> v.length = k ∧ ∃ l, ReadsFactor n y v l
  /-- The inverse finds the free vector of the map again. -/
  roundTrip : forall v : List ℝ, v.length = k -> ∃ t,
    correlation.forward lower upper (Tensor.vector v) = .ok t ∧
      correlation.inverse lower upper t = .ok v

theorem freeSize?_correlation {n : Nat} (hn : 2 ≤ n) :
    correlation.freeSize? [(n : Int), (n : Int)] = some ((Triangle.start n : Nat) : Int) := by
  have hside : squareSide? [(n : Int), (n : Int)] = some n := by
    have hle : (2 : Int) ≤ n := by exact_mod_cast hn
    unfold squareSide?
    simp [hle]
  unfold freeSize?
  rw [hside, Option.map_some, Triangle.half_mul_pred_eq_start]

theorem layout {n : Nat} (hn : 2 ≤ n) (lower upper : ℝ) :
    Layout lower upper n (Triangle.start n) := by
  rcases Nat.exists_eq_add_of_le' hn with ⟨m, rfl⟩
  have hm : 1 ≤ m + 1 := Nat.le_add_left 1 m
  have hk := Triangle.start_succ_eq_size (m + 1)
  have hroot : Triangle.root? (Triangle.start (m + 2)) = some (m + 1) := by
    rw [hk, Triangle.root?_size hm]
  exact {
    freeSize := freeSize?_correlation hn
    root := hroot
    positions := Triangle.bijOn_position (m + 2)
    consumed := fun z hz => Triangle.flatten_rows hz
    fills := fun z hz => fills_correlationFactor hz
    forward := by
      rw [hk]
      exact makesMatrices_correlation lower upper hm
    logJacobian := by
      intro x hx
      refine ⟨jacobianTerms (m + 2) x, rfl, ?_, ?_⟩
      · intro batch i j hj hi hindex
        exact get_jacobianTerms hj hi hindex
      · have hside : sideOf x = .ok (m + 1) := by
          unfold sideOf
          simp only [hx, hroot]
        match hshape : x.shape with
        | [] =>
            rw [hshape] at hx
            cases hx
        | b :: d =>
            rw [← correlationLogJacobian_eq hshape]
            unfold Constraint.logJacobian
            simp only [hside, Except.map]
    inverse := by
      intro y v hy hv
      exact ⟨length_inverseCorrelation hy hv, exists_readsFactor hy hv⟩
    roundTrip := by
      intro v hv
      rcases inverse_forward lower upper hm (hv.trans hk) with ⟨t, hforward, _, hinverse⟩
      exact ⟨t, hforward, hinverse⟩ }

theorem refuses_length {α : Type} [Scalar α] {c : Constraint}
    (hc : c = correlation ∨ c = covariance) (lower upper : α) {x : Tensor α} {k : Nat}
    (hx : x.shape.getLast? = some k) (hk : Triangle.root? k = none) :
    c.forward lower upper x = .error (.freeLength k) ∧
      c.logJacobian lower upper x = .error (.freeLength k) := by
  have hside : sideOf x = .error (.freeLength k) := by
    unfold sideOf
    simp only [hx, hk]
  rcases hc with rfl | rfl
  · unfold forward logJacobian
    simp only [hside, Except.map, and_self]
  · unfold forward logJacobian
    simp only [hside, Except.map, and_self]

/-- All that reads or writes the free vector of a correlation matrix has the same layout of it.
A triangular length is read as it should be.  Below the first length that rounding misreads, this
is said by the formula without rounding, and lengths that belong to no triangle are refused. -/
theorem layout_and_lengths (lower upper : ℝ) :
    (forall n, 2 ≤ n -> Layout lower upper n (n * (n - 1) / 2)) ∧
      (forall k m, 1 ≤ k -> k = m * (m + 1) / 2 -> Triangle.root? k = some m) ∧
      (forall k, 1 ≤ k -> k < 6896136988131329 ->
        (forall m, (Triangle.root? k = some m ↔ k = m * (m + 1) / 2) ∧
          (Triangle.root? k = some m ↔ (√(8 * (k : ℝ) + 1) - 1) / 2 = m)) ∧
        (Triangle.root? k = none ↔ forall m, k ≠ m * (m + 1) / 2)) ∧
      forall {α : Type} [Scalar α] (c : Constraint) (lower upper : α) (x : Tensor α) (k : Nat),
        c = correlation ∨ c = covariance -> x.shape.getLast? = some k -> k < 6896136988131329 ->
        (forall m, 1 ≤ m -> k ≠ m * (m + 1) / 2) ->
          c.forward lower upper x = .error (.freeLength k) ∧
            c.logJacobian lower upper x = .error (.freeLength k) ∧
            (TransformFault.freeLength k).toFailure = .invalid (.freeLength k) := by
  refine ⟨?_, fun k m => Triangle.root?_of_eq_half, ?_, ?_⟩
  · intro n hn
    rw [Triangle.half_mul_pred_eq_start]
    exact layout hn lower upper
  · intro k hk hlt
    have hroot : forall m, Triangle.root? k = some m ↔ k = m * (m + 1) / 2 :=
      fun m => Triangle.root?_eq_some_iff_half hk hlt
    refine ⟨fun m => ⟨hroot m, (hroot m).trans Triangle.root_eq_iff_half.symm⟩, ?_⟩
    rw [Option.eq_none_iff_forall_ne_some]
    exact forall_congr' fun m => not_congr (hroot m)
  · intro α _ c lower upper x k hc hx hlt hk
    rcases refuses_length hc lower upper hx ((Triangle.root?_eq_none_iff hlt).mpr hk) with
      ⟨hforward, hjacobian⟩
    exact ⟨hforward, hjacobian, rfl⟩

theorem ne_half_of_between {k : Nat} (l : Nat) (hlower : l * (l + 1) / 2 < k)
    (hupper : k < (l + 1) * (l + 1 + 1) / 2) (m : Nat) : k ≠ m * (m + 1) / 2 := by
  intro hk
  have hlt := Triangle.size_strictMono.lt_iff_lt.mp (hlower.trans_eq hk)
  have hgt := Triangle.size_strictMono.lt_iff_lt.mp (hk.symm.trans_lt hupper)
  omega

theorem layout_and_lengths_three : 2 ≤ 3 ∧ Layout 0 0 3 3 ∧ Triangle.root? 6 = some 3 ∧
    Triangle.root? 7 = none ∧
      correlation.forward 0 0 (Tensor.full [1, 4] (0 : ℝ)) = .error (.freeLength 4) ∧
        covariance.logJacobian 0 0 (Tensor.full [1, 4] (0 : ℝ)) = .error (.freeLength 4) := by
  rcases layout_and_lengths 0 0 with ⟨hlayout, hroot, hread, hrefused⟩
  have hfour := ne_half_of_between 2 (by decide : 2 * (2 + 1) / 2 < 4) (by decide)
  exact ⟨by decide, hlayout 3 (by decide), hroot 6 3 (by decide) rfl,
    (hread 7 (by decide) (by decide)).2.mpr (ne_half_of_between 3 (by decide) (by decide)),
    (hrefused correlation 0 0 _ 4 (.inl rfl) rfl (by decide) fun m _ => hfour m).1,
    (hrefused covariance 0 0 _ 4 (.inr rfl) rfl (by decide) fun m _ => hfour m).2.1⟩

/-- Rounding takes the next length behind a triangular number for this number. -/
theorem logJacobian_of_misread :
    Triangle.root? 6896136988131329 = some 117440512 ∧
      (forall m, 6896136988131329 ≠ m * (m + 1) / 2) ∧
      ∃ t, covariance.logJacobian 0 0 (Tensor.full [0, 6896136988131329] (0 : ℝ)) = .ok t := by
  refine ⟨Triangle.root?_misread.1, ne_half_of_between 117440512 (by decide) (by decide), ?_⟩
  have hside : sideOf (Tensor.full [0, 6896136988131329] (0 : ℝ)) = .ok 117440512 := by
    have hlast : (Tensor.full [0, 6896136988131329] (0 : ℝ)).shape.getLast? =
        some 6896136988131329 := rfl
    unfold sideOf
    simp only [hlast, Triangle.root?_misread.1]
  unfold logJacobian
  rw [hside]
  exact ⟨_, rfl⟩

end Layout

end Constraint
end DensityGraph
