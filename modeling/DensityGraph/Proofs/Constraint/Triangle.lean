import Mathlib.Algebra.BigOperators.Fin
import Mathlib.Algebra.GroupWithZero.Nat
import Mathlib.Data.List.GetD
import Mathlib.Data.Real.Basic
import Mathlib.Tactic.Ring
import DensityGraph.Proofs.Constraint.FreeSize
/-!
# Rows of triangles

A list fills a strict triangle row by row, and a triangle is read back by joining its rows.
-/

namespace DensityGraph
namespace Triangle

variable {α : Type} {i n : Nat} {xs : List α} {rs : List (List α)}

theorem length_rowsFrom (i count : Nat) (xs : List α) :
    (rowsFrom i count xs).length = count := by
  induction count generalizing i xs with
  | zero => rfl
  | succ count ih =>
      unfold rowsFrom
      rw [List.length_cons, ih]

theorem rowsFrom_flatten {count : Nat} (h : rs.map List.length = List.range' i count) :
    rowsFrom i count rs.flatten = rs := by
  induction count generalizing i rs with
  | zero =>
      rw [List.range'_zero, List.map_eq_nil_iff] at h
      rw [h]
      rfl
  | succ count ih =>
      rw [List.range'_succ, List.map_eq_cons_iff] at h
      rcases h with ⟨r, rest, rfl, hr, hrest⟩
      unfold rowsFrom
      rw [List.flatten_cons, List.take_left' hr, List.drop_left' hr, ih hrest]

theorem map_length_rowsFrom {count : Nat} (h : xs.length = (List.range' i count).sum) :
    (rowsFrom i count xs).map List.length = List.range' i count := by
  induction count generalizing i xs with
  | zero => rfl
  | succ count ih =>
      rw [List.range'_succ, List.sum_cons] at h
      have hrest : (xs.drop i).length = (List.range' (i + 1) count).sum := by
        rw [List.length_drop, h, Nat.add_sub_cancel_left]
      unfold rowsFrom
      rw [List.range'_succ, List.map_cons, ih hrest, List.length_take_of_le (by omega)]

theorem flatten_rowsFrom {count : Nat} (h : xs.length = (List.range' i count).sum) :
    (rowsFrom i count xs).flatten = xs := by
  induction count generalizing i xs with
  | zero => exact (List.length_eq_zero_iff.mp h).symm
  | succ count ih =>
      rw [List.range'_succ, List.sum_cons] at h
      have hrest : (xs.drop i).length = (List.range' (i + 1) count).sum := by
        rw [List.length_drop, h, Nat.add_sub_cancel_left]
      unfold rowsFrom
      rw [List.flatten_cons, ih hrest, List.take_append_drop]

theorem rowsFrom_getElem? {i k count : Nat} (hk : k < count) (xs : List α) :
    (rowsFrom i count xs)[k]? = some ((xs.drop (List.range' i k).sum).take (i + k)) := by
  induction count generalizing i k xs with
  | zero => cases hk
  | succ count ih =>
      unfold rowsFrom
      cases k with
      | zero =>
          rw [List.getElem?_cons_zero, List.range'_zero, List.sum_nil, List.drop_zero, Nat.add_zero]
      | succ k =>
          rw [List.getElem?_cons_succ, ih (Nat.lt_of_succ_lt_succ hk), List.drop_drop,
            List.range'_succ, List.sum_cons, Nat.add_right_comm, Nat.add_assoc]

theorem rowsFrom_map {β : Type} (f : α → β) (i count : Nat) (xs : List α) :
    rowsFrom i count (xs.map f) = (rowsFrom i count xs).map (List.map f) := by
  induction count generalizing i xs with
  | zero => rfl
  | succ count ih =>
      unfold rowsFrom
      rw [List.map_cons, ← ih, List.map_take, List.map_drop]

/-!
# Strict triangles

The rows of a strict triangle have the lengths `0, 1, …, n - 1`.  Row `i` starts behind
`i * (i - 1) / 2` entries, and all rows together have half of the entries of the square off
its diagonal.
-/

def start (i : Nat) : Nat :=
  (List.range i).sum

theorem start_succ (i : Nat) : start (i + 1) = start i + i := by
  unfold start
  rw [List.range_succ, List.sum_append, List.sum_singleton]

theorem start_le {i n : Nat} (h : i < n) : start i + i ≤ start n := by
  induction n with
  | zero => cases h
  | succ n ih =>
      rw [start_succ]
      rcases Nat.lt_succ_iff_lt_or_eq.mp h with hlt | rfl
      · exact Nat.le_add_right_of_le (ih hlt)
      · exact le_refl _

theorem start_succ_eq_size (n : Nat) : start (n + 1) = size n := by
  induction n with
  | zero => rfl
  | succ n ih => rw [start_succ, ih, size_succ]

theorem start_add (n : Nat) : start n + n = size n := by
  rw [← start_succ, start_succ_eq_size]

theorem half_mul_pred (m : Nat) : (m + 1) * (m + 1 - 1) / 2 = size m := by
  unfold size
  rw [Nat.add_sub_cancel, Nat.mul_comm]

theorem half_mul_succ (n : Nat) : n * (n + 1) / 2 = size n := rfl

theorem length_rows (n : Nat) (xs : List α) : (rows n xs).length = n :=
  length_rowsFrom 0 n xs

theorem rows_map {β : Type} (f : α → β) (n : Nat) (xs : List α) :
    rows n (xs.map f) = (rows n xs).map (List.map f) :=
  rowsFrom_map f 0 n xs

theorem map_length_rows (h : xs.length = start n) :
    (rows n xs).map List.length = List.range n := by
  unfold start at h
  rw [List.range_eq_range'] at h ⊢
  exact map_length_rowsFrom h

theorem flatten_rows (h : xs.length = start n) : (rows n xs).flatten = xs := by
  unfold start at h
  rw [List.range_eq_range'] at h
  exact flatten_rowsFrom h

theorem rows_flatten (h : rs.map List.length = List.range n) : rows n rs.flatten = rs := by
  rw [List.range_eq_range'] at h
  exact rowsFrom_flatten h

theorem length_row (h : xs.length = start n) {r : List α}
    (hr : (rows n xs)[i]? = some r) : r.length = i := by
  have hrow := congrArg (fun lengths => lengths[i]?) (map_length_rows h)
  simp only [List.getElem?_map, hr, Option.map_some] at hrow
  rcases List.getElem?_eq_some_iff.mp hrow.symm with ⟨_, hget⟩
  rw [← hget, List.getElem_range]

theorem length_flatten (h : rs.map List.length = List.range n) :
    rs.flatten.length = start n := by
  rw [List.length_flatten, h]
  rfl

theorem getElem?_rows {i : Nat} (hi : i < n) (xs : List α) :
    (rows n xs)[i]? = some ((xs.drop (start i)).take i) := by
  unfold rows start
  rw [rowsFrom_getElem? hi, List.range_eq_range', Nat.zero_add]

/-!
# Cells
-/

def cells (n : Nat) : List (Nat × Nat) :=
  (List.range n).flatMap fun i => (List.range i).map fun j => (i, j)

theorem cells_succ (n : Nat) :
    cells (n + 1) = cells n ++ (List.range n).map fun j => (n, j) := by
  unfold cells
  rw [List.range_succ, List.flatMap_append, List.flatMap_singleton]

theorem length_cells (n : Nat) : (cells n).length = start n := by
  induction n with
  | zero => rfl
  | succ n ih => rw [cells_succ, List.length_append, ih, List.length_map, List.length_range,
      start_succ]

theorem map_snd_cells (n : Nat) : (cells n).map Prod.snd = columns n := by
  unfold cells columns
  rw [List.map_flatMap]
  simp only [List.map_map, Function.comp_def, List.map_id']

theorem getElem?_cells {n p i j : Nat} :
    (cells n)[p]? = some (i, j) ↔ j < i ∧ i < n ∧ p = start i + j := by
  induction n with
  | zero =>
      constructor
      · rintro ⟨⟩
      · rintro ⟨_, ⟨⟩, _⟩
  | succ n ih =>
      rw [cells_succ]
      rcases Nat.lt_or_ge p (cells n).length with hp | hp
      · rw [List.getElem?_append_left hp, ih]
        rw [length_cells] at hp
        constructor
        · rintro ⟨hj, hi, heq⟩
          exact ⟨hj, Nat.lt_succ_of_lt hi, heq⟩
        · rintro ⟨hj, hi, heq⟩
          refine ⟨hj, lt_of_le_of_ne (Nat.le_of_lt_succ hi) ?_, heq⟩
          rintro rfl
          omega
      · rw [List.getElem?_append_right hp, List.getElem?_map, Option.map_eq_some_iff]
        rw [length_cells] at hp ⊢
        constructor
        · rintro ⟨j', hj', heq⟩
          rcases List.getElem?_eq_some_iff.mp hj' with ⟨hlt, hget⟩
          rw [List.length_range] at hlt
          rw [List.getElem_range] at hget
          cases heq
          omega
        · rintro ⟨hj, hi, heq⟩
          have hrow : i = n := by
            by_contra hne
            have hle := start_le (show i < n by omega)
            omega
          refine ⟨j, ?_, by rw [hrow]⟩
          rw [heq, hrow, Nat.add_sub_cancel_left, List.getElem?_range (by omega)]

theorem exists_cell {k : Nat} (hk : k = start n) (p : Fin k) :
    ∃ i j, (cells n).getD p (0, 0) = (i, j) ∧ j < i ∧ i < n ∧ p.1 = start i + j := by
  have hp : p.1 < (cells n).length := by
    rw [length_cells, ← hk]
    exact p.isLt
  rcases hcell : (cells n)[p.1] with ⟨i, j⟩
  have hget := List.getElem?_eq_getElem hp
  rw [hcell] at hget
  refine ⟨i, j, ?_, getElem?_cells.mp hget⟩
  rw [List.getD_eq_getElem?_getD, hget, Option.getD_some]

/-!
# Cells on and below the diagonal
-/

def closedCells (n : Nat) : List (Nat × Nat) :=
  (List.range n).flatMap fun i => (List.range (i + 1)).map fun j => (i, j)

theorem closedCells_eq (n : Nat) :
    closedCells n = (cells (n + 1)).map fun cell => (cell.1 - 1, cell.2) := by
  induction n with
  | zero => rfl
  | succ n ih =>
      have hlast : closedCells (n + 1) =
          closedCells n ++ (List.range (n + 1)).map fun j => (n, j) := by
        unfold closedCells
        conv_lhs => rw [List.range_succ]
        rw [List.flatMap_append, List.flatMap_singleton]
      rw [hlast, ih, cells_succ (n + 1), List.map_append, List.map_map]
      rfl

theorem length_closedCells (n : Nat) : (closedCells n).length = size n := by
  rw [closedCells_eq, List.length_map, length_cells, start_succ_eq_size]

theorem exists_closedCell {k : Nat} (hk : k = size n) (p : Fin k) :
    ∃ i j, (closedCells n).getD p (0, 0) = (i, j) ∧ j ≤ i ∧ i < n ∧ p.1 = size i + j := by
  have hp : p.1 < (cells (n + 1)).length := by
    rw [length_cells, start_succ_eq_size, ← hk]
    exact p.isLt
  rcases exists_cell (hk.trans (start_succ_eq_size n).symm) p with ⟨i, j, hcell, hj, hi, heq⟩
  cases i with
  | zero => cases hj
  | succ i =>
      rw [List.getD_eq_getElem _ _ hp] at hcell
      refine ⟨i, j, ?_, Nat.le_of_lt_succ hj, Nat.lt_of_succ_lt_succ hi, ?_⟩
      · rw [closedCells_eq, List.getD_eq_getElem _ _ (by rw [List.length_map]; exact hp),
          List.getElem_map, hcell]
        rfl
      · rw [heq, start_succ_eq_size]

/-!
# Sums over cells
-/

theorem sum_getD {β : Type} {k : Nat} {l : List β} (hk : k = l.length) (d : β) (f : β → ℝ) :
    ∑ p : Fin k, f (l.getD p d) = (l.map f).sum := by
  have hlist : (List.ofFn fun p : Fin k => f (l.getD p d)) = l.map f := by
    apply List.ext_getElem
    · rw [List.length_ofFn, List.length_map, hk]
    · intro p _ hp
      rw [List.length_map] at hp
      rw [List.getElem_ofFn, List.getElem_map, List.getD_eq_getElem _ _ hp]
  rw [← hlist, List.sum_ofFn]

theorem sum_cells (n : Nat) (f : Nat → Nat → ℝ) :
    ((cells n).map fun cell => f cell.1 cell.2).sum =
      ∑ i ∈ Finset.range n, ∑ j ∈ Finset.range i, f i j := by
  induction n with
  | zero => rfl
  | succ n ih =>
      have hrow : ((List.range n).map fun j => f n j).sum = ∑ j ∈ Finset.range n, f n j := rfl
      rw [cells_succ, List.map_append, List.sum_append, ih, List.map_map, Finset.sum_range_succ]
      exact congrArg _ hrow

theorem sum_closedCells (n : Nat) (f : Nat → Nat → ℝ) :
    ((closedCells n).map fun cell => f cell.1 cell.2).sum =
      ∑ i ∈ Finset.range n, ∑ j ∈ Finset.range (i + 1), f i j := by
  rw [closedCells_eq, List.map_map]
  refine (sum_cells (n + 1) fun i j => f (i - 1) j).trans ?_
  rw [Finset.sum_range_succ', Finset.sum_range_zero, add_zero]
  rfl

theorem sum_columns (n : Nat) (h : Nat → ℝ) :
    ∑ i ∈ Finset.range n, ∑ j ∈ Finset.range i, h j =
      ∑ j ∈ Finset.range n, ((n : ℝ) - 1 - j) * h j := by
  induction n with
  | zero => rfl
  | succ n ih =>
      have hlast : ∑ j ∈ Finset.range (n + 1), (((n + 1 : Nat) : ℝ) - 1 - j) * h j =
          ∑ j ∈ Finset.range n, ((n : ℝ) - j) * h j := by
        rw [Finset.sum_range_succ]
        push_cast
        simp
      rw [Finset.sum_range_succ, ih, hlast, ← Finset.sum_add_distrib]
      apply Finset.sum_congr rfl
      intro j _
      ring

end Triangle
end DensityGraph
