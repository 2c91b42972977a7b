import DensityGraph.Proofs.Constraint.Acceptance
import DensityGraph.Proofs.Constraint.FreeSize
import DensityGraph.Proofs.Constraint.Triangle
/-!
# Free vectors of values

The free vector that is found for a value has the length that the variable declares.  For
matrices it is read off a Cholesky factor, whose rows end at the diagonal.
-/

namespace DensityGraph

/-!
# Rows of factors
-/

namespace Rows

variable {α : Type} {l : Rows α} {r : List α} {n : Nat}

def IsLower (l : Rows α) : Prop :=
  forall i r, l[i]? = some r -> r.length = i + 1

theorem IsLower.concat (h : IsLower l) (hr : r.length = l.length + 1) : IsLower (l ++ [r]) := by
  intro i s hs
  rcases Nat.lt_or_ge i l.length with hi | hi
  · rw [List.getElem?_append_left hi] at hs
    exact h i s hs
  · rw [List.getElem?_append_right hi, List.getElem?_singleton] at hs
    split at hs
    · cases hs
      omega
    · cases hs

theorem IsLower.map_length_dropLast (h : IsLower l) :
    (l.map fun r => r.dropLast.length) = List.range l.length := by
  apply List.ext_getElem
  · rw [List.length_map, List.length_range]
  · intro i hi _
    rw [List.length_map] at hi
    rw [List.getElem_map, List.getElem_range, List.length_dropLast,
      h i _ (List.getElem?_eq_getElem hi), Nat.add_sub_cancel]

variable [Scalar α] {done rest m : Rows α} {entries : List α}

theorem length_foldl_concat {β γ : Type} (f : List β → γ → β) (xs : List γ) (row : List β) :
    (xs.foldl (fun row x => row ++ [f row x]) row).length = row.length + xs.length := by
  induction xs generalizing row with
  | nil => rfl
  | cons x xs ih =>
      rw [List.foldl_cons, ih, List.length_append, List.length_singleton, List.length_cons]
      omega

theorem length_factorRow (h : done.length ≤ entries.length) :
    (factorRow done entries).length = done.length := by
  have hfold : factorRow done entries = (done.zip entries).foldl
      (fun row p => row ++ [(p.2 - dot row p.1) / p.1.getLastD Scalar.one]) [] := rfl
  rw [hfold, length_foldl_concat, List.length_nil, Nat.zero_add, List.length_zip,
    Nat.min_eq_left h]

/-- Each row that is added ends at its diagonal, as long as the rows of the matrix reach
there. -/
theorem isLower_of_factorRows? (hdone : IsLower done)
    (hle : forall r, r ∈ rest -> done.length + rest.length ≤ r.length)
    (h : factorRows? done rest = some l) :
    IsLower l ∧ l.length = done.length + rest.length := by
  induction rest generalizing done with
  | nil =>
      cases h
      exact ⟨hdone, rfl⟩
  | cons entries rest ih =>
      have hentries := hle entries List.mem_cons_self
      rw [List.length_cons] at hentries
      have hrow : (factorRow done entries).length = done.length :=
        length_factorRow (by omega)
      unfold factorRows? at h
      simp only at h
      split at h
      · rcases ih (hdone.concat (by simp [hrow])) (by
          intro r hr
          have hreach := hle r (List.mem_cons_of_mem _ hr)
          rw [List.length_cons] at hreach
          rw [List.length_append, List.length_singleton]
          omega) h with ⟨hlower, hlength⟩
        refine ⟨hlower, ?_⟩
        rw [hlength, List.length_append, List.length_singleton, List.length_cons]
        omega
      · cases h

theorem isLower_of_cholesky? (hle : forall r, r ∈ m -> m.length ≤ r.length)
    (h : cholesky? m = some l) : IsLower l ∧ l.length = m.length := by
  have hnil : IsLower ([] : Rows α) := by
    intro i r hr
    cases hr
  rcases isLower_of_factorRows? hnil (by simpa using hle) h with ⟨hlower, hlength⟩
  exact ⟨hlower, by simpa using hlength⟩

end Rows

/-!
# Lengths
-/

namespace Constraint

open Rows

variable {α : Type} [Scalar α] {y : Tensor α} {free : List α} {n : Nat}

theorem length_partialCorrelations (s : α) (cs : List α) :
    (partialCorrelations s cs).length = cs.length := by
  induction cs generalizing s with
  | nil => rfl
  | cons c cs ih =>
      unfold partialCorrelations
      rw [List.length_cons, List.length_cons, ih]

theorem isLower_of_factorOf {rows l : Rows α} (hy : y.shape = [n, n])
    (h : factorOf y = .ok (rows, l)) : IsLower l ∧ l.length = n := by
  rcases (factorOf_eq_ok_iff hy).mp h with ⟨rfl, _, hcholesky⟩
  rcases rows_ofTensor hy with ⟨hlength, hrows⟩
  have hreach : forall r, r ∈ ofTensor y [] -> (ofTensor y []).length ≤ r.length := by
    intro r hr
    rw [hlength, hrows r hr]
  rw [← hlength]
  exact isLower_of_cholesky? hreach hcholesky

theorem length_inverseCorrelation (hy : y.shape = [n, n])
    (h : inverseCorrelation y = .ok free) : free.length = Triangle.start n := by
  rcases inverseCorrelation_eq_ok_iff.mp h with ⟨rows, l, hfactor, _, rfl⟩
  rcases isLower_of_factorOf hy hfactor with ⟨hlower, hlength⟩
  have hpartial : forall r : List α,
      (partialCorrelations Scalar.zero r.dropLast).length = r.dropLast.length :=
    fun r => length_partialCorrelations _ _
  rw [List.length_map, List.length_flatMap]
  simp only [hpartial]
  rw [hlower.map_length_dropLast, hlength]
  rfl

theorem length_inverseCovariance (hy : y.shape = [n, n])
    (h : inverseCovariance y = .ok free) : free.length = Triangle.size n := by
  unfold inverseCovariance at h
  cases hfactor : factorOf y with
  | error misfit =>
      rw [hfactor] at h
      cases h
  | ok p =>
      rcases isLower_of_factorOf hy hfactor with ⟨hlower, hlength⟩
      rw [hfactor] at h
      cases h
      rw [List.length_append, List.length_map, List.length_flatMap, hlower.map_length_dropLast,
        hlength, ← Triangle.start_add, Nat.add_comm]
      rfl

theorem length_inverse {c : Constraint} {size : Nat} {lower upper : α}
    (hsize : (c.freeSize? (y.shape.map Int.ofNat)).map Int.toNat = some size)
    (h : c.inverse lower upper y = .ok free) : free.length = size := by
  rcases freeSize_cases hsize with ⟨rfl, n, hy, _, rfl⟩ | ⟨rfl, n, hy, _, rfl⟩ | ⟨hmatrix, rfl⟩
  · rw [← Triangle.start_succ_eq_size]
    exact length_inverseCorrelation hy h
  · exact length_inverseCovariance hy h
  · rw [← Tensor.length_toList]
    cases hall : y.toList.all (c.accepts lower upper) with
    | true =>
        rw [inverse_of_accepts hmatrix hall] at h
        cases h
        rw [List.length_map]
    | false =>
        rcases exists_misfit hmatrix hall with ⟨misfit, hmisfit⟩
        rw [hmisfit] at h
        cases h

end Constraint
end DensityGraph
