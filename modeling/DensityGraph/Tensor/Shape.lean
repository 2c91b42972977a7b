/-!
# Shapes and indices

The entries of an array are numbered row by row.  `offset` takes an index to its
number, `unravel` goes back.
-/

namespace DensityGraph

abbrev Shape := List Nat

namespace Shape

def size : Shape → Nat
  | [] => 1
  | n :: s => n * size s

def offset : Shape → List Nat → Nat
  | _ :: s, i :: rest => i * size s + offset s rest
  | _, _ => 0

def unravel : Shape → Nat → List Nat
  | [], _ => []
  | _ :: s, k => k / size s :: unravel s (k % size s)

def Within : Shape → List Nat → Prop
  | [], [] => True
  | n :: s, i :: rest => i < n ∧ Within s rest
  | _, _ => False

instance decidableWithin : (s : Shape) → (index : List Nat) → Decidable (Within s index)
  | [], [] => isTrue trivial
  | n :: s, i :: rest =>
      have := decidableWithin s rest
      inferInstanceAs (Decidable (i < n ∧ Within s rest))
  | [], _ :: _ => isFalse id
  | _ :: _, [] => isFalse id

theorem size_nil : size [] = 1 := rfl

theorem size_cons (n : Nat) (s : Shape) : size (n :: s) = n * size s := rfl

theorem size_pos_of_within {s : Shape} {index : List Nat} (h : Within s index) :
    0 < size s := by
  induction s generalizing index with
  | nil => simp [size]
  | cons n s ih =>
      cases index with
      | nil => exact absurd h id
      | cons i rest =>
          have hn : 0 < n := Nat.lt_of_le_of_lt (Nat.zero_le i) h.1
          exact Nat.mul_pos hn (ih h.2)

theorem offset_lt {s : Shape} {index : List Nat} (h : Within s index) :
    offset s index < size s := by
  induction s generalizing index with
  | nil =>
      cases index with
      | nil => simp [offset, size]
      | cons i rest => exact absurd h id
  | cons n s ih =>
      cases index with
      | nil => exact absurd h id
      | cons i rest =>
          have hrest := ih h.2
          have hstep : (i + 1) * size s ≤ n * size s := Nat.mul_le_mul_right _ h.1
          simp only [offset, size, Nat.add_mul, Nat.one_mul] at hstep ⊢
          omega

theorem unravel_offset {s : Shape} {index : List Nat} (h : Within s index) :
    unravel s (offset s index) = index := by
  induction s generalizing index with
  | nil =>
      cases index with
      | nil => rfl
      | cons i rest => exact absurd h id
  | cons n s ih =>
      cases index with
      | nil => exact absurd h id
      | cons i rest =>
          have hlt := offset_lt h.2
          have hpos := size_pos_of_within h.2
          simp only [offset, unravel]
          rw [Nat.mul_comm i, Nat.mul_add_div hpos, Nat.div_eq_of_lt hlt, Nat.mul_add_mod,
            Nat.mod_eq_of_lt hlt, ih h.2, Nat.add_zero]

theorem within_unravel {s : Shape} {k : Nat} (h : k < size s) : Within s (unravel s k) := by
  induction s generalizing k with
  | nil => trivial
  | cons n s ih =>
      have hpos : 0 < size s := by
        rcases Nat.eq_zero_or_pos (size s) with h0 | h0
        · simp [size, h0] at h
        · exact h0
      exact ⟨Nat.div_lt_of_lt_mul (by rwa [size_cons, Nat.mul_comm] at h),
        ih (Nat.mod_lt _ hpos)⟩

theorem offset_unravel {s : Shape} {k : Nat} (h : k < size s) :
    offset s (unravel s k) = k := by
  induction s generalizing k with
  | nil =>
      simp only [size] at h
      simp only [offset]
      omega
  | cons n s ih =>
      have hpos : 0 < size s := by
        rcases Nat.eq_zero_or_pos (size s) with h0 | h0
        · simp [size, h0] at h
        · exact h0
      simp only [unravel, offset]
      rw [ih (Nat.mod_lt _ hpos), Nat.mul_comm]
      exact Nat.div_add_mod k (size s)

/-!
# Broadcasting

Shapes are aligned at their last axes.  Along every axis the sizes agree or one of
them is one; a missing axis counts as one.
-/

def joinAxis? (m n : Nat) : Option Nat :=
  if m = n then some m
  else if m = 1 then some n
  else if n = 1 then some m
  else none

def joinReversed? : List Nat → List Nat → Option (List Nat)
  | [], t => some t
  | s, [] => some s
  | m :: s, n :: t =>
      match joinAxis? m n, joinReversed? s t with
      | some k, some rest => some (k :: rest)
      | _, _ => none

def join? (s t : Shape) : Option Shape :=
  (joinReversed? s.reverse t.reverse).map List.reverse

def project (s : Shape) (index : List Nat) : List Nat :=
  (index.drop (index.length - s.length)).zipWith (fun i n => if n = 1 then 0 else i) s

/-!
# Requested shapes
-/

/-- A requested shape for `count` entries; one size may be `-1` and is then filled
in. -/
def complete? (count : Nat) (dims : List Int) : Option Shape :=
  let known := (dims.filter (· ≠ -1)).map Int.toNat
  if dims.any (· < -1) then none
  else if dims.count (-1) = 0 then
    if size known = count then some known else none
  else if dims.count (-1) = 1 ∧ size known ≠ 0 ∧ count % size known = 0 then
    some (dims.map fun d => if d = -1 then count / size known else d.toNat)
  else none

def ofInts? (dims : List Int) : Option Shape :=
  if dims.any (· < 0) then none else some (dims.map Int.toNat)

end Shape
end DensityGraph
