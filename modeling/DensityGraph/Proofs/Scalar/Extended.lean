import DensityGraph.Proofs.Scalar.Real
/-!
# Extended scalars

The bounds of a variable may be infinite.  What a constraint makes of them is read over the
reals with two infinities and one number more for what is undefined, such as the difference
of two infinities.
-/

namespace DensityGraph

/-- The extended reals, with an outcome for what is undefined. -/
inductive Extended where
  | finite (x : ℝ)
  | infinite (negative : Bool)
  | undefined

namespace Extended

open Classical

/-!
# Arithmetic
-/

def neg : Extended → Extended
  | finite x => finite (-x)
  | infinite s => infinite !s
  | undefined => undefined

def add : Extended → Extended → Extended
  | finite x, finite y => finite (x + y)
  | infinite s, finite _ => infinite s
  | finite _, infinite s => infinite s
  | infinite s, infinite t => if s = t then infinite s else undefined
  | _, _ => undefined

noncomputable def scale (s : Bool) (x : ℝ) : Extended :=
  if x = 0 then undefined else infinite (s ^^ decide (x < 0))

noncomputable def mul : Extended → Extended → Extended
  | finite x, finite y => finite (x * y)
  | infinite s, finite x => scale s x
  | finite x, infinite s => scale s x
  | infinite s, infinite t => infinite (s ^^ t)
  | _, _ => undefined

noncomputable def div : Extended → Extended → Extended
  | finite x, finite y => if y = 0 then scale false x else finite (x / y)
  | infinite s, finite x => infinite (s ^^ decide (x < 0))
  | finite _, infinite _ => finite 0
  | _, _ => undefined

/-!
# Functions
-/

def extend (f : ℝ → ℝ) (low high : Extended) : Extended → Extended
  | finite x => finite (f x)
  | infinite true => low
  | infinite false => high
  | undefined => undefined

def extend₂ (f : ℝ → ℝ → ℝ) : Extended → Extended → Extended
  | finite x, finite y => finite (f x y)
  | _, _ => undefined

def extend₃ (f : ℝ → ℝ → ℝ → ℝ) : Extended → Extended → Extended → Extended
  | finite x, finite y, finite z => finite (f x y z)
  | _, _, _ => undefined

noncomputable def log : Extended → Extended
  | finite x => if 0 < x then finite (Real.log x) else if x = 0 then infinite true else undefined
  | infinite false => infinite false
  | _ => undefined

noncomputable def sqrt : Extended → Extended
  | finite x => if 0 ≤ x then finite √x else undefined
  | infinite false => infinite false
  | _ => undefined

noncomputable def less : Extended → Extended → Bool
  | finite x, finite y => decide (x < y)
  | infinite s, finite _ => s
  | finite _, infinite s => !s
  | infinite s, infinite t => s && !t
  | _, _ => false

noncomputable def equal : Extended → Extended → Bool
  | finite x, finite y => decide (x = y)
  | infinite s, infinite t => s == t
  | _, _ => false

def isFinite : Extended → Bool
  | finite _ => true
  | _ => false

/-- The number that a double stands for. -/
noncomputable def ofFloat (x : Float) : Extended :=
  if x.isNaN then undefined
  else if x.isInf then infinite (Dyadic.ofFloat x).negative
  else finite (Dyadic.toReal x)

noncomputable instance : Scalar Extended where
  add := add
  sub x y := add x (neg y)
  mul := mul
  div := div
  neg := neg
  ofNat n := finite n
  constant _ x := ofFloat x
  undefined := undefined
  pi := finite Real.pi
  exp := extend Real.exp (finite 0) (infinite false)
  log := log
  log1p x := log (add (finite 1) x)
  expm1 := extend (fun x => Real.exp x - 1) (finite (-1)) (infinite false)
  sqrt := sqrt
  abs := extend (fun x => |x|) (infinite false) (infinite false)
  tanh := extend Real.tanh (finite (-1)) (finite 1)
  arctan := extend Real.arctan (finite (-(Scalar.half * Real.pi)))
    (finite (Scalar.half * Real.pi))
  sigmoid := extend Real.sigmoid (finite 0) (finite 1)
  softplus := extend (fun x => Real.log (1 + Real.exp x)) (finite 0) (infinite false)
  power := extend₂ Scalar.power
  xlogy := extend₂ Scalar.xlogy
  xlog1py := extend₂ Scalar.xlog1py
  logGamma := extend Scalar.logGamma undefined undefined
  logNormalCdf := extend Scalar.logNormalCdf undefined undefined
  gammaCdf := extend₂ Scalar.gammaCdf
  betaCdf := extend₃ Scalar.betaCdf
  isFinite := isFinite
  less := less
  equal := equal
  select c x y := if c then x else y

/-!
# Finite scalars
-/

theorem add_finite (x y : ℝ) : (finite x + finite y : Extended) = finite (x + y) := rfl

theorem sub_finite (x y : ℝ) : (finite x - finite y : Extended) = finite (x - y) := by
  rw [sub_eq_add_neg]
  rfl

theorem mul_finite (x y : ℝ) : (finite x * finite y : Extended) = finite (x * y) := rfl

theorem div_finite (x : ℝ) {y : ℝ} (hy : y ≠ 0) :
    (finite x / finite y : Extended) = finite (x / y) := if_neg hy

theorem ofNat_finite (n : Nat) : (Scalar.ofNat n : Extended) = finite (Scalar.ofNat n) := rfl

theorem zero_finite : (Scalar.zero : Extended) = finite Scalar.zero := rfl

theorem one_finite : (Scalar.one : Extended) = finite Scalar.one := rfl

theorem half_finite : (Scalar.half : Extended) = finite Scalar.half := by
  have htwo : (Scalar.ofNat 2 : ℝ) ≠ 0 := two_ne_zero
  exact div_finite _ htwo

theorem log_finite {x : ℝ} (hx : 0 < x) : Scalar.log (finite x) = finite (Scalar.log x) :=
  if_pos hx

theorem sqrt_finite {x : ℝ} (hx : 0 ≤ x) : Scalar.sqrt (finite x) = finite (Scalar.sqrt x) :=
  if_pos hx

theorem sum_finite (xs : List ℝ) : Scalar.sum (xs.map finite) = finite (Scalar.sum xs) := by
  have hfold : forall y : ℝ, (xs.map finite).foldl (· + ·) (finite y) =
      finite (xs.foldl (· + ·) y) := by
    induction xs with
    | nil => exact fun _ => rfl
    | cons x xs ih =>
        intro y
        rw [List.map_cons, List.foldl_cons, List.foldl_cons, add_finite, ih]
  exact hfold Scalar.zero

/-!
# Finite results
-/

theorem isFinite_iff {x : Extended} : Scalar.isFinite x = true ↔ ∃ v, x = finite v := by
  constructor
  · intro h
    cases x with
    | finite v => exact ⟨v, rfl⟩
    | infinite s => cases h
    | undefined => cases h
  · rintro ⟨v, rfl⟩
    rfl

theorem isFinite_sub_iff {x y : Extended} : Scalar.isFinite (x - y) = true ↔
    Scalar.isFinite x = true ∧ Scalar.isFinite y = true := by
  constructor
  · intro h
    change isFinite (add x (neg y)) = true at h
    cases x with
    | undefined => cases y <;> cases h
    | infinite s =>
        cases y with
        | undefined => cases h
        | finite v => cases h
        | infinite t =>
            change isFinite (if s = !t then infinite s else undefined) = true at h
            split at h <;> cases h
    | finite u =>
        cases y with
        | undefined => cases h
        | infinite t => cases h
        | finite v => exact ⟨rfl, rfl⟩
  · rintro ⟨hx, hy⟩
    rcases isFinite_iff.mp hx with ⟨u, rfl⟩
    rcases isFinite_iff.mp hy with ⟨v, rfl⟩
    rw [sub_finite]
    rfl

theorem isFinite_of_mul {x y : Extended} (h : Scalar.isFinite (x * y) = true) :
    Scalar.isFinite x = true := by
  cases x with
  | undefined => cases y <;> cases h
  | infinite s =>
      cases y with
      | undefined => cases h
      | infinite t => cases h
      | finite v =>
          change isFinite (if v = 0 then undefined else infinite _) = true at h
          split at h <;> cases h
  | finite u => rfl

theorem isFinite_log_iff {x : Extended} : Scalar.isFinite (Scalar.log x) = true ↔
    ∃ v, 0 < v ∧ x = finite v := by
  constructor
  · intro h
    cases x with
    | undefined => cases h
    | infinite s => cases s <;> cases h
    | finite v =>
        change isFinite (if 0 < v then _ else if v = 0 then infinite true else undefined) = true
          at h
        split at h
        case isTrue hpos => exact ⟨v, hpos, rfl⟩
        case isFalse => split at h <;> cases h
  · rintro ⟨v, hpos, rfl⟩
    rw [log_finite hpos]
    rfl

theorem isFinite_arctanh_iff {x : Extended} : Scalar.isFinite (Scalar.arctanh x) = true ↔
    ∃ z, z ∈ Set.Ioo (-1 : ℝ) 1 ∧ x = finite z := by
  have hlogs : Scalar.arctanh x =
      (Scalar.log (finite 1 + x) - Scalar.log (finite 1 - x)) * Scalar.half := rfl
  rw [hlogs]
  constructor
  · intro h
    rcases isFinite_sub_iff.mp (isFinite_of_mul h) with ⟨hplus, hminus⟩
    rcases isFinite_log_iff.mp hplus with ⟨u, hu, heq⟩
    rcases isFinite_log_iff.mp hminus with ⟨v, hv, heq'⟩
    cases x with
    | undefined => cases heq
    | infinite s => cases heq
    | finite z =>
        rw [add_finite] at heq
        rw [sub_finite] at heq'
        cases heq
        cases heq'
        exact ⟨z, ⟨by linarith, by linarith⟩, rfl⟩
  · rintro ⟨z, ⟨hlow, hhigh⟩, rfl⟩
    have hplus : 0 < 1 + z := by linarith
    have hminus : 0 < 1 - z := by linarith
    rw [add_finite, sub_finite, log_finite hplus, log_finite hminus, sub_finite, half_finite,
      mul_finite]
    rfl

end Extended
end DensityGraph
