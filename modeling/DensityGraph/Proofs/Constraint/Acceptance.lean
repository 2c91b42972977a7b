import DensityGraph.Proofs.Constraint.Support
/-!
# Accepted values

A scalar constraint accepts a value if it accepts every entry.  Bounds are checked by what
an entry must not be, at most the lower or at least the upper one, and so let pass a number
that does not compare; only a constraint without bounds asks for finite entries.
-/

namespace DensityGraph

open Extended
open Number (literal)

namespace Interval

/-- Whether a number is finite and strictly between the bounds. -/
def Contains (b : Interval) (y : Extended) : Prop :=
  Scalar.less (ofFloat b.lower) y = true ∧ Scalar.less y (ofFloat b.upper) = true

def IsBounded (b : Interval) : Prop :=
  b.lower.isFinite = true ∨ b.upper.isFinite = true

theorem Contains.lower_lt {b : Interval} {l y : ℝ} (hy : b.Contains (finite y))
    (hlower : ofFloat b.lower = finite l) : l < y := by
  have hless := hy.1
  rw [hlower] at hless
  exact of_decide_eq_true hless

theorem Contains.lt_upper {b : Interval} {u y : ℝ} (hy : b.Contains (finite y))
    (hupper : ofFloat b.upper = finite u) : y < u := by
  have hless := hy.2
  rw [hupper] at hless
  exact of_decide_eq_true hless

end Interval

namespace Constraint

/-!
# Entries
-/

section Entries

variable {α : Type} [Scalar α] {c : Constraint} {lower upper : α}

def accepts (c : Constraint) (lower upper y : α) : Bool :=
  match c with
  | unconstrained => Scalar.isFinite y
  | c => !c.isOutside lower upper y

theorem inverse_of_accepts (hmatrix : c.isMatrix = false) {y : Tensor α}
    (h : y.toList.all (c.accepts lower upper) = true) :
    c.inverse lower upper y = .ok (y.toList.map (c.inverseScalar lower upper)) := by
  have hbounded : forall c' : Constraint, y.toList.all (fun x => !c'.isOutside lower upper x) =
      true -> y.toList.any (c'.isOutside lower upper) = false := by
    intro c' hall
    rwa [← List.not_any_eq_all_not, Bool.not_eq_true'] at hall
  cases c with
  | unconstrained =>
      have hsame : y.toList.map (unconstrained.inverseScalar lower upper) = y.toList :=
        List.map_id _
      rw [hsame]
      exact if_pos h
  | correlation => cases hmatrix
  | covariance => cases hmatrix
  | interval => exact if_neg (ne_true_of_eq_false (hbounded interval h))
  | upperBounded => exact if_neg (ne_true_of_eq_false (hbounded upperBounded h))
  | lowerBounded => exact if_neg (ne_true_of_eq_false (hbounded lowerBounded h))

theorem exists_misfit (hmatrix : c.isMatrix = false) {y : Tensor α}
    (h : y.toList.all (c.accepts lower upper) = false) :
    ∃ misfit, c.inverse lower upper y = .error misfit := by
  have hbounded : forall c' : Constraint, y.toList.all (fun x => !c'.isOutside lower upper x) =
      false -> y.toList.any (c'.isOutside lower upper) = true := by
    intro c' hall
    rwa [← List.not_any_eq_all_not, Bool.not_eq_false'] at hall
  cases c with
  | unconstrained => exact ⟨_, if_neg (ne_true_of_eq_false h)⟩
  | correlation => cases hmatrix
  | covariance => cases hmatrix
  | interval => exact ⟨_, if_pos (hbounded interval h)⟩
  | upperBounded => exact ⟨_, if_pos (hbounded upperBounded h)⟩
  | lowerBounded => exact ⟨_, if_pos (hbounded lowerBounded h)⟩

end Entries

/-!
# Entries that are doubles
-/

section Doubles

variable {c : Constraint} {b : Interval}

theorem lessEq_ofFloat (x y : Float) :
    Scalar.lessEq (ofFloat x) (ofFloat y) = Scalar.lessEq (literal x) (literal y) := by
  unfold Scalar.lessEq
  rw [less_ofFloat, equal_ofFloat]
  rfl

theorem accepts_ofFloat (hmatrix : c.isMatrix = false) (x : Float) :
    c.accepts (literal b.lower) (literal b.upper) (literal x) =
      c.accepts (ofFloat b.lower) (ofFloat b.upper) (ofFloat x) := by
  have hzero : ofFloat 0.0 = Scalar.zero := by
    rw [ofFloat_of_isFinite (by decide +kernel), Dyadic.toReal_zero, zero_finite,
      Scalar.zero_real]
  cases c with
  | unconstrained => exact (isFinite_ofFloat x).symm
  | interval =>
      simp only [accepts, isOutside, lessEq_ofFloat]
  | upperBounded =>
      simp only [accepts, isOutside, isNegativeInfinite, lessEq_ofFloat, isFinite_ofFloat]
      rw [← hzero, less_ofFloat]
      rfl
  | lowerBounded =>
      simp only [accepts, isOutside, isPositiveInfinite, lessEq_ofFloat, isFinite_ofFloat]
      rw [← hzero, less_ofFloat]
      rfl
  | correlation => cases hmatrix
  | covariance => cases hmatrix

end Doubles

/-!
# Numbers that are accepted

A number that compares is accepted strictly between the bounds.  One that does not compare
passes as well, because no comparison with a bound holds of it, and has no finite free
number.
-/

section Numbers

variable {c : Constraint} {b : Interval} {x y : Extended}

theorem finite_ne_undefined (v : ℝ) : finite v ≠ .undefined :=
  nofun

theorem lessEq_of_ne (hx : x ≠ .undefined) (hy : y ≠ .undefined) :
    Scalar.lessEq x y = !Scalar.less y x := by
  change (less x y || equal x y) = !less y x
  cases x with
  | undefined => exact absurd rfl hx
  | infinite s =>
      cases y with
      | undefined => exact absurd rfl hy
      | infinite t => cases s <;> cases t <;> rfl
      | finite v => cases s <;> rfl
  | finite u =>
      cases y with
      | undefined => exact absurd rfl hy
      | infinite t => cases t <;> rfl
      | finite v =>
          unfold less equal
          rw [← Bool.decide_or, ← decide_not, decide_eq_decide, not_lt]
          exact le_iff_lt_or_eq.symm

theorem isNegativeInfinite_of_ne (hy : y ≠ .undefined) :
    isNegativeInfinite y = !Scalar.less (infinite true) y := by
  change (!isFinite y && less y (finite (Scalar.ofNat 0))) = !less (infinite true) y
  cases y with
  | undefined => exact absurd rfl hy
  | infinite s => cases s <;> rfl
  | finite v => rfl

theorem isPositiveInfinite_of_ne (hy : y ≠ .undefined) :
    isPositiveInfinite y = !Scalar.less y (infinite false) := by
  change (!isFinite y && less (finite (Scalar.ofNat 0)) y) = !less y (infinite false)
  cases y with
  | undefined => exact absurd rfl hy
  | infinite s => cases s <;> rfl
  | finite v => rfl

theorem isFinite_eq (y : Extended) :
    Scalar.isFinite y = (Scalar.less (infinite true) y && Scalar.less y (infinite false)) := by
  change isFinite y = (less (infinite true) y && less y (infinite false))
  cases y with
  | undefined => rfl
  | infinite s => cases s <;> rfl
  | finite v => rfl

theorem accepts_of_ne (h : b.Spans c) (hy : y ≠ .undefined) :
    c.accepts (ofFloat b.lower) (ofFloat b.upper) y =
      (Scalar.less (ofFloat b.lower) y && Scalar.less y (ofFloat b.upper)) := by
  cases h with
  | unconstrained hlower hupper =>
      rw [hlower, hupper, ← isFinite_eq]
      rfl
  | upperBounded hlower hupper =>
      rw [hlower, hupper]
      simp only [accepts, isOutside]
      rw [isNegativeInfinite_of_ne hy, lessEq_of_ne (finite_ne_undefined _) hy, Bool.not_or,
        Bool.not_not, Bool.not_not]
  | lowerBounded hlower hupper =>
      rw [hlower, hupper]
      simp only [accepts, isOutside]
      rw [isPositiveInfinite_of_ne hy, lessEq_of_ne hy (finite_ne_undefined _), Bool.not_or,
        Bool.not_not, Bool.not_not]
  | interval hlower hupper _ =>
      rw [hlower, hupper]
      simp only [accepts, isOutside]
      rw [lessEq_of_ne hy (finite_ne_undefined _), lessEq_of_ne (finite_ne_undefined _) hy,
        Bool.not_or, Bool.not_not, Bool.not_not]

theorem accepts_undefined (h : b.Spans c) :
    c.accepts (ofFloat b.lower) (ofFloat b.upper) .undefined = true ↔ b.IsBounded := by
  unfold Interval.IsBounded
  rw [← isFinite_ofFloat, ← isFinite_ofFloat]
  cases h with
  | unconstrained hlower hupper =>
      rw [hlower, hupper]
      exact ⟨nofun, fun hbound => hbound.elim nofun nofun⟩
  | upperBounded hlower hupper =>
      rw [hlower, hupper]
      exact ⟨fun _ => Or.inr rfl, fun _ => rfl⟩
  | lowerBounded hlower hupper =>
      rw [hlower, hupper]
      exact ⟨fun _ => Or.inl rfl, fun _ => rfl⟩
  | interval hlower hupper _ =>
      rw [hlower, hupper]
      exact ⟨fun _ => Or.inl rfl, fun _ => rfl⟩

/-- The entries that the constraint of the bounds accepts are the numbers between them and,
with a bound, the number that does not compare. -/
theorem accepts_iff (h : b.Spans c) :
    c.accepts (ofFloat b.lower) (ofFloat b.upper) y = true ↔
      b.Contains y ∨ y = .undefined ∧ b.IsBounded := by
  by_cases hy : y = .undefined
  · subst hy
    rw [accepts_undefined h]
    constructor
    · exact fun hbounded => Or.inr ⟨rfl, hbounded⟩
    · rintro (⟨_, hless⟩ | ⟨_, hbounded⟩)
      · cases hless
      · exact hbounded
  · rw [accepts_of_ne h hy, Bool.and_eq_true]
    constructor
    · exact Or.inl
    · rintro (hcontains | ⟨rfl, _⟩)
      · exact hcontains
      · exact absurd rfl hy

theorem isFinite_of_contains (hy : b.Contains y) : Scalar.isFinite y = true := by
  rcases hy with ⟨hlower, hupper⟩
  cases y with
  | finite v => rfl
  | undefined => cases hupper
  | infinite s =>
      cases s with
      | true =>
          cases hb : ofFloat b.lower with
          | infinite t =>
              rw [hb] at hlower
              cases t <;> cases hlower
          | _ =>
              rw [hb] at hlower
              cases hlower
      | false =>
          cases hb : ofFloat b.upper with
          | infinite t =>
              rw [hb] at hupper
              cases t <;> cases hupper
          | _ =>
              rw [hb] at hupper
              cases hupper

theorem isFinite_inverseScalar (h : b.Spans c) (hy : b.Contains y) :
    Scalar.isFinite (c.inverseScalar (ofFloat b.lower) (ofFloat b.upper) y) = true := by
  have hfinite := isFinite_of_contains hy
  cases y with
  | undefined => cases hfinite
  | infinite s => cases hfinite
  | finite v =>
      cases h with
      | unconstrained hlower hupper => rfl
      | upperBounded hlower hupper =>
          have hlt := hy.lt_upper hupper
          rw [hlower, hupper]
          exact isFinite_log_iff.mpr ⟨_, sub_pos.mpr hlt, sub_finite _ _⟩
      | lowerBounded hlower hupper =>
          have hlt := hy.lower_lt hlower
          rw [hlower, hupper]
          exact isFinite_log_iff.mpr ⟨_, sub_pos.mpr hlt, sub_finite _ _⟩
      | interval hlower hupper hlt =>
          have hl := hy.lower_lt hlower
          have hu := hy.lt_upper hupper
          rw [hlower, hupper]
          generalize Dyadic.toReal b.lower = l at hl hlt ⊢
          generalize Dyadic.toReal b.upper = u at hu hlt ⊢
          have hwidth : 0 < u - l := sub_pos.mpr hlt
          have hp : 0 < (v - l) / (u - l) := div_pos (sub_pos.mpr hl) hwidth
          have hq : (v - l) / (u - l) < 1 := (div_lt_one hwidth).mpr (sub_lt_sub_right hu l)
          have hshare : (finite v - finite l) / (finite u - finite l) =
              finite ((v - l) / (u - l)) := by
            rw [sub_finite, sub_finite, div_finite _ hwidth.ne']
          refine isFinite_sub_iff.mpr ⟨isFinite_log_iff.mpr ⟨_, hp, hshare⟩, ?_⟩
          change Scalar.isFinite (Scalar.log (finite 1 -
            (finite v - finite l) / (finite u - finite l))) = true
          rw [hshare, sub_finite]
          exact isFinite_log_iff.mpr ⟨_, sub_pos.mpr hq, rfl⟩

theorem sub_undefined (x : Extended) : x - .undefined = .undefined := by
  cases x <;> rfl

theorem undefined_sub (x : Extended) : .undefined - x = .undefined := by
  change add .undefined (neg x) = .undefined
  cases neg x <;> rfl

theorem undefined_div (x : Extended) : .undefined / x = .undefined := by
  cases x <;> rfl

theorem inverseScalar_undefined (c : Constraint) (l u : Extended) :
    c.inverseScalar l u .undefined = .undefined := by
  cases c with
  | interval =>
      change Scalar.log ((.undefined - l) / (u - l)) - _ = _
      rw [undefined_sub, undefined_div]
      exact undefined_sub _
  | upperBounded => exact congrArg Scalar.log (sub_undefined u)
  | lowerBounded => exact congrArg Scalar.log (undefined_sub l)
  | _ => rfl

end Numbers

end Constraint

/-!
# Values that are accepted
-/

namespace Interval

variable {b : Interval} {c : Constraint} {d : Shape} {t : Tensor Float}

/-- Whether a value fits into a shape with entries strictly between the bounds or, with a
bound, entries that are no numbers. -/
def Accepts (b : Interval) (d : Shape) (t : Tensor Float) : Prop :=
  ∃ y, t.broadcastTo? d = some y ∧ forall x, x ∈ y.toList ->
    b.Contains (ofFloat x) ∨ x.isNaN = true ∧ b.IsBounded

theorem Spans.isMatrix (h : b.Spans c) : c.isMatrix = false := by
  cases h <;> rfl

theorem ofFloat_eq_undefined_iff (x : Float) : ofFloat x = .undefined ↔ x.isNaN = true := by
  change ofFloat x = .undefined ↔ x.toModel.unpack.isNaN = true
  rw [ofFloat_eq_ofUnpacked]
  cases x.toModel.unpack with
  | notANumber => exact ⟨fun _ => rfl, fun _ => rfl⟩
  | infinity s => exact ⟨fun h => (by cases h), fun h => (by cases h)⟩
  | zero s => exact ⟨fun h => (by cases h), fun h => (by cases h)⟩
  | finite s m e hm => exact ⟨fun h => (by cases h), fun h => (by cases h)⟩

theorem Spans.all_accepts_iff (h : b.Spans c) (y : Tensor Float) :
    (y.map literal).toList.all (c.accepts (literal b.lower) (literal b.upper)) = true ↔
      forall x, x ∈ y.toList -> b.Contains (ofFloat x) ∨ x.isNaN = true ∧ b.IsBounded := by
  rw [Tensor.toList_map, List.all_map, List.all_eq_true]
  apply forall₂_congr
  intro x _
  rw [Function.comp_apply, Constraint.accepts_ofFloat h.isMatrix, Constraint.accepts_iff h,
    ofFloat_eq_undefined_iff]

/-- An accepted value has a free vector in the extended numbers, which is finite if all
entries are numbers. -/
theorem Spans.exists_inverse (h : b.Spans c) {y : Tensor Float}
    (hy : forall x, x ∈ y.toList -> b.Contains (ofFloat x) ∨ x.isNaN = true ∧ b.IsBounded) :
    ∃ free, c.inverse (ofFloat b.lower) (ofFloat b.upper) (y.map ofFloat) = .ok free ∧
      ((forall z, z ∈ free -> Scalar.isFinite z = true) ↔
        forall x, x ∈ y.toList -> x.isNaN = false) := by
  have hall : (y.map ofFloat).toList.all
      (c.accepts (ofFloat b.lower) (ofFloat b.upper)) = true := by
    rw [Tensor.toList_map, List.all_map, List.all_eq_true]
    intro x hx
    rw [Function.comp_apply, Constraint.accepts_iff h, ofFloat_eq_undefined_iff]
    exact hy x hx
  refine ⟨_, Constraint.inverse_of_accepts h.isMatrix hall, ?_⟩
  rw [Tensor.toList_map, List.map_map, List.forall_mem_map]
  apply forall₂_congr
  intro x hx
  rw [Function.comp_apply]
  cases hnan : x.isNaN with
  | true =>
      rw [(ofFloat_eq_undefined_iff x).mpr hnan, Constraint.inverseScalar_undefined]
      exact ⟨nofun, nofun⟩
  | false =>
      have hcontains : b.Contains (ofFloat x) := by
        rcases hy x hx with hcontains | ⟨htrue, _⟩
        · exact hcontains
        · rw [hnan] at htrue
          cases htrue
      exact ⟨fun _ => rfl, fun _ => Constraint.isFinite_inverseScalar h hcontains⟩

end Interval

/-!
# Variables that are built from bounds
-/

namespace Action

theorem exists_of_newVariable {w w' : Workspace} {lower upper dim : Value} {id : NodeId}
    (h : (newVariable lower upper dim .none).run w = (.ok id, w')) :
    ∃ b d size, (bounds lower upper).run w = (.ok b, w) ∧ dim.toDim = .ok d ∧
      w'.node? id = some (Node.lone d (.blank d) (.latent b (.ofBounds b) size)) ∧
      b.Spans (.ofBounds b) ∧ size = d.size := by
  rcases (ends_newVariable_latent lower upper dim .none).of_ok h with
    ⟨b, c, d, size, hbounds, hasked, hd, hfits, hsize, rfl, rfl⟩
  have hc : c = .ofBounds b := by
    rcases hasked with ⟨_, hc⟩ | ⟨hnone, _⟩
    · exact hc
    · cases hnone
  subst hc
  have hmatrix := hfits.spans.isMatrix
  have hlength : w.nodes.length < w.reserve.nodes.length := by
    simp [Workspace.reserve]
  refine ⟨b, d, size, hbounds, hd, Workspace.node?_put_self _ _ hlength, hfits.spans, ?_⟩
  rcases Constraint.freeSize_cases hsize with ⟨hc, _⟩ | ⟨hc, _⟩ | ⟨_, hsize⟩
  · rw [hc] at hmatrix
    cases hmatrix
  · rw [hc] at hmatrix
    cases hmatrix
  · exact hsize

end Action
end DensityGraph
