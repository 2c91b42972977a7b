import DensityGraph.Proofs.Constraint.Acceptance
import DensityGraph.Proofs.Constraint.Jacobian
/-!
# Numbers between bounds

The constraint of the bounds maps the reals to the numbers between them, entry by entry.
Its inverse and the logarithms of its slopes are computed by formulas of their own; they are
those of the map.
-/

namespace DensityGraph

open Extended

namespace Constraint

variable {c : Constraint} {b : Interval} {v y : ℝ}

/-!
# Single numbers
-/

noncomputable def scalarMap (c : Constraint) (b : Interval) (v : ℝ) : ℝ :=
  match c with
  | interval =>
      Real.sigmoid v * (Dyadic.toReal b.upper - Dyadic.toReal b.lower) + Dyadic.toReal b.lower
  | upperBounded => Dyadic.toReal b.upper - Real.exp v
  | lowerBounded => Real.exp v + Dyadic.toReal b.lower
  | _ => v

noncomputable def scalarLogSlope (c : Constraint) (b : Interval) (v : ℝ) : ℝ :=
  match c with
  | interval =>
      v - Scalar.ofNat 2 * Real.log (1 + Real.exp v) +
        Real.log (Dyadic.toReal b.upper - Dyadic.toReal b.lower)
  | upperBounded => v
  | lowerBounded => v
  | _ => 0

theorem map_id_tensor (x : Tensor ℝ) : x.map id = x := by
  unfold Tensor.map
  simp only [Array.map_id]

theorem forward_eq_map (hmatrix : c.isMatrix = false) (x : Tensor ℝ) :
    c.forward (Scalar.literal b.lower) (Scalar.literal b.upper) x =
      .ok (x.map (c.scalarMap b)) := by
  cases c with
  | unconstrained =>
      exact congrArg Except.ok (map_id_tensor x).symm
  | correlation => cases hmatrix
  | covariance => cases hmatrix
  | _ => rfl

theorem contains_scalarMap (h : b.Spans c) (v : ℝ) : b.Contains (finite (c.scalarMap b v)) := by
  apply less_of_spans h (forward_eq_map h.isMatrix (Tensor.scalar v))
  rw [Tensor.map_scalar]
  exact List.mem_singleton.mpr rfl

/-!
# Inverses
-/

theorem sigmoid_log_sub_log {p : ℝ} (hp : 0 < p) (hp' : p < 1) :
    Real.sigmoid (Real.log p - Real.log (1 + -p)) = p := by
  have hq : 0 < 1 + -p := by linarith
  rw [Real.sigmoid_def, neg_sub, Real.exp_sub, Real.exp_log hp, Real.exp_log hq]
  field_simp
  ring

theorem log_sigmoid_sub_log (v : ℝ) :
    Real.log (Real.sigmoid v) - Real.log (1 + -Real.sigmoid v) = v := by
  have hneg : 1 + -Real.sigmoid v = Real.sigmoid (-v) := by
    rw [Real.sigmoid_neg, sub_eq_add_neg]
  rw [hneg, ← Real.sigmoid_mul_rexp_neg, Real.log_mul (Real.sigmoid_pos v).ne'
    (Real.exp_pos _).ne', Real.log_exp]
  ring

theorem scalarMap_inverseScalar (h : b.Spans c) (hy : b.Contains (finite y)) :
    c.scalarMap b (c.inverseScalar (Scalar.literal b.lower) (Scalar.literal b.upper) y) = y := by
  cases h with
  | unconstrained _ _ => rfl
  | upperBounded hlower hupper =>
      have hlt := hy.lt_upper hupper
      change Dyadic.toReal b.upper - Real.exp (Real.log (Dyadic.toReal b.upper - y)) = y
      rw [Real.exp_log (sub_pos.mpr hlt), sub_sub_cancel]
  | lowerBounded hlower hupper =>
      have hlt := hy.lower_lt hlower
      change Real.exp (Real.log (y - Dyadic.toReal b.lower)) + Dyadic.toReal b.lower = y
      rw [Real.exp_log (sub_pos.mpr hlt), sub_add_cancel]
  | interval hlower hupper hlt =>
      have hl := hy.lower_lt hlower
      have hu := hy.lt_upper hupper
      have hwidth : 0 < Dyadic.toReal b.upper - Dyadic.toReal b.lower := sub_pos.mpr hlt
      have hp := div_pos (sub_pos.mpr hl) hwidth
      have hp' := (div_lt_one hwidth).mpr (sub_lt_sub_right hu (Dyadic.toReal b.lower))
      change Real.sigmoid (Real.log ((y - Dyadic.toReal b.lower) /
        (Dyadic.toReal b.upper - Dyadic.toReal b.lower)) - Real.log (1 +
          -((y - Dyadic.toReal b.lower) / (Dyadic.toReal b.upper - Dyadic.toReal b.lower)))) *
            (Dyadic.toReal b.upper - Dyadic.toReal b.lower) + Dyadic.toReal b.lower = y
      rw [sigmoid_log_sub_log hp hp', div_mul_cancel₀ _ hwidth.ne', sub_add_cancel]

theorem inverseScalar_scalarMap (h : b.Spans c) (v : ℝ) :
    c.inverseScalar (Scalar.literal b.lower) (Scalar.literal b.upper) (c.scalarMap b v) = v := by
  cases h with
  | unconstrained _ _ => rfl
  | upperBounded _ _ =>
      change Real.log (Dyadic.toReal b.upper - (Dyadic.toReal b.upper - Real.exp v)) = v
      rw [sub_sub_cancel, Real.log_exp]
  | lowerBounded _ _ =>
      change Real.log (Real.exp v + Dyadic.toReal b.lower - Dyadic.toReal b.lower) = v
      rw [add_sub_cancel_right, Real.log_exp]
  | interval _ _ hlt =>
      have hwidth : Dyadic.toReal b.upper - Dyadic.toReal b.lower ≠ 0 :=
        (sub_pos.mpr hlt).ne'
      have hratio : (interval.scalarMap b v - Dyadic.toReal b.lower) /
          (Dyadic.toReal b.upper - Dyadic.toReal b.lower) = Real.sigmoid v := by
        unfold scalarMap
        rw [add_sub_cancel_right, mul_div_cancel_right₀ _ hwidth]
      change Real.log ((interval.scalarMap b v - Dyadic.toReal b.lower) /
        (Dyadic.toReal b.upper - Dyadic.toReal b.lower)) - Real.log (1 +
          -((interval.scalarMap b v - Dyadic.toReal b.lower) /
            (Dyadic.toReal b.upper - Dyadic.toReal b.lower))) = v
      rw [hratio, log_sigmoid_sub_log]

/-!
# Slopes
-/

theorem hasDerivAt_scalarMap (h : b.Spans c) (v : ℝ) :
    ∃ m, HasDerivAt (c.scalarMap b) m v ∧ m ≠ 0 ∧ Real.log |m| = c.scalarLogSlope b v := by
  cases h with
  | unconstrained _ _ =>
      refine ⟨1, hasDerivAt_id v, one_ne_zero, ?_⟩
      rw [abs_one, Real.log_one]
      rfl
  | upperBounded _ _ =>
      refine ⟨-Real.exp v, (Real.hasDerivAt_exp v).const_sub _, neg_ne_zero.mpr
        (Real.exp_pos v).ne', ?_⟩
      rw [abs_neg, abs_of_pos (Real.exp_pos v), Real.log_exp]
      rfl
  | lowerBounded _ _ =>
      refine ⟨Real.exp v, (Real.hasDerivAt_exp v).add_const _, (Real.exp_pos v).ne', ?_⟩
      rw [abs_of_pos (Real.exp_pos v), Real.log_exp]
      rfl
  | interval _ _ hlt =>
      have hwidth : 0 < Dyadic.toReal b.upper - Dyadic.toReal b.lower := sub_pos.mpr hlt
      have hslope : 0 < Real.sigmoid v * (1 - Real.sigmoid v) :=
        mul_pos (Real.sigmoid_pos v) (sub_pos.mpr (Real.sigmoid_lt_one v))
      have hpos := mul_pos hslope hwidth
      refine ⟨_, ((Real.hasDerivAt_sigmoid v).mul_const _).add_const _, hpos.ne', ?_⟩
      rw [abs_of_pos hpos, Real.log_mul hslope.ne' hwidth.ne',
        Real.log_mul (Real.sigmoid_pos v).ne' (sub_pos.mpr (Real.sigmoid_lt_one v)).ne']
      have hother : Real.log (1 - Real.sigmoid v) = -Real.log (1 + Real.exp v) := by
        rw [← Real.sigmoid_neg, Real.sigmoid_def, neg_neg, Real.log_inv]
      have hratio := log_sigmoid_sub_log v
      rw [← sub_eq_add_neg, hother] at hratio
      have htwo : (Scalar.ofNat 2 : ℝ) = 2 := Nat.cast_ofNat
      unfold scalarLogSlope
      rw [hother, htwo]
      linarith

theorem log_abs_deriv_scalarMap (h : b.Spans c) (v : ℝ) :
    Real.log |deriv (c.scalarMap b) v| = c.scalarLogSlope b v := by
  rcases hasDerivAt_scalarMap h v with ⟨m, hm, _, hlog⟩
  rw [hm.deriv, hlog]

theorem logJacobian_eq_sum (h : b.Spans c) (hc : c ≠ .unconstrained) (x : Tensor ℝ) :
    c.logJacobian (Scalar.literal b.lower) (Scalar.literal b.upper) x =
      .ok (x.map (c.scalarLogSlope b)).sumEvent := by
  cases h with
  | unconstrained _ _ => exact absurd rfl hc
  | upperBounded _ _ => exact congrArg (fun t => Except.ok t.sumEvent) (map_id_tensor x).symm
  | lowerBounded _ _ => exact congrArg (fun t => Except.ok t.sumEvent) (map_id_tensor x).symm
  | interval _ _ hlt =>
      have hwidth : Scalar.lessEq ((Scalar.literal b.upper : ℝ) - Scalar.literal b.lower)
          Scalar.zero = false := by
        rw [Scalar.zero_real]
        exact Scalar.lessEq_real (sub_pos.mpr hlt)
      unfold logJacobian
      rw [if_neg (ne_true_of_eq_false hwidth)]
      rfl

theorem exists_logJacobianBetween (h : b.Spans c) {k size : Nat} {x : Tensor ℝ}
    (hx : x.shape = [k, size]) :
    ∃ a, c.logJacobianBetween b x = .ok a ∧ a.shape = [k] ∧ forall i, i < k ->
      a.get [i] = ((x.row i).toList.map fun v => Real.log |deriv (c.scalarMap b) v|).sum := by
  simp only [log_abs_deriv_scalarMap h]
  unfold logJacobianBetween
  by_cases hc : c = .unconstrained
  · subst hc
    refine ⟨Tensor.full [k] Scalar.zero, ?_, rfl, ?_⟩
    · unfold logJacobian
      simp only [hx, List.head?_cons]
    · intro i hi
      have hzero : (Tensor.full [k] (Scalar.zero : ℝ)).get [i] = 0 :=
        (Tensor.get_ofFn _ (show Shape.Within [k] [i] from ⟨hi, trivial⟩)).trans
          Scalar.zero_real
      rw [hzero]
      exact List.sum_map_zero.symm
  · rw [logJacobian_eq_sum h hc]
    have hslopes : (x.map (c.scalarLogSlope b)).shape = [k, size] := hx
    rcases Tensor.sumEvent_rows hslopes with ⟨hshape, hrows⟩
    refine ⟨_, rfl, hshape, ?_⟩
    intro i hi
    rw [Tensor.get_single hshape, hrows i hi, Tensor.row_map _ hx hi, Tensor.toList_map,
      Scalar.sum_real]
    rfl

/-!
# Arrays of numbers
-/

theorem accepts_of_contains (h : b.Spans c) (hy : b.Contains (finite y)) :
    c.accepts (Scalar.literal b.lower) (Scalar.literal b.upper) y = true := by
  cases h with
  | unconstrained _ _ => rfl
  | upperBounded hlower hupper =>
      have hlt := hy.lt_upper hupper
      change (!Scalar.lessEq (Dyadic.toReal b.upper) y) = true
      rw [Scalar.lessEq_real hlt]
      rfl
  | lowerBounded hlower hupper =>
      have hlt := hy.lower_lt hlower
      change (!(Scalar.lessEq y (Dyadic.toReal b.lower) || false)) = true
      rw [Scalar.lessEq_real hlt]
      rfl
  | interval hlower hupper _ =>
      have hl := hy.lower_lt hlower
      have hu := hy.lt_upper hupper
      change (!(Scalar.lessEq y (Dyadic.toReal b.lower) ||
        Scalar.lessEq (Dyadic.toReal b.upper) y)) = true
      rw [Scalar.lessEq_real hl, Scalar.lessEq_real hu]
      rfl

theorem ext_toList {t u : Tensor ℝ} (hshape : t.shape = u.shape) (h : t.toList = u.toList) :
    t = u := by
  rcases t with ⟨s, xs, hxs⟩
  rcases u with ⟨s', ys, hys⟩
  cases hshape
  cases Array.toList_inj.mp h
  rfl

theorem exists_scalar_equiv (h : b.Spans c) (d : Shape) :
    ∃ e : {x : List ℝ // x.length = d.size} ≃
        {t : Tensor ℝ // t.shape = d ∧ forall y, y ∈ t.toList -> b.Contains (finite y)},
      (forall x, (e x).1.toList = x.1.map (c.scalarMap b)) ∧
        forall t, c.inverse (Scalar.literal b.lower) (Scalar.literal b.upper) t.1 =
          .ok (e.symm t).1 := by
  let g := c.inverseScalar (Scalar.literal b.lower : ℝ) (Scalar.literal b.upper)
  let e : {x : List ℝ // x.length = d.size} ≃
      {t : Tensor ℝ // t.shape = d ∧ forall y, y ∈ t.toList -> b.Contains (finite y)} :=
    { toFun := fun x => ⟨⟨d, (x.1.map (c.scalarMap b)).toArray, by simp [x.2]⟩, rfl, by
        intro y hy
        rcases List.mem_map.mp hy with ⟨v, _, rfl⟩
        exact contains_scalarMap h v⟩
      invFun := fun t => ⟨t.1.toList.map g, by
        rw [List.length_map, Tensor.length_toList, t.2.1]⟩
      left_inv := by
        rintro ⟨x, hx⟩
        apply Subtype.ext
        change (x.map (c.scalarMap b)).map g = x
        rw [List.map_map]
        exact (List.map_congr_left fun v _ => inverseScalar_scalarMap h v).trans (List.map_id' x)
      right_inv := by
        rintro ⟨t, ht⟩
        apply Subtype.ext
        apply ext_toList ht.1.symm
        change (t.toList.map g).map (c.scalarMap b) = t.toList
        rw [List.map_map]
        exact (List.map_congr_left fun y hy => scalarMap_inverseScalar h (ht.2 y hy)).trans
          (List.map_id' _) }
  refine ⟨e, fun _ => rfl, ?_⟩
  intro t
  apply inverse_of_accepts h.isMatrix
  rw [List.all_eq_true]
  intro y hy
  exact accepts_of_contains h (t.2.2 y hy)

theorem joins_self (d : Shape) : Shape.Joins d d d := by
  induction d with
  | nil => exact .nil
  | cons k d ih => exact .cons (Shape.joinAxis?_self k) ih

theorem broadcastTo?_self {t : Tensor ℝ} {d : Shape} (h : t.shape = d) :
    t.broadcastTo? d = some t := by
  have hsame : t.broadcast d = t := by
    apply Tensor.ext_get h.symm
    intro index hindex
    have hwithin : d.Within index := hindex
    unfold Tensor.broadcast
    rw [Tensor.get_ofFn _ hwithin, h, Shape.project_self hwithin]
  unfold Tensor.broadcastTo?
  rw [h, (joins_self d).join?, if_pos rfl, hsame]

theorem toList_row_reshape? {t u : Tensor ℝ} {k : Nat} {s d : Shape} (h : t.shape = k :: s)
    (hsize : d.size = s.size) (hu : t.reshape? (k :: d) = some u) (i : Nat) :
    (u.row i).toList = (t.row i).toList := by
  unfold Tensor.reshape? Tensor.ofArray? at hu
  split at hu
  · cases hu
    rw [Tensor.toList_row h, Tensor.toList_row rfl, hsize]
    apply List.map_congr_left
    intro q hq
    have hlt : q < s.size := List.mem_range.mp hq
    unfold Tensor.get
    simp only [h, Shape.offset]
    rw [Shape.offset_unravel hlt, Shape.offset_unravel (hsize ▸ hlt), hsize]
  · cases hu

theorem exists_fromFree_scalar (h : b.Spans c) {d : Shape} (hd : d.IsDim) {k : Nat}
    {x : Tensor ℝ} (hx : x.shape = [k, d.size]) :
    ∃ t, c.fromFree b d x = .ok t ∧ t.shape = k :: d ∧ forall i, i < k ->
      (t.row i).toList = (x.row i).toList.map (c.scalarMap b) := by
  have hforward := forward_eq_map h.isMatrix (b := b) x
  have hshape : (x.map (c.scalarMap b)).shape = k :: [d.size] := hx
  have hsize : d.size = Shape.size [d.size] := (Nat.mul_one _).symm
  rcases Tensor.exists_reshapeRows hshape hd.positive hsize with ⟨t, ht, htshape, hreshape⟩
  refine ⟨t, ?_, htshape, ?_⟩
  · unfold fromFree
    rw [hforward]
    simp only [ht]
    rfl
  · intro i hi
    rw [toList_row_reshape? hshape hsize hreshape, Tensor.row_map _ hx hi, Tensor.toList_map]

end Constraint

/-!
# Variables that are built from bounds
-/

namespace Action

open Constraint

/-- A variable that can be built from bounds has free vectors that correspond one to one to the
arrays of its shape with all entries between the bounds.  Values and Jacobians are made row by
row: the values by a map of each entry, the Jacobians from its slopes. -/
theorem exists_bounded_equiv {w w' : Workspace} {lower upper dim : Value} {id : NodeId}
    (h : (newVariable lower upper dim .none).run w = (.ok id, w')) :
    ∃ b d nv size, (bounds lower upper).run w = (.ok b, w) ∧ dim.toDim = .ok d ∧
      w'.node? id = some (Node.lone d nv (.latent b (.ofBounds b) size)) ∧
      ∃ (e : {x : List ℝ // x.length = size} ≃
          {t : Tensor ℝ // t.shape = d ∧ forall y, y ∈ t.toList -> b.Contains (finite y)})
        (f : ℝ → ℝ),
        (forall v, DifferentiableAt ℝ f v ∧ deriv f v ≠ 0) ∧
        (forall x, (e x).1.toList = x.1.map f) ∧
        (forall t, t.1.broadcastTo? d = some t.1 ∧
          (Constraint.ofBounds b).inverse (Scalar.literal b.lower) (Scalar.literal b.upper)
            t.1 = .ok (e.symm t).1) ∧
        forall (k : Nat) (free : Tensor ℝ), free.shape = [k, size] -> ∃ t a,
          (Constraint.ofBounds b).fromFree b d free = .ok t ∧ t.shape = k :: d ∧
          (Constraint.ofBounds b).logJacobianBetween b free = .ok a ∧ a.shape = [k] ∧
          forall i, i < k -> ∃ hi : (free.row i).toList.length = size,
            t.row i = (e ⟨(free.row i).toList, hi⟩).1 ∧
            a.get [i] = ((free.row i).toList.map fun v => Real.log |deriv f v|).sum := by
  rcases exists_of_newVariable h with ⟨b, d, size, hbounds, hd, hnode, hspans, rfl⟩
  rcases exists_scalar_equiv hspans d with ⟨e, he, hinverse⟩
  refine ⟨b, d, NodeValue.blank d, d.size, hbounds, hd, hnode, e,
    (Constraint.ofBounds b).scalarMap b, ?_, he, ?_, ?_⟩
  · intro v
    rcases hasDerivAt_scalarMap hspans v with ⟨m, hm, hne, _⟩
    exact ⟨hm.differentiableAt, hm.deriv ▸ hne⟩
  · intro t
    exact ⟨broadcastTo?_self t.2.1, hinverse t⟩
  · intro k free hfree
    rcases exists_fromFree_scalar hspans (Value.isDim_toDim hd) hfree with ⟨t, ht, htshape, hrows⟩
    rcases exists_logJacobianBetween hspans hfree with ⟨a, ha, hashape, hentries⟩
    refine ⟨t, a, ht, htshape, ha, hashape, ?_⟩
    intro i hi
    have hrow : (free.row i).toList.length = d.size := by
      rw [Tensor.length_toList, Tensor.shape_row hfree, Shape.size_cons, Shape.size_nil,
        Nat.mul_one]
    refine ⟨hrow, ?_, hentries i hi⟩
    apply ext_toList
    · rw [Tensor.shape_row htshape, (e _).2.1]
    · rw [hrows i hi, he]

theorem exists_bounded_equiv_unit :
    ∃ id w', (newVariable (.float 0.0) (.float 1.0) (.int 2) .none).run (.empty default true) =
        (.ok id, w') ∧
      ∃ b d nv size t, w'.node? id = some (Node.lone d nv (.latent b (.ofBounds b) size)) ∧
        (Constraint.ofBounds b).fromFree b d (Tensor.full [3, size] (0 : ℝ)) = .ok t ∧
          t.shape = 3 :: d := by
  rcases exists_run_of_isOk (show ((newVariable (.float 0.0) (.float 1.0) (.int 2) .none).run
    (.empty default true)).1.isOk = true by decide +kernel) with ⟨id, w', hrun⟩
  rcases exists_bounded_equiv hrun with ⟨b, d, nv, size, _, _, hnode, _, _, _, _, _, hrows⟩
  rcases hrows 3 (Tensor.full [3, size] 0) rfl with ⟨t, _, ht, hshape, _⟩
  exact ⟨id, w', hrun, b, d, nv, size, t, hnode, ht, hshape⟩

end Action
end DensityGraph
