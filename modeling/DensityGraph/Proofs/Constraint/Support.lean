import DensityGraph.Proofs.Constraint.Finite
import DensityGraph.Proofs.Graph.Build
import DensityGraph.Proofs.Scalar.Order
/-!
# Values in the support

The transform of a variable is usable if it takes every batch of finite free vectors to finite
values in the support of the variable, and if their Jacobians are finite, too.  The constraint
that belongs to the bounds has this property, and so have those of matrices.  A scalar
constraint that is asked for by its tag does not have the bounds that it needs.
-/

namespace DensityGraph

open Extended

/-!
# Bounds as extended numbers
-/

namespace Interval

variable {b : Interval} {c : Constraint}

inductive Spans (b : Interval) : Constraint → Prop where
  | unconstrained : ofFloat b.lower = infinite true -> ofFloat b.upper = infinite false ->
      Spans b .unconstrained
  | upperBounded : ofFloat b.lower = infinite true ->
      ofFloat b.upper = finite (Dyadic.toReal b.upper) -> Spans b .upperBounded
  | lowerBounded : ofFloat b.lower = finite (Dyadic.toReal b.lower) ->
      ofFloat b.upper = infinite false -> Spans b .lowerBounded
  | interval : ofFloat b.lower = finite (Dyadic.toReal b.lower) ->
      ofFloat b.upper = finite (Dyadic.toReal b.upper) ->
      Dyadic.toReal b.lower < Dyadic.toReal b.upper -> Spans b .interval

theorem Fits.spans (h : b.Fits c) : b.Spans (Constraint.ofBounds b) := by
  have hlower : (b.lower == whole.lower) = true -> ofFloat b.lower = infinite true := fun heq =>
    ofFloat_of_infinity (unpack_of_beq (show IsInfinity .negative _ = true by decide +kernel) heq)
  have hupper : (b.upper == whole.upper) = true -> ofFloat b.upper = infinite false := fun heq =>
    ofFloat_of_infinity (unpack_of_beq (show IsInfinity .positive _ = true by decide +kernel) heq)
  have hproper := h.proper
  unfold isProper at hproper
  generalize hc : Constraint.ofBounds b = c' at hproper ⊢
  unfold Constraint.ofBounds at hc
  split at hc
  · rename_i hwhole
    rw [Bool.and_eq_true] at hwhole
    rw [← hc]
    exact .unconstrained (hlower hwhole.1) (hupper hwhole.2)
  · split at hc
    · rename_i hbelow
      rw [← hc] at hproper ⊢
      exact .upperBounded (hlower hbelow) (ofFloat_of_isFinite hproper)
    · split at hc
      · rename_i habove
        rw [← hc] at hproper ⊢
        exact .lowerBounded (ofFloat_of_isFinite hproper) (hupper habove)
      · rw [← hc] at hproper ⊢
        rw [Bool.and_eq_true] at hproper
        exact .interval (ofFloat_of_isFinite hproper.1) (ofFloat_of_isFinite hproper.2)
          (Dyadic.toReal_lt hproper.2 hproper.1 h.ordered)

end Interval

namespace Constraint

/-!
# Usable transforms
-/

/-- Whether the values of a batch of `k` free vectors lie in the support: strictly between the
bounds, or among the matrices of the constraint. -/
def Supports (c : Constraint) (b : Interval) (dim : Shape) (k : Nat) (t : Tensor ℝ) : Prop :=
  match c with
  | correlation => ∃ n, dim = [n, n] ∧ forall r, r < k -> IsCorrelation n (t.row r)
  | covariance => ∃ n, dim = [n, n] ∧ forall r, r < k -> IsCovariance n (t.row r)
  | _ => forall y, y ∈ t.toList -> Scalar.less (Scalar.literal b.lower) (finite y) = true ∧
      Scalar.less (finite y) (Scalar.literal b.upper) = true

/-- Whether all finite free tensors have finite values in the support, and finite Jacobians. -/
def Usable (c : Constraint) (b : Interval) (dim : Shape) (size : Nat) : Prop :=
  forall (k : Nat) (free : Tensor ℝ), free.shape = [k, size] -> ∃ t a : Tensor ℝ,
    c.fromFree b dim (free.map finite) = .ok (t.map finite) ∧ t.shape = k :: dim ∧
      c.Supports b dim k t ∧
        c.logJacobianBetween b (free.map finite) = .ok (a.map finite) ∧ a.shape = [k]

variable {c : Constraint} {b : Interval} {dim : Shape} {size k : Nat} {x : Tensor ℝ}

/-!
# Constraints that have their bounds

A constraint that belongs to its bounds has the numbers strictly between them as its values.
-/

theorem between_of_fits (h : b.Fits c) (hc : c.isMatrix = true ∨ c = ofBounds b) :
    c.Between (Scalar.literal b.lower) (Scalar.literal b.upper) (Scalar.literal b.lower)
      (Scalar.literal b.upper) := by
  rcases hc with hmatrix | hbounds
  · constructor
    · intro hlower
      rcases hlower with rfl | rfl <;> cases hmatrix
    · intro hupper
      rcases hupper with rfl | rfl <;> cases hmatrix
    · intro hordered
      rw [hordered] at hmatrix
      cases hmatrix
  · have hspans := h.spans
    rw [← hbounds] at hspans
    cases hspans with
    | unconstrained hlower hupper => exact ⟨by simp, by simp, by simp⟩
    | upperBounded hlower hupper => exact ⟨by simp, fun _ => hupper, by simp⟩
    | lowerBounded hlower hupper => exact ⟨fun _ => hlower, by simp, by simp⟩
    | interval hlower hupper hlt => exact ⟨fun _ => hlower, fun _ => hupper, fun _ => hlt⟩

theorem fromFree_finite (h : b.Fits c) (hc : c.isMatrix = true ∨ c = ofBounds b)
    (hsize : (c.freeSize? (dim.map Int.ofNat)).map Int.toNat = some size)
    (hx : x.shape = [k, size]) :
    c.fromFree b dim (x.map finite) = (c.fromFree b dim x).map (Tensor.map finite) := by
  unfold fromFree
  rw [forward_finite (between_of_fits h hc) hsize hx]
  cases c.forward (Scalar.literal b.lower : ℝ) (Scalar.literal b.upper) x with
  | error fault => rfl
  | ok t =>
      have hreshape : forall r : Except Refusal (Tensor ℝ),
          Refusal.lift (r.map (Tensor.map finite)) =
            (Refusal.lift r).map (Tensor.map finite) := by
        intro r
        cases r <;> rfl
      change Refusal.lift ((t.map finite).reshapeRows _) = _
      rw [Tensor.reshapeRows_map, hreshape]

theorem logJacobianBetween_finite (h : b.Fits c) (hc : c.isMatrix = true ∨ c = ofBounds b)
    (hsize : (c.freeSize? (dim.map Int.ofNat)).map Int.toNat = some size)
    (hx : x.shape = [k, size]) :
    c.logJacobianBetween b (x.map finite) =
      (c.logJacobianBetween b x).map (Tensor.map finite) := by
  unfold logJacobianBetween
  rw [logJacobian_finite (between_of_fits h hc) hsize hx]
  cases c.logJacobian (Scalar.literal b.lower : ℝ) (Scalar.literal b.upper) x with
  | error fault => rfl
  | ok t => rfl

theorem exists_fromFree {α : Type} [Scalar α] {x : Tensor α} (b : Interval) (hdim : dim.IsDim)
    (hsize : (c.freeSize? (dim.map Int.ofNat)).map Int.toNat = some size)
    (hx : x.shape = [k, size]) :
    ∃ t u, c.forward (Scalar.literal b.lower) (Scalar.literal b.upper) x = .ok t ∧
      c.fromFree b dim x = .ok u ∧ u.shape = k :: dim ∧ t.reshape? (k :: dim) = some u := by
  rcases forward_rowWise (Scalar.literal b.lower : α) (Scalar.literal b.upper) hsize with
    ⟨s, hs, hforward⟩
  rcases hforward.single with ⟨g, hg⟩
  rcases hg k x hx with ⟨t, ht, hshape, _⟩
  rcases Tensor.exists_reshapeRows hshape hdim.positive hs.symm with ⟨u, hu, hushape, hreshape⟩
  refine ⟨t, u, ht, ?_, hushape, hreshape⟩
  unfold onFree at ht
  rw [List.headD_cons] at ht
  unfold fromFree
  rw [ht]
  simp only [hu]
  rfl

theorem exists_value {n m : Nat} {P : Tensor ℝ → Prop} {f : List ℝ → Rows ℝ} {l u : ℝ}
    (h : MakesMatrices c l u m n f) (hP : forall v : List ℝ, v.length = m -> ∃ t,
      c.forward l u (Tensor.vector v) = .ok t ∧ P t) (hx : x.shape = [k, m]) :
    ∃ t, c.forward l u x = .ok t ∧ t.shape = [k, n, n] ∧ forall r, r < k -> P (t.row r) := by
  rcases h.batch hx with ⟨t, ht, hshape, hrows⟩
  refine ⟨t, ht, hshape, ?_⟩
  intro r hr
  have hlength : (x.row r).toList.length = m := by
    rw [Tensor.length_toList, Tensor.shape_row hx, Shape.size_cons, Shape.size_nil, Nat.mul_one]
  rcases hP _ hlength with ⟨s, hs, hvalue⟩
  rw [hrows r hr] at hs
  exact Except.ok.inj hs ▸ hvalue

theorem supports_of_isMatrix_false {t : Tensor ℝ} (hmatrix : c.isMatrix = false)
    (h : forall y, y ∈ t.toList -> Scalar.less (Scalar.literal b.lower) (finite y) = true ∧
      Scalar.less (finite y) (Scalar.literal b.upper) = true) : c.Supports b dim k t := by
  cases c with
  | correlation => cases hmatrix
  | covariance => cases hmatrix
  | _ => exact h

theorem less_of_spans (h : b.Spans c) {t : Tensor ℝ}
    (ht : c.forward (Scalar.literal b.lower) (Scalar.literal b.upper) x = .ok t) {y : ℝ}
    (hy : y ∈ t.toList) : less (ofFloat b.lower) (finite y) = true ∧
      less (finite y) (ofFloat b.upper) = true := by
  have hentry : forall f : ℝ → ℝ, t = x.map f -> ∃ v, y = f v := by
    intro f hf
    rw [hf, Tensor.toList_map] at hy
    rcases List.mem_map.mp hy with ⟨v, _, hv⟩
    exact ⟨v, hv.symm⟩
  cases h with
  | unconstrained hlower hupper =>
      rw [hlower, hupper]
      exact ⟨rfl, rfl⟩
  | upperBounded hlower hupper =>
      cases ht
      rcases hentry _ rfl with ⟨v, rfl⟩
      rw [hlower, hupper]
      exact ⟨rfl, decide_eq_true (sub_lt_self _ (Real.exp_pos v))⟩
  | lowerBounded hlower hupper =>
      cases ht
      rcases hentry _ rfl with ⟨v, rfl⟩
      rw [hlower, hupper]
      exact ⟨decide_eq_true (lt_add_of_pos_left _ (Real.exp_pos v)), rfl⟩
  | interval hlower hupper hlt =>
      cases ht
      rcases hentry _ rfl with ⟨v, rfl⟩
      have hwidth := sub_pos.mpr hlt
      have hpos := mul_pos (Real.sigmoid_pos v) hwidth
      have hlt' := mul_lt_of_lt_one_left hwidth (Real.sigmoid_lt_one v)
      rw [hlower, hupper]
      exact ⟨decide_eq_true (lt_add_of_pos_left _ hpos),
        decide_eq_true (lt_sub_iff_add_lt.mp hlt')⟩

theorem supports_of_reshape? (h : b.Fits c) (hc : c.isMatrix = true ∨ c = ofBounds b)
    (hsize : (c.freeSize? (dim.map Int.ofNat)).map Int.toNat = some size)
    (hx : x.shape = [k, size]) {t u : Tensor ℝ}
    (ht : c.forward (Scalar.literal b.lower) (Scalar.literal b.upper) x = .ok t)
    (hu : t.reshape? (k :: dim) = some u) : c.Supports b dim k u := by
  rcases freeSize_cases hsize with
    ⟨rfl, n, rfl, hn, rfl⟩ | ⟨rfl, n, rfl, hn, rfl⟩ | ⟨hmatrix, _⟩
  · rcases exists_value (P := IsCorrelation (n + 1))
      (makesMatrices_correlation (Scalar.literal b.lower) (Scalar.literal b.upper) hn)
      (fun v hv => (inverse_forward _ _ hn hv).imp fun _ h => ⟨h.1, h.2.1⟩) hx with
      ⟨t', ht', hshape, hrows⟩
    rw [ht] at ht'
    cases ht'
    rw [← hshape, Tensor.reshape?_self] at hu
    cases hu
    exact ⟨n + 1, rfl, hrows⟩
  · rcases exists_value (P := IsCovariance n)
      (makesMatrices_covariance (Scalar.literal b.lower) (Scalar.literal b.upper) hn)
      (fun v hv => (exists_covariance _ _ hn hv).imp fun _ h => ⟨h.1, h.2.1⟩) hx with
      ⟨t', ht', hshape, hrows⟩
    rw [ht] at ht'
    cases ht'
    rw [← hshape, Tensor.reshape?_self] at hu
    cases hu
    exact ⟨n, rfl, hrows⟩
  · have hbounds : c = ofBounds b := by
      rcases hc with hmatrix' | hbounds
      · rw [hmatrix] at hmatrix'
        cases hmatrix'
      · exact hbounds
    have hspans := h.spans
    rw [← hbounds] at hspans
    apply supports_of_isMatrix_false hmatrix
    intro y hy
    rw [Tensor.toList_of_reshape? hu] at hy
    exact less_of_spans hspans ht hy

theorem usable_of_fits (h : b.Fits c) (hc : c.isMatrix = true ∨ c = ofBounds b)
    (hdim : dim.IsDim) (hsize : (c.freeSize? (dim.map Int.ofNat)).map Int.toNat = some size) :
    c.Usable b dim size := by
  intro k x hx
  rcases exists_fromFree b hdim hsize hx with ⟨t, u, ht, hu, hshape, hreshape⟩
  have hwidth : c = interval ->
      Scalar.lessEq ((Scalar.literal b.upper : ℝ) - Scalar.literal b.lower) Scalar.zero = false := by
    intro hinterval
    rw [Scalar.zero_real]
    exact Scalar.lessEq_real (sub_pos.mpr ((between_of_fits h hc).ordered hinterval))
  rcases (logJacobianBetween_rowWise b hwidth hsize).single with ⟨g, hg⟩
  rcases hg k x hx with ⟨a, ha, hashape, _⟩
  refine ⟨u, a, ?_, hshape, supports_of_reshape? h hc hsize hx ht hreshape, ?_, hashape⟩
  · rw [fromFree_finite h hc hsize hx, hu]
    rfl
  · rw [logJacobianBetween_finite h hc hsize hx]
    exact congrArg (Except.map (Tensor.map finite)) ha

/-!
# Constraints without their bounds
-/

theorem exists_forward_infinite (hmatrix : c.isMatrix = false) (hc : c ≠ unconstrained)
    (x : Tensor ℝ) : ∃ g : ℝ → Extended, (forall v, (g v).isFinite = false) ∧
      c.forward (infinite true) (infinite false) (x.map finite) = .ok (x.map g) := by
  have hmap : forall g : Extended → Extended, (x.map finite).map g = x.map (g ∘ finite) := by
    intro g
    unfold Tensor.map
    simp only [Array.map_map]
  cases c with
  | unconstrained => exact absurd rfl hc
  | interval =>
      refine ⟨_, ?_, congrArg Except.ok (hmap _)⟩
      intro v
      have hpos : ¬Real.sigmoid v = 0 := ne_of_gt (Real.sigmoid_pos v)
      have hneg : ¬Real.sigmoid v < 0 := not_lt_of_gt (Real.sigmoid_pos v)
      have hscale : mul (finite (Real.sigmoid v)) (infinite false) = infinite false := by
        change scale false (Real.sigmoid v) = _
        unfold scale
        rw [if_neg hpos, decide_eq_false hneg]
        rfl
      change isFinite (add (mul (finite (Real.sigmoid v)) (infinite false)) (infinite true)) = false
      rw [hscale]
      rfl
  | upperBounded => exact ⟨_, fun _ => rfl, congrArg Except.ok (hmap _)⟩
  | lowerBounded => exact ⟨_, fun _ => rfl, congrArg Except.ok (hmap _)⟩
  | correlation => cases hmatrix
  | covariance => cases hmatrix

theorem not_usable_of_unconstrained (h : b.Fits c) (hb : ofBounds b = unconstrained)
    (hmatrix : c.isMatrix = false) (hc : c ≠ unconstrained) (hdim : dim.IsDim)
    (hsize : (c.freeSize? (dim.map Int.ofNat)).map Int.toNat = some size) :
    ¬c.Usable b dim size := by
  intro husable
  have hpos := freeSize_pos hdim hsize
  have hspans := h.spans
  rw [hb] at hspans
  cases hspans with
  | unconstrained hlower hupper =>
      let x : Tensor ℝ := Tensor.full [1, size] 0
      rcases husable 1 x rfl with ⟨t, _, ht, _⟩
      rcases exists_fromFree b hdim hsize (show (x.map finite).shape = [1, size] from rfl) with
        ⟨u, v, hu, hv, _, hreshape⟩
      rcases exists_forward_infinite hmatrix hc x with ⟨g, hg, hforward⟩
      change c.forward (ofFloat b.lower) (ofFloat b.upper) _ = _ at hu
      rw [hlower, hupper, hforward] at hu
      rw [hv] at ht
      cases ht
      cases hu
      have hentries := Tensor.toList_of_reshape? hreshape
      rw [Tensor.toList_map, Tensor.toList_map] at hentries
      have hlength : 0 < x.toList.length := by
        rw [Tensor.length_toList]
        show 0 < Shape.size [1, size]
        rwa [Shape.size_cons, Shape.size_cons, Shape.size_nil, Nat.one_mul, Nat.mul_one]
      have hmem : g x.toList[0] ∈ t.toList.map finite := by
        rw [hentries]
        exact List.mem_map_of_mem (List.getElem_mem hlength)
      rcases List.mem_map.mp hmem with ⟨y, _, hy⟩
      have hfalse := hg x.toList[0]
      rw [← hy] at hfalse
      cases hfalse

/-- A variable has a usable transform if and only if its constraint is one of matrices or that
of its bounds. -/
theorem usable_iff (h : b.Fits c) (hdim : dim.IsDim)
    (hsize : (c.freeSize? (dim.map Int.ofNat)).map Int.toNat = some size) :
    c.Usable b dim size ↔ c.isMatrix = true ∨ c = ofBounds b := by
  constructor
  · intro husable
    by_contra hnot
    rw [not_or, Bool.not_eq_true] at hnot
    rcases h.constraint with hbounds | hb
    · exact hnot.2 hbounds
    · exact not_usable_of_unconstrained h hb hnot.1 (hb ▸ hnot.2) hdim hsize husable
  · intro hc
    exact usable_of_fits h hc hdim hsize

end Constraint

/-!
# Variables that are built
-/

namespace Action

open Workspace

/-- A variable that can be built has a usable transform if and only if it was not asked for with
the tag of a constraint that needs bounds. -/
theorem usable_newVariable_iff {w w' : Workspace} {lower upper dim constraint : Value}
    {id : NodeId} (h : (newVariable lower upper dim constraint).run w = (.ok id, w')) :
    ∃ b c d nv size, (bounds lower upper).run w = (.ok b, w) ∧ dim.toDim = .ok d ∧
      w'.node? id = some (Node.lone d nv (.latent b c size)) ∧
        (c.Usable b d size ↔ constraint ≠ .text "both" ∧ constraint ≠ .text "low" ∧
          constraint ≠ .text "high") := by
  rcases (ends_newVariable_latent lower upper dim constraint).of_ok h with
    ⟨b, c, d, size, hbounds, hasked, hd, hfits, hsize, rfl, rfl⟩
  have hlength : w.nodes.length < w.reserve.nodes.length := by
    simp [Workspace.reserve]
  refine ⟨b, c, d, NodeValue.blank d, size, hbounds, hd, node?_put_self _ _ hlength, ?_⟩
  rw [Constraint.usable_iff hfits (Value.isDim_toDim hd) hsize]
  rcases hasked with ⟨rfl, hc⟩ | ⟨rfl, hb⟩
  · have htext : forall s, (.none : Value) ≠ .text s := by
      intro s hs
      cases hs
    exact ⟨fun _ => ⟨htext _, htext _, htext _⟩, fun _ => Or.inr hc⟩
  · rw [hb]
    cases c <;> simp [Constraint.tag, Constraint.isMatrix]

theorem usable_newVariable_iff_unit :
    ∃ id w', (newVariable (.float 0.0) (.float 1.0) (.int 2) .none).run (.empty default true) =
        (.ok id, w') ∧
      ∃ b c d nv size, (Value.int 2).toDim = .ok d ∧
        w'.node? id = some (Node.lone d nv (.latent b c size)) ∧ c.Usable b d size := by
  rcases exists_run_of_isOk (show ((newVariable (.float 0.0) (.float 1.0) (.int 2) .none).run
    (.empty default true)).1.isOk = true by decide +kernel) with ⟨id, w', hrun⟩
  rcases usable_newVariable_iff hrun with ⟨b, c, d, nv, size, _, hd, hnode, husable⟩
  exact ⟨id, w', hrun, b, c, d, nv, size, hd, hnode, husable.mpr ⟨nofun, nofun, nofun⟩⟩

theorem not_usable_tag :
    ∃ id w', (newVariable (.float (-(1.0 / 0.0))) (.float (1.0 / 0.0)) (.int 1)
        (.text "both")).run (.empty default true) = (.ok id, w') ∧
      ∃ b c d nv size, w'.node? id = some (Node.lone d nv (.latent b c size)) ∧
        ¬c.Usable b d size := by
  rcases exists_run_of_isOk (show ((newVariable (.float (-(1.0 / 0.0))) (.float (1.0 / 0.0))
    (.int 1) (.text "both")).run (.empty default true)).1.isOk = true by decide +kernel) with
    ⟨id, w', hrun⟩
  rcases (ends_newVariable_latent _ _ _ _).of_ok hrun with
    ⟨b, c, d, size, _, hasked, hd, hfits, hsize, rfl, rfl⟩
  have hlength : (Workspace.empty default true).nodes.length <
      (Workspace.empty default true).reserve.nodes.length := Nat.one_pos
  refine ⟨_, _, hrun, b, c, d, NodeValue.blank d, size, node?_put_self _ _ hlength, ?_⟩
  rcases hasked with ⟨hnone, _⟩ | ⟨htext, hb⟩
  · cases hnone
  · have hc : c = .interval := Constraint.tag_injective (Value.text.inj htext).symm
    rw [Constraint.usable_iff hfits (Value.isDim_toDim hd) hsize, hb, hc]
    simp [Constraint.isMatrix]

end Action
end DensityGraph
