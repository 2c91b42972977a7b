import DensityGraph.Proofs.Constraint.RowWise
import DensityGraph.Proofs.Distribution.Lift
import DensityGraph.Proofs.Graph.Declare
import DensityGraph.Proofs.Operation.RowWise
/-!
# Densities row by row

The density of a batch of targets is one number for each row, made from the same rows of
the target and the parameters, if all of them have equally many axes.
-/

namespace DensityGraph

namespace Tensor

variable {α : Type} [Scalar α] {ε : Type} {t : Tensor α} {ds : List Shape} {d e dim : Shape}
  {f : List (Tensor α) → Except ε (Tensor α)} {k : Nat}

theorem rowWise₃ {d₁ d₂ d₃ : Shape} (g : Tensor α → Tensor α → Tensor α → Tensor α)
    (hrow : forall k t u v, t.shape = k :: d₁ -> u.shape = k :: d₂ -> v.shape = k :: d₃ ->
      ∃ r, f [t, u, v] = .ok r ∧ r.shape = k :: dim ∧
        forall i, i < k -> r.row i = g (t.row i) (u.row i) (v.row i)) :
    RowWise f [d₁, d₂, d₃] dim := by
  refine ⟨fun rows => g (rows.headD default) (rows.tail.headD default)
    (rows.tail.tail.headD default), ?_⟩
  intro k ts hts
  rcases hts with _ | ⟨hfirst, hrest⟩
  rcases hrest with _ | ⟨hsecond, hrest⟩
  rcases hrest with _ | ⟨hthird, hrest⟩
  rcases hrest with _ | _
  exact hrow k _ _ _ hfirst hsecond hthird

theorem RowWise.congr {f' : List (Tensor α) → Except ε (Tensor α)} (hf : RowWise f ds dim)
    (heq : forall ts, ts.length = ds.length -> f' ts = f ts) : RowWise f' ds dim := by
  rcases hf with ⟨g, hg⟩
  refine ⟨g, ?_⟩
  intro k ts hts
  rw [heq ts hts.length_eq]
  exact hg k ts hts

theorem RowWise.shape_single {r : Tensor α} (hf : RowWise f ds dim)
    (hts : List.Forall₂ (fun t e => t.shape = 1 :: e) ts ds) (hr : f ts = .ok r) :
    r.shape = 1 :: dim := by
  rcases hf with ⟨g, hg⟩
  rcases hg 1 ts hts with ⟨q, hq, hshape, _⟩
  rw [hr] at hq
  cases hq
  exact hshape

theorem RowWise.sumEvent (hf : RowWise f ds dim) :
    RowWise (fun ts => (f ts).map Tensor.sumEvent) ds [] := by
  rcases hf with ⟨g, hg⟩
  refine ⟨fun rows => scalar (Scalar.sum (g rows).toList), ?_⟩
  intro k ts hts
  rcases hg k ts hts with ⟨r, hr, hshape, hrow⟩
  rcases sumEvent_rows hshape with ⟨hsum, hsums⟩
  refine ⟨r.sumEvent, congrArg (Except.map Tensor.sumEvent) hr, hsum, ?_⟩
  intro i hi
  rw [hsums i hi, hrow i hi]

theorem RowWise.tail (hf : RowWise f ds dim) (d : Shape) :
    RowWise (fun ts => f ts.tail) (d :: ds) dim := by
  rcases hf with ⟨g, hg⟩
  refine ⟨fun rows => g rows.tail, ?_⟩
  intro k ts hts
  cases hts with
  | cons _ hrest =>
      rcases hg k _ hrest with ⟨r, hr, hshape, hrow⟩
      exact ⟨r, hr, hshape, hrow⟩

theorem exists_joins_of_elementwise {op : α → α → α} {u r : Tensor α} (ht : t.shape = k :: d)
    (hu : u.shape = k :: e) (hlength : d.length = e.length) (h : elementwise op t u = .ok r) :
    ∃ s, Shape.Joins d e s := by
  have hjoin := join?_of_elementwise h
  rw [ht, hu] at hjoin
  have hjoins : Shape.Joins (k :: d) (k :: e) r.shape :=
    Shape.joins_of_join? hjoin (congrArg Nat.succ hlength)
  generalize r.shape = v at hjoins
  cases hjoins with
  | cons _ hrest => exact ⟨_, hrest⟩

theorem RowWise.elementwise {f f' : List (Tensor α) → Except Refusal (Tensor α)}
    (op : α → α → α) (hf : RowWise f ds d) (hf' : RowWise f' ds e)
    (hjoins : Shape.Joins d e dim) :
    RowWise (fun ts => do Tensor.elementwise op (← f ts) (← f' ts)) ds dim := by
  rcases hf with ⟨g, hg⟩
  rcases hf' with ⟨g', hg'⟩
  refine ⟨fun rows => ofFn dim fun index =>
    op ((g rows).get ((g rows).shape.project index))
      ((g' rows).get ((g' rows).shape.project index)), ?_⟩
  intro k ts hts
  rcases hg k ts hts with ⟨r, hr, hshape, hrow⟩
  rcases hg' k ts hts with ⟨r', hr', hshape', hrow'⟩
  rcases exists_elementwise op hjoins hshape hshape' with ⟨q, hq, hqshape, hqrow⟩
  refine ⟨q, ?_, hqshape, ?_⟩
  · simp only [hr, hr']
    exact hq
  · intro i hi
    rw [hqrow i hi, hrow i hi, hrow' i hi]

/-!
# Batches of single numbers
-/

theorem flatten_rows (ht : t.shape = [k, 1, 1]) : t.flatten.shape = [k] ∧
    forall i, i < k -> t.flatten.get [i] = (t.row i).get [0, 0] := by
  have hsize : t.shape.size = k := by
    rw [ht]
    simp [Shape.size]
  constructor
  · change [t.shape.size] = [k]
    rw [hsize]
  · intro i hi
    have hwithin : Shape.Within [t.shape.size] [i] := by
      rw [hsize]
      exact ⟨hi, trivial⟩
    have hrow : (t.row i).get [0, 0] = t.get [i, 0, 0] := by
      apply get_row ht
      exact ⟨Nat.one_pos, Nat.one_pos, trivial⟩
    unfold flatten
    rw [get_ofFn _ hwithin, hrow, ht]
    simp [Shape.unravel, Shape.size, Nat.mod_one]

omit [Scalar α] in
theorem joinShapes_single {ts : List (Tensor α)} (hts : forall t, t ∈ ts -> t.shape = [k]) :
    joinShapes [k] ts = .ok [k] := by
  induction ts with
  | nil => rfl
  | cons t ts ih =>
      have hjoins : Shape.Joins [k] [k] [k] :=
        Shape.Joins.cons (Shape.joinAxis?_self k) Shape.Joins.nil
      apply joinShapes_cons_eq_ok.mpr
      rw [hts t List.mem_cons_self]
      exact ⟨[k], hjoins.join?, ih fun u hu => hts u (List.mem_cons_of_mem t hu)⟩

theorem ofTensor_row {n i : Nat} (ht : t.shape = [k, n, n]) (hi : i < k) :
    Rows.ofTensor t (Shape.project [k] [i]) = Rows.ofTensor (t.row i) [] := by
  have hproject : Shape.project [k] [i] = [i] := by
    rw [Shape.project_row hi rfl]
    rfl
  have hshape : (t.row i).shape = [n, n] := shape_row ht
  unfold Rows.ofTensor Rows.ofFn
  rw [hproject, hshape, ht]
  apply List.map_congr_left
  intro a ha
  apply List.map_congr_left
  intro b hb
  have hwithin : Shape.Within [n, n] [a, b] :=
    ⟨List.mem_range.mp ha, List.mem_range.mp hb, trivial⟩
  exact (get_row ht hwithin).symm

end Tensor

namespace Distribution

open Tensor

variable {α : Type} [Scalar α]

/-!
# Matrices
-/

omit [Scalar α] in
theorem isSquare_batch {t : Tensor α} {k n : Nat} (ht : t.shape = [k, n, n]) :
    (t.rank < 2 || Tensor.rows t.shape ≠ columns t.shape) = false := by
  unfold rank
  rw [ht]
  simp [Tensor.rows, columns]

theorem correlationDensity_rows (dim : Shape) (n : Nat) : RowWise (α := α)
    (fun ts => correlationDensity dim (ts.tail.headD default) (ts.headD default))
    [[n, n], [1, 1]] [] := by
  apply rowWise₂ fun x eta => scalar (MatrixDensity.correlation (dim.headD 1)
    (eta.get [0, 0]) (Rows.ofTensor x []))
  intro k x eta hx heta
  rcases flatten_rows heta with ⟨hflat, hentry⟩
  have hbatch : batchShape x.shape = [k] := by
    rw [hx]
    rfl
  have hjoin : joinShapes [k] [eta.flatten] = .ok [k] := by
    apply joinShapes_single
    intro t ht
    rw [List.mem_singleton.mp ht]
    exact hflat
  have hr : correlationDensity dim eta x = .ok (ofFn [k] fun index =>
      MatrixDensity.correlation (dim.headD 1)
        (eta.flatten.get (eta.flatten.shape.project index))
        (Rows.ofTensor x (Shape.project [k] index))) := by
    unfold correlationDensity
    rw [isSquare_batch hx, hbatch]
    simp only [Bool.false_eq_true, if_false, hjoin]
    rfl
  refine ⟨_, hr, rfl, ?_⟩
  intro i hi
  have hproject : Shape.project [k] [i] = [i] := by
    rw [Shape.project_row hi rfl]
    rfl
  rw [row_single _ hi, hflat, hproject, hentry i hi, ← hproject, ofTensor_row hx hi]

theorem covarianceDensity_rows (n : Nat) : RowWise (α := α)
    (fun ts => covarianceDensity (ts.tail.headD default) (ts.tail.tail.headD default)
      (ts.headD default)) [[n, n], [1, 1], [n, n]] [] := by
  apply rowWise₃ fun x df sigma => scalar (MatrixDensity.covariance n (df.get [0, 0])
    (Rows.ofTensor sigma []) (Rows.ofTensor x []))
  intro k x df sigma hx hdf hsigma
  rcases flatten_rows hdf with ⟨hflat, hentry⟩
  have hbatch : batchShape x.shape = [k] := by
    rw [hx]
    rfl
  have hbatch' : batchShape sigma.shape = [k] := by
    rw [hsigma]
    rfl
  have hcolumns : columns x.shape = n := by
    rw [hx]
    rfl
  have hcolumns' : columns sigma.shape = n := by
    rw [hsigma]
    rfl
  have hjoin : joinShapes [k] [df.flatten] = .ok [k] := by
    apply joinShapes_single
    intro t ht
    rw [List.mem_singleton.mp ht]
    exact hflat
  have hjoins : Shape.join? [k] [k] = some [k] :=
    (Shape.Joins.cons (Shape.joinAxis?_self k) Shape.Joins.nil).join?
  have hr : covarianceDensity df sigma x = .ok (ofFn [k] fun index =>
      MatrixDensity.covariance n (df.flatten.get (df.flatten.shape.project index))
        (Rows.ofTensor sigma (Shape.project [k] index))
        (Rows.ofTensor x (Shape.project [k] index))) := by
    unfold covarianceDensity
    rw [isSquare_batch hx, hbatch, hbatch', hcolumns, hcolumns']
    simp only [Bool.false_eq_true, if_false, ne_eq, not_true_eq_false, hjoin]
    simp only [bind, Except.bind, pure, Except.pure, hjoins]
  refine ⟨_, hr, rfl, ?_⟩
  intro i hi
  have hproject : Shape.project [k] [i] = [i] := by
    rw [Shape.project_row hi rfl]
    rfl
  rw [row_single _ hi, hflat, hproject, hentry i hi, ← hproject, ofTensor_row hx hi,
    ofTensor_row hsigma hi]

/-!
# All families

A family combines the logarithms at a target and parameters and takes the mass of a
truncation from them.  That the result is made row by row is shown for functions of tensors
with equally many axes, and for the families of matrices, where all shapes are squares.
-/

def logs (d : Distribution) (dim : Shape) : List (Tensor α) → Except Refusal (Tensor α)
  | [] => .error .type
  | x :: ps =>
      match d.family, ps with
      | .lkj, [eta] => correlationDensity dim eta x
      | .wishart, [df, sigma] => covarianceDensity df sigma x
      | family, ps => lift family.logDensity x ps

def mass (d : Distribution) (p : Precision) (t : Interval) (ps : List (Tensor α)) :
    Except Refusal (Tensor α) :=
  mapAll (fun ps => d.family.logMass ps d.support t (Scalar.constant p t.lower)
    (Scalar.constant p t.upper)) ps

def total (d : Distribution) (p : Precision) (dim : Shape) (ts : List (Tensor α)) :
    Except Refusal (Tensor α) :=
  match d.truncation with
  | none => (d.logs dim ts).map sumEvent
  | some t => (do elementwise (· - ·) (← d.logs dim ts) (← d.mass p t ts.tail) :
      Except Refusal (Tensor α)).map sumEvent

variable {d : Distribution} {dim : Shape} {p : Precision} {ts ps : List (Tensor α)}
  {ds : List Shape} {x y : Tensor α}

theorem logs_of_isMatrix (h : d.family.isMatrix = false) :
    d.logs dim (x :: ps) = lift d.family.logDensity x ps := by
  unfold logs
  cases hcase : d.family with
  | lkj =>
      rw [hcase] at h
      cases h
  | wishart =>
      rw [hcase] at h
      cases h
  | _ => rfl

structure Squares (d : Distribution) (ds : List Shape) : Prop where
  target : ∃ n, ds.headD [] = [n, n]
  parameters : forall q, q ∈ d.family.parameterNames.zip ds.tail -> Shape.Scales q.1 q.2

theorem Squares.shapes_lkj (h : Squares d ds) (hcase : d.family = .lkj)
    (hlength : ds.length = d.family.parameterNames.length + 1) :
    ∃ n, ds = [[n, n], [1, 1]] := by
  rcases h.target with ⟨n, hn⟩
  have hparameters := h.parameters
  rw [hcase] at hlength hparameters
  match ds, hlength with
  | [e₀, e₁], _ =>
      have he₀ : e₀ = [n, n] := hn
      have he₁ : e₁ = [1, 1] :=
        (hparameters ("eta", e₁) List.mem_cons_self).single (show "eta" ≠ "sigma" by decide)
      exact ⟨n, by rw [he₀, he₁]⟩

theorem Squares.shapes_wishart (h : Squares d ds) (hcase : d.family = .wishart)
    (hlength : ds.length = d.family.parameterNames.length + 1) :
    ∃ n m, ds = [[n, n], [1, 1], [m, m]] := by
  rcases h.target with ⟨n, hn⟩
  have hparameters := h.parameters
  rw [hcase] at hlength hparameters
  match ds, hlength with
  | [e₀, e₁, e₂], _ =>
      have he₀ : e₀ = [n, n] := hn
      have he₁ : e₁ = [1, 1] :=
        (hparameters ("df", e₁) List.mem_cons_self).single (show "df" ≠ "sigma" by decide)
      rcases (hparameters ("sigma", e₂)
        (List.mem_cons_of_mem _ List.mem_cons_self)).square rfl with ⟨m, hsquare⟩
      have he₂ : e₂ = [m, m] := hsquare
      exact ⟨n, m, by rw [he₀, he₁, he₂]⟩

theorem logs_rowWise_lkj (hcase : d.family = .lkj) (h : Squares d ds)
    (hlength : ds.length = d.family.parameterNames.length + 1) :
    RowWise (α := α) (d.logs dim) ds [] := by
  rcases h.shapes_lkj hcase hlength with ⟨n, rfl⟩
  rcases correlationDensity_rows (α := α) dim n with ⟨g, hg⟩
  refine ⟨g, ?_⟩
  intro k us hus
  have hrow := hg k us hus
  rcases hus with _ | ⟨_, hus⟩
  rcases hus with _ | ⟨_, hus⟩
  rcases hus with _ | _
  unfold logs
  rw [hcase]
  exact hrow

theorem size_eq_of_covarianceDensity {df sigma : Tensor α} {n m : Nat}
    (hx : x.shape = [k, n, n]) (hsigma : sigma.shape = [k, m, m])
    (hok : covarianceDensity df sigma x = .ok y) : m = n := by
  unfold covarianceDensity at hok
  rw [isSquare_batch hx, hx, hsigma] at hok
  by_cases heq : m = n
  · exact heq
  · simp [columns, heq] at hok
    cases hok

theorem logs_rowWise_scales (hcase : d.family = .wishart) (h : Squares d ds)
    (hlength : ds.length = d.family.parameterNames.length + 1)
    (hscales : ds.getLast? = ds.head?) : RowWise (α := α) (d.logs dim) ds [] := by
  rcases h.shapes_wishart hcase hlength with ⟨n, m, rfl⟩
  cases hscales
  rcases covarianceDensity_rows (α := α) n with ⟨g, hg⟩
  refine ⟨g, ?_⟩
  intro k us hus
  have hrow := hg k us hus
  rcases hus with _ | ⟨_, hus⟩
  rcases hus with _ | ⟨_, hus⟩
  rcases hus with _ | ⟨_, hus⟩
  rcases hus with _ | _
  unfold logs
  rw [hcase]
  exact hrow

theorem scales_of_logs (hcase : d.family = .wishart) (h : Squares d ds)
    (hlength : ds.length = d.family.parameterNames.length + 1)
    (hts : List.Forall₂ (fun t e => t.shape = k :: e) ts ds) (hok : d.logs dim ts = .ok y) :
    ds.getLast? = ds.head? := by
  rcases h.shapes_wishart hcase hlength with ⟨n, m, rfl⟩
  rcases hts with _ | ⟨hx, hts⟩
  rcases hts with _ | ⟨_, hts⟩
  rcases hts with _ | ⟨hsigma, hts⟩
  rcases hts with _ | _
  unfold logs at hok
  rw [hcase] at hok
  have hm : m = n := size_eq_of_covarianceDensity hx hsigma hok
  rw [hm]
  rfl

theorem logs_rowWise_of_isMatrix (hfamily : d.family.isMatrix = true) (h : Squares d ds)
    (hlength : ds.length = d.family.parameterNames.length + 1)
    (hts : List.Forall₂ (fun t e => t.shape = 1 :: e) ts ds) (hok : d.logs dim ts = .ok y) :
    RowWise (α := α) (d.logs dim) ds [] := by
  cases hcase : d.family with
  | lkj => exact logs_rowWise_lkj hcase h hlength
  | wishart =>
      exact logs_rowWise_scales hcase h hlength (scales_of_logs hcase h hlength hts hok)
  | _ =>
      rw [hcase] at hfamily
      cases hfamily

def Level (ds : List Shape) : Prop :=
  ∃ r, forall e, e ∈ ds -> e.length = r

theorem mapAll_rowWise (f : List α → α) (hlevel : Level ds) (hne : ds ≠ [])
    (hts : List.Forall₂ (fun t e => t.shape = 1 :: e) ts ds) (hok : mapAll f ts = .ok y) :
    ∃ u, RowWise (mapAll f) ds u ∧ forall e, e ∈ ds -> e.length = u.length := by
  rcases hlevel with ⟨r, hr⟩
  cases hts with
  | nil => exact absurd rfl hne
  | @cons t e ts ds ht hrest =>
      have hlength : forall e', e' ∈ ds -> e'.length = e.length := by
        intro e' he'
        rw [hr e' (List.mem_cons_of_mem e he'), hr e List.mem_cons_self]
      rcases meets_of_mapAll ht hrest hlength hok with ⟨u, hu⟩
      refine ⟨u, ⟨_, mapAll_rows f hu⟩, ?_⟩
      intro e' he'
      exact (hu.stretches e' he').length_eq

/-- The shapes of a target and of the parameters of a family, for which the density of a
batch is made row by row. -/
structure Aligned (d : Distribution) (ds : List Shape) : Prop where
  length : ds.length = d.family.parameterNames.length + 1
  family : d.family ≠ .blank
  matrix : d.family.isMatrix = true -> Squares d ds ∧ d.truncation = none
  level : d.family.isMatrix = false -> Level ds

theorem Aligned.ne_nil (h : Aligned d ds) : ds ≠ [] := by
  rintro rfl
  exact absurd h.length.symm (Nat.succ_ne_zero _)

theorem parameterNames_ne_nil {family : Family} (h : family ≠ .blank) :
    family.parameterNames ≠ [] := by
  cases family <;> first | exact absurd rfl h | exact List.cons_ne_nil _ _

theorem total_of_truncation_none (h : d.truncation = none) :
    d.total (α := α) p dim = fun ts => (d.logs dim ts).map sumEvent := by
  funext ts
  unfold total
  rw [h]

theorem total_of_truncation_some {t : Interval} (h : d.truncation = some t) :
    d.total (α := α) p dim = fun ts => (do
      elementwise (· - ·) (← d.logs dim ts) (← d.mass p t ts.tail) :
        Except Refusal (Tensor α)).map sumEvent := by
  funext ts
  unfold total
  rw [h]

theorem logs_of_isMatrix_false (h : d.family.isMatrix = false) (hne : ts ≠ []) :
    d.logs dim ts = mapAll (fun
      | v :: ps => d.family.logDensity ps v
      | [] => Scalar.undefined) ts := by
  cases ts with
  | nil => exact absurd rfl hne
  | cons x ps => exact logs_of_isMatrix h

theorem logs_rowWise (h : Aligned d ds) (hfamily : d.family.isMatrix = false)
    (hts : List.Forall₂ (fun t e => t.shape = 1 :: e) ts ds) (hok : d.logs dim ts = .ok y) :
    ∃ u, RowWise (α := α) (d.logs dim) ds u ∧ forall e, e ∈ ds -> e.length = u.length := by
  have hne : forall {us : List (Tensor α)}, us.length = ds.length -> us ≠ [] := by
    rintro us hlength rfl
    exact h.ne_nil (List.length_eq_zero_iff.mp hlength.symm)
  rw [logs_of_isMatrix_false hfamily (hne hts.length_eq)] at hok
  rcases mapAll_rowWise _ (h.level hfamily) h.ne_nil hts hok with ⟨u, hrows, hlengths⟩
  refine ⟨u, hrows.congr ?_, hlengths⟩
  intro us hus
  exact logs_of_isMatrix_false hfamily (hne hus)

theorem mass_rowWise {t : Interval} (h : Aligned d ds) (hfamily : d.family.isMatrix = false)
    (hts : List.Forall₂ (fun t e => t.shape = 1 :: e) ts ds)
    (hok : d.mass p t ts.tail = .ok y) : ∃ u,
      RowWise (α := α) (fun ts => d.mass p t ts.tail) ds u ∧
        forall e, e ∈ ds -> e.length = u.length := by
  have hlength := h.length
  rcases h.level hfamily with ⟨r, hr⟩
  cases hts with
  | nil => exact absurd hlength.symm (Nat.succ_ne_zero _)
  | @cons x e ps es hx hps =>
      have hes : es ≠ [] := by
        rintro rfl
        exact parameterNames_ne_nil h.family
          (List.length_eq_zero_iff.mp (Nat.succ.inj hlength).symm)
      have hlevel : Level es := ⟨r, fun e' he' => hr e' (List.mem_cons_of_mem e he')⟩
      rcases mapAll_rowWise _ hlevel hes hps hok with ⟨u, hrows, hlengths⟩
      refine ⟨u, hrows.tail e, ?_⟩
      rcases List.exists_mem_of_ne_nil es hes with ⟨e₀, he₀⟩
      have hu : r = u.length := by
        rw [← hr e₀ (List.mem_cons_of_mem e he₀)]
        exact hlengths e₀ he₀
      intro e' he'
      rw [hr e' he', hu]

theorem exists_of_map_sumEvent {x : Except Refusal (Tensor α)}
    (h : x.map sumEvent = .ok y) : ∃ r, x = .ok r ∧ y = r.sumEvent := by
  cases x with
  | error f => cases h
  | ok r =>
      cases h
      exact ⟨r, rfl, rfl⟩

theorem total_cases (h : d.total p dim ts = .ok y) :
    (d.truncation = none ∧ ∃ r, d.logs dim ts = .ok r ∧ y = r.sumEvent) ∨
    ∃ t r q z, d.truncation = some t ∧ d.logs dim ts = .ok r ∧
      d.mass p t ts.tail = .ok q ∧ elementwise (· - ·) r q = .ok z ∧ y = z.sumEvent := by
  cases htruncation : d.truncation with
  | none =>
      rw [total_of_truncation_none htruncation] at h
      exact Or.inl ⟨rfl, exists_of_map_sumEvent h⟩
  | some t =>
      rw [total_of_truncation_some htruncation] at h
      rcases exists_of_map_sumEvent h with ⟨z, hz, rfl⟩
      right
      cases hlogs : d.logs dim ts with
      | error f =>
          rw [hlogs] at hz
          cases hz
      | ok r =>
          cases hmass : d.mass p t ts.tail with
          | error f =>
              rw [hlogs, hmass] at hz
              cases hz
          | ok q =>
              rw [hlogs, hmass] at hz
              exact ⟨t, r, q, z, rfl, rfl, hmass, hz, rfl⟩

theorem total_rowWise (h : Aligned d ds)
    (hts : List.Forall₂ (fun t e => t.shape = 1 :: e) ts ds) (hok : d.total p dim ts = .ok y) :
    RowWise (α := α) (d.total p dim) ds [] := by
  rcases total_cases hok with ⟨htruncation, r, hlogs, _⟩ |
    ⟨t, r, q, z, htruncation, hlogs, hmass, hz, _⟩
  · rw [total_of_truncation_none htruncation]
    cases hfamily : d.family.isMatrix with
    | true =>
        exact (logs_rowWise_of_isMatrix hfamily (h.matrix hfamily).1 h.length hts
          hlogs).sumEvent
    | false =>
        rcases logs_rowWise h hfamily hts hlogs with ⟨u, hrows, _⟩
        exact hrows.sumEvent
  · rw [total_of_truncation_some htruncation]
    have hfamily : d.family.isMatrix = false := by
      cases hcase : d.family.isMatrix with
      | true =>
          rw [(h.matrix hcase).2] at htruncation
          cases htruncation
      | false => rfl
    rcases logs_rowWise h hfamily hts hlogs with ⟨u, hrows, hlength⟩
    rcases mass_rowWise h hfamily hts hmass with ⟨v, hrows', hlength'⟩
    have heq : u.length = v.length := by
      rcases List.exists_mem_of_ne_nil ds h.ne_nil with ⟨e, he⟩
      rw [← hlength e he, hlength' e he]
    rcases exists_joins_of_elementwise (hrows.shape_single hts hlogs)
      (hrows'.shape_single hts hmass) heq hz with ⟨s, hs⟩
    exact (hrows.elementwise (· - ·) hrows' hs).sumEvent

/-!
# Single rows
-/

theorem single_of_elementwise {op : α → α → α} {t u r : Tensor α} (ht : t.shape.head? = some 1)
    (hu : u.shape.head? = some 1) (h : elementwise op t u = .ok r) : r.shape.head? = some 1 :=
  Shape.single_of_join? (join?_of_elementwise h) ht hu

theorem shape_sumEvent_single {t : Tensor α} (ht : t.shape.head? = some 1) :
    t.sumEvent.shape = [1] := by
  rcases List.head?_eq_some_iff.mp ht with ⟨s, hs⟩
  exact (sumEvent_rows hs).1

theorem shape_total_single (hfamily : d.family.isMatrix = false) (hblank : d.family ≠ .blank)
    (hlength : ts.length = d.family.parameterNames.length + 1)
    (hts : forall t, t ∈ ts -> t.shape.head? = some 1) (hok : d.total p dim ts = .ok y) :
    y.shape = [1] := by
  have hne : ts ≠ [] := by
    rintro rfl
    exact absurd hlength.symm (Nat.succ_ne_zero _)
  have htail : ts.tail ≠ [] := by
    intro hnil
    have htails : ts.tail.length = d.family.parameterNames.length := by
      rw [List.length_tail, hlength, Nat.add_sub_cancel]
    rw [hnil] at htails
    exact parameterNames_ne_nil hblank (List.length_eq_zero_iff.mp htails.symm)
  have hlogs : forall {r : Tensor α}, d.logs dim ts = .ok r -> r.shape.head? = some 1 := by
    intro r hr
    rw [logs_of_isMatrix_false hfamily hne] at hr
    exact single_of_mapAll hne hts hr
  rcases total_cases hok with ⟨_, r, hr, rfl⟩ | ⟨t, r, q, z, _, hr, hq, hz, rfl⟩
  · exact shape_sumEvent_single (hlogs hr)
  · have hmass : q.shape.head? = some 1 :=
      single_of_mapAll htail (fun t ht => hts t (List.mem_of_mem_tail ht)) hq
    exact shape_sumEvent_single (single_of_elementwise (hlogs hr) hmass hz)

end Distribution
end DensityGraph
