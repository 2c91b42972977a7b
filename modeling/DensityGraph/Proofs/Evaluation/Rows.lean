import DensityGraph.Proofs.Constraint.RowWise
import DensityGraph.Proofs.Evaluation.Simulation
import DensityGraph.Proofs.Graph.Model
/-!
# Rows of values

In a model, a tensor that stands for a node consists of rows of the shape of the node.
Data and variables bring their rows along; a computed node has as many as its arguments
have together, and each of them is made from the same rows of the arguments.
-/

namespace DensityGraph

open Tensor

variable {α : Type}

namespace Workspace

/-- Whether data are constants can be told, if there are any. -/
def KnowsMode (w : Workspace) (d : Dag) : Prop :=
  forall id, id ∈ d.data w -> ∃ on, w.settings.dataAsConstants.truth = .ok on

/-- How many rows come from outside into a source, that is a data node or a variable:
one for a constant, and otherwise those of the value that is fed or of the free tensor. -/
def rows? (w : Workspace) (fed : List (NodeId × Value))
    (free : NodeId → Option (Except Refusal (Tensor α))) (id : NodeId) : Option Nat :=
  match (w.node? id).map Node.role with
  | some .data =>
      match w.settings.dataAsConstants.truth with
      | .ok true => some 1
      | .ok false => (fed.lookup id).bind fun v => v.shape.toOption.bind List.head?
      | .error _ => none
  | some (.latent _ _ _) => (free id).bind fun t => t.toOption.bind fun t => t.shape.head?
  | _ => none

variable {w : Workspace} {d : Dag} {fed : List (NodeId × Value)}
  {free : NodeId → Option (Except Refusal (Tensor α))} {id : NodeId} {m : Node} {n : Nat}

theorem KnowsMode.truth (h : w.KnowsMode d) (hid : id ∈ d.nodes) (hm : w.node? id = some m)
    (hdata : m.isData = true) : ∃ on, w.settings.dataAsConstants.truth = .ok on :=
  h id (mem_select.mpr ⟨hid, (has_of_node? hm).trans hdata⟩)

/-!
# Sources
-/

theorem precision_of_validate (h : w.settings.validate w.written w.wide = .ok ()) :
    ∃ p, w.settings.tensorPrecision w.wide = .ok p := by
  have hknown : (Settings.isText "float32" w.settings.floatType ||
      Settings.isText "float64" w.settings.floatType) = true := by
    unfold Settings.validate at h
    cases hknown : (Settings.isText "float32" w.settings.floatType ||
        Settings.isText "float64" w.settings.floatType) with
    | true => rfl
    | false =>
        simp only [hknown, Bool.false_eq_true, if_false] at h
        cases h
  unfold Settings.tensorPrecision Settings.precision?
  generalize w.settings.floatType = v at hknown
  cases v with
  | text name =>
      rw [Bool.or_eq_true] at hknown
      rcases hknown with hname | hname
      · rw [show name = "float32" from eq_of_beq hname]
        exact ⟨_, rfl⟩
      · rw [show name = "float64" from eq_of_beq hname]
        exact ⟨_, rfl⟩
  | _ => cases hknown

theorem source_of_rows? {k : Nat} (h : w.rows? fed free id = some k) :
    (∃ m, w.node? id = some m ∧ m.role = .data ∧
      (k = 1 ∨ ∃ v s, fed.lookup id = some v ∧ v.shape = .ok s ∧ s.head? = some k)) ∨
    (∃ m b c size t, w.node? id = some m ∧ m.role = .latent b c size ∧
      free id = some (.ok t) ∧ t.shape.head? = some k) := by
  unfold rows? at h
  cases hm : w.node? id with
  | none =>
      rw [hm] at h
      cases h
  | some m =>
      rw [hm, Option.map_some] at h
      cases hrole : m.role with
      | data =>
          left
          refine ⟨m, rfl, hrole, ?_⟩
          rw [hrole] at h
          simp only at h
          split at h
          · exact Or.inl (Option.some.inj h).symm
          · rcases Option.bind_eq_some_iff.mp h with ⟨v, hv, hshape⟩
            rcases Option.bind_eq_some_iff.mp hshape with ⟨s, hs, hhead⟩
            exact Or.inr ⟨v, s, hv, toOption_eq_some.mp hs, hhead⟩
          · cases h
      | latent b c size =>
          right
          rw [hrole] at h
          rcases Option.bind_eq_some_iff.mp h with ⟨t, ht, hshape⟩
          rcases Option.bind_eq_some_iff.mp hshape with ⟨r, hr, hhead⟩
          rw [toOption_eq_some.mp hr] at ht
          exact ⟨m, b, c, size, r, rfl, hrole, ht, hhead⟩
      | operation o arguments extras =>
          rw [hrole] at h
          cases h
      | distribution r =>
          rw [hrole] at h
          cases h

variable [Scalar α]

theorem tensorOf_own {p : Precision} (hp : w.settings.tensorPrecision w.wide = .ok p)
    (hdescribes : w.Describes m) (hrole : m.role = .data) :
    m.value.array.addBatchAxis.shape = 1 :: m.dim ∧
      ∃ t : Tensor α, w.tensorOf (.array false m.value.array.addBatchAxis) = .ok t ∧
        t.shape = 1 :: m.dim := by
  rcases hdescribes.data hrole with ⟨hshape, hreadable⟩
  have hbatched : m.value.array.addBatchAxis.shape = 1 :: m.dim := by
    rw [NumericArray.shape_addBatchAxis, hshape]
  refine ⟨hbatched, _, tensorOf_array hp hreadable.addBatchAxis false, ?_⟩
  rw [← hbatched]
  exact NumericArray.shape_toFloats _

theorem evaluate_data_rows [CustomCode α] {p : Precision}
    (hp : w.settings.tensorPrecision w.wide = .ok p) (hm : w.node? id = some m)
    (hdescribes : w.Describes m) (hrole : m.role = .data)
    (hmode : ∃ on, w.settings.dataAsConstants.truth = .ok on)
    (hfed : ∃ v, fed.lookup id = some v ∧ m.Feedable v) :
    ∃ t : Tensor α, ∃ k, w.evaluate fed free id = some t ∧ t.shape = k :: m.dim ∧
      w.rows? fed free id = some k := by
  rcases tensorOf_own (α := α) hp hdescribes hrole with ⟨hbatched, t, ht, hown⟩
  rw [evaluate_data hm hrole]
  unfold dataTensor rows?
  rw [hm, Option.map_some, hrole]
  simp only
  rcases hmode with ⟨on, hon⟩
  rw [hon]
  cases on with
  | true =>
      rw [ht]
      exact ⟨t, 1, rfl, hown, rfl⟩
  | false =>
      rcases hfed with ⟨v, hv, hfeedable⟩
      rw [hv]
      simp only [Option.bind_some]
      cases hfeedable with
      | own =>
          rw [ht, Value.shape_array, hbatched]
          exact ⟨t, 1, rfl, hown, rfl⟩
      | given r k hr =>
          have hfloats : (NumericArray.floats .double r).IsReadable :=
            NumericArray.isReadable_ofFloats r
          have hlength : (NumericArray.floats .double r).shape = k :: m.dim := hr
          rw [tensorOf_array hp hfloats, Value.shape_array, hlength]
          exact ⟨_, k, rfl, hr, rfl⟩

section Latent

variable {b : Interval} {c : Constraint} {size : Nat}

theorem evaluate_latent_rows [CustomCode α] (hdescribes : w.Describes m) (hm : w.node? id = some m)
    (hrole : m.role = .latent b c size) : ∃ g : Tensor α → Tensor α,
      forall fed free t k, free id = some (.ok t) -> t.shape = [k, size] ->
        ∃ r, w.evaluate fed free id = some r ∧ r.shape = k :: m.dim ∧
          forall i, i < k -> r.row i = g (t.row i) := by
  rcases (Constraint.fromFree_rowWise (α := α) b hdescribes.dim
    (hdescribes.latent b c size hrole).2).single with ⟨g, hg⟩
  refine ⟨g, ?_⟩
  intro fed free t k hfree ht
  rcases hg k t ht with ⟨r, hr, hshape, hrow⟩
  refine ⟨r, ?_, hshape, hrow⟩
  change c.fromFree b m.dim t = .ok r at hr
  rw [evaluate_latent hm hrole hfree, hr]
  rfl

theorem adjustment_latent_rows (hwidth : c = .interval -> Scalar.lessEq
      ((Scalar.literal b.upper : α) - Scalar.literal b.lower) Scalar.zero = false)
    (hdescribes : w.Describes m) (hm : w.node? id = some m)
    (hrole : m.role = .latent b c size) : ∃ g : Tensor α → Tensor α,
      forall free t k, free id = some (.ok t) -> t.shape = [k, size] ->
        ∃ r, w.adjustment free id = some r ∧ r.shape = [k] ∧
          forall i, i < k -> r.row i = g (t.row i) := by
  rcases (Constraint.logJacobianBetween_rowWise (α := α) b hwidth
    (hdescribes.latent b c size hrole).2).single with ⟨g, hg⟩
  refine ⟨g, ?_⟩
  intro free t k hfree ht
  rcases hg k t ht with ⟨r, hr, hshape, hrow⟩
  refine ⟨r, ?_, hshape, hrow⟩
  change c.logJacobianBetween b t = .ok r at hr
  rw [adjustment_latent hm hrole hfree, hr]
  rfl

end Latent

/-!
# Computed nodes
-/

section Operation

variable {o : NamedOperation} {arguments : List NodeId} {ds : List Shape}

theorem exists_tensors {β : Type} {f : NodeId → Option (Tensor β)}
    (hds : w.dims? arguments = some ds) (h : forall a k, a ∈ arguments -> w.node? a = some k ->
      ∃ t, f a = some t ∧ HasRows n k.dim t) :
    ∃ ts, arguments.mapM f = some ts ∧ List.Forall₂ (fun a t => f a = some t) arguments ts ∧
      List.Forall₂ (fun t d => HasRows n d t) ts ds := by
  induction arguments generalizing ds with
  | nil =>
      cases hds
      exact ⟨[], rfl, List.Forall₂.nil, List.Forall₂.nil⟩
  | cons a arguments ih =>
      rcases exists_of_dims? hds with ⟨k, es, hk, hes, rfl⟩
      rcases h a k List.mem_cons_self hk with ⟨t, ht, hrows⟩
      rcases ih hes fun a k ha => h a k (List.mem_cons_of_mem _ ha) with
        ⟨ts, hts, hvalues, hall⟩
      refine ⟨t :: ts, ?_, List.Forall₂.cons ht hvalues, List.Forall₂.cons hrows hall⟩
      rw [List.mapM_cons, ht, hts]
      rfl

/-- The tensor of a computed node has as many rows as those of its arguments together,
and each is made from the same rows of the arguments. -/
theorem evaluate_operation_rows [CustomCode α] {g : List (Tensor α) → Tensor α}
    (hg : ByRows (o.onTensors (α := α)) g ds m.dim) (hm : w.node? id = some m)
    (hrole : m.role = .operation (.named o) arguments []) {ts : List (Tensor α)}
    (hts : arguments.mapM (w.evaluate fed free) = some ts)
    (hrows : List.Forall₂ (fun t d => HasRows n d t) ts ds) :
    ∃ r, w.evaluate fed free id = some r ∧ r.shape = batch n ts :: m.dim ∧
      forall i, i < n -> r.chain i = g (ts.map fun t => t.chain i) := by
  rcases hg.matched hrows with ⟨r, hr, hshape, hchain⟩
  refine ⟨r, ?_, hshape, hchain⟩
  have hall : forall t, t ∈ ts -> ∃ d, HasRows n d t := by
    intro t ht
    rcases exists_right_of_forall₂ hrows ht with ⟨d, _, hd⟩
    exact ⟨d, hd⟩
  have hreadable : forall a, a ∈ arguments ->
      w.isReadable (w.evaluate fed free) a = true := by
    intro a ha
    rcases exists_right_of_forall₂ (mapM_eq_some_iff.mp hts) ha with ⟨t, _, ht⟩
    exact isReadable_of_evaluate ht
  change o.apply ((ts.map (matched (batch n ts))).map Argument.tensor) = .ok r at hr
  rw [evaluate_operation hm hrole hreadable, map_argumentOf_of_mapM hts]
  unfold given
  rw [List.map_nil, List.append_nil, reconcile_rows hall]
  change (Refusal.lift (o.apply _)).toOption = some r
  rw [hr]
  rfl

end Operation
end Workspace
end DensityGraph
