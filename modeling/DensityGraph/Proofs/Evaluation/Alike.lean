import DensityGraph.Proofs.Evaluation.Feed
import DensityGraph.Proofs.Evaluation.Reading
import DensityGraph.Proofs.Graph.Later
import DensityGraph.Proofs.Value.Array
/-!
# Passes side by side

Two passes are run side by side, each with its own feed and data mode.  As long as they
add the same entries, they cannot tell from the environment which of them they are, so
that they end in the same way.
-/

namespace DensityGraph

variable {α β γ : Type}

structure Source where
  feed : List (NodeId × Value)
  mode : Value

namespace Environment

def source (e : Environment α) : Source :=
  ⟨e.feed, e.dataAsConstants⟩

structure Alike (s s' : Source) (e e' : Environment α) : Prop where
  entries : e.entries = e'.entries
  left : e.source = s
  right : e'.source = s'

variable {s s' : Source} {e e' : Environment α} {id : NodeId} {kind : EntryKind}

theorem Alike.get? (h : Alike s s' e e') : e.get? id kind = e'.get? id kind := by
  unfold Environment.get?
  rw [h.entries]

theorem Alike.read (h : Alike s s' e e') (w : Workspace) : e.read w = e'.read w := by
  funext id kind
  unfold Environment.read
  rw [h.get?]

theorem Alike.add (h : Alike s s' e e') (entry : Entry α) :
    Alike s s' (e.add id kind entry) (e'.add id kind entry) := by
  refine ⟨?_, h.left, h.right⟩
  unfold Environment.add
  rw [h.entries]

end Environment

namespace Pass

open Environment

/-- Side by side, the passes have the same result or fail alike, and add the same
entries. -/
def Couples (s s' : Source) (a b : Pass α β) : Prop :=
  forall e e', Alike s s' e e' ->
    (a.run e).1 = (b.run e').1 ∧ Alike s s' (a.run e).2 (b.run e').2

variable {s s' : Source} {w v : Workspace}

theorem couples_pure (x : β) : Couples s s' (pure x : Pass α β) (pure x) :=
  fun _ _ h => ⟨rfl, h⟩

theorem couples_throw (f : Failure) : Couples s s' (throw f : Pass α β) (throw f) :=
  fun _ _ h => ⟨rfl, h⟩

theorem couples_ofExcept (x : Except Failure β) :
    Couples s s' (ofExcept x : Pass α β) (ofExcept x) := by
  cases x with
  | ok y => exact couples_pure y
  | error f => exact couples_throw f

theorem couples_ofRefusal (x : Except Refusal β) :
    Couples s s' (ofRefusal x : Pass α β) (ofRefusal x) := by
  cases x with
  | ok y => exact couples_pure y
  | error r => exact couples_throw (.refused r)

theorem Couples.bind {a b : Pass α β} {f g : β → Pass α γ} (h : Couples s s' a b)
    (hnext : forall x, Couples s s' (f x) (g x)) : Couples s s' (a >>= f) (b >>= g) := by
  intro e e' he
  rcases h e e' he with ⟨hresult, halike⟩
  unfold run at hresult halike ⊢
  rw [run_bind, run_bind]
  generalize StateT.run (ExceptT.run a) e = r at hresult halike ⊢
  generalize StateT.run (ExceptT.run b) e' = r' at hresult halike ⊢
  rcases r with ⟨x, t⟩
  rcases r' with ⟨x', t'⟩
  cases hresult
  cases x with
  | ok y => exact hnext y t t' halike
  | error f => exact ⟨rfl, halike⟩

theorem Couples.ite {c : Prop} [Decidable c] {a b a' b' : Pass α β} (h : Couples s s' a a')
    (h' : Couples s s' b b') : Couples s s' (if c then a else b) (if c then a' else b') := by
  split
  · exact h
  · exact h'

theorem Couples.mapM {f g : γ → Pass α β} {xs : List γ}
    (h : forall x, x ∈ xs -> Couples s s' (f x) (g x)) :
    Couples s s' (xs.mapM f) (xs.mapM g) := by
  induction xs with
  | nil => exact couples_pure []
  | cons x xs ih =>
      rw [List.mapM_cons, List.mapM_cons]
      apply (h x List.mem_cons_self).bind
      intro y
      apply (ih fun z hz => h z (List.mem_cons_of_mem x hz)).bind
      intro ys
      exact couples_pure (y :: ys)

theorem Couples.forM {f g : γ → Pass α PUnit} {xs : List γ}
    (h : forall x, x ∈ xs -> Couples s s' (f x) (g x)) :
    Couples s s' (xs.forM f) (xs.forM g) := by
  induction xs with
  | nil => exact couples_pure ()
  | cons x xs ih =>
      apply (h x List.mem_cons_self).bind
      intro _
      exact ih fun z hz => h z (List.mem_cons_of_mem x hz)

/-!
# Entries
-/

theorem couples_entry (w : Workspace) (id : NodeId) (kind : EntryKind) :
    Couples s s' (entry w id kind : Pass α (Entry α)) (entry w id kind) := by
  intro e e' he
  rw [reads_entry w id kind e, reads_entry w id kind e']
  exact ⟨congrFun (congrFun (he.read w) id) kind, he⟩

theorem couples_assign (w : Workspace) (id : NodeId) (kind : EntryKind) (x : Entry α) :
    Couples s s' (assign w id kind x) (assign w id kind x) := by
  intro e e' he
  rw [run_assign, run_assign, he.get?]
  split
  · exact ⟨rfl, he⟩
  · exact ⟨rfl, he.add x⟩

end Pass

/-!
# Passes over the same model
-/

namespace Workspace.SameModel

variable {s s' : Source} {w v : Workspace}

theorem entry (h : w.SameModel v) (id : NodeId) (kind : EntryKind) :
    (Pass.entry v id kind : Pass α (Entry α)) = Pass.entry w id kind := by
  unfold Pass.entry
  rw [h.label]

theorem assign (h : w.SameModel v) (id : NodeId) (kind : EntryKind) (x : Entry α) :
    Pass.assign v id kind x = Pass.assign w id kind x := by
  unfold Pass.assign
  rw [h.label]

end Workspace.SameModel

/-!
# Densities
-/

namespace Environment

variable [Scalar α] {w v : Workspace} {e e' : Environment α}

omit [Scalar α] in
theorem read_congr (h : w.SameModel v) (he : e'.entries = e.entries) :
    e'.read v = e.read w := by
  funext id kind
  unfold read Environment.get?
  rw [h.label, he]

theorem density_congr (h : w.SameModel v) (he : e'.entries = e.entries) :
    e'.density v = e.density w := by
  funext id x
  unfold density arguments Distribution.densityOf
  rw [read_congr h he, h.precision]
  cases hn : w.node? id with
  | none => rw [h.node?_of_none hn]
  | some n =>
      rcases h.node?_of_some hn with ⟨nv, hm⟩
      rw [hm]
      rfl

end Environment

/-!
# Nodes that are no data
-/

namespace Pass

open Environment

variable {s s' : Source} {w v : Workspace}

theorem couples_arguments (h : w.SameModel v) (kind : EntryKind) (ids : List NodeId) :
    Couples s s' (α := α) (ids.mapM fun id => return argument (← entry w id kind))
      (ids.mapM fun id => return argument (← entry v id kind)) := by
  apply Couples.mapM
  intro id _
  rw [h.entry]
  exact (couples_entry w id kind).bind fun x => couples_pure (argument x)

theorem couples_assignFree (h : w.SameModel v)
    (free : NodeId → Option (Except Refusal (Tensor α))) (id : NodeId) :
    Couples s s' (assignFree w free id) (assignFree v free id) := by
  have hsize : (v.node? id).map Node.freeSize = (w.node? id).map Node.freeSize :=
    h.map_node? (fun _ _ => rfl) id
  unfold assignFree
  rw [h.label, hsize]
  cases free id with
  | none => exact couples_throw _
  | some t =>
      apply (couples_ofRefusal t).bind
      intro t
      simp only
      rw [h.assign]
      apply Couples.ite
      · exact couples_throw _
      · exact couples_assign w id .free (.tensor t)

variable [Scalar α]

theorem couples_reconcile (args : List (Argument α)) :
    Couples s s' (reconcile args) (reconcile args) :=
  couples_ofExcept _

theorem couples_apply [CustomCode α] (h : w.SameModel v) (o : Operation)
    (args : List (Argument α)) :
    Couples s s' (do ofExcept (o.apply ((← get).density w) args))
      (do ofExcept (o.apply ((← get).density v) args)) := by
  intro e e' he
  have hdensity := density_congr h he.entries.symm
  change (run (ofExcept (o.apply (e.density w) args)) e).1 =
    (run (ofExcept (o.apply (e'.density v) args)) e').1 ∧ Alike s s'
      (run (ofExcept (o.apply (e.density w) args)) e).2
      (run (ofExcept (o.apply (e'.density v) args)) e').2
  rw [hdensity]
  exact couples_ofExcept _ e e' he

theorem couples_materializeOperation [CustomCode α] (h : w.SameModel v) (id : NodeId)
    (o : Operation) (arguments : List NodeId) (extras : List Value) :
    Couples s s' (α := α) (materializeOperation w id o arguments extras)
      (materializeOperation v id o arguments extras) := by
  unfold materializeOperation
  apply (couples_arguments h .value arguments).bind
  intro args
  unfold Workspace.given
  rw [h.wide]
  apply (couples_reconcile _).bind
  intro args
  have hassign : forall t : Tensor α, Couples s s' (assign w id .value (.tensor t))
      (assign w id .value (.tensor t)) := fun t => couples_assign w id .value (.tensor t)
  have hbind := (couples_apply h o args).bind hassign
  simp only [bind_assoc] at hbind
  rw [show assign v id .value = assign w id .value from funext (h.assign id .value)]
  exact hbind

theorem couples_materializeLatent (h : w.SameModel v) (id : NodeId) (dim : Shape)
    (b : Interval) (c : Constraint) :
    Couples s s' (α := α) (materializeLatent w id dim b c) (materializeLatent v id dim b c) := by
  unfold materializeLatent
  rw [h.entry]
  apply (couples_entry w id .free).bind
  intro x
  cases x with
  | density _ => exact couples_throw (.refused .type)
  | tensor free =>
      apply (couples_ofExcept _).bind
      intro adjustment
      rw [h.assign]
      apply (couples_assign w id .adjustment (.tensor adjustment)).bind
      intro _
      apply (couples_ofExcept _).bind
      intro value
      rw [h.assign]
      exact couples_assign w id .value (.tensor value)

/-!
# Data

A data node stores one array, which is its own value where data are constants and the value
that was fed where they are placeholders.  Two passes that use the same array store the same.
-/

def store (w : Workspace) (id : NodeId) (a : NumericArray) : Pass α Unit := do
  let t ← ofRefusal (w.tensorOf (.array false a.addBatchAxis))
  assign w id .value (.tensor t)

theorem couples_store (h : w.SameModel v) (id : NodeId) (a : NumericArray) :
    Couples s s' (α := α) (store w id a) (store v id a) := by
  unfold store
  rw [h.tensorOf]
  apply (couples_ofRefusal _).bind
  intro t
  rw [h.assign]
  exact couples_assign w id .value (.tensor t)

theorem placeholder_of_fed {id : NodeId} {a : NumericArray} {expected : List Int}
    {e : Environment α} (hfed : e.feed.lookup id = some (.array false a.addBatchAxis))
    (hshape : expected.tail = a.shape.map Int.ofNat) :
    (placeholder w id expected).run e =
      (ofRefusal (w.tensorOf (.array false a.addBatchAxis))).run e := by
  have htail : ((a.addBatchAxis.shape.map Int.ofNat).tail ≠ expected.tail) = False := by
    rw [NumericArray.shape_addBatchAxis, hshape]
    simp
  have hget : StateT.run (ExceptT.run (get : Pass α (Environment α))) e = (.ok e, e) := rfl
  have hvalue : StateT.run (ExceptT.run (ofRefusal (α := α)
      (Value.array false a.addBatchAxis).shape)) e = (.ok a.addBatchAxis.shape, e) := rfl
  unfold placeholder run
  rw [run_bind, hget]
  simp only [hfed]
  rw [run_bind, hvalue]
  simp only [htail, if_false]

def datum (mode : Value) (own fed : NumericArray) : Except Refusal NumericArray :=
  mode.truth.map fun constant => if constant then own else fed

theorem run_materializeData_constant {id : NodeId} {n : Node} {e : Environment α}
    (hmode : e.dataAsConstants.truth = .ok true) :
    (materializeData w id n).run e = (store w id n.value.array).run e := by
  unfold materializeData store run
  rw [run_bind]
  change StateT.run (ExceptT.run (ofRefusal e.dataAsConstants.truth >>= _)) e = _
  rw [hmode]
  rfl

theorem run_materializeData_error {id : NodeId} {n : Node} {e : Environment α} {r : Refusal}
    (hmode : e.dataAsConstants.truth = .error r) :
    (materializeData w id n).run e = (.error (.refused r), e) := by
  unfold materializeData run
  rw [run_bind]
  change StateT.run (ExceptT.run (ofRefusal e.dataAsConstants.truth >>= _)) e = _
  rw [hmode]
  rfl

theorem run_materializeData_placeholder {id : NodeId} {n : Node} {a : NumericArray}
    {e : Environment α} (hmode : e.dataAsConstants.truth = .ok false)
    (hfed : e.feed.lookup id = some (.array false a.addBatchAxis))
    (hshape : n.value.array.shape = a.shape) :
    (materializeData w id n).run e =
      (store w id a).run (e.register id n.value.array.addBatchAxis) := by
  have htail : (n.value.array.addBatchAxis.shape.map Int.ofNat).tail =
      a.shape.map Int.ofNat := by
    rw [NumericArray.shape_addBatchAxis, hshape]
    rfl
  have hplaceholder : (placeholder w id _).run (e.register id n.value.array.addBatchAxis) = _ :=
    placeholder_of_fed hfed htail
  unfold materializeData store
  unfold run at hplaceholder ⊢
  rw [run_bind]
  change StateT.run (ExceptT.run (ofRefusal e.dataAsConstants.truth >>= _)) e = _
  rw [hmode]
  change StateT.run (ExceptT.run (placeholder w id _ >>= _)) (e.register id _) = _
  rw [run_bind, run_bind, hplaceholder]

theorem run_materializeData {id : NodeId} {n : Node} {a : NumericArray} {e : Environment α}
    (he : e.source = s) (hfed : s.feed.lookup id = some (.array false a.addBatchAxis))
    (hshape : n.value.array.shape = a.shape) :
    ∃ e', e'.entries = e.entries ∧ e'.source = s ∧ (materializeData w id n).run e =
      (ofRefusal (datum s.mode n.value.array a) >>= store w id).run e' := by
  subst he
  unfold datum
  change ∃ e', _ ∧ _ ∧ _ = (ofRefusal (e.dataAsConstants.truth.map _) >>= _).run e'
  cases hmode : e.dataAsConstants.truth with
  | error r => exact ⟨e, rfl, rfl, run_materializeData_error hmode⟩
  | ok constant =>
      cases constant with
      | true => exact ⟨e, rfl, rfl, run_materializeData_constant hmode⟩
      | false =>
          exact ⟨e.register id n.value.array.addBatchAxis, rfl, rfl,
            run_materializeData_placeholder hmode hfed hshape⟩

theorem couples_materializeData (h : w.SameModel v) {id : NodeId} {n n' : Node}
    {a a' : NumericArray} (hfed : s.feed.lookup id = some (.array false a.addBatchAxis))
    (hshape : n.value.array.shape = a.shape)
    (hfed' : s'.feed.lookup id = some (.array false a'.addBatchAxis))
    (hshape' : n'.value.array.shape = a'.shape)
    (hsame : (ofRefusal (datum s.mode n.value.array a) >>= store (α := α) w id) =
      ofRefusal (datum s'.mode n'.value.array a') >>= store w id) :
    Couples s s' (α := α) (materializeData w id n) (materializeData v id n') := by
  intro e e' he
  rcases run_materializeData (w := w) he.left hfed hshape with ⟨e₁, hentries, hsource, hrun⟩
  rcases run_materializeData (w := v) he.right hfed' hshape' with
    ⟨e₁', hentries', hsource', hrun'⟩
  have halike : Alike s s' e₁ e₁' := by
    refine ⟨?_, hsource, hsource'⟩
    rw [hentries, he.entries, hentries']
  rw [hrun, hrun', hsame]
  exact ((couples_ofRefusal _).bind (couples_store h id)) e₁ e₁' halike

/-!
# All nodes
-/

theorem couples_materialize [CustomCode α] (h : w.SameModel v) {id : NodeId}
    (hdata : forall n n', w.node? id = some n -> v.node? id = some n' -> n.isData = true ->
      Couples s s' (α := α) (materializeData w id n) (materializeData v id n')) :
    Couples s s' (α := α) (materialize w id) (materialize v id) := by
  unfold materialize
  cases hn : w.node? id with
  | none =>
      rw [h.node?_of_none hn]
      exact couples_throw (.refused .attribute)
  | some n =>
      rcases h.node?_of_some hn with ⟨nv, hm⟩
      rw [hm]
      cases hrole : n.role with
      | data =>
          simp only [hrole]
          apply hdata n _ hn hm
          rw [Node.isData, hrole]
      | operation operation arguments extras =>
          simp only [hrole]
          exact couples_materializeOperation h id operation arguments extras
      | latent b c size =>
          simp only [hrole]
          exact couples_materializeLatent h id n.dim b c
      | distribution dist =>
          simp only [hrole]
          rw [h.assign]
          exact couples_assign w id .value (.density id)

theorem couples_materializeAll [CustomCode α] (h : w.SameModel v) (d : Dag)
    (free : NodeId → Option (Except Refusal (Tensor α)))
    (hdata : forall id n n', id ∈ d.nodes -> w.node? id = some n -> v.node? id = some n' ->
      n.isData = true ->
        Couples s s' (α := α) (materializeData w id n) (materializeData v id n')) :
    Couples s s' (materializeAll w d free) (materializeAll v d free) := by
  unfold materializeAll
  rw [h.latents d]
  apply Couples.bind
  · exact Couples.forM fun id _ => couples_assignFree h free id
  · intro _
    apply Couples.forM
    intro id hid
    exact couples_materialize h fun n n' => hdata id n n' hid

end Pass

/-!
# Joint densities
-/

namespace Environment

variable [Scalar α] {w v : Workspace} {e e' : Environment α}

theorem term_congr (h : w.SameModel v) (he : e'.entries = e.entries) :
    e'.term v = e.term w := by
  have htarget : forall id, ((v.node? id).bind Node.distribution?).bind Distribution.target =
      ((w.node? id).bind Node.distribution?).bind Distribution.target := by
    intro id
    cases hn : w.node? id with
    | none => rw [h.node?_of_none hn]
    | some n =>
        rcases h.node?_of_some hn with ⟨nv, hm⟩
        rw [hm]
        rfl
  funext id
  unfold term
  rw [read_congr h he, h.label, density_congr h he, htarget]

theorem joint_congr (h : w.SameModel v) (he : e'.entries = e.entries) :
    e'.joint v = e.joint w := by
  funext distributions latents
  unfold joint arguments
  rw [term_congr h he, read_congr h he, h.precision]

end Environment

/-!
# Whole graphs
-/

namespace Dag

open Environment

variable [Scalar α] {w v : Workspace} {d : Dag} {fed fed' : List (NodeId × Value)}
  {free : NodeId → Option (Except Refusal (Tensor α))}

theorem jointIn_congr (h : w.SameModel v) {e e' : Environment α} (he : e'.entries = e.entries)
    (adjust : Bool) : d.jointIn v e' adjust = d.jointIn w e adjust := by
  rw [jointIn_eq, jointIn_eq, joint_congr h he, h.distributions, h.latents]

variable [CustomCode α]

theorem environment_of_couples (h : w.SameModel v)
    (hpass : Pass.Couples ⟨fed, w.settings.dataAsConstants⟩ ⟨fed', v.settings.dataAsConstants⟩
      (Pass.materializeAll w d free) (Pass.materializeAll v d free)) :
    (∃ f, d.environment w fed free = .error f ∧ d.environment v fed' free = .error f) ∨
      ∃ e e', d.environment w fed free = .ok e ∧ d.environment v fed' free = .ok e' ∧
        e.entries = e'.entries := by
  rcases hpass ⟨[], fed, [], _⟩ ⟨[], fed', [], _⟩ ⟨rfl, rfl, rfl⟩ with ⟨hresult, halike⟩
  unfold environment Environment.start
  rw [h.validate]
  cases w.settings.validate w.written w.wide with
  | error f => exact Or.inl ⟨f, rfl, rfl⟩
  | ok _ =>
      revert hresult halike
      generalize hleft : (Pass.materializeAll w d free).run
        ⟨[], fed, [], w.settings.dataAsConstants⟩ = r
      generalize hright : (Pass.materializeAll v d free).run
        ⟨[], fed', [], v.settings.dataAsConstants⟩ = r'
      rcases r with ⟨result, e⟩
      rcases r' with ⟨result', e'⟩
      rintro ⟨⟩ halike
      simp only [bind, Except.bind, pure, Except.pure, hleft, hright]
      cases result with
      | error f => exact Or.inl ⟨f, rfl, rfl⟩
      | ok _ => exact Or.inr ⟨e, e', rfl, rfl, halike.entries⟩

theorem jointAt_of_couples (h : w.SameModel v) (adjust : Bool)
    (hpass : Pass.Couples ⟨fed, w.settings.dataAsConstants⟩ ⟨fed', v.settings.dataAsConstants⟩
      (Pass.materializeAll w d free) (Pass.materializeAll v d free)) :
    d.jointAt w fed free adjust = d.jointAt v fed' free adjust := by
  unfold jointAt
  rcases environment_of_couples h hpass with ⟨f, hw, hv⟩ | ⟨e, e', hw, hv, hentries⟩
  · rw [hw, hv]
    rfl
  · rw [hw, hv]
    exact (jointIn_congr h hentries.symm adjust).symm

end Dag
end DensityGraph
