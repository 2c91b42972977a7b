import DensityGraph.Evaluation.LogDensity
import DensityGraph.Proofs.Distribution.RowWise
import DensityGraph.Proofs.Evaluation.Entries
/-!
# Passes that only read

The densities of a model are computed when all nodes have their entries.  Such a pass
leaves the environment as it is, and its result is a function of the environment.
-/

namespace DensityGraph

variable {α β γ : Type}

namespace Pass

def Reads (a : Pass α β) (f : Environment α → Except Failure β) : Prop :=
  forall e, a.run e = (f e, e)

theorem reads_pure (x : β) : Reads (α := α) (pure x) fun _ => .ok x :=
  fun _ => rfl

theorem reads_throw (f : Failure) : Reads (α := α) (β := β) (throw f) fun _ => .error f :=
  fun _ => rfl

theorem reads_get : Reads (α := α) get fun e => .ok e :=
  fun _ => rfl

theorem reads_ofExcept (x : Except Failure β) : Reads (α := α) (ofExcept x) fun _ => x := by
  intro e
  cases x with
  | ok y => rfl
  | error f => rfl

theorem reads_ofRefusal (x : Except Refusal β) :
    Reads (α := α) (ofRefusal x) fun _ => Refusal.lift x := by
  intro e
  cases x with
  | ok y => rfl
  | error r => rfl

theorem Reads.bind {a : Pass α β} {next : β → Pass α γ} {f : Environment α → Except Failure β}
    {g : β → Environment α → Except Failure γ} (ha : Reads a f)
    (hnext : forall x, Reads (next x) (g x)) :
    Reads (a >>= next) fun e => f e >>= fun x => g x e := by
  intro e
  have hrun := ha e
  unfold run at hrun ⊢
  rw [run_bind, hrun]
  change _ = (f e >>= fun x => g x e, e)
  cases f e with
  | error failure => rfl
  | ok x => exact hnext x e

theorem Reads.mapM {a : γ → Pass α β} {f : γ → Environment α → Except Failure β}
    (ha : forall x, Reads (a x) (f x)) (xs : List γ) :
    Reads (xs.mapM a) fun e => xs.mapM fun x => f x e := by
  induction xs with
  | nil => exact reads_pure []
  | cons x xs ih =>
      have hcons : Reads (do return (← a x) :: (← xs.mapM a)) fun e => do
          return (← f x e) :: (← xs.mapM fun x => f x e) :=
        (ha x).bind fun y => ih.bind fun ys => reads_pure (y :: ys)
      intro e
      change run (List.mapM a (x :: xs)) e = (List.mapM (fun x => f x e) (x :: xs), e)
      rw [List.mapM_cons, List.mapM_cons]
      exact hcons e

theorem Reads.congr {a : Pass α β} {f g : Environment α → Except Failure β} (ha : Reads a f)
    (h : forall e, f e = g e) : Reads a g := by
  intro e
  rw [← h e]
  exact ha e

theorem Reads.ends {a : Pass α β} {f : Environment α → Except Failure β} (h : Reads a f)
    (e : Environment α) :
    Ends a e (fun x e' => f e = .ok x ∧ e' = e) fun _ e' => e' = e := by
  have hrun := h e
  unfold run at hrun
  unfold Ends
  rw [hrun]
  cases f e with
  | ok x => exact ⟨rfl, rfl⟩
  | error f => exact rfl

/-!
# Conditions that a pass maintains
-/

/-- The condition holds after the pass if it has held before, whether the pass returns or
fails. -/
def Maintains (I : Environment α → Prop) (a : Pass α β) : Prop :=
  forall e, I e -> Ends a e (fun _ e' => I e') fun _ e' => I e'

section Maintains

variable {I : Environment α → Prop}

theorem Maintains.ends_bind {a : Pass α β} {next : β → Pass α γ} {e : Environment α}
    {Q : γ → Environment α → Prop} (h : Maintains I a) (he : I e)
    (hnext : forall x e, I e -> Ends (next x) e Q fun _ e' => I e') :
    Ends (a >>= next) e Q fun _ e' => I e' :=
  (h e he).bind fun x e' he' => hnext x e' he'

theorem Maintains.bind {a : Pass α β} {next : β → Pass α γ} (h : Maintains I a)
    (hnext : forall x, Maintains I (next x)) : Maintains I (a >>= next) :=
  fun _ he => h.ends_bind he hnext

theorem Reads.maintains {a : Pass α β} {f : Environment α → Except Failure β}
    (h : Reads a f) : Maintains I a := by
  intro e he
  apply (h.ends e).mono
  · rintro _ _ ⟨_, rfl⟩
    exact he
  · rintro _ _ rfl
    exact he

theorem Maintains.forM {f : NodeId → Pass α PUnit} (h : forall id, Maintains I (f id))
    (ids : List NodeId) : Maintains I (ids.forM f) := by
  intro e he
  exact Ends.forM (P := fun _ e => I e) he fun _ id _ e' _ he' => h id e' he'

end Maintains

end Pass

/-!
# Joint densities in an environment
-/

variable [Scalar α]

namespace Environment

variable (e : Environment α) (w : Workspace)

def term (id : NodeId) : Except Failure (Argument α) := do
  let f ← e.read w id .value
  match ((w.node? id).bind Node.distribution?).bind Distribution.target with
  | none => .error (.untargeted (w.label id))
  | some t => do
      let x ← e.read w t .value
      match f with
      | .density id => return .tensor (← e.density w id (Pass.argument x))
      | .tensor _ => .error (.refused .type)

def sumTerms (zero : Tensor α) (terms : List (Argument α)) : Except Failure (Tensor α) := do
  match ← (← Batched.reconciled terms).mapM fun a => Refusal.lift a.toTensor with
  | [] => return zero
  | t :: ts =>
      if ts.any fun u => u.shape ≠ t.shape then .error (.refused .value)
      else return Tensor.sumOf t.shape (t :: ts)

def joint (distributions latents : List NodeId) : Except Failure (Tensor α) := do
  let terms ← distributions.mapM (e.term w)
  let adjustments ← e.arguments w .adjustment latents
  let p ← Refusal.lift (w.settings.tensorPrecision w.wide)
  sumTerms (Tensor.full [1] (Scalar.constant p 0.0)) (terms ++ adjustments)

end Environment

/-!
# Entries as arguments
-/

namespace Environment

variable {e : Environment α} {w : Workspace} {id : NodeId} {kind : EntryKind}
  {ids : List NodeId} {x : Entry α}

/-- The entry of a node as an argument. -/
def argument (e : Environment α) (kind : EntryKind) (id : NodeId) : Argument α :=
  ((e.get? id kind).map Pass.argument).getD (.density id)

omit [Scalar α] in
theorem argument_of_get? (h : e.get? id kind = some x) :
    e.argument kind id = Pass.argument x := by
  unfold argument
  rw [h]
  rfl

omit [Scalar α] in
theorem arguments_of_isSome (h : forall id, id ∈ ids -> (e.get? id kind).isSome = true) :
    e.arguments w kind ids = .ok (ids.map (e.argument kind)) := by
  apply arguments_of_get?
  intro id hid
  rcases Option.isSome_iff_exists.mp (h id hid) with ⟨x, hx⟩
  exact ⟨x, hx, (argument_of_get? hx).symm⟩

omit [Scalar α] in
theorem isSome_of_arguments {values : List (Argument α)}
    (h : e.arguments w kind ids = .ok values) :
    forall id, id ∈ ids -> (e.get? id kind).isSome = true := by
  intro id hid
  unfold arguments at h
  rcases exists_right_of_forall₂ (mapM_eq_ok_iff.mp h) hid with ⟨a, _, ha⟩
  unfold read at ha
  cases hx : e.get? id kind with
  | none =>
      rw [hx] at ha
      cases ha
  | some x => rfl

omit [Scalar α] in
theorem exists_of_arguments_singleton {values : List (Argument α)}
    (h : e.arguments w kind [id] = .ok values) :
    ∃ x, e.get? id kind = some x ∧ values = [Pass.argument x] := by
  have hsome := isSome_of_arguments h
  rcases Option.isSome_iff_exists.mp (hsome id (List.mem_singleton_self id)) with ⟨x, hx⟩
  rw [arguments_of_isSome hsome, List.map_singleton, argument_of_get? hx, Except.ok.injEq] at h
  exact ⟨x, hx, h.symm⟩

end Environment

/-!
# Reading passes
-/

namespace Pass

variable (w : Workspace)

omit [Scalar α] in
theorem reads_entry (id : NodeId) (kind : EntryKind) :
    Reads (α := α) (entry w id kind) fun e => e.read w id kind := by
  refine reads_get.bind (g := fun e _ => e.read w id kind) fun e => ?_
  unfold Environment.read
  cases e.get? id kind with
  | none => exact reads_throw _
  | some x => exact reads_pure x

omit [Scalar α] in
theorem reads_arguments (kind : EntryKind) (ids : List NodeId) :
    Reads (α := α) (ids.mapM fun id => return argument (← entry w id kind)) fun e =>
      e.arguments w kind ids := by
  apply Reads.mapM
  intro id
  apply ((reads_entry w id kind).bind fun x => reads_pure (argument x)).congr
  intro e
  cases e.read w id kind with
  | error f => rfl
  | ok x => rfl

theorem maintains_placeholder {I : Environment α → Prop} (id : NodeId) (expected : List Int) :
    Maintains I (placeholder (α := α) w id expected) := by
  unfold placeholder
  apply reads_get.maintains.bind
  intro e
  cases e.feed.lookup id with
  | none => exact (reads_throw _).maintains
  | some v =>
      apply (reads_ofRefusal v.shape).maintains.bind
      intro s
      simp only
      split
      · exact (reads_throw _).maintains.bind fun _ => (reads_ofRefusal _).maintains
      · exact (reads_ofRefusal _).maintains

theorem reads_reconcile (args : List (Argument α)) :
    Reads (reconcile args) fun _ => Batched.reconciled args :=
  reads_ofExcept _

theorem reads_density (id : NodeId) (x : Argument α) :
    Reads (density w id x) fun e => e.density w id x :=
  reads_get.bind fun e => reads_ofExcept (e.density w id x)

theorem reads_term (id : NodeId) : Reads (distributionTerm w id) fun e => e.term (α := α) w id := by
  unfold distributionTerm Environment.term
  apply (reads_entry w id .value).bind
  intro f
  cases ((w.node? id).bind Node.distribution?).bind Distribution.target with
  | none => exact reads_throw _
  | some t =>
      apply (reads_entry w t .value).bind
      intro x
      cases f with
      | tensor t => exact reads_throw _
      | density id =>
          apply (reads_density w id (argument x)).bind
          intro r
          exact reads_pure _

theorem reads_sumTerms (zero : Tensor α) (terms : List (Argument α)) :
    Reads (sumTerms zero terms) fun _ => Environment.sumTerms zero terms := by
  unfold sumTerms Environment.sumTerms
  apply (reads_reconcile terms).bind
  intro args
  apply (Reads.mapM (fun a => reads_ofRefusal a.toTensor) args).bind
  intro ts
  cases ts with
  | nil => exact reads_pure _
  | cons t ts =>
      simp only
      split
      · exact reads_throw _
      · exact reads_pure _

theorem reads_joint (distributions latents : List NodeId) (adjust : Bool) :
    Reads (joint w distributions latents adjust) fun e =>
      e.joint (α := α) w distributions (if adjust then latents else []) := by
  unfold joint Environment.joint
  apply (Reads.mapM (reads_term w) distributions).bind
  intro terms
  have hsum := fun adjustments : List (Argument α) =>
    (reads_ofRefusal (w.settings.tensorPrecision w.wide)).bind fun p =>
      reads_sumTerms (Tensor.full [1] (Scalar.constant p 0.0)) (terms ++ adjustments)
  cases adjust with
  | false => exact (reads_pure []).bind hsum
  | true => exact (reads_arguments w .adjustment latents).bind hsum

/-!
# Entries that are written
-/

section Conditions

variable {w} {I : Environment α → Prop} {e : Environment α}
  (hadd : forall e id kind (x : Entry α), I e -> I (e.add id kind x))

include hadd

omit [Scalar α] in
theorem maintains_assign_of_add (id : NodeId) (kind : EntryKind) (x : Entry α) :
    Maintains I (assign w id kind x) :=
  fun e he => ends_assign_iff.mpr ⟨fun _ => hadd e id kind x he, fun _ => he⟩

/-- A condition is maintained if neither further entries nor registered data do away with it,
and a node that is dealt with has got its value. -/
theorem ends_materialize_of_add [CustomCode α]
    (hregister : forall e id a, I e -> I (e.register id a)) (id : NodeId) (he : I e) :
    Ends (materialize w id) e (fun _ e' => I e' ∧ (id, EntryKind.value) ∈ e'.keys)
      fun _ e' => I e' := by
  have hvalue : forall (x : Entry α) e, I e ->
      Ends (assign w id .value x) e (fun _ e' => I e' ∧ (id, EntryKind.value) ∈ e'.keys)
        fun _ e' => I e' := by
    intro x e he
    refine ends_assign_iff.mpr ⟨fun _ => ⟨hadd e id .value x he, ?_⟩, fun _ => he⟩
    rw [Environment.keys_add]
    exact List.mem_append_right _ (List.mem_singleton_self _)
  unfold materialize
  cases w.node? id with
  | none => exact he
  | some n =>
      simp only
      cases n.role with
      | data =>
          apply reads_get.maintains.ends_bind he
          intro _ e he
          apply (reads_ofRefusal _).maintains.ends_bind he
          intro constant e he
          cases constant with
          | true => exact (reads_ofRefusal _).maintains.ends_bind he fun t => hvalue (.tensor t)
          | false =>
              rw [if_neg Bool.false_ne_true]
              apply Maintains.ends_bind _ he
              · exact fun _ e he => (maintains_placeholder w id _).ends_bind he fun t =>
                  hvalue (.tensor t)
              · exact fun e he => ends_modify.mpr (hregister e id _ he)
      | operation o arguments extras =>
          apply (reads_arguments w .value arguments).maintains.ends_bind he
          intro args e he
          apply (reads_reconcile _).maintains.ends_bind he
          intro args e he
          apply reads_get.maintains.ends_bind he
          intro _ e he
          exact (reads_ofExcept _).maintains.ends_bind he fun t => hvalue (.tensor t)
      | latent b c size =>
          apply (reads_entry w id .free).maintains.ends_bind he
          intro x e he
          cases x with
          | density _ => exact he
          | tensor free =>
              apply (reads_ofExcept _).maintains.ends_bind he
              intro adjustment e he
              apply (maintains_assign_of_add hadd id .adjustment _).ends_bind he
              intro _ e he
              exact (reads_ofExcept _).maintains.ends_bind he fun t => hvalue (.tensor t)
      | distribution d => exact hvalue (.density id) e he

end Conditions

end Pass

theorem Dag.jointIn_eq (d : Dag) (w : Workspace) (e : Environment α) (adjust : Bool) :
    d.jointIn w e adjust =
      e.joint w (d.distributions w) (if adjust then d.latents w else []) := by
  unfold jointIn
  rw [Pass.reads_joint w (d.distributions w) (d.latents w) adjust e]

end DensityGraph
