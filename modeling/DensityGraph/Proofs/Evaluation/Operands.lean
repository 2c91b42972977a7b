import DensityGraph.Proofs.Evaluation.Simulation
import DensityGraph.Proofs.Tensor.Batch
import DensityGraph.Proofs.Tensor.Rows
import DensityGraph.Proofs.Value.Matching
/-!
# Operands

An operation is applied to the tensors of its arguments and to the extra arguments behind
them.  They are matched together, not the tensors by themselves, so that the extra
arguments are passed as they are given only when their batch axes agree with those of the
matched tensors.
-/

namespace DensityGraph

namespace Argument

variable {α : Type} [Scalar α]

theorem batch?_repeatRows (a : Argument α) (n : Nat) (h : Batched.batch? a = some 1) :
    Batched.batch? (Batched.repeatRows n a) = some n := by
  cases a with
  | tensor t =>
      change (t.repeatRows n).shape.head? = some n
      rw [Tensor.shape_repeatRows (List.eq_cons_of_mem_head? h), List.head?_cons]
  | density id => cases h
  | extra x =>
      rcases x with ⟨wide, v⟩
      cases v with
      | array compiled a =>
          change ((a.repeatRows n).kept wide).shape.head? = some n
          rw [NumericArray.shape_kept,
            NumericArray.shape_repeatRows (List.eq_cons_of_mem_head? h), List.head?_cons]
      | _ => cases h

end Argument

namespace Pass

variable {α : Type} [Scalar α]

/-- What an operation is applied to. -/
def operands (w : Workspace) (arguments : List NodeId) (extras : List Value) :
    Pass α (List (Argument α)) := do
  let args ← arguments.mapM fun a => return argument (← entry w a .value)
  reconcile (args ++ w.given extras)

/-- Applies an operation and keeps its result as the value of a node. -/
def applyTo [CustomCode α] (w : Workspace) (id : NodeId) (o : Operation)
    (args : List (Argument α)) : Pass α Unit := do
  let t ← ofExcept (o.apply ((← get).density w) args)
  assign w id .value (.tensor t)

variable {w : Workspace} {id : NodeId} {n : Node} {o : Operation} {arguments : List NodeId}
  {extras : List Value} {f : NodeId → Argument α} {e : Environment α}

theorem materialize_operation [CustomCode α] (hn : w.node? id = some n)
    (hrole : n.role = .operation o arguments extras) :
    (materialize w id : Pass α Unit) = operands w arguments extras >>= applyTo w id o := by
  unfold materialize materializeOperation operands applyTo
  simp only [hn, hrole, bind_assoc]

theorem run_operands (w : Workspace) (extras : List Value)
    (hentries : forall a, a ∈ arguments ->
      ∃ x, e.get? a .value = some x ∧ argument x = f a) :
    (operands w arguments extras).run e =
      (match Batched.reconcile (arguments.map f ++ w.given extras) with
        | .ok args => .ok args
        | .error sizes => .error (.batches sizes), e) := by
  have hread := ends_arguments (w := w) (E := fun _ _ => False) hentries
  unfold operands run
  rw [run_bind]
  unfold Ends at hread
  revert hread
  generalize StateT.run (ExceptT.run (arguments.mapM fun a => do
    return argument (← entry w a .value))) e = r
  obtain ⟨args | args, e'⟩ := r
  · exact False.elim
  · rintro ⟨rfl, rfl⟩
    change StateT.run (ExceptT.run (reconcile (arguments.map f ++ w.given extras))) e' = _
    unfold reconcile Batched.reconciled
    cases Batched.reconcile (arguments.map f ++ w.given extras) with
    | ok args => rfl
    | error sizes => rfl

/-- Arguments without a density, or an operation that applies none. -/
def AppliesNone (o : Operation) (arguments : List NodeId) (f : NodeId → Argument α) : Prop :=
  (∃ named, o = .named named) ∨ forall a id, a ∈ arguments -> f a ≠ .density id

variable [CustomCode α]

theorem apply_ne_batches (hnone : AppliesNone o arguments f) {args : List (Argument α)}
    (hargs : Batched.reconcile (arguments.map f ++ w.given extras) = .ok args)
    (densities : NodeId → Argument α → Except Failure (Tensor α)) (sizes : List Nat) :
    o.apply densities args ≠ .error (.batches sizes) := by
  intro h
  rcases hnone with ⟨named, rfl⟩ | hnone
  · change Refusal.lift (named.apply args) = _ at h
    cases hresult : named.apply args with
    | ok t =>
        rw [hresult] at h
        cases h
    | error r =>
        rw [hresult] at h
        cases h
  · refine Operation.failure_of_apply (P := fun failure => failure ≠ .batches sizes) nofun ?_ h rfl
    intro id hid
    have hmem := Argument.density_mem_of_reconcile hargs hid
    rcases List.mem_append.mp hmem with hmem | hmem
    · rcases List.mem_map.mp hmem with ⟨a, ha, hdensity⟩
      exact absurd hdensity (hnone a id ha)
    · rcases List.mem_map.mp hmem with ⟨v, _, hv⟩
      cases hv

theorem ends_applyTo {args : List (Argument α)}
    (happly : forall sizes, o.apply (e.density w) args ≠ .error (.batches sizes)) :
    Ends (applyTo w id o args) e (fun _ _ => True)
      (fun failure _ => forall sizes, failure ≠ .batches sizes) := by
  unfold applyTo
  rw [ends_bind, ends_get, ends_bind, ends_ofExcept]
  constructor
  · intro t _
    have hassign := run_assign w id .value (.tensor t) e
    unfold run at hassign
    unfold Ends
    rw [hassign]
    cases (e.get? id .value).isSome with
    | true => exact nofun
    | false => exact trivial
  · rintro failure hfailure sizes rfl
    exact happly sizes hfailure

section Entries

variable (hn : w.node? id = some n) (hrole : n.role = .operation o arguments extras)
  (hentries : forall a, a ∈ arguments -> ∃ x, e.get? a .value = some x ∧ argument x = f a)

include hn hrole hentries

theorem materialize_of_reconcile {args : List (Argument α)}
    (h : Batched.reconcile (arguments.map f ++ w.given extras) = .ok args) :
    (materialize w id).run e = (applyTo w id o args).run e := by
  have hrun := run_operands w extras hentries
  unfold run at hrun ⊢
  rw [materialize_operation hn hrole, run_bind, hrun, h]

theorem materialize_of_error {sizes : List Nat}
    (h : Batched.reconcile (arguments.map f ++ w.given extras) = .error sizes) :
    (materialize w id).run e = (.error (.batches sizes), e) := by
  have hrun := run_operands w extras hentries
  unfold run at hrun ⊢
  rw [materialize_operation hn hrole, run_bind, hrun, h]

/-- Nothing but the matching of the operands fails for their batch sizes, unless a density is
applied. -/
theorem exists_batches_iff (hnone : AppliesNone o arguments f) :
    (∃ sizes, ((materialize w id).run e).1 = .error (.batches sizes)) ↔
      ∃ sizes, Batched.reconcile (arguments.map f ++ w.given extras) = .error sizes := by
  constructor
  · rintro ⟨sizes, hsizes⟩
    cases h : Batched.reconcile (arguments.map f ++ w.given extras) with
    | error sizes' => exact ⟨sizes', rfl⟩
    | ok args =>
        rw [materialize_of_reconcile hn hrole hentries h] at hsizes
        have happly := apply_ne_batches hnone h (e.density w)
        exact absurd rfl ((ends_applyTo happly).of_error (Prod.ext hsizes rfl) sizes)
  · rintro ⟨sizes, h⟩
    exact ⟨sizes, by rw [materialize_of_error hn hrole hentries h]⟩

end Entries

/-- An operation gets its arguments, matched among themselves, and the extra arguments as
they are given exactly if the batch axes of all these have one size.  They cannot be matched
exactly if two of these sizes other than one differ, or if the arguments cannot be matched
already; the node fails for the batch sizes in no other way, unless a custom function applies
a density. -/
theorem operands_as_given_iff (hn : w.node? id = some n)
    (hrole : n.role = .operation o arguments extras)
    (hentries : forall a, a ∈ arguments ->
      ∃ x, e.get? a .value = some x ∧ argument x = f a) :
    (materialize w id : Pass α Unit) = operands w arguments extras >>= applyTo w id o ∧
      (forall args, Batched.reconcile (arguments.map f) = .ok args ->
        ((operands w arguments extras).run e = (.ok (args ++ w.given extras), e) ↔
          Batched.Agree (args ++ w.given extras)) ∧
        ((∃ sizes, ((operands w arguments extras).run e).1 = .error (.batches sizes)) ↔
          Batched.Clash (args ++ w.given extras)) ∧
        (AppliesNone o arguments f ->
          ((∃ sizes, ((materialize w id).run e).1 = .error (.batches sizes)) ↔
            Batched.Clash (args ++ w.given extras)))) ∧
      forall sizes, Batched.reconcile (arguments.map f) = .error sizes ->
        ∃ sizes', (materialize w id).run e = (.error (.batches sizes'), e) ∧
          sizes ⊆ sizes' := by
  refine ⟨materialize_operation hn hrole, ?_, ?_⟩
  · intro args hargs
    refine ⟨?_, ?_, ?_⟩
    · rw [← Batched.reconcile_append_iff Argument.batch?_repeatRows hargs,
        run_operands w extras hentries]
      cases Batched.reconcile (arguments.map f ++ w.given extras) with
      | error sizes => simp
      | ok args' => simp
    · rw [← Batched.exists_error_append_iff Argument.batch?_repeatRows hargs,
        run_operands w extras hentries]
      cases Batched.reconcile (arguments.map f ++ w.given extras) with
      | error sizes => simp
      | ok args' => simp
    · intro hnone
      rw [exists_batches_iff hn hrole hentries hnone,
        Batched.exists_error_append_iff Argument.batch?_repeatRows hargs]
  · intro sizes hsizes
    rcases Batched.exists_error_append hsizes with ⟨sizes', hsizes', hsubset⟩
    exact ⟨sizes', materialize_of_error hn hrole hentries hsizes', hsubset⟩

section Shifted

attribute [local instance] CustomCode.refusing

/-- An array of `k` numbers. -/
def offsets (k : Nat) : Value :=
  .array false (.floats .double (Tensor.full [k] 1.0))

def shiftedNode (k : Nat) : Node :=
  { Node.lone [1, 1] (.blank [1, 1]) (.operation (.named .add) [0] [offsets k]) with
    parents := [0] }

def shifted (k : Nat) : Workspace :=
  { Workspace.empty default true with
    nodes :=
      [some { Node.lone [1, 1] (.blank [1, 1]) (.latent .whole .unconstrained 1) with
          children := [1] },
        some (shiftedNode k)] }

/-- Values of the variable in three chains. -/
def chains : Argument Number :=
  .tensor (Tensor.full [3, 1, 1] default)

def chainsEnvironment : Environment Number :=
  ⟨[((0, .value), .tensor (Tensor.full [3, 1, 1] default))], [], [], .bool false⟩

theorem get?_chains :
    forall a, a ∈ [0] ->
      ∃ x, chainsEnvironment.get? a .value = some x ∧ argument x = chains := by
  intro a ha
  rw [List.mem_singleton.mp ha]
  exact ⟨_, rfl, rfl⟩

theorem batch?_chains : Batched.batch? chains = some 3 :=
  rfl

theorem batch?_given (k : Nat) :
    forall a : Argument Number, a ∈ (shifted k).given [offsets k] -> Batched.batch? a = some k := by
  intro a ha
  rw [List.mem_singleton.mp ha]
  rfl

theorem reconcile_chains : Batched.reconcile [chains] = .ok [chains] := by
  apply Batched.reconcile_of_agree
  refine ⟨3, ?_⟩
  intro a ha m hm
  rw [List.mem_singleton.mp ha, batch?_chains] at hm
  exact (Option.some.inj hm).symm

/-- As many numbers as there are chains are passed as they are. -/
theorem operands_as_given_iff_three :
    (operands (shifted 3) [0] [offsets 3]).run chainsEnvironment =
      (.ok ([chains] ++ (shifted 3).given [offsets 3]), chainsEnvironment) := by
  have hnode : (shifted 3).node? 1 = some (shiftedNode 3) := rfl
  have hgiven := operands_as_given_iff hnode rfl get?_chains
  apply (hgiven.2.1 [chains] reconcile_chains).1.mpr
  refine ⟨3, ?_⟩
  intro a ha m hm
  rcases List.mem_append.mp ha with ha | ha
  · rw [List.mem_singleton.mp ha, batch?_chains] at hm
    exact (Option.some.inj hm).symm
  · rw [batch?_given 3 a ha] at hm
    exact (Option.some.inj hm).symm

/-- Two numbers cannot be added to three chains, which have one batch size among
themselves. -/
theorem not_operands_as_given :
    Batched.reconcile [chains] = .ok [chains] ∧
      ∃ sizes, ((materialize (shifted 2) 1).run chainsEnvironment).1 =
        .error (.batches sizes) := by
  refine ⟨reconcile_chains, ?_⟩
  have hnode : (shifted 2).node? 1 = some (shiftedNode 2) := rfl
  rw [exists_batches_iff hnode rfl get?_chains (Or.inl ⟨.add, rfl⟩), Batched.exists_error_iff]
  refine ⟨3, 2, by decide, ⟨by decide, chains, List.mem_cons_self, batch?_chains⟩, by decide, ?_⟩
  refine ⟨_, List.mem_cons_of_mem _ List.mem_cons_self, ?_⟩
  exact batch?_given 2 _ List.mem_cons_self

end Shifted

end Pass
end DensityGraph
