import DensityGraph.Graph.Function
import DensityGraph.Proofs.Graph.Build
/-!
# What building retains

While a node is built, everything happens under new numbers, up to the edges that are drawn
in the end.  So a call that fails before has added nodes at most, and has left all nodes that
were there as they were.  Nothing more is used of this than that the relation between the
workspaces before and after holds along reading, reporting, giving out numbers and wrapping
data, so it is a parameter.
-/

namespace DensityGraph

namespace Workspace

variable {v w : Workspace}

def Retains (w v : Workspace) : Prop :=
  forall id n, w.node? id = some n -> v.node? id = some n

theorem GrowsTo.retains (h : w.GrowsTo v) : w.Retains v :=
  fun _ _ => h.node?

theorem growsTo_refl (w : Workspace) : w.GrowsTo w :=
  Edits.refl w

theorem growsTo_reserve (w : Workspace) : w.GrowsTo w.reserve :=
  Edits.single (e := .reserve) trivial rfl

theorem node?_reserve_length (w : Workspace) : w.reserve.node? w.nodes.length = none :=
  (node?_reserve w _).trans (node?_length w)

/-- A relation between workspaces that holds along everything that only reads, reports, gives
out numbers, and wraps data. -/
class Gathers (R : Workspace → Workspace → Prop) : Prop where
  refl : forall w, R w w
  trans : forall {u v w}, R u v -> R v w -> R u w
  reserve : forall w : Workspace, R w w.reserve
  report : forall (w : Workspace) (m : Message), R w (w.report m)
  data : forall (w : Workspace) (t : Tensor Float), 2 ≤ t.shape.length -> t.shape.IsDim ->
    R w (w.reserve.put w.nodes.length (Node.lone t.shape (.ofFloats t) .data))

instance : Gathers GrowsTo where
  refl := growsTo_refl
  trans := Edits.trans
  reserve := growsTo_reserve
  report _ m := Edits.single (e := .report m) trivial rfl
  data _ t _ hdim := (Action.growsTo_put (Node.Made.data t hdim) rfl).1

end Workspace

namespace Action

open Workspace

variable {β γ : Type} {w : Workspace} {R : Workspace → Workspace → Prop}

/-!
# Computations that add nodes
-/

/-- The relation holds between the workspaces before and after the computation, whether it
returns or fails. -/
def Along (R : Workspace → Workspace → Prop) (a : Action β) : Prop :=
  forall w, Ends a w (fun _ w' => R w w') fun _ w' => R w w'

def Atomic (R : Workspace → Workspace → Prop) (a : Action β) : Prop :=
  forall w, Ends a w (fun _ _ => True) fun _ w' => R w w'

theorem Along.ite {c : Prop} [Decidable c] {a b : Action β} (ha : Along R a)
    (hb : Along R b) : Along R (if c then a else b) := by
  split
  · exact ha
  · exact hb

theorem Along.ends {a : Action β} {Q : β → Workspace → Prop} (h : Along R a)
    (ha : Ends a w Q Fails) :
    Ends a w (fun x w' => Q x w' ∧ R w w') fun _ w' => R w w' :=
  (ha.and (h w)).mono (fun _ _ h => h) fun _ _ h => h.2

theorem Along.atomic {a : Action β} (h : Along R a) : Atomic R a := by
  intro w
  apply (h w).mono
  · intro _ _ _
    trivial
  · intro _ _ hv
    exact hv

theorem Atomic.ite {c : Prop} [Decidable c] {a b : Action β} (ha : Atomic R a)
    (hb : Atomic R b) : Atomic R (if c then a else b) := by
  split
  · exact ha
  · exact hb

theorem Atomic.discard {a : Action β} (h : Atomic R a) : Atomic R (do let _ ← a) := by
  intro w
  rw [ends_bind]
  exact (h w).mono (fun _ _ h => h) fun _ _ h => h

variable [Gathers R]

theorem along_pure (x : β) : Along R (pure x : Action β) :=
  fun w => ends_pure.mpr (Gathers.refl w)

theorem along_throw (f : Failure) : Along R (throw f : Action β) :=
  fun w => Gathers.refl w

theorem along_refuse (r : Refusal) : Along R (refuse r : Action β) :=
  fun w => ends_refuse.mpr (Gathers.refl w)

theorem along_invalid (reason : Invalid) : Along R (invalid reason : Action β) :=
  fun w => ends_invalid.mpr (Gathers.refl w)

theorem along_get : Along R (get : Action Workspace) :=
  fun w => ends_get.mpr (Gathers.refl w)

theorem along_report (c : Channel) (level : Level) (text : String) :
    Along R (report c level text) :=
  fun w => ends_report.mpr (Gathers.report w _)

theorem along_ofExcept (x : Except Failure β) : Along R (ofExcept x) :=
  fun w => ends_ofExcept.mpr ⟨fun _ _ => Gathers.refl w, fun _ _ => Gathers.refl w⟩

theorem along_ofRefusal (x : Except Refusal β) : Along R (ofRefusal x) :=
  fun w => ends_ofRefusal.mpr ⟨fun _ _ => Gathers.refl w, fun _ _ => Gathers.refl w⟩

theorem along_requireText (isWritable : Bool) : Along R (requireText isWritable) := by
  cases isWritable with
  | true => exact along_pure ()
  | false => exact along_refuse _

theorem along_node (id : NodeId) : Along R (node id) :=
  fun w => ends_node.mpr ⟨fun _ _ => Gathers.refl w, fun _ => Gathers.refl w⟩

theorem along_reserve : Along R reserve :=
  fun w => ends_reserve.mpr (Gathers.reserve w)

theorem Along.bind {a : Action β} {next : β → Action γ} (h : Along R a)
    (hnext : forall x, Along R (next x)) : Along R (a >>= next) := by
  intro w
  rw [ends_bind]
  apply (h w).mono
  · intro x v hv
    exact (hnext x v).mono (fun _ _ => Gathers.trans hv) fun _ _ => Gathers.trans hv
  · intro _ _ hv
    exact hv

theorem along_distribution (id : NodeId) : Along R (distribution id) := by
  refine (along_node id).bind fun n => ?_
  split
  · exact along_pure _
  · exact along_refuse _

theorem along_label (id : NodeId) : Along R (label id) :=
  along_get.bind fun w => along_pure (w.label id)

theorem along_written (v : Value) : Along R (written v) :=
  along_get.bind fun w => along_pure (v.written w.written)

theorem Along.mapM {f : β → Action γ} (h : forall x, Along R (f x)) (xs : List β) :
    Along R (xs.mapM f) := by
  induction xs with
  | nil => exact along_pure []
  | cons x xs ih =>
      rw [List.mapM_cons]
      exact (h x).bind fun y => ih.bind fun ys => along_pure (y :: ys)

theorem Along.bind_atomic {a : Action β} {next : β → Action γ} (h : Along R a)
    (hnext : forall x, Atomic R (next x)) : Atomic R (a >>= next) := by
  intro w
  rw [ends_bind]
  apply (h w).mono
  · intro x v hv
    exact (hnext x v).mono (fun _ _ h => h) fun _ _ => Gathers.trans hv
  · intro _ _ hv
    exact hv

/-!
# Data and variables
-/

theorem along_newData (v : Value) : Along R (newData v) := by
  intro w
  apply (ends_newData_put v).mono
  · intro _ _ hends
    rcases hends with ⟨t, hlength, hdim, _, rfl⟩
    exact Gathers.data w t hlength hdim
  · intro _ _ hv
    rcases hv with rfl | rfl
    · exact Gathers.refl _
    · exact Gathers.reserve w

theorem along_toNode (v : Value) : Along R (toNode v) := by
  unfold toNode
  split
  · exact along_pure _
  · exact along_newData _

theorem along_asData (v : Value) : Along R (asData v) := by
  unfold asData
  split
  · refine (along_node _).bind fun n => ?_
    apply Along.ite
    · exact along_pure _
    · exact (along_label _).bind fun _ => along_invalid _
  · exact along_newData _

theorem along_dims (ids : List NodeId) : Along R (dims ids) :=
  Along.mapM (fun id => (along_node id).bind fun _ => along_pure _) ids

theorem along_operationDim (name : String) (arguments : List NodeId) (dim : Value) :
    Along R (operationDim name arguments dim) := by
  unfold operationDim
  split
  · refine (along_dims arguments).bind fun ds => ?_
    split
    · exact along_pure _
    · exact along_invalid _
  · exact (along_dims arguments).bind fun ds =>
      (along_ofRefusal _).bind fun d => along_ofExcept _
  · exact along_ofExcept _

theorem along_bound (which : String) (v : Value) : Along R (bound which v) := by
  have hbad : Along R (do invalid (.boundNotNumeric which (← written v)) : Action Float) :=
    (along_written v).bind fun _ => along_invalid _
  refine (along_ofRefusal _).bind fun content => ?_
  split
  · exact hbad
  · split
    · exact along_pure _
    · exact hbad
  · exact hbad

theorem along_bounds (lower upper : Value) : Along R (bounds lower upper) := by
  refine (along_bound "lower" lower).bind fun l => (along_bound "upper" upper).bind
    fun u => ?_
  apply Along.ite
  · apply Along.ite
    · exact along_invalid _
    · exact along_pure _
  · exact along_invalid _

theorem along_constraintOf (b : Interval) (constraint : Value) :
    Along R (constraintOf b constraint) := by
  unfold constraintOf
  split
  · exact along_pure _
  · apply Along.ite
    · exact along_get.bind fun _ => along_invalid _
    · exact along_get.bind fun _ => along_ofExcept _

theorem along_freeSizeOf (c : Constraint) (dim : Shape) : Along R (freeSizeOf c dim) := by
  unfold freeSizeOf
  split
  · exact along_pure _
  · exact along_invalid _

theorem atomic_putVariable (b : Interval) (c : Constraint) (dim : Shape) :
    Atomic R (putVariable b c dim) := by
  refine (along_freeSizeOf c dim).bind_atomic fun size => along_reserve.bind_atomic fun id => ?_
  intro w
  rw [ends_bind, ends_put, ends_pure]
  trivial

theorem atomic_newVariable (lower upper dim constraint : Value) :
    Atomic R (newVariable lower upper dim constraint) :=
  (along_bounds lower upper).bind_atomic fun b =>
    (along_constraintOf b constraint).bind_atomic fun c => (along_ofExcept _).bind_atomic
      fun d => atomic_putVariable b c d

theorem ends_putVariable_node (b : Interval) (c : Constraint) (dim : Shape) :
    Ends (putVariable b c dim) w
      (fun id w' => ∃ role, id = w.nodes.length ∧
        w' = w.reserve.put w.nodes.length (Node.lone dim (NodeValue.blank dim) role))
      (fun _ w' => R w w') := by
  apply ((ends_putVariable_latent b c dim).and (atomic_putVariable (R := R) b c dim w)).mono
  · rintro id w' ⟨⟨size, _, hid, hw'⟩, _⟩
    exact ⟨_, hid, hw'⟩
  · intro _ _ h
    exact h.2

theorem ends_newVariable_node (lower upper dim constraint : Value) :
    Ends (newVariable lower upper dim constraint) w
      (fun id w' => ∃ d role, dim.toDim = .ok d ∧ id = w.nodes.length ∧
        w' = w.reserve.put w.nodes.length (Node.lone d (NodeValue.blank d) role))
      (fun _ w' => R w w') := by
  apply ((ends_newVariable_latent lower upper dim constraint).and
    (atomic_newVariable (R := R) lower upper dim constraint w)).mono
  · intro id w' hends
    rcases hends.1 with ⟨b, c, d, size, _, _, hd, _, _, rfl, rfl⟩
    exact ⟨d, _, hd, rfl, rfl⟩
  · intro _ _ h
    exact h.2

theorem along_newVariable (lower upper dim constraint : Value) :
    Along GrowsTo (newVariable lower upper dim constraint) := by
  intro w
  apply ((ends_newVariable lower upper dim constraint).and
    (atomic_newVariable (R := GrowsTo) lower upper dim constraint w)).mono
  · intro _ _ h
    exact h.1.1
  · intro _ _ h
    exact h.2

theorem along_newBounded (truncation dim : Value) : Along GrowsTo (newBounded truncation dim) := by
  unfold newBounded
  split
  · exact along_newVariable _ _ _ _
  · refine (along_ofRefusal _).bind fun xs => ?_
    split
    · exact along_newVariable _ _ _ _
    · exact along_refuse _

/-!
# Operations
-/

theorem atomic_newOperation (operation : Value) (args : List Value) (dim extras value : Value)
    (reps : List (String × NodeId)) :
    Atomic R (newOperation operation args dim extras value reps) := by
  have hput : forall (o : Operation) (arguments : List NodeId) (d : Shape) (id : NodeId)
      (nv : NodeValue), Atomic R (do
        let es ← ofRefusal (members extras)
        put id { Node.lone d nv (.operation o arguments es) with representations := reps }
        arguments.forM fun a => modify fun w => w.link id a
        return id) := by
    intro o arguments d id nv
    refine (along_ofRefusal _).bind_atomic fun es => ?_
    intro w
    rw [ends_bind, ends_put, ends_bind]
    apply ends_forM_link
    exact ends_pure.mpr trivial
  unfold newOperation
  refine along_get.bind_atomic fun u => (along_ofExcept _).bind_atomic fun o =>
    (Along.mapM along_toNode args).bind_atomic fun arguments =>
      (along_operationDim _ _ _).bind_atomic fun d => ?_
  simp only
  split
  · refine along_reserve.bind_atomic fun id => ?_
    exact (along_pure _).bind_atomic fun nv => hput o arguments d id nv
  · refine (along_ofRefusal _).bind_atomic fun shape => ?_
    apply Atomic.ite
    · intro w
      rw [ends_bind, ends_invalid]
      exact Gathers.refl w
    · refine along_reserve.bind_atomic fun id => ?_
      simp only
      exact (along_ofRefusal _).bind_atomic fun nv => hput o arguments d id nv

theorem atomic_operationOf (o : NamedOperation) (ids : List NodeId) (dim : Value) :
    Atomic R (operationOf o ids dim) :=
  atomic_newOperation _ _ _ _ _ _

/-!
# Functions and operators
-/

theorem atomic_invertible (o inverse : NamedOperation) (x : Value) :
    Atomic R (invertible o inverse x) := by
  refine (along_toNode x).bind_atomic fun id => (along_node id).bind_atomic fun n => ?_
  split
  · exact (along_pure _).atomic
  · exact atomic_newOperation _ _ _ _ _ _

theorem atomic_matmul (x y : Value) : Atomic R (matmul x y) := by
  refine (along_toNode x).bind_atomic fun left => (along_toNode y).bind_atomic
    fun right => (along_node left).bind_atomic fun n => (along_node right).bind_atomic
      fun m => ?_
  simp only
  split
  · apply Atomic.ite
    · exact atomic_operationOf _ _ _
    · exact (along_invalid _).atomic
  · exact (along_invalid _).atomic

theorem atomic_transpose (x : Value) : Atomic R (transpose x) := by
  refine (along_toNode x).bind_atomic fun id => (along_node id).bind_atomic fun n => ?_
  apply Atomic.ite
  · exact (along_refuse _).bind_atomic fun _ => atomic_operationOf _ _ _
  · exact atomic_operationOf _ _ _

theorem atomic_reduce (o : NamedOperation) (x : Value) : Atomic R (reduce o x) :=
  (along_toNode x).bind_atomic fun id => (along_node id).bind_atomic fun _ =>
    atomic_operationOf o [id] _

theorem atomic_function (name : String) (args : List Value) : Atomic R (function name args) := by
  unfold function
  split
  · exact atomic_invertible _ _ _
  · exact atomic_invertible _ _ _
  · exact atomic_matmul _ _
  · exact atomic_transpose _
  · exact atomic_reduce _ _
  · exact atomic_reduce _ _
  · exact atomic_newOperation _ _ _ _ _ _
  · split
    · exact atomic_newOperation _ _ _ _ _ _
    · exact (along_refuse _).atomic
    · exact ((along_refuse _).ite (along_refuse _)).atomic

theorem atomic_binary (o : BinaryOperator) (a b : Value) : Atomic R (binary o a b) := by
  unfold binary
  apply Atomic.ite
  · split
    · exact atomic_matmul _ _
    · exact atomic_newOperation _ _ _ _ _ _
  · exact (along_refuse _).atomic

theorem atomic_negate (a : Value) : Atomic R (negate a) := by
  unfold negate
  apply Atomic.ite
  · exact atomic_newOperation _ _ _ _ _ _
  · exact (along_refuse _).atomic

end Action
end DensityGraph
