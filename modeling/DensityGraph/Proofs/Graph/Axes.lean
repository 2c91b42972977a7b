import DensityGraph.Proofs.Graph.Atomic
import DensityGraph.Proofs.Graph.Shared
import DensityGraph.Proofs.Operation.RowWise
/-!
# Axes of nodes

A shape that is read from a value, or that operations broadcast to, has two axes or more,
none of which is empty, unless the value is read as an empty sequence: then the node has no
axes at all.  No change of the graph gives a node another shape.
-/

namespace DensityGraph

structure Shape.HasAxes (P : Prop) (dim : Shape) : Prop where
  isDim : dim.IsDim
  axes : dim = [] -> P

namespace Workspace

variable {P : Prop} {u v w : Workspace} {id : NodeId} {n : Node}

def HasAxes (P : Prop) (w : Workspace) : Prop :=
  forall id n, w.node? id = some n -> n.dim.HasAxes P

def HasPoint (w : Workspace) : Prop :=
  ∃ id n, w.node? id = some n ∧ n.dim = []

structure KeepsAxes (P : Prop) (w v : Workspace) : Prop where
  dims : forall id n, w.node? id = some n -> ∃ n', v.node? id = some n' ∧ n'.dim = n.dim
  axes : w.HasAxes P -> v.HasAxes P

/-!
# Shapes that are kept
-/

theorem keepsAxes_refl (w : Workspace) : KeepsAxes P w w :=
  ⟨fun _ n hn => ⟨n, hn, rfl⟩, fun h => h⟩

theorem KeepsAxes.trans (h : KeepsAxes P u v) (h' : KeepsAxes P v w) : KeepsAxes P u w := by
  refine ⟨?_, fun hu => h'.axes (h.axes hu)⟩
  intro id n hn
  rcases h.dims id n hn with ⟨n', hn', hdim⟩
  rcases h'.dims id n' hn' with ⟨n'', hn'', hdim'⟩
  exact ⟨n'', hn'', hdim'.trans hdim⟩

theorem KeepsAxes.hasPoint (h : KeepsAxes P w v) (hw : w.HasPoint) : v.HasPoint := by
  rcases hw with ⟨id, n, hn, hdim⟩
  rcases h.dims id n hn with ⟨n', hn', hdim'⟩
  exact ⟨id, n', hn', hdim'.trans hdim⟩

theorem KeepsAxes.before (h : KeepsAxes P w v) (hv : v.HasAxes P) : w.HasAxes P := by
  intro id n hn
  rcases h.dims id n hn with ⟨n', hn', hdim⟩
  rw [← hdim]
  exact hv id n' hn'

theorem keepsAxes_update {f : Node → Node} (hf : forall n, (f n).dim = n.dim) (w : Workspace)
    (id : NodeId) : KeepsAxes P w (w.update id f) := by
  constructor
  · intro x n hn
    rw [node?_update, hn, Option.map_some]
    refine ⟨_, rfl, ?_⟩
    split
    · exact hf n
    · rfl
  · intro h x n' hn'
    rcases node?_update_some hn' with ⟨n, hn, rfl⟩
    split
    · rw [hf]
      exact h x n hn
    · exact h x n hn

theorem keepsAxes_link (w : Workspace) (child parent : NodeId) :
    KeepsAxes P w (w.link child parent) := by
  apply (keepsAxes_update (f := Node.addParent parent) (fun n => n.dim_addParent parent) w child).trans
  apply keepsAxes_update
  intro n
  rw [Node.addChild_eq]

theorem keepsAxes_unlink (w : Workspace) (child parent : NodeId) :
    KeepsAxes P w (w.unlink child parent) := by
  apply (keepsAxes_update (f := Node.removeParent parent) (fun _ => rfl) w child).trans
  exact keepsAxes_update (f := Node.removeChild child) (fun _ => rfl) _ parent

theorem keepsAxes_linkAll (w : Workspace) (child : NodeId) (parents : List NodeId) :
    KeepsAxes P w (w.linkAll child parents) := by
  induction parents generalizing w with
  | nil => exact keepsAxes_refl w
  | cons p parents ih => exact (keepsAxes_link w child p).trans (ih (w.link child p))

theorem keepsAxes_reserve (w : Workspace) : KeepsAxes P w w.reserve := by
  constructor
  · intro id n hn
    exact ⟨n, (node?_reserve w id).trans hn, rfl⟩
  · intro h id n hn
    exact h id n ((node?_reserve w id).symm.trans hn)

theorem keepsAxes_put (hnone : w.node? id = none) (hn : w.HasAxes P -> n.dim.HasAxes P) :
    KeepsAxes P w (w.put id n) := by
  constructor
  · intro x m hm
    have hne : id ≠ x := by
      intro heq
      rw [← heq, hnone] at hm
      cases hm
    exact ⟨m, (node?_put_of_ne w n hne).trans hm, rfl⟩
  · intro h x m hm
    by_cases hx : id = x
    · rw [← hx] at hm
      by_cases hlength : id < w.nodes.length
      · rw [node?_put_self w n hlength] at hm
        cases hm
        exact hn h
      · simp [node?, put, hlength] at hm
    · rw [node?_put_of_ne w n hx] at hm
      exact h x m hm

theorem keepsAxes_new (hn : w.HasAxes P -> n.dim.HasAxes P) :
    KeepsAxes P w (w.reserve.put w.nodes.length n) := by
  apply (keepsAxes_reserve w).trans
  apply keepsAxes_put (node?_reserve_length w)
  intro h
  exact hn ((keepsAxes_reserve w).before h)

theorem keepsAxes_put_new {m : Node} (hm : w.HasAxes P -> m.dim.HasAxes P)
    (hn : w.HasAxes P -> n.dim.HasAxes P) :
    KeepsAxes P w ((w.reserve.reserve.put w.reserve.nodes.length m).put w.nodes.length n) := by
  have hnew := (keepsAxes_reserve w).trans (keepsAxes_new (n := m) fun h =>
    hm ((keepsAxes_reserve w).before h))
  have hne : w.reserve.nodes.length ≠ w.nodes.length := by simp [reserve]
  have hnone := (node?_put_of_ne w.reserve.reserve m hne).trans
    ((node?_reserve w.reserve _).trans (node?_reserve_length w))
  exact hnew.trans (keepsAxes_put hnone fun h => hn (hnew.before h))

theorem hasPoint_put (hlength : id < w.nodes.length) (hn : n.dim = []) :
    (w.put id n).HasPoint :=
  ⟨id, n, node?_put_self w n hlength, hn⟩

theorem hasPoint_new (hn : n.dim = []) : (w.reserve.put w.nodes.length n).HasPoint := by
  apply hasPoint_put _ hn
  simp [reserve]

instance : Gathers (KeepsAxes P) where
  refl := keepsAxes_refl
  trans := KeepsAxes.trans
  reserve := keepsAxes_reserve
  report _ _ := ⟨fun _ n hn => ⟨n, hn, rfl⟩, fun h => h⟩
  data w t hlength hdim := by
    apply keepsAxes_new
    intro _
    refine ⟨hdim, ?_⟩
    intro hnil
    change t.shape = [] at hnil
    rw [hnil] at hlength
    cases hlength

end Workspace

/-!
# Shapes that are read
-/

namespace Shape

variable {P : Prop} {d : Shape} {ds : List Shape}

theorem hasAxes_toDim {x : Value} (h : x.toDim = .ok d) (hP : x.isPoint = true -> P) :
    d.HasAxes P := by
  refine ⟨Value.isDim_toDim h, ?_⟩
  intro hnil
  rw [hnil] at h
  exact hP (Value.isPoint_of_toDim h)

theorem le_foldl_max (ks : List Nat) (m : Nat) : m ≤ ks.foldl max m := by
  induction ks generalizing m with
  | nil => exact Nat.le_refl m
  | cons k ks ih => exact Nat.le_trans (Nat.le_max_left m k) (ih (max m k))

theorem hasAxes_broadcast {name : String} (h : Dim.broadcast name ds = .ok d)
    (hds : forall e, e ∈ ds -> e.HasAxes P) : d.HasAxes P := by
  cases ds with
  | nil => cases h
  | cons e rest =>
      rcases Dim.broadcast_ok h with ⟨_, hlength, haxes⟩
      have he := hds e List.mem_cons_self
      constructor
      · constructor
        · rw [hlength]
          exact he.isDim.length
        · intro k hk
          rcases List.getElem_of_mem hk with ⟨i, hi, rfl⟩
          have hi' : i < e.length := hlength ▸ hi
          have hfirst : 1 ≤ e.getD i 1 := by
            apply he.isDim.positive
            simp [List.getD, hi']
          have haxis := (haxes i hi').2
          rw [List.getD_eq_getElem?_getD, List.getElem?_eq_getElem hi, Option.getD_some] at haxis
          rw [haxis]
          apply Nat.le_trans hfirst
          exact Nat.le_trans (Nat.le_max_right 0 _) (le_foldl_max _ _)
      · intro hnil
        rw [hnil] at hlength
        exact he.axes (List.length_eq_zero_iff.mp hlength.symm)

theorem eq_of_shared {t : Shape} (h : Dim.shared ds (some t) = .ok d) : d = t := by
  rcases Dim.single_or_shares_or_differ ds with hsingle | ⟨e, hshares⟩ | hdiffer
  · rw [Dim.shared_of_single hsingle] at h
    exact (Except.ok.inj h).symm
  · rw [(Dim.shared_of_shares hshares).2] at h
    split at h
    · exact (Except.ok.inj h).symm
    · cases h
  · rw [Dim.shared_of_differ hdiffer] at h
    cases h

theorem hasAxes_shared (h : Dim.shared ds none = .ok d) (hds : forall e, e ∈ ds -> e.HasAxes P) :
    d.HasAxes P := by
  rcases Dim.single_or_shares_or_differ ds with hsingle | ⟨e, hshares⟩ | hdiffer
  · rw [Dim.shared_of_single hsingle] at h
    cases h
    exact ⟨⟨by decide, by decide⟩, nofun⟩
  · rw [(Dim.shared_of_shares hshares).1] at h
    cases h
    exact hds d hshares.mem
  · rw [Dim.shared_of_differ hdiffer] at h
    cases h

end Shape

namespace Workspace

def argumentDims? (w : Workspace) (args : List Value) : Option (List Shape) :=
  match (args.mapM Action.toNode).run w with
  | (.ok ids, v) => v.dims? ids
  | (.error _, _) => none

end Workspace

namespace Action

open Workspace

variable {β γ : Type} {P : Prop} {w : Workspace}

/-!
# Building with given shapes
-/

/-- The action keeps the axes, and where it returns and a node without axes was asked for,
there is one. -/
def Gives (P : Prop) (asked : Bool) (w : Workspace) (a : Action β) : Prop :=
  Ends a w (fun _ v => KeepsAxes P w v ∧ (asked = true -> v.HasPoint)) fun _ v => KeepsAxes P w v

section Gives

variable {a : Action β} {next : β → Action γ} {asked : Bool}

theorem Gives.along (h : forall w, Gives P asked w a) : Along (KeepsAxes P) a := by
  intro w
  apply (h w).imp
  intro _ _ hv
  exact hv.1

theorem Along.unasked (h : Along (KeepsAxes P) a) : Gives P false w a := by
  apply (h w).imp
  intro _ _ hv
  exact ⟨hv, nofun⟩

theorem Gives.weaken {asked' : Bool} (h : Gives P asked w a)
    (hasked : asked' = true -> asked = true) : Gives P asked' w a := by
  apply Ends.imp h
  intro _ _ hends
  exact ⟨hends.1, fun h => hends.2 (hasked h)⟩

theorem Gives.bind (h : Gives P asked w a) (hnext : forall x, Along (KeepsAxes P) (next x)) :
    Gives P asked w (a >>= next) := by
  apply Ends.bind h
  intro x v hends
  rcases hends with ⟨hv, hpoint⟩
  apply (hnext x v).mono
  · intro _ u hu
    exact ⟨hv.trans hu, fun hasked => hu.hasPoint (hpoint hasked)⟩
  · intro _ _ hu
    exact hv.trans hu

theorem Along.gives {Q : β → Workspace → Prop} (h : Along (KeepsAxes P) a) (ha : Ends a w Q Fails)
    (hnext : forall x v, Q x v -> KeepsAxes P w v -> Gives P asked v (next x)) :
    Gives P asked w (a >>= next) := by
  apply Ends.bind (h.ends ha)
  intro x v hends
  rcases hends with ⟨hx, hv⟩
  apply (hnext x v hx hv).mono
  · intro _ _ hu
    exact ⟨hv.trans hu.1, hu.2⟩
  · intro _ _ hu
    exact hv.trans hu

theorem gives_ofExcept {x : Except Failure β}
    (h : forall y, x = .ok y -> Gives P asked w (next y)) :
    Gives P asked w (ofExcept x >>= next) :=
  ends_bind.mpr (ends_ofExcept.mpr ⟨h, fun _ _ => keepsAxes_refl w⟩)

theorem gives_ofRefusal {x : Except Refusal β}
    (h : forall y, x = .ok y -> Gives P asked w (next y)) :
    Gives P asked w (ofRefusal x >>= next) :=
  ends_bind.mpr (ends_ofRefusal.mpr ⟨h, fun _ _ => keepsAxes_refl w⟩)

end Gives

theorem gives_newVariable (lower upper dim constraint : Value)
    (hP : w.HasAxes P -> dim.isPoint = true -> P) :
    Gives P dim.isPoint w (newVariable lower upper dim constraint) := by
  apply (ends_newVariable_node lower upper dim constraint).imp
  intro _ _ hends
  rcases hends with ⟨d, role, hd, _, _, rfl⟩
  constructor
  · apply keepsAxes_new
    intro hw
    exact Shape.hasAxes_toDim hd (hP hw)
  · intro hpoint
    apply hasPoint_new
    rw [Value.toDim_of_isPoint hpoint] at hd
    exact (Except.ok.inj hd).symm

theorem gives_newBounded (truncation dim : Value)
    (hP : w.HasAxes P -> dim.isPoint = true -> P) :
    Gives P dim.isPoint w (newBounded truncation dim) := by
  unfold newBounded
  split
  · exact gives_newVariable _ _ _ _ hP
  · apply gives_ofRefusal
    intro xs _
    split
    · exact gives_newVariable _ _ _ _ hP
    · exact keepsAxes_refl w

/-!
# Operations
-/

theorem hasAxes_operationDim {name : String} {arguments : List NodeId} {dim : Value} {d : Shape}
    (hnone : dim = .none ->
      ∃ ds, w.dims? arguments = some ds ∧ Dim.broadcast name ds = .ok d)
    (hgiven : dim ≠ .none ->
      ∃ x, sizesFrom? (w.dims? arguments) dim = some x ∧ x.toDim = .ok d)
    (hP : (sizesFrom? (w.dims? arguments) dim).any Value.isPoint = true -> P)
    (hw : w.HasAxes P) : d.HasAxes P := by
  by_cases hdim : dim = .none
  · rcases hnone hdim with ⟨ds, hds, hbroadcast⟩
    exact Shape.hasAxes_broadcast hbroadcast (forall_of_dims? hw hds)
  · rcases hgiven hdim with ⟨x, hx, hd⟩
    rw [hx] at hP
    exact Shape.hasAxes_toDim hd hP

theorem isPoint_of_sizesFrom? {dims : Option (List Shape)} {dim : Value} {d : Shape}
    (hgiven : dim ≠ .none -> ∃ x, sizesFrom? dims dim = some x ∧ x.toDim = .ok d)
    (hpoint : (sizesFrom? dims dim).any Value.isPoint = true) : d = [] := by
  by_cases hdim : dim = .none
  · rw [hdim] at hpoint
    cases hpoint
  · rcases hgiven hdim with ⟨x, hx, hd⟩
    rw [hx] at hpoint
    rw [Value.toDim_of_isPoint hpoint] at hd
    exact (Except.ok.inj hd).symm

theorem gives_newOperation (operation : Value) (args : List Value)
    (dim extras value : Value) (reps : List (String × NodeId))
    (hP : w.HasAxes P -> (sizesFrom? (w.argumentDims? args) dim).any Value.isPoint = true -> P) :
    Gives P ((sizesFrom? (w.argumentDims? args) dim).any Value.isPoint) w
      (newOperation operation args dim extras value reps) := by
  apply ((ends_newOperation_node operation args dim extras value reps).and
    (atomic_newOperation (R := KeepsAxes P) operation args dim extras value reps w)).mono
  · intro _ _ hends
    rcases hends.1 with
      ⟨o, arguments, v, d, nv, es, _, hrun, hnone, hgiven, _, _, _, rfl, rfl⟩
    have hdims : w.argumentDims? args = v.dims? arguments := by
      unfold argumentDims?
      rw [hrun]
    have hv : KeepsAxes P w v := (Along.mapM along_toNode args w).of_ok hrun
    have haxes : v.HasAxes P -> d.HasAxes P := by
      intro h
      rw [hdims] at hP
      exact hasAxes_operationDim hnone hgiven (hP (hv.before h)) h
    have hlinked := keepsAxes_linkAll (P := P) (v.reserve.put v.nodes.length
      { Node.lone d nv (.operation o arguments es) with representations := reps })
        v.nodes.length arguments
    constructor
    · exact hv.trans ((keepsAxes_new haxes).trans hlinked)
    · intro hpoint
      rw [hdims] at hpoint
      exact hlinked.hasPoint (hasPoint_new (isPoint_of_sizesFrom? hgiven hpoint))
  · intro _ _ h
    exact h.2

/-!
# Functions and operators
-/

theorem axes_newOperation (operation : Value) (args : List Value) (extras value : Value)
    (reps : List (String × NodeId)) :
    Along (KeepsAxes P) (newOperation operation args .none extras value reps) :=
  Gives.along fun _ => gives_newOperation operation args .none extras value reps nofun

theorem ends_operationOf_axes (o : NamedOperation) (ids : List NodeId) {s : Shape}
    (hP : w.HasAxes P -> s = [] -> P) :
    Ends (operationOf o ids (.ofShape s)) w (fun _ v => KeepsAxes P w v)
      fun _ v => KeepsAxes P w v := by
  apply (gives_newOperation _ _ (.ofShape s) _ _ _ _).imp
  · intro _ _ h
    exact h.1
  · intro hw hpoint
    exact hP hw (Value.isPoint_ofShape.mp hpoint)

theorem axes_invertible (o inverse : NamedOperation) (x : Value) :
    Along (KeepsAxes P) (invertible o inverse x) := by
  refine (along_toNode x).bind fun id => (along_node id).bind fun n => ?_
  split
  · exact along_pure _
  · exact axes_newOperation _ _ _ _ _

theorem axes_matmul (x y : Value) : Along (KeepsAxes P) (matmul x y) := by
  refine (along_toNode x).bind fun left => (along_toNode y).bind fun right =>
    (along_node left).bind fun n => (along_node right).bind fun m => ?_
  simp only
  split
  · apply Along.ite
    · intro w
      -- The name of the operation is never looked at.
      generalize NamedOperation.matmul = o
      apply ends_operationOf_axes
      intro _ hnil
      cases hnil
    · exact along_invalid _
  · exact along_invalid _

theorem axes_transpose (x : Value) : Along (KeepsAxes P) (transpose x) := by
  refine (along_toNode x).bind fun id => (along_node id).bind fun n => ?_
  intro w
  refine ends_unless (keepsAxes_refl w) ?_
  intro hlength
  apply ends_operationOf_axes
  intro _ hnil
  have hsame : (Tensor.swapLast n.dim).length = n.dim.length := Tensor.length_swapLast _
  rw [hnil, List.length_nil] at hsame
  omega

theorem axes_reduce (o : NamedOperation) (x : Value) : Along (KeepsAxes P) (reduce o x) := by
  refine (along_toNode x).bind fun id => ?_
  intro w
  rw [ends_bind, ends_node]
  refine ⟨?_, fun _ => keepsAxes_refl w⟩
  intro n hn
  apply ends_operationOf_axes
  intro hw hnil
  exact (hw id n hn).axes (List.map_eq_nil_iff.mp hnil)

theorem axes_function (name : String) (args : List Value) :
    Along (KeepsAxes P) (function name args) := by
  unfold function
  split
  · exact axes_invertible _ _ _
  · exact axes_invertible _ _ _
  · exact axes_matmul _ _
  · exact axes_transpose _
  · exact axes_reduce _ _
  · exact axes_reduce _ _
  · exact axes_newOperation _ _ _ _ _
  · split
    · exact axes_newOperation _ _ _ _ _
    · exact along_refuse _
    · exact (along_refuse _).ite (along_refuse _)

theorem axes_binary (o : BinaryOperator) (a b : Value) :
    Along (KeepsAxes P) (binary o a b) := by
  unfold binary
  apply Along.ite
  · split
    · exact axes_matmul _ _
    · exact axes_newOperation _ _ _ _ _
  · exact along_refuse _

theorem axes_negate (a : Value) : Along (KeepsAxes P) (negate a) := by
  unfold negate
  apply Along.ite
  · exact axes_newOperation _ _ _ _ _
  · exact along_refuse _

/-!
# Changes of the graph
-/

theorem axes_update {f : Node → Node} (hf : forall n, (f n).dim = n.dim) (id : NodeId) :
    Along (KeepsAxes P) (update id f) :=
  fun w => ends_update.mpr (keepsAxes_update hf w id)

theorem axes_updateDistribution (id : NodeId) (f : Distribution → Distribution) :
    Along (KeepsAxes P) (updateDistribution id f) :=
  axes_update (fun n => n.dim_mapDistribution f) id

theorem axes_addParent (child : NodeId) (parent : Value) :
    Along (KeepsAxes P) (addParent child parent) := by
  unfold addParent
  split
  · apply Along.ite
    · exact (along_label child).bind fun _ => along_invalid _
    · exact fun w => ends_modify.mpr (keepsAxes_link w child _)
  · refine (axes_update ?_ child).bind fun _ => along_refuse _
    intro n
    unfold Node.addStray
    split <;> rfl

theorem axes_removeParent (child : NodeId) (parent : Value) :
    Along (KeepsAxes P) (removeParent child parent) := by
  unfold removeParent
  split
  · exact fun w => ends_modify.mpr (keepsAxes_unlink w child _)
  · refine (axes_update ?_ child).bind fun _ => along_refuse _
    intro _
    rfl

theorem axes_assignValue (id : NodeId) (nv : NodeValue) :
    Along (KeepsAxes P) (assignValue id nv) := by
  refine (along_node id).bind fun n => (along_invalid _).ite (axes_update ?_ id)
  intro _
  rfl

theorem axes_setValue (id : NodeId) (v : Value) : Along (KeepsAxes P) (setValue id v) :=
  (along_ofRefusal _).bind fun nv => axes_assignValue id nv

theorem axes_addTarget (id : NodeId) (target : Value) :
    Along (KeepsAxes P) (addTarget id target) := by
  refine (along_distribution id).bind fun d => ?_
  have hnodeId : Along (KeepsAxes P) (nodeId target) := by
    unfold nodeId
    split
    · exact along_pure _
    · exact along_refuse _
  have hattach : forall t (nv : NodeValue), Along (KeepsAxes P) (do
      updateDistribution id (Distribution.setTarget (some t))
      addParent id target
      assignValue id nv
      update t fun n => { n with distribution := some id }) := by
    intro t nv
    refine (axes_updateDistribution id _).bind fun _ => (axes_addParent id target).bind
      fun _ => (axes_assignValue id nv).bind fun _ => axes_update ?_ t
    intro _
    rfl
  apply Along.ite
  · exact (along_label id).bind fun _ => along_throw _
  · refine hnodeId.bind fun t => (along_node t).bind fun n => (along_node id).bind fun m => ?_
    apply Along.ite
    · exact (along_label id).bind fun _ => along_invalid _
    · apply Along.ite
      · exact (along_label t).bind fun _ => along_invalid _
      · exact hattach t n.value

theorem along_targetOf {R : Workspace → Workspace → Prop} [Gathers R] (id : NodeId) :
    Along R (targetOf id) := by
  refine (along_distribution id).bind fun d => ?_
  split
  · exact along_pure _
  · exact (along_label id).bind fun _ => along_throw _

theorem axes_removeTarget (id : NodeId) : Along (KeepsAxes P) (removeTarget id) := by
  refine (along_targetOf id).bind fun t => (axes_removeParent id (.node t)).bind fun _ =>
    (axes_update ?_ t).bind fun _ => axes_updateDistribution id _
  intro _
  rfl

theorem axes_addParameter (id : NodeId) (parameter : Value) (name : String) :
    Along (KeepsAxes P) (addParameter id parameter name) :=
  (along_distribution id).bind fun _ => (along_toNode parameter).bind fun p =>
    (axes_addParent id (.node p)).bind fun _ => (axes_updateDistribution id _).bind
      fun _ => along_pure p

theorem axes_observe (data user : Value) : Along (KeepsAxes P) (observe data user) := by
  have hreplace : forall id y, Along (KeepsAxes P) (do
      removeTarget id
      addTarget id (.node y)
      updateDistribution id fun d => { d with userNode := y }
      requireText (← label id).isWritable
      report .nodes .debug
        ("Observed " ++ (← label y).text ++ " for " ++ (← label id).text)
      return y) := by
    intro id y
    exact (axes_removeTarget id).bind fun _ => (axes_addTarget id (.node y)).bind fun _ =>
      (axes_updateDistribution id _).bind fun _ => (along_label id).bind fun _ =>
        (along_requireText _).bind fun _ => (along_label y).bind fun _ =>
          (along_label id).bind fun _ => (along_report _ _ _).bind fun _ => along_pure y
  unfold observe
  cases user with
  | node u =>
      simp only [nodeId, pure_bind]
      refine (along_node u).bind fun n => ?_
      split
      · exact (along_label u).bind fun _ => along_invalid _
      · rename_i id _
        refine (along_asData data).bind fun y => (along_node y).bind fun m => ?_
        apply Along.ite
        · exact (along_label y).bind fun _ => along_invalid _
        · refine (along_node id).bind fun k => ?_
          apply Along.ite
          · exact (along_label id).bind fun _ => along_invalid _
          · refine (along_distribution id).bind fun d => ?_
            apply Along.ite
            · apply Along.ite
              · exact (along_label id).bind fun _ => along_invalid _
              · exact hreplace id y
            · exact (along_label id).bind fun _ => along_invalid _
  | _ => exact along_refuse _

end Action
end DensityGraph
