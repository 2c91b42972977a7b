import DensityGraph.Proofs.Graph.Declare
import DensityGraph.Proofs.Graph.Function
/-!
# Calls

The calls by which a graph is built and changed.  Every call that returns has made a run
of edits, and the calls say which edits these can be.
-/

namespace DensityGraph

inductive Call where
  | data (v : Value)
  | operation (o : Value) (args : List Value) (dim extras value : Value)
      (reps : List (String × NodeId))
  | binary (o : BinaryOperator) (a b : Value)
  | negate (a : Value)
  | function (name : String) (args : List Value)
  | latent (lower upper dim constraint : Value)
  | bounded (truncation dim : Value)
  | declare (family : Family) (args : List Value) (named : List (String × Value))
  | observe (data user : Value)
  | addTarget (id : NodeId) (target : Value)
  | removeTarget (id : NodeId)
  | addParameter (id : NodeId) (parameter : Value) (name : String)
  | addParent (child : NodeId) (parent : Value)
  | removeParent (child : NodeId) (parent : Value)
  | setValue (id : NodeId) (v : Value)

namespace Call

/-- What a call does, apart from the node that it returns. -/
def perform : Call → Action Unit
  | data v => do let _ ← Action.newData v
  | operation o args dim extras value reps => do
      let _ ← Action.newOperation o args dim extras value reps
  | binary o a b => do let _ ← Action.binary o a b
  | negate a => do let _ ← Action.negate a
  | function name args => do let _ ← Action.function name args
  | latent lower upper dim constraint => do
      let _ ← Action.newVariable lower upper dim constraint
  | bounded truncation dim => do let _ ← Action.newBounded truncation dim
  | declare family args named => do let _ ← Action.declare family args named
  | observe y user => do let _ ← Action.observe y user
  | addTarget id target => Action.addTarget id target
  | removeTarget id => Action.removeTarget id
  | addParameter id parameter name => do let _ ← Action.addParameter id parameter name
  | addParent child parent => Action.addParent child parent
  | removeParent child parent => Action.removeParent child parent
  | setValue id v => Action.setValue id v

/-- The values that a call applies an operation to. -/
def operands : Call → List Value
  | operation _ args _ _ _ _ => args
  | binary _ a b => [a, b]
  | negate a => [a]
  | function _ args => args
  | _ => []

def isOperation : Call → Bool
  | operation _ _ _ _ _ _ => true
  | _ => false

def released? (c : Call) (w : Workspace) : Option NodeId :=
  match c with
  | removeTarget id => some id
  | observe _ (.node u) => (w.node? u).bind Node.distribution
  | _ => none

def Makes (c : Call) (w v : Workspace) : Edit → Prop
  | .compute isDeclared id _ arguments => (isDeclared = true ∨ c.isOperation = true) ∧
      w.nodes.length ≤ id ∧
        forall a, a ∈ arguments -> .node a ∈ c.operands ∨ v.has Node.isData a = true
  | .link child parent => c = addParent child (.node parent)
  | .unlink child parent => c = removeParent child (.node parent)
  | .attach _ t _ => (∃ id, c = addTarget id (.node t)) ∨ v.has Node.isSource t = true
  | .detach id _ => c.released? w = some id ∧ w.GrowsTo v
  | .value id nv => ∃ x, c = setValue id x ∧ Action.toNodeValue x = .ok nv
  | .parameter id p name => v.Takes id p name ∨
      ∃ x, c = addParameter id x name ∧ v.StandsFor x p
  | _ => True

theorem isSome_of_makes_parameter {c : Call} {w v : Workspace} {id p : NodeId} {name : String}
    (h : c.Makes w v (.parameter id p name))
    (hnode : c = addParameter id (.node p) name -> (v.node? p).isSome = true) :
    (v.node? p).isSome = true := by
  rcases h with ⟨m, hm, _⟩ | ⟨y, hc, hy⟩
  · rw [hm]
    rfl
  · rcases hy with rfl | ⟨_, hdata⟩
    · exact hnode hc
    · exact Workspace.isSome_of_has hdata

end Call

namespace Action

open Workspace

variable {w : Workspace}

theorem ends_replaceTarget {id y : NodeId} {text : Label → Label → String} :
    Ends (do
      removeTarget id
      addTarget id (.node y)
      updateDistribution id fun d => { d with userNode := y }
      requireText (← label id).isWritable
      report .nodes .debug (text (← label y) (← label id))
      return y) w
      (fun _ w' => ∃ t nv m, w.Admits (.detach id t) ∧
        (w.edit (.detach id t)).Admits (.attach id y nv) ∧
        w' = (((w.edit (.detach id t)).edit (.attach id y nv)).edit (.user id y)).edit
          (.report m)) Fails := by
  apply Ends.bind (ends_removeTarget id)
  intro _ v hv
  rcases hv with ⟨t, hdetach, rfl⟩
  apply Ends.bind (ends_addTarget id (.node y))
  intro _ v hv
  rcases hv with ⟨t', nv, ht', hattach, rfl⟩
  cases ht'
  unfold updateDistribution
  rw [ends_bind, ends_update, ends_bind, ends_label]
  refine ends_requireText (fun _ => trivial) ?_
  intro _
  rw [ends_bind, ends_label, ends_bind, ends_label, ends_bind, ends_report, ends_pure]
  exact ⟨t, nv, _, hdetach, hattach, rfl⟩

theorem ends_observe (data user : Value) :
    Ends (observe data user) w
      (fun _ w' => ∃ id v y t nv m, (Call.observe data user).released? w = some id ∧
        w.GrowsTo v ∧ v.has Node.isData y = true ∧
        (v.node? y).map Node.distribution = some none ∧ v.Admits (.detach id t) ∧
        (v.edit (.detach id t)).Admits (.attach id y nv) ∧
        w' = (((v.edit (.detach id t)).edit (.attach id y nv)).edit (.user id y)).edit
          (.report m)) Fails := by
  unfold observe
  cases user with
  | node u =>
      simp only [nodeId, pure_bind]
      apply ends_bind_node
      intro n hn
      cases hid : n.distribution with
      | none =>
          rw [ends_bind, ends_label]
          exact trivial
      | some id =>
          apply Ends.bind (ends_asData data)
          intro y v hv
          apply ends_bind_node
          intro ny hny
          refine ends_unless trivial ?_
          intro hfree
          apply ends_bind_node
          intro m _
          refine ends_unless trivial ?_
          intro _
          apply Ends.bind (ends_distribution id)
          intro d v' hv'
          rw [hv'.1]
          refine ends_when trivial ?_
          intro _
          refine ends_unless trivial ?_
          intro _
          have hnone : ny.distribution = none := by simpa using hfree
          apply (ends_replaceTarget).imp
          intro _ w' hw'
          rcases hw' with ⟨t, nv, m, hdetach, hattach, rfl⟩
          refine ⟨id, v, y, t, nv, m, ?_, hv.1, hv.2, ?_, hdetach, hattach, rfl⟩
          · simp [Call.released?, hn, hid]
          · rw [hny, Option.map_some, hnone]
  | _ => exact trivial

end Action
namespace Call

open Workspace DensityGraph.Action

variable {c : Call} {u v w : Workspace}

theorem makes_of_growsTo (h : v.GrowsTo w) : Edits (c.Makes u) v w := by
  apply h.mono
  intro w e he
  cases e <;> first | exact trivial | cases he

theorem makes_of_declaresTo (h : v.DeclaresTo w) : Edits (c.Makes u) v w := by
  apply h.edits.mono
  intro w e he
  cases e with
  | parameter id p name => exact Or.inl he
  | attach id t nv => exact Or.inr he
  | _ => first | exact trivial | cases he

theorem makes_of_appliesTo {operands : List Value} (hc : c.operands = operands)
    (h : v.AppliesTo operands w) : Edits (c.Makes v) v w := by
  apply h.mono
  intro w e he
  cases e with
  | compute b id n arguments =>
      rw [← hc] at he
      exact ⟨Or.inl he.1, he.2⟩
  | _ => first | exact trivial | cases he

theorem makes_of_computed {o : Value} {args : List Value} {dim extras value : Value}
    {reps : List (String × NodeId)} {id : NodeId}
    (h : Computed v o args dim extras value reps id w) :
    Edits ((operation o args dim extras value reps).Makes v) v w := by
  cases h with
  | intro v' o' _ arguments d nv es hgrows _ harguments _ _ _ hvalue hle hid hnew =>
      apply (makes_of_growsTo hgrows).trans
      have hadmits : v'.Admits (.compute false id { Node.lone d nv (.operation o' arguments es)
          with representations := reps } arguments) := by
        refine ⟨hid, hnew, ⟨d, nv, o', es, reps, rfl⟩, ?_, hvalue⟩
        intro hfalse
        cases hfalse
      apply Edits.single hadmits
      refine ⟨Or.inr rfl, hle, ?_⟩
      intro a ha
      rcases exists_operand harguments ha with ⟨x, hx, hstands⟩
      exact hstands.operand hx

theorem makes_of_replaces {data user : Value} {id t y : NodeId} {nv : NodeValue}
    (hreleased : (observe data user).released? w = some id) (hgrows : w.GrowsTo v)
    (hdata : v.has Node.isData y = true) (hdetach : v.Admits (.detach id t))
    (hattach : (v.edit (.detach id t)).Admits (.attach id y nv)) :
    Edits ((observe data user).Makes w) w
      (((v.edit (.detach id t)).edit (.attach id y nv)).edit (.user id y)) := by
  have hsource := has_isSource_edit hdetach (has_isSource_of_isData hdata)
  have hedits := (makes_of_growsTo (c := observe data user) (u := w) hgrows).tail
    (.detach id t) hdetach ⟨hreleased, hgrows⟩
  exact (hedits.tail (.attach id y nv) hattach (Or.inr hsource)).tail (.user id y) trivial trivial

theorem ends_discard {β : Type} {a : Action β} {Q : Workspace → Prop}
    (h : Ends a w (fun _ w' => Q w') Fails) :
    Ends (do let _ ← a) w (fun _ w' => Q w') Fails :=
  ends_bind.mpr h

theorem ends_perform (c : Call) (w : Workspace) :
    Ends c.perform w (fun _ w' => Edits (c.Makes w) w w') Fails := by
  cases c with
  | data x =>
      apply ends_discard
      apply (ends_newData x).imp
      intro _ _ h
      exact makes_of_growsTo h.1
  | operation o args dim extras value reps =>
      apply ends_discard
      apply (ends_newOperation o args dim extras value reps).imp
      intro _ _ h
      exact makes_of_computed h
  | binary o a b =>
      apply ends_discard
      apply (ends_binary o a b).imp
      intro _ _ h
      exact makes_of_appliesTo rfl h
  | negate a =>
      apply ends_discard
      apply (ends_negate a).imp
      intro _ _ h
      exact makes_of_appliesTo rfl h
  | function name args =>
      apply ends_discard
      apply (ends_function name args).imp
      intro _ _ h
      exact makes_of_appliesTo rfl h
  | latent lower upper dim constraint =>
      apply ends_discard
      apply (ends_newVariable lower upper dim constraint).imp
      intro _ _ h
      exact makes_of_growsTo h.1
  | bounded truncation dim =>
      apply ends_discard
      apply (ends_newBounded truncation dim).imp
      intro _ _ h
      exact makes_of_growsTo h
  | declare family args named =>
      apply ends_discard
      apply (ends_declare family args named).imp
      intro _ _ h
      exact makes_of_declaresTo h
  | observe y user =>
      apply ends_discard
      apply (ends_observe y user).imp
      intro _ _ h
      rcases h with ⟨id, v, y', t, nv, m, hreleased, hgrows, hdata, _, hdetach, hattach, rfl⟩
      exact (makes_of_replaces hreleased hgrows hdata hdetach hattach).tail (.report m) trivial
        trivial
  | addTarget id target =>
      apply (ends_addTarget id target).imp
      intro _ _ h
      rcases h with ⟨t, nv, rfl, hattach, rfl⟩
      exact Edits.single hattach (Or.inl ⟨id, rfl⟩)
  | removeTarget id =>
      apply (ends_removeTarget id).imp
      intro _ _ h
      rcases h with ⟨t, hdetach, rfl⟩
      exact Edits.single hdetach ⟨rfl, Edits.refl w⟩
  | addParameter id parameter name =>
      apply ends_discard
      apply (ends_addParameter id parameter name).imp
      intro _ _ h
      rcases h with ⟨v, p, hgrows, hp, hadmits, rfl⟩
      exact (makes_of_growsTo hgrows).trans
        (Edits.single hadmits (Or.inr ⟨parameter, rfl, hp⟩))
  | addParent child parent =>
      apply (ends_addParent child parent).imp
      intro _ _ h
      rcases h with ⟨p, rfl, hne, rfl⟩
      exact Edits.single (e := .link child p) hne rfl
  | removeParent child parent =>
      apply (ends_removeParent child parent).imp
      intro _ _ h
      rcases h with ⟨p, rfl, rfl⟩
      exact Edits.single (e := .unlink child p) trivial rfl
  | setValue id x =>
      apply (ends_setValue id x).imp
      intro _ _ h
      rcases h with ⟨nv, hnv, hadmits, rfl⟩
      exact Edits.single hadmits ⟨x, rfl, hnv⟩

end Call

/-!
# Workspaces that can be built
-/

/-- The workspaces that are reached from an empty one by calls that return and that are
allowed where they are made. -/
inductive Workspace.Built (allowed : Workspace → Call → Prop) : Workspace → Prop where
  | empty (settings : Settings) (wide : Bool) : Built allowed (empty settings wide)
  | call {w w' : Workspace} (c : Call) : Built allowed w -> allowed w c ->
      c.perform.run w = (.ok (), w') -> Built allowed w'

theorem Workspace.Built.preserves {allowed : Workspace → Call → Prop} {I : Workspace → Prop}
    {w : Workspace} (h : Built allowed w)
    (hempty : forall settings wide, I (Workspace.empty settings wide))
    (hstep : forall u v c e, I v -> allowed u c -> Edits (c.Makes u) u v -> v.Admits e ->
      c.Makes u v e -> I (v.edit e)) : I w := by
  induction h with
  | empty settings wide => exact hempty settings wide
  | call c hbuilt hallowed hrun ih =>
      rename_i u u'
      have hedits := (c.ends_perform u).of_ok hrun
      have hboth : Edits (c.Makes u) u u' ∧ I u' := by
        apply hedits.preserves (I := fun v => Edits (c.Makes u) u v ∧ I v)
        · exact ⟨Edits.refl u, ih⟩
        · intro v e hv hadmits hmakes
          exact ⟨Edits.tail e hv.1 hadmits hmakes,
            hstep u v c e hv.2 hallowed hv.1 hadmits hmakes⟩
      exact hboth.2

namespace Workspace

variable {w : Workspace} {c : Call}

/-!
# Runs of calls
-/

def after (w : Workspace) (c : Call) : Workspace :=
  (c.perform.run w).2

def returns (w : Workspace) (c : Call) : Bool :=
  (c.perform.run w).1.isOk

def allReturn (allowed : Workspace → Call → Bool) : Workspace → List Call → Bool
  | _, [] => true
  | w, c :: cs => allowed w c && w.returns c && (w.after c).allReturn allowed cs

theorem run_of_returns (h : w.returns c = true) : c.perform.run w = (.ok (), w.after c) := by
  unfold returns at h
  unfold after
  cases hrun : c.perform.run w with
  | mk result w' =>
      rw [hrun] at h
      cases result with
      | ok _ => rfl
      | error _ => cases h

theorem run_of_fails (h : w.returns c = false) :
    ∃ f, c.perform.run w = (.error f, w.after c) := by
  unfold returns at h
  unfold after
  cases hrun : c.perform.run w with
  | mk result w' =>
      rw [hrun] at h
      cases result with
      | ok _ => cases h
      | error f => exact ⟨f, rfl⟩

theorem built_foldl {allowed : Workspace → Call → Bool} {cs : List Call}
    (hw : w.Built fun w c => allowed w c = true) (h : w.allReturn allowed cs = true) :
    (cs.foldl after w).Built fun w c => allowed w c = true := by
  induction cs generalizing w with
  | nil => exact hw
  | cons c cs ih =>
      simp only [allReturn, Bool.and_eq_true] at h
      exact ih (hw.call c h.1.1 (run_of_returns h.1.2)) h.2

theorem Built.mono {allowed allowed' : Workspace → Call → Prop} (h : w.Built allowed)
    (hallowed : forall w c, allowed w c -> allowed' w c) : w.Built allowed' := by
  induction h with
  | empty settings wide => exact .empty settings wide
  | call c _ hc hrun ih => exact .call c ih (hallowed _ c hc) hrun

end Workspace
end DensityGraph
