import DensityGraph.Proofs.Dag.Order
import DensityGraph.Proofs.Evaluation.Alike
import DensityGraph.Proofs.Evaluation.Runs
import DensityGraph.Proofs.Graph.Consistent
/-!
# Log-density functions later on

A log-density function keeps the feed that was current when it was made.  While data are
placeholders, it goes on to be the log-density of that time, whatever is assigned to the
nodes and whichever modes are entered and left.  Where data are compiled as constants, the
feed is passed over: the function is the log-density of the time of the call.
-/

namespace DensityGraph

variable {α : Type}

namespace Workspace

def datum (w u : Workspace) (id : NodeId) : Option (Except Refusal NumericArray) :=
  (w.node? id).bind fun n => (u.node? id).map fun m =>
    Pass.datum w.settings.dataAsConstants n.value.array m.value.array

theorem datum_of_node? {w u : Workspace} {id : NodeId} {n m : Node}
    (hn : w.node? id = some n) (hm : u.node? id = some m) :
    w.datum u id =
      some (Pass.datum w.settings.dataAsConstants n.value.array m.value.array) := by
  unfold datum
  rw [hn, hm]
  rfl

end Workspace

def Dag.source (d : Dag) (w u : Workspace) : Source :=
  ⟨d.currentFeed u, w.settings.dataAsConstants⟩

namespace Pass

open Environment Workspace

theorem datum_placeholder {mode : Value} (h : mode.truth = .ok false) (own fed : NumericArray) :
    datum mode own fed = .ok fed := by
  unfold datum
  rw [h]
  rfl

theorem datum_self {mode : Value} {on : Bool} (h : mode.truth = .ok on) (a : NumericArray) :
    datum mode a a = .ok a := by
  unfold datum
  rw [h]
  exact congrArg Except.ok (ite_self _)

theorem datum_of_ne {mode : Value} (h : mode.truth ≠ .ok false) {own : NumericArray}
    (fed fed' : NumericArray) : datum mode own fed = datum mode own fed' := by
  unfold datum
  cases hmode : mode.truth with
  | error r => rfl
  | ok on =>
      cases on with
      | false => exact absurd hmode h
      | true => rfl

variable [Scalar α] {d : Dag} {o u u' v w : Workspace} {id : NodeId} {n : Node}

theorem couples_data (ho : o.FitsData) (hw : o.Serves w) (hu : o.Serves u)
    (hv : o.Serves v) (hu' : o.Serves u') (hid : id ∈ d.nodes) {n n' : Node}
    (hn : w.node? id = some n) (hn' : v.node? id = some n') (hdata : n.isData = true)
    (hdatum : w.datum u id = v.datum u' id) :
    Couples (d.source w u) (d.source v u') (α := α) (materializeData w id n)
      (materializeData v id n') := by
  rcases hw.same.symm.node?_of_some hn with ⟨c, hon⟩
  rcases hu.same.node?_of_some hon with ⟨b, hun⟩
  rcases hv.same.node?_of_some hon with ⟨a', hvn⟩
  rcases hu'.same.node?_of_some hon with ⟨b', hun'⟩
  cases hn'.symm.trans hvn
  have hshape : n.value.array.shape = b.array.shape :=
    (hw.fits ho id _ hn hdata).trans (hu.fits ho id _ hun hdata).symm
  have hshape' : a'.array.shape = b'.array.shape :=
    (hv.fits ho id _ hvn hdata).trans (hu'.fits ho id _ hun' hdata).symm
  apply couples_materializeData (hw.same.symm.trans hv.same)
    (lookup_currentFeed hid hun hdata) hshape (lookup_currentFeed hid hun' hdata) hshape'
  rw [datum_of_node? hn hun, datum_of_node? hvn hun', Option.some.injEq] at hdatum
  exact congrArg (fun a => ofRefusal a >>= store w id) hdatum

end Pass

namespace Dag

open Environment Workspace

variable [Scalar α] [CustomCode α] {d : Dag} {o u u' v w : Workspace}

theorem jointAt_congr (ho : o.FitsData) (hw : o.Serves w) (hu : o.Serves u)
    (hv : o.Serves v) (hu' : o.Serves u')
    (hdatum : forall id, id ∈ d.data o -> w.datum u id = v.datum u' id)
    (free : NodeId → Option (Except Refusal (Tensor α))) (adjust : Bool) :
    d.jointAt w (d.currentFeed u) free adjust = d.jointAt v (d.currentFeed u') free adjust := by
  have hwv : w.SameModel v := hw.same.symm.trans hv.same
  apply jointAt_of_couples hwv
  apply Pass.couples_materializeAll hwv
  intro id n n' hid hn hn' hdata
  apply Pass.couples_data ho hw hu hv hu' hid hn hn' hdata
  apply hdatum id
  rcases hw.same.symm.node?_of_some hn with ⟨nv, hon⟩
  apply mem_select.mpr
  rw [has_of_node? hon]
  exact ⟨hid, hdata⟩

end Dag

namespace DensityFunction

theorem call_untraced [CustomCode Number] {f : DensityFunction} (h : f.isTraced = false)
    (w : Workspace)
    (free : List (Int × Value)) :
    f.call w free = (f.dag.jointAt w f.feed (w.freeOf free) f.adjust, f) := by
  unfold call
  simp only [h, Bool.false_eq_true, if_false, Option.getD_none]
  cases f.dag.jointAt w f.feed (w.freeOf free) f.adjust <;> rfl

end DensityFunction

namespace Action

open Workspace

theorem exists_values {o v w : Workspace} {d : Dag} {id : NodeId}
    (hw : o.Serves w) (hv : o.Serves v) (hid : id ∈ d.data o) :
    ∃ n m, w.node? id = some n ∧ v.node? id = some m := by
  rcases exists_node_of_has (mem_select.mp hid).2 with ⟨n, hn, _⟩
  rcases hw.same.node?_of_some hn with ⟨a, ha⟩
  rcases hv.same.node?_of_some hn with ⟨b, hb⟩
  exact ⟨_, _, ha, hb⟩

theorem run_logDensityFunction (d : Dag) (adjust isTraced : Bool) (w : Workspace) :
    (logDensityFunction d adjust isTraced).run w =
      (.ok ⟨d, adjust, isTraced, d.currentFeed w, []⟩, w) :=
  rfl

/-- Whatever has happened to the values of nodes and to the data mode in the meantime, a
log-density function is the log-density of the time when it was made, or, where data are
compiled as constants, that of the time of the call.  Both are the same as long as the data
have the same values.  A mode is what its truth value says; where it has none, the function
fails as a call of that time does. -/
theorem logDensityFunction_later [CustomCode Number] (o : Workspace)
    (h : o.Built fun _ _ => True) (before after : List Change) (d : Dag) (adjust : Bool) :
    ∃ f, (logDensityFunction d adjust false).run (o.later before) = (.ok f, o.later before) ∧
      forall free : List (Int × Value),
        (f.call ((o.later before).later after) free).2 = f ∧
        (((o.later before).later after).settings.dataAsConstants.truth = .ok false ->
          (∃ on, (o.later before).settings.dataAsConstants.truth = .ok on) ->
          (f.call ((o.later before).later after) free).1 =
            ((logDensity d free [] adjust).run (o.later before)).1) ∧
        (((o.later before).later after).settings.dataAsConstants.truth ≠ .ok false ->
          (f.call ((o.later before).later after) free).1 =
            ((logDensity d free [] adjust).run ((o.later before).later after)).1) ∧
        ((∃ on, ((o.later before).later after).settings.dataAsConstants.truth = .ok on) ->
          (∃ on, (o.later before).settings.dataAsConstants.truth = .ok on) ->
          (forall id, id ∈ d.data o ->
            (((o.later before).later after).node? id).map Node.value =
              ((o.later before).node? id).map Node.value) ->
          (f.call ((o.later before).later after) free).1 =
            ((logDensity d free [] adjust).run (o.later before)).1) := by
  have ho : o.FitsData := fitsData_of_built h
  have hw : o.Serves (o.later before) := serves_later o before
  have hv : o.Serves ((o.later before).later after) := hw.trans (serves_later _ after)
  generalize o.later before = w at hw hv ⊢
  generalize w.later after = v at hv ⊢
  refine ⟨_, run_logDensityFunction d adjust false w, ?_⟩
  intro free
  rw [DensityFunction.call_untraced rfl, run_logDensity, run_logDensity,
    (hw.same.symm.trans hv.same).freeOf free]
  refine ⟨rfl, ?_, ?_, ?_⟩
  · rintro hmode ⟨on, hon⟩
    apply Dag.jointAt_congr ho hv hw hw hw
    intro id hid
    rcases exists_values hw hv hid with ⟨n, m, hn, hm⟩
    rw [datum_of_node? hm hn, datum_of_node? hn hn, Pass.datum_placeholder hmode,
      Pass.datum_self hon]
  · intro hmode
    apply Dag.jointAt_congr ho hv hw hv hv
    intro id hid
    rcases exists_values hw hv hid with ⟨n, m, hn, hm⟩
    rw [datum_of_node? hm hn, datum_of_node? hm hm, Pass.datum_of_ne hmode n.value.array]
  · rintro ⟨on, hon⟩ ⟨on', hon'⟩ hsame
    apply Dag.jointAt_congr ho hv hw hw hw
    intro id hid
    rcases exists_values hw hv hid with ⟨n, m, hn, hm⟩
    have hvalue := hsame id hid
    rw [hm, hn] at hvalue
    rw [datum_of_node? hm hn, datum_of_node? hn hn, congrArg NodeValue.array
      (Option.some.inj hvalue), Pass.datum_self hon, Pass.datum_self hon']

section Trial

attribute [local instance] CustomCode.refusing

/-- A trial that fails, with data for the probability and the outcome. -/
def trial : Workspace :=
  [.data (.float 0.0), .declare .bernoulli [.node 0] [], .data (.float 0.0), .removeTarget 1,
    .addTarget 1 (.node 3)].foldl after (empty { floatType := .text "float64" } true)

def trialDag : Dag :=
  ⟨[0, 3, 1], [(0, 1), (3, 1)]⟩

theorem built_trial : trial.Built fun _ _ => True := by
  have hbuilt : trial.Built fun _ _ => true = true :=
    built_foldl (.empty _ true) (by decide +kernel)
  exact hbuilt.mono fun _ _ _ => trivial

theorem compile_trial : trial.compile [0] = .ok trialDag :=
  compile_eq [0, 1, 3] rfl (component_of_visitWithin? 16 (by decide +kernel)) (by decide +kernel)
    (by decide +kernel) (by decide) (by decide +kernel) (by decide +kernel)

/-- Success gets a little more likely. -/
def moreLikely : Change :=
  .value 0 (.list [.list [.float 1e-20]])

/-- Data that are changed within a block make no difference when the block is left. -/
theorem logDensityFunction_later_trial :
    ∃ f, (logDensityFunction trialDag true false).run trial = (.ok f, trial) ∧
      (f.call (trial.later [.enterMode (.bool true), moreLikely, .leaveMode]) []).1 =
        ((logDensity trialDag [] [] true).run trial).1 := by
  rcases logDensityFunction_later trial built_trial []
    [.enterMode (.bool true), moreLikely, .leaveMode] trialDag true with ⟨f, hrun, hcall⟩
  exact ⟨f, hrun, (hcall []).2.1 (by decide +kernel) ⟨false, by decide +kernel⟩⟩

def isNegative (result : Except Failure (Tensor Number)) : Bool :=
  result.toOption.any fun t => t.toList.any fun x => x.value < 0.0

/-- Within a block that compiles data as constants, the function follows the data. -/
theorem not_fixed_trial :
    ¬forall (o : Workspace) (before after : List Change) (starts : List NodeId) (d : Dag)
      (adjust : Bool) (f : DensityFunction) (free : List (Int × Value)),
      o.Built (fun _ _ => True) -> (o.later before).compile starts = .ok d ->
        (logDensityFunction d adjust false).run (o.later before) = (.ok f, o.later before) ->
          (f.call ((o.later before).later after) free).1 =
            ((logDensity d free [] adjust).run (o.later before)).1 := by
  intro h
  have heq := h trial [] [.enterMode (.bool true), moreLikely] [0] trialDag true
    ⟨trialDag, true, false, trialDag.currentFeed trial, []⟩ [] built_trial compile_trial rfl
  have hbefore : isNegative ((logDensity trialDag [] [] true).run (trial.later [])).1 =
      false := by decide +kernel
  have hafter : isNegative (DensityFunction.call
      ⟨trialDag, true, false, trialDag.currentFeed trial, []⟩
      ((trial.later []).later [.enterMode (.bool true), moreLikely]) []).1 = true := by
    decide +kernel
  rw [heq, hbefore] at hafter
  cases hafter

end Trial

end Action
end DensityGraph
