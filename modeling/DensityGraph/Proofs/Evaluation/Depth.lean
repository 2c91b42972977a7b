import Mathlib.Data.List.Basic
import DensityGraph.Evaluation.Environment
import DensityGraph.Evaluation.Materialize
import DensityGraph.Proofs.Operation.Density
/-!
# Evaluation to a depth

Without an environment, the tensor of a node is computed from those of its arguments,
each of them evaluated anew.  A workspace is finite, so that no node needs to be looked
at below a depth of as many arguments as there are nodes: the nodes that get a value
become more with the depth until they stay the same for good.

An argument that is a distribution stands for its density, at whatever target an operation
asks for.  That takes the parameters, so that an operation waits for them as well.
-/

namespace DensityGraph

variable {α : Type} [Scalar α]

namespace Workspace

def dataTensor (w : Workspace) (fed : List (NodeId × Value)) (id : NodeId) (n : Node) :
    Except Refusal (Tensor α) :=
  match w.settings.dataAsConstants.truth with
  | .error r => .error r
  | .ok true => w.tensorOf (.array false n.value.array.addBatchAxis)
  | .ok false =>
      match fed.lookup id with
      | some v => w.tensorOf v
      | none => .error .missingKey

def argumentFrom (values : NodeId → Option (Tensor α)) (id : NodeId) : Argument α :=
  match values id with
  | some t => .tensor t
  | none => .density id

def densityFrom (w : Workspace) (values : NodeId → Option (Tensor α)) (id : NodeId)
    (x : Argument α) : Except Failure (Tensor α) :=
  match w.node? id with
  | none => .error (.refused .attribute)
  | some n =>
      match n.distribution? with
      | none => .error (.refused .type)
      | some r => do
          let args ← Batched.reconciled
            (x :: (r.parameters.map Prod.snd).map (argumentFrom values))
          r.densityOf w id n args

def isSettled (w : Workspace) (values : NodeId → Option (Tensor α)) (id : NodeId) : Bool :=
  w.has Node.isDistribution id || (values id).isSome

def isReadable (w : Workspace) (values : NodeId → Option (Tensor α)) (id : NodeId) : Bool :=
  match (w.node? id).bind Node.distribution? with
  | some r => (r.parameters.map Prod.snd).all (w.isSettled values)
  | none => (values id).isSome

variable [CustomCode α]

def tensorFrom (w : Workspace) (fed : List (NodeId × Value))
    (free : NodeId → Option (Except Refusal (Tensor α)))
    (values : NodeId → Option (Tensor α)) (id : NodeId) : Option (Tensor α) :=
  match w.node? id with
  | none => none
  | some n =>
      match n.role with
      | .data => (w.dataTensor fed id n).toOption
      | .operation o arguments extras =>
          if arguments.all (w.isReadable values) then do
            let args ← (Batched.reconcile
              (arguments.map (argumentFrom values) ++ w.given extras)).toOption
            (o.apply (w.densityFrom values) args).toOption
          else none
      | .latent b c _ =>
          match free id with
          | some (.ok t) => (c.fromFree b n.dim t).toOption
          | _ => none
      | .distribution _ => none

def evaluateWithin (w : Workspace) (fed : List (NodeId × Value))
    (free : NodeId → Option (Except Refusal (Tensor α))) : Nat → NodeId → Option (Tensor α)
  | 0 => fun _ => none
  | depth + 1 => w.tensorFrom fed free (w.evaluateWithin fed free depth)

/-- The tensor of a node by recursion over its arguments; nodes that have none, and
those on or behind a cycle, have no value. -/
def evaluate (w : Workspace) (fed : List (NodeId × Value))
    (free : NodeId → Option (Except Refusal (Tensor α))) : NodeId → Option (Tensor α) :=
  w.evaluateWithin fed free w.nodes.length

def argumentOf (w : Workspace) (fed : List (NodeId × Value))
    (free : NodeId → Option (Except Refusal (Tensor α))) : NodeId → Argument α :=
  argumentFrom (w.evaluate fed free)

def densityOf (w : Workspace) (fed : List (NodeId × Value))
    (free : NodeId → Option (Except Refusal (Tensor α))) :
    NodeId → Argument α → Except Failure (Tensor α) :=
  w.densityFrom (w.evaluate fed free)

/-!
# More depth
-/

variable {w : Workspace} {fed : List (NodeId × Value)}
  {free : NodeId → Option (Except Refusal (Tensor α))} {f g : NodeId → Option (Tensor α)}

section Extends

variable {id : NodeId} (h : forall id t, f id = some t -> g id = some t)
  (hg : forall id, w.has Node.isDistribution id = true -> g id = none)

include h hg

omit [Scalar α] [CustomCode α] in
theorem argumentFrom_of_isSettled (hid : w.isSettled f id = true) :
    argumentFrom f id = argumentFrom g id := by
  unfold argumentFrom
  cases hf : f id with
  | some t => rw [h id t hf]
  | none =>
      unfold isSettled at hid
      rw [hf, Option.isSome_none, Bool.or_false] at hid
      rw [hg id hid]

omit [Scalar α] [CustomCode α] hg in
theorem isReadable_extends (hid : w.isReadable f id = true) : w.isReadable g id = true := by
  have hsome : forall id, (f id).isSome = true -> (g id).isSome = true := by
    intro id hf
    rcases Option.isSome_iff_exists.mp hf with ⟨t, ht⟩
    rw [h id t ht]
    rfl
  unfold isReadable at hid ⊢
  split at hid
  · refine List.all_eq_true.mpr fun q hq => ?_
    have hsettled := List.all_eq_true.mp hid q hq
    unfold isSettled at hsettled ⊢
    rw [Bool.or_eq_true] at hsettled ⊢
    exact hsettled.imp_right (hsome q)
  · exact hsome id hid

omit [Scalar α] [CustomCode α] in
theorem argumentFrom_of_isReadable (hid : w.isReadable f id = true) :
    argumentFrom f id = argumentFrom g id := by
  apply argumentFrom_of_isSettled h hg
  unfold isReadable at hid
  unfold isSettled
  split at hid
  · rename_i r hr
    rcases Option.bind_eq_some_iff.mp hr with ⟨n, hn, hdistribution⟩
    have hkind : w.has Node.isDistribution id = true := by
      unfold has Node.isDistribution
      rw [hn]
      exact Option.isSome_iff_exists.mpr ⟨r, hdistribution⟩
    rw [hkind, Bool.true_or]
  · rw [hid, Bool.or_true]

omit [CustomCode α] in
theorem densityFrom_of_isReadable (hid : w.isReadable f id = true) :
    w.densityFrom f id = w.densityFrom g id := by
  funext x
  unfold isReadable at hid
  unfold densityFrom
  cases hn : w.node? id with
  | none => rfl
  | some n =>
      simp only
      cases hr : n.distribution? with
      | none => rfl
      | some r =>
          rw [hn, Option.bind_some, hr] at hid
          simp only
          rw [List.map_congr_left fun q hq =>
            argumentFrom_of_isSettled h hg (List.all_eq_true.mp hid q hq)]

end Extends

omit [Scalar α] [CustomCode α] in
theorem mem_of_density_mem {arguments : List NodeId} {extras : List Value} {q : NodeId}
    (h : Argument.density q ∈ arguments.map (argumentFrom f) ++ w.given extras) :
    q ∈ arguments := by
  rcases List.mem_append.mp h with hmap | hextra
  · rcases List.mem_map.mp hmap with ⟨a, ha, hsame⟩
    unfold argumentFrom at hsame
    split at hsame
    · cases hsame
    · cases hsame
      exact ha
  · rcases List.mem_map.mp hextra with ⟨v, _, hsame⟩
    cases hsame

theorem tensorFrom_extends (h : forall id t, f id = some t -> g id = some t)
    (hg : forall id, w.has Node.isDistribution id = true -> g id = none) {id : NodeId}
    {t : Tensor α} (ht : w.tensorFrom fed free f id = some t) :
    w.tensorFrom fed free g id = some t := by
  unfold tensorFrom at ht ⊢
  cases hn : w.node? id with
  | none =>
      rw [hn] at ht
      cases ht
  | some n =>
      rw [hn] at ht
      cases hrole : n.role with
      | operation o arguments extras =>
          simp only [hrole] at ht ⊢
          split at ht
          · rename_i hreadable
            have hall := List.all_eq_true.mp hreadable
            rw [if_pos (List.all_eq_true.mpr fun a ha => isReadable_extends h (hall a ha)),
              ← List.map_congr_left fun a ha => argumentFrom_of_isReadable h hg (hall a ha)]
            rw [← ht]
            cases hargs : Batched.reconcile
                (arguments.map (argumentFrom f) ++ w.given extras) with
            | error sizes => rfl
            | ok args =>
                refine congrArg Except.toOption (Operation.apply_congr ?_)
                intro q hq
                have hmem := Argument.density_mem_of_reconcile hargs hq
                exact (densityFrom_of_isReadable h hg (hall q (mem_of_density_mem hmem))).symm
          · cases ht
      | data =>
          simp only [hrole] at ht ⊢
          exact ht
      | latent b c size =>
          simp only [hrole] at ht ⊢
          exact ht
      | distribution d =>
          simp only [hrole] at ht
          cases ht

theorem tensorFrom_distribution {id : NodeId} (h : w.has Node.isDistribution id = true) :
    w.tensorFrom fed free f id = none := by
  unfold has Node.isDistribution Node.distribution? at h
  unfold tensorFrom
  cases hn : w.node? id with
  | none => rfl
  | some n =>
      cases hrole : n.role with
      | distribution d => simp only [hrole]
      | _ => simp [hn, hrole] at h

theorem evaluateWithin_distribution (depth : Nat) {id : NodeId}
    (h : w.has Node.isDistribution id = true) : w.evaluateWithin fed free depth id = none := by
  cases depth with
  | zero => rfl
  | succ depth => exact tensorFrom_distribution h

theorem evaluateWithin_succ_of_some {depth : Nat} {id : NodeId} {t : Tensor α}
    (ht : w.evaluateWithin fed free depth id = some t) :
    w.evaluateWithin fed free (depth + 1) id = some t := by
  induction depth generalizing id t with
  | zero => cases ht
  | succ depth ih =>
      exact tensorFrom_extends (fun _ _ => ih)
        (fun _ => evaluateWithin_distribution (depth + 1)) ht

/-!
# Enough depth

With every step of depth either another node gets its value or nothing changes any more.  As
many steps as there are nodes are therefore enough.
-/

def evaluated (w : Workspace) (fed : List (NodeId × Value))
    (free : NodeId → Option (Except Refusal (Tensor α))) (depth : Nat) : List NodeId :=
  (List.range w.nodes.length).filter fun id => (w.evaluateWithin fed free depth id).isSome

theorem isSome_node?_of_evaluateWithin {depth : Nat} {id : NodeId}
    (h : (w.evaluateWithin fed free depth id).isSome = true) : id < w.nodes.length := by
  apply Nat.lt_of_not_le
  intro hlength
  cases depth with
  | zero => cases h
  | succ depth =>
      unfold evaluateWithin tensorFrom at h
      rw [node?_eq_none_of_length_le hlength] at h
      cases h

theorem evaluated_grows (depth : Nat) :
    w.evaluateWithin fed free (depth + 1) = w.evaluateWithin fed free depth ∨
      (w.evaluated fed free depth).length < (w.evaluated fed free (depth + 1)).length := by
  by_cases hnew : ∃ id, w.evaluateWithin fed free depth id = none ∧
      (w.evaluateWithin fed free (depth + 1) id).isSome = true
  · right
    rcases hnew with ⟨id, hnone, hsome⟩
    have hlt : id < w.nodes.length := isSome_node?_of_evaluateWithin hsome
    have hsublist : (w.evaluated fed free depth).Sublist (w.evaluated fed free (depth + 1)) := by
      apply List.monotone_filter_right
      intro other hother
      rcases Option.isSome_iff_exists.mp hother with ⟨t, ht⟩
      rw [evaluateWithin_succ_of_some ht]
      rfl
    apply Nat.lt_of_le_of_ne hsublist.length_le
    intro hlength
    have hmem : id ∈ w.evaluated fed free depth := by
      rw [hsublist.eq_of_length hlength]
      exact List.mem_filter.mpr ⟨List.mem_range.mpr hlt, hsome⟩
    have holds := (List.mem_filter.mp hmem).2
    rw [hnone] at holds
    cases holds
  · left
    funext id
    cases hid : w.evaluateWithin fed free depth id with
    | some t => exact evaluateWithin_succ_of_some hid
    | none =>
        apply Option.not_isSome_iff_eq_none.mp
        intro hsome
        exact hnew ⟨id, hid, hsome⟩

theorem evaluateWithin_stable_or_lt (w : Workspace) (fed : List (NodeId × Value))
    (free : NodeId → Option (Except Refusal (Tensor α))) (depth : Nat) :
    w.evaluateWithin fed free (depth + 1) = w.evaluateWithin fed free depth ∨
      depth < (w.evaluated fed free (depth + 1)).length := by
  -- As long as nothing is stable, each step has given a value to one more node.
  induction depth with
  | zero => exact (evaluated_grows 0).imp_right Nat.zero_lt_of_lt
  | succ depth ih =>
      rcases ih with hstable | hlength
      · left
        exact congrArg (w.tensorFrom fed free) hstable
      · exact (evaluated_grows (depth + 1)).imp_right (Nat.lt_of_le_of_lt hlength)

theorem evaluate_eq (w : Workspace) (fed : List (NodeId × Value))
    (free : NodeId → Option (Except Refusal (Tensor α))) (id : NodeId) :
    w.evaluate fed free id = w.tensorFrom fed free (w.evaluate fed free) id := by
  rcases evaluateWithin_stable_or_lt w fed free w.nodes.length with hstable | hlength
  · exact (congrFun hstable id).symm
  · have hle := List.length_filter_le
      (fun id => (w.evaluateWithin fed free (w.nodes.length + 1) id).isSome)
      (List.range w.nodes.length)
    rw [List.length_range] at hle
    exact absurd hlength (Nat.not_lt.mpr hle)

end Workspace
end DensityGraph
