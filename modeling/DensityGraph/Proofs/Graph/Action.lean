import DensityGraph.Graph.Workspace
import DensityGraph.Proofs.Outcome
/-!
# Ends of elementary actions

Reading the workspace leaves it as it is; what can fail is said case by case.
-/

namespace DensityGraph
namespace Action

variable {β γ : Type} {w v : Workspace} {E : Failure → Workspace → Prop}

theorem ends_refuse {r : Refusal} {Q : β → Workspace → Prop} :
    Ends (refuse r) w Q E ↔ E (.refused r) w :=
  Iff.rfl

theorem ends_invalid {reason : Invalid} {Q : β → Workspace → Prop} :
    Ends (invalid reason) w Q E ↔ E (.invalid reason) w :=
  Iff.rfl

theorem ends_ofExcept {x : Except Failure β} {Q : β → Workspace → Prop} :
    Ends (ofExcept x) w Q E ↔
      (forall y, x = .ok y -> Q y w) ∧ (forall f, x = .error f -> E f w) := by
  cases x with
  | ok y => simp [ofExcept, ends_pure]
  | error f => simp [ofExcept, ends_throw]

theorem ends_ofRefusal {x : Except Refusal β} {Q : β → Workspace → Prop} :
    Ends (ofRefusal x) w Q E ↔
      (forall y, x = .ok y -> Q y w) ∧ (forall r, x = .error r -> E (.refused r) w) := by
  cases x with
  | ok y => simp [ofRefusal, ends_pure]
  | error r => simp [ofRefusal, ends_refuse]

theorem ends_node {id : NodeId} {Q : Node → Workspace → Prop} :
    Ends (node id) w Q E ↔
      (forall n, w.node? id = some n -> Q n w) ∧
        (w.node? id = none -> E (.refused .attribute) w) := by
  unfold node
  rw [ends_bind, ends_get]
  cases h : w.node? id with
  | none => simp [ends_refuse]
  | some n => simp [ends_pure]

theorem ends_label {id : NodeId} {Q : Label → Workspace → Prop} :
    Ends (label id) w Q E ↔ Q (w.label id) w :=
  Iff.rfl

theorem ends_reserve {Q : NodeId → Workspace → Prop} :
    Ends reserve w Q E ↔ Q w.nodes.length w.reserve :=
  Iff.rfl

theorem ends_put {id : NodeId} {n : Node} {Q : Unit → Workspace → Prop} :
    Ends (put id n) w Q E ↔ Q () (w.put id n) :=
  Iff.rfl

theorem ends_update {id : NodeId} {f : Node → Node} {Q : Unit → Workspace → Prop} :
    Ends (update id f) w Q E ↔ Q () (w.update id f) :=
  Iff.rfl

theorem ends_report {c : Channel} {level : Level} {text : String}
    {Q : Unit → Workspace → Prop} :
    Ends (report c level text) w Q E ↔ Q () (w.report (c.message level text)) :=
  Iff.rfl

theorem ends_requireText {isWritable : Bool} {a : Action β} {Q : β → Workspace → Prop}
    (hfails : isWritable = false -> E (.refused .value) w)
    (h : isWritable = true -> Ends a w Q E) :
    Ends (requireText isWritable >>= fun _ => a) w Q E := by
  unfold requireText
  rw [ends_bind]
  cases isWritable with
  | false => exact hfails rfl
  | true => exact h rfl

theorem ends_run {a : Action β} :
    Ends a w (fun x w' => a.run w = (.ok x, w')) (fun f w' => a.run w = (.error f, w')) := by
  unfold Ends Action.run
  generalize StateT.run (ExceptT.run a) w = r
  rcases r with ⟨x | x, t⟩
  · rfl
  · rfl

theorem ends_of_run {a : Action β} {x : β} (h : a.run w = (.ok x, v))
    {Q : β → Workspace → Prop} : Ends a w Q E ↔ Q x v := by
  unfold Ends
  unfold Action.run at h
  rw [h]

theorem run_of_ends {a : Action β} {x : β}
    (h : Ends a w (fun y w' => y = x ∧ w' = v) fun _ _ => False) : a.run w = (.ok x, v) := by
  cases hrun : a.run w with
  | mk result last =>
      cases result with
      | ok y =>
          rcases h.of_ok hrun with ⟨rfl, rfl⟩
          rfl
      | error f => exact (h.of_error hrun).elim

theorem run_node_of_node? {id : NodeId} {n : Node} (h : w.node? id = some n) :
    (node id).run w = (.ok n, w) := by
  apply run_of_ends
  rw [ends_node, h]
  exact ⟨fun _ heq => ⟨(Option.some.inj heq).symm, rfl⟩, nofun⟩

theorem exists_run_of_isOk {a : Action β} (h : (a.run w).1.isOk = true) :
    ∃ x v, a.run w = (.ok x, v) := by
  cases hrun : a.run w with
  | mk result v =>
      rw [hrun] at h
      cases result with
      | ok x => exact ⟨x, v, rfl⟩
      | error f => cases h

theorem run_get : (get : Action Workspace).run w = (.ok w, w) :=
  rfl

theorem run_ofExcept (x : Except Failure β) : (ofExcept x).run w = (x, w) := by
  cases x with
  | ok y => rfl
  | error f => rfl

theorem run_bind_of_run {a : Action β} {x : β} (h : a.run w = (.ok x, v))
    (next : β → Action γ) : (a >>= next).run w = (next x).run v := by
  unfold Action.run at h ⊢
  rw [run_bind, h]

theorem run_bind_of_error {a : Action β} {f : Failure} (h : a.run w = (.error f, v))
    (next : β → Action γ) : (a >>= next).run w = (.error f, v) := by
  unfold Action.run at h ⊢
  rw [run_bind, h]

theorem run_mapM {f : β → Action γ} {g : β → γ} {xs : List β}
    (h : forall x, x ∈ xs -> (f x).run w = (.ok (g x), w)) :
    (xs.mapM f).run w = (.ok (xs.map g), w) := by
  induction xs with
  | nil => rfl
  | cons x xs ih =>
      rw [List.mapM_cons, run_bind_of_run (h x List.mem_cons_self),
        run_bind_of_run (ih fun y hy => h y (List.mem_cons_of_mem x hy))]
      rfl

end Action
end DensityGraph
