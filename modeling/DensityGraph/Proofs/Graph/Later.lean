import DensityGraph.Evaluation.LogDensity
import DensityGraph.Graph.Mode
import DensityGraph.Proofs.Graph.Parents
/-!
# The same model later on

Values are assigned to nodes, and blocks of data modes are entered and left, while a model
is in use.  None of this changes the model: all nodes keep everything but their values.
-/

namespace DensityGraph

def Node.bare (n : Node) : Node :=
  { n with value := NodeValue.blank n.dim }

theorem Node.bare_eq {n m : Node} (h : m.bare = n.bare) : m = { n with value := m.value } := by
  unfold Node.bare at h
  rcases n with ⟨dim, value, parents, strays, children, distribution, representations, role⟩
  rcases m with ⟨dim', value', parents', strays', children', distribution', reps', role'⟩
  simp only [Node.mk.injEq] at h ⊢
  rcases h with ⟨rfl, _, rfl, rfl, rfl, rfl, rfl, rfl⟩
  simp

namespace Workspace

variable {u v w : Workspace} {id : NodeId} {n : Node}

/-- Workspaces with the same nodes, apart from their values, and tensors of the same
type. -/
structure SameModel (w v : Workspace) : Prop where
  nodes : forall id, (v.node? id).map Node.bare = (w.node? id).map Node.bare
  floatType : v.settings.floatType = w.settings.floatType
  defaultChains : v.settings.defaultChains = w.settings.defaultChains
  wide : v.wide = w.wide

theorem SameModel.refl (w : Workspace) : w.SameModel w :=
  ⟨fun _ => rfl, rfl, rfl, rfl⟩

theorem SameModel.symm (h : w.SameModel v) : v.SameModel w :=
  ⟨fun id => (h.nodes id).symm, h.floatType.symm, h.defaultChains.symm, h.wide.symm⟩

theorem SameModel.trans (h : u.SameModel v) (h' : v.SameModel w) : u.SameModel w where
  nodes id := (h'.nodes id).trans (h.nodes id)
  floatType := h'.floatType.trans h.floatType
  defaultChains := h'.defaultChains.trans h.defaultChains
  wide := h'.wide.trans h.wide

namespace SameModel

theorem node?_of_some (h : w.SameModel v) (hn : w.node? id = some n) :
    ∃ nv, v.node? id = some { n with value := nv } := by
  have hid := h.nodes id
  rw [hn, Option.map_some, Option.map_eq_some_iff] at hid
  rcases hid with ⟨m, hm, hbare⟩
  refine ⟨m.value, ?_⟩
  rw [hm, ← Node.bare_eq hbare]

theorem node?_of_none (h : w.SameModel v) (hn : w.node? id = none) : v.node? id = none := by
  have hid := h.nodes id
  rw [hn, Option.map_none, Option.map_eq_none_iff] at hid
  exact hid

/-!
# What passes read of a workspace
-/

theorem map_node? {β : Type} (h : w.SameModel v) {f : Node → β}
    (hf : forall n nv, f { n with value := nv } = f n) (id : NodeId) :
    (v.node? id).map f = (w.node? id).map f := by
  cases hn : w.node? id with
  | none => rw [h.node?_of_none hn]
  | some n =>
      rcases h.node?_of_some hn with ⟨nv, hm⟩
      rw [hm, Option.map_some, Option.map_some, hf n nv]

theorem label (h : w.SameModel v) : v.label = w.label := by
  funext id
  unfold Workspace.label
  cases hn : w.node? id with
  | none => rw [h.node?_of_none hn]
  | some n =>
      rcases h.node?_of_some hn with ⟨nv, hm⟩
      rw [hm]
      rfl

theorem written (h : w.SameModel v) : v.written = w.written := by
  funext id
  unfold Workspace.written
  rw [h.label]

theorem precision (h : w.SameModel v) :
    v.settings.tensorPrecision v.wide = w.settings.tensorPrecision w.wide := by
  unfold Settings.tensorPrecision Settings.precision?
  rw [h.floatType, h.wide]

theorem validate (h : w.SameModel v) :
    v.settings.validate v.written v.wide = w.settings.validate w.written w.wide := by
  unfold Settings.validate
  rw [h.floatType, h.defaultChains, h.wide, h.written]

theorem tensorOf {α : Type} [Scalar α] (h : w.SameModel v) (x : Value) :
    v.tensorOf (α := α) x = w.tensorOf x := by
  unfold Workspace.tensorOf
  rw [h.precision]

theorem freeOf (h : w.SameModel v) (free : List (Int × Value)) :
    v.freeOf free = w.freeOf free := by
  funext id
  unfold Workspace.freeOf
  congr 1
  funext x
  exact h.tensorOf x

theorem has (h : w.SameModel v) {p : Node → Bool}
    (hp : forall n nv, p { n with value := nv } = p n) : v.has p = w.has p := by
  funext id
  unfold Workspace.has
  cases hn : w.node? id with
  | none => rw [h.node?_of_none hn]
  | some n =>
      rcases h.node?_of_some hn with ⟨nv, hm⟩
      rw [hm]
      exact hp n nv

theorem latents (h : w.SameModel v) (d : Dag) : d.latents v = d.latents w := by
  unfold Dag.latents Dag.select
  rw [h.has fun _ _ => rfl]

theorem distributions (h : w.SameModel v) (d : Dag) : d.distributions v = d.distributions w := by
  unfold Dag.distributions Dag.select
  rw [h.has fun _ _ => rfl]

end SameModel

end Workspace

/-!
# Changes that keep the model
-/

/-- What is done with a model while it is in use. -/
inductive Change where
  | value (id : NodeId) (v : Value)
  | enterMode (mode : Value)
  | leaveMode

def Change.perform : Change → Action Unit
  | value id v => Action.setValue id v
  | enterMode mode => Action.enterMode mode
  | leaveMode => Action.leaveMode

namespace Workspace

variable {u v w : Workspace}

def changed (w : Workspace) (c : Change) : Workspace :=
  (c.perform.run w).2

def later (w : Workspace) (cs : List Change) : Workspace :=
  cs.foldl changed w

structure Serves (w v : Workspace) : Prop where
  same : w.SameModel v
  fits : w.FitsData -> v.FitsData

theorem Serves.refl (w : Workspace) : w.Serves w :=
  ⟨SameModel.refl w, id⟩

theorem sameModel_value (w : Workspace) (id : NodeId) (nv : NodeValue) :
    w.SameModel (w.edit (.value id nv)) where
  nodes other := by
    simp only [edit, node?_update, Option.map_map]
    congr 1
    funext n
    simp only [Function.comp_apply]
    split <;> rfl
  floatType := rfl
  defaultChains := rfl
  wide := rfl

theorem serves_settings (w : Workspace) (mode : Value) (messages : List Message)
    (modes : List Value) : w.Serves { w with
      settings := { w.settings with dataAsConstants := mode }
      messages := messages
      modes := modes } :=
  ⟨⟨fun _ => rfl, rfl, rfl, rfl⟩, fun h => h⟩

theorem serves_changed (w : Workspace) (c : Change) : w.Serves (w.changed c) := by
  have hends : Ends c.perform w (fun _ v => w.Serves v) fun _ v => w.Serves v := by
    cases c with
    | value id x =>
        change Ends (Action.setValue id x) w _ _
        unfold Action.setValue Action.assignValue
        rw [ends_bind, Action.ends_ofRefusal]
        constructor
        · intro nv _
          rw [ends_bind, Action.ends_node]
          constructor
          · intro n hn
            simp only
            rw [ends_ite]
            constructor
            · intro _
              exact Serves.refl w
            · intro hshape
              rw [Action.ends_update]
              have hadmits : w.Admits (.value id nv) := ⟨n, hn, Classical.not_not.mp hshape⟩
              exact ⟨sameModel_value w id nv, fun h => h.edit hadmits⟩
          · intro _
            exact Serves.refl w
        · intro _ _
          exact Serves.refl w
    | enterMode mode =>
        change Ends (Action.enterMode mode) w _ _
        unfold Action.enterMode Action.setDataMode
        rw [ends_bind, ends_get, ends_bind, ends_modify]
        apply Action.ends_requireText
        · exact fun _ => serves_settings w mode w.messages w.modes
        · intro _
          rw [ends_bind, ends_modify, Action.ends_report]
          exact serves_settings w mode _ _
    | leaveMode =>
        change Ends Action.leaveMode w _ _
        unfold Action.leaveMode Action.setDataMode
        rw [ends_bind, ends_get]
        cases hmodes : w.modes with
        | nil => exact Serves.refl w
        | cons previous rest =>
            rw [ends_bind, ends_set, ends_modify]
            exact serves_settings w previous w.messages rest
  unfold changed
  cases hrun : c.perform.run w with
  | mk result v =>
      cases result with
      | ok x => exact hends.of_ok hrun
      | error f => exact hends.of_error hrun

theorem Serves.trans (h : u.Serves v) (h' : v.Serves w) : u.Serves w :=
  ⟨h.same.trans h'.same, fun hu => h'.fits (h.fits hu)⟩

theorem later_nil (w : Workspace) : w.later [] = w :=
  rfl

theorem serves_later (w : Workspace) (cs : List Change) : w.Serves (w.later cs) := by
  induction cs generalizing w with
  | nil => exact Serves.refl w
  | cons c cs ih => exact (serves_changed w c).trans (ih (w.changed c))

end Workspace
end DensityGraph
