import DensityGraph.Evaluation.LogDensity
import DensityGraph.Graph.Mode
import DensityGraph.Proofs.Graph.Reached
/-!
# What calls never change

No call touches the settings, and no call makes a node disappear or turns data into
something else, whether it returns or fails.  The same is true of compiling a graph and of
reading the values that a graph is fed.
-/

namespace DensityGraph

namespace Workspace

variable {u v w : Workspace} {c : Call} {e : Edit} {x : NodeId} {n n' : Node}

def KeepsData (w v : Workspace) : Prop :=
  forall x n, w.node? x = some n -> ∃ n', v.node? x = some n' ∧ n'.isData = n.isData

theorem KeepsData.refl (w : Workspace) : w.KeepsData w :=
  fun _ n hn => ⟨n, hn, rfl⟩

theorem KeepsData.trans (h : u.KeepsData v) (h' : v.KeepsData w) : u.KeepsData w := by
  intro x n hn
  rcases h x n hn with ⟨m, hm, hdata⟩
  rcases h' x m hm with ⟨k, hk, hdata'⟩
  exact ⟨k, hk, hdata'.trans hdata⟩

theorem KeepsData.has (h : w.KeepsData v) (hsome : (w.node? x).isSome = true)
    (hdata : v.has Node.isData x = true) : w.has Node.isData x = true := by
  rcases Option.isSome_iff_exists.mp hsome with ⟨n, hn⟩
  rcases h x n hn with ⟨m, hm, hsame⟩
  rw [has_of_node? hm, hsame] at hdata
  rw [has_of_node? hn]
  exact hdata

theorem KeepsData.isSome (h : w.KeepsData v) (hsome : (w.node? x).isSome = true) :
    (v.node? x).isSome = true := by
  rcases Option.isSome_iff_exists.mp hsome with ⟨n, hn⟩
  rcases h x n hn with ⟨m, hm, _⟩
  rw [hm]
  rfl

theorem keepsData_update {f : Node → Node} (hf : forall n, (f n).isData = n.isData)
    (w : Workspace) (id : NodeId) : w.KeepsData (w.update id f) := by
  intro x n hn
  rw [node?_update, hn, Option.map_some]
  by_cases hx : x = id
  · rw [if_pos hx]
    exact ⟨f n, rfl, hf n⟩
  · rw [if_neg hx]
    exact ⟨n, rfl, rfl⟩

theorem isData_eq_of_changes (h : e.Changes x n n') : n'.isData = n.isData := by
  cases hdata : n.isData with
  | true =>
      have hrole := role_of_changes h (isDistribution_of_isData hdata)
      unfold Node.isData at hdata ⊢
      rw [hrole]
      exact hdata
  | false =>
      apply eq_false_of_ne_true
      intro hdata'
      rw [isData_of_changes h hdata'] at hdata
      cases hdata

theorem keepsData_edit (hadmits : w.Admits e) : w.KeepsData (w.edit e) := by
  intro x n hn
  rcases exists_node?_edit hadmits hn with ⟨n', hn', hchanges⟩
  exact ⟨n', hn', isData_eq_of_changes hchanges⟩

structure Steady (w v : Workspace) : Prop where
  settings : v.settings = w.settings
  modes : v.modes = w.modes
  wide : v.wide = w.wide
  keepsData : w.KeepsData v

theorem Steady.refl (w : Workspace) : w.Steady w :=
  ⟨rfl, rfl, rfl, .refl w⟩

theorem Steady.trans (h : u.Steady v) (h' : v.Steady w) : u.Steady w where
  settings := h'.settings.trans h.settings
  modes := h'.modes.trans h.modes
  wide := h'.wide.trans h.wide
  keepsData := h.keepsData.trans h'.keepsData

theorem steady_edit (hadmits : w.Admits e) : w.Steady (w.edit e) := by
  have hkeeps := keepsData_edit hadmits
  have hlinks : forall (v : Workspace) (child : NodeId) (parents : List NodeId),
      (v.linkAll child parents).settings = v.settings ∧
        (v.linkAll child parents).modes = v.modes ∧
        (v.linkAll child parents).wide = v.wide := by
    intro v child parents
    induction parents generalizing v with
    | nil => exact ⟨rfl, rfl, rfl⟩
    | cons p parents ih => exact ih (v.link child p)
  cases e with
  | compute b id m arguments =>
      rcases hlinks (w.put id m) id arguments with ⟨hsettings, hmodes, hwide⟩
      exact ⟨hsettings, hmodes, hwide, hkeeps⟩
  | _ => exact ⟨rfl, rfl, rfl, hkeeps⟩

theorem Edits.steady {P : Workspace → Edit → Prop} (h : Edits P w v) : w.Steady v := by
  apply h.preserves (I := fun v => w.Steady v) (.refl w)
  intro u e hu hadmits _
  exact hu.trans (steady_edit hadmits)

theorem steady_spoiled (w : Workspace) (c : Call) : w.Steady (w.spoiled c) := by
  have hupdate : forall (id : NodeId) (f : Node → Node), (forall n, (f n).isData = n.isData) ->
      w.Steady (w.update id f) := by
    intro id f hf
    exact ⟨rfl, rfl, rfl, keepsData_update hf w id⟩
  cases c with
  | addTarget id target =>
      apply hupdate
      intro n
      unfold Node.isData Node.mapDistribution
      cases hrole : n.role <;> simp [hrole]
  | addParent child v =>
      apply hupdate
      intro n
      unfold Node.addStray
      split <;> rfl
  | removeParent child v => exact hupdate child _ fun _ => rfl
  | _ => exact .refl w

structure Sound (w : Workspace) : Prop where
  owned : w.Owned
  fitsValues : w.FitsValues

theorem Sound.congr (h : w.Sound) (hnodes : v.nodes = w.nodes) : v.Sound := by
  have hsame : v.node? = w.node? := by
    funext id
    unfold node?
    rw [hnodes]
  constructor
  · unfold Owned owner? target?
    rw [hsame]
    exact h.owned
  · unfold FitsValues
    rw [hsame]
    exact h.fitsValues

theorem Sound.edits {P : Workspace → Edit → Prop} (h : w.Sound) (hedits : Edits P w v) :
    v.Sound := by
  apply hedits.preserves (I := Sound) h
  intro u e hu hadmits _
  exact ⟨hu.owned.edit hadmits, hu.fitsValues.edit hadmits⟩

theorem Sound.after (h : w.Sound) (c : Call) : (w.after c).Sound ∧ w.Steady (w.after c) := by
  have hall := preserves_after (c := c) (I := fun v => w.Steady v) h.owned h.fitsValues (.refl w)
    (fun v e hv _ hadmits _ => hv.trans (steady_edit hadmits)) fun _ => steady_spoiled w c
  exact ⟨⟨hall.1, hall.2.1⟩, hall.2.2⟩

end Workspace

namespace Action

open Workspace

variable {β γ : Type} {w : Workspace} {R : Workspace → Workspace → Prop} [Gathers R]

theorem Along.foldlM {f : β → γ → Action β} (h : forall y x, Along R (f y x)) (xs : List γ)
    (y : β) : Along R (xs.foldlM f y) := by
  induction xs generalizing y with
  | nil => exact along_pure y
  | cons x xs ih =>
      rw [List.foldlM_cons]
      exact (h y x).bind ih

end Action
end DensityGraph
