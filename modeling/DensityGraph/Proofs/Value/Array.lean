import DensityGraph.Evaluation.Environment
import DensityGraph.Proofs.Tensor.Broadcast
/-!
# Arrays as values

An array is read entry by entry and filled into its own shape again.
-/

namespace DensityGraph

namespace Tensor

theorem mem_toList_ofFn {β : Type} {s : Shape} {f : List Nat → β} {x : β}
    (h : x ∈ (ofFn s f).toList) : ∃ index, s.Within index ∧ x = f index := by
  unfold toList ofFn at h
  rw [Array.mem_toList_iff, Array.mem_ofFn] at h
  rcases h with ⟨k, rfl⟩
  exact ⟨s.unravel k, Shape.within_unravel k.isLt, rfl⟩

theorem get_mem_toList {β : Type} [Inhabited β] {t : Tensor β} {index : List Nat}
    (h : t.shape.Within index) : t.get index ∈ t.toList := by
  have hlt : t.shape.offset index < t.entries.size := by
    rw [t.size_entries]
    exact Shape.offset_lt h
  unfold get Array.getD toList
  rw [dif_pos hlt, Array.mem_toList_iff]
  exact Array.getElem_mem hlt

end Tensor

namespace NumericArray

variable {a : NumericArray}

def IsReadable : NumericArray → Prop
  | integers _ t => forall n, n ∈ t.toList -> n.natAbs < Value.floatLimit
  | _ => True

theorem isReadable_ofFloats (t : Tensor Float) : (NodeValue.ofFloats t).array.IsReadable :=
  trivial

theorem shape_toFloats (a : NumericArray) : a.toFloats.shape = a.shape := by
  cases a <;> rfl

theorem shape_addBatchAxis (a : NumericArray) : a.addBatchAxis.shape = 1 :: a.shape := by
  cases a <;> rfl

theorem IsReadable.addBatchAxis (h : a.IsReadable) : a.addBatchAxis.IsReadable := by
  cases a with
  | floats p t => exact trivial
  | booleans t => exact trivial
  | integers k t =>
      intro n hn
      rcases Tensor.mem_toList_ofFn hn with ⟨index, hindex, rfl⟩
      apply h
      apply Tensor.get_mem_toList
      cases index with
      | nil => exact absurd hindex id
      | cons i index =>
          have hproject : t.shape.project (i :: index) = t.shape.project index := by
            unfold Shape.project
            have hlength := Shape.length_of_within hindex.2
            rw [List.length_cons, hlength]
            simp
          rw [hproject, Shape.project_self hindex.2]
          exact hindex.2

end NumericArray

namespace Value

variable {β : Type} {c : Bool} {a : NumericArray}

theorem shape_array (c : Bool) (a : NumericArray) : (array c a).shape = .ok a.shape := by
  unfold shape
  rw [nesting]
  rfl

theorem fill_toList (t : Tensor β) : fill t.shape t.toList = .ok t := by
  unfold fill Tensor.ofArray?
  have hsize : t.toList.toArray.size = t.shape.size := t.size_entries
  rw [dif_pos hsize]
  rfl

theorem mapM_ok {γ : Type} {f : β → Except Refusal γ} {g : β → γ} {xs : List β}
    (h : forall x, x ∈ xs -> f x = .ok (g x)) : xs.mapM f = .ok (xs.map g) := by
  induction xs with
  | nil => rfl
  | cons x xs ih =>
      have hrest := ih fun y hy => h y (List.mem_cons_of_mem x hy)
      rw [List.mapM_cons, h x List.mem_cons_self, hrest]
      rfl

theorem mapM_toFloat_entries (h : a.IsReadable) :
    (entriesOf a).mapM toFloat = .ok a.toFloats.toList := by
  have hmap : forall {γ : Type} (t : Tensor γ) (g : γ → Float),
      (t.map g).toList = t.toList.map g := by
    intro γ t g
    simp [Tensor.toList, Tensor.map]
  cases a with
  | floats p t =>
      have hself : t.toList.mapM (toFloat ∘ float) = .ok (t.toList.map id) :=
        mapM_ok fun _ _ => rfl
      unfold entriesOf
      rw [List.mapM_map, hself, List.map_id]
      rfl
  | integers k t =>
      unfold entriesOf NumericArray.toFloats
      rw [List.mapM_map, hmap]
      apply mapM_ok
      intro n hn
      simp only [Function.comp_apply, toFloat]
      rw [if_pos (h n hn)]
  | booleans t =>
      unfold entriesOf NumericArray.toFloats
      rw [List.mapM_map, hmap]
      exact mapM_ok fun _ _ => rfl

theorem toFloats_array (h : a.IsReadable) (c : Bool) : (array c a).toFloats = .ok a.toFloats := by
  have hfill := fill_toList a.toFloats
  rw [NumericArray.shape_toFloats] at hfill
  unfold toFloats
  rw [nesting]
  simp only [bind, Except.bind, mapM_toFloat_entries h, hfill]

end Value

namespace Workspace

theorem tensorOf_array {α : Type} [Scalar α] {w : Workspace} {p : Precision}
    (hp : w.settings.tensorPrecision w.wide = .ok p) {a : NumericArray} (h : a.IsReadable)
    (c : Bool) :
    w.tensorOf (α := α) (.array c a) = .ok (a.toFloats.map (Scalar.constant p)) := by
  unfold tensorOf
  rw [hp, Value.toFloats_array h]
  rfl

end Workspace
end DensityGraph
