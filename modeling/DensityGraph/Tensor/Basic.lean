import DensityGraph.Tensor.Shape
import DensityGraph.Scalar.Basic
/-!
# Tensors

A tensor is a shape with one entry per index, kept row by row.  Every operation
builds its result entry by entry with `ofFn` and reads its arguments with `get`, so
the two lemmas about them are all that is needed to reason about entries.
-/

namespace DensityGraph

instance (priority := low) scalarInhabited {α : Type} [Scalar α] : Inhabited α :=
  ⟨Scalar.undefined⟩

structure Tensor (α : Type) where
  shape : Shape
  entries : Array α
  size_entries : entries.size = shape.size

namespace Tensor

variable {α β γ : Type}

def ofFn (shape : Shape) (f : List Nat → α) : Tensor α :=
  { shape := shape
    entries := Array.ofFn fun k : Fin shape.size => f (shape.unravel k)
    size_entries := Array.size_ofFn }

def get [Inhabited α] (t : Tensor α) (index : List Nat) : α :=
  t.entries.getD (t.shape.offset index) default

instance : Inhabited (Tensor α) :=
  ⟨⟨[0], #[], rfl⟩⟩

@[simp] theorem shape_ofFn (shape : Shape) (f : List Nat → α) :
    (ofFn shape f).shape = shape := rfl

@[simp] theorem get_ofFn [Inhabited α] {shape : Shape} {index : List Nat}
    (f : List Nat → α) (h : shape.Within index) : (ofFn shape f).get index = f index := by
  have hlt := Shape.offset_lt h
  simp [get, ofFn, Array.getD, hlt, Shape.unravel_offset h]

theorem ext_get [Inhabited α] {t u : Tensor α} (hshape : t.shape = u.shape)
    (h : ∀ index, t.shape.Within index → t.get index = u.get index) : t = u := by
  obtain ⟨s, xs, hx⟩ := t
  obtain ⟨s', ys, hy⟩ := u
  cases hshape
  congr
  apply Array.ext (hx.trans hy.symm)
  intro k hk hk'
  have hks : k < s.size := hx ▸ hk
  have := h (s.unravel k) (Shape.within_unravel hks)
  simpa [get, Array.getD, Shape.offset_unravel hks, hk, hk'] using this

/-!
# Building tensors
-/

def ofArray? (shape : Shape) (entries : Array α) : Option (Tensor α) :=
  if h : entries.size = shape.size then some ⟨shape, entries, h⟩ else none

def vector (xs : List α) : Tensor α :=
  ⟨[xs.length], xs.toArray, by simp [Shape.size]⟩

def scalar (x : α) : Tensor α :=
  ⟨[], #[x], rfl⟩

def full (shape : Shape) (x : α) : Tensor α :=
  ofFn shape fun _ => x

def map (f : α → β) (t : Tensor α) : Tensor β :=
  ⟨t.shape, t.entries.map f, by simp [t.size_entries]⟩

def toList (t : Tensor α) : List α :=
  t.entries.toList

@[simp] theorem shape_map (f : α → β) (t : Tensor α) : (t.map f).shape = t.shape := rfl

theorem get_map [Inhabited α] [Inhabited β] (f : α → β) {t : Tensor α} {index : List Nat}
    (h : t.shape.Within index) : (t.map f).get index = f (t.get index) := by
  have hlt : t.shape.offset index < t.entries.size := by
    rw [t.size_entries]
    exact Shape.offset_lt h
  simp [get, map, Array.getD, hlt]

theorem length_toList (t : Tensor α) : t.toList.length = t.shape.size := by
  simp [toList, t.size_entries]

def rank (t : Tensor α) : Nat :=
  t.shape.length

def reshape? (t : Tensor α) (shape : Shape) : Option (Tensor α) :=
  ofArray? shape t.entries

def row [Inhabited α] (t : Tensor α) (i : Nat) : Tensor α :=
  ofFn t.shape.tail fun index => t.get (i :: index)

/-!
# Broadcasting
-/

def broadcast [Inhabited α] (t : Tensor α) (shape : Shape) : Tensor α :=
  ofFn shape fun index => t.get (t.shape.project index)

def broadcastTo? [Inhabited α] (t : Tensor α) (shape : Shape) : Option (Tensor α) :=
  if t.shape.join? shape = some shape then some (t.broadcast shape) else none

def map₂? [Inhabited α] [Inhabited β] (f : α → β → γ) (t : Tensor α) (u : Tensor β) :
    Option (Tensor γ) :=
  (t.shape.join? u.shape).map fun shape =>
    ofFn shape fun index =>
      f (t.get (t.shape.project index)) (u.get (u.shape.project index))

end Tensor
end DensityGraph
