import DensityGraph.Proofs.Graph.Edit
import DensityGraph.Proofs.Tensor.RowWise
/-!
# Operations row by row

Every operation of the table, applied to rows of the shapes that it was declared for,
makes rows of the declared shape.
-/

namespace DensityGraph

open Tensor

/-!
# Declared shapes
-/

namespace Dim

theorem joins_of_axes {d e u : Shape} (he : e.length = d.length) (hu : u.length = d.length)
    (haxes : forall k, k < d.length ->
      Shape.joinAxis? (d.getD k 1) (e.getD k 1) = some (u.getD k 1)) :
    Shape.Joins d e u := by
  induction d generalizing e u with
  | nil =>
      rw [List.length_eq_zero_iff.mp he, List.length_eq_zero_iff.mp hu]
      exact Shape.Joins.nil
  | cons m d ih =>
      cases e with
      | nil => cases he
      | cons n e =>
          cases u with
          | nil => cases hu
          | cons k u =>
              apply Shape.Joins.cons
              · exact haxes 0 (Nat.succ_pos _)
              · apply ih (Nat.succ.inj he) (Nat.succ.inj hu)
                intro j hj
                exact haxes (j + 1) (Nat.succ_lt_succ hj)

theorem joinAxis?_of_agree {m n : Nat} (hm : 1 ≤ m) (hn : 1 ≤ n)
    (h : agree [m, n] = true) : Shape.joinAxis? m n = some (max m n) := by
  unfold Shape.joinAxis?
  by_cases hm1 : m = 1
  · rw [hm1, Nat.max_eq_right hn]
    by_cases hn1 : n = 1
    · rw [if_pos hn1.symm, hn1]
    · rw [if_neg (Ne.symm hn1), if_pos rfl]
  · by_cases hn1 : n = 1
    · rw [if_neg (by omega), if_neg hm1, if_pos hn1, hn1, Nat.max_eq_left hm]
    · have heq : n = m := by simpa [agree, hm1, hn1] using h
      rw [if_pos heq.symm, heq, Nat.max_self]

theorem broadcast_ok {name : String} {d : Shape} {rest : List Shape} {dim : Shape}
    (h : broadcast name (d :: rest) = .ok dim) :
    (forall e, e ∈ rest -> e.length = d.length) ∧ dim.length = d.length ∧
      forall k, k < d.length -> agree (axis (d :: rest) k) = true ∧
        dim.getD k 1 = (axis (d :: rest) k).foldl max 0 := by
  unfold broadcast at h
  simp only at h
  split at h
  · cases h
  · rename_i hranks
    split at h
    · cases h
    · rename_i hfind
      cases h
      refine ⟨?_, by simp, ?_⟩
      · simpa using hranks
      · intro k hk
        rw [List.find?_eq_none] at hfind
        constructor
        · simpa using hfind k (List.mem_range.mpr hk)
        · simp [List.getD, hk]

theorem eq_of_broadcast {name : String} {d dim : Shape}
    (h : broadcast name [d] = .ok dim) : dim = d := by
  rcases broadcast_ok h with ⟨_, hlength, haxes⟩
  apply List.ext_getElem hlength
  intro k hk hk'
  have haxis := (haxes k hk').2
  simpa [axis, List.getD, hk, hk'] using haxis

theorem joins_of_broadcast {name : String} {d e dim : Shape} (hd : d.IsDim) (he : e.IsDim)
    (h : broadcast name [d, e] = .ok dim) : Shape.Joins d e dim := by
  rcases broadcast_ok h with ⟨hranks, hlength, haxes⟩
  have hranks' : e.length = d.length := hranks e (List.mem_singleton.mpr rfl)
  apply joins_of_axes hranks' hlength
  intro k hk
  rcases haxes k hk with ⟨hagree, haxis⟩
  have hpositive : forall {s : Shape}, s.IsDim -> k < s.length -> 1 ≤ s.getD k 1 := by
    intro s hs hlt
    apply hs.positive
    simp [List.getD, hlt]
  rw [joinAxis?_of_agree (hpositive hd hk) (hpositive he (hranks' ▸ hk)) hagree, haxis]
  simp [axis]

end Dim

namespace Shape.Joins

variable {s t u : Shape}

theorem positive (h : Joins s t u) (hs : forall k, k ∈ s -> 1 ≤ k)
    (ht : forall k, k ∈ t -> 1 ≤ k) : forall k, k ∈ u -> 1 ≤ k := by
  induction h with
  | nil => exact hs
  | @cons m n k s t u hk hrest ih =>
      intro j hj
      rcases List.mem_cons.mp hj with rfl | htail
      · have hm := hs m List.mem_cons_self
        have hn := ht n List.mem_cons_self
        unfold joinAxis? at hk
        grind
      · exact ih (fun i hi => hs i (List.mem_cons_of_mem _ hi))
          (fun i hi => ht i (List.mem_cons_of_mem _ hi)) j htail

theorem isDim (h : Joins s t u) (hs : s.IsDim) (ht : t.IsDim) : u.IsDim := by
  constructor
  · rw [← h.length_left]
    exact hs.length
  · exact h.positive hs.positive ht.positive

end Shape.Joins

/-!
# Results of single operations
-/

namespace Tensor

variable {α : Type} [Scalar α] {k i : Nat} {d e dim : Shape} {t u : Tensor α}

theorem exists_map₂? (f : α → α → α) (hjoins : Shape.Joins d e dim) (ht : t.shape = k :: d)
    (hu : u.shape = k :: e) :
    ∃ r, t.map₂? f u = some r ∧ r.shape = k :: dim ∧
      forall i, i < k -> r.row i = ofFn dim fun index =>
        f ((t.row i).get ((t.row i).shape.project index))
          ((u.row i).get ((u.row i).shape.project index)) := by
  have hjoin : t.shape.join? u.shape = some (k :: dim) := by
    rw [ht, hu]
    exact (Shape.Joins.cons (Shape.joinAxis?_self k) hjoins).join?
  unfold map₂?
  rw [hjoin]
  refine ⟨_, rfl, shape_ofFn _ _, ?_⟩
  intro i hi
  rw [row_ofFn _ hi]
  apply ofFn_congr
  intro index hindex
  have hlength := Shape.length_of_within hindex
  rw [get_project_row ht hi (hlength.trans hjoins.length_left.symm)
      (Shape.within_project_left hjoins hindex),
    get_project_row hu hi (hlength.trans hjoins.symm.length_left.symm)
      (Shape.within_project_right hjoins hindex)]

theorem exists_elementwise (f : α → α → α) (hjoins : Shape.Joins d e dim)
    (ht : t.shape = k :: d) (hu : u.shape = k :: e) :
    ∃ r, elementwise f t u = .ok r ∧ r.shape = k :: dim ∧
      forall i, i < k -> r.row i = ofFn dim fun index =>
        f ((t.row i).get ((t.row i).shape.project index))
          ((u.row i).get ((u.row i).shape.project index)) := by
  rcases exists_map₂? f hjoins ht hu with ⟨r, hr, hrest⟩
  unfold elementwise
  rw [hr]
  exact ⟨r, rfl, hrest⟩

/-!
# Matrices
-/

theorem swapLast_append {β : Type} (xs : List β) (a b : β) :
    swapLast (xs ++ [a, b]) = xs ++ [b, a] := by
  simp [swapLast]

theorem exists_last_two {β : Type} {xs : List β} (h : 2 ≤ xs.length) :
    ∃ front a b, xs = front ++ [a, b] := by
  cases hxs : xs.reverse with
  | nil => simp_all
  | cons b rest =>
      cases rest with
      | nil =>
          rw [← List.length_reverse, hxs] at h
          exact absurd h (by simp)
      | cons a rest =>
          refine ⟨rest.reverse, a, b, ?_⟩
          rw [← List.reverse_reverse xs, hxs]
          simp

theorem length_swapLast {β : Type} (xs : List β) : (swapLast xs).length = xs.length := by
  unfold swapLast
  split
  · rename_i a b rest h
    have hreverse : xs.length = xs.reverse.length := List.length_reverse.symm
    rw [hreverse, h]
    simp
  · rfl

theorem mem_swapLast {β : Type} {xs : List β} {x : β} (h : x ∈ swapLast xs) : x ∈ xs := by
  unfold swapLast at h
  split at h
  · rename_i a b rest hxs
    rw [← List.mem_reverse, hxs]
    simp at h ⊢
    grind
  · exact h

theorem swapLast_cons {β : Type} {xs : List β} (h : 2 ≤ xs.length) (a : β) :
    swapLast (a :: xs) = a :: swapLast xs := by
  rcases exists_last_two h with ⟨front, b, c, rfl⟩
  rw [swapLast_append, ← List.cons_append, swapLast_append, List.cons_append]

theorem within_swapLast (hd : 2 ≤ d.length) {index : List Nat}
    (h : Shape.Within (swapLast d) index) : d.Within (swapLast index) := by
  rcases exists_last_two hd with ⟨front, m, n, rfl⟩
  rw [swapLast_append] at h
  rcases Shape.within_append.mp h with ⟨outer, inner, rfl, houter, hinner⟩
  cases inner with
  | nil => exact absurd hinner id
  | cons j inner =>
      cases inner with
      | nil => exact absurd hinner.2 id
      | cons i inner =>
          cases inner with
          | cons _ _ => exact absurd hinner.2.2 id
          | nil =>
              rw [swapLast_append]
              exact Shape.within_append.mpr
                ⟨outer, [i, j], rfl, houter, hinner.2.1, hinner.1, trivial⟩

theorem exists_transpose? (hd : 2 ≤ d.length) (ht : t.shape = k :: d) :
    ∃ r, t.transpose? = some r ∧ r.shape = k :: swapLast d ∧
      forall i, i < k -> r.row i =
        ofFn (swapLast (t.row i).shape) fun index => (t.row i).get (swapLast index) := by
  have hrank : ¬t.rank < 2 := by
    unfold rank
    rw [ht, List.length_cons]
    omega
  have hshape : swapLast t.shape = k :: swapLast d := by
    rw [ht, swapLast_cons hd]
  unfold transpose?
  rw [if_neg hrank, hshape]
  refine ⟨_, rfl, rfl, ?_⟩
  intro i hi
  rw [row_ofFn _ hi, shape_row ht]
  apply ofFn_congr
  intro index hindex
  have hlength : 2 ≤ index.length := by
    rw [Shape.length_of_within hindex, length_swapLast]
    exact hd
  rw [swapLast_cons hlength, get_row ht (within_swapLast hd hindex)]

theorem row_product {l m n i : Nat} (ht : t.shape = [k, m, l]) (hu : u.shape = [k, l, n])
    (hi : i < k) : (product [k] t u).row i = product [] (t.row i) (u.row i) := by
  have hrow : (t.row i).shape = [m, l] := shape_row ht
  have hrow' : (u.row i).shape = [l, n] := shape_row hu
  have hproject : Shape.project [k] [i] = [i] := Shape.project_self ⟨hi, trivial⟩
  unfold product
  rw [ht, hu, hrow, hrow']
  refine (row_ofFn (s := [m, n]) _ hi).trans ?_
  apply ofFn_congr
  intro index hindex
  match index, hindex with
  | [a, b], hindex =>
      have hterms : forall q, q ∈ List.range l ->
          t.get (Shape.project [k] [i] ++ [a, q]) * u.get (Shape.project [k] [i] ++ [q, b]) =
            (t.row i).get ([] ++ [a, q]) * (u.row i).get ([] ++ [q, b]) := by
        intro q hq
        have hlt : q < l := List.mem_range.mp hq
        have hleft : Shape.Within [m, l] [a, q] := ⟨hindex.1, hlt, trivial⟩
        have hright : Shape.Within [l, n] [q, b] := ⟨hlt, hindex.2.1, trivial⟩
        rw [hproject, List.nil_append, List.nil_append, get_row ht hleft, get_row hu hright]
        rfl
      exact congrArg Scalar.sum (List.map_congr_left hterms)

theorem exists_matmul {l m n : Nat} (ht : t.shape = [k, m, l]) (hu : u.shape = [k, l, n]) :
    ∃ r, matmul t u = .ok r ∧ r.shape = [k, m, n] ∧
      forall i, i < k -> r.row i = product [] (t.row i) (u.row i) := by
  have hbatch : Shape.join? (batchShape t.shape) (batchShape u.shape) = some [k] := by
    rw [ht, hu]
    exact (Shape.Joins.cons (Shape.joinAxis?_self k) Shape.Joins.nil).join?
  have hrank : t.rank = 3 := by
    unfold rank
    rw [ht]
    rfl
  have hrank' : u.rank = 3 := by
    unfold rank
    rw [hu]
    rfl
  have hshape : (product [k] t u).shape = [k, m, n] := by
    unfold product
    rw [shape_ofFn, ht, hu]
    rfl
  have hinner : columns t.shape = rows u.shape := by
    rw [ht, hu]
    rfl
  have hdims : [k] ++ [rows t.shape] ++ [columns u.shape] = [k, m, n] := by
    rw [ht, hu]
    rfl
  have hself := reshape?_self (product [k] t u)
  refine ⟨product [k] t u, ?_, hshape, fun i hi => row_product ht hu hi⟩
  unfold matmul
  simp only [hrank, hrank', Nat.reduceEqDiff, if_false, hbatch, hinner, ne_eq,
    not_true_eq_false, hdims]
  rw [← hshape, hself]
  rfl

/-!
# Sums
-/

theorem sumKeep_rows (ht : t.shape = k :: d) :
    t.sumKeep.shape = k :: d.map (fun _ => 1) ∧ forall i, i < k ->
      t.sumKeep.row i = full ((t.row i).shape.map fun _ => 1) (Scalar.sum (t.row i).toList) := by
  have heq : t.sumKeep = ofFn (k :: d.map fun _ => 1) fun index =>
      Scalar.sum (t.event (index.headD 0)) := by
    unfold sumKeep
    split
    · rename_i hnil
      rw [ht] at hnil
      cases hnil
    · rename_i hcons
      rw [ht] at hcons
      cases hcons
      rfl
  rw [heq]
  refine ⟨rfl, ?_⟩
  intro i hi
  rw [row_ofFn _ hi, shape_row ht, toList_row ht]
  unfold full event
  rw [ht]
  rfl

theorem meanKeep_rows (ht : t.shape = k :: d) :
    t.meanKeep.shape = k :: d.map (fun _ => 1) ∧ forall i, i < k ->
      t.meanKeep.row i = (full ((t.row i).shape.map fun _ => 1)
        (Scalar.sum (t.row i).toList)).map fun x => x / Scalar.ofNat (t.row i).shape.size := by
  rcases sumKeep_rows ht with ⟨hshape, hrows⟩
  refine ⟨hshape, ?_⟩
  intro i hi
  unfold meanKeep
  rw [row_map _ hshape hi, hrows i hi, shape_row ht, ht]
  rfl

end Tensor

/-!
# The table
-/

namespace NamedOperation

variable {α : Type} [Scalar α] {o : NamedOperation} {ds : List Shape} {dim : Shape}

theorem exists_function (h : o.isFunction = true) : ∃ f : α → α, o.function? = some f := by
  cases o <;> first | exact ⟨_, rfl⟩ | cases h

theorem exists_function₂ (h : o.isOperator = true) :
    ∃ f : α → α → α, o.function₂? = some f := by
  cases o <;> first | exact ⟨_, rfl⟩ | cases h

theorem apply_tensor (o : NamedOperation) (t : Tensor α) : o.apply [.tensor t] = o.apply₁ t := by
  cases o <;> rfl

theorem apply_tensors (o : NamedOperation) (t u : Tensor α) :
    o.apply [.tensor t, .tensor u] = o.apply₂ t u := by
  cases o <;> rfl

def onTensors (o : NamedOperation) (ts : List (Tensor α)) : Except Refusal (Tensor α) :=
  o.apply (ts.map Argument.tensor)

theorem rowWise_function (ho : o.isFunction = true) (d : Shape) :
    RowWise (o.onTensors (α := α)) [d] d := by
  rcases exists_function (α := α) ho with ⟨f, hf⟩
  apply rowWise₁ fun t => t.map f
  intro k t ht
  refine ⟨t.map f, ?_, ht, ?_⟩
  · unfold onTensors
    rw [List.map_singleton, apply_tensor]
    unfold apply₁
    rw [hf]
  · intro i hi
    exact row_map f ht hi

theorem rowWise_operator (ho : o.isOperator = true) {d e : Shape}
    (h : Shape.Joins d e dim) : RowWise (o.onTensors (α := α)) [d, e] dim := by
  rcases exists_function₂ (α := α) ho with ⟨f, hf⟩
  apply rowWise₂ fun t u => ofFn dim fun index =>
    f (t.get (t.shape.project index)) (u.get (u.shape.project index))
  intro k t u ht hu
  unfold onTensors
  rw [List.map_cons, List.map_singleton, apply_tensors]
  unfold apply₂
  rw [hf]
  exact exists_elementwise f h ht hu

theorem rowWise_matmul (m l n : Nat) :
    RowWise (matmul.onTensors (α := α)) [[m, l], [l, n]] [m, n] :=
  rowWise₂ (product []) fun _ _ _ ht hu => exists_matmul ht hu

theorem rowWise_transpose {d : Shape} (hd : 2 ≤ d.length) :
    RowWise (transpose.onTensors (α := α)) [d] (swapLast d) := by
  apply rowWise₁ fun t => ofFn (swapLast t.shape) fun index => t.get (swapLast index)
  intro k t ht
  rcases exists_transpose? hd ht with ⟨r, hr, hrest⟩
  refine ⟨r, ?_, hrest⟩
  unfold onTensors
  rw [List.map_singleton, apply_tensor]
  unfold apply₁
  simp only [function?, hr]

theorem rowWise_reduction (ho : o = .sum ∨ o = .mean) (d : Shape) :
    RowWise (o.onTensors (α := α)) [d] (d.map fun _ => 1) := by
  rcases ho with rfl | rfl
  · apply rowWise₁ fun t => full (t.shape.map fun _ => 1) (Scalar.sum t.toList)
    intro k t ht
    exact ⟨t.sumKeep, rfl, sumKeep_rows ht⟩
  · apply rowWise₁ fun t => (full (t.shape.map fun _ => 1) (Scalar.sum t.toList)).map fun x =>
      x / Scalar.ofNat t.shape.size
    intro k t ht
    exact ⟨t.meanKeep, rfl, meanKeep_rows ht⟩

theorem Declares.rowWise (h : o.Declares ds dim) (hds : forall d, d ∈ ds -> d.IsDim)
    (hsize : dim.size < 2 ^ 63) : dim.IsDim ∧ RowWise (o.onTensors (α := α)) ds dim := by
  cases h with
  | function _ d _ ho hdim =>
      rw [Dim.eq_of_broadcast hdim]
      exact ⟨hds d List.mem_cons_self, rowWise_function ho d⟩
  | operator _ d e _ ho hdim =>
      have hd : d.IsDim := hds d List.mem_cons_self
      have he : e.IsDim := hds e (List.mem_cons_of_mem d List.mem_cons_self)
      have hjoins := Dim.joins_of_broadcast hd he hdim
      exact ⟨hjoins.isDim hd he, rowWise_operator ho hjoins⟩
  | matmul m k n _ hdim =>
      have hleft := (hds [m, k] List.mem_cons_self).positive
      have hright := (hds [k, n] (List.mem_cons_of_mem _ List.mem_cons_self)).positive
      have hmn : Shape.IsDim [m, n] := by
        constructor
        · simp
        · intro j hj
          rcases List.mem_cons.mp hj with rfl | hj
          · exact hleft j List.mem_cons_self
          · rw [List.mem_singleton.mp hj]
            exact hright n (List.mem_cons_of_mem k List.mem_cons_self)
      rw [Value.eq_of_toDim_ofShape hmn hdim hsize]
      exact ⟨hmn, rowWise_matmul m k n⟩
  | transpose d _ hlength hdim =>
      have hd := hds d List.mem_cons_self
      have hswapped : Shape.IsDim (swapLast d) := by
        constructor
        · rw [length_swapLast]
          exact hd.length
        · intro j hj
          exact hd.positive j (mem_swapLast hj)
      rw [Value.eq_of_toDim_ofShape hswapped hdim hsize]
      exact ⟨hswapped, rowWise_transpose hlength⟩
  | reduction _ d _ ho hdim =>
      have hones : Shape.IsDim (d.map fun _ => 1) := by
        constructor
        · rw [List.length_map]
          exact (hds d List.mem_cons_self).length
        · intro j hj
          rcases List.mem_map.mp hj with ⟨_, _, rfl⟩
          exact Nat.le_refl 1
      have hwords : forall j, j ∈ d.map (fun _ => 1) -> Int.ofNat j < Value.wordLimit := by
        intro j hj
        rcases List.mem_map.mp hj with ⟨_, _, rfl⟩
        decide
      rw [Value.toDim_ofShape hones hwords] at hdim
      cases hdim
      exact ⟨hones, rowWise_reduction ho d⟩

end NamedOperation
end DensityGraph
