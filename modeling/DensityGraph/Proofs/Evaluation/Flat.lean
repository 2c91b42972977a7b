import Mathlib.Data.List.Sort
import DensityGraph.Evaluation.FreeState
import DensityGraph.Proofs.Constraint.FreeSize
import DensityGraph.Proofs.Evaluation.Shape
import DensityGraph.Proofs.Graph.Later
import DensityGraph.Proofs.Graph.Sized
import DensityGraph.Proofs.Value.Array
/-!
# Flat free states

A flat vector has the free tensors of all variables, one after the other, by ascending
number.  The tensors are cut out of it again with the free sizes of the variables, and the
length of the vector tells how many chains there are.
-/

namespace DensityGraph

/-!
# Variables have free entries
-/

namespace Workspace

variable {v w : Workspace}

def HasFreeEntries (w : Workspace) : Prop :=
  forall x n b c size, w.node? x = some n -> n.role = .latent b c size -> 0 < size

theorem HasFreeSizes.hasFreeEntries (h : w.HasFreeSizes) : w.HasFreeEntries := by
  intro x n b c size hn hlatent
  rcases h x n b c size hn hlatent with ⟨hdim, hsize⟩
  exact Constraint.freeSize_pos hdim hsize

theorem hasFreeEntries_of_reached {allowed : Workspace → Call → Prop}
    (h : w.Reached allowed) : w.HasFreeEntries :=
  (hasFreeSizes_of_reached h).hasFreeEntries

theorem SameModel.hasFreeEntries (h : w.SameModel v) (hw : w.HasFreeEntries) :
    v.HasFreeEntries := by
  intro x n b c size hn hlatent
  rcases h.symm.node?_of_some hn with ⟨nv, hm⟩
  exact hw x { n with value := nv } b c size hm hlatent

end Workspace

/-!
# Kept numbers

Entries that a precision represents make an array of this precision, from which they are read
again unchanged.
-/

namespace Tensor

variable {p : Precision} {t : Tensor Number}

def IsKept (p : Precision) (t : Tensor Number) : Prop :=
  forall x, x ∈ t.toList -> x.precision = p ∧ p.round x.value = x.value

theorem IsKept.widest (h : t.IsKept p) :
    t.toList = [] ∨ t.entries.foldl (fun q x => Precision.join q x.precision) .literal = p := by
  have hfold : forall xs : List Number, (forall x, x ∈ xs -> x.precision = p) ->
      xs.foldl (fun q x => Precision.join q x.precision) p = p := by
    intro xs hxs
    induction xs with
    | nil => rfl
    | cons x xs ih =>
        rw [List.foldl_cons, hxs x List.mem_cons_self, Precision.join_self]
        exact ih fun y hy => hxs y (List.mem_cons_of_mem x hy)
  rw [← Array.foldl_toList]
  unfold IsKept toList at *
  cases hlist : t.entries.toList with
  | nil => exact Or.inl rfl
  | cons x xs =>
      rw [hlist, List.forall_mem_cons] at h
      right
      rw [List.foldl_cons, h.1.1, Precision.literal_join]
      exact hfold xs fun y hy => (h.2 y hy).1

theorem IsKept.ofNumbers (h : t.IsKept p) :
    NumericArray.ofNumbers p t = .floats p (t.map Number.value) := by
  have hwidest : t.entries.foldl (fun q x => Precision.join q x.precision) .literal = .literal ∨
      t.entries.foldl (fun q x => Precision.join q x.precision) .literal = p := by
    rcases h.widest with hnil | hp
    · left
      unfold toList at hnil
      rw [← Array.foldl_toList, hnil, List.foldl_nil]
    · exact Or.inr hp
  unfold NumericArray.ofNumbers
  generalize t.entries.foldl (fun q x => Precision.join q x.precision) .literal = widest
    at hwidest ⊢
  simp only
  rcases hwidest with rfl | rfl
  · rw [if_pos rfl]
  · rw [ite_self]

theorem IsKept.map_constant (h : t.IsKept p) :
    (t.map Number.value).map (Scalar.constant p) = t := by
  refine ext_get (t := (t.map Number.value).map (Scalar.constant p)) (u := t) rfl ?_
  intro index hindex
  have hwithin : t.shape.Within index := hindex
  rcases h _ (get_mem_toList hwithin) with ⟨hprecision, hvalue⟩
  have hfloats : (t.map Number.value).shape.Within index := hindex
  rw [get_map (Scalar.constant p) hfloats, get_map Number.value hwithin]
  change (⟨p.round (t.get index).value, p⟩ : Number) = t.get index
  rw [hvalue, ← hprecision]

theorem isKept_map_constant {t : Tensor Float} (h : forall x, x ∈ t.toList -> p.round x = x) :
    (t.map (Scalar.constant p) : Tensor Number).IsKept p := by
  intro x hx
  unfold toList map at hx
  rw [Array.mem_toList_iff, Array.mem_map] at hx
  rcases hx with ⟨y, hy, rfl⟩
  have hround : p.round y = y := h y (Array.mem_toList_iff.mpr hy)
  exact ⟨rfl, (congrArg p.round hround).trans rfl⟩

theorem map_value_constant {t : Tensor Float} (h : forall x, x ∈ t.toList -> p.round x = x) :
    (t.map (Scalar.constant p) : Tensor Number).map Number.value = t := by
  refine ext_get (t := (t.map (Scalar.constant p) : Tensor Number).map Number.value) (u := t)
    rfl ?_
  intro index hindex
  have hwithin : t.shape.Within index := hindex
  have hnumbers : (t.map (Scalar.constant p) : Tensor Number).shape.Within index := hindex
  rw [get_map Number.value hnumbers, get_map (Scalar.constant p) hwithin]
  exact h _ (get_mem_toList hwithin)

theorem vector_toList {β : Type} {t : Tensor β} {m : Nat} (h : t.shape = [m]) :
    vector t.toList = t := by
  have hlength : t.toList.length = m := by
    rw [length_toList, h, Shape.size_cons, Shape.size_nil, Nat.mul_one]
  rcases t with ⟨shape, entries, hentries⟩
  change shape = [m] at h
  subst h
  unfold vector
  simp only [hlength]
  rfl

theorem ofFn_getD {β : Type} {s : Shape} {xs : Array β} (h : xs.size = s.size) (d : β) :
    ofFn s (fun index => xs.getD (s.offset index) d) = ⟨s, xs, h⟩ := by
  unfold ofFn
  congr 1
  apply Array.ext (Array.size_ofFn.trans h.symm)
  intro k hk hk'
  have hks : k < s.size := h ▸ hk'
  rw [Array.getElem_ofFn]
  simp only [Shape.offset_unravel hks, Array.getD]
  rw [dif_pos hk']
  rfl

end Tensor

/-!
# Cutting and joining
-/

section Sorting

variable {β : Type} {free : List (Int × β)}

theorem sortState_perm (free : List (Int × β)) : (sortState free).Perm free :=
  List.mergeSort_perm free _

theorem pairwise_sortState (free : List (Int × β)) :
    ((sortState free).map Prod.fst).Pairwise (· ≤ ·) := by
  have hsorted : (sortState free).Pairwise fun a b => decide (a.1 ≤ b.1) = true := by
    apply List.pairwise_mergeSort
    · intro a b c hab hbc
      rw [decide_eq_true_iff] at hab hbc ⊢
      exact Int.le_trans hab hbc
    · intro a b
      rw [Bool.or_eq_true, decide_eq_true_iff, decide_eq_true_iff]
      exact Int.le_total a.1 b.1
  rw [List.pairwise_map]
  exact hsorted.imp of_decide_eq_true

theorem sortState_of_pairwise (h : (free.map Prod.fst).Pairwise (· ≤ ·)) :
    sortState free = free := by
  rw [List.pairwise_map] at h
  exact List.mergeSort_of_pairwise (h.imp decide_eq_true)

end Sorting

namespace Action

variable {chains : Nat} {sized : List (NodeId × Nat)} {xs : List Number}
  {s : List (Int × Tensor Number)}

theorem cut_append {t : Tensor Number} {size : Nat} (h : t.shape = [chains, size]) (id : NodeId)
    (sized : List (NodeId × Nat)) (xs : List Number) :
    cut chains ((id, size) :: sized) (t.toList ++ xs) =
      ((id : Int), t) :: cut chains sized xs := by
  rcases t with ⟨shape, entries, hentries⟩
  change shape = [chains, size] at h
  subst h
  have hlength : entries.toList.length = chains * size := by
    rw [Array.length_toList, hentries, Shape.size_cons, Shape.size_cons, Shape.size_nil,
      Nat.mul_one]
  rw [cut]
  unfold Tensor.toList
  rw [List.take_left' hlength, List.drop_left' hlength]
  rw [Tensor.ofFn_getD hentries]

theorem cut_flatMap (h : List.Forall₂ (fun (e : NodeId × Nat) (q : Int × Tensor Number) =>
    q.1 = e.1 ∧ q.2.shape = [chains, e.2]) sized s) :
    cut chains sized (s.flatMap fun q => q.2.toList) = s := by
  induction h with
  | nil => rfl
  | @cons e q sized s hq _ ih =>
      rcases q with ⟨k, t⟩
      rcases hq with ⟨rfl, hshape⟩
      rw [List.flatMap_cons, cut_append hshape, ih]

theorem flatMap_cut (h : xs.length = chains * (sized.map Prod.snd).sum) :
    (cut chains sized xs).flatMap (fun q => q.2.toList) = xs := by
  induction sized generalizing xs with
  | nil => exact (List.length_eq_zero_iff.mp h).symm
  | cons e sized ih =>
      rcases e with ⟨id, size⟩
      rw [List.map_cons, List.sum_cons, Nat.mul_add] at h
      have hrest : (xs.drop (chains * size)).length = chains * (sized.map Prod.snd).sum := by
        rw [List.length_drop, h, Nat.add_sub_cancel_left]
      have hfirst : (xs.take (chains * size)).toArray.size = Shape.size [chains, size] := by
        rw [List.size_toArray, List.length_take, h, Shape.size_cons, Shape.size_cons,
          Shape.size_nil, Nat.mul_one, Nat.min_eq_left (Nat.le_add_right _ _)]
      unfold cut
      rw [List.flatMap_cons, ih hrest, Tensor.ofFn_getD hfirst]
      exact List.take_append_drop _ xs

theorem map_fst_cut (chains : Nat) (sized : List (NodeId × Nat)) (xs : List Number) :
    (cut chains sized xs).map Prod.fst = sized.map fun e => (e.1 : Int) := by
  induction sized generalizing xs with
  | nil => rfl
  | cons e sized ih =>
      unfold cut
      rw [List.map_cons, List.map_cons, ih]

end Action

/-!
# Free states of a graph

The free tensors of a state, in the order of the numbers of their variables, have the lengths
of a layout.  Put next to each other they make the flat vector, and cutting it along the
layout restores the state, which is read and kept as it is.
-/

def Workspace.freeSize (w : Workspace) (id : NodeId) : Nat :=
  ((w.node? id).map Node.freeSize).getD 0

/-- A free state of a graph, kept in a precision: a tensor with `n` rows for every variable. -/
structure Workspace.IsFreeState (w : Workspace) (d : Dag) (p : Precision) (n : Nat)
    (s : List (Int × Tensor Number)) : Prop where
  nodup : (s.map Prod.fst).Nodup
  keys : forall k, k ∈ s.map Prod.fst ↔ ∃ id, id ∈ d.latents w ∧ k = (id : Int)
  shape : forall (id : NodeId) t, ((id : Int), t) ∈ s -> t.shape = [n, w.freeSize id]
  kept : forall k t, (k, t) ∈ s -> t.IsKept p

namespace Dag

open Workspace

variable {w : Workspace} {d : Dag} {p : Precision} {n : Nat} {s : List (Int × Tensor Number)}

def flatSize (d : Dag) (w : Workspace) : Nat :=
  ((d.latents w).map w.freeSize).sum

def layout (d : Dag) (w : Workspace) : List (NodeId × Nat) :=
  ((d.latents w).mergeSort (· ≤ ·)).map fun id => (id, w.freeSize id)

/-- Vectors that some number of chains fits into. -/
def IsFlat (d : Dag) (w : Workspace) (t : Tensor Number) : Prop :=
  ∃ m, t.shape = [m] ∧ d.flatSize w ∣ m

theorem flatSize_pos (hw : w.HasFreeEntries) (hne : d.latents w ≠ []) : 0 < d.flatSize w := by
  rcases List.exists_mem_of_ne_nil _ hne with ⟨id, hid⟩
  rcases exists_node_of_has (mem_select.mp hid).2 with ⟨m, hm, hlatent⟩
  rcases Node.role_of_isLatent hlatent with ⟨b, c, hrole⟩
  apply List.sum_pos_iff_exists_pos_nat.mpr
  refine ⟨w.freeSize id, List.mem_map_of_mem hid, ?_⟩
  unfold freeSize
  rw [hm]
  exact hw id m b c m.freeSize hm hrole

theorem sum_layout (d : Dag) (w : Workspace) :
    ((d.layout w).map Prod.snd).sum = d.flatSize w := by
  unfold layout flatSize
  rw [List.map_map]
  exact ((List.mergeSort_perm (d.latents w) _).map w.freeSize).sum_nat

theorem pairwise_layout (d : Dag) (w : Workspace) :
    ((d.layout w).map fun e => (e.1 : Int)).Pairwise (· ≤ ·) := by
  have hsorted := List.pairwise_mergeSort' (· ≤ ·) (d.latents w)
  unfold layout
  rw [List.map_map, List.pairwise_map]
  exact hsorted.imp Int.ofNat_le.mpr

theorem map_fst_sortState (hnodup : d.nodes.Nodup) (h : w.IsFreeState d p n s) :
    (sortState s).map Prod.fst = (d.layout w).map fun e => (e.1 : Int) := by
  have hlatents : ((d.latents w).map fun id : NodeId => (id : Int)).Nodup :=
    List.Nodup.map Int.ofNat_injective (hnodup.filter _)
  have hkeys : (s.map Prod.fst).Perm ((d.latents w).map fun id : NodeId => (id : Int)) := by
    rw [List.perm_ext_iff_of_nodup h.nodup hlatents]
    intro k
    rw [h.keys, List.mem_map]
    exact exists_congr fun id => and_congr_right fun _ => eq_comm
  have hlayout : ((d.layout w).map fun e => (e.1 : Int)).Perm
      ((d.latents w).map fun id : NodeId => (id : Int)) := by
    unfold layout
    rw [List.map_map]
    exact (List.mergeSort_perm (d.latents w) _).map _
  -- Both lists are sorted, and the layout is not made from the keys: they only have the same
  -- members.
  apply List.Perm.eq_of_pairwise _ (pairwise_sortState s) (pairwise_layout d w)
  · exact ((sortState_perm s).map _).trans (hkeys.trans hlayout.symm)
  · intro a b _ _
    exact Int.le_antisymm

theorem forall₂_layout (hnodup : d.nodes.Nodup) (h : w.IsFreeState d p n s) :
    List.Forall₂ (fun (e : NodeId × Nat) (q : Int × Tensor Number) =>
      q.1 = e.1 ∧ q.2.shape = [n, e.2]) (d.layout w) (sortState s) := by
  have hkeys : List.Forall₂ (fun (q : Int × Tensor Number) (e : NodeId × Nat) => q.1 = e.1)
      (sortState s) (d.layout w) := by
    have heq := map_fst_sortState hnodup h
    rwa [← List.forall₂_eq_eq_eq, List.forall₂_map_left_iff, List.forall₂_map_right_iff] at heq
  have hsizes : forall e, e ∈ d.layout w -> e.2 = w.freeSize e.1 := by
    intro e he
    rcases List.mem_map.mp he with ⟨id, _, rfl⟩
    rfl
  have hshapes : forall q, q ∈ sortState s -> forall id : NodeId, q.1 = (id : Int) ->
      q.2.shape = [n, w.freeSize id] := by
    rintro ⟨k, t⟩ hq id rfl
    exact h.shape id t ((sortState_perm s).mem_iff.mp hq)
  have hshaped := ((List.forall₂_and_left _ _).mpr ⟨hshapes, hkeys⟩).flip
  apply ((List.forall₂_and_left _ _).mpr ⟨hsizes, hshaped⟩).imp
  rintro e q ⟨hsize, hshape, hkey⟩
  rw [hsize]
  exact ⟨hkey, hshape e.1 hkey⟩

theorem shape_flattenState (hnodup : d.nodes.Nodup) (h : w.IsFreeState d p n s) :
    (flattenState s).shape = [n * d.flatSize w] := by
  have hlayout := forall₂_layout hnodup h
  apply congrArg fun m => [m]
  rw [← sum_layout]
  generalize d.layout w = sized at hlayout
  generalize sortState s = sorted at hlayout ⊢
  induction hlayout with
  | nil => rfl
  | @cons e q sized sorted hq _ ih =>
      rw [List.flatMap_cons, List.length_append, ih, List.map_cons, List.sum_cons, Nat.mul_add,
        Tensor.length_toList, hq.2, Shape.size_cons, Shape.size_cons, Shape.size_nil, Nat.mul_one]

theorem isKept_flattenState (h : w.IsFreeState d p n s) : (flattenState s).IsKept p := by
  intro x hx
  rcases List.mem_flatMap.mp hx with ⟨⟨k, t⟩, hq, ht⟩
  exact h.kept k t ((sortState_perm s).mem_iff.mp hq) x ht

end Dag

namespace Action

open Workspace

variable {w : Workspace} {d : Dag} {p : Precision} {n : Nat} {s : List (Int × Tensor Number)}

theorem run_node {id : NodeId} (h : id ∈ d.latents w) :
    ∃ m, (node id).run w = (.ok m, w) ∧ m.freeSize = w.freeSize id := by
  rcases exists_node_of_has (mem_select.mp h).2 with ⟨m, hm, _⟩
  refine ⟨m, run_node_of_node? hm, ?_⟩
  unfold Workspace.freeSize
  rw [hm]
  rfl

theorem run_totalSize (d : Dag) (w : Workspace) :
    (totalSize d).run w = (.ok (d.flatSize w), w) := by
  have hsizes : ((d.latents w).mapM fun id => do return (← node id).freeSize :
      Action (List Nat)).run w = (.ok ((d.latents w).map w.freeSize), w) := by
    apply run_mapM
    intro id hid
    rcases run_node hid with ⟨m, hnode, hsize⟩
    rw [run_bind_of_run hnode, ← hsize]
    rfl
  unfold totalSize Dag.flatSize
  rw [run_bind_of_run run_get, run_bind_of_run hsizes, List.sum_eq_foldl_nat]
  rfl

theorem run_layout (d : Dag) (w : Workspace) :
    (((d.latents w).mergeSort (· ≤ ·)).mapM fun id => do
      return (id, (← node id).freeSize) : Action (List (NodeId × Nat))).run w =
        (.ok (d.layout w), w) := by
  apply run_mapM (g := fun id => (id, w.freeSize id))
  intro id hid
  rcases run_node ((List.mergeSort_perm _ _).mem_iff.mp hid) with ⟨m, hnode, hsize⟩
  rw [run_bind_of_run hnode, ← hsize]
  rfl

theorem run_unflatten {x : Value} {t : Tensor Number} (ht : w.tensorOf x = .ok t)
    (hpos : 0 < d.flatSize w) :
    (d.IsFlat w t -> (unflatten d x).run w =
      (.ok (cut (t.shape.size / d.flatSize w) (d.layout w) t.toList), w)) ∧
    (¬d.IsFlat w t -> (unflatten d x).run w =
      (.error (.invalid (.flatLength t.shape.size)), w)) := by
  have hread : (ofRefusal (w.tensorOf x) : Action (Tensor Number)).run w = (.ok t, w) := by
    rw [ht]
    rfl
  unfold unflatten
  rw [run_bind_of_run run_get, run_bind_of_run hread, run_bind_of_run (run_totalSize d w)]
  simp only [Bool.or_eq_true, decide_eq_true_eq]
  constructor
  · rintro ⟨m, hshape, hdvd⟩
    have hrank : t.rank = 1 := congrArg List.length hshape
    have hsize : t.shape.size % d.flatSize w = 0 := by
      rw [hshape, Shape.size_cons, Shape.size_nil, Nat.mul_one]
      exact Nat.mod_eq_zero_of_dvd hdvd
    have hpass : ¬((t.rank ≠ 1 ∨ d.flatSize w = 0) ∨ t.shape.size % d.flatSize w ≠ 0) := by
      omega
    rw [if_neg hpass, run_bind_of_run (run_layout d w)]
    rfl
  · intro hnot
    have hfail : (t.rank ≠ 1 ∨ d.flatSize w = 0) ∨ t.shape.size % d.flatSize w ≠ 0 := by
      by_contra hpass
      rw [not_or, not_or, not_not, not_not] at hpass
      rcases List.length_eq_one_iff.mp hpass.1.1 with ⟨m, hshape⟩
      have hsize := hpass.2
      rw [hshape, Shape.size_cons, Shape.size_nil, Nat.mul_one] at hsize
      exact hnot ⟨m, hshape, Nat.dvd_of_mod_eq_zero hsize⟩
    rw [if_pos hfail]
    rfl

theorem run_unflatten_refused {x : Value} {r : Refusal}
    (hx : w.tensorOf (α := Number) x = .error r) :
    (unflatten d x).run w = (.error (.refused r), w) := by
  have hread : (ofRefusal (w.tensorOf x) : Action (Tensor Number)).run w =
      (.error (.refused r), w) := by
    rw [hx]
    rfl
  unfold unflatten
  rw [run_bind_of_run run_get, run_bind_of_error hread]

theorem tensorOf_floats (hp : w.settings.tensorPrecision w.wide = .ok p) (c : Bool)
    (t : Tensor Float) :
    w.tensorOf (α := Number) (.array c (.floats p t)) = .ok (t.map (Scalar.constant p)) :=
  tensorOf_array (a := .floats p t) hp trivial c

theorem tensorOf_flattenState (hp : w.settings.tensorPrecision w.wide = .ok p)
    (h : w.IsFreeState d p n s) (c : Bool) :
    w.tensorOf (.array c (.ofNumbers p (flattenState s))) = .ok (flattenState s) := by
  have hkept := Dag.isKept_flattenState h
  rw [hkept.ofNumbers, tensorOf_floats hp, hkept.map_constant]

theorem run_unflatten_flattenState (hnodup : d.nodes.Nodup) (hpos : 0 < d.flatSize w)
    (hp : w.settings.tensorPrecision w.wide = .ok p) (h : w.IsFreeState d p n s) (c : Bool) :
    (unflatten d (.array c (.ofNumbers p (flattenState s)))).run w = (.ok (sortState s), w) := by
  have hshape := Dag.shape_flattenState hnodup h
  have hsize : (flattenState s).shape.size / d.flatSize w = n := by
    rw [hshape, Shape.size_cons, Shape.size_nil, Nat.mul_one, Nat.mul_div_cancel n hpos]
  have hflat : d.IsFlat w (flattenState s) := ⟨_, hshape, Nat.dvd_mul_left _ n⟩
  rw [(run_unflatten (tensorOf_flattenState hp h c) hpos).1 hflat, hsize]
  exact congrArg (fun r => (Except.ok r, w)) (cut_flatMap (Dag.forall₂_layout hnodup h))

theorem flattenState_cut {t : Tensor Number} (h : d.IsFlat w t) :
    flattenState (cut (t.shape.size / d.flatSize w) (d.layout w) t.toList) = t := by
  rcases h with ⟨m, hshape, hdvd⟩
  have hsize : t.shape.size = m := by
    rw [hshape, Shape.size_cons, Shape.size_nil, Nat.mul_one]
  have hlength : t.toList.length =
      t.shape.size / d.flatSize w * ((d.layout w).map Prod.snd).sum := by
    rw [Tensor.length_toList, Dag.sum_layout, hsize, Nat.div_mul_cancel hdvd]
  have hsorted := Dag.pairwise_layout d w
  rw [← map_fst_cut (t.shape.size / d.flatSize w) (d.layout w) t.toList] at hsorted
  unfold flattenState
  rw [sortState_of_pairwise hsorted, flatMap_cut hlength, Tensor.vector_toList hshape]

/-- For a graph with variables, flattening and restoring are inverse to each other: a free
state is restored from its flat vector, with its tensors by ascending number, and a vector
that is accepted is what the restored free state is flattened to.  Accepted are the vectors
with as many entries as some number of chains needs. -/
theorem unflatten_flatten (o : Workspace) (h : o.Reached fun _ _ => True)
    (before : List Change) (u : Workspace) (starts : List NodeId) (d : Dag)
    (hcompile : u.compile starts = .ok d) (hne : d.latents (o.later before) ≠ [])
    (p : Precision)
    (hp : (o.later before).settings.tensorPrecision (o.later before).wide = .ok p) :
    (forall n s c, (o.later before).IsFreeState d p n s ->
      ∃ r, (unflatten d (.array c (.ofNumbers p (flattenState s)))).run (o.later before) =
        (.ok r, o.later before) ∧ r.Perm s) ∧
    (forall c t r v, (forall x, x ∈ t.toList -> p.round x = x) ->
      (unflatten d (.array c (.floats p t))).run (o.later before) = (.ok r, v) ->
        NumericArray.ofNumbers p (flattenState r) = .floats p t) ∧
    forall x, ((∃ r, (unflatten d x).run (o.later before) = (.ok r, o.later before)) ↔
        ∃ t, (o.later before).tensorOf x = .ok t ∧ d.IsFlat (o.later before) t) ∧
      forall t, (o.later before).tensorOf x = .ok t -> ¬d.IsFlat (o.later before) t ->
        (unflatten d x).run (o.later before) =
          (.error (.invalid (.flatLength t.shape.size)), o.later before) := by
  have hfree : (o.later before).HasFreeEntries :=
    (serves_later o before).same.hasFreeEntries (hasFreeEntries_of_reached h)
  generalize o.later before = w at hne hp hfree ⊢
  have hnodup : d.nodes.Nodup := (sorts_of_compile hcompile).nodup
  have hpos : 0 < d.flatSize w := Dag.flatSize_pos hfree hne
  refine ⟨?_, ?_, ?_⟩
  · intro n s c hs
    exact ⟨_, run_unflatten_flattenState hnodup hpos hp hs c, sortState_perm s⟩
  · intro c t r v hround hrun
    have hread := tensorOf_floats hp c t
    by_cases hflat : d.IsFlat w (t.map (Scalar.constant p))
    · rw [(run_unflatten hread hpos).1 hflat] at hrun
      cases hrun
      rw [flattenState_cut hflat, (Tensor.isKept_map_constant hround).ofNumbers,
        Tensor.map_value_constant hround]
    · rw [(run_unflatten hread hpos).2 hflat] at hrun
      cases hrun
  · intro x
    constructor
    · constructor
      · rintro ⟨r, hrun⟩
        cases hread : w.tensorOf (α := Number) x with
        | error f =>
            rw [run_unflatten_refused hread] at hrun
            cases hrun
        | ok t =>
            refine ⟨t, rfl, ?_⟩
            by_contra hnot
            rw [(run_unflatten hread hpos).2 hnot] at hrun
            cases hrun
      · rintro ⟨t, hread, hflat⟩
        exact ⟨_, (run_unflatten hread hpos).1 hflat⟩
    · intro t hread hnot
      exact (run_unflatten hread hpos).2 hnot

/-!
Two variables of different sizes are added.  Their free state has three chains and is listed
by descending number.
-/

def summed : Workspace :=
  [.latent (.float 0.0) (.float 1.0) (.tuple [.int 1, .int 2]) .none,
    .latent (.float 0.0) (.float 1.0) (.tuple [.int 1, .int 1]) .none,
    .binary .add (.node 1) (.node 0)].foldl after (empty { floatType := .text "float64" } true)

def summedDag : Dag :=
  ⟨[0, 1, 2], [(1, 2), (0, 2)]⟩

theorem compile_summed : summed.compile [2] = .ok summedDag :=
  compile_eq [0, 1, 2] rfl (component_of_visitWithin? 16 (by decide +kernel)) (by decide +kernel)
    (by decide +kernel) (by decide) (by decide +kernel) (by decide +kernel)

def threeChains : List (Int × Tensor Number) :=
  [(1, Tensor.full [3, 1] ⟨0.5, .double⟩), (0, Tensor.full [3, 2] ⟨-2.0, .double⟩)]

theorem isFreeState_threeChains : summed.IsFreeState summedDag .double 3 threeChains where
  nodup := by decide
  keys := by
    have hlatents : summedDag.latents summed = [0, 1] := by decide +kernel
    intro k
    rw [hlatents]
    simp [threeChains, or_comm]
  shape := by
    have hzero : summed.freeSize 0 = 2 := by decide +kernel
    have hone : summed.freeSize 1 = 1 := by decide +kernel
    intro id t hmem
    simp only [threeChains, List.mem_cons, List.not_mem_nil, or_false, Prod.mk.injEq] at hmem
    rcases hmem with ⟨hid, rfl⟩ | ⟨hid, rfl⟩
    · rw [Int.ofNat_inj.mp hid, hone]
      rfl
    · rw [Int.ofNat_inj.mp hid, hzero]
      rfl
  kept := by
    intro k t hmem x hx
    simp only [threeChains, List.mem_cons, List.not_mem_nil, or_false, Prod.mk.injEq] at hmem
    rcases hmem with ⟨_, rfl⟩ | ⟨_, rfl⟩
    · rcases Tensor.mem_toList_ofFn hx with ⟨_, _, rfl⟩
      exact ⟨rfl, rfl⟩
    · rcases Tensor.mem_toList_ofFn hx with ⟨_, _, rfl⟩
      exact ⟨rfl, rfl⟩

theorem not_isFlat_summed :
    ¬summedDag.IsFlat summed ((Tensor.full [4] 0.0).map (Scalar.constant .double)) := by
  have hsize : summedDag.flatSize summed = 3 := by decide +kernel
  rintro ⟨m, hshape, hdvd⟩
  have hm : 4 = m := (List.cons.inj hshape).1
  rw [hsize, ← hm] at hdvd
  exact absurd hdvd (by decide)

/-- The free state is restored, and a vector with four entries is refused. -/
theorem unflatten_flatten_summed :
    (∃ r, (unflatten summedDag
        (.array true (.ofNumbers .double (flattenState threeChains)))).run summed =
      (.ok r, summed) ∧ r.Perm threeChains) ∧
    (unflatten summedDag (.array false (.floats .double (Tensor.full [4] 0.0)))).run summed =
      (.error (.invalid (.flatLength 4)), summed) := by
  have hreached : summed.Reached fun _ _ => True := reached_foldl (.empty _ true)
  have hprecision : summed.settings.tensorPrecision summed.wide = .ok .double := by
    decide +kernel
  have hall := unflatten_flatten summed hreached [] summed [2] summedDag compile_summed
  rw [later_nil] at hall
  rcases hall (by decide +kernel) .double hprecision with ⟨hrestored, _, haccepted⟩
  refine ⟨hrestored 3 threeChains true isFreeState_threeChains, ?_⟩
  exact (haccepted _).2 _ (tensorOf_floats hprecision false _) not_isFlat_summed

end Action
end DensityGraph
