import Mathlib.Data.List.Perm.Basic
import DensityGraph.Proofs.Evaluation.Reading
import DensityGraph.Proofs.Tensor.Batch
/-!
# Totals

The joint density is the sum of its terms, chain by chain, and a term of a single row counts
for every chain.  Where scalars are added exactly, the terms may come in any order.
-/

namespace DensityGraph

variable {α : Type} [Scalar α]

/-- Scalars that are added exactly, so that sums can be taken in any order. -/
class Scalar.Exact (α : Type) [Scalar α] : Prop where
  add_comm : forall x y : α, x + y = y + x
  add_assoc : forall x y z : α, x + y + z = x + (y + z)
  constant_zero : forall p, Scalar.constant p 0.0 = (Scalar.zero : α)

theorem Scalar.sum_perm [Scalar.Exact α] {xs ys : List α} (h : xs.Perm ys) :
    Scalar.sum xs = Scalar.sum ys := by
  have hcomm : RightCommutative fun x y : α => x + y := by
    constructor
    intro x y z
    calc
      x + y + z = x + (y + z) := Scalar.Exact.add_assoc x y z
      _ = x + (z + y) := by rw [Scalar.Exact.add_comm y z]
      _ = x + z + y := (Scalar.Exact.add_assoc x z y).symm
  exact h.foldl_eq Scalar.zero

namespace Tensor

/-- The sum of some terms, those of a single row being repeated for all chains.  The sum has
more than one row only if a term has, and without terms it is zero for a single chain. -/
structure IsTotal (terms : List (Tensor α)) (t : Tensor α) : Prop where
  nonempty : terms = [] -> t.shape = [1]
  batch : terms = [] ∨ t.shape.headD 1 = 1 ∨ ∃ u, u ∈ terms ∧ u.shape = t.shape
  shape : forall u, u ∈ terms -> (u.matched (t.shape.headD 1)).shape = t.shape
  get : forall index, t.shape.Within index ->
    t.get index = Scalar.sum (terms.map fun u => (u.matched (t.shape.headD 1)).get index)

variable {t : Tensor α} {ts us : List (Tensor α)}

theorem IsTotal.perm [Scalar.Exact α] (h : IsTotal ts t) (hperm : ts.Perm us) :
    IsTotal us t where
  nonempty hus := by
    rw [hus] at hperm
    exact h.nonempty hperm.eq_nil
  batch := by
    rcases h.batch with hempty | hone | ⟨u, hu, hshape⟩
    · rw [hempty] at hperm
      exact Or.inl hperm.nil_eq.symm
    · exact Or.inr (Or.inl hone)
    · exact Or.inr (Or.inr ⟨u, hperm.mem_iff.mp hu, hshape⟩)
  shape u hu := h.shape u (hperm.mem_iff.mpr hu)
  get index hindex := (h.get index hindex).trans (Scalar.sum_perm (hperm.map _))

theorem sumOf_perm [Scalar.Exact α] (s : Shape) (h : ts.Perm us) : sumOf s ts = sumOf s us := by
  apply ofFn_congr
  intro index _
  exact Scalar.sum_perm (h.map _)

theorem toRows_tensor (n : Nat) (u : Tensor α) :
    Batched.toRows n (Argument.tensor u) = Argument.tensor (u.matched n) := by
  unfold Batched.toRows matched
  exact (apply_ite Argument.tensor _ _ _).symm

end Tensor

/-!
# Sums of terms

Terms can be added up if they have `n` rows or a single one.  The sum has `n` entries then,
in whatever order the terms come.
-/

namespace Environment

variable {zero t : Tensor α} {ts us : List (Tensor α)} {args : List (Argument α)}

theorem sumTerms_ok_iff (hargs : Batched.reconciled args = .ok (ts.map Argument.tensor)) :
    sumTerms zero args = .ok t ↔ (ts = [] ∧ t = zero) ∨
      (ts ≠ [] ∧ (forall u, u ∈ ts -> u.shape = t.shape) ∧ t = Tensor.sumOf t.shape ts) := by
  have htensors : (ts.map Argument.tensor).mapM (fun a => Refusal.lift a.toTensor) = .ok ts := by
    rw [mapM_eq_ok_iff, List.forall₂_map_left_iff, List.forall₂_same]
    intro u _
    rfl
  unfold sumTerms
  rw [hargs]
  change ((ts.map Argument.tensor).mapM (fun a => Refusal.lift a.toTensor) >>= _) = _ ↔ _
  rw [htensors]
  cases ts with
  | nil =>
      constructor
      · rintro ⟨⟩
        exact Or.inl ⟨rfl, rfl⟩
      · rintro (⟨_, rfl⟩ | ⟨hne, _⟩)
        · rfl
        · exact absurd rfl hne
  | cons u us =>
      change (if us.any fun v => v.shape ≠ u.shape then Except.error (.refused .value)
        else pure (Tensor.sumOf u.shape (u :: us)) : Except Failure (Tensor α)) = _ ↔ _
      by_cases hsame : forall v, v ∈ us -> v.shape = u.shape
      · have hany : (us.any fun v => v.shape ≠ u.shape) = false := by
          rw [List.any_eq_false]
          intro v hv
          simp [hsame v hv]
        rw [hany]
        constructor
        · rintro ⟨⟩
          refine Or.inr ⟨List.cons_ne_nil u us, ?_, rfl⟩
          intro v hv
          rcases List.mem_cons.mp hv with rfl | hv
          · rfl
          · exact hsame v hv
        · rintro (⟨hnil, _⟩ | ⟨_, hshape, ht⟩)
          · cases hnil
          · rw [ht, ← hshape u List.mem_cons_self]
            rfl
      · have hany : (us.any fun v => v.shape ≠ u.shape) = true := by
          simpa using hsame
        rw [hany]
        constructor
        · rintro ⟨⟩
        · rintro (⟨hnil, _⟩ | ⟨_, hshape, _⟩)
          · cases hnil
          · refine absurd ?_ hsame
            intro v hv
            rw [hshape v (List.mem_cons_of_mem u hv), hshape u List.mem_cons_self]

theorem map_matched_one (h : forall u, u ∈ ts -> forall m, u.shape.head? = some m -> m = 1) :
    ts.map (Tensor.matched 1) = ts := by
  rw [List.map_congr_left, List.map_id]
  intro u hu
  cases hshape : u.shape with
  | nil =>
      unfold Tensor.matched
      rw [hshape]
      rfl
  | cons m s =>
      have hone : m = 1 := h u hu m (by rw [hshape, List.head?_cons])
      rw [hone] at hshape
      exact Tensor.matched_self hshape

structure HaveRows (n : Nat) (ts : List (Tensor α)) : Prop where
  full : n = 1 ∨ ∃ u, u ∈ ts ∧ u.shape.head? = some n
  single : forall u, u ∈ ts -> forall m, u.shape.head? = some m -> m = 1 ∨ m = n

omit [Scalar α] in
theorem HaveRows.perm {n : Nat} (h : HaveRows n ts) (hperm : ts.Perm us) : HaveRows n us where
  full := by
    rcases h.full with hone | ⟨u, hu, hfull⟩
    · exact Or.inl hone
    · exact Or.inr ⟨u, hperm.mem_iff.mp hu, hfull⟩
  single u hu := h.single u (hperm.mem_iff.mpr hu)

theorem HaveRows.reconciled {n : Nat} (h : HaveRows n ts) :
    Batched.reconciled (ts.map Argument.tensor) =
      .ok ((ts.map (Tensor.matched n)).map Argument.tensor) := by
  have hsizes : forall a, a ∈ ts.map Argument.tensor -> forall m, Batched.batch? a = some m ->
      m = 1 ∨ m = n := by
    intro a ha m hm
    rcases List.mem_map.mp ha with ⟨u, hu, rfl⟩
    exact h.single u hu m hm
  unfold Batched.reconciled Batched.reconcile
  rcases Batched.sizes_eq hsizes with ⟨_, _, heq⟩ | ⟨hone, heq⟩
  · rw [heq]
    change Except.ok ((ts.map Argument.tensor).map (Batched.toRows n)) = _
    rw [List.map_map, List.map_map]
    exact congrArg Except.ok (List.map_congr_left fun u _ => Tensor.toRows_tensor n u)
  · have hsingle : forall u, u ∈ ts -> forall m, u.shape.head? = some m -> m = 1 :=
      fun u hu => hone _ (List.mem_map.mpr ⟨u, hu, rfl⟩)
    have hn : n = 1 := by
      rcases h.full with hn | ⟨u, hu, hfull⟩
      · exact hn
      · exact hsingle u hu n hfull
    rw [heq, hn, map_matched_one hsingle]

theorem exists_haveRows (h : sumTerms zero (ts.map Argument.tensor) = .ok t) :
    ∃ n, HaveRows n ts := by
  cases hargs : Batched.reconcile (ts.map Argument.tensor) with
  | error sizes =>
      unfold sumTerms Batched.reconciled at h
      rw [hargs] at h
      cases h
  | ok ys =>
      rcases Batched.exists_of_reconcile hargs with ⟨_, hone⟩ | ⟨n, _, hfull, _, hall⟩
      · exact ⟨1, Or.inl rfl, fun u hu m hm =>
          Or.inl (hone _ (List.mem_map.mpr ⟨u, hu, rfl⟩) m hm)⟩
      · rcases hfull with ⟨a, ha, hn⟩
        rcases List.mem_map.mp ha with ⟨u, hu, rfl⟩
        exact ⟨n, Or.inr ⟨u, hu, hn⟩, fun u hu => hall _ (List.mem_map.mpr ⟨u, hu, rfl⟩)⟩

theorem head?_matched {u : Tensor α} {m n : Nat} (h : u.shape.head? = some m)
    (hm : m = 1 ∨ m = n) : (u.matched n).shape.head? = some n := by
  rcases List.head?_eq_some_iff.mp h with ⟨s, hs⟩
  rcases hm with rfl | rfl
  · rw [Tensor.matched_single hs, Tensor.shape_repeatRows hs, List.head?_cons]
  · rw [Tensor.matched_self hs, h]

theorem HaveRows.headD_matched {n : Nat} {s : Shape} (h : HaveRows n ts) (hne : ts ≠ [])
    (hshapes : forall u, u ∈ ts -> (u.matched n).shape = s) :
    s.headD 1 = n := by
  have hhead : forall u, u ∈ ts -> forall m, u.shape.head? = some m -> s.headD 1 = n := by
    intro u hu m hm
    have hs := head?_matched hm (h.single u hu m hm)
    rw [hshapes u hu] at hs
    rw [List.headD_eq_head?_getD, hs]
    rfl
  rcases h.full with rfl | ⟨u, hu, hfull⟩
  · rcases List.exists_mem_of_ne_nil _ hne with ⟨u, hu⟩
    cases hu' : u.shape with
    | nil =>
        have hself : u.matched 1 = u := by
          unfold Tensor.matched
          rw [hu']
          rfl
        rw [← hshapes u hu, hself, hu']
        rfl
    | cons m r => exact hhead u hu m (by rw [hu', List.head?_cons])
  · exact hhead u hu n hfull

theorem isTotal_of_sumTerms [Scalar.Exact α] {p : Precision}
    (h : sumTerms (Tensor.full [1] (Scalar.constant p 0.0)) (ts.map Argument.tensor) = .ok t) :
    Tensor.IsTotal ts t := by
  rcases exists_haveRows h with ⟨n, hn⟩
  rcases (sumTerms_ok_iff hn.reconciled).mp h with ⟨hempty, rfl⟩ | ⟨hne, hshape, ht⟩
  · rw [List.map_eq_nil_iff] at hempty
    subst hempty
    refine ⟨fun _ => rfl, Or.inl rfl, nofun, ?_⟩
    intro index hindex
    exact (Tensor.get_ofFn _ hindex).trans (Scalar.Exact.constant_zero p)
  · have hshapes : forall u, u ∈ ts -> (u.matched n).shape = t.shape :=
      fun u hu => hshape _ (List.mem_map.mpr ⟨u, hu, rfl⟩)
    have hrows : t.shape.headD 1 = n :=
      hn.headD_matched (fun hnil => hne (List.map_eq_nil_iff.mpr hnil)) hshapes
    refine ⟨fun hnil => absurd (List.map_eq_nil_iff.mpr hnil) hne, Or.inr ?_, ?_, ?_⟩
    · rcases hn.full with rfl | ⟨u, hu, hfull⟩
      · exact Or.inl hrows
      · right
        rcases List.head?_eq_some_iff.mp hfull with ⟨s, hs⟩
        refine ⟨u, hu, ?_⟩
        rw [← hshapes u hu, Tensor.matched_self hs]
    · rw [hrows]
      exact hshapes
    · intro index hindex
      rw [hrows, ht]
      rw [ht] at hindex
      exact (Tensor.get_ofFn _ hindex).trans (by rw [List.map_map]; rfl)

theorem sumTerms_perm [Scalar.Exact α] (h : ts.Perm us) :
    (sumTerms zero (ts.map Argument.tensor)).toOption =
      (sumTerms zero (us.map Argument.tensor)).toOption := by
  have hok : forall {ts us : List (Tensor α)} {t : Tensor α}, ts.Perm us ->
      sumTerms zero (ts.map Argument.tensor) = .ok t ->
        sumTerms zero (us.map Argument.tensor) = .ok t := by
    intro ts us t hperm hsum
    rcases exists_haveRows hsum with ⟨n, hn⟩
    have hmatched : (ts.map (Tensor.matched n)).Perm (us.map (Tensor.matched n)) :=
      hperm.map _
    rw [sumTerms_ok_iff hn.reconciled] at hsum
    rw [sumTerms_ok_iff (hn.perm hperm).reconciled]
    rcases hsum with ⟨hnil, ht⟩ | ⟨hne, hshape, ht⟩
    · rw [hnil] at hmatched
      exact Or.inl ⟨hmatched.nil_eq.symm, ht⟩
    · refine Or.inr ⟨?_, fun u hu => hshape u (hmatched.mem_iff.mpr hu), ?_⟩
      · intro hnil
        rw [hnil] at hmatched
        exact hne hmatched.eq_nil
      · rw [← Tensor.sumOf_perm _ hmatched]
        exact ht
  cases hts : sumTerms zero (ts.map Argument.tensor) with
  | ok t => rw [hok h hts]
  | error f =>
      cases hus : sumTerms zero (us.map Argument.tensor) with
      | error f => rfl
      | ok t =>
          rw [hok h.symm hus] at hts
          cases hts

end Environment
end DensityGraph
