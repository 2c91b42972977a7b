import Mathlib.Data.List.Sort
import DensityGraph.Tensor.Batch
/-!
# Batch sizes in any order

Arguments are brought to one batch size by the sizes that occur among them.  In what order
they occur is of no importance.
-/

namespace DensityGraph
namespace Batched

theorem nodup_eraseDups {α : Type} [BEq α] [LawfulBEq α] (l : List α) : l.eraseDups.Nodup := by
  generalize hlength : l.length = n
  induction n using Nat.strongRecOn generalizing l with
  | ind n ih =>
      cases l with
      | nil => exact List.nodup_nil
      | cons m l =>
          rw [List.eraseDups_cons, List.nodup_cons, List.mem_eraseDups]
          constructor
          · simp
          · apply ih _ _ _ rfl
            rw [← hlength, List.length_cons]
            exact Nat.lt_succ_of_le (List.length_filter_le _ l)

theorem mergeSort_eq_of_perm {l l' : List Nat} (h : l.Perm l') :
    l.mergeSort (· ≤ ·) = l'.mergeSort (· ≤ ·) := by
  apply List.Perm.eq_of_sortedLE List.sortedLE_mergeSort List.sortedLE_mergeSort
  exact (List.mergeSort_perm l _).trans (h.trans (List.mergeSort_perm l' _).symm)

variable {τ : Type} [Batched τ] {args args' : List τ} {n : Nat}

theorem mem_sizes : n ∈ sizes args ↔ n ≠ 1 ∧ ∃ a, a ∈ args ∧ batch? a = some n := by
  unfold sizes
  rw [List.mem_mergeSort, List.mem_eraseDups, List.mem_filter, List.mem_filterMap]
  constructor
  · rintro ⟨hexists, hne⟩
    exact ⟨by simpa using hne, hexists⟩
  · rintro ⟨hne, hexists⟩
    exact ⟨hexists, by simpa using hne⟩

theorem sizes_congr (h : (args.filterMap batch?).Perm (args'.filterMap batch?)) :
    sizes args = sizes args' := by
  apply mergeSort_eq_of_perm
  rw [List.perm_ext_iff_of_nodup (nodup_eraseDups _) (nodup_eraseDups _)]
  intro n
  rw [List.mem_eraseDups, List.mem_eraseDups]
  exact (h.filter _).mem_iff

theorem reconcile_congr (h : sizes args = sizes args') :
    (∃ g : τ → τ, (g = id ∨ ∃ n, g = toRows n) ∧ reconcile args = .ok (args.map g) ∧
      reconcile args' = .ok (args'.map g)) ∨
      ∃ ns, reconcile args = .error ns ∧ reconcile args' = .error ns := by
  unfold reconcile
  rw [← h]
  split
  · left
    exact ⟨id, Or.inl rfl, by rw [List.map_id], by rw [List.map_id]⟩
  · rename_i n _
    exact Or.inl ⟨toRows n, Or.inr ⟨n, rfl⟩, rfl, rfl⟩
  · exact Or.inr ⟨_, rfl, rfl⟩

theorem exists_of_reconcile {ys : List τ} (h : reconcile args = .ok ys) :
    (ys = args ∧ forall a, a ∈ args -> forall m, batch? a = some m -> m = 1) ∨
      ∃ n, n ≠ 1 ∧ (∃ a, a ∈ args ∧ batch? a = some n) ∧ ys = args.map (toRows n) ∧
        forall a, a ∈ args -> forall m, batch? a = some m -> m = 1 ∨ m = n := by
  have hall : forall a m, a ∈ args -> batch? a = some m -> m = 1 ∨ m ∈ sizes args := by
    intro a m ha hm
    by_cases hone : m = 1
    · exact Or.inl hone
    · exact Or.inr (mem_sizes.mpr ⟨hone, a, ha, hm⟩)
  unfold reconcile at h
  split at h
  · rename_i hsizes
    cases h
    left
    refine ⟨rfl, ?_⟩
    intro a ha m hm
    have hmem := hall a m ha hm
    rw [hsizes] at hmem
    exact hmem.resolve_right List.not_mem_nil
  · rename_i n hsizes
    cases h
    right
    have hn : n ∈ sizes args := by
      rw [hsizes]
      exact List.mem_singleton.mpr rfl
    rcases mem_sizes.mp hn with ⟨hne, hexists⟩
    refine ⟨n, hne, hexists, rfl, ?_⟩
    intro a ha m hm
    have hmem := hall a m ha hm
    rwa [hsizes, List.mem_singleton] at hmem
  · cases h

/-!
# Arguments that are joined by others

Whether arguments can be matched depends on the sizes alone that are not one.  Matched
arguments agree, so that they can be matched again, and further arguments can only add a
clash.
-/

/-- All batch axes have one size. -/
def Agree (args : List τ) : Prop :=
  ∃ k, forall a, a ∈ args -> forall m, batch? a = some m -> m = k

/-- Two batch sizes other than one occur. -/
def Clash (args : List τ) : Prop :=
  ∃ m n, m ≠ n ∧ (m ≠ 1 ∧ ∃ a, a ∈ args ∧ batch? a = some m) ∧
    n ≠ 1 ∧ ∃ a, a ∈ args ∧ batch? a = some n

theorem clash_iff : Clash args ↔ ∃ m n, m ≠ n ∧ m ∈ sizes args ∧ n ∈ sizes args := by
  unfold Clash
  simp only [mem_sizes]

theorem nodup_sizes (args : List τ) : (sizes args).Nodup :=
  ((List.mergeSort_perm _ _).nodup_iff).mpr (nodup_eraseDups _)

theorem mem_sizes_append {zs : List τ} :
    n ∈ sizes (args ++ zs) ↔ n ∈ sizes args ∨ n ∈ sizes zs := by
  simp only [mem_sizes, List.mem_append, or_and_right, exists_or, and_or_left]

theorem sizes_eq_singleton (hne : n ≠ 1) (hmem : ∃ a, a ∈ args ∧ batch? a = some n)
    (hall : forall a, a ∈ args -> forall m, batch? a = some m -> m = 1 ∨ m = n) :
    sizes args = [n] := by
  apply List.perm_singleton.mp
  rw [List.perm_ext_iff_of_nodup (nodup_sizes args) (List.nodup_singleton n)]
  intro m
  rw [mem_sizes, List.mem_singleton]
  constructor
  · rintro ⟨hone, a, ha, hm⟩
    exact (hall a ha m hm).resolve_left hone
  · rintro rfl
    exact ⟨hne, hmem⟩

theorem eq_sizes_of_error {ns : List Nat} (h : reconcile args = .error ns) :
    ns = sizes args := by
  unfold reconcile at h
  split at h
  · cases h
  · cases h
  · cases h
    rfl

theorem exists_error_iff : (∃ ns, reconcile args = .error ns) ↔ Clash args := by
  rw [clash_iff]
  have hnodup := nodup_sizes args
  unfold reconcile
  split
  · rename_i hsizes
    rw [hsizes]
    simp
  · rename_i k hsizes
    rw [hsizes]
    constructor
    · rintro ⟨ns, hns⟩
      cases hns
    · rintro ⟨m, n, hne, hm, hn⟩
      exact absurd ((List.mem_singleton.mp hm).trans (List.mem_singleton.mp hn).symm) hne
  · rename_i hnil hsingle
    refine ⟨fun _ => ?_, fun _ => ⟨_, rfl⟩⟩
    rcases hsizes : sizes args with _ | ⟨m, _ | ⟨n, ns⟩⟩
    · exact absurd hsizes hnil
    · exact absurd hsizes (hsingle m)
    · rw [hsizes, List.nodup_cons] at hnodup
      refine ⟨m, n, ?_, List.mem_cons_self, List.mem_cons_of_mem m List.mem_cons_self⟩
      rintro rfl
      exact hnodup.1 List.mem_cons_self

theorem reconcile_of_agree (h : Agree args) : reconcile args = .ok args := by
  rcases h with ⟨k, hk⟩
  by_cases hmem : k ≠ 1 ∧ ∃ a, a ∈ args ∧ batch? a = some k
  · have hsizes : sizes args = [k] :=
      sizes_eq_singleton hmem.1 hmem.2 fun a ha m hm => Or.inr (hk a ha m hm)
    have hsame : forall a, a ∈ args -> toRows k a = a := by
      intro a ha
      apply if_neg
      intro hone
      exact hmem.1 (hk a ha 1 hone).symm
    simp only [reconcile, hsizes]
    rw [List.map_congr_left hsame, List.map_id']
  · have hsizes : sizes args = [] := by
      rw [List.eq_nil_iff_forall_not_mem]
      intro m hm
      rcases mem_sizes.mp hm with ⟨hone, a, ha, hsize⟩
      obtain rfl := hk a ha m hsize
      exact hmem ⟨hone, a, ha, hsize⟩
    simp only [reconcile, hsizes]

theorem reconcile_singleton (a : τ) : reconcile [a] = .ok [a] := by
  apply reconcile_of_agree
  refine ⟨(batch? a).getD 1, ?_⟩
  intro b hb m hm
  rw [List.mem_singleton] at hb
  rw [← hb, hm, Option.getD_some]

section Append

variable {xs ys zs : List τ}
  (hrepeat : forall (a : τ) (n : Nat), batch? a = some 1 -> batch? (repeatRows n a) = some n)

include hrepeat

theorem batch?_toRows {a : τ} (ha : forall m, batch? a = some m -> m = 1 ∨ m = n) {m : Nat}
    (hm : batch? (toRows n a) = some m) : m = n := by
  unfold toRows at hm
  split at hm
  · rename_i hone
    rw [hrepeat a n hone, Option.some.injEq] at hm
    exact hm.symm
  · rename_i hone
    rcases ha m hm with rfl | hmn
    · exact absurd hm hone
    · exact hmn

theorem agree_of_reconcile (h : reconcile xs = .ok ys) : Agree ys := by
  rcases exists_of_reconcile h with ⟨rfl, hone⟩ | ⟨n, _, _, rfl, hall⟩
  · exact ⟨1, hone⟩
  · refine ⟨n, ?_⟩
    intro b hb m hm
    rcases List.mem_map.mp hb with ⟨a, ha, rfl⟩
    exact batch?_toRows hrepeat (hall a ha) hm

theorem mem_sizes_of_reconcile (h : reconcile xs = .ok ys) :
    n ∈ sizes ys ↔ n ∈ sizes xs := by
  rcases exists_of_reconcile h with ⟨rfl, _⟩ | ⟨k, hk, ⟨a, ha, hak⟩, rfl, hall⟩
  · rfl
  · have hkept : toRows k a = a := by
      apply if_neg
      rw [hak, Option.some.injEq]
      exact hk
    rw [sizes_eq_singleton hk ⟨a, ha, hak⟩ hall]
    rw [sizes_eq_singleton hk ⟨a, List.mem_map.mpr ⟨a, ha, hkept⟩, hak⟩]
    intro b hb m hm
    rcases List.mem_map.mp hb with ⟨c, hc, rfl⟩
    exact Or.inr (batch?_toRows hrepeat (hall c hc) hm)

/-- Others that join arguments make no difference, and stay as they are, exactly if they
agree with the matched arguments. -/
theorem reconcile_append_iff (h : reconcile xs = .ok ys) :
    reconcile (xs ++ zs) = .ok (ys ++ zs) ↔ Agree (ys ++ zs) := by
  constructor
  · exact agree_of_reconcile hrepeat
  · intro hagree
    rcases exists_of_reconcile h with ⟨rfl, _⟩ | ⟨n, hn, ⟨a, ha, han⟩, rfl, hall⟩
    · exact reconcile_of_agree hagree
    · rcases hagree with ⟨k, hk⟩
      have hkept : toRows n a = a := by
        apply if_neg
        rw [han, Option.some.injEq]
        exact hn
      have hnk : n = k :=
        hk a (List.mem_append_left zs (List.mem_map.mpr ⟨a, ha, hkept⟩)) n han
      have hzs : forall z, z ∈ zs -> forall m, batch? z = some m -> m = n := by
        intro z hz m hm
        rw [hnk]
        exact hk z (List.mem_append_right _ hz) m hm
      have hsizes : sizes (xs ++ zs) = [n] := by
        apply sizes_eq_singleton hn ⟨a, List.mem_append_left zs ha, han⟩
        intro b hb m hm
        rcases List.mem_append.mp hb with hb | hb
        · exact hall b hb m hm
        · exact Or.inr (hzs b hb m hm)
      have hsame : forall z, z ∈ zs -> toRows n z = z := by
        intro z hz
        apply if_neg
        intro hone
        exact hn (hzs z hz 1 hone).symm
      simp only [reconcile, hsizes]
      rw [List.map_append, List.map_congr_left hsame, List.map_id']

/-- Others that join arguments cannot be matched with them exactly if a size among them
clashes. -/
theorem exists_error_append_iff (h : reconcile xs = .ok ys) :
    (∃ ns, reconcile (xs ++ zs) = .error ns) ↔ Clash (ys ++ zs) := by
  rw [exists_error_iff, clash_iff, clash_iff]
  simp only [mem_sizes_append, mem_sizes_of_reconcile hrepeat h]

end Append

theorem exists_error_append {xs zs : List τ} {ns : List Nat} (h : reconcile xs = .error ns) :
    ∃ ns', reconcile (xs ++ zs) = .error ns' ∧ ns ⊆ ns' := by
  rcases clash_iff.mp (exists_error_iff.mp ⟨ns, h⟩) with ⟨m, n, hne, hm, hn⟩
  have hclash : Clash (xs ++ zs) :=
    clash_iff.mpr ⟨m, n, hne, mem_sizes_append.mpr (Or.inl hm),
      mem_sizes_append.mpr (Or.inl hn)⟩
  rcases exists_error_iff.mpr hclash with ⟨ns', hns'⟩
  refine ⟨ns', hns', ?_⟩
  rw [eq_sizes_of_error h, eq_sizes_of_error hns']
  intro k hk
  exact mem_sizes_append.mpr (Or.inl hk)

end Batched
end DensityGraph
