import Mathlib.Data.List.Forall2
import DensityGraph.Operation.Apply
import DensityGraph.Proofs.Outcome
import DensityGraph.Proofs.Tensor.Broadcast
/-!
# Rows of a batch

The first axis of a tensor is its batch axis.  A row is what the tensor holds at a
position of that axis, and a single row stands for every position.
-/

namespace DensityGraph

section Pairs

variable {β γ : Type} {R : β → γ → Prop} {xs : List β} {ys : List γ}

theorem exists_right_of_forall₂ (h : List.Forall₂ R xs ys) {x : β} (hx : x ∈ xs) :
    ∃ y, y ∈ ys ∧ R x y := by
  rcases List.forall₂_iff_get.mp h with ⟨hlength, hget⟩
  rcases List.getElem_of_mem hx with ⟨j, hj, rfl⟩
  exact ⟨_, List.getElem_mem (hlength ▸ hj), hget j hj (hlength ▸ hj)⟩

theorem exists_left_of_forall₂ (h : List.Forall₂ R xs ys) {y : γ} (hy : y ∈ ys) :
    ∃ x, x ∈ xs ∧ R x y :=
  exists_right_of_forall₂ h.flip hy

theorem mapM_eq_some_iff {f : β → Option γ} :
    xs.mapM f = some ys ↔ List.Forall₂ (fun x y => f x = some y) xs ys := by
  induction xs generalizing ys with
  | nil =>
      rw [List.forall₂_nil_left_iff]
      constructor
      · rintro ⟨⟩
        rfl
      · rintro rfl
        rfl
  | cons x xs ih =>
      rw [List.mapM_cons, List.forall₂_cons_left_iff]
      cases hx : f x with
      | none =>
          constructor
          · rintro ⟨⟩
          · rintro ⟨y, zs, ⟨⟩, _⟩
      | some y =>
          cases hrest : xs.mapM f with
          | none =>
              constructor
              · rintro ⟨⟩
              · rintro ⟨y', zs, _, hzs, _⟩
                rw [ih.mpr hzs] at hrest
                cases hrest
          | some zs =>
              constructor
              · rintro ⟨⟩
                exact ⟨y, zs, rfl, ih.mp hrest, rfl⟩
              · rintro ⟨y', zs', ⟨⟩, hzs, rfl⟩
                rw [ih.mpr hzs] at hrest
                cases hrest
                rfl

theorem mapM_eq_ok_iff {ε : Type} {f : β → Except ε γ} :
    xs.mapM f = .ok ys ↔ List.Forall₂ (fun x y => f x = .ok y) xs ys := by
  rw [← toOption_eq_some, toOption_mapM, mapM_eq_some_iff]
  simp only [toOption_eq_some]

end Pairs

namespace Tensor

variable {α β γ : Type}

theorem ofFn_congr {s : Shape} {f g : List Nat → α}
    (h : forall index, s.Within index -> f index = g index) : ofFn s f = ofFn s g := by
  have heq : (fun k : Fin s.size => f (s.unravel k)) = fun k : Fin s.size => g (s.unravel k) := by
    funext k
    exact h _ (Shape.within_unravel k.isLt)
  unfold ofFn
  simp only [heq]

section Rows

variable [Inhabited α] [Inhabited β] {t : Tensor α} {i k : Nat} {s : Shape}
  {index : List Nat}

theorem shape_row (h : t.shape = k :: s) : (t.row i).shape = s := by
  unfold row
  rw [shape_ofFn, h, List.tail_cons]

theorem get_row (h : t.shape = k :: s) (hindex : s.Within index) :
    (t.row i).get index = t.get (i :: index) := by
  unfold row
  rw [h, List.tail_cons, get_ofFn _ hindex]

theorem row_ofFn (f : List Nat → α) (hi : i < k) :
    (ofFn (k :: s) f).row i = ofFn s fun index => f (i :: index) := by
  unfold row
  rw [shape_ofFn, List.tail_cons]
  apply ofFn_congr
  intro index hindex
  exact get_ofFn f ⟨hi, hindex⟩

theorem row_map (f : α → β) (h : t.shape = k :: s) (hi : i < k) :
    (t.map f).row i = (t.row i).map f := by
  apply ext_get
  · rw [shape_map, shape_row h, shape_row ((shape_map f t).trans h)]
  · intro index hindex
    rw [shape_row ((shape_map f t).trans h)] at hindex
    have hrow : (t.row i).shape.Within index := by
      rw [shape_row h]
      exact hindex
    have hwithin : t.shape.Within (i :: index) := by
      rw [h]
      exact ⟨hi, hindex⟩
    rw [get_row ((shape_map f t).trans h) hindex, get_map f hrow, get_map f hwithin,
      get_row h hindex]

theorem ext_row {u : Tensor α} (h : t.shape = k :: s) (h' : u.shape = k :: s)
    (hrow : forall i, i < k -> t.row i = u.row i) : t = u := by
  apply ext_get (h.trans h'.symm)
  intro index hindex
  rw [h] at hindex
  cases index with
  | nil => exact absurd hindex id
  | cons i index =>
      have heq : (t.row i).get index = (u.row i).get index := by
        rw [hrow i hindex.1]
      rwa [get_row h hindex.2, get_row h' hindex.2] at heq

def chain (t : Tensor α) (i : Nat) : Tensor α :=
  t.row (if t.shape.head? = some 1 then 0 else i)

theorem chain_of_single (h : t.shape = 1 :: s) (i : Nat) : t.chain i = t.row 0 := by
  unfold chain
  rw [h]
  rfl

theorem chain_of_lt (h : t.shape = k :: s) (hi : i < k) : t.chain i = t.row i := by
  unfold chain
  split
  · rename_i hone
    rw [h, List.head?_cons, Option.some.injEq] at hone
    have hzero : i = 0 := by omega
    rw [hzero]
  · rfl

/-!
# Repeated rows
-/

theorem shape_repeatRows (h : t.shape = k :: s) (n : Nat) :
    (t.repeatRows n).shape = n :: s := by
  unfold repeatRows broadcast
  rw [shape_ofFn, h, List.tail_cons]

theorem row_repeatRows (h : t.shape = 1 :: s) {n : Nat} (hi : i < n) :
    (t.repeatRows n).row i = t.row 0 := by
  unfold repeatRows broadcast
  rw [h, List.tail_cons, row_ofFn _ hi]
  unfold row
  rw [h, List.tail_cons]
  apply ofFn_congr
  intro index hindex
  rw [Shape.project_cons (Shape.length_of_within hindex), Shape.project_self hindex]
  rfl

end Rows

end Tensor

/-!
# Matching of rows

Tensors of one row or of `n` rows are brought to `n` rows.  The row that stands for a chain is
the same before and after.
-/

namespace Batched

variable {τ : Type} [Batched τ] {n : Nat} {args : List τ}

theorem eraseDups_of_forall_eq {α : Type} [BEq α] [LawfulBEq α] {a : α} {l : List α}
    (h : forall b, b ∈ l -> b = a) (hne : l ≠ []) : l.eraseDups = [a] := by
  cases l with
  | nil => exact absurd rfl hne
  | cons m l =>
      have hm : m = a := h m List.mem_cons_self
      have hrest : l.filter (fun b => !b == m) = [] := by
        rw [List.filter_eq_nil_iff]
        intro b hb
        rw [hm, h b (List.mem_cons_of_mem m hb)]
        simp
      rw [List.eraseDups_cons, hrest, hm]
      rfl

theorem sizes_eq (h : forall a, a ∈ args -> forall m, batch? a = some m -> m = 1 ∨ m = n) :
    (n ≠ 1 ∧ (∃ a, a ∈ args ∧ batch? a = some n) ∧ sizes args = [n]) ∨
      ((forall a, a ∈ args -> forall m, batch? a = some m -> m = 1) ∧ sizes args = []) := by
  have hlarge : forall m, m ∈ (args.filterMap batch?).filter (· ≠ 1) -> m = n := by
    intro m hm
    rcases List.mem_filter.mp hm with ⟨hmem, hne⟩
    rcases List.mem_filterMap.mp hmem with ⟨a, ha, hbatch⟩
    rcases h a ha m hbatch with hone | hn
    · rw [hone] at hne
      cases hne
    · exact hn
  unfold sizes
  by_cases hempty : (args.filterMap batch?).filter (· ≠ 1) = []
  · right
    constructor
    · intro a ha m hbatch
      have hmem : m ∈ args.filterMap batch? := List.mem_filterMap.mpr ⟨a, ha, hbatch⟩
      have hnot := List.filter_eq_nil_iff.mp hempty m hmem
      simpa using hnot
    · rw [hempty, List.eraseDups_nil, List.mergeSort_nil]
  · left
    rcases List.exists_mem_of_ne_nil _ hempty with ⟨m, hm⟩
    have hmn := hlarge m hm
    rcases List.mem_filter.mp hm with ⟨hmem, hne⟩
    rcases List.mem_filterMap.mp hmem with ⟨a, ha, hbatch⟩
    rw [hmn] at hbatch hne
    refine ⟨by simpa using hne, ⟨a, ha, hbatch⟩, ?_⟩
    rw [eraseDups_of_forall_eq hlarge hempty, List.mergeSort_singleton]

end Batched

namespace Tensor

section Matching

variable {α : Type} {n k : Nat} {d : Shape} {t : Tensor α} {ts : List (Tensor α)}

def HasRows (n : Nat) (d : Shape) (t : Tensor α) : Prop :=
  ∃ k, t.shape = k :: d ∧ (k = 1 ∨ k = n)

/-- The batch size of some tensors together. -/
def batch (n : Nat) (ts : List (Tensor α)) : Nat :=
  if ts.any fun t => t.shape.head? == some n then n else 1

theorem batch_of_mem (ht : t ∈ ts) (h : t.shape.head? = some n) : batch n ts = n := by
  unfold batch
  apply if_pos
  rw [List.any_eq_true]
  exact ⟨t, ht, beq_iff_eq.mpr h⟩

theorem batch_of_single (h : forall t, t ∈ ts -> t.shape.head? = some 1) : batch n ts = 1 := by
  unfold batch
  split
  · rename_i hany
    rcases List.any_eq_true.mp hany with ⟨t, ht, hn⟩
    rw [h t ht] at hn
    exact (Option.some.inj (eq_of_beq hn)).symm
  · rfl

theorem batch_one (ts : List (Tensor α)) : batch 1 ts = 1 := by
  unfold batch
  exact ite_self 1

theorem batch_eq (n : Nat) (ts : List (Tensor α)) :
    (batch n ts = n ∧ ∃ t, t ∈ ts ∧ t.shape.head? = some n) ∨
      (batch n ts = 1 ∧ forall t, t ∈ ts -> t.shape.head? ≠ some n) := by
  by_cases h : ∃ t, t ∈ ts ∧ t.shape.head? = some n
  · left
    rcases h with ⟨t, ht, hn⟩
    exact ⟨batch_of_mem ht hn, t, ht, hn⟩
  · right
    have hnone : forall t, t ∈ ts -> t.shape.head? ≠ some n := fun t ht hn => h ⟨t, ht, hn⟩
    refine ⟨?_, hnone⟩
    unfold batch
    apply if_neg
    intro hany
    rcases List.any_eq_true.mp hany with ⟨t, ht, hn⟩
    exact hnone t ht (eq_of_beq hn)

theorem single_or_matched (h : HasRows n d t) (ht : t ∈ ts) :
    t.shape = 1 :: d ∨ t.shape = batch n ts :: d := by
  rcases h with ⟨k, hs, rfl | rfl⟩
  · exact Or.inl hs
  · right
    rw [batch_of_mem ht, hs]
    rw [hs, List.head?_cons]

variable [Inhabited α]

/-- The tensor with a single row brought to `k` rows. -/
def matched (k : Nat) (t : Tensor α) : Tensor α :=
  if t.shape.head? = some 1 then t.repeatRows k else t

theorem matched_single (h : t.shape = 1 :: d) : matched k t = t.repeatRows k := by
  unfold matched
  rw [h]
  exact if_pos rfl

theorem matched_self (h : t.shape = k :: d) : matched k t = t := by
  unfold matched
  rw [h, List.head?_cons]
  split
  · rename_i hone
    cases hone
    apply ext_row (shape_repeatRows h 1) h
    intro i hi
    have hzero : i = 0 := by omega
    rw [row_repeatRows h hi, hzero]
  · rfl

theorem shape_matched (h : HasRows n d t) (ht : t ∈ ts) :
    (matched (batch n ts) t).shape = batch n ts :: d := by
  rcases single_or_matched h ht with hs | hs
  · rw [matched_single hs]
    exact shape_repeatRows hs _
  · rw [matched_self hs, hs]

theorem row_matched (h : HasRows n d t) (ht : t ∈ ts) {i : Nat} (hi : i < batch n ts) :
    (matched (batch n ts) t).row i = t.chain i := by
  rcases single_or_matched h ht with hs | hs
  · rw [matched_single hs, row_repeatRows hs hi, chain_of_single hs]
  · rw [matched_self hs, chain_of_lt hs hi]

structure IsChain (n i : Nat) (d : Shape) (t u : Tensor α) : Prop where
  rows : HasRows n d t
  shape : u.shape = 1 :: d
  chain : u.chain 0 = t.chain i

theorem IsChain.eq {i : Nat} {u : Tensor α} (h : IsChain n i d t u) (ht : t.shape = 1 :: d) :
    t = u := by
  apply ext_row ht h.shape
  intro j hj
  have hzero : j = 0 := by omega
  have hchain := h.chain
  rw [chain_of_single h.shape, chain_of_single ht] at hchain
  rw [hzero, hchain]

theorem isChain_self {i : Nat} (h : t.shape = 1 :: d) : IsChain n i d t t := by
  refine ⟨⟨1, h, Or.inl rfl⟩, h, ?_⟩
  rw [chain_of_single h, chain_of_single h]

theorem IsChain.of_rows {β : Type} [Inhabited β] {i : Nat} {e : Shape} {u : Tensor α}
    {r q : Tensor β} {g : Tensor α → Tensor β} (h : IsChain n i d t u) (hi : i < n)
    (ht : t.shape = k :: d) (hr : r.shape = k :: e)
    (hrow : forall j, j < k -> r.row j = g (t.row j)) (hq : q.shape = 1 :: e)
    (hrow' : q.row 0 = g (u.row 0)) : IsChain n i e r q := by
  have hchain := h.chain
  rw [chain_of_single h.shape] at hchain
  have hk : k = 1 ∨ k = n := by
    rcases h.rows with ⟨j, hj, hone⟩
    rw [ht] at hj
    cases hj
    exact hone
  refine ⟨⟨k, hr, hk⟩, hq, ?_⟩
  rw [chain_of_single hq, hrow', hchain]
  rcases hk with rfl | rfl
  · rw [chain_of_single hr, chain_of_single ht, hrow 0 Nat.one_pos]
  · rw [chain_of_lt hr hi, chain_of_lt ht hi, hrow i hi]

theorem IsChain.map {β : Type} [Inhabited β] {i : Nat} {u : Tensor α} (f : α → β)
    (h : IsChain n i d t u) (hi : i < n) : IsChain n i d (t.map f) (u.map f) := by
  rcases h.rows with ⟨k, ht, _⟩
  apply h.of_rows (g := fun r => r.map f) hi ht ((shape_map f t).trans ht)
  · intro j hj
    exact row_map f ht hj
  · exact (shape_map f u).trans h.shape
  · exact row_map f h.shape Nat.one_pos

theorem IsChain.single_or_matched {i : Nat} {u : Tensor α} (h : IsChain n i d t u)
    (hk : t.shape.head? = some n -> k = n) : t.shape = 1 :: d ∨ t.shape = k :: d := by
  rcases h.rows with ⟨j, hs, rfl | rfl⟩
  · exact Or.inl hs
  · right
    rw [hk (by rw [hs, List.head?_cons]), hs]

end Matching

end Tensor

/-!
# Matching of arguments

Arguments may be extras, which have no rows, and densities, which stay as they are.  All
tensors among them are brought to the common batch size.
-/

namespace Argument

variable {α : Type}

def tensor? : Argument α → Option (Tensor α)
  | tensor t => some t
  | _ => none

/-- The argument brought to `k` rows, if it is a tensor with a single row. -/
def matched [Inhabited α] (k : Nat) : Argument α → Argument α
  | tensor t => tensor (t.matched k)
  | a => a

inductive IsChain [Inhabited α] (n i : Nat) (d : Shape) : Argument α → Argument α → Prop where
  | tensor (t u : Tensor α) : Tensor.IsChain n i d t u -> IsChain n i d (tensor t) (tensor u)
  | density (id : NodeId) : IsChain n i d (density id) (density id)

end Argument

namespace Tensor

theorem exists_tensor_of_batch? {α : Type} [Scalar α] {args : List (Argument α)}
    {a : Argument α} {m : Nat} (hextras : forall v, .extra v ∉ args) (ha : a ∈ args)
    (hm : Batched.batch? a = some m) : ∃ t, a = .tensor t ∧ t.shape.head? = some m := by
  cases a with
  | tensor t => exact ⟨t, rfl, hm⟩
  | density id => cases hm
  | extra v => exact absurd ha (hextras v)

theorem batch_filterMap_of_single {α : Type} {n : Nat} {args : List (Argument α)}
    (h : forall t, .tensor t ∈ args -> ∃ d, t.shape = 1 :: d) :
    batch n (args.filterMap Argument.tensor?) = 1 := by
  apply batch_of_single
  intro t ht
  rcases List.mem_filterMap.mp ht with ⟨a, ha, hat⟩
  cases a with
  | tensor u =>
      cases hat
      rcases h t ha with ⟨d, hs⟩
      rw [hs, List.head?_cons]
  | density id => cases hat
  | extra v => cases hat

theorem map_matched_of_single {α : Type} [Scalar α] {args : List (Argument α)}
    (h : forall t, .tensor t ∈ args -> ∃ d, t.shape = 1 :: d) :
    args.map (Argument.matched 1) = args := by
  rw [List.map_congr_left, List.map_id]
  intro a ha
  cases a with
  | tensor u =>
      rcases h u ha with ⟨d, hs⟩
      exact congrArg Argument.tensor (matched_self hs)
  | density id => rfl
  | extra v => rfl

theorem reconcile_arguments {α : Type} [Scalar α] {n : Nat} {args : List (Argument α)}
    (hextras : forall v, .extra v ∉ args)
    (h : forall t, .tensor t ∈ args -> ∃ d, HasRows n d t) :
    Batched.reconcile args =
      .ok (args.map (Argument.matched (batch n (args.filterMap Argument.tensor?)))) := by
  have hsizes : forall a, a ∈ args -> forall m, Batched.batch? a = some m -> m = 1 ∨ m = n := by
    intro a ha m hm
    rcases exists_tensor_of_batch? hextras ha hm with ⟨t, rfl, hhead⟩
    rcases h t ha with ⟨d, k, hs, hk⟩
    rw [hs, List.head?_cons, Option.some.injEq] at hhead
    rwa [← hhead]
  unfold Batched.reconcile
  rcases Batched.sizes_eq hsizes with ⟨hne, ⟨a, ha, hbatch⟩, heq⟩ | ⟨hsingle, heq⟩
  · rw [heq]
    rcases exists_tensor_of_batch? hextras ha hbatch with ⟨t, rfl, hhead⟩
    rw [batch_of_mem (List.mem_filterMap.mpr ⟨_, ha, rfl⟩) hhead]
    simp only
    congr 1
    apply List.map_congr_left
    intro b hb
    cases b with
    | tensor u =>
        change Batched.toRows n (Argument.tensor u) = Argument.tensor (matched n u)
        unfold Batched.toRows matched
        exact (apply_ite Argument.tensor _ _ _).symm
    | density id => rfl
    | extra v => exact absurd hb (hextras v)
  · have hone : forall t, .tensor t ∈ args -> ∃ d, t.shape = 1 :: d := by
      intro t ht
      rcases h t ht with ⟨d, k, hs, _⟩
      have hhead : Batched.batch? (Argument.tensor t) = some k := by
        change t.shape.head? = some k
        rw [hs, List.head?_cons]
      rw [hs, hsingle _ ht k hhead]
      exact ⟨d, rfl⟩
    rw [heq, batch_filterMap_of_single hone, map_matched_of_single hone]

theorem reconcile_single {α : Type} [Scalar α] {args : List (Argument α)}
    (hextras : forall v, .extra v ∉ args)
    (h : forall t, .tensor t ∈ args -> ∃ d, t.shape = 1 :: d) :
    Batched.reconcile args = .ok args := by
  have hself : args.map (Argument.matched 1) = args := by
    rw [List.map_congr_left, List.map_id]
    intro a ha
    cases a with
    | tensor u =>
        rcases h u ha with ⟨d, hs⟩
        exact congrArg Argument.tensor (matched_self hs)
    | density id => rfl
    | extra v => rfl
  rw [reconcile_arguments (n := 1) hextras, batch_one, hself]
  intro t ht
  rcases h t ht with ⟨d, hs⟩
  exact ⟨d, 1, hs, Or.inl rfl⟩

theorem reconcile_rows {α : Type} [Scalar α] {n : Nat} {ts : List (Tensor α)}
    (h : forall t, t ∈ ts -> ∃ d, HasRows n d t) :
    Batched.reconcile (ts.map Argument.tensor) =
      .ok ((ts.map (matched (batch n ts))).map Argument.tensor) := by
  have htensors : (ts.map Argument.tensor).filterMap Argument.tensor? = ts := by
    rw [List.filterMap_map]
    exact List.filterMap_some
  rw [reconcile_arguments (n := n), htensors, List.map_map, List.map_map]
  · rfl
  · intro v hv
    rcases List.mem_map.mp hv with ⟨t, _, heq⟩
    cases heq
  · intro t ht
    rcases List.mem_map.mp ht with ⟨u, hu, heq⟩
    cases heq
    exact h t hu

end Tensor
end DensityGraph
