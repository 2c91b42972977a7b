import Mathlib.Data.Fin.VecNotation
import Mathlib.Data.List.FinRange
import DensityGraph.Proofs.Tensor.Batch
import DensityGraph.Proofs.Tensor.Map
import DensityGraph.Value.Conversion
/-!
# Matching of loose values

Values without a batch axis stay as they are when arguments are matched, and so do arrays that
have the common number of rows.  The only row of any other array is repeated, and kept in the
types that are in effect.
-/

namespace DensityGraph

/-!
# Rows of arrays
-/

namespace NumericArray

variable {a : NumericArray} {i k n : Nat} {s : Shape}

/-- The array at a position of the batch axis. -/
def row (i : Nat) : NumericArray → NumericArray
  | floats p t => floats p (t.row i)
  | integers k t => integers k (t.row i)
  | booleans t => booleans (t.row i)

/-- The array in the types that are in effect. -/
def kept (wide : Bool) (a : NumericArray) : NumericArray :=
  if wide then a else a.narrow

theorem shape_repeatRows (h : a.shape = k :: s) (n : Nat) : (a.repeatRows n).shape = n :: s := by
  cases a with
  | floats p t => exact Tensor.shape_repeatRows h n
  | integers kind t => exact Tensor.shape_repeatRows h n
  | booleans t => exact Tensor.shape_repeatRows h n

theorem row_repeatRows (h : a.shape = 1 :: s) (hi : i < n) :
    (a.repeatRows n).row i = a.row 0 := by
  cases a with
  | floats p t => exact congrArg (floats p) (Tensor.row_repeatRows h hi)
  | integers kind t => exact congrArg (integers kind) (Tensor.row_repeatRows h hi)
  | booleans t => exact congrArg booleans (Tensor.row_repeatRows h hi)

theorem shape_kept (wide : Bool) (a : NumericArray) : (a.kept wide).shape = a.shape := by
  unfold kept narrow
  split
  · rfl
  · split <;> rfl

theorem row_kept (wide : Bool) (h : a.shape = k :: s) (hi : i < k) :
    (a.kept wide).row i = (a.row i).kept wide := by
  unfold kept
  split
  · rfl
  · match a, h with
    | floats .double t, h => exact congrArg (floats .single) (Tensor.row_map _ h hi)
    | floats .single t, h => rfl
    | floats .half t, h => rfl
    | floats .literal t, h => rfl
    | integers .int64 t, h => exact congrArg (integers .int32) (Tensor.row_map _ h hi)
    | integers .uint64 t, h => exact congrArg (integers .uint32) (Tensor.row_map _ h hi)
    | integers .int32 t, h => rfl
    | integers .uint32 t, h => rfl
    | booleans t, h => rfl

end NumericArray

/-!
# Single arguments
-/

namespace Value

open Batched

variable {wide : Bool} {v : Value} {args : List Value} {k : Nat}

/-- What an argument becomes next to arguments that have one row or `k` rows. -/
inductive Brought (wide : Bool) (k : Nat) : Value → Value → Prop where
  | same {v : Value} : batch? v = Option.none -> Brought wide k v v
  | full {compiled : Bool} {a : NumericArray} {s : Shape} : a.shape = k :: s ->
      Brought wide k (array compiled a) (array compiled a)
  | single {compiled : Bool} {a b : NumericArray} {s : Shape} : k ≠ 1 -> a.shape = 1 :: s ->
      b.shape = k :: s -> (forall i, i < k -> b.row i = (a.row 0).kept wide) ->
        Brought wide k (array compiled a) (array true b)

def matchOne (wide : Bool) (k : Nat) (v : Value) : Value :=
  if k ≠ 1 ∧ batch? v = some 1 then (Batched.repeatRows k v).narrow wide else v

theorem matchOne_of_ne (h : batch? v ≠ some 1) : matchOne wide k v = v :=
  if_neg fun hv => h hv.2

theorem matchOne_one (wide : Bool) (v : Value) : matchOne wide 1 v = v :=
  if_neg fun h => h.1 rfl

theorem value_toRows (hk : k ≠ 1) : (toRows k (Extra.mk wide v)).value = matchOne wide k v := by
  unfold toRows matchOne
  by_cases h : batch? v = some 1
  · rw [if_pos (show batch? (Extra.mk wide v) = some 1 from h), if_pos ⟨hk, h⟩]
    rfl
  · rw [if_neg (show batch? (Extra.mk wide v) ≠ some 1 from h), if_neg fun hv => h hv.2]

theorem brought_matchOne (wide : Bool)
    (h : forall m, batch? v = some m -> m = 1 ∨ m = k) : Brought wide k v (matchOne wide k v) := by
  cases hbatch : batch? v with
  | none =>
      rw [matchOne_of_ne (by rw [hbatch]; exact nofun)]
      exact Brought.same hbatch
  | some m =>
      cases v with
      | array compiled a =>
          rcases List.head?_eq_some_iff.mp hbatch with ⟨s, hs⟩
          by_cases hmk : m = k
          · have hsame : matchOne wide k (array compiled a) = array compiled a := by
              by_cases hone : m = 1
              · rw [← hmk, hone, matchOne_one]
              · refine matchOne_of_ne ?_
                rw [hbatch, Ne, Option.some.injEq]
                exact hone
            rw [hsame]
            exact Brought.full (hmk ▸ hs)
          · have hone : m = 1 := (h m hbatch).resolve_right hmk
            rw [hone] at hs hbatch hmk
            have hrepeated : matchOne wide k (array compiled a) =
                array true ((a.repeatRows k).kept wide) :=
              if_pos ⟨Ne.symm hmk, hbatch⟩
            have hshape := NumericArray.shape_repeatRows hs k
            rw [hrepeated]
            refine Brought.single (Ne.symm hmk) hs ((NumericArray.shape_kept _ _).trans hshape) ?_
            intro i hi
            rw [NumericArray.row_kept wide hshape hi, NumericArray.row_repeatRows hs hi]
      | _ => cases hbatch

theorem Brought.eq_of_batch? {v' : Value} (h : Brought wide k v v') {m : Nat}
    (hm : Batched.batch? v' = some m) : m = k := by
  have hhead : forall {s' s : Shape}, s' = k :: s -> s'.head? = some m -> m = k := by
    rintro _ s rfl hm
    exact (Option.some.inj hm).symm
  cases h with
  | same hv =>
      rw [hv] at hm
      cases hm
  | full hs => exact hhead hs hm
  | single _ _ hs _ => exact hhead hs hm

/-!
# All arguments

Matching succeeds exactly if no two sizes clash.  It depends on the sizes that occur, and not
on their order or on how often they do.
-/

/-- The number of rows that the arguments are brought to: the size other than one that occurs
among them. -/
def IsCommonSize (args : List Value) (k : Nat) : Prop :=
  (k ≠ 1 ∧ ∃ v, v ∈ args ∧ batch? v = some k) ∨
    k = 1 ∧ forall v, v ∈ args -> forall m, batch? v = some m -> m = 1

theorem sizes_map_mk (wide : Bool) (args : List Value) :
    sizes (args.map (Extra.mk wide)) = sizes args := by
  unfold sizes
  rw [List.filterMap_map]
  rfl

theorem matchBatches_of_sizes_nil (wide : Bool) (h : sizes args = []) :
    matchBatches wide args = .ok args := by
  unfold matchBatches reconciled reconcile
  simp only [sizes_map_mk, h, Except.map, List.map_map, Function.comp_def, List.map_id']

theorem matchBatches_of_sizes_singleton (wide : Bool) (h : sizes args = [k]) :
    matchBatches wide args = .ok (args.map (matchOne wide k)) := by
  have hk : k ≠ 1 := (mem_sizes.mp (h ▸ List.mem_singleton_self k)).1
  unfold matchBatches reconciled reconcile
  simp only [sizes_map_mk, h, Except.map, List.map_map, Function.comp_def, value_toRows hk]

theorem matchBatches_error_iff {sizes : List Nat} :
    matchBatches wide args = .error (.batches sizes) ↔ reconcile args = .error sizes := by
  unfold matchBatches reconciled reconcile
  rw [sizes_map_mk]
  rcases Batched.sizes args with _ | ⟨m, _ | ⟨n, ns⟩⟩ <;> simp [Except.map]

theorem exists_matchBatches (wide : Bool) (h : ¬ Clash args) : ∃ k, IsCommonSize args k ∧
    (forall v, v ∈ args -> forall m, batch? v = some m -> m = 1 ∨ m = k) ∧
      matchBatches wide args = .ok (args.map (matchOne wide k)) := by
  have hall : forall v, v ∈ args -> forall m, batch? v = some m -> m = 1 ∨ m ∈ sizes args :=
    fun v hv m hm => or_iff_not_imp_left.mpr fun hne => mem_sizes.mpr ⟨hne, v, hv, hm⟩
  match hsizes : sizes args with
  | [] =>
      rw [hsizes] at hall
      have hone : forall v, v ∈ args -> forall m, batch? v = some m -> m = 1 :=
        fun v hv m hm => (hall v hv m hm).resolve_right List.not_mem_nil
      refine ⟨1, .inr ⟨rfl, hone⟩, fun v hv m hm => .inl (hone v hv m hm), ?_⟩
      rw [matchBatches_of_sizes_nil wide hsizes, funext (matchOne_one wide), List.map_id']
  | [k] =>
      rw [hsizes] at hall
      refine ⟨k, .inl (mem_sizes.mp (hsizes ▸ List.mem_singleton_self k)), ?_,
        matchBatches_of_sizes_singleton wide hsizes⟩
      exact fun v hv m hm => (hall v hv m hm).imp_right List.mem_singleton.mp
  | m :: n :: ns =>
      have hreconcile : reconcile args = .error (m :: n :: ns) := by
        unfold reconcile
        rw [hsizes]
      exact absurd (exists_error_iff.mp ⟨_, hreconcile⟩) h

theorem matchBatches_congr (wide : Bool) {args' : List Value} (h : sizes args = sizes args') :
    (∃ f, matchBatches wide args = .ok (args.map f) ∧
      matchBatches wide args' = .ok (args'.map f)) ∨
      ∃ failure, matchBatches wide args = .error failure ∧
        matchBatches wide args' = .error failure := by
  match hsizes : sizes args with
  | [] =>
      rw [matchBatches_of_sizes_nil wide hsizes, matchBatches_of_sizes_nil wide (h ▸ hsizes)]
      exact .inl ⟨id, by rw [List.map_id], by rw [List.map_id]⟩
  | [k] =>
      rw [matchBatches_of_sizes_singleton wide hsizes,
        matchBatches_of_sizes_singleton wide (h ▸ hsizes)]
      exact .inl ⟨matchOne wide k, rfl, rfl⟩
  | m :: n :: ns =>
      refine .inr ⟨.batches (m :: n :: ns), ?_, ?_⟩
      · rw [matchBatches_error_iff]
        unfold reconcile
        rw [hsizes]
      · rw [matchBatches_error_iff]
        unfold reconcile
        rw [← h, hsizes]

theorem matchBatches_of_agree (wide : Bool) (h : Agree args) :
    matchBatches wide args = .ok args := by
  have hagree : Agree (args.map (Extra.mk wide)) := by
    rcases h with ⟨k, hk⟩
    exact ⟨k, List.forall_mem_map.mpr hk⟩
  have hmatched := reconcile_of_agree hagree
  unfold matchBatches reconciled
  simp only [hmatched, Except.map, List.map_map, Function.comp_def, List.map_id']

theorem agree_matched (h : forall v, v ∈ args -> forall m, batch? v = some m -> m = 1 ∨ m = k) :
    Agree (args.map (matchOne wide k)) := by
  refine ⟨k, ?_⟩
  intro v' hv' m hm
  rcases List.mem_map.mp hv' with ⟨v, hv, rfl⟩
  exact (brought_matchOne wide (h v hv)).eq_of_batch? hm

theorem matchBatches_perm (wide : Bool) {n : Nat} (args : Fin n → Value) (σ : Equiv.Perm (Fin n)) :
    (forall failure, matchBatches wide (List.ofFn args) = .error failure ->
      matchBatches wide (List.ofFn (args ∘ σ)) = .error failure) ∧
      forall results, matchBatches wide (List.ofFn args) = .ok (List.ofFn results) ->
        matchBatches wide (List.ofFn (args ∘ σ)) = .ok (List.ofFn (results ∘ σ)) := by
  have hsizes : sizes (List.ofFn (args ∘ σ)) = sizes (List.ofFn args) :=
    sizes_congr ((σ.ofFn_comp_perm args).filterMap _)
  rcases matchBatches_congr wide hsizes with ⟨f, hperm, hargs⟩ | ⟨failure, hperm, hargs⟩
  · rw [hargs, hperm, List.map_ofFn, List.map_ofFn]
    refine ⟨fun _ h => (nomatch h), ?_⟩
    intro results h
    rw [← List.ofFn_inj.mp (Except.ok.inj h)]
    rfl
  · rw [hargs, hperm]
    exact ⟨fun _ h => h, fun _ h => (nomatch h)⟩

/-- Arguments are matched exactly if no two batch sizes clash.  Each of them is then brought to
the common number of rows by itself, whatever the order. -/
theorem matchBatches_spec (wide : Bool) {n : Nat} (args : Fin n → Value) :
    ((∃ sizes, matchBatches wide (List.ofFn args) = .error (.batches sizes)) ↔
        Clash (List.ofFn args)) ∧
      (¬ Clash (List.ofFn args) -> ∃ k results,
        matchBatches wide (List.ofFn args) = .ok (List.ofFn results) ∧
          IsCommonSize (List.ofFn args) k ∧ (forall i, Brought wide k (args i) (results i)) ∧
            matchBatches wide (List.ofFn results) = .ok (List.ofFn results)) ∧
      forall σ : Equiv.Perm (Fin n),
        (forall failure, matchBatches wide (List.ofFn args) = .error failure ->
          matchBatches wide (List.ofFn (args ∘ σ)) = .error failure) ∧
          forall results, matchBatches wide (List.ofFn args) = .ok (List.ofFn results) ->
            matchBatches wide (List.ofFn (args ∘ σ)) = .ok (List.ofFn (results ∘ σ)) := by
  refine ⟨?_, ?_, matchBatches_perm wide args⟩
  · rw [← exists_error_iff]
    exact exists_congr fun _ => matchBatches_error_iff
  · intro h
    rcases exists_matchBatches wide h with ⟨k, hcommon, hall, hmatched⟩
    have hagree : Agree ((List.ofFn args).map (matchOne wide k)) := agree_matched hall
    rw [List.map_ofFn] at hmatched hagree
    refine ⟨k, matchOne wide k ∘ args, hmatched, hcommon, ?_, matchBatches_of_agree wide hagree⟩
    intro i
    exact brought_matchOne wide (hall (args i) (List.mem_ofFn.mpr ⟨i, rfl⟩))

/-- A number, an empty batch and a single row. -/
def emptyBatch : Fin 3 → Value :=
  ![int 3, array false (.booleans (Tensor.full [0, 2] true)),
    array false (.booleans (Tensor.full [1] true))]

theorem matchBatches_spec_emptyBatch : ¬ Clash (List.ofFn emptyBatch) ∧ ∃ results,
    matchBatches false (List.ofFn emptyBatch) = .ok (List.ofFn results) ∧
      forall i, Brought false 0 (emptyBatch i) (results i) := by
  have hmem : emptyBatch 1 ∈ List.ofFn emptyBatch := List.mem_ofFn.mpr ⟨1, rfl⟩
  have hall : forall v, v ∈ List.ofFn emptyBatch -> forall m,
      batch? v = some m -> m = 1 ∨ m = 0 := by
    intro v hv m hm
    rcases List.mem_ofFn.mp hv with ⟨i, rfl⟩
    match i, hm with
    | 1, hm => exact .inr (Option.some.inj hm).symm
    | 2, hm => exact .inl (Option.some.inj hm).symm
  have hclash : ¬ Clash (List.ofFn emptyBatch) := by
    rintro ⟨m, n, hne, ⟨hm, v, hv, hvm⟩, hn, v', hv', hvn⟩
    exact hne (((hall v hv m hvm).resolve_left hm).trans ((hall v' hv' n hvn).resolve_left hn).symm)
  rcases (matchBatches_spec false emptyBatch).2.1 hclash with
    ⟨k, results, hmatched, hcommon, hbrought, _⟩
  have hk : k = 0 := by
    rcases hcommon with ⟨hk, v, hv, hvk⟩ | ⟨_, hone⟩
    · exact (hall v hv k hvk).resolve_left hk
    · exact absurd (hone _ hmem 0 rfl) (by decide)
  exact ⟨hclash, results, hmatched, hk ▸ hbrought⟩

/-- A repeated row is kept in the types that are in effect, and loses what does not fit. -/
theorem exists_changed_row : ∃ b,
    matchBatches false [array false (.integers .int64 (Tensor.full [1, 1] 4294967297)),
        array false (.floats .double (Tensor.full [2, 1] 1.0))] =
      .ok [array true b, array false (.floats .double (Tensor.full [2, 1] 1.0))] ∧
    b.row 0 = .integers .int32 (Tensor.full [1] 1) ∧
    (NumericArray.integers .int64 (Tensor.full [1, 1] 4294967297)).row 0 =
      .integers .int64 (Tensor.full [1] 4294967297) ∧
    b.row 0 ≠ (NumericArray.integers .int64 (Tensor.full [1, 1] 4294967297)).row 0 := by
  refine ⟨.integers .int32 (Tensor.full [2, 1] 1), ?_, rfl, rfl, nofun⟩
  let args := [array false (.integers .int64 (Tensor.full [1, 1] 4294967297)),
    array false (.floats .double (Tensor.full [2, 1] 1.0))]
  have hsizes : sizes args = [2] := by
    apply sizes_eq_singleton (by decide) ⟨_, List.mem_cons_of_mem _ List.mem_cons_self, rfl⟩
    intro v hv m hm
    rcases List.mem_cons.mp hv with rfl | hv
    · exact .inl (Option.some.inj hm).symm
    · rw [List.mem_singleton.mp hv] at hm
      exact .inr (Option.some.inj hm).symm
  have hnarrow : ((Tensor.full [1, 1] (4294967297 : Int)).repeatRows 2).map
      (fun n => Int.bmod n (Nat.pow 2 32)) = Tensor.full [2, 1] 1 := by
    unfold Tensor.repeatRows Tensor.broadcast
    rw [Tensor.map_ofFn]
    rfl
  rw [matchBatches_of_sizes_singleton false hsizes, ← hnarrow]
  rfl

end Value
end DensityGraph
