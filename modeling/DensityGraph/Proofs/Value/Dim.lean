import Mathlib.Algebra.Ring.Int.Defs
import DensityGraph.Proofs.Number.Rounding
import DensityGraph.Value.Conversion
/-!
# Shapes of nodes

A shape that is read from a value has no empty axis, and a single axis is never left
alone.  A shape that is written as a value is read back as it was.
-/

namespace DensityGraph

structure Shape.IsDim (dim : Shape) : Prop where
  length : dim.length ≠ 1
  positive : forall k, k ∈ dim -> 1 ≤ k

namespace Value

theorem exists_sizes_of_toDim {v : Value} {dim : Shape} (h : v.toDim = .ok dim) :
    ∃ sizes, v.toSizes = .ok sizes ∧ (forall n, n ∈ sizes -> 1 ≤ n) ∧
      dim = sizes.map Int.toNat := by
  unfold toDim at h
  cases hsizes : v.toSizes with
  | error r =>
      rw [hsizes] at h
      cases h
  | ok sizes =>
      rw [hsizes] at h
      simp only [Refusal.lift] at h
      by_cases hany : sizes.any (· < 1) = true
      · simp [bind, Except.bind, hany, throw, throwThe, MonadExceptOf.throw] at h
      · simp [bind, Except.bind, hany, pure, Except.pure] at h
        refine ⟨sizes, rfl, ?_, h.symm⟩
        intro n hn
        simp only [List.any_eq_true, decide_eq_true_eq, not_exists, not_and] at hany
        have hpos := hany n hn
        omega

theorem exists_ints_of_toSizes {v : Value} {sizes : List Int} (h : v.toSizes = .ok sizes) :
    v = none ∧ sizes = [1, 1] ∨ ∃ ints, v.toIntegers = .ok ints ∧
      (sizes = ints ∧ ints.length ≠ 1 ∨ ints.length = 1 ∧ sizes.length = 2) := by
  unfold toSizes at h
  split at h
  · cases h
    exact Or.inl ⟨rfl, rfl⟩
  · right
    cases hints : v.toIntegers with
    | error r =>
        rw [hints] at h
        cases h
    | ok ints =>
        rw [hints] at h
        simp only [bind, Except.bind] at h
        split at h
        · cases h
          exact ⟨_, rfl, Or.inr ⟨rfl, rfl⟩⟩
        · rename_i hsingle
          cases h
          refine ⟨_, rfl, Or.inl ⟨rfl, ?_⟩⟩
          intro hlength
          rcases List.length_eq_one_iff.mp hlength with ⟨n, hn⟩
          exact hsingle n hn

theorem isDim_toDim {v : Value} {dim : Shape} (h : v.toDim = .ok dim) : dim.IsDim := by
  rcases exists_sizes_of_toDim h with ⟨sizes, hsizes, hpos, rfl⟩
  constructor
  · rw [List.length_map]
    rcases exists_ints_of_toSizes hsizes with
      ⟨_, rfl⟩ | ⟨ints, _, ⟨hsame, hlength⟩ | ⟨_, hlength⟩⟩
    · decide
    · rw [hsame]
      exact hlength
    · rw [hlength]
      decide
  · intro k hk
    rcases List.mem_map.mp hk with ⟨n, hn, rfl⟩
    have hn := hpos n hn
    omega

/-!
# Shapes as values
-/

theorem nestings_ints (ns : List Int) :
    nestings (ns.map int) = .ok (ns.map fun n => ([], [int n])) := by
  induction ns with
  | nil => rfl
  | cons n ns ih =>
      rw [List.map_cons, List.map_cons, nestings, ih]
      rfl

theorem stackShapes_ints (ns : List Int) :
    stackShapes (ns.map fun n => ([], [int n])) = .ok ([ns.length], ns.map int) := by
  cases ns with
  | nil => rfl
  | cons n ns =>
      have hshape : (ns.map fun n => (([] : Shape), [int n])).all (fun r => r.1 == []) = true := by
        simp
      have hentries : (ns.map fun n => (([] : Shape), [int n])).flatMap (fun r => r.2) =
          ns.map int := by
        rw [List.flatMap_map]
        exact List.map_eq_flatMap.symm
      rw [List.map_cons]
      unfold stackShapes
      simp only
      rw [if_pos hshape, hentries, List.length_map]
      rfl

theorem nesting_ints (ns : List Int) :
    nesting (tuple (ns.map int)) = .ok ([ns.length], ns.map int) := by
  rw [nesting, nestings_ints]
  exact stackShapes_ints ns

theorem fill_vector {β : Type} (xs : List β) :
    fill [xs.length] xs = .ok (Tensor.vector xs) := by
  unfold fill Tensor.ofArray?
  have hsize : xs.toArray.size = Shape.size [xs.length] := by
    simp [Shape.size]
  rw [dif_pos hsize]
  rfl

theorem commonKind_ints {n : Int} {ns : List Int}
    (h : forall m, m ∈ n :: ns -> -wordLimit ≤ m ∧ m < wordLimit) :
    commonKind ((n :: ns).map int) = .int := by
  have hkind : forall m, m ∈ n :: ns -> entryKind (int m) = .int := by
    intro m hm
    unfold entryKind
    simp [h m hm]
  have hfold : forall (ms : List Int), (forall m, m ∈ ms -> entryKind (int m) = .int) ->
      (ms.map int).foldl (fun k v => k.join (entryKind v)) EntryKind.int = .int := by
    intro ms hms
    induction ms with
    | nil => rfl
    | cons m ms ih =>
        rw [List.map_cons, List.foldl_cons, hms m List.mem_cons_self]
        exact ih fun m' hm' => hms m' (List.mem_cons_of_mem _ hm')
  unfold commonKind
  rw [List.map_cons, List.foldl_cons, hkind n List.mem_cons_self]
  exact hfold ns fun m hm => hkind m (List.mem_cons_of_mem _ hm)

theorem mapM_toInteger (ns : List Int) : (ns.map int).mapM toInteger = .ok ns := by
  induction ns with
  | nil => rfl
  | cons n ns ih =>
      rw [List.map_cons, List.mapM_cons, ih]
      rfl

theorem toContent_ints {n : Int} {ns : List Int}
    (h : forall m, m ∈ n :: ns -> -wordLimit ≤ m ∧ m < wordLimit) :
    (tuple ((n :: ns).map int)).toContent =
      .ok (.numeric (.integers .int64 (Tensor.vector (n :: ns)))) := by
  have hints : ((n :: ns).map int).map toInt = n :: ns := by
    rw [List.map_map]
    exact List.map_id _
  have hfill : fill [(n :: ns).length] (((n :: ns).map int).map toInt) =
      .ok (Tensor.vector (n :: ns)) := by
    rw [hints]
    exact fill_vector (n :: ns)
  unfold toContent
  rw [nesting_ints]
  simp only [bind, Except.bind]
  rw [commonKind_ints h, hfill]
  rfl

theorem toIntegers_ints {ns : List Int}
    (h : forall n, n ∈ ns -> -wordLimit ≤ n ∧ n < wordLimit) :
    (tuple (ns.map int)).toIntegers = .ok ns := by
  unfold toIntegers
  cases ns with
  | nil => rfl
  | cons n ns =>
      rw [toContent_ints h]
      exact mapM_toInteger (n :: ns)

theorem ofShape_eq (s : Shape) : ofShape s = tuple ((s.map Int.ofNat).map int) := by
  unfold ofShape
  rw [List.map_map]
  rfl

theorem toDim_ofShape {s : Shape} (hdim : s.IsDim)
    (hwords : forall k, k ∈ s -> Int.ofNat k < wordLimit) : (ofShape s).toDim = .ok s := by
  have hints : (ofShape s).toIntegers = .ok (s.map Int.ofNat) := by
    rw [ofShape_eq]
    apply toIntegers_ints
    intro n hn
    rcases List.mem_map.mp hn with ⟨k, hk, rfl⟩
    constructor
    · have hlimit : -wordLimit ≤ 0 := by decide
      exact Int.le_trans hlimit (Int.natCast_nonneg k)
    · exact hwords k hk
  have hsizes : (ofShape s).toSizes = .ok (s.map Int.ofNat) := by
    unfold ofShape at hints ⊢
    unfold toSizes
    simp only
    rw [hints]
    cases s with
    | nil => rfl
    | cons k s =>
        cases s with
        | nil => exact absurd rfl hdim.length
        | cons l s => rfl
  unfold toDim
  rw [hsizes]
  have hany : (s.map Int.ofNat).any (· < 1) = false := by
    rw [List.any_eq_false]
    intro n hn
    rcases List.mem_map.mp hn with ⟨k, hk, rfl⟩
    have hpos := hdim.positive k hk
    simp
    omega
  have hback : (s.map Int.ofNat).map Int.toNat = s := by
    rw [List.map_map]
    exact List.map_id s
  simp [Refusal.lift, bind, Except.bind, hany, hback, pure, Except.pure]

/-!
# Shapes with large sizes

Sizes beyond the signed words are rounded when they meet smaller ones.  They stay far
too large for an array.
-/

theorem le_of_truncate_ofNat {n : Nat} {k : Int} (hn : 2 ^ 63 ≤ n)
    (h : truncate (Float.ofNat n) = .ok k) : 2 ^ 63 ≤ k := by
  unfold truncate at h
  split at h
  · cases h
  · split at h
    · cases h
    · rename_i hinf
      rcases Number.ofFloat_ofNat hn with htrue | ⟨m, e, hdyadic, hm, he⟩
      · exact absurd htrue hinf
      · rw [hdyadic] at h
        simp only [Bool.false_eq_true, if_false, Except.ok.injEq] at h
        have hwhole : (-e).toNat = 0 := by omega
        have hpower : 2 ^ 11 ≤ 2 ^ e.toNat := Nat.pow_le_pow_right (by decide) (by omega)
        have hnumerator : 2 ^ 52 * 2 ^ 11 ≤ m * 2 ^ e.toNat := Nat.mul_le_mul hm hpower
        unfold Dyadic.numerator Dyadic.denominator at h
        simp only [hwhole] at h
        have hdivided : (m * Nat.pow 2 e.toNat : Nat) / (Nat.pow 2 0 : Nat) = m * 2 ^ e.toNat :=
          Nat.div_one _
        have hnatural : ((m * 2 ^ e.toNat : Nat) : Int) = k := by
          rw [← h, ← hdivided]
          rfl
        omega

theorem commonKind_whole (n : Int) (ns : List Int) :
    commonKind ((n :: ns).map int) ∈ [.int, .big, .float, .thing] := by
  have hkind : forall m, entryKind (int m) ∈ [EntryKind.int, .big, .thing] := by
    intro m
    simp only [entryKind]
    split
    · decide
    · split
      · decide
      · decide
  have hjoin : forall (k l : EntryKind), k ∈ [EntryKind.int, .big, .float, .thing] ->
      l ∈ [EntryKind.int, .big, .thing] -> k.join l ∈ [EntryKind.int, .big, .float, .thing] := by
    intro k l
    cases k <;> cases l <;> decide
  have hfold : forall (ms : List Int) (k : EntryKind),
      k ∈ [EntryKind.int, .big, .float, .thing] ->
      (ms.map int).foldl (fun k v => k.join (entryKind v)) k ∈
        [EntryKind.int, .big, .float, .thing] := by
    intro ms
    induction ms with
    | nil =>
        intro k hk
        exact hk
    | cons m ms ih =>
        intro k hk
        exact ih _ (hjoin k _ hk (hkind m))
  have hfirst : forall l, l ∈ [EntryKind.int, .big, .thing] ->
      EntryKind.bool.join l ∈ [EntryKind.int, .big, .float, .thing] := by
    intro l
    cases l <;> decide
  exact hfold ns _ (hfirst _ (hkind n))

theorem exists_of_mapM_cons {β γ ε : Type} {f : β → Except ε γ} {v : β} {vs : List β}
    {ys : List γ} (h : (v :: vs).mapM f = .ok ys) :
    ∃ x xs, f v = .ok x ∧ vs.mapM f = .ok xs ∧ ys = x :: xs := by
  rw [List.mapM_cons] at h
  cases hv : f v with
  | error r =>
      rw [hv] at h
      cases h
  | ok x =>
      cases hvs : vs.mapM f with
      | error r =>
          rw [hv, hvs] at h
          cases h
      | ok xs =>
          rw [hv, hvs] at h
          cases h
          exact ⟨x, xs, rfl, rfl, rfl⟩

theorem length_of_mapM {β γ ε : Type} {f : β → Except ε γ} {vs : List β} {ys : List γ}
    (h : vs.mapM f = .ok ys) : ys.length = vs.length := by
  induction vs generalizing ys with
  | nil =>
      cases h
      rfl
  | cons v vs ih =>
      rcases exists_of_mapM_cons h with ⟨x, xs, _, hxs, rfl⟩
      exact congrArg Nat.succ (ih hxs)

theorem toIntegers_whole {ns ms : List Int} (h : (tuple (ns.map int)).toIntegers = .ok ms) :
    ms = ns ∨
      ∃ xs, (ns.map int).mapM toFloat = .ok xs ∧ (xs.map float).mapM toInteger = .ok ms := by
  cases ns with
  | nil =>
      left
      cases h
      rfl
  | cons n ns =>
      have hread : ((n :: ns).map int).mapM toInteger = .ok ms -> ms = n :: ns := by
        intro hms
        rw [mapM_toInteger] at hms
        cases hms
        rfl
      have hints : ((n :: ns).map int).map toInt = n :: ns := by
        rw [List.map_map]
        exact List.map_id _
      have hkind := commonKind_whole n ns
      unfold toIntegers toContent at h
      rw [nesting_ints] at h
      simp only [bind, Except.bind] at h
      generalize commonKind ((n :: ns).map int) = k at h hkind
      cases k with
      | int =>
          simp only [hints, fill_vector] at h
          exact Or.inl (hread h)
      | big =>
          simp only [hints, fill_vector] at h
          exact Or.inl (hread h)
      | thing => exact Or.inl (hread h)
      | float =>
          cases hxs : ((n :: ns).map int).mapM toFloat with
          | error r =>
              rw [hxs] at h
              cases h
          | ok xs =>
              have hlength : (n :: ns).length = xs.length := by
                rw [length_of_mapM hxs, List.length_map]
              rw [hxs, hlength] at h
              simp only [fill_vector] at h
              exact Or.inr ⟨xs, rfl, h⟩
      | bool => exact absurd hkind (by decide)
      | text => exact absurd hkind (by decide)

theorem length_of_toIntegers {ns ms : List Int}
    (h : (tuple (ns.map int)).toIntegers = .ok ms) : ms.length = ns.length := by
  rcases toIntegers_whole h with rfl | ⟨xs, hxs, hms⟩
  · rfl
  · rw [length_of_mapM hms, List.length_map, length_of_mapM hxs, List.length_map]

theorem eq_of_toFloat_ofNat {k : Nat} {x : Float} (h : toFloat (int (Int.ofNat k)) = .ok x) :
    x = Float.ofNat k := by
  simp only [toFloat] at h
  split at h
  · cases h
    rfl
  · cases h

theorem mem_large {ns ms : List Int} {xs : List Float} {k : Nat}
    (hxs : (ns.map int).mapM toFloat = .ok xs) (hms : (xs.map float).mapM toInteger = .ok ms)
    (hk : Int.ofNat k ∈ ns) (hlarge : 2 ^ 63 ≤ k) : ∃ m, m ∈ ms ∧ 2 ^ 63 ≤ m := by
  induction ns generalizing xs ms with
  | nil => cases hk
  | cons n ns ih =>
      rcases exists_of_mapM_cons hxs with ⟨x, ys, hn, hns, rfl⟩
      rcases exists_of_mapM_cons hms with ⟨m, ms', hx, hys, rfl⟩
      rcases List.mem_cons.mp hk with rfl | htail
      · rw [eq_of_toFloat_ofNat hn] at hx
        exact ⟨m, List.mem_cons_self, le_of_truncate_ofNat hlarge hx⟩
      · rcases ih hns hys htail with ⟨m', hm', hle⟩
        exact ⟨m', List.mem_cons_of_mem m hm', hle⟩

theorem size_pos {s : Shape} (hpos : forall k, k ∈ s -> 1 ≤ k) : 1 ≤ s.size := by
  induction s with
  | nil => exact Nat.le_refl 1
  | cons n s ih =>
      have hn : 1 ≤ n := hpos n List.mem_cons_self
      exact Nat.mul_pos hn (ih fun k hk => hpos k (List.mem_cons_of_mem n hk))

theorem le_size_of_mem {s : Shape} (hpos : forall k, k ∈ s -> 1 ≤ k) {k : Nat} (hk : k ∈ s) :
    k ≤ s.size := by
  induction s with
  | nil => cases hk
  | cons n s ih =>
      have hrest : forall k, k ∈ s -> 1 ≤ k := fun m hm => hpos m (List.mem_cons_of_mem n hm)
      rw [Shape.size_cons]
      rcases List.mem_cons.mp hk with rfl | hmem
      · exact Nat.le_mul_of_pos_right k (size_pos hrest)
      · have hn : 1 ≤ n := hpos n List.mem_cons_self
        exact Nat.le_trans (ih hrest hmem) (Nat.le_mul_of_pos_left _ hn)

theorem eq_of_toDim_ofShape {s dim : Shape} (hdim : s.IsDim)
    (h : (ofShape s).toDim = .ok dim) (hsize : dim.size < 2 ^ 63) : dim = s := by
  have hback : (s.map Int.ofNat).map Int.toNat = s := by
    rw [List.map_map]
    exact List.map_id s
  rcases exists_sizes_of_toDim h with ⟨sizes, hsizes, _, hsized⟩
  rw [ofShape_eq] at hsizes
  rcases exists_ints_of_toSizes hsizes with ⟨hnone, _⟩ | ⟨ints, hints, hlength⟩
  · cases hnone
  · have hread := toIntegers_whole hints
    have hcount : ints.length ≠ 1 := by
      rw [length_of_toIntegers hints, List.length_map]
      exact hdim.length
    have hsame : sizes = ints := by
      rcases hlength with ⟨hsame, _⟩ | ⟨hone, _⟩
      · exact hsame
      · exact absurd hone hcount
    rcases hread with rfl | ⟨xs, hxs, hms⟩
    · rw [hsized, hsame, hback]
    · by_cases hwords : forall k, k ∈ s -> Int.ofNat k < wordLimit
      · rw [toDim_ofShape hdim hwords] at h
        exact (Except.ok.inj h).symm
      · simp only [Classical.not_forall] at hwords
        rcases hwords with ⟨k, hk, hlimit⟩
        have hlarge : 2 ^ 63 ≤ k := by
          have hword : wordLimit = 2 ^ 63 := rfl
          rw [hword] at hlimit
          have hcast : (Int.ofNat k : Int) = (k : Int) := rfl
          omega
        rcases mem_large hxs hms (List.mem_map_of_mem hk) hlarge with ⟨m, hm, hle⟩
        have hmem : m.toNat ∈ dim := by
          rw [hsized, hsame]
          exact List.mem_map_of_mem hm
        have hle' := le_size_of_mem (isDim_toDim h).positive hmem
        omega

/-!
# Shapes without axes

An empty sequence is read as the shape of a single entry that has no axes.
-/

def isPoint (v : Value) : Bool :=
  match v.toSizes with
  | .ok [] => true
  | _ => false

theorem isPoint_iff {v : Value} : v.isPoint = true ↔ v.toSizes = .ok [] := by
  unfold isPoint
  split
  · rename_i h
    exact ⟨fun _ => h, fun _ => rfl⟩
  · rename_i h
    exact ⟨nofun, fun hnil => (h hnil).elim⟩

theorem toDim_of_isPoint {v : Value} (h : v.isPoint = true) : v.toDim = .ok [] := by
  unfold toDim
  rw [isPoint_iff.mp h]
  rfl

theorem isPoint_of_toDim {v : Value} (h : v.toDim = .ok []) : v.isPoint = true := by
  rcases exists_sizes_of_toDim h with ⟨sizes, hsizes, _, hnil⟩
  rw [List.map_eq_nil_iff.mp hnil.symm] at hsizes
  exact isPoint_iff.mpr hsizes

theorem isPoint_ofShape {s : Shape} : (ofShape s).isPoint = true ↔ s = [] := by
  constructor
  · intro h
    rw [ofShape_eq, isPoint_iff] at h
    rcases exists_ints_of_toSizes h with ⟨hnone, _⟩ | ⟨ints, hints, ⟨hnil, _⟩ | ⟨_, hlength⟩⟩
    · cases hnone
    · have hlength := length_of_toIntegers hints
      rw [← hnil, List.length_map] at hlength
      exact List.length_eq_zero_iff.mp hlength.symm
    · cases hlength
  · rintro rfl
    rfl

end Value
end DensityGraph
