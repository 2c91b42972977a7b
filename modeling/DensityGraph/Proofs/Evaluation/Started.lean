import DensityGraph.Proofs.Constraint.Lengths
import DensityGraph.Proofs.Evaluation.Flat
import DensityGraph.Proofs.Evaluation.Initial
/-!
# Free states to start from

Without a seed, a free state to start from repeats the free vectors of the initial values and
is zero otherwise.  It fits the graph that it is made for, since the free vectors have the
lengths that the variables declare.  Initial values that are refused leave everything as it
was; but a number of chains is read as a size only after the variables have taken theirs.
-/

namespace DensityGraph

/-!
# Equal rows
-/

namespace Tensor

variable {t : Tensor Float} {xs : List Float} {m : Nat}

def Repeats (t : Tensor Float) (m : Nat) (xs : List Float) : Prop :=
  t.shape = [m, xs.length] ∧ forall i, i < m -> t.row i = vector xs

theorem repeats_of_get (hshape : t.shape = [m, xs.length])
    (h : forall i j, i < m -> forall hj : j < xs.length, t.get [i, j] = xs[j]) :
    t.Repeats m xs := by
  refine ⟨hshape, ?_⟩
  intro i hi
  apply ext_get (shape_row hshape)
  intro index hindex
  rw [shape_row hshape] at hindex
  match index, hindex with
  | [j], hindex =>
      have hj : j < xs.length := hindex.1
      have hvector : (vector xs).get [j] = xs[j] := by
        simp [vector, get, Shape.offset, Shape.size, hj]
      rw [get_row hshape hindex, h i j hi hj, hvector]

theorem repeats_tile (p : Precision) (m : Nat) (free : List Number) :
    ((Action.tile m free).map p.round).Repeats m (free.map fun x => p.round x.value) := by
  apply repeats_of_get
  · rw [List.length_map]
    rfl
  · intro i j hi hj
    rw [List.length_map] at hj
    have hwithin : Shape.Within [m, free.length] [i, j] := ⟨hi, hj, trivial⟩
    have hentry : (free.map Number.value).toArray.getD j 0.0 = free[j].value := by
      simp [Array.getD, hj]
    rw [get_map p.round hwithin, List.getElem_map]
    unfold Action.tile
    rw [get_ofFn _ hwithin]
    exact congrArg p.round hentry

theorem repeats_full (m size : Nat) (x : Float) :
    (full [m, size] x).Repeats m (List.replicate size x) := by
  apply repeats_of_get
  · rw [List.length_replicate]
    rfl
  · intro i j hi hj
    rw [List.length_replicate] at hj
    have hwithin : Shape.Within [m, size] [i, j] := ⟨hi, hj, trivial⟩
    rw [List.getElem_replicate]
    exact get_ofFn _ hwithin

end Tensor

namespace Action

open Workspace

/-!
# Numbers of chains
-/

theorem one_of_isSingle {count : Value} {m : Nat} (h : chainSize count = .ok m)
    (hsingle : isSingle count = true) : m = 1 := by
  unfold chainSize at h
  split at h
  · cases h
    have hone := eq_of_beq hsingle
    rw [hone]
    rfl
  · cases h
    exact if_pos hsingle
  · split at h
    · rename_i hlist
      cases h
      unfold isSingle at hsingle
      simp only [hlist] at hsingle
      rw [eq_of_beq hsingle]
      rfl
    · cases h
  · cases h

theorem copyCount_of_chainSize {count : Value} {m : Nat} (h : chainSize count = .ok m) :
    copyCount count = .ok m := by
  unfold copyCount
  split
  · rename_i hsingle
    rw [one_of_isSingle h hsingle]
  · exact h

theorem copyCount_int {k : Int} (h : Settings.lessThanOne (.int k) = .ok false) :
    copyCount (.int k) = .ok k.toNat ∧ (k.toNat : Int) = k := by
  have hless : decide (k < 1) = false := Except.ok.inj h
  rw [decide_eq_false_iff_not] at hless
  exact ⟨copyCount_of_chainSize rfl, Int.toNat_of_nonneg (by omega)⟩

/-!
# Free vectors of initial values
-/

variable {s s' w w' : Workspace} {g : Dag} {inits : List (NodeId × Value)} {count : Value}

theorem length_of_toFree (hw : w.HasFreeSizes) {id : NodeId} {v : Value} {free : List Number}
    (h : (toFree id v).run w = (.ok free, s')) : free.length = w.freeSize id := by
  rcases exists_of_toFree h with ⟨_, n, b, c, size, t, y, hn, hrole, _, hy, hinverse⟩
  have hshape : (y.map Number.literal).shape = n.dim := by
    rw [Tensor.eq_broadcast hy]
    rfl
  have hsize := (hw id n b c size hn hrole).2
  rw [← hshape] at hsize
  rw [Constraint.length_inverse hsize hinverse]
  unfold Workspace.freeSize Node.freeSize
  rw [hn, Option.map_some, hrole]
  rfl

/-!
# Variables take their values

The initial values are assigned one after the other.  By induction over them, the workspace
differs from the one before in the values of these variables.
-/

variable {found : List (NodeId × List Number × NodeValue)} {p : Precision}

structure Assigned (w : Workspace) (found : List (NodeId × List Number × NodeValue))
    (w' : Workspace) : Prop where
  settings : w'.settings = w.settings
  wide : w'.wide = w.wide
  others : forall x, x ∉ found.map Prod.fst -> w'.node? x = w.node? x
  values : forall r, r ∈ found ->
    ∃ n, w.node? r.1 = some n ∧ w'.node? r.1 = some { n with value := r.2.2 }

theorem Assigned.same (h : Assigned w found w') : w.SameModel w' where
  nodes x := by
    by_cases hx : x ∈ found.map Prod.fst
    · rcases List.mem_map.mp hx with ⟨r, hr, rfl⟩
      rcases h.values r hr with ⟨n, hn, hn'⟩
      rw [hn, hn']
      rfl
    · rw [h.others x hx]
  floatType := congrArg Settings.floatType h.settings
  defaultChains := congrArg Settings.defaultChains h.settings
  wide := h.wide

theorem Assigned.concat (h : Assigned w found w') {r : NodeId × List Number × NodeValue}
    {n : Node} (hr : r.1 ∉ found.map Prod.fst) (hn : w.node? r.1 = some n) :
    Assigned w (found ++ [r]) (w'.update r.1 fun n => { n with value := r.2.2 }) where
  settings := h.settings
  wide := h.wide
  others x hx := by
    rw [List.map_append, List.mem_append, not_or] at hx
    have hne : r.1 ≠ x := by
      intro heq
      exact hx.2 (List.mem_singleton.mpr heq.symm)
    rw [node?_update_of_ne _ _ hne, h.others x hx.1]
  values q hq := by
    rcases List.mem_append.mp hq with hold | hlast
    · have hne : r.1 ≠ q.1 := by
        intro heq
        rw [heq] at hr
        exact hr (List.mem_map_of_mem hold)
      rw [node?_update_of_ne _ _ hne]
      exact h.values q hold
    · rw [List.mem_singleton.mp hlast, node?_update_self, h.others _ hr, hn]
      exact ⟨n, rfl, rfl⟩

theorem ends_assignValue_fits {id : NodeId} {nv : NodeValue} {n : Node}
    (hn : w.node? id = some n) (hshape : nv.array.shape = n.dim) :
    Ends (assignValue id nv) w (fun _ w' => w' = w.update id fun n => { n with value := nv })
      (fun _ _ => False) := by
  unfold assignValue
  rw [ends_bind, ends_node, hn]
  constructor
  · intro n' hn'
    cases hn'
    simp only
    rw [ends_ite]
    constructor
    · exact fun hne => hne hshape
    · exact fun _ => rfl
  · nofun

theorem ends_assignAll (hnodup : (found.map Prod.fst).Nodup)
    (hfits : forall r, r ∈ found ->
      ∃ n, w.node? r.1 = some n ∧ r.2.2.array.shape = n.dim) :
    Ends (found.forM fun (id, _, value) => assignValue id value) w
      (fun _ w' => Assigned w found w') (fun _ _ => False) := by
  apply Ends.forM (P := fun done w' => Assigned w done w')
  · exact ⟨rfl, rfl, fun _ _ => rfl, nofun⟩
  · intro done r rest w' hsplit hdone
    have hmem : r ∈ found := by
      rw [hsplit]
      exact List.mem_append_right _ List.mem_cons_self
    have hfresh : r.1 ∉ done.map Prod.fst := by
      rw [hsplit, List.map_append] at hnodup
      exact fun hr => List.disjoint_of_nodup_append hnodup hr List.mem_cons_self
    rcases hfits r hmem with ⟨n, hn, hshape⟩
    have hn' : w'.node? r.1 = some n := by
      rw [hdone.others _ hfresh, hn]
    apply (ends_assignValue_fits hn' hshape).imp
    intro _ w'' hw''
    rw [hw'']
    exact hdone.concat hfresh hn

/-- The variables have been given their initial values, and no other node has changed. -/
structure Given (w : Workspace) (inits : List (NodeId × Value)) (w' : Workspace) : Prop where
  others : forall x, x ∉ inits.map Prod.fst -> w'.node? x = w.node? x
  values : forall q, q ∈ inits -> ∃ n t y, w.node? q.1 = some n ∧ q.2.toFloats = .ok t ∧
    t.broadcastTo? n.dim = some y ∧ w'.node? q.1 = some { n with value := .ofFloats y }

theorem map_fst_found (h : List.Forall₂ (Finds w) inits found) :
    found.map Prod.fst = inits.map Prod.fst := by
  rw [← List.forall₂_eq_eq_eq, List.forall₂_map_left_iff, List.forall₂_map_right_iff]
  exact h.flip.imp fun _ _ hr => hr.id

theorem Assigned.given (h : Assigned w found w') (hfound : List.Forall₂ (Finds w) inits found) :
    Given w inits w' where
  others x hx := h.others x (by rwa [map_fst_found hfound])
  values q hq := by
    rcases exists_right_of_forall₂ hfound hq with ⟨r, hr, hfinds⟩
    rcases hfinds.value with ⟨n, t, y, hn, ht, hy, hvalue⟩
    rcases h.values r hr with ⟨n', hn', hassigned⟩
    rw [hfinds.id] at hn' hassigned
    rw [hn] at hn'
    cases hn'
    rw [hvalue] at hassigned
    exact ⟨n, t, y, hn, ht, hy, hassigned⟩

/-!
# Rows of a variable

Every row of a variable is the free vector of its initial value, or zeros if there is none.
That fails only where the number of chains is no number of rows.
-/

/-- Whether rows can be counted: a whole number is a size, and a number that is equal to one
is a number of copies. -/
def IsSize (count : Value) (isGiven : Prop) : Prop :=
  (∃ m, chainSize count = .ok m) ∨ (isSingle count = true ∧ isGiven)

structure Repeated (w : Workspace) (inits : List (NodeId × Value)) (p : Precision) (m : Nat)
    (id : NodeId) (t : Tensor Float) : Prop where
  shape : t.shape = [m, w.freeSize id]
  given : forall v, (id, v) ∈ inits -> ∃ free, (toFree id v).run w = (.ok free, w) ∧
    t.Repeats m (free.map fun x => p.round x.value)
  others : id ∉ inits.map Prod.fst -> t.Repeats m (List.replicate (w.freeSize id) 0.0)

theorem refusal_chainSize {r : Refusal} (h : chainSize count = .error r) : r = .type := by
  unfold chainSize at h
  split at h
  · cases h
  · cases h
  · split at h
    · cases h
    · cases h
      rfl
  · cases h
    rfl

theorem exists_lookup_found (hfound : List.Forall₂ (Finds w) inits found)
    (hnodup : (inits.map Prod.fst).Nodup) {id : NodeId} {v : Value} (hv : (id, v) ∈ inits) :
    ∃ free nv, found.lookup id = some (free, nv) ∧ (toFree id v).run w = (.ok free, w) := by
  rcases exists_right_of_forall₂ hfound hv with ⟨⟨k, free, nv⟩, hr, hfinds⟩
  have hkey : k = id := hfinds.id
  rw [← map_fst_found hfound] at hnodup
  rw [hkey] at hr
  exact ⟨free, nv, lookup_of_mem hnodup hr, hfinds.free⟩

theorem lookup_found_none (hfound : List.Forall₂ (Finds w) inits found) {id : NodeId}
    (hid : id ∉ inits.map Prod.fst) : found.lookup id = none := by
  rw [← map_fst_found hfound] at hid
  rw [List.lookup_eq_none_iff]
  intro r hr
  rw [bne_iff_ne]
  intro heq
  rw [heq] at hid
  exact hid (List.mem_map_of_mem hr)

theorem freeRows_given (hw : w.HasFreeSizes) {id : NodeId} {v : Value} {free : List Number}
    (hnodup : (inits.map Prod.fst).Nodup) (hv : (id, v) ∈ inits)
    (hfree : (toFree id v).run w = (.ok free, w)) (m : Nat) :
    Repeated w inits p m id ((tile m free).map p.round) := by
  have hrepeats := Tensor.repeats_tile p m free
  constructor
  · rw [hrepeats.1, List.length_map, length_of_toFree hw hfree]
  · intro v' hv'
    have hsame : v' = v := by
      have hlookup := lookup_of_mem hnodup hv'
      rw [lookup_of_mem hnodup hv] at hlookup
      exact (Option.some.inj hlookup).symm
    rw [hsame]
    exact ⟨free, hfree, hrepeats⟩
  · intro hid
    exact absurd (List.mem_map_of_mem hv) hid

theorem freeRows_others {id : NodeId} (hid : id ∉ inits.map Prod.fst) (m : Nat) :
    Repeated w inits p m id (Tensor.full [m, w.freeSize id] 0.0) := by
  constructor
  · rfl
  · intro v hv
    exact absurd (List.mem_map_of_mem hv) hid
  · exact fun _ => Tensor.repeats_full m (w.freeSize id) 0.0

theorem isSize_of_copyCount {m : Nat} (h : copyCount count = .ok m) {isGiven : Prop}
    (hgiven : isGiven) : IsSize count isGiven := by
  unfold copyCount at h
  split at h
  · rename_i hsingle
    exact Or.inr ⟨hsingle, hgiven⟩
  · exact Or.inl ⟨m, h⟩

theorem not_isSize_of_copyCount {r : Refusal} (h : copyCount count = .error r)
    (isGiven : Prop) : r = .type ∧ ¬IsSize count isGiven := by
  unfold copyCount at h
  split at h
  · cases h
  · rename_i hsingle
    refine ⟨refusal_chainSize h, ?_⟩
    intro hsize
    rcases hsize with ⟨m, hm⟩ | ⟨htrue, _⟩
    · rw [hm] at h
      cases h
    · exact hsingle htrue

theorem freeRows_cases (hw : w.HasFreeSizes) (hfound : List.Forall₂ (Finds w) inits found)
    (hnodup : (inits.map Prod.fst).Nodup) (count : Value) (p : Precision) (id : NodeId) :
    (forall t, freeRows p count (w.freeSize id) ((found.lookup id).map Prod.fst) none = .ok t ->
      IsSize count (id ∈ inits.map Prod.fst) ∧
        ∃ m, copyCount count = .ok m ∧ Repeated w inits p m id t) ∧
    (forall r, freeRows p count (w.freeSize id) ((found.lookup id).map Prod.fst) none = .error r ->
      r = .type ∧ ¬IsSize count (id ∈ inits.map Prod.fst)) := by
  by_cases hid : id ∈ inits.map Prod.fst
  · rcases List.mem_map.mp hid with ⟨⟨k, v⟩, hv, rfl⟩
    rcases exists_lookup_found hfound hnodup hv with ⟨free, nv, hlookup, hfree⟩
    rw [hlookup]
    unfold freeRows
    cases hcopies : copyCount count with
    | ok m =>
        constructor
        · intro t ht
          cases ht
          have hrows := freeRows_given (p := p) hw hnodup hv hfree m
          exact ⟨isSize_of_copyCount hcopies hid, m, rfl, hrows⟩
        · nofun
    | error f =>
        constructor
        · nofun
        · intro r hr
          cases hr
          exact not_isSize_of_copyCount hcopies _
  · rw [lookup_found_none hfound hid]
    unfold freeRows
    cases hsize : chainSize count with
    | ok m =>
        constructor
        · intro t ht
          cases ht
          exact ⟨Or.inl ⟨m, hsize⟩, m, copyCount_of_chainSize hsize, freeRows_others hid m⟩
        · nofun
    | error f =>
        constructor
        · nofun
        · intro r hr
          cases hr
          refine ⟨refusal_chainSize hsize, ?_⟩
          intro hcounts
          rcases hcounts with ⟨m, hm⟩ | ⟨_, hmem⟩
          · rw [hsize] at hm
            cases hm
          · exact hid hmem

/-!
# States
-/

def Holds (w : Workspace) (inits : List (NodeId × Value)) (count : Value) (p : Precision)
    (id : NodeId) (q : Int × NumericArray) : Prop :=
  ∃ m t, q = ((id : Int), .floats p t) ∧ copyCount count = .ok m ∧ Repeated w inits p m id t

theorem freeSize_of_same (h : w.SameModel w') (id : NodeId) : w'.freeSize id = w.freeSize id := by
  unfold Workspace.freeSize
  rw [h.map_node? fun _ _ => rfl]

theorem ends_freeTensor (hw : w.HasFreeSizes) (hfound : List.Forall₂ (Finds w) inits found)
    (hnodup : (inits.map Prod.fst).Nodup) (hsame : w.SameModel w') (count : Value)
    (p : Precision) {id : NodeId} (hid : id ∈ g.latents w) :
    Ends (do
      let size := (← node id).freeSize
      let t ← ofRefusal (freeRows p count size ((found.lookup id).map Prod.fst) none)
      return ((id : Int), NumericArray.floats p t) : Action (Int × NumericArray)) w'
      (fun q s => s = w' ∧ IsSize count (id ∈ inits.map Prod.fst) ∧ Holds w inits count p id q)
      (fun f s => s = w' ∧ f = .refused .type ∧ ¬IsSize count (id ∈ inits.map Prod.fst)) := by
  rw [← hsame.latents] at hid
  rcases run_node hid with ⟨n, hnode, hsize⟩
  rw [freeSize_of_same hsame] at hsize
  rcases freeRows_cases hw hfound hnodup count p id with ⟨hok, herror⟩
  rw [ends_bind, ends_of_run hnode]
  simp only [hsize]
  rw [ends_bind, ends_ofRefusal]
  constructor
  · intro t ht
    rcases hok t ht with ⟨hcounts, m, hm, hrows⟩
    exact ⟨rfl, hcounts, m, t, rfl, hm, hrows⟩
  · intro r hr
    rcases herror r hr with ⟨rfl, hnot⟩
    exact ⟨rfl, rfl, hnot⟩

theorem ends_freeTensors (hw : w.HasFreeSizes) (hfound : List.Forall₂ (Finds w) inits found)
    (hnodup : (inits.map Prod.fst).Nodup) (hsame : w.SameModel w') (p : Precision)
    (g : Dag) :
    Ends (((g.latents w').zip (List.replicate (g.latents w').length none)).mapM
      fun (id, key) => do
        let size := (← node id).freeSize
        let t ← ofRefusal (freeRows p count size ((found.lookup id).map Prod.fst) key)
        return ((id : Int), NumericArray.floats p t) : Action FreeState) w'
      (fun state s => s = w' ∧
        (forall id, id ∈ g.latents w -> IsSize count (id ∈ inits.map Prod.fst)) ∧
        List.Forall₂ (Holds w inits count p) (g.latents w) state)
      (fun f s => s = w' ∧ f = .refused .type ∧
        ¬forall id, id ∈ g.latents w -> IsSize count (id ∈ inits.map Prod.fst)) := by
  have hzip : forall ids : List NodeId,
      ids.zip (List.replicate ids.length (none : Option Threefry.Key)) =
        ids.map fun id => (id, none) := by
    intro ids
    induction ids with
    | nil => rfl
    | cons id ids ih => exact congrArg (List.cons (id, none)) ih
  rw [hsame.latents, hzip, List.mapM_map]
  apply Ends.mapM (P := fun done state s => s = w' ∧
    (forall id, id ∈ done -> IsSize count (id ∈ inits.map Prod.fst)) ∧
    List.Forall₂ (Holds w inits count p) done state)
  · exact ⟨rfl, nofun, .nil⟩
  · intro done id rest state s hsplit hdone
    have hid : id ∈ g.latents w := by
      rw [hsplit]
      exact List.mem_append_right _ List.mem_cons_self
    rw [hdone.1]
    apply (ends_freeTensor hw hfound hnodup hsame count p hid).mono
    · intro q s' hq
      refine ⟨hq.1, ?_, List.rel_append hdone.2.2 (.cons hq.2.2 .nil)⟩
      intro x hx
      rcases List.mem_append.mp hx with hold | hlast
      · exact hdone.2.1 x hold
      · rw [List.mem_singleton.mp hlast]
        exact hq.2.1
    · intro f s' hf
      exact ⟨hf.1, hf.2.1, fun hall => hf.2.2 (hall id hid)⟩

/-- A free state to start from, and the workspace in which the variables have their initial
values. -/
structure Starts (w : Workspace) (g : Dag) (inits : List (NodeId × Value)) (count : Value)
    (state : FreeState) (w' : Workspace) : Prop where
  keys : state.map Prod.fst = (g.latents w).map fun id : NodeId => (id : Int)
  rows : forall id, id ∈ g.latents w -> ∃ p m t,
    w.settings.tensorPrecision w.wide = .ok p ∧ copyCount count = .ok m ∧
      ((id : Int), .floats p t) ∈ state ∧ Repeated w inits p m id t
  fits : forall id, id ∈ g.latents w ->
    w'.AcceptsFree (w'.freeOf (state.map fun q => (q.1, .array true q.2))) id
  values : Given w inits w'

theorem starts_of_holds (hnodup : g.nodes.Nodup) (hsame : w.SameModel w')
    (hgiven : Given w inits w') (hp : w.settings.tensorPrecision w.wide = .ok p)
    {state : FreeState} (h : List.Forall₂ (Holds w inits count p) (g.latents w) state) :
    Starts w g inits count state w' := by
  have hkeys : state.map Prod.fst = (g.latents w).map fun id : NodeId => (id : Int) := by
    rw [← List.forall₂_eq_eq_eq, List.forall₂_map_left_iff, List.forall₂_map_right_iff]
    apply h.flip.imp
    intro q id hq
    rcases hq with ⟨m, t, rfl, _⟩
    rfl
  refine ⟨hkeys, ?_, ?_, hgiven⟩
  · intro id hid
    rcases exists_right_of_forall₂ h hid with ⟨q, hq, m, t, rfl, hm, hrows⟩
    exact ⟨p, m, t, hp, hm, hq, hrows⟩
  · intro id hid
    rcases exists_right_of_forall₂ h hid with ⟨q, hq, m, t, rfl, hm, hrows⟩
    have hloose : ((state.map fun q => (q.1, Value.array true q.2)).map Prod.fst).Nodup := by
      rw [List.map_map]
      change (state.map Prod.fst).Nodup
      rw [hkeys]
      exact List.Nodup.map Int.ofNat_injective (hnodup.filter _)
    have hlookup := lookup_of_mem hloose (List.mem_map_of_mem hq)
    refine ⟨t.map (Scalar.constant p), m, ?_, ?_⟩
    · unfold Workspace.freeOf
      rw [hlookup, Option.map_some, hsame.tensorOf, tensorOf_floats hp]
    · rw [Tensor.shape_map, hrows.shape, ← freeSize_of_same hsame]
      rfl

/-- A call is accepted if there is at least one chain and all initial values are taken. -/
def Accepts (w : Workspace) (g : Dag) (inits : List (NodeId × Value)) (count : Value) : Prop :=
  Settings.lessThanOne (w.settings.chains count) = .ok false ∧ TakesAll w g inits

/-- Whether the number of chains can be counted for every variable. -/
def Counts (w : Workspace) (g : Dag) (inits : List (NodeId × Value)) (count : Value) : Prop :=
  forall id, id ∈ g.latents w -> IsSize (w.settings.chains count) (id ∈ inits.map Prod.fst)

theorem ends_initialFreeState_none (hw : w.HasFreeSizes)
    (hp : w.settings.tensorPrecision w.wide = .ok p) (hg : g.nodes.Nodup)
    (hnodup : (inits.map Prod.fst).Nodup) (count : Value) :
    Ends (initialFreeState g count inits .none) w
      (fun state w' => Accepts w g inits count ∧ Counts w g inits count ∧
        Starts w g inits (w.settings.chains count) state w')
      (fun f w' => (¬Accepts w g inits count ∧ w' = w) ∨
        (Accepts w g inits count ∧ ¬Counts w g inits count ∧
          f = .refused .type ∧ Given w inits w')) := by
  unfold initialFreeState
  rw [ends_bind]
  apply (ends_chainCount count).mono
  · intro c w₁ hc
    rcases hc with ⟨rfl, rfl, hless⟩
    rw [ends_bind]
    apply (ends_initialValues g inits).mono
    · intro found w₂ hinitial
      rcases hinitial with ⟨rfl, htakes, hfound⟩
      have hkeys : (found.map Prod.fst).Nodup := by
        rw [map_fst_found hfound]
        exact hnodup
      have hfits : forall r, r ∈ found ->
          ∃ n, w₂.node? r.1 = some n ∧ r.2.2.array.shape = n.dim := by
        intro r hr
        rcases exists_left_of_forall₂ hfound hr with ⟨q, _, hfinds⟩
        rcases hfinds.value with ⟨n, t, y, hn, _, hy, hvalue⟩
        rw [hfinds.id, hvalue]
        exact ⟨n, hn, congrArg Tensor.shape (Tensor.eq_broadcast hy)⟩
      -- All initial values have been checked before the first one is assigned.
      rw [ends_bind]
      apply (ends_assignAll hkeys hfits).mono
      · intro _ w₃ hassigned
        have hgiven := hassigned.given hfound
        have hp' : w₃.settings.tensorPrecision w₃.wide = .ok p := by
          rw [hassigned.same.precision, hp]
        rw [ends_bind, ends_get]
        simp only [keysOf]
        rw [pure_bind, hp', ends_bind, ends_ofRefusal]
        constructor
        · intro p' hp''
          cases hp''
          rw [ends_bind]
          apply (ends_freeTensors hw hfound hnodup hassigned.same p g).mono
          · intro state w₄ hstate
            rcases hstate with ⟨rfl, hcounts, hholds⟩
            have hreported : w₂.SameModel (w₄.report (Channel.message .dag .debug
                ("Initialized the free state of " ++ toString (g.latents w₄).length ++
                  " variables"))) :=
              hassigned.same.trans ⟨fun _ => rfl, rfl, rfl, rfl⟩
            rw [ends_bind, ends_report, ends_pure]
            refine ⟨⟨hless, htakes⟩, hcounts, ?_⟩
            exact starts_of_holds hg hreported ⟨hgiven.others, hgiven.values⟩ hp hholds
          · intro f w₄ hf
            rcases hf with ⟨rfl, hrefused, hnot⟩
            exact Or.inr ⟨⟨hless, htakes⟩, hnot, hrefused, hgiven⟩
        · nofun
      · exact fun _ _ hfalse => hfalse.elim
    · intro f w₂ hf
      exact Or.inl ⟨fun haccepts => hf.2 haccepts.2, hf.1⟩
  · intro f w₁ hf
    exact Or.inl ⟨fun haccepts => hf.2 haccepts.1, hf.1⟩

end Action

/-- A workspace that holds the nodes of one that is reached by any calls, under settings that
are accepted. -/
structure Workspace.Ready (w : Workspace) : Prop where
  reached : ∃ o : Workspace, o.Reached (fun _ _ => True) ∧ o.nodes = w.nodes
  settings : w.settings.validate w.written w.wide = .ok ()

theorem Workspace.ready_of_isOk {o w : Workspace} (ho : o.Reached fun _ _ => True)
    (hnodes : o.nodes = w.nodes)
    (hok : (w.settings.validate w.written w.wide).isOk = true) : w.Ready := by
  refine ⟨⟨o, ho, hnodes⟩, ?_⟩
  cases hvalid : w.settings.validate w.written w.wide with
  | ok _ => rfl
  | error f =>
      rw [hvalid] at hok
      cases hok

theorem Workspace.Ready.hasFreeSizes {w : Workspace} (h : w.Ready) : w.HasFreeSizes := by
  rcases h.reached with ⟨o, ho, hnodes⟩
  have hsizes := hasFreeSizes_of_reached ho
  unfold HasFreeSizes Workspace.node? at hsizes ⊢
  rw [← hnodes]
  exact hsizes

namespace Action

open Workspace

/-- Without a seed, a call that is not accepted fails and changes nothing.  A call that is
accepted makes a free state if the chains can be counted, as whole numbers always can.
Otherwise it fails, and the variables keep the initial values. -/
theorem run_initialFreeState_none (w u : Workspace) (hw : w.Ready) (starts : List NodeId)
    (g : Dag) (hcompile : u.compile starts = .ok g) (inits : List (NodeId × Value))
    (hnodup : (inits.map Prod.fst).Nodup) (count : Value) :
    (¬Accepts w g inits count ->
      ∃ f, (initialFreeState g count inits .none).run w = (.error f, w)) ∧
    (Accepts w g inits count -> Counts w g inits count ->
      ∃ state w', (initialFreeState g count inits .none).run w = (.ok state, w') ∧
        Starts w g inits (w.settings.chains count) state w') ∧
    (Accepts w g inits count -> ¬Counts w g inits count ->
      ∃ w', (initialFreeState g count inits .none).run w = (.error (.refused .type), w') ∧
        Given w inits w') ∧
    forall k, w.settings.chains count = .int k -> Accepts w g inits count ->
      Counts w g inits count ∧
        ∃ m : Nat, copyCount (w.settings.chains count) = .ok m ∧ (m : Int) = k := by
  rcases precision_of_validate hw.settings with ⟨p, hp⟩
  have hg : g.nodes.Nodup := (sorts_of_compile hcompile).nodup
  have hends := ends_initialFreeState_none hw.hasFreeSizes hp hg hnodup count
  refine ⟨?_, ?_, ?_, ?_⟩
  · intro hnot
    rcases hends.exists_error fun _ _ hstarts => hnot hstarts.1 with
      ⟨f, w', hrun, ⟨_, hw'⟩ | ⟨haccepts, _⟩⟩
    · rw [hw'] at hrun
      exact ⟨f, hrun⟩
    · exact absurd haccepts hnot
  · intro haccepts hcounts
    rcases hends.exists_ok fun _ _ hfails => hfails.elim (fun h => h.1 haccepts)
      (fun h => h.2.1 hcounts) with ⟨state, w', hrun, _, _, hstarts⟩
    exact ⟨state, w', hrun, hstarts⟩
  · intro haccepts hnot
    rcases hends.exists_error fun _ _ hstarts => hnot hstarts.2.1 with
      ⟨f, w', hrun, ⟨hrefused, _⟩ | ⟨_, _, hf, hgiven⟩⟩
    · exact absurd haccepts hrefused
    · rw [hf] at hrun
      exact ⟨w', hrun, hgiven⟩
  · intro k hk haccepts
    have hless := haccepts.1
    rw [hk] at hless
    rcases copyCount_int hless with ⟨hcopies, hnonneg⟩
    unfold Counts
    rw [hk]
    exact ⟨fun _ _ => Or.inl ⟨k.toNat, rfl⟩, k.toNat, hcopies, hnonneg⟩

theorem reached_summed : summed.Reached fun _ _ => True :=
  reached_foldl (.empty _ true)

theorem ready_summed : summed.Ready :=
  ready_of_isOk reached_summed rfl (by decide +kernel)

theorem takes_summed : Takes summed 1 (.float 0.5) := by
  have hok : ((toFree 1 (.float 0.5)).run summed).1.isOk = true := by decide +kernel
  rcases exists_run_of_isOk hok with ⟨free, v, hrun⟩
  have hleaves := leaves_toFree (s := summed) 1 (.float 0.5)
  unfold Leaves at hleaves
  rw [hrun] at hleaves
  obtain rfl : v = summed := hleaves
  exact ⟨free, hrun⟩

/-- One of two variables gets a value between its bounds; a value outside of them changes
nothing. -/
theorem run_initialFreeState_none_summed :
    (∃ state w', (initialFreeState summedDag (.int 3) [(1, .float 0.5)] .none).run summed =
        (.ok state, w') ∧
      Starts summed summedDag [(1, .float 0.5)] (.int 3) state w') ∧
    ∃ f, (initialFreeState summedDag (.int 3) [(1, .float 1.5)] .none).run summed =
      (.error f, summed) := by
  have hall := run_initialFreeState_none summed summed ready_summed [2] summedDag compile_summed
  have hlatents : summedDag.latents summed = [0, 1] := by decide +kernel
  constructor
  · have haccepts : Accepts summed summedDag [(1, .float 0.5)] (.int 3) := by
      refine ⟨rfl, ?_⟩
      intro q hq
      rw [List.mem_singleton.mp hq, hlatents]
      exact ⟨by decide, takes_summed⟩
    rcases hall [(1, .float 0.5)] (by decide) (.int 3) with ⟨_, hstarts, _, hwhole⟩
    exact hstarts haccepts (hwhole 3 rfl haccepts).1
  · have hrefused : ((toFree 1 (.float 1.5)).run summed).1.isOk = false := by decide +kernel
    apply (hall [(1, .float 1.5)] (by decide) (.int 3)).1
    intro haccepts
    rcases (haccepts.2 (1, .float 1.5) (List.mem_singleton.mpr rfl)).2 with ⟨free, hfree⟩
    rw [hfree] at hrefused
    cases hrefused

def byDefault (w : Workspace) (count : Value) : Workspace :=
  { w with settings := { w.settings with defaultChains := count } }

theorem nodes_byDefault (w : Workspace) (count : Value) : (byDefault w count).nodes = w.nodes :=
  rfl

def fractional : Workspace :=
  byDefault summed (.float 2.5)

/-- A call that fails may have changed a variable. -/
theorem not_unchanged_fractional :
    ¬forall (w u : Workspace) (starts : List NodeId) (g : Dag)
      (inits : List (NodeId × Value)) (f : Failure) (w' : Workspace), w.Ready ->
        u.compile starts = .ok g -> (inits.map Prod.fst).Nodup ->
          (initialFreeState g .none inits .none).run w = (.error f, w') ->
            forall id, (w'.node? id).map Node.value = (w.node? id).map Node.value := by
  intro hall
  have hready : fractional.Ready :=
    ready_of_isOk reached_summed (nodes_byDefault summed (.float 2.5)).symm (by decide +kernel)
  have hfails : ((initialFreeState summedDag .none [(1, .float 0.5)] .none).run
      fractional).1.isOk = false := by decide +kernel
  have hknown : ((((initialFreeState summedDag .none [(1, .float 0.5)] .none).run
      fractional).2.node? 1).map Node.value).all NodeValue.hasUnknowns = false := by
    decide +kernel
  have hunknown : ((fractional.node? 1).map Node.value).all NodeValue.hasUnknowns = true := by
    decide +kernel
  cases hrun : (initialFreeState summedDag .none [(1, .float 0.5)] .none).run fractional with
  | mk result w' =>
      rw [hrun] at hfails hknown
      cases result with
      | ok state => cases hfails
      | error f =>
          have hsame := hall fractional summed [2] summedDag [(1, .float 0.5)] f w' hready
            compile_summed (by decide) hrun 1
          rw [hsame, hunknown] at hknown
          cases hknown

end Action
end DensityGraph
