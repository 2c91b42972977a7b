import DensityGraph.Proofs.Graph.Range
import DensityGraph.Proofs.Scalar.Doubles
import DensityGraph.Proofs.Value.Array
/-!
# Observations

Data are observed for the distribution that a node is the target of, if they have its shape
and none of their entries is refused.  An entry is refused if it lies below or above the
range of the distribution or, where that is discrete, is neither infinite nor a whole number.
So an entry that does not compare is not refused unless the distribution is discrete.  The
data then take the place of the target, and all other nodes stay as they were.
-/

namespace DensityGraph

namespace Distribution

open Extended

variable {d : Distribution}

structure Allows (d : Distribution) (x : Float) : Prop where
  range : x.isNaN = true ∨ d.range.lower ≤ x ∧ x ≤ d.range.upper
  whole : d.isDiscrete = true ->
    x.isInf = true ∨ x.isFinite = true ∧ ∃ k : ℤ, Dyadic.toReal x = k

theorem Ranged.admits_iff (h : d.Ranged) (t : Tensor Float) :
    d.range.admits t = true ↔
      forall x, x ∈ t.toList -> x.isNaN = true ∨ d.range.lower ≤ x ∧ x ≤ d.range.upper := by
  rcases isNaN_of_lt h.lt_range with ⟨hlower, hupper⟩
  unfold Interval.admits
  rw [List.all_eq_true]
  apply forall₂_congr
  intro x _
  simp only [Bool.and_eq_true, Bool.not_eq_true', decide_eq_false_iff_not]
  cases hx : x.isNaN with
  | true =>
      have hlow : ¬x < d.range.lower := by
        intro hlt
        rw [(isNaN_of_lt hlt).1] at hx
        cases hx
      have hhigh : ¬d.range.upper < x := by
        intro hlt
        rw [(isNaN_of_lt hlt).2] at hx
        cases hx
      exact ⟨fun _ => Or.inl rfl, fun _ => ⟨hlow, hhigh⟩⟩
  | false =>
      rw [not_lt_iff hx hlower, not_lt_iff hupper hx]
      simp

theorem Ranged.allows_iff (h : d.Ranged) (t : Tensor Float) :
    (d.range.admits t = true ∧ (d.isDiscrete && !areWhole t) = false) ↔
      forall x, x ∈ t.toList -> d.Allows x := by
  have hwhole : (d.isDiscrete && !areWhole t) = false ↔ forall x, x ∈ t.toList ->
      d.isDiscrete = true ->
        x.isInf = true ∨ x.isFinite = true ∧ ∃ k : ℤ, Dyadic.toReal x = k := by
    unfold areWhole
    cases d.isDiscrete with
    | false => simp
    | true => simp [List.all_eq_true, Dyadic.isWhole_iff]
  rw [h.admits_iff, hwhole]
  constructor
  · intro hall x hx
    exact ⟨hall.1 x hx, hall.2 x hx⟩
  · intro hall
    exact ⟨fun x hx => (hall x hx).range, fun x hx => (hall x hx).whole⟩

end Distribution

namespace Workspace

variable {u v w w' : Workspace} {id t x y : NodeId} {n m : Node} {d : Distribution}

/-!
# Data
-/

/-- A value is a data node, or data can be made of it; the entries are known. -/
inductive HoldsData (w : Workspace) : Value → Tensor Float → Prop where
  | node {y : NodeId} {n : Node} : w.node? y = some n -> n.isData = true ->
      HoldsData w (.node y) n.value.array.toFloats
  | value {v : Value} {t : Tensor Float} : Action.isNode v = false ->
      v.toData w.kindOf = .ok t -> (forall k, k ∈ t.shape -> 1 ≤ k) -> HoldsData w v t

inductive MakesData (w : Workspace) (data : Value) (y : NodeId) : Workspace → Prop where
  | node : data = .node y -> MakesData w data y w
  | value (t : Tensor Float) : Action.isNode data = false -> y = w.nodes.length ->
      MakesData w data y (w.reserve.put y (Node.lone t.shape (.ofFloats t) .data))

theorem MakesData.node?_of_ne {data : Value} (h : w.MakesData data y v) (hx : x ≠ y) :
    v.node? x = w.node? x := by
  cases h with
  | node _ => rfl
  | value t _ _ => rw [node?_put_of_ne _ _ (Ne.symm hx), node?_reserve]

theorem MakesData.free_iff {data : Value} (h : w.MakesData data y v)
    (hm : v.node? y = some m) :
    m.distribution = none ↔ forall x, data = .node x -> w.owner? x = none := by
  cases h with
  | node hdata =>
      rw [hdata, ← owner?_of_node? hm]
      constructor
      · intro hnone x hx
        cases hx
        exact hnone
      · intro hall
        exact hall y rfl
  | value t hdata hy =>
      have hlt : y < w.reserve.nodes.length := by
        rw [hy]
        simp [reserve]
      have hput := node?_put_self w.reserve (Node.lone t.shape (.ofFloats t) .data) hlt
      rw [hput] at hm
      cases hm
      constructor
      · intro _ x hx
        rw [hx] at hdata
        cases hdata
      · intro _
        rfl

end Workspace

namespace Action

open Workspace

variable {w : Workspace} {data : Value} {t : Tensor Float}
  {E : Failure → Workspace → Prop}

theorem ends_asData_of_holds (h : w.HoldsData data t) :
    Ends (asData data) w (fun y v => w.MakesData data y v ∧ w.GrowsTo v ∧
      ∃ m, v.node? y = some m ∧ m.isData = true ∧ m.value.array.toFloats = t) E := by
  cases h with
  | @node y n hn hdata =>
      unfold asData
      rw [ends_bind, ends_node_of_some hn]
      simp only [hdata, if_true]
      exact ends_pure.mpr ⟨MakesData.node rfl, growsTo_refl w, n, hn, hdata, rfl⟩
  | value hnode ht hpositive =>
      have hnew : asData data = newData data := by
        unfold asData
        split
        · cases hnode
        · rfl
      have hany : (t.shape.any (· < 1)) = false := by
        rw [List.any_eq_false]
        intro k hk
        have hle := hpositive k hk
        simp only [decide_eq_true_eq]
        omega
      have hdim : t.shape.IsDim :=
        ⟨by have := two_le_length_toData ht; omega, hpositive⟩
      rcases growsTo_put (w := w) (Node.Made.data t hdim) rfl with ⟨hgrows, hput, _⟩
      rw [hnew]
      unfold newData
      rw [ends_bind, ends_get, ends_bind, ends_ofExcept, ht]
      constructor
      · rintro _ ⟨⟩
        rw [ends_bind, ends_reserve]
        simp only [hany, Bool.false_eq_true, if_false]
        rw [ends_bind, ends_put, ends_pure]
        exact ⟨MakesData.value t hnode rfl, hgrows, _, hput, rfl, rfl⟩
      · rintro _ ⟨⟩

end Action

/-!
# Replacing a target

An observation detaches the old target, attaches the data and hands them out.  Everything
else is as it was before the data were made.
-/

namespace Workspace

variable {u v w w' : Workspace} {id t x y : NodeId} {nv : NodeValue}

def user? (w : Workspace) (id : NodeId) : Option NodeId :=
  ((w.node? id).bind Node.distribution?).map Distribution.userNode

/-- What a workspace is after data `y` have taken the place of the target `t` of a
distribution `id`. -/
structure Replaces (w w' : Workspace) (id t y : NodeId) : Prop where
  target : w'.target? id = some y
  user : w'.user? id = some y
  owner : w'.owner? y = some id
  released : w'.owner? t = none
  parents : forall p, p ∈ w'.parents id ↔ p ∈ w.parents id ∧ p ≠ t ∨ p = y
  oldChildren : forall c, c ∈ w'.children t ↔ c ∈ w.children t ∧ c ≠ id
  newChildren : forall c, c ∈ w'.children y ↔ c ∈ w.children y ∨ c = id
  otherParents : forall x, x ≠ id -> w'.parents x = w.parents x
  otherChildren : forall x, x ≠ t -> x ≠ y -> w'.children x = w.children x
  otherTargets : forall x, x ≠ id -> w'.target? x = w.target? x
  otherOwners : forall x, x ≠ t -> x ≠ y -> w'.owner? x = w.owner? x

theorem parents_detach (x : NodeId) : (w.edit (.detach id t)).parents x =
    if x = id then (w.parents id).filter (· != t) else w.parents x := by
  refine (parents_update (fun n => Node.parents_mapDistribution n _) x).trans ?_
  refine (parents_update (by intro _; rfl) x).trans ?_
  exact parents_unlink x

theorem children_detach (x : NodeId) : (w.edit (.detach id t)).children x =
    if x = t then (w.children t).filter (· != id) else w.children x := by
  refine (children_update (fun _ => Node.children_mapDistribution) x).trans ?_
  refine (children_update (by intro _; rfl) x).trans ?_
  exact children_unlink x

theorem parents_attach (hid : (w.node? id).isSome = true) (x : NodeId) :
    (w.edit (.attach id t nv)).parents x =
      if x = id ∧ t ∉ w.parents id then w.parents id ++ [t] else w.parents x := by
  have hparents : forall x,
      (w.update id (Node.mapDistribution (Distribution.setTarget (some t)))).parents x =
        w.parents x := parents_update fun n => Node.parents_mapDistribution n _
  refine (parents_update (by intro _; rfl) x).trans ?_
  refine (parents_update (by intro _; rfl) x).trans ?_
  rw [parents_link, hparents, hparents]
  rw [node?_update, Option.isSome_map]
  exact hid

theorem children_attach (ht : (w.node? t).isSome = true) (x : NodeId) :
    (w.edit (.attach id t nv)).children x =
      if x = t ∧ id ∉ w.children t then w.children t ++ [id] else w.children x := by
  have hchildren : forall x,
      (w.update id (Node.mapDistribution (Distribution.setTarget (some t)))).children x =
        w.children x := children_update fun _ => Node.children_mapDistribution
  refine (children_update (by intro _; rfl) x).trans ?_
  refine (children_update (by intro _; rfl) x).trans ?_
  rw [children_link, hchildren, hchildren]
  rw [node?_update, Option.isSome_map]
  exact ht

theorem mem_appended {xs : List NodeId} {a p : NodeId} :
    p ∈ (if a ∉ xs then xs ++ [a] else xs) ↔ p ∈ xs ∨ p = a := by
  by_cases ha : a ∈ xs
  · rw [if_neg fun h => h ha]
    constructor
    · exact Or.inl
    · intro h
      rcases h with hp | hp
      · exact hp
      · rw [hp]
        exact ha
  · rw [if_pos ha, List.mem_append, List.mem_singleton]

theorem mem_parents_attach (hid : (w.node? id).isSome = true) {p : NodeId} :
    p ∈ (w.edit (.attach id t nv)).parents id ↔ p ∈ w.parents id ∨ p = t := by
  rw [parents_attach hid]
  simp only [true_and]
  exact mem_appended

theorem mem_children_attach (ht : (w.node? t).isSome = true) {c : NodeId} :
    c ∈ (w.edit (.attach id t nv)).children t ↔ c ∈ w.children t ∨ c = id := by
  rw [children_attach ht]
  simp only [true_and]
  exact mem_appended

theorem parents_user (x : NodeId) : (w.edit (.user id y)).parents x = w.parents x :=
  parents_update (fun n => Node.parents_mapDistribution n _) x

theorem children_user (x : NodeId) : (w.edit (.user id y)).children x = w.children x :=
  children_update (fun _ => Node.children_mapDistribution) x

theorem user?_user (h : w.target? id = some t) :
    (w.edit (.user id y)).user? id = some y := by
  rcases Action.exists_of_target? h with ⟨n, d, hn, hd, _⟩
  rcases exists_node?_edit (e := .user id y) trivial hn with ⟨n', hn', hchanges⟩
  have hrole := hchanges.role
  simp only [Edit.roleAfter, if_true] at hrole
  unfold user?
  rw [hn', Option.bind_some, Node.distribution?_of_mapDistribution hrole, hd]
  rfl

theorem replaces_of_edits (hne : t ≠ y) (hdetach : w.Admits (.detach id t))
    (hattach : (w.edit (.detach id t)).Admits (.attach id y nv)) :
    w.Replaces (((w.edit (.detach id t)).edit (.attach id y nv)).edit (.user id y)) id t y := by
  have hid : ((w.edit (.detach id t)).node? id).isSome = true := by
    rcases hattach with ⟨n, d, m, hn, _⟩
    rw [hn]
    rfl
  have hy : ((w.edit (.detach id t)).node? y).isSome = true := by
    rcases hattach with ⟨n, d, m, _, _, _, hm, _⟩
    rw [hm]
    rfl
  have howner : forall x,
      (((w.edit (.detach id t)).edit (.attach id y nv)).edit (.user id y)).owner? x =
        if x = y then some id else if x = t then none else w.owner? x := by
    intro x
    rw [owner?_edit (e := .user id y) trivial, owner?_edit hattach, owner?_edit hdetach]
    rfl
  have htarget : forall x,
      (((w.edit (.detach id t)).edit (.attach id y nv)).edit (.user id y)).target? x =
        if x = id then some y else if x = id then none else w.target? x := by
    intro x
    rw [target?_edit (e := .user id y) trivial, target?_edit hattach, target?_edit hdetach]
    rfl
  constructor
  case target => rw [htarget, if_pos rfl]
  case user =>
    apply user?_user (t := y)
    rw [target?_edit hattach]
    exact if_pos rfl
  case owner => rw [howner, if_pos rfl]
  case released => rw [howner, if_neg hne, if_pos rfl]
  case parents =>
    intro p
    rw [parents_user, mem_parents_attach hid, parents_detach, if_pos rfl, List.mem_filter,
      bne_iff_ne]
  case oldChildren =>
    intro c
    rw [children_user, children_attach hy, if_neg fun h => hne h.1, children_detach, if_pos rfl,
      List.mem_filter, bne_iff_ne]
  case newChildren =>
    intro c
    rw [children_user, mem_children_attach hy, children_detach, if_neg (Ne.symm hne)]
  case otherParents =>
    intro x hx
    rw [parents_user, parents_attach hid, if_neg fun h => hx h.1, parents_detach, if_neg hx]
  case otherChildren =>
    intro x hxt hxy
    rw [children_user, children_attach hy, if_neg fun h => hxy h.1, children_detach, if_neg hxt]
  case otherTargets =>
    intro x hx
    rw [htarget, if_neg hx, if_neg hx]
  case otherOwners =>
    intro x hxt hxy
    rw [howner, if_neg hxy, if_neg hxt]

theorem Replaces.report (h : w.Replaces w' id t y) (message : Message) :
    w.Replaces (w'.edit (.report message)) id t y :=
  ⟨h.target, h.user, h.owner, h.released, h.parents, h.oldChildren, h.newChildren,
    h.otherParents, h.otherChildren, h.otherTargets, h.otherOwners⟩

theorem MakesData.same {data : Value} (h : w.MakesData data y v) (x : NodeId) :
    v.parents x = w.parents x ∧ v.children x = w.children x ∧ v.target? x = w.target? x ∧
      v.owner? x = w.owner? x := by
  by_cases hx : x = y
  · cases h with
    | node _ => exact ⟨rfl, rfl, rfl, rfl⟩
    | value t _ hy =>
        have hnone : w.node? x = none := by
          rw [hx, hy]
          exact node?_length w
        have hlt : y < w.reserve.nodes.length := by
          rw [hy]
          simp [reserve]
        have hput := node?_put_self w.reserve (Node.lone t.shape (.ofFloats t) .data) hlt
        rw [← hx] at hput
        refine ⟨?_, ?_, ?_, ?_⟩
        · rw [← hx, parents_of_none hnone, parents_of_node? hput]
          rfl
        · rw [← hx, children_of_none hnone, children_of_node? hput]
          rfl
        · unfold target?
          rw [← hx, hnone, hput]
          rfl
        · unfold owner?
          rw [← hx, hnone, hput]
          rfl
  · have hsame := h.node?_of_ne hx
    unfold Workspace.parents Workspace.children target? owner?
    rw [hsame]
    exact ⟨rfl, rfl, rfl, rfl⟩

theorem Replaces.of_makesData {data : Value} (hdata : w.MakesData data y v)
    (h : v.Replaces w' id t y) : w.Replaces w' id t y where
  target := h.target
  user := h.user
  owner := h.owner
  released := h.released
  parents p := by
    rw [h.parents, (hdata.same id).1]
  oldChildren c := by
    rw [h.oldChildren, (hdata.same t).2.1]
  newChildren c := by
    rw [h.newChildren, (hdata.same y).2.1]
  otherParents x hx := (h.otherParents x hx).trans (hdata.same x).1
  otherChildren x hxt hxy := (h.otherChildren x hxt hxy).trans (hdata.same x).2.1
  otherTargets x hx := (h.otherTargets x hx).trans (hdata.same x).2.2.1
  otherOwners x hxt hxy := (h.otherOwners x hxt hxy).trans (hdata.same x).2.2.2

end Workspace

namespace Workspace

variable {v w w' : Workspace} {e : Edit} {id t u y : NodeId} {n n' : Node} {nv : NodeValue}
  {data : Value} {entries : Tensor Float}

/-- When data can be observed for the distribution that a node is the target of. -/
def CanObserve (w : Workspace) (u : NodeId) (data : Value) (t : Tensor Float) : Prop :=
  ∃ id n d, w.owner? u = some id ∧ w.node? id = some n ∧ n.distribution? = some d ∧
    (forall y, data = .node y -> w.owner? y = none) ∧ t.shape = n.dim ∧
    forall x, x ∈ t.toList -> d.Allows x

/-- What has been observed is held by a node that was there before, or is new. -/
structure Observes (w w' : Workspace) (data : Value) (t : Tensor Float) (y : NodeId) :
    Prop where
  holds : w'.HoldsData (.node y) t
  origin : data = .node y ∨ Action.isNode data = false ∧ w.node? y = none

theorem HoldsData.changes (hadmits : w.Admits e) (h : w.HoldsData (.node y) entries)
    (hvalue : forall n, w.node? y = some n -> e.valueAfter y n = n.value) :
    (w.edit e).HoldsData (.node y) entries := by
  cases h with
  | node hn hdata =>
      rename_i n
      rcases exists_node?_edit hadmits hn with ⟨n', hn', hchanges⟩
      have hrole := role_of_changes hchanges (isDistribution_of_isData hdata)
      have hdata' : n'.isData = true := by
        unfold Node.isData at hdata ⊢
        rw [hrole]
        exact hdata
      have hsame : n'.value = n.value := hchanges.value.trans (hvalue n hn)
      rw [← hsame]
      exact HoldsData.node hn' hdata'
  | value hnode _ _ => cases hnode

theorem HoldsData.observed (hdetach : w.Admits (.detach id t))
    (hattach : (w.edit (.detach id t)).Admits (.attach id y nv))
    (h : w.HoldsData (.node y) entries) :
    (((w.edit (.detach id t)).edit (.attach id y nv)).edit (.user id y)).HoldsData (.node y)
      entries := by
  have hne : y ≠ id := by
    rcases hattach with ⟨_, _, _, _, _, _, _, _, _, hne, _⟩
    exact hne
  have hdetached := h.changes hdetach fun _ _ => rfl
  have hattached := hdetached.changes hattach fun _ _ => if_neg hne
  exact hattached.changes (e := .user id y) trivial fun _ _ => rfl

theorem canObserve_iff (howner : w.owner? u = some id) (hn : w.node? id = some n)
    (hd : n.distribution? = some d) :
    w.CanObserve u data entries ↔ (forall y, data = .node y -> w.owner? y = none) ∧
      entries.shape = n.dim ∧ forall x, x ∈ entries.toList -> d.Allows x := by
  constructor
  · intro h
    rcases h with ⟨id', n', d', hid', hn', hd', hrest⟩
    rw [howner] at hid'
    cases hid'
    rw [hn] at hn'
    cases hn'
    rw [hd] at hd'
    cases hd'
    exact hrest
  · intro hrest
    exact ⟨id, n, d, howner, hn, hd, hrest⟩

theorem MakesData.origin (h : w.MakesData data y v) :
    data = .node y ∨ Action.isNode data = false ∧ w.node? y = none := by
  cases h with
  | node hdata => exact Or.inl hdata
  | value t hnode hy =>
      rw [hy]
      exact Or.inr ⟨hnode, node?_length w⟩

theorem MakesData.ne_target (hmakes : w.MakesData data y v) (howner : w.owner? u = some id)
    (hm : v.node? y = some m) (hfree : m.distribution = none) : u ≠ y := by
  intro heq
  have hown : v.owner? u = some id := by
    rw [(hmakes.same u).2.2.2, howner]
  rw [heq, owner?_of_node? hm, hfree] at hown
  cases hown

theorem canName_iff (howner : w.owner? u = some id) (hlabel : v.label id = w.label id) :
    w.CanName u ↔ (v.label id).isWritable = true := by
  rw [hlabel]
  constructor
  · exact fun hname => hname id howner
  · intro hwritable id' hid'
    rw [howner, Option.some.injEq] at hid'
    rw [← hid']
    exact hwritable

theorem MakesData.observes (hmakes : w.MakesData data y v)
    (hholds : v.HoldsData (.node y) entries) (hne : u ≠ y) (hdetach : v.Admits (.detach id u))
    (hattach : (v.edit (.detach id u)).Admits (.attach id y nv))
    (hw' : w' = ((v.edit (.detach id u)).edit (.attach id y nv)).edit (.user id y)) :
    w.Observes w' data entries y ∧ w.Replaces w' id u y := by
  rw [hw']
  exact ⟨⟨hholds.observed hdetach hattach, hmakes.origin⟩,
    (replaces_of_edits hne hdetach hattach).of_makesData hmakes⟩

theorem Observes.report (h : w.Observes w' data entries y) (message : Message) :
    w.Observes (w'.edit (.report message)) data entries y :=
  ⟨h.holds.changes (e := .report message) trivial fun _ _ => rfl, h.origin⟩

end Workspace

namespace Action

open Workspace

variable {w : Workspace} {u : NodeId} {k : Node} {data : Value} {t : Tensor Float}

/-- How an observation can fail: for a reason if it cannot be made, and otherwise over the name
of the distribution, when the target has been replaced. -/
inductive Misses (w : Workspace) (u : NodeId) (data : Value) (t : Tensor Float) (f : Failure)
    (w' : Workspace) : Prop where
  | refused (reason : Invalid) : ¬w.CanObserve u data t -> f = .invalid reason ->
      Misses w u data t f w'
  | unnamed {y id : NodeId} : w.CanObserve u data t -> ¬w.CanName u -> f = .refused .value ->
      w.owner? u = some id -> w.Observes w' data t y -> w.Replaces w' id u y ->
      Misses w u data t f w'

theorem ends_refused {β : Type} {v : Workspace} {id : NodeId} {reason : Label → Invalid}
    {rest : PUnit → Action β} {Q : β → Workspace → Prop} (h : ¬w.CanObserve u data t) :
    Ends (label id >>= fun l => invalid (reason l) >>= rest) v Q (Misses w u data t) := by
  rw [ends_bind, ends_label, ends_bind, ends_invalid]
  exact Misses.refused _ h rfl

/-- An observation returns in the cases in which it can be made and reported, and then has
replaced the target. -/
theorem ends_observe_of_holds (howned : w.Owned) (hvalues : w.FitsValues)
    (hranges : w.HasRanges) (hk : w.node? u = some k) (hdata : w.HoldsData data t) :
    Ends (observe data (.node u)) w
      (fun y w' => (w.CanObserve u data t ∧ w.CanName u) ∧ w.Observes w' data t y ∧
        ∃ id, w.owner? u = some id ∧ w.Replaces w' id u y)
      (Misses w u data t) := by
  have howner : w.owner? u = k.distribution := owner?_of_node? hk
  unfold observe
  simp only [nodeId, pure_bind]
  rw [ends_bind, ends_node_of_some hk]
  cases hid : k.distribution with
  | none =>
      rw [ends_bind, ends_label, ends_invalid]
      refine Misses.refused _ ?_ rfl
      intro h
      rcases h with ⟨id, _, _, hsome, _⟩
      rw [howner, hid] at hsome
      cases hsome
  | some id =>
      rw [hid] at howner
      rcases exists_of_target? (howned u id howner) with ⟨n, d, hn, hd, htarget⟩
      simp only
      apply Ends.bind (ends_asData_of_holds hdata)
      intro y v hmade
      rcases hmade with ⟨hmakes, hgrows, m, hm, hisData, hentries⟩
      have hn' : v.node? id = some n := hgrows.node? hn
      have hfits : m.value.array.shape = m.dim := by
        have hall : v.FitsValues :=
          hgrows.preserves hvalues fun _ _ hv hadmits _ => hv.edit hadmits
        exact hall y m hm
      have hshape : t.shape = m.dim := by
        rw [← hentries, NumericArray.shape_toFloats, hfits]
      have hfree := hmakes.free_iff hm
      have hallows := (hranges id n d hn hd).allows_iff t
      have hcan : w.CanObserve u data t ↔ _ := canObserve_iff howner hn hd
      -- Every check that fails refutes one part of the condition.
      rw [ends_bind, ends_node_of_some hm, ends_ite]
      constructor
      · intro hsome
        apply ends_refused
        rw [hcan]
        intro h
        rw [hfree.mpr h.1] at hsome
        cases hsome
      intro hsome
      have hnone : m.distribution = none := by simpa using hsome
      rw [ends_bind, ends_node_of_some hn', ends_ite]
      constructor
      · intro hdim
        apply ends_refused
        exact fun h => hdim (hshape.symm.trans (hcan.mp h).2.1)
      intro hdim
      rw [ends_bind, ends_distribution_of_some hn' hd, hentries, ends_ite]
      constructor
      case right =>
        intro hadmits
        apply ends_refused
        exact fun h => hadmits (hallows.mpr (hcan.mp h).2.2).1
      intro hadmits
      rw [ends_ite]
      constructor
      · intro hfraction
        apply ends_refused
        intro h
        rw [(hallows.mpr (hcan.mp h).2.2).2] at hfraction
        cases hfraction
      intro hwhole
      have hall := hallows.mp ⟨hadmits, eq_false_of_ne_true hwhole⟩
      have hsame : m.dim = n.dim := Classical.not_not.mp hdim
      have hobserve := hcan.mpr ⟨hfree.mp hnone, hshape.trans hsame, hall⟩
      have hname := canName_iff howner (hgrows.label (x := id) (by rw [hn]; rfl)).2
      have hholds : v.HoldsData (.node y) t := hentries ▸ HoldsData.node hm hisData
      rcases ends_replaceTarget_of_fits hn' hd htarget hm hisData hnone hsame hfits with
        ⟨hattach, hreplace⟩
      have hne := hmakes.ne_target howner hm hnone
      rcases hmakes.observes hholds hne ⟨n, d, hn', hd, htarget⟩ hattach rfl with
        ⟨hobserves, hreplaces⟩
      refine hreplace.mono ?_ ?_
      · rintro r w' ⟨rfl, hwritable, message, rfl⟩
        exact ⟨⟨hobserve, hname.mpr hwritable⟩, hobserves.report message, id, howner,
          hreplaces.report message⟩
      · rintro f w' ⟨hf, hwritable, rfl⟩
        refine Misses.unnamed hobserve ?_ hf howner hobserves hreplaces
        rw [hname, hwritable]
        exact Bool.false_ne_true

end Action

namespace Action

open Workspace

/-- For the node of a distribution and a value that holds data, an observation returns if and
only if the data belong to no distribution yet, have its shape, and have only entries that it
allows, and is refused for a reason in all other cases.  When it returns, the data have become
the target and the node that stands for the distribution, the old target belongs to no
distribution and is not among its parents, and nothing else has changed.  So it is where the
distribution cannot be named, but then the observation fails all the same. -/
theorem observe_returns_iff (w : Workspace) (hw : w.Reached fun _ _ => True) (u : NodeId)
    (hu : (w.node? u).isSome = true) (data : Value) (t : Tensor Float)
    (hdata : w.HoldsData data t) :
    ((∃ y w', (observe data (.node u)).run w = (.ok y, w')) ↔
      w.CanObserve u data t ∧ w.CanName u) ∧
    (¬w.CanObserve u data t ->
      ∃ reason w', (observe data (.node u)).run w = (.error (.invalid reason), w')) ∧
    (w.CanObserve u data t -> ¬w.CanName u ->
      ∃ w', (observe data (.node u)).run w = (.error (.refused .value), w') ∧
        ∃ y id, w.Observes w' data t y ∧ w.owner? u = some id ∧ w.Replaces w' id u y) ∧
    forall y w', (observe data (.node u)).run w = (.ok y, w') ->
      w.Observes w' data t y ∧ ∃ id, w.owner? u = some id ∧ w.Replaces w' id u y := by
  rcases Option.isSome_iff_exists.mp hu with ⟨k, hk⟩
  have hends := ends_observe_of_holds (owned_of_reached hw) (fitsValues_of_reached hw)
    (hasRanges_of_reached hw) hk hdata
  refine ⟨hends.exists_ok_iff (fun _ _ h => h.1) ?_, ?_, ?_, ?_⟩
  · rintro f w' (⟨_, hnot, _⟩ | ⟨_, hnot, _⟩) ⟨hcan, hname⟩
    · exact hnot hcan
    · exact hnot hname
  · intro hnot
    rcases hends.exists_error fun _ _ h => hnot h.1.1 with
      ⟨f, w', hrun, ⟨reason, _, rfl⟩ | ⟨hcan, _⟩⟩
    · exact ⟨reason, w', hrun⟩
    · exact absurd hcan hnot
  · intro hcan hnot
    rcases hends.exists_error fun _ _ h => hnot h.1.2 with
      ⟨f, w', hrun, ⟨_, hrefused, _⟩ | ⟨_, _, rfl, howner, hobserves, hreplaces⟩⟩
    · exact absurd hcan hrefused
    · exact ⟨w', hrun, _, _, hobserves, howner, hreplaces⟩
  · intro y w' hrun
    exact (hends.of_ok hrun).2

/-- A variable with a standard normal distribution, and a count with a Poisson distribution. -/
def variates : Workspace :=
  [Call.declare .normal [.float 0.0, .float 1.0] [],
    Call.declare .poisson [.float 1.0] []].foldl Workspace.after (.empty {} true)

/-- A number that does not compare is observed for a normal distribution, and refused for a
discrete one. -/
theorem observe_returns_iff_variates :
    ∃ t, variates.HoldsData (.float (0.0 / 0.0)) t ∧
      variates.CanObserve 3 (.float (0.0 / 0.0)) t ∧
      ¬variates.CanObserve 6 (.float (0.0 / 0.0)) t := by
  have hreached : variates.Reached fun _ _ => True := reached_foldl (.empty {} true)
  have hread : ∃ t, (Value.float (0.0 / 0.0)).toData variates.kindOf = .ok t ∧
      t.shape = [1, 1] := ⟨_, rfl, rfl⟩
  rcases hread with ⟨t, ht, hshape⟩
  have hdata : variates.HoldsData (.float (0.0 / 0.0)) t := by
    apply HoldsData.value rfl ht
    rw [hshape]
    decide
  have hnormal : ((observe (.float (0.0 / 0.0)) (.node 3)).run variates).1.isOk = true := by
    decide +kernel
  have hpoisson : ((observe (.float (0.0 / 0.0)) (.node 6)).run variates).1.isOk = false := by
    decide +kernel
  refine ⟨t, hdata, ?_, ?_⟩
  · rcases exists_run_of_isOk hnormal with ⟨y, w', hrun⟩
    exact ((observe_returns_iff variates hreached 3 (by decide +kernel) _ t hdata).1.mp
      ⟨y, w', hrun⟩).1
  · intro hcan
    have hname : variates.CanName 6 := by
      intro id hid
      have howner : variates.owner? 6 = some 5 := by decide +kernel
      rw [howner] at hid
      cases hid
      decide +kernel
    rcases (observe_returns_iff variates hreached 6 (by decide +kernel) _ t hdata).1.mpr
      ⟨hcan, hname⟩ with ⟨y, w', hrun⟩
    rw [hrun] at hpoisson
    cases hpoisson

/-- Data that are observed need not lie within the range. -/
theorem not_within_variates :
    ¬forall (w : Workspace) (u : NodeId) (data : Value) (t : Tensor Float) (y : NodeId)
      (w' : Workspace), w.Reached (fun _ _ => True) -> w.HoldsData data t ->
        (observe data (.node u)).run w = (.ok y, w') ->
          ∃ id n d, w.owner? u = some id ∧ w.node? id = some n ∧ n.distribution? = some d ∧
            forall x, x ∈ t.toList -> d.range.lower ≤ x ∧ x ≤ d.range.upper := by
  intro h
  have hread : ∃ t, (Value.float (0.0 / 0.0)).toData variates.kindOf = .ok t ∧
      t.shape = [1, 1] ∧ (0.0 / 0.0) ∈ t.toList := ⟨_, rfl, rfl, List.mem_singleton.mpr rfl⟩
  rcases hread with ⟨t, ht, hshape, hmem⟩
  have hdata : variates.HoldsData (.float (0.0 / 0.0)) t := by
    apply HoldsData.value rfl ht
    rw [hshape]
    decide
  have hreturns : ((observe (.float (0.0 / 0.0)) (.node 3)).run variates).1.isOk = true := by
    decide +kernel
  rcases exists_run_of_isOk hreturns with ⟨y, w', hrun⟩
  rcases h variates 3 _ t y w' (reached_foldl (.empty {} true)) hdata hrun with
    ⟨id, n, d, _, _, _, hall⟩
  have hnumber := (Extended.isNaN_of_le (hall _ hmem).1).2
  exact absurd hnumber (by decide +kernel)

end Action

end DensityGraph
