import DensityGraph.Proofs.Evaluation.Chains
/-!
# Values for a run and for its chains

A free state of `n` rows is split into `n` states of one row, and so are data of `n` rows
that are fed.  What a chain accepts is accepted in the whole run, too.
-/

namespace DensityGraph

open Tensor

/-!
# Rows of values
-/

theorem Shape.project_of_cons {s : Shape} {index : List Nat} (i : Nat)
    (h : index.length = s.length) : project s (i :: index) = project s index := by
  unfold project
  have hlong : (i :: index).length - s.length = 1 := by
    rw [List.length_cons, h]
    omega
  have hshort : index.length - s.length = 0 := by
    rw [h, Nat.sub_self]
  rw [hlong, hshort, List.drop_zero]
  rfl

theorem Tensor.isChain_row {β : Type} [Inhabited β] {t : Tensor β} {n i : Nat} {s : Shape}
    (h : t.shape = n :: s) (hi : i < n) :
    IsChain n i s t ((t.row i).broadcast (1 :: (t.row i).shape)) := by
  have hrow : (t.row i).shape = s := shape_row h
  have hbatched : ((t.row i).broadcast (1 :: (t.row i).shape)).shape = 1 :: s := by
    rw [hrow]
    rfl
  refine ⟨⟨n, h, Or.inr rfl⟩, hbatched, ?_⟩
  rw [chain_of_single hbatched, chain_of_lt h hi]
  apply ext_get
  · rw [shape_row hbatched, hrow]
  · intro index hindex
    rw [shape_row hbatched] at hindex
    have hself : (t.row i).shape.project (0 :: index) = index := by
      rw [hrow, Shape.project_of_cons 0 (Shape.length_of_within hindex),
        Shape.project_self hindex]
    have hwithin : Shape.Within (1 :: (t.row i).shape) (0 :: index) := by
      rw [hrow]
      exact ⟨Nat.one_pos, hindex⟩
    rw [get_row hbatched hindex]
    unfold broadcast
    rw [get_ofFn _ hwithin, hself]

namespace Value

def IsRow (n i : Nat) (s : Shape) (v v' : Value) : Prop :=
  ∃ t u, v.toFloats = .ok t ∧ v'.toFloats = .ok u ∧ t.shape = n :: s ∧ IsChain n i s t u

def IsBareRow (n i : Nat) (s : Shape) (v v' : Value) : Prop :=
  ∃ t, v.toFloats = .ok t ∧ v'.toFloats = .ok (t.row i) ∧ t.shape = n :: s

/-- An array of doubles. -/
def ofTensor (t : Tensor Float) : Value :=
  .array false (.floats .double t)

/-- The row `i` of an array of doubles behind a new batch axis. -/
def rowOf (t : Tensor Float) (i : Nat) : Value :=
  ofTensor ((t.row i).broadcast (1 :: (t.row i).shape))

theorem toFloats_ofTensor (t : Tensor Float) : (ofTensor t).toFloats = .ok t :=
  toFloats_array (NumericArray.isReadable_ofFloats t) false

theorem isRow_rowOf {t : Tensor Float} {n i : Nat} {s : Shape} (h : t.shape = n :: s)
    (hi : i < n) : (ofTensor t).IsRow n i s (rowOf t i) :=
  ⟨t, _, toFloats_ofTensor t, toFloats_ofTensor _, h, isChain_row h hi⟩

/-- What a free state of `n` rows has under a key, and what that of its chain `i` has. -/
def IsFreeRow (n i : Nat) (p q : Int × Value) : Prop :=
  q.1 = p.1 ∧ ∃ s, IsRow n i s p.2 q.2

theorem lookup_of_isFreeRow {n i : Nat} {free free' : List (Int × Value)}
    (h : List.Forall₂ (IsFreeRow n i) free free') {k : Int} {v' : Value}
    (hv' : free'.lookup k = some v') : ∃ s v, free.lookup k = some v ∧ IsRow n i s v v' := by
  induction h with
  | nil => cases hv'
  | @cons p q free free' hpq _ ih =>
      rcases p with ⟨j, v⟩
      rcases q with ⟨j', u⟩
      rcases hpq with ⟨rfl, s, hrow⟩
      rw [List.lookup_cons] at hv' ⊢
      cases hk : k == j' with
      | true =>
          rw [hk] at hv'
          cases hv'
          exact ⟨s, v, rfl, hrow⟩
      | false =>
          rw [hk] at hv'
          exact ih hv'

end Value

/-!
# Keys of data nodes

A key is a node or something that is equal to its number.  Both feeds have the same keys, and
the values of the second one are rows of those of the first.
-/

def Value.Names (key : Value) (id : NodeId) : Prop :=
  key = .node id ∨ key.keyNumber? = some (id : Int)

theorem Value.Names.unique {key : Value} {id id' : NodeId} (h : key.Names id)
    (h' : key.Names id') : id = id' := by
  rcases h with rfl | hnumber
  · rcases h' with heq | heq
    · cases heq
      rfl
    · cases heq
  · rcases h' with rfl | heq
    · cases hnumber
    · rw [hnumber] at heq
      exact Int.ofNat.inj (Option.some.inj heq)

namespace Workspace

structure KeyFor (w : Workspace) (d : Dag) (key : Value) (id : NodeId) : Prop where
  key : key.Names id
  mem : id ∈ d.nodes
  data : w.has Node.isData id = true

end Workspace

namespace Workspace

/-- What is fed under a key in a run of `n` rows, and what is fed in that of its chain `i`. -/
structure FeedsRow (w : Workspace) (n i : Nat) (p q : Value × Value) : Prop where
  key : q.1 = p.1
  value : forall id m, p.1.Names id -> w.node? id = some m ->
    p.2.IsRow n i m.dim q.2 ∨ p.2.IsBareRow n i m.dim q.2

def PairsFeeds (w : Workspace) (d : Dag) (n i : Nat) (fed fed' : List (NodeId × Value)) :
    Prop :=
  forall id m, id ∈ d.nodes -> w.node? id = some m -> m.isData = true ->
    ∃ v v', fed.lookup id = some v ∧ fed'.lookup id = some v' ∧ m.FeedsChain n i v v'

variable {w : Workspace} {d : Dag} {n i : Nat} {id : NodeId} {m : Node}

theorem pairsFeeds_current (w : Workspace) (d : Dag) (n i : Nat) :
    w.PairsFeeds d n i (d.currentFeed w) (d.currentFeed w) := by
  intro id m hid hm hdata
  exact ⟨_, _, lookup_currentFeed hid hm hdata, lookup_currentFeed hid hm hdata,
    Node.FeedsChain.own⟩

theorem PairsFeeds.set {fed fed' : List (NodeId × Value)} (h : w.PairsFeeds d n i fed fed')
    (hm : w.node? id = some m) {t u : Tensor Float} (ht : t.shape = n :: m.dim)
    (hchain : IsChain n i m.dim t u) :
    w.PairsFeeds d n i (setPair id (.array false (.floats .double t)) fed)
      (setPair id (.array false (.floats .double u)) fed') := by
  intro other k hother hk hdata
  by_cases heq : other = id
  · rw [heq] at hk ⊢
    rw [hm] at hk
    cases hk
    exact ⟨_, _, lookup_setPair_self _ _ _, lookup_setPair_self _ _ _,
      Node.FeedsChain.given t u ht hchain⟩
  · rw [lookup_setPair_of_ne _ _ heq, lookup_setPair_of_ne _ _ heq]
    exact h other k hother hk hdata

theorem exists_free_chain {α : Type} [Scalar α] {p : Precision}
    (hp : w.settings.tensorPrecision w.wide = .ok p) (hi : i < n)
    {free free' : List (Int × Value)} (hrows : List.Forall₂ (Value.IsFreeRow n i) free free')
    (hm : w.node? id = some m)
    (haccepts : w.AcceptsFree (α := α) (fun id => (free'.lookup (id : Int)).map w.tensorOf) id) :
    ∃ t u : Tensor α, (free.lookup (id : Int)).map w.tensorOf = some (.ok t) ∧
      (free'.lookup (id : Int)).map w.tensorOf = some (.ok u) ∧ t.shape = [n, m.freeSize] ∧
        IsChain n i [m.freeSize] t u := by
  have hconstant : forall {v : Value} {t : Tensor Float}, v.toFloats = .ok t ->
      w.tensorOf v = .ok (t.map (Scalar.constant (α := α) p)) := by
    intro v t ht
    unfold tensorOf
    rw [hp, ht]
    rfl
  rcases haccepts with ⟨r, rows, hr, hshape⟩
  rcases Option.map_eq_some_iff.mp hr with ⟨v', hv', htensor⟩
  rcases Value.lookup_of_isFreeRow hrows hv' with ⟨s, v, hv, t, u, ht, hu, hts, hchain⟩
  rw [hconstant hu] at htensor
  cases htensor
  -- A chain whose tensor is accepted says how long the rows are.
  have hsize : s = [m.freeSize] := by
    rw [shape_map, hchain.shape, hm] at hshape
    cases hshape
    rfl
  rw [hsize] at hts hchain
  refine ⟨t.map (Scalar.constant p), _, ?_, hr, (shape_map _ t).trans hts, hchain.map _ hi⟩
  rw [hv, Option.map_some, hconstant ht]

end Workspace

/-!
# Feeds

The values that are fed in a run and in that of its chain are looked at side by side.  What is
accepted for the chain is accepted for the run.
-/

namespace Action

open Workspace

variable {w v : Workspace} {d : Dag} {n i : Nat} {id : NodeId} {m : Node}

def feedPair (d : Dag) (fed : List (NodeId × Value)) (pair : Value × Value) :
    Action (List (NodeId × Value)) := do
  let id ← dataNode d pair.1
  let t ← batched id pair.2
  return setPair id (Value.array false (.floats .double t)) fed

def warned (w : Workspace) (on : Bool) : Workspace :=
  if on then w.report (Channel.dag.message .warning
    "Data nodes are compiled as constants, ignoring new data")
  else w

theorem node?_warned (w : Workspace) (on : Bool) : (warned w on).node? = w.node? := by
  cases on with
  | true => rfl
  | false => rfl

theorem feed_eq (d : Dag) (data : List (Value × Value)) : feed d data = (do
    let w ← get
    if data.isEmpty then return d.currentFeed w
    if ← ofRefusal w.settings.dataAsConstants.truth then
      report .dag .warning "Data nodes are compiled as constants, ignoring new data"
    data.foldlM (feedPair d) (d.currentFeed w)) :=
  rfl

theorem run_feed {data : List (Value × Value)} (h : data.isEmpty = false) {on : Bool}
    (hon : w.settings.dataAsConstants.truth = .ok on) :
    (feed d data).run w = (data.foldlM (feedPair d) (d.currentFeed w)).run (warned w on) := by
  rw [feed_eq, h]
  rw [run_bind_of_run run_get, if_neg Bool.false_ne_true, hon]
  cases on with
  | true => rfl
  | false => rfl

theorem run_feed_error {data : List (Value × Value)} (h : data.isEmpty = false) {r : Refusal}
    (hmode : w.settings.dataAsConstants.truth = .error r) :
    (feed d data).run w = (.error (.refused r), w) := by
  rw [feed_eq, h]
  rw [run_bind_of_run run_get, if_neg Bool.false_ne_true, hmode]
  rfl

theorem exists_mode_of_feed {data : List (Value × Value)} (h : data.isEmpty = false)
    {fed : List (NodeId × Value)} (hfed : (feed d data).run w = (.ok fed, v)) :
    ∃ on, w.settings.dataAsConstants.truth = .ok on := by
  cases hmode : w.settings.dataAsConstants.truth with
  | ok on => exact ⟨on, rfl⟩
  | error r =>
      rw [run_feed_error h hmode] at hfed
      cases hfed

theorem run_batched {x : Value} {t : Tensor Float} (hm : w.node? id = some m)
    (hx : x.toFloats = .ok t) :
    (batched id x).run w =
      if t.shape = m.dim then (.ok (t.broadcast (1 :: t.shape)), w)
      else if t.shape.tail ≠ m.dim then
        (.error (.invalid (.feedShape t.shape (m.label id))), w)
      else (.ok t, w) := by
  unfold batched
  rw [hx]
  refine (run_bind_of_run (x := t) (v := w) rfl _).trans ?_
  rw [run_bind_of_run (run_node_of_node? hm)]
  split
  · rfl
  · split
    · rfl
    · rfl

theorem exists_batched (hm : w.node? id = some m) (hi : i < n) {x x' : Value}
    (h : x.IsRow n i m.dim x' ∨ x.IsBareRow n i m.dim x') :
    ∃ t u, (batched id x).run w = (.ok t, w) ∧ (batched id x').run w = (.ok u, w) ∧
      t.shape = n :: m.dim ∧ IsChain n i m.dim t u := by
  have hrows : forall {y : Value} {t : Tensor Float} {k : Nat}, y.toFloats = .ok t ->
      t.shape = k :: m.dim -> (batched id y).run w = (.ok t, w) := by
    intro y t k hy ht
    have hne : t.shape ≠ m.dim := by
      rw [ht]
      exact List.cons_ne_self _ _
    have htail : t.shape.tail = m.dim := by
      rw [ht, List.tail_cons]
    rw [run_batched hm hy, if_neg hne, if_neg (not_not.mpr htail)]
  rcases h with ⟨t, u, hx, hx', ht, hchain⟩ | ⟨t, hx, hx', ht⟩
  · exact ⟨t, u, hrows hx ht, hrows hx' hchain.shape, ht, hchain⟩
  · refine ⟨t, _, hrows hx ht, ?_, ht, isChain_row ht hi⟩
    rw [run_batched hm hx', if_pos (shape_row ht)]

/-- What keeps a key from being looked up: it stands for no data node, and the message that
says so needs its text. -/
inductive KeyFault (w : Workspace) (key : Value) : Failure → Prop where
  | unknown (reason : Invalid) : w.canWrite key = true -> KeyFault w key (.invalid reason)
  | unwritable : w.canWrite key = false -> KeyFault w key (.refused .value)

theorem ends_dataNode_keyFor (d : Dag) (key : Value) (w : Workspace) :
    Ends (dataNode d key) w (fun id w' => w' = w ∧ w.KeyFor d key id)
      (fun f w' => w' = w ∧ KeyFault w key f ∧ forall id, ¬w.KeyFor d key id) := by
  have hrefused : (forall id, ¬w.KeyFor d key id) -> Ends (do
      requireText (w.canWrite key)
      invalid (.notDataOfGraph (key.written w.written)) : Action NodeId) w
      (fun id w' => w' = w ∧ w.KeyFor d key id)
      (fun f w' => w' = w ∧ KeyFault w key f ∧ forall id, ¬w.KeyFor d key id) := by
    intro hnone
    cases htext : w.canWrite key with
    | true => exact ⟨rfl, .unknown _ htext, hnone⟩
    | false => exact ⟨rfl, .unwritable htext, hnone⟩
  unfold dataNode
  simp only [ends_bind, ends_get]
  split
  · rename_i id hid
    have hkey : key.Names id := by
      split at hid
      · cases hid
        exact Or.inl rfl
      · rcases Option.bind_eq_some_iff.mp hid with ⟨k, hk, hnat⟩
        right
        rw [hk, Int.mem_toNat?.mp hnat]
    rw [ends_ite]
    simp only [Bool.and_eq_true, List.contains_iff_mem]
    constructor
    · rintro ⟨hmem, hdata⟩
      exact ends_pure.mpr ⟨rfl, hkey, hmem, hdata⟩
    · intro hnot
      apply hrefused
      intro id' h
      rw [hkey.unique h.key] at hnot
      exact hnot ⟨h.mem, h.data⟩
  · rename_i hid
    apply hrefused
    intro id h
    rcases h.key with rfl | hnumber
    · cases hid
    · split at hid
      · cases hid
      · rw [hnumber] at hid
        cases hid

theorem ends_feedPair (hi : i < n) {fed fed' : List (NodeId × Value)}
    (hfed : w.PairsFeeds d n i fed fed') {p q : Value × Value} (h : w.FeedsRow n i p q) :
    Ends (feedPair d fed' q) w (fun next' w' => w' = w ∧ ∃ next,
      (feedPair d fed p).run w = (.ok next, w) ∧ w.PairsFeeds d n i next next')
      (fun _ _ => True) := by
  unfold feedPair
  rw [h.key, ends_bind]
  apply (ends_run.and (ends_dataNode_keyFor d p.1 w)).mono
  · rintro id w' ⟨hrun, rfl, hid⟩
    rcases exists_node_of_has hid.data with ⟨m, hm, _⟩
    rcases exists_batched hm hi (h.value id m hid.key hm) with ⟨t, u, ht, hu, hshape, hchain⟩
    rw [ends_bind, ends_of_run hu, run_bind_of_run hrun, run_bind_of_run ht]
    exact ends_pure.mpr ⟨rfl, _, rfl, hfed.set hm hshape hchain⟩
  · intro f w' _
    trivial

theorem ends_feedPairs (hi : i < n) {fed fed' : List (NodeId × Value)}
    (hfed : w.PairsFeeds d n i fed fed') {data data' : List (Value × Value)}
    (h : List.Forall₂ (w.FeedsRow n i) data data') :
    Ends (data'.foldlM (feedPair d) fed') w (fun last' w' => ∃ last,
      (data.foldlM (feedPair d) fed).run w = (.ok last, w') ∧ w.PairsFeeds d n i last last')
      (fun _ _ => True) := by
  induction h generalizing fed fed' with
  | nil => exact ends_pure.mpr ⟨fed, rfl, hfed⟩
  | cons hpq _ ih =>
      rw [List.foldlM_cons]
      apply (ends_feedPair hi hfed hpq).bind
      rintro next' w' ⟨rfl, next, hrun, hnext⟩
      rw [List.foldlM_cons, run_bind_of_run hrun]
      exact ih hnext

theorem exists_feed (hi : i < n) {data data' : List (Value × Value)}
    (h : List.Forall₂ (w.FeedsRow n i) data data') {fed' : List (NodeId × Value)}
    (hfed' : (feed d data').run w = (.ok fed', v)) :
    ∃ fed, (feed d data).run w = (.ok fed, v) ∧ w.PairsFeeds d n i fed fed' := by
  have hcurrent := pairsFeeds_current w d n i
  cases h with
  | nil =>
      cases hfed'
      exact ⟨_, rfl, hcurrent⟩
  | @cons p q rest rest' hpq hrest =>
      rcases exists_mode_of_feed rfl hfed' with ⟨on, hmode⟩
      have hpairs : List.Forall₂ ((warned w on).FeedsRow n i) (p :: rest) (q :: rest') := by
        apply (List.Forall₂.cons hpq hrest).imp
        intro p q h
        exact ⟨h.key, fun id m hkey hm => h.value id m hkey (by rwa [node?_warned] at hm)⟩
      have hfirst : (warned w on).PairsFeeds d n i (d.currentFeed w) (d.currentFeed w) := by
        unfold PairsFeeds
        rw [node?_warned]
        exact hcurrent
      rw [run_feed rfl hmode] at hfed' ⊢
      rcases (ends_feedPairs hi hfirst hpairs).of_ok hfed' with ⟨fed, hfed, hlast⟩
      refine ⟨fed, hfed, ?_⟩
      unfold PairsFeeds at hlast
      rw [node?_warned] at hlast
      exact hlast

end Action
end DensityGraph
