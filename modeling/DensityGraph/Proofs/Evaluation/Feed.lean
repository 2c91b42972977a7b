import DensityGraph.Evaluation.LogDensity
import DensityGraph.Proofs.Graph.Action
import DensityGraph.Proofs.Graph.Reads
/-!
# Accepted feeds

A feed that is accepted has a value for every data node of the graph: the current one
or one that was given for it, which has the shape of the node behind a batch axis.
-/

namespace DensityGraph

/-!
# Pairs by key
-/

section Pairs

variable {κ β : Type} [BEq κ] [LawfulBEq κ]

theorem lookup_of_mem {pairs : List (κ × β)} {k : κ} {v : β}
    (hnodup : (pairs.map Prod.fst).Nodup) (h : (k, v) ∈ pairs) : pairs.lookup k = some v := by
  induction pairs with
  | nil => cases h
  | cons p rest ih =>
      rw [List.map_cons, List.nodup_cons] at hnodup
      rw [List.lookup_cons]
      rcases List.mem_cons.mp h with rfl | hrest
      · rw [BEq.rfl]
      · have hne : (k == p.1) = false := by
          apply beq_eq_false_iff_ne.mpr
          rintro rfl
          exact hnodup.1 (List.mem_map.mpr ⟨_, hrest, rfl⟩)
        rw [hne]
        exact ih hnodup.2 hrest

theorem lookup_replace_self {k : κ} {v : β} {pairs : List (κ × β)}
    (h : pairs.any (fun p => p.1 == k) = true) :
    (pairs.map fun p => if p.1 == k then (k, v) else p).lookup k = some v := by
  induction pairs with
  | nil => cases h
  | cons p rest ih =>
      rw [List.map_cons]
      by_cases hp : p.1 = k
      · simp [hp]
      · have hrest : rest.any (fun p => p.1 == k) = true := by
          simpa [hp] using h
        have hk : (k == p.1) = false := by
          simpa using fun heq : k = p.1 => hp heq.symm
        rw [if_neg (by simpa using hp), List.lookup_cons, hk]
        exact ih hrest

theorem lookup_replace_of_ne {j k : κ} {v : β} {pairs : List (κ × β)} (h : j ≠ k) :
    (pairs.map fun p => if p.1 == k then (k, v) else p).lookup j = pairs.lookup j := by
  induction pairs with
  | nil => rfl
  | cons p rest ih =>
      rw [List.map_cons, List.lookup_cons, List.lookup_cons, ih]
      by_cases hp : p.1 = k
      · have hj : (j == k) = false := by simpa using h
        simp [hp, hj]
      · simp [hp]

theorem lookup_setPair_self (k : κ) (v : β) (pairs : List (κ × β)) :
    (setPair k v pairs).lookup k = some v := by
  unfold setPair
  split
  · rename_i h
    exact lookup_replace_self h
  · rename_i h
    have hnone : pairs.lookup k = none := by
      rw [List.lookup_eq_none_iff]
      intro p hp
      simp only [List.any_eq_true, not_exists, not_and, Bool.not_eq_true] at h
      have hne : p.1 ≠ k := by simpa using h p hp
      exact bne_iff_ne.mpr hne.symm
    simp [List.lookup_append, hnone]

theorem lookup_setPair_of_ne {j k : κ} (v : β) (pairs : List (κ × β)) (h : j ≠ k) :
    (setPair k v pairs).lookup j = pairs.lookup j := by
  unfold setPair
  split
  · exact lookup_replace_of_ne h
  · have hj : (j == k) = false := by simpa using h
    simp [List.lookup_append, List.lookup_cons, hj]

theorem lookup_filterMap_self {f : κ → Option β} {keys : List κ} {k : κ} {v : β}
    (hk : k ∈ keys) (hv : f k = some v) :
    (keys.filterMap fun j => (f j).map fun u => (j, u)).lookup k = some v := by
  induction keys with
  | nil => cases hk
  | cons j keys ih =>
      rw [List.filterMap_cons]
      by_cases hjk : j = k
      · simp [hjk, hv]
      · have hrest : k ∈ keys := by
          rcases List.mem_cons.mp hk with heq | hrest
          · exact absurd heq.symm hjk
          · exact hrest
        have hkj : (k == j) = false := by
          simpa using fun heq : k = j => hjk heq.symm
        cases hj : f j with
        | none => simpa using ih hrest
        | some u => simpa [List.lookup_cons, hkj] using ih hrest

end Pairs

/-!
# Values for data nodes
-/

/-- A value that can be fed for a node: its own behind a batch axis, or an array of
doubles with a batch axis in front of the shape of the node. -/
inductive Node.Feedable (n : Node) : Value → Prop where
  | own : n.Feedable (.array false n.value.array.addBatchAxis)
  | given (t : Tensor Float) (rows : Nat) :
      t.shape = rows :: n.dim -> n.Feedable (.array false (.floats .double t))

/-- The current values of all data nodes, as they are fed. -/
def Dag.currentFeed (d : Dag) (w : Workspace) : List (NodeId × Value) :=
  (d.dataFeed w).map fun (id, a) => (id, Value.array false a)

namespace Workspace

def FeedsData (w : Workspace) (d : Dag) (fed : List (NodeId × Value)) : Prop :=
  forall id n, id ∈ d.nodes -> w.node? id = some n -> n.isData = true ->
    ∃ v, fed.lookup id = some v ∧ n.Feedable v

theorem lookup_currentFeed {w : Workspace} {d : Dag} {id : NodeId} {n : Node}
    (hid : id ∈ d.nodes) (hn : w.node? id = some n) (hdata : n.isData = true) :
    (d.currentFeed w).lookup id = some (.array false n.value.array.addBatchAxis) := by
  have hmem : id ∈ d.data w := mem_data hid hn hdata
  have hpairs : d.currentFeed w = (d.data w).filterMap fun j =>
      ((w.node? j).map fun m => Value.array false m.value.array.addBatchAxis).map
        fun u => (j, u) := by
    unfold Dag.currentFeed Dag.dataFeed
    rw [List.map_filterMap]
    congr 1
    funext j
    cases w.node? j <;> rfl
  rw [hpairs]
  apply lookup_filterMap_self hmem
  rw [hn, Option.map_some]

theorem feedsData_current (w : Workspace) (d : Dag) : w.FeedsData d (d.currentFeed w) := by
  intro id n hid hn hdata
  exact ⟨_, lookup_currentFeed hid hn hdata, Node.Feedable.own⟩

def SameButMessages (w v : Workspace) : Prop :=
  v = { w with messages := v.messages }

end Workspace

namespace Dag

variable [CustomCode Number] {w v : Workspace} {fed : List (NodeId × Value)}

theorem environment_of_messages (h : w.SameButMessages v) (d : Dag) (free : List (Int × Value)) :
    d.environment v fed (v.freeOf free) = d.environment w fed (w.freeOf free) := by
  rw [h]
  rfl

omit [CustomCode Number] in
theorem jointIn_of_messages {α : Type} [Scalar α] (h : w.SameButMessages v) (d : Dag)
    (e : Environment α) (adjust : Bool) : d.jointIn v e adjust = d.jointIn w e adjust := by
  rw [h]
  rfl

theorem jointAt_of_messages (h : w.SameButMessages v) (d : Dag) (free : List (Int × Value))
    (adjust : Bool) :
    d.jointAt v fed (v.freeOf free) adjust = d.jointAt w fed (w.freeOf free) adjust := by
  unfold jointAt
  rw [environment_of_messages h]
  simp only [jointIn_of_messages h]

end Dag

namespace Failure

/-- Whether the failure is one of an environment itself: a placeholder without a value,
a missing entry, or an entry written twice. -/
def isEntryFault : Failure → Bool
  | nothingFed _ => true
  | notMaterialized _ _ => true
  | alreadyAssigned _ _ => true
  | _ => false

end Failure

namespace Action

variable {w : Workspace}

theorem ends_dataNode {d : Dag} {key : Value} {Q : NodeId → Workspace → Prop}
    {E : Failure → Workspace → Prop}
    (hok : forall id, id ∈ d.nodes -> w.has Node.isData id = true -> Q id w)
    (htext : E (.refused .value) w)
    (herror : E (.invalid (.notDataOfGraph (key.written w.written))) w) :
    Ends (dataNode d key) w Q E := by
  have hrefused : Ends (do
      requireText (w.canWrite key)
      invalid (.notDataOfGraph (key.written w.written))) w Q E :=
    ends_requireText (fun _ => htext) fun _ => herror
  unfold dataNode
  simp only [ends_bind, ends_get]
  split
  · rename_i id _
    rw [ends_ite]
    constructor
    · intro h
      simp only [Bool.and_eq_true, List.contains_iff_mem] at h
      exact ends_pure.mpr (hok id h.1 h.2)
    · intro _
      exact hrefused
  · exact hrefused

theorem ends_batched {id : NodeId} {v : Value} {n : Node} (hn : w.node? id = some n) :
    Ends (batched id v) w
      (fun t w' => w' = w ∧ ∃ rows, t.shape = rows :: n.dim)
      (fun f w' => w' = w ∧ f.isEntryFault = false) := by
  unfold batched
  simp only [ends_bind]
  rw [ends_ofRefusal]
  constructor
  · intro t _
    rw [ends_node]
    constructor
    · intro m hm
      rw [hn] at hm
      cases hm
      rw [ends_ite]
      constructor
      · intro hshape
        rw [ends_pure]
        refine ⟨rfl, 1, ?_⟩
        rw [← hshape]
        rfl
      · intro hshape
        rw [ends_ite]
        constructor
        · intro _
          rw [ends_bind]
          exact ⟨rfl, rfl⟩
        · intro htail
          rw [ends_pure]
          refine ⟨rfl, ?_⟩
          cases hs : t.shape with
          | nil =>
              -- Without axes the tensor would have the shape of the node.
              rw [hs] at hshape htail
              exact absurd (by simpa using htail) hshape
          | cons rows s =>
              rw [hs] at htail
              exact ⟨rows, by simpa using htail⟩
    · intro hnone
      rw [hn] at hnone
      cases hnone
  · intro r _
    exact ⟨rfl, rfl⟩

theorem ends_feed (d : Dag) (data : List (Value × Value)) :
    Ends (feed d data) w
      (fun fed w' => w.SameButMessages w' ∧ w.FeedsData d fed)
      (fun f _ => f.isEntryFault = false) := by
  unfold feed
  simp only [ends_bind, ends_get]
  rw [ends_ite]
  constructor
  · intro _
    exact ends_pure.mpr ⟨rfl, w.feedsData_current d⟩
  · intro _
    have hfold : forall v, w.SameButMessages v ->
        Ends (data.foldlM (fun fed pair => do
            let id ← dataNode d pair.1
            let t ← batched id pair.2
            return setPair id (Value.array false (.floats .double t)) fed)
          ((d.dataFeed w).map fun pair => (pair.1, Value.array false pair.2))) v
          (fun fed w' => w.SameButMessages w' ∧ w.FeedsData d fed)
          (fun f _ => f.isEntryFault = false) := by
      intro v hv
      apply Ends.foldlM (P := fun _ fed w' => w.SameButMessages w' ∧ w.FeedsData d fed)
      · exact ⟨hv, w.feedsData_current d⟩
      · intro done pair rest fed u _ hfed
        obtain ⟨key, given⟩ := pair
        obtain ⟨hu, hfed⟩ := hfed
        have hnodes : u.node? = w.node? := by
          rw [hu]
          rfl
        simp only [ends_bind]
        apply ends_dataNode
        · intro id hid hdata
          obtain ⟨n, hn, hisData⟩ := Workspace.exists_node_of_has hdata
          apply (ends_batched hn).mono
          · intro t u' ht
            obtain ⟨rfl, rows, hshape⟩ := ht
            rw [ends_pure]
            refine ⟨hu, ?_⟩
            intro other m hother hm hmdata
            by_cases heq : other = id
            · rw [heq] at hm ⊢
              rw [← hnodes, hn] at hm
              cases hm
              exact ⟨_, lookup_setPair_self _ _ _, Node.Feedable.given t rows hshape⟩
            · rw [lookup_setPair_of_ne _ _ heq]
              exact hfed other m hother hm hmdata
          · intro f u' hf
            exact hf.2
        · rfl
        · rfl
    rw [ends_bind, ends_ofRefusal]
    constructor
    · intro isOn _
      rw [ends_ite]
      constructor
      · intro _
        rw [ends_bind, ends_report]
        exact hfold _ rfl
      · intro _
        exact hfold w rfl
    · intro r _
      rfl

end Action
end DensityGraph
