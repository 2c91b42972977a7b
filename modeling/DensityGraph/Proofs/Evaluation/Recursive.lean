import DensityGraph.Proofs.Dag.Order
import DensityGraph.Proofs.Evaluation.Depth
import DensityGraph.Proofs.Evaluation.Entries
import DensityGraph.Proofs.Evaluation.Feed
import DensityGraph.Proofs.Graph.Reads
import DensityGraph.Proofs.Tensor.Rows
/-!
# Recursive evaluation

A pass computes the tensors that recursion over the arguments gives, and it writes every
entry once, whatever topological order it follows: a node finds the entries of its
arguments, because they are parents, and it finds its own keys unused.
-/

namespace DensityGraph

variable {α : Type} [Scalar α]

namespace Workspace

/-- The logarithms of the Jacobians of a variable. -/
def adjustment (w : Workspace) (free : NodeId → Option (Except Refusal (Tensor α)))
    (id : NodeId) : Option (Tensor α) :=
  match (w.node? id).map Node.role, free id with
  | some (.latent b c _), some (.ok t) => (c.logJacobianBetween b t).toOption
  | _, _ => none

section Recursion

variable [CustomCode α] {w : Workspace} {fed : List (NodeId × Value)}
  {free : NodeId → Option (Except Refusal (Tensor α))} {id : NodeId}

theorem evaluate_distribution (h : w.has Node.isDistribution id = true) :
    w.evaluate fed free id = none := by
  rw [evaluate_eq]
  exact tensorFrom_distribution h

theorem argumentOf_of_evaluate {t : Tensor α} (h : w.evaluate fed free id = some t) :
    w.argumentOf fed free id = .tensor t := by
  unfold argumentOf argumentFrom
  rw [h]

theorem argumentOf_of_isDistribution (h : w.has Node.isDistribution id = true) :
    w.argumentOf fed free id = .density id := by
  unfold argumentOf argumentFrom
  rw [evaluate_distribution h]

theorem exists_argument {e : Environment α}
    (hvalue : w.has Node.isDistribution id = false ->
      ∃ t, w.evaluate fed free id = some t ∧ e.get? id .value = some (.tensor t))
    (hdensity : w.has Node.isDistribution id = true ->
      e.get? id .value = some (.density id)) :
    ∃ x, e.get? id .value = some x ∧ Pass.argument x = w.argumentOf fed free id := by
  cases hdistribution : w.has Node.isDistribution id with
  | true => exact ⟨_, hdensity hdistribution, (argumentOf_of_isDistribution hdistribution).symm⟩
  | false =>
      rcases hvalue hdistribution with ⟨t, ht, hget⟩
      exact ⟨_, hget, (argumentOf_of_evaluate ht).symm⟩

theorem density_of_entries {e : Environment α}
    (h : forall r, (w.node? id).bind Node.distribution? = some r ->
      forall q, q ∈ r.parameters.map Prod.snd ->
        ∃ x, e.get? q .value = some x ∧ Pass.argument x = w.argumentOf fed free q) :
    e.density w id = w.densityOf fed free id := by
  funext x
  unfold Environment.density densityOf densityFrom
  cases hn : w.node? id with
  | none => rfl
  | some n =>
      simp only
      cases hr : n.distribution? with
      | none => rfl
      | some r =>
          rw [hn] at h
          simp only
          rw [Environment.arguments_of_get? (h r hr)]
          rfl

theorem map_argumentOf_of_mapM {ids : List NodeId} {ts : List (Tensor α)}
    (hts : ids.mapM (w.evaluate fed free) = some ts) :
    ids.map (w.argumentOf fed free) = ts.map Argument.tensor := by
  rw [← List.forall₂_eq_eq_eq, List.forall₂_map_left_iff, List.forall₂_map_right_iff]
  exact (mapM_eq_some_iff.mp hts).imp fun _ _ => argumentOf_of_evaluate

end Recursion

/-- Whether a free state has a tensor of rows of the right length for a variable. -/
def AcceptsFree (w : Workspace) (free : NodeId → Option (Except Refusal (Tensor α)))
    (id : NodeId) : Prop :=
  ∃ t rows, free id = some (.ok t) ∧
    t.shape = [rows, ((w.node? id).map Node.freeSize).getD 0]

/-- What is fed for a data node has the shape of the value that the node has, unless data are
constants. -/
def FitsFeed (w : Workspace) (fed : List (NodeId × Value)) (id : NodeId) : Prop :=
  forall n v s, w.node? id = some n -> n.role = .data ->
    w.settings.dataAsConstants.truth = .ok false -> fed.lookup id = some v -> v.shape = .ok s ->
      s.tail = n.value.array.shape

theorem fitsFeed_of_role {w : Workspace} {fed : List (NodeId × Value)} {id : NodeId} {n : Node}
    (hn : w.node? id = some n) (hrole : n.role ≠ .data) : w.FitsFeed fed id := by
  intro m v s hm hdata
  rw [hn, Option.some.injEq] at hm
  rw [hm] at hrole
  exact absurd hdata hrole

theorem fitsFeed_of_feedable {w : Workspace} {fed : List (NodeId × Value)} {id : NodeId}
    {n : Node} {v : Value} (hn : w.node? id = some n) (hfed : fed.lookup id = some v)
    (hv : n.Feedable v) (hshape : n.value.array.shape = n.dim) : w.FitsFeed fed id := by
  intro m u s hm _ _ hu hs
  rw [hn, Option.some.injEq] at hm
  rw [hfed, Option.some.injEq] at hu
  subst hm
  subst hu
  cases hv with
  | own =>
      cases hs
      cases n.value.array <;> rfl
  | given t rows ht =>
      have hst : s = rows :: n.dim := by
        rw [← ht]
        cases hs
        rfl
      rw [hst, List.tail_cons, hshape]

variable [CustomCode α]

inductive Obstructed (w : Workspace) (fed : List (NodeId × Value))
    (free : NodeId → Option (Except Refusal (Tensor α))) (id : NodeId) : Prop where
  | absent : w.node? id = none -> Obstructed w fed free id
  | value : w.has Node.isDistribution id = false -> w.evaluate fed free id = none ->
      Obstructed w fed free id
  | adjustment : w.has Node.isLatent id = true -> w.adjustment free id = none ->
      Obstructed w fed free id
  | shape : ¬w.FitsFeed fed id -> Obstructed w fed free id

def entryKeys (w : Workspace) (id : NodeId) : List (NodeId × EntryKind) :=
  if w.has Node.isLatent id then [(id, .adjustment), (id, .value)] else [(id, .value)]

theorem fst_of_mem_entryKeys {w : Workspace} {id other : NodeId} {kind : EntryKind}
    (h : (other, kind) ∈ w.entryKeys id) : other = id ∧ kind ≠ .free := by
  unfold entryKeys at h
  split at h <;> simp at h <;> grind

end Workspace

namespace Pass

variable [CustomCode α]

structure Filled (w : Workspace) (fed : List (NodeId × Value))
    (free : NodeId → Option (Except Refusal (Tensor α))) (latents nodes : List NodeId)
    (e : Environment α) : Prop where
  feed : e.feed = fed
  mode : e.dataAsConstants = w.settings.dataAsConstants
  keys : e.keys = latents.map (fun id => (id, .free)) ++ nodes.flatMap w.entryKeys
  frees : forall id, id ∈ latents ->
    ∃ t, free id = some (.ok t) ∧ e.get? id .free = some (.tensor t)
  adjustments : forall id, id ∈ nodes -> w.has Node.isLatent id = true ->
    ∃ t, w.adjustment free id = some t ∧ e.get? id .adjustment = some (.tensor t)
  values : forall id, id ∈ nodes -> w.has Node.isDistribution id = false ->
    ∃ t, w.evaluate fed free id = some t ∧ e.get? id .value = some (.tensor t)
  densities : forall id, id ∈ nodes -> w.has Node.isDistribution id = true ->
    e.get? id .value = some (.density id)
  fits : forall id, id ∈ nodes -> w.FitsFeed fed id

theorem Filled.start (w : Workspace) (fed : List (NodeId × Value))
    (free : NodeId → Option (Except Refusal (Tensor α))) :
    Filled w fed free [] [] ⟨[], fed, [], w.settings.dataAsConstants⟩ :=
  ⟨rfl, rfl, rfl, nofun, nofun, nofun, nofun, nofun⟩

def ValueEntry (w : Workspace) (fed : List (NodeId × Value))
    (free : NodeId → Option (Except Refusal (Tensor α))) (id : NodeId)
    (entry : Entry α) : Prop :=
  (w.has Node.isDistribution id = false ->
    ∃ t, w.evaluate fed free id = some t ∧ entry = .tensor t) ∧
  (w.has Node.isDistribution id = true -> entry = .density id)

namespace Filled

variable {w : Workspace} {fed : List (NodeId × Value)}
  {free : NodeId → Option (Except Refusal (Tensor α))} {latents nodes : List NodeId}
  {e : Environment α}

theorem fresh (h : Filled w fed free latents nodes e) {id : NodeId} (hid : id ∉ nodes)
    {kind : EntryKind} (hkind : kind ≠ .free) : (id, kind) ∉ e.keys := by
  rw [h.keys]
  intro hmem
  rcases List.mem_append.mp hmem with hfree | hnodes
  · rcases List.mem_map.mp hfree with ⟨other, _, heq⟩
    cases heq
    exact hkind rfl
  · rcases List.mem_flatMap.mp hnodes with ⟨other, hother, hkey⟩
    rw [(Workspace.fst_of_mem_entryKeys hkey).1] at hid
    exact hid hother

theorem extend (h : Filled w fed free latents nodes e) {id : NodeId} {e' : Environment α}
    (hkeep : forall other kind entry, e.get? other kind = some entry ->
      e'.get? other kind = some entry)
    (hfeed : e'.feed = e.feed) (hmode : e'.dataAsConstants = e.dataAsConstants)
    (hkeys : e'.keys = e.keys ++ w.entryKeys id)
    (hadjustment : w.has Node.isLatent id = true ->
      ∃ t, w.adjustment free id = some t ∧ e'.get? id .adjustment = some (.tensor t))
    (hvalue : ∃ entry, ValueEntry w fed free id entry ∧ e'.get? id .value = some entry)
    (hfits : w.FitsFeed fed id) : Filled w fed free latents (nodes ++ [id]) e' where
  feed := hfeed.trans h.feed
  mode := hmode.trans h.mode
  keys := by
    rw [hkeys, h.keys, List.flatMap_append, List.append_assoc, List.flatMap_singleton]
  frees := by
    intro other hother
    rcases h.frees other hother with ⟨t, hfree, hget⟩
    exact ⟨t, hfree, hkeep _ _ _ hget⟩
  adjustments := by
    intro other hother hlatent
    rcases List.mem_append.mp hother with hold | hlast
    · rcases h.adjustments other hold hlatent with ⟨t, hadj, hget⟩
      exact ⟨t, hadj, hkeep _ _ _ hget⟩
    · rw [List.mem_singleton] at hlast
      rw [hlast] at hlatent ⊢
      exact hadjustment hlatent
  values := by
    intro other hother hdistribution
    rcases List.mem_append.mp hother with hold | hlast
    · rcases h.values other hold hdistribution with ⟨t, heval, hget⟩
      exact ⟨t, heval, hkeep _ _ _ hget⟩
    · rw [List.mem_singleton] at hlast
      rw [hlast] at hdistribution ⊢
      rcases hvalue with ⟨entry, hentry, hget⟩
      rcases hentry.1 hdistribution with ⟨t, heval, heq⟩
      rw [heq] at hget
      exact ⟨t, heval, hget⟩
  densities := by
    intro other hother hdistribution
    rcases List.mem_append.mp hother with hold | hlast
    · exact hkeep _ _ _ (h.densities other hold hdistribution)
    · rw [List.mem_singleton] at hlast
      rw [hlast] at hdistribution ⊢
      rcases hvalue with ⟨entry, hentry, hget⟩
      rw [hentry.2 hdistribution] at hget
      exact hget
  fits := by
    intro other hother
    rcases List.mem_append.mp hother with hold | hlast
    · exact h.fits other hold
    · rw [List.mem_singleton.mp hlast]
      exact hfits

theorem argument (h : Filled w fed free latents nodes e) {id : NodeId} (hid : id ∈ nodes) :
    ∃ x, e.get? id .value = some x ∧ Pass.argument x = w.argumentOf fed free id :=
  Workspace.exists_argument (h.values id hid) (h.densities id hid)

theorem isSettled (h : Filled w fed free latents nodes e) {id : NodeId} (hid : id ∈ nodes) :
    w.isSettled (w.evaluate fed free) id = true := by
  unfold Workspace.isSettled
  cases hdistribution : w.has Node.isDistribution id with
  | true => rfl
  | false =>
      rcases h.values id hid hdistribution with ⟨t, ht, _⟩
      rw [ht]
      rfl

theorem fresh_free (h : Filled w fed free latents [] e) {id : NodeId} (hid : id ∉ latents) :
    (id, EntryKind.free) ∉ e.keys := by
  rw [h.keys]
  intro hmem
  simp at hmem
  exact hid hmem

theorem add_free (h : Filled w fed free latents [] e) {id : NodeId} (hid : id ∉ latents)
    {t : Tensor α} (ht : free id = some (.ok t)) :
    Filled w fed free (latents ++ [id]) [] (e.add id .free (.tensor t)) := by
  have hnew := h.fresh_free hid
  refine ⟨h.feed, h.mode, ?_, ?_, nofun, nofun, nofun, nofun⟩
  · rw [Environment.keys_add, h.keys]
    simp
  · intro other hother
    rcases List.mem_append.mp hother with hold | hlast
    · rcases h.frees other hold with ⟨u, hu, hget⟩
      exact ⟨u, hu, Environment.get?_add_of_get? hnew hget⟩
    · rw [List.mem_singleton] at hlast
      rw [hlast]
      exact ⟨t, ht, Environment.get?_add_self e _ (Environment.get?_eq_none_iff.mpr hnew)⟩

theorem add_value (h : Filled w fed free latents nodes e) {id : NodeId} (hid : id ∉ nodes)
    (hlatent : w.has Node.isLatent id = false) {entry : Entry α}
    (hentry : ValueEntry w fed free id entry) (hfits : w.FitsFeed fed id) :
    Filled w fed free latents (nodes ++ [id]) (e.add id .value entry) := by
  have hnew : (id, EntryKind.value) ∉ e.keys := h.fresh hid (by decide)
  apply h.extend
  · intro other kind entry' hget
    exact Environment.get?_add_of_get? hnew hget
  · rfl
  · rfl
  · rw [Environment.keys_add]
    simp [Workspace.entryKeys, hlatent]
  · intro htrue
    rw [hlatent] at htrue
    cases htrue
  · exact ⟨entry, hentry,
      Environment.get?_add_self e entry (Environment.get?_eq_none_iff.mpr hnew)⟩
  · exact hfits

theorem add_latent (h : Filled w fed free latents nodes e) {id : NodeId} (hid : id ∉ nodes)
    (hlatent : w.has Node.isLatent id = true) {a t : Tensor α}
    (hadjustment : w.adjustment free id = some a)
    (hvalue : ValueEntry w fed free id (.tensor t)) :
    Filled w fed free latents (nodes ++ [id])
      ((e.add id .adjustment (.tensor a)).add id .value (.tensor t)) := by
  have hnew : (id, EntryKind.adjustment) ∉ e.keys := h.fresh hid (by decide)
  have hnew' : (id, EntryKind.value) ∉ (e.add id .adjustment (.tensor a)).keys := by
    rw [Environment.keys_add]
    intro hmem
    rcases List.mem_append.mp hmem with hold | hlast
    · exact h.fresh hid (by decide) hold
    · simp at hlast
  have hself : (e.add id .adjustment (.tensor a)).get? id .adjustment = some (.tensor a) :=
    Environment.get?_add_self e _ (Environment.get?_eq_none_iff.mpr hnew)
  apply h.extend
  · intro other kind entry hget
    exact Environment.get?_add_of_get? hnew' (Environment.get?_add_of_get? hnew hget)
  · rfl
  · rfl
  · rw [Environment.keys_add, Environment.keys_add]
    simp [Workspace.entryKeys, hlatent]
  · intro _
    exact ⟨a, hadjustment, Environment.get?_add_of_get? hnew' hself⟩
  · exact ⟨.tensor t, hvalue,
      Environment.get?_add_self _ _ (Environment.get?_eq_none_iff.mpr hnew')⟩
  · rcases Workspace.exists_node_of_has hlatent with ⟨n, hn, hkind⟩
    rcases Node.role_of_isLatent hkind with ⟨b, c, hrole⟩
    exact Workspace.fitsFeed_of_role hn (by rw [hrole]; nofun)

theorem register (h : Filled w fed free latents nodes e) (id : NodeId) (a : NumericArray) :
    Filled w fed free latents nodes (e.register id a) :=
  ⟨h.feed, h.mode, h.keys, h.frees, h.adjustments, h.values, h.densities, h.fits⟩

end Filled
end Pass
end DensityGraph
