import DensityGraph.Proofs.Graph.Atomic
import DensityGraph.Proofs.Graph.Consistent
/-!
# Failed calls

A call that builds a node or observes data, and fails, has left all nodes as they were.
An observation checks the data first; that the old target is then taken away and the data
are put in its place cannot fail, since targets and distributions agree and data have the
shape that was declared for them.  Only then a message names the distribution.  Names are
declared to be strings, but anything is taken for one, such as a number of so many digits that
it has no text; then the message fails when the data are in their place.
-/

namespace DensityGraph

namespace Workspace

/-- Whether a message can name the distribution that a node is the target of. -/
def CanName (w : Workspace) (u : NodeId) : Prop :=
  forall id, w.owner? u = some id -> (w.label id).isWritable = true

end Workspace

namespace Action

open Workspace

variable {w : Workspace} {id y u : NodeId} {n m : Node} {d : Distribution}
  {E : Failure → Workspace → Prop}

/-!
# Observations
-/

theorem ends_replaceTarget_of_fits {text : Label → Label → String} (hn : w.node? id = some n)
    (hd : n.distribution? = some d) (ht : d.target = some u) (hm : w.node? y = some m)
    (hdata : m.isData = true) (hfree : m.distribution = none) (hdim : m.dim = n.dim)
    (hvalue : m.value.array.shape = m.dim) :
    (w.edit (.detach id u)).Admits (.attach id y m.value) ∧
      Ends (do
        removeTarget id
        addTarget id (.node y)
        updateDistribution id fun d => { d with userNode := y }
        requireText (← label id).isWritable
        report .nodes .debug (text (← label y) (← label id))
        return y) w
        (fun r w' => r = y ∧ (w.label id).isWritable = true ∧
          ∃ message, w' = (((w.edit (.detach id u)).edit (.attach id y m.value)).edit
            (.user id y)).edit (.report message))
        (fun f w' => f = .refused .value ∧ (w.label id).isWritable = false ∧
          w' = ((w.edit (.detach id u)).edit (.attach id y m.value)).edit (.user id y)) := by
  have hadmits : w.Admits (.detach id u) := ⟨n, d, hn, hd, ht⟩
  rcases exists_node?_edit hadmits hn with ⟨n', hn', hchanges⟩
  rcases exists_node?_edit hadmits hm with ⟨m', hm', hchanges'⟩
  have hd' : n'.distribution? = some (d.setTarget none) := by
    have hrole := hchanges.role
    simp only [Edit.roleAfter, if_true] at hrole
    rw [Node.distribution?_of_mapDistribution hrole, hd]
    rfl
  have hfree' : m'.distribution = none := by
    rw [hchanges'.distribution, hfree]
    simp [Edit.ownerAfter]
  have hdim' : m'.dim = n'.dim := by
    rw [hchanges'.dim, hchanges.dim, hdim]
  have hsame : m'.value = m.value := hchanges'.value
  have hvalue' : m'.value.array.shape = n'.dim := by
    rw [hsame, hchanges.dim, ← hdim]
    exact hvalue
  have hne : y ≠ id := by
    rintro rfl
    rw [hn] at hm
    cases hm
    have hkind := isDistribution_of_isData hdata
    unfold Node.isDistribution at hkind
    rw [hd] at hkind
    cases hkind
  have hattach : (w.edit (.detach id u)).Admits (.attach id y m.value) := by
    rw [hsame] at hvalue'
    exact ⟨n', d.setTarget none, m', hn', hd', rfl, hm', hdim', hfree', hne, hvalue'⟩
  have hlabel : (((w.edit (.detach id u)).edit (.attach id y m.value)).edit
      (.user id y)).label id = w.label id := by
    have hedits : Edits (fun _ _ => True) w (((w.edit (.detach id u)).edit
        (.attach id y m.value)).edit (.user id y)) :=
      ((Edits.single hadmits trivial).tail _ hattach trivial).tail (.user id y) trivial trivial
    exact (hedits.label (by rw [hn]; rfl)).2
  refine ⟨hattach, ?_⟩
  rw [ends_bind, ends_removeTarget_of_some hn hd ht, ends_bind]
  apply (ends_addTarget_of_fits hn' hd' rfl hm' hdim' hfree' hne hvalue').imp
  rintro _ _ rfl
  rw [hsame]
  unfold updateDistribution
  rw [ends_bind, ends_update, ends_bind, ends_label]
  change Ends (requireText ((((w.edit (.detach id u)).edit (.attach id y m.value)).edit
    (.user id y)).label id).isWritable >>= _) (((w.edit (.detach id u)).edit
      (.attach id y m.value)).edit (.user id y)) _ _
  rw [hlabel]
  cases hwritable : (w.label id).isWritable with
  | false => exact ⟨rfl, rfl, rfl⟩
  | true =>
      have hrequire : requireText true = pure () := rfl
      rw [hrequire, pure_bind, ends_bind, ends_label, ends_bind, ends_label, ends_bind, ends_report,
        ends_pure]
      exact ⟨rfl, rfl, _, rfl⟩

theorem exists_of_target? (h : w.target? id = some u) :
    ∃ n d, w.node? id = some n ∧ n.distribution? = some d ∧ d.target = some u := by
  cases hn : w.node? id with
  | none =>
      unfold target? at h
      rw [hn] at h
      cases h
  | some n =>
      rw [target?_of_node? hn] at h
      rcases Option.bind_eq_some_iff.mp h with ⟨d, hd, ht⟩
      exact ⟨n, d, rfl, hd, ht⟩

/-- What an observation leaves when it fails: data at most if a check has failed, and the data
in place of the target if the distribution cannot be named. -/
inductive Abandons (w : Workspace) (u : NodeId) (f : Failure) (w' : Workspace) : Prop where
  | checked : w.GrowsTo w' -> Abandons w u f w'
  | unnamed {id y : NodeId} {nv : NodeValue} {v : Workspace} : w.owner? u = some id ->
      (w.label id).isWritable = false -> f = .refused .value -> w.GrowsTo v ->
      v.has Node.isData y = true -> v.Admits (.detach id u) ->
      (v.edit (.detach id u)).Admits (.attach id y nv) ->
      w' = ((v.edit (.detach id u)).edit (.attach id y nv)).edit (.user id y) ->
      Abandons w u f w'

theorem Abandons.edits {f : Failure} {w' : Workspace} (h : Abandons w u f w') (data : Value) :
    Edits ((Call.observe data (.node u)).Makes w) w w' := by
  cases h with
  | checked hgrows => exact Call.makes_of_growsTo hgrows
  | unnamed howner _ _ hgrows hdata hdetach hattach hw' =>
      rw [hw']
      exact Call.makes_of_replaces howner hgrows hdata hdetach hattach

theorem ends_observe_abandons (howned : w.Owned) (hfits : w.FitsData) (data : Value)
    (u : NodeId) : Ends (observe data (.node u)) w (fun _ _ => True) (Abandons w u) := by
  have hchecked : forall {f v}, w.GrowsTo v -> Abandons w u f v := Abandons.checked
  unfold observe
  simp only [nodeId, pure_bind]
  rw [ends_bind, ends_node]
  constructor
  · intro k hk
    cases hid : k.distribution with
    | none => exact hchecked (growsTo_refl w)
    | some id =>
        have howner : w.owner? u = some id := by
          rw [owner?_of_node? hk, hid]
        rcases exists_of_target? (howned u id howner) with ⟨n, d, hn, hd, ht⟩
        apply Ends.bind (((along_asData data).ends (ends_asData data)).mono (fun _ _ h => h)
          fun _ _ h => hchecked h)
        rintro y v ⟨⟨hgrows, hdata⟩, _⟩
        have hn' : v.node? id = some n := hgrows.node? hn
        rcases exists_node_of_has hdata with ⟨m, hm, hisData⟩
        have hvalue : v.FitsData :=
          hgrows.preserves hfits fun u e hu hadmits _ => hu.edit hadmits
        have hlabel := (hgrows.label (x := id) (by rw [hn]; rfl)).2
        rw [ends_bind, ends_node_of_some hm]
        refine ends_unless (hchecked hgrows) ?_
        intro hfree
        rw [ends_bind, ends_node_of_some hn']
        refine ends_unless (hchecked hgrows) ?_
        intro hdim
        rw [ends_bind, ends_distribution_of_some hn' hd]
        refine ends_when (hchecked hgrows) ?_
        intro _
        refine ends_unless (hchecked hgrows) ?_
        intro _
        have hnone : m.distribution = none := by simpa using hfree
        rcases ends_replaceTarget_of_fits hn' hd ht hm hisData hnone
          (Classical.not_not.mp hdim) (hvalue y m hm hisData) with ⟨hattach, hreplace⟩
        refine hreplace.mono (fun _ _ _ => trivial) ?_
        rintro f w' ⟨hf, hwritable, hw'⟩
        rw [hlabel] at hwritable
        exact Abandons.unnamed howner hwritable hf hgrows hdata ⟨n, d, hn', hd, ht⟩ hattach hw'
  · intro _
    exact hchecked (growsTo_refl w)

end Action

namespace Call

open Workspace DensityGraph.Action

/-- Whether a call builds a node or observes data. -/
def isConstruction : Call → Bool
  | addTarget _ _ | removeTarget _ | addParameter _ _ _ | addParent _ _ | removeParent _ _
  | setValue _ _ => false
  | _ => true

/-- A call that builds a node or observes data, and fails, has added nodes at most, or was an
observation. -/
theorem ends_perform_construction {c : Call} {w : Workspace} (hc : c.isConstruction = true)
    (howned : w.Owned) (hfits : w.FitsData) :
    Ends c.perform w (fun _ _ => True) fun f w' => w.GrowsTo w' ∨
      ∃ data u, c = observe data (.node u) ∧ Abandons w u f w' := by
  have hgrows : Atomic GrowsTo c.perform -> Ends c.perform w (fun _ _ => True) fun f w' =>
      w.GrowsTo w' ∨ ∃ data u, c = observe data (.node u) ∧ Abandons w u f w' :=
    fun h => (h w).mono (fun _ _ h => h) fun _ _ h => Or.inl h
  cases c with
  | data v => exact hgrows (along_newData v).atomic.discard
  | operation o args dim extras value reps =>
      exact hgrows (atomic_newOperation o args dim extras value reps).discard
  | binary o a b => exact hgrows (atomic_binary o a b).discard
  | negate a => exact hgrows (atomic_negate a).discard
  | function name args => exact hgrows (atomic_function name args).discard
  | latent lower upper dim constraint =>
      exact hgrows (along_newVariable lower upper dim constraint).atomic.discard
  | bounded truncation dim => exact hgrows (along_newBounded truncation dim).atomic.discard
  | declare family args named => exact hgrows (atomic_declare family args named).discard
  | observe data user =>
      cases user with
      | node u =>
          have hobserve := (ends_observe_abandons howned hfits data u).mono (fun _ _ h => h)
            fun f w' h => (Or.inr ⟨data, u, rfl, h⟩ : w.GrowsTo w' ∨ ∃ data' u',
              observe data (.node u) = observe data' (.node u') ∧ Abandons w u' f w')
          exact Ends.bind hobserve fun _ _ _ => trivial
      | _ => exact Or.inl (growsTo_refl w)
  | _ => cases hc

end Call

namespace Workspace

variable {w : Workspace} {c : Call}

/-!
# Failures
-/

end Workspace
end DensityGraph
