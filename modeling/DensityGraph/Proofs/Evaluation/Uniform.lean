import DensityGraph.Proofs.Evaluation.Modes
import DensityGraph.Proofs.Evaluation.Simulation
import DensityGraph.Proofs.Graph.Steady
/-!
# Environments in one mode

An environment has one mode from its creation on.  Whatever is computed in it, and however
often that fails, all data get their entries in this mode: as constants, and then nothing is
registered, or as placeholders, which are registered and have the values that were fed.
-/

namespace DensityGraph

variable {α β γ : Type} [Scalar α]

theorem Workspace.tensorOf_congr {w v : Workspace}
    (hprecision : v.settings.floatType = w.settings.floatType) (hwide : v.wide = w.wide)
    (x : Value) : v.tensorOf (α := α) x = w.tensorOf x := by
  unfold tensorOf Settings.tensorPrecision Settings.precision?
  rw [hprecision, hwide]

namespace Environment

/-- The entry of data in the mode of the environment: the mode has a truth value, and where
this is false, the data are registered and the entry is what was fed for them. -/
def Compiled (w : Workspace) (e : Environment α) (id : NodeId) (entry : Entry α) : Prop :=
  ∃ constant, e.dataAsConstants.truth = .ok constant ∧
    (constant = false -> id ∈ e.dataList.map Prod.fst ∧
      ∃ v t, e.feed.lookup id = some v ∧ w.tensorOf v = .ok t ∧ entry = .tensor t)

/-- All data that have entries have been compiled in the mode of the environment, and none are
registered unless they are placeholders. -/
structure Uniform (w : Workspace) (e : Environment α) : Prop where
  known : forall id entry, e.get? id .value = some entry -> (w.node? id).isSome = true
  constants : e.dataAsConstants.truth ≠ .ok false -> e.dataList = []
  compiled : forall id entry, w.has Node.isData id = true -> e.get? id .value = some entry ->
    e.Compiled w id entry

variable {w v : Workspace} {e : Environment α} {id : NodeId} {kind : EntryKind}

theorem Uniform.carry (h : e.Uniform w) (hkeeps : w.KeepsData v)
    (hprecision : v.settings.floatType = w.settings.floatType) (hwide : v.wide = w.wide) :
    e.Uniform v where
  known id entry hentry := hkeeps.isSome (h.known id entry hentry)
  constants := h.constants
  compiled id entry hdata hentry := by
    have hbefore := hkeeps.has (h.known id entry hentry) hdata
    rcases h.compiled id entry hbefore hentry with ⟨constant, hmode, hplaceholder⟩
    refine ⟨constant, hmode, ?_⟩
    intro hconstant
    rcases hplaceholder hconstant with ⟨hmem, x, t, hfed, ht, heq⟩
    refine ⟨hmem, x, t, hfed, ?_, heq⟩
    rw [Workspace.tensorOf_congr hprecision hwide]
    exact ht

theorem Uniform.add (h : e.Uniform w) {entry : Entry α} (hnew : (id, kind) ∉ e.keys)
    (hnode : kind = .value -> (w.node? id).isSome = true)
    (hdata : kind = .value -> w.has Node.isData id = true -> e.Compiled w id entry) :
    (e.add id kind entry).Uniform w := by
  constructor
  · intro other x hx
    rcases get?_add_eq_some hnew hx with hold | ⟨⟨rfl, rfl⟩, _⟩
    · exact h.known other x hold
    · exact hnode rfl
  · exact h.constants
  · intro other x hother hx
    rcases get?_add_eq_some hnew hx with hold | ⟨⟨rfl, rfl⟩, rfl⟩
    · exact h.compiled other x hother hold
    · exact hdata rfl hother

theorem Uniform.register (h : e.Uniform w) (hmode : e.dataAsConstants.truth = .ok false)
    (id : NodeId) (a : NumericArray) :
    (e.register id a).Uniform w ∧ id ∈ (e.register id a).dataList.map Prod.fst := by
  have hmem : forall x, x ∈ (e.register id a).dataList.map Prod.fst ↔
      x ∈ e.dataList.map Prod.fst ∨ x = id := by
    intro x
    simp only [Environment.register, List.map_append, List.mem_append, List.mem_map,
      List.mem_filter, bne_iff_ne, ne_eq, List.map_cons, List.map_nil, List.mem_singleton]
    constructor
    · intro hx
      rcases hx with ⟨p, hp, rfl⟩ | rfl
      · exact .inl ⟨p, hp.1, rfl⟩
      · exact .inr rfl
    · intro hx
      by_cases heq : x = id
      · exact .inr heq
      · rcases hx with ⟨p, hp, rfl⟩ | hid
        · exact .inl ⟨p, ⟨hp, heq⟩, rfl⟩
        · exact absurd hid heq
  refine ⟨⟨h.known, fun hother => absurd hmode hother, ?_⟩, (hmem id).mpr (.inr rfl)⟩
  intro other entry hother hentry
  rcases h.compiled other entry hother hentry with ⟨constant, hconstant, hplaceholder⟩
  refine ⟨constant, hconstant, fun hfalse => ?_⟩
  rcases hplaceholder hfalse with ⟨hold, hrest⟩
  exact ⟨(hmem other).mpr (.inl hold), hrest⟩

def InMode (w : Workspace) (mode : Value) (e : Environment α) : Prop :=
  e.dataAsConstants = mode ∧ e.Uniform w

end Environment

namespace Pass

open Environment

variable {w : Workspace} {mode : Value} {id : NodeId} {n : Node}

end Pass
end DensityGraph
