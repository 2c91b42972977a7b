import DensityGraph.Graph.Declare
import DensityGraph.Proofs.Graph.Action
import DensityGraph.Proofs.Graph.Change
import DensityGraph.Proofs.Tensor.Batch
import DensityGraph.Proofs.Tensor.Rows
/-!
# The shape that parameters share

Parameters with a single entry fit to any shape.  The others have to share one, and a shape
that is asked for has to be that one.  All of this is about which shapes occur, not about
where and how often.
-/

namespace DensityGraph
namespace Dim

variable {ds es : List Shape} {d t : Shape} {target : Value}

/-!
# Shapes that occur
-/

def Single (ds : List Shape) : Prop :=
  forall e, e ∈ ds -> e = [1, 1]

structure Shares (ds : List Shape) (d : Shape) : Prop where
  mem : d ∈ ds
  ne : d ≠ [1, 1]
  all : forall e, e ∈ ds -> e = [1, 1] ∨ e = d

def Differ (ds : List Shape) : Prop :=
  ∃ d e, d ≠ e ∧ (d ∈ ds ∧ d ≠ [1, 1]) ∧ e ∈ ds ∧ e ≠ [1, 1]

theorem single_or_shares_or_differ (ds : List Shape) :
    Single ds ∨ (∃ d, Shares ds d) ∨ Differ ds := by
  by_cases hsingle : Single ds
  · exact .inl hsingle
  · right
    unfold Single at hsingle
    push Not at hsingle
    rcases hsingle with ⟨d, hd, hne⟩
    by_cases hall : forall e, e ∈ ds -> e = [1, 1] ∨ e = d
    · exact .inl ⟨d, hd, hne, hall⟩
    · push Not at hall
      rcases hall with ⟨e, he, hone, hed⟩
      exact .inr ⟨d, e, Ne.symm hed, ⟨hd, hne⟩, he, hone⟩

theorem mem_others : d ∈ (ds.filter (· ≠ [1, 1])).eraseDups ↔ d ∈ ds ∧ d ≠ [1, 1] := by
  rw [List.mem_eraseDups, List.mem_filter, decide_eq_true_iff]

theorem others_of_single (h : Single ds) : (ds.filter (· ≠ [1, 1])).eraseDups = [] := by
  rw [List.eq_nil_iff_forall_not_mem]
  intro d hd
  rcases mem_others.mp hd with ⟨hmem, hne⟩
  exact hne (h d hmem)

theorem others_of_shares (h : Shares ds d) : (ds.filter (· ≠ [1, 1])).eraseDups = [d] := by
  apply Batched.eraseDups_of_forall_eq
  · intro e he
    rw [List.mem_filter, decide_eq_true_iff] at he
    exact (h.all e he.1).resolve_left he.2
  · apply List.ne_nil_of_mem (a := d)
    rw [List.mem_filter, decide_eq_true_iff]
    exact ⟨h.mem, h.ne⟩

/-!
# The shared shape
-/

theorem shared_of_single (h : Single ds) (target : Option Shape) :
    shared ds target = .ok (target.getD [1, 1]) := by
  unfold shared
  rw [others_of_single h]
  cases target with
  | none => rfl
  | some t => rfl

theorem shared_of_shares (h : Shares ds d) : shared ds none = .ok d ∧ forall t,
    shared ds (some t) = if d = t then .ok t else .error (.targetDimension t d) := by
  unfold shared
  rw [others_of_shares h]
  exact ⟨rfl, fun _ => rfl⟩

theorem shared_of_differ (h : Differ ds) (target : Option Shape) :
    shared ds target = .error (.parameterShapes ds) := by
  rcases h with ⟨d, e, hne, hd, he⟩
  rw [← mem_others] at hd he
  unfold shared
  split
  · rename_i hnil
    rw [hnil] at hd
    cases hd
  · rename_i hnil
    rw [hnil] at hd
    cases hd
  · rename_i hone
    rw [hone, List.mem_singleton] at hd he
    exact absurd (hd.trans he.symm) hne
  · rename_i hone
    rw [hone, List.mem_singleton] at hd he
    exact absurd (hd.trans he.symm) hne
  · rfl

/-!
# Calls

A call is resolved from the shapes of its parameters alone: it ends in the shape that all of
them share or name, or in an error that says which of them is in the way.
-/

def resolve (ds : List Shape) (target : Value) : Except Failure Shape :=
  match shared ds none, target with
  | .error reason, _ => .error (.invalid reason)
  | .ok d, .none => .ok d
  | .ok _, v => v.toDim.bind fun t => (shared ds (some t)).mapError Failure.invalid

theorem resolve_of_ne (h : target ≠ .none) (hshared : shared ds none = .ok d) :
    resolve ds target =
      target.toDim.bind fun t => (shared ds (some t)).mapError Failure.invalid := by
  unfold resolve
  rw [hshared]
  split
  · rename_i herror
    cases herror
  · exact absurd rfl h
  · rfl

theorem resolve_of_single (h : Single ds) (target : Value) : resolve ds target = target.toDim := by
  by_cases htarget : target = .none
  · rw [htarget]
    unfold resolve
    rw [shared_of_single h]
    rfl
  · rw [resolve_of_ne htarget (shared_of_single h none)]
    cases ht : target.toDim with
    | error failure => rfl
    | ok t =>
        change (shared ds (some t)).mapError Failure.invalid = .ok t
        rw [shared_of_single h]
        rfl

theorem resolve_none_of_shares (h : Shares ds d) : resolve ds .none = .ok d := by
  unfold resolve
  rw [(shared_of_shares h).1]

theorem resolve_of_shares (h : Shares ds d) (htarget : target ≠ .none) :
    resolve ds target = target.toDim.bind fun t =>
      if d = t then .ok t else .error (.invalid (.targetDimension t d)) := by
  rw [resolve_of_ne htarget (shared_of_shares h).1]
  congr 1
  funext t
  rw [(shared_of_shares h).2]
  split
  · rfl
  · rfl

theorem resolve_of_differ (h : Differ ds) (target : Value) :
    resolve ds target = .error (.invalid (.parameterShapes ds)) := by
  unfold resolve
  rw [shared_of_differ h]

/-- The shape that a call asks for, or that its parameters have. -/
inductive IsChosen (ds : List Shape) : Value → Shape → Prop where
  | given {target : Value} {d : Shape} : target ≠ .none -> target.toDim = .ok d ->
      IsChosen ds target d
  | shared {d : Shape} : d ∈ ds -> d ≠ [1, 1] -> (forall e, e ∈ ds -> e ≠ [1, 1] -> e = d) ->
      IsChosen ds .none d
  | single : (forall e, e ∈ ds -> e = [1, 1]) -> IsChosen ds .none [1, 1]

theorem resolve_eq_ok_iff : resolve ds target = .ok d ↔
    (forall e, e ∈ ds -> e = [1, 1] ∨ e = d) ∧ IsChosen ds target d := by
  -- The shapes occur in one of three ways, and the call has an equation for each of them.
  rcases single_or_shares_or_differ ds with hsingle | ⟨s, hshares⟩ | hdiffer
  · rw [resolve_of_single hsingle]
    constructor
    · intro h
      refine ⟨fun e he => .inl (hsingle e he), ?_⟩
      by_cases htarget : target = .none
      · subst htarget
        cases h
        exact .single hsingle
      · exact .given htarget h
    · rintro ⟨_, hchosen⟩
      cases hchosen with
      | given _ h => exact h
      | shared hd hne _ => exact absurd (hsingle d hd) hne
      | single _ => rfl
  · by_cases htarget : target = .none
    · subst htarget
      rw [resolve_none_of_shares hshares]
      constructor
      · rintro ⟨⟩
        exact ⟨hshares.all, .shared hshares.mem hshares.ne fun e he hne =>
          (hshares.all e he).resolve_left hne⟩
      · rintro ⟨_, hchosen⟩
        cases hchosen with
        | given hne _ => exact absurd rfl hne
        | shared hd hne _ => rw [(hshares.all d hd).resolve_left hne]
        | single hall => exact absurd (hall s hshares.mem) hshares.ne
    · rw [resolve_of_shares hshares htarget]
      constructor
      · intro h
        cases ht : target.toDim with
        | error failure =>
            rw [ht] at h
            cases h
        | ok t =>
            rw [ht] at h
            change (if s = t then _ else _) = _ at h
            split at h
            · rename_i hst
              cases h
              exact ⟨hst ▸ hshares.all, .given htarget ht⟩
            · cases h
      · rintro ⟨hall, hchosen⟩
        cases hchosen with
        | given _ ht =>
            rw [ht]
            exact if_pos ((hall s hshares.mem).resolve_left hshares.ne)
        | shared _ _ _ => exact absurd rfl htarget
        | single _ => exact absurd rfl htarget
  · rw [resolve_of_differ hdiffer]
    refine ⟨nofun, ?_⟩
    rintro ⟨hall, _⟩
    rcases hdiffer with ⟨e, e', hne, ⟨he, hone⟩, he', hone'⟩
    exact absurd (((hall e he).resolve_left hone).trans ((hall e' he').resolve_left hone').symm) hne

theorem exists_invalid_of_resolve (ht : target.toDim = .ok t)
    (h : forall d, resolve ds target ≠ .ok d) :
    (Differ ds ∧ resolve ds target = .error (.invalid (.parameterShapes ds))) ∨
      ∃ d, Shares ds d ∧ d ≠ t ∧ resolve ds target = .error (.invalid (.targetDimension t d)) := by
  rcases single_or_shares_or_differ ds with hsingle | ⟨d, hshares⟩ | hdiffer
  · exact absurd ((resolve_of_single hsingle target).trans ht) (h t)
  · by_cases htarget : target = .none
    · subst htarget
      exact absurd (resolve_none_of_shares hshares) (h d)
    · have hresolve := resolve_of_shares hshares htarget
      rw [ht] at hresolve
      by_cases hdt : d = t
      · exact absurd (hresolve.trans (if_pos hdt)) (h t)
      · exact .inr ⟨d, hshares, hdt, hresolve.trans (if_neg hdt)⟩
  · exact .inl ⟨hdiffer, resolve_of_differ hdiffer target⟩

/-- Results that differ at most in the order and number of the shapes that an error lists. -/
inductive SameOutcome : Except Failure Shape → Except Failure Shape → Prop where
  | same (x : Except Failure Shape) : SameOutcome x x
  | listed {ds es : List Shape} : (forall d, d ∈ ds ↔ d ∈ es) ->
      SameOutcome (.error (.invalid (.parameterShapes ds)))
        (.error (.invalid (.parameterShapes es)))

theorem resolve_congr (h : forall d, d ∈ ds ↔ d ∈ es) (target : Value) :
    SameOutcome (resolve ds target) (resolve es target) := by
  rcases single_or_shares_or_differ ds with hsingle | ⟨d, hshares⟩ | hdiffer
  · have hsingle' : Single es := fun e he => hsingle e ((h e).mpr he)
    rw [resolve_of_single hsingle, resolve_of_single hsingle']
    exact .same _
  · have hshares' : Shares es d :=
      ⟨(h d).mp hshares.mem, hshares.ne, fun e he => hshares.all e ((h e).mpr he)⟩
    by_cases htarget : target = .none
    · rw [htarget, resolve_none_of_shares hshares, resolve_none_of_shares hshares']
      exact .same _
    · rw [resolve_of_shares hshares htarget, resolve_of_shares hshares' htarget]
      exact .same _
  · have hdiffer' : Differ es := by
      unfold Differ at hdiffer ⊢
      simpa only [h] using hdiffer
    rw [resolve_of_differ hdiffer, resolve_of_differ hdiffer']
    exact .listed h

end Dim

/-!
# Nodes
-/

namespace Workspace

variable {w : Workspace} {ps qs : List NodeId} {ds : List Shape}

theorem dims?_eq_some_iff : w.dims? ps = some ds ↔
    List.Forall₂ (fun id d => (w.node? id).map Node.dim = some d) ps ds :=
  mapM_eq_some_iff

theorem exists_dims?_of_mem_iff (h : w.dims? ps = some ds) (hmem : forall id, id ∈ qs ↔ id ∈ ps) :
    ∃ es, w.dims? qs = some es ∧ forall d, d ∈ ds ↔ d ∈ es := by
  let dimOf := fun id => ((w.node? id).map Node.dim).getD []
  have hdim : forall id, id ∈ ps -> (w.node? id).map Node.dim = some (dimOf id) := by
    intro id hid
    rcases exists_right_of_forall₂ (dims?_eq_some_iff.mp h) hid with ⟨d, _, hd⟩
    change _ = some (Option.getD _ _)
    rw [hd, Option.getD_some]
  have hmap : forall ids : List NodeId, (forall id, id ∈ ids -> id ∈ ps) ->
      w.dims? ids = some (ids.map dimOf) := by
    intro ids hids
    rw [dims?_eq_some_iff, List.forall₂_map_right_iff, List.forall₂_same]
    intro id hid
    exact hdim id (hids id hid)
  have hds : ds = ps.map dimOf := Option.some.inj (h.symm.trans (hmap ps fun _ hid => hid))
  refine ⟨qs.map dimOf, hmap qs fun id => (hmem id).mp, ?_⟩
  intro d
  rw [hds, List.mem_map, List.mem_map]
  simp only [hmem]

end Workspace

namespace Action

open Workspace

variable {w : Workspace} {ps : List NodeId} {ds : List Shape}

theorem run_dims (h : w.dims? ps = some ds) : (dims ps).run w = (.ok ds, w) := by
  unfold dims
  induction ps generalizing ds with
  | nil =>
      cases h
      rfl
  | cons id ps ih =>
      rcases exists_of_dims? h with ⟨n, es, hn, hes, rfl⟩
      have hdim : (do return (← node id).dim : Action Shape).run w = (.ok n.dim, w) :=
        run_bind_of_run (run_node_of_node? hn) _
      rw [List.mapM_cons, run_bind_of_run hdim, run_bind_of_run (ih hes)]
      rfl

theorem run_checkDims (h : w.dims? ps = some ds) (target : Value) :
    (checkDims ps target).run w = (Dim.resolve ds target, w) := by
  unfold checkDims
  rw [run_bind_of_run (run_dims h)]
  cases hshared : Dim.shared ds none with
  | error reason =>
      unfold Dim.resolve
      rw [hshared]
      rfl
  | ok d =>
      simp only
      split
      · unfold Dim.resolve
        rw [hshared]
        rfl
      · rename_i htarget
        rw [Dim.resolve_of_ne htarget hshared]
        have htoDim := run_ofExcept (w := w) target.toDim
        cases ht : target.toDim with
        | error failure =>
            rw [ht] at htoDim
            exact run_bind_of_error htoDim _
        | ok t =>
            rw [ht] at htoDim
            refine (run_bind_of_run htoDim _).trans ?_
            simp only [Except.bind]
            cases Dim.shared ds (some t) with
            | error reason => rfl
            | ok d => rfl

/-- A call returns the shape that is asked for, or that its parameters have, if they all agree
with it, and finds fault with them otherwise.  It changes nothing, and does not depend on the
order and repetition of the parameters. -/
theorem checkDims_spec (h : w.dims? ps = some ds) (target : Value) :
    ((checkDims ps target).run w).2 = w ∧
      (forall d, ((checkDims ps target).run w).1 = .ok d ↔
        (forall e, e ∈ ds -> e = [1, 1] ∨ e = d) ∧ Dim.IsChosen ds target d) ∧
      (forall t, target.toDim = .ok t -> (forall d, ((checkDims ps target).run w).1 ≠ .ok d) ->
        ∃ reason, ((checkDims ps target).run w).1 = .error (.invalid reason)) ∧
      forall qs : List NodeId, (forall id, id ∈ qs ↔ id ∈ ps) ->
        Dim.SameOutcome ((checkDims ps target).run w).1 ((checkDims qs target).run w).1 := by
  rw [run_checkDims h]
  refine ⟨rfl, fun d => Dim.resolve_eq_ok_iff, ?_, ?_⟩
  · intro t ht hnone
    rcases Dim.exists_invalid_of_resolve ht hnone with ⟨_, hreason⟩ | ⟨_, _, _, hreason⟩
    · exact ⟨_, hreason⟩
    · exact ⟨_, hreason⟩
  · intro qs hqs
    rcases exists_dims?_of_mem_iff h hqs with ⟨es, hes, hmem⟩
    rw [run_checkDims hes]
    exact Dim.resolve_congr hmem target

/-- Two columns of different lengths, and a single entry between them. -/
def columns : Workspace :=
  { Workspace.empty {} true with
    nodes := [[2, 1], [1, 1], [3, 1]].map fun dim => some (Node.lone dim (.blank dim) .data) }

theorem checkDims_spec_columns : columns.dims? [0, 1, 0] = some [[2, 1], [1, 1], [2, 1]] ∧
    ((checkDims [0, 1, 0] .none).run columns).1 = .ok [2, 1] ∧
      columns.dims? [1, 0, 2] = some [[1, 1], [2, 1], [3, 1]] ∧
        ∃ reason, ((checkDims [1, 0, 2] .none).run columns).1 = .error (.invalid reason) := by
  refine ⟨rfl, ?_, rfl, ?_⟩
  · rw [(checkDims_spec (show columns.dims? [0, 1, 0] = _ from rfl) .none).2.1]
    exact ⟨by decide, .shared (by decide) (by decide) (by decide)⟩
  · have hspec := checkDims_spec (show columns.dims? [1, 0, 2] = _ from rfl) .none
    apply hspec.2.2.1 [1, 1] rfl
    intro d
    rw [ne_eq, hspec.2.1]
    rintro ⟨hall, _⟩
    have htwo := (hall [2, 1] (by decide)).resolve_left (by decide)
    have hthree := (hall [3, 1] (by decide)).resolve_left (by decide)
    exact absurd (htwo.trans hthree.symm) (by decide)

end Action
end DensityGraph
