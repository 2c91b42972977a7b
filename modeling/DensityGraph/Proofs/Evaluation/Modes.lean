import DensityGraph.Proofs.Evaluation.Fixed
/-!
# The two data modes

Data are compiled into constants or into placeholders.  A placeholder is fed the value that
the node has at the time, so that both modes give the same entries to all nodes and fail
alike.  Only placeholders are registered, and only they can be fed something else.
-/

namespace DensityGraph

variable {α β γ : Type}

namespace Workspace

/-- The workspace with a data mode. -/
def inMode (w : Workspace) (mode : Value) : Workspace :=
  { w with settings := { w.settings with dataAsConstants := mode } }

theorem sameModel_inMode (w : Workspace) (mode mode' : Value) :
    (w.inMode mode).SameModel (w.inMode mode') :=
  ⟨fun _ => rfl, rfl, rfl, rfl⟩

end Workspace

/-!
# Registered data

In the course of a pass, the data that are registered are those of the placeholders that have
been dealt with, in their order, and all of them have an entry.
-/

namespace Environment

structure Extends (e e' : Environment α) : Prop where
  dataList : e'.dataList = e.dataList
  mode : e'.dataAsConstants = e.dataAsConstants
  keys : forall key, key ∈ e.keys -> key ∈ e'.keys

variable {e e' e'' : Environment α}

theorem Extends.refl (e : Environment α) : Extends e e :=
  ⟨rfl, rfl, fun _ h => h⟩

theorem Extends.trans (h : Extends e e') (h' : Extends e' e'') : Extends e e'' where
  dataList := h'.dataList.trans h.dataList
  mode := h'.mode.trans h.mode
  keys key hkey := h'.keys key (h.keys key hkey)

theorem extends_add (e : Environment α) (id : NodeId) (kind : EntryKind) (entry : Entry α) :
    Extends e (e.add id kind entry) := by
  refine ⟨rfl, rfl, ?_⟩
  intro key hkey
  rw [keys_add]
  exact List.mem_append.mpr (Or.inl hkey)

structure Registers (w : Workspace) (mode : Value) (done : List NodeId)
    (e : Environment α) : Prop where
  inMode : e.dataAsConstants = mode
  dataList : e.dataList = if mode.truth = .ok true then [] else Dag.dataFeed ⟨done, []⟩ w
  stored : forall p, p ∈ e.dataList -> (p.1, EntryKind.value) ∈ e.keys

variable {w : Workspace} {mode : Value} {done : List NodeId} {id : NodeId} {n : Node}

theorem Registers.extend (h : Registers w mode done e) (hextends : Extends e e') :
    Registers w mode done e' where
  inMode := hextends.mode.trans h.inMode
  dataList := hextends.dataList.trans h.dataList
  stored p hp := by
    rw [hextends.dataList] at hp
    exact hextends.keys _ (h.stored p hp)

theorem dataFeed_append (w : Workspace) (done : List NodeId) (id : NodeId) :
    Dag.dataFeed ⟨done ++ [id], []⟩ w =
      Dag.dataFeed ⟨done, []⟩ w ++ Dag.dataFeed ⟨[id], []⟩ w := by
  unfold Dag.dataFeed Dag.data Dag.select
  rw [List.filter_append, List.filterMap_append]

theorem dataFeed_of_data (hn : w.node? id = some n) (hdata : n.isData = true) :
    Dag.dataFeed ⟨[id], []⟩ w = [(id, n.value.array.addBatchAxis)] := by
  have hhas : w.has Node.isData id = true := (Workspace.has_of_node? hn).trans hdata
  simp [Dag.dataFeed, Dag.data, Dag.select, hhas, hn]

theorem dataFeed_of_not_data (hdata : w.has Node.isData id = false) :
    Dag.dataFeed ⟨[id], []⟩ w = [] := by
  simp [Dag.dataFeed, Dag.data, Dag.select, hdata]

theorem Registers.skip (h : Registers w mode done e) (hdata : w.has Node.isData id = false) :
    Registers w mode (done ++ [id]) e := by
  refine ⟨h.inMode, ?_, h.stored⟩
  rw [dataFeed_append, dataFeed_of_not_data hdata, List.append_nil]
  exact h.dataList

theorem Registers.constant (h : Registers w mode done e) (hmode : mode.truth = .ok true) :
    Registers w mode (done ++ [id]) e := by
  refine ⟨h.inMode, ?_, h.stored⟩
  rw [h.dataList, if_pos hmode, if_pos hmode]

theorem Registers.placeholder (h : Registers w mode done e) (hmode : mode.truth = .ok false)
    (hn : w.node? id = some n) (hdata : n.isData = true) (entry : Entry α)
    (hextends : Extends (e.register id n.value.array.addBatchAxis) e')
    (hnew : (id, EntryKind.value) ∉ e'.keys) :
    Registers w mode (done ++ [id]) (e'.add id .value entry) := by
  have hfilter : (e.dataList.filter fun p => p.1 != id) = e.dataList := by
    apply List.filter_eq_self.mpr
    intro p hp
    apply bne_iff_ne.mpr
    rintro rfl
    exact hnew (hextends.keys _ (h.stored p hp))
  have hlist : e'.dataList = e.dataList ++ [(id, n.value.array.addBatchAxis)] := by
    rw [hextends.dataList, register, hfilter]
  refine ⟨hextends.mode.trans h.inMode, ?_, ?_⟩
  · change e'.dataList = _
    rw [hlist, h.dataList, dataFeed_append, dataFeed_of_data hn hdata, hmode]
    rfl
  · intro p hp
    change p ∈ e'.dataList at hp
    rw [hlist] at hp
    rw [keys_add]
    rcases List.mem_append.mp hp with hold | hlast
    · exact List.mem_append.mpr (Or.inl (hextends.keys _ (h.stored p hold)))
    · rw [List.mem_singleton.mp hlast]
      exact List.mem_append.mpr (Or.inr List.mem_cons_self)

end Environment

namespace Pass

open Environment

def Unregistering (a : Pass α β) : Prop :=
  forall e, Ends a e (fun _ e' => Extends e e') fun _ _ => True

theorem Unregistering.bind {a : Pass α β} {next : β → Pass α γ} (h : Unregistering a)
    (hnext : forall x, Unregistering (next x)) : Unregistering (a >>= next) := by
  intro e
  apply (h e).bind
  intro x e' he
  exact (hnext x e').imp fun _ _ he' => he.trans he'

theorem Reads.unregistering {a : Pass α β} {f : Environment α → Except Failure β}
    (h : Reads a f) : Unregistering a := by
  intro e
  have hrun := h e
  unfold run at hrun
  unfold Ends
  rw [hrun]
  cases f e with
  | ok x => exact Extends.refl e
  | error f => trivial

variable {w : Workspace} {mode : Value} {done : List NodeId} {id : NodeId} {n : Node}

theorem unregistering_assign (w : Workspace) (id : NodeId) (kind : EntryKind)
    (entry : Entry α) : Unregistering (assign w id kind entry) := by
  intro e
  exact ends_assign_iff.mpr ⟨fun _ => extends_add e id kind entry, fun _ => trivial⟩

variable [Scalar α]

theorem unregistering_materializeOperation [CustomCode α] (w : Workspace) (id : NodeId)
    (o : Operation)
    (arguments : List NodeId) (extras : List Value) :
    Unregistering (α := α) (materializeOperation w id o arguments extras) := by
  unfold materializeOperation
  apply (reads_arguments w .value arguments).unregistering.bind
  intro args
  apply (reads_reconcile _).unregistering.bind
  intro args
  apply reads_get.unregistering.bind
  intro e
  apply (reads_ofExcept _).unregistering.bind
  intro t
  exact unregistering_assign w id .value (.tensor t)

theorem unregistering_materializeLatent (w : Workspace) (id : NodeId) (dim : Shape)
    (b : Interval) (c : Constraint) :
    Unregistering (α := α) (materializeLatent w id dim b c) := by
  unfold materializeLatent
  apply (reads_entry w id .free).unregistering.bind
  intro x
  cases x with
  | density _ => exact (reads_throw _).unregistering
  | tensor free =>
      apply (reads_ofExcept _).unregistering.bind
      intro adjustment
      apply (unregistering_assign w id .adjustment (.tensor adjustment)).bind
      intro _
      apply (reads_ofExcept _).unregistering.bind
      intro value
      exact unregistering_assign w id .value (.tensor value)

omit [Scalar α] in
theorem unregistering_assignFree (w : Workspace)
    (free : NodeId → Option (Except Refusal (Tensor α))) (id : NodeId) :
    Unregistering (assignFree w free id) := by
  unfold assignFree
  cases free id with
  | none => exact (reads_throw _).unregistering
  | some t =>
      apply (reads_ofRefusal t).unregistering.bind
      intro t
      simp only
      split
      · exact ((reads_throw _).unregistering).bind fun _ => unregistering_assign w id _ _
      · exact unregistering_assign w id .free (.tensor t)

theorem unregistering_placeholder (w : Workspace) (id : NodeId) (expected : List Int) :
    Unregistering (α := α) (placeholder w id expected) := by
  intro e
  exact (maintains_placeholder w id expected e (Extends.refl e)).mono (fun _ _ h => h)
    fun _ _ _ => trivial

theorem registers_materializeData {e : Environment α} (h : Registers w mode done e)
    (hn : w.node? id = some n) (hdata : n.isData = true) :
    Ends (materializeData w id n) e (fun _ e' => Registers w mode (done ++ [id]) e')
      fun _ _ => True := by
  unfold materializeData
  rw [ends_bind, ends_get, ends_bind, h.inMode, ends_ofRefusal]
  refine ⟨?_, fun _ _ => trivial⟩
  intro constant hmode
  cases constant with
  | true =>
      have hstore : Unregistering (α := α) (store w id n.value.array) :=
        (reads_ofRefusal _).unregistering.bind fun t => unregistering_assign w id .value _
      exact (hstore e).imp fun _ e' he => (h.constant hmode).extend he
  | false =>
      rw [if_neg Bool.false_ne_true, ends_bind, ends_modify]
      apply (unregistering_placeholder w id _ _).bind
      intro t e' he
      -- Where the node has got its entry before, the pass fails.
      exact ends_assign_iff.mpr
        ⟨h.placeholder hmode hn hdata (.tensor t) he, fun _ => trivial⟩

theorem not_isData_of_role (hn : w.node? id = some n) (hrole : n.role ≠ .data) :
    w.has Node.isData id = false := by
  rw [Workspace.has_of_node? hn, Node.isData]
  cases h : n.role with
  | data => exact absurd h hrole
  | _ => rfl

theorem registers_materialize [CustomCode α] {e : Environment α} (h : Registers w mode done e)
    (id : NodeId) :
    Ends (materialize w id) e (fun _ e' => Registers w mode (done ++ [id]) e')
      fun _ _ => True := by
  have hother : forall {a : Pass α Unit}, w.has Node.isData id = false -> Unregistering a ->
      Ends a e (fun _ e' => Registers w mode (done ++ [id]) e') fun _ _ => True := by
    intro a hdata ha
    exact (ha e).imp fun _ e' he => (h.skip hdata).extend he
  unfold materialize
  cases hn : w.node? id with
  | none => trivial
  | some n =>
      cases hrole : n.role with
      | data =>
          simp only [hrole]
          apply registers_materializeData h hn
          rw [Node.isData, hrole]
      | operation o arguments extras =>
          simp only [hrole]
          apply hother (not_isData_of_role hn (by rw [hrole]; exact Role.noConfusion))
          exact unregistering_materializeOperation w id o arguments extras
      | latent b c size =>
          simp only [hrole]
          apply hother (not_isData_of_role hn (by rw [hrole]; exact Role.noConfusion))
          exact unregistering_materializeLatent w id n.dim b c
      | distribution dist =>
          simp only [hrole]
          apply hother (not_isData_of_role hn (by rw [hrole]; exact Role.noConfusion))
          exact unregistering_assign w id .value (.density id)

theorem registers_materializeAll [CustomCode α] (w : Workspace) (mode : Value) (d : Dag)
    (free : NodeId → Option (Except Refusal (Tensor α))) (fed : List (NodeId × Value)) :
    Ends (materializeAll w d free) ⟨[], fed, [], mode⟩
      (fun _ e => Registers w mode d.nodes e) fun _ _ => True := by
  have hstart : Registers (α := α) w mode [] ⟨[], fed, [], mode⟩ :=
    ⟨rfl, (ite_self _).symm, nofun⟩
  unfold materializeAll
  apply Ends.bind (Q := fun _ e => Registers w mode [] e)
  · apply Ends.forM (P := fun _ e => Registers w mode [] e) hstart
    intro _ id _ e _ he
    exact (unregistering_assignFree w free id e).imp fun _ _ he' => he.extend he'
  · intro _ e he
    apply Ends.forM (P := fun done e => Registers w mode done e) he
    intro done id _ e' _ he'
    exact registers_materialize he' id

end Pass

/-!
# Both modes

Passes over the same graph that use the same arrays for their data couple: as constants and as
placeholders that are fed the current values, or as constants whatever is fed.
-/

namespace Dag

open Workspace

variable [Scalar α] [CustomCode α] {w : Workspace} {d : Dag} {fed : List (NodeId × Value)}
  {free : NodeId → Option (Except Refusal (Tensor α))}

theorem dataList_of_environment {e : Environment α} (h : d.environment w fed free = .ok e) :
    e.dataList = if w.settings.dataAsConstants.truth = .ok true then [] else d.dataFeed w := by
  have hends := Pass.registers_materializeAll w w.settings.dataAsConstants d free fed
  exact (hends.of_ok (run_of_environment h)).dataList

theorem couples_modes (d : Dag) (w : Workspace) {mode mode' : Value} {on on' : Bool}
    (hmode : mode.truth = .ok on) (hmode' : mode'.truth = .ok on')
    (free : NodeId → Option (Except Refusal (Tensor α))) :
    Pass.Couples ⟨d.currentFeed w, mode⟩ ⟨d.currentFeed w, mode'⟩
      (Pass.materializeAll (w.inMode mode) d free)
      (Pass.materializeAll (w.inMode mode') d free) := by
  apply Pass.couples_materializeAll (sameModel_inMode w mode mode')
  intro id n n' hid hn hn' hdata
  cases hn.symm.trans hn'
  have hfed := lookup_currentFeed hid hn hdata
  apply Pass.couples_materializeData (sameModel_inMode w mode mode') hfed rfl hfed rfl
  rw [Pass.datum_self hmode, Pass.datum_self hmode']

theorem couples_constants (d : Dag) (w : Workspace) {mode : Value}
    (hmode : mode.truth = .ok true) (fed fed' : List (NodeId × Value))
    (free : NodeId → Option (Except Refusal (Tensor α))) :
    Pass.Couples ⟨fed, mode⟩ ⟨fed', mode⟩ (Pass.materializeAll w d free)
      (Pass.materializeAll w d free) := by
  apply Pass.couples_materializeAll (SameModel.refl w)
  intro id n n' _ hn hn' _
  cases hn.symm.trans hn'
  intro e e' he
  have hconstant : forall {e : Environment α} {fed : List (NodeId × Value)},
      e.source = ⟨fed, mode⟩ -> e.dataAsConstants.truth = .ok true := by
    intro e fed hsource
    rw [← hmode]
    exact congrArg (fun s => s.mode.truth) hsource
  rw [Pass.run_materializeData_constant (hconstant he.left),
    Pass.run_materializeData_constant (hconstant he.right)]
  exact Pass.couples_store (SameModel.refl w) id _ e e' he

end Dag

namespace Action

open Workspace

/-- Data that are compiled as constants and data that are compiled as placeholders give the
same entries and the same log-density, or the same failure; placeholders alone are
registered, each with its value, and constants keep their values whatever is fed. -/
theorem materialize_modes [CustomCode Number] (w : Workspace) (d : Dag)
    (free : List (Int × Value)) (on off : Value) (hon : on.truth = .ok true)
    (hoff : off.truth = .ok false) :
    ((∃ f, ((materialize d free []).run (w.inMode on)).1 = .error f ∧
        ((materialize d free []).run (w.inMode off)).1 = .error f) ∨
      ∃ e e', ((materialize d free []).run (w.inMode on)).1 = .ok e ∧
        ((materialize d free []).run (w.inMode off)).1 = .ok e' ∧
        e.entries = e'.entries ∧
        (forall id x, ((Pass.density (w.inMode on) id x).run e).1 =
          ((Pass.density (w.inMode off) id x).run e').1) ∧
        e.dataList = [] ∧ e'.dataList = d.dataFeed w) ∧
    (forall adjust, ((logDensity d free [] adjust).run (w.inMode on)).1 =
      ((logDensity d free [] adjust).run (w.inMode off)).1) ∧
    (forall data fed w', (feed d data).run (w.inMode on) = (.ok fed, w') ->
      forall adjust, ((logDensity d free data adjust).run (w.inMode on)).1 =
        ((logDensity d free [] adjust).run (w.inMode on)).1) := by
  have hsame := sameModel_inMode w on off
  have hplaceholder : off.truth ≠ .ok true := by
    rw [hoff]
    exact nofun
  have hfree : (w.inMode off).freeOf free = (w.inMode on).freeOf free := hsame.freeOf free
  have hcouples := Dag.couples_modes d w hon hoff ((w.inMode on).freeOf free)
  refine ⟨?_, ?_, ?_⟩
  · rw [run_materialize, run_materialize, hfree]
    rcases Dag.environment_of_couples hsame hcouples with herror | ⟨e, e', he, he', hentries⟩
    · exact Or.inl herror
    · refine Or.inr ⟨e, e', he, he', hentries, ?_, ?_, ?_⟩
      · intro id x
        have hdensity := Environment.density_congr hsame hentries.symm
        rw [Pass.reads_density (w.inMode on) id x e, Pass.reads_density (w.inMode off) id x e']
        exact congrFun (congrFun hdensity.symm id) x
      · exact (Dag.dataList_of_environment he).trans (if_pos hon)
      · exact (Dag.dataList_of_environment he').trans (if_neg hplaceholder)
  · intro adjust
    rw [run_logDensity, run_logDensity, hfree]
    exact Dag.jointAt_of_couples hsame adjust hcouples
  · intro data fed w' hfeed adjust
    rw [run_logDensity_of_feed hfeed, run_logDensity]
    exact Dag.jointAt_of_couples (SameModel.refl _) adjust
      (Dag.couples_constants d (w.inMode on) hon fed _ _)

section Trial

attribute [local instance] CustomCode.refusing

theorem isOk_feed_trial : ((feed trialDag [(.node 0, .list [.list [.float 1e-20]])]).run
    (trial.inMode (.bool true))).1.isOk = true := by decide +kernel

/-- The log-density of a trial in both modes, and with data that are passed over. -/
theorem materialize_modes_trial :
    ((logDensity trialDag [] [] true).run (trial.inMode (.bool true))).1.isOk = true ∧
      ((logDensity trialDag [] [] true).run (trial.inMode (.bool true))).1 =
        ((logDensity trialDag [] [] true).run (trial.inMode (.bool false))).1 ∧
      ((logDensity trialDag [] [(.node 0, .list [.list [.float 1e-20]])] true).run
          (trial.inMode (.bool true))).1 =
        ((logDensity trialDag [] [] true).run (trial.inMode (.bool true))).1 := by
  rcases materialize_modes trial trialDag [] (.bool true) (.bool false) rfl rfl with
    ⟨_, hmodes, hfeeds⟩
  rcases exists_run_of_isOk isOk_feed_trial with ⟨fed, w', hfeed⟩
  exact ⟨by decide +kernel, hmodes true, hfeeds _ fed w' hfeed true⟩

end Trial

end Action
end DensityGraph
