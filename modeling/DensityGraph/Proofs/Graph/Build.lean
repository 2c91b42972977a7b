import Mathlib.Data.List.Forall2
import DensityGraph.Proofs.Graph.Action
import DensityGraph.Proofs.Graph.Edit
/-!
# Building by edits

Data, computed nodes and variables are built by giving out numbers and putting new
nodes under them.  Nodes that are there already stay as they are, but for the children
that they get.
-/

namespace DensityGraph

def Edit.isGrowth : Edit → Bool
  | reserve | report _ => true
  | place _ n => !n.isDistribution
  | _ => false

namespace Workspace

variable {v w : Workspace} {id : NodeId} {n : Node}

abbrev GrowsTo (w v : Workspace) : Prop :=
  Edits (fun _ e => e.isGrowth = true) w v

theorem GrowsTo.node? (h : w.GrowsTo v) (hn : w.node? id = some n) : v.node? id = some n := by
  apply h.preserves (I := fun v => v.node? id = some n) hn
  intro u e hu hadmits he
  cases e with
  | reserve => exact (node?_reserve u id).trans hu
  | report m => exact hu
  | place other m =>
      rcases hadmits with ⟨_, hnone, _⟩
      have hne : other ≠ id := by
        intro heq
        rw [heq, hu] at hnone
        cases hnone
      exact (node?_put_of_ne u m hne).trans hu
  | compute _ _ _ _ => cases he
  | link _ _ => cases he
  | unlink _ _ => cases he
  | attach _ _ _ => cases he
  | detach _ _ => cases he
  | parameter _ _ _ => cases he
  | user _ _ => cases he
  | value _ _ => cases he

theorem GrowsTo.has {p : Node → Bool} (h : w.GrowsTo v) (hp : w.has p id = true) :
    v.has p id = true := by
  unfold Workspace.has at hp ⊢
  cases hn : w.node? id with
  | none =>
      rw [hn] at hp
      cases hp
  | some n =>
      rw [hn] at hp
      rw [h.node? hn]
      exact hp

def StandsFor (w : Workspace) (v : Value) (id : NodeId) : Prop :=
  v = .node id ∨ Action.isNode v = false ∧ w.has Node.isData id = true

theorem GrowsTo.standsFor {x : Value} (h : w.GrowsTo v) (hx : w.StandsFor x id) :
    v.StandsFor x id := by
  rcases hx with hnode | ⟨hnot, hdata⟩
  · exact Or.inl hnode
  · exact Or.inr ⟨hnot, h.has hdata⟩

theorem node?_length (w : Workspace) : w.node? w.nodes.length = none :=
  node?_eq_none_of_length_le (Nat.le_refl _)

end Workspace

theorem Constraint.tag_of_ofTag? {s : String} {c : Constraint}
    (h : Constraint.ofTag? s = some c) : c.tag = s := by
  have heq := List.find?_some h
  exact eq_of_beq heq

theorem Constraint.tag_injective : Function.Injective Constraint.tag := by
  intro c c' h
  have hsame := Constraint.ofTag?_tag c
  rw [h, Constraint.ofTag?_tag] at hsame
  exact (Option.some.inj hsame).symm

theorem Constraint.eq_of_resolve {label : NodeId → String} {v : Value} {c : Constraint}
    (h : Constraint.resolve label v = .ok c) : v = .text c.tag := by
  unfold Constraint.resolve at h
  split at h
  · rename_i s
    split at h
    · rename_i c' hc'
      cases h
      rw [Constraint.tag_of_ofTag? hc']
    · cases h
  · split at h <;> cases h

namespace Action

open Workspace

variable {w : Workspace} {E : Failure → Workspace → Prop}

abbrev Fails (_ : Failure) (_ : Workspace) : Prop :=
  True

theorem ends_fails {β : Type} {a : Action β} {Q : β → Workspace → Prop} (h : Ends a w Q E) :
    Ends a w Q Fails :=
  h.mono (fun _ _ h => h) fun _ _ _ => trivial

section Checks

variable {β γ : Type} {Q : γ → Workspace → Prop}

theorem ends_bind_node {id : NodeId} {next : Node → Action γ}
    (h : forall n, w.node? id = some n -> Ends (next n) w Q Fails) :
    Ends (node id >>= next) w Q Fails :=
  ends_bind.mpr (ends_node.mpr ⟨h, fun _ => trivial⟩)

theorem ends_bind_ofExcept {x : Except Failure β} {next : β → Action γ}
    (h : forall y, x = .ok y -> Ends (next y) w Q Fails) :
    Ends (ofExcept x >>= next) w Q Fails :=
  ends_bind.mpr (ends_ofExcept.mpr ⟨h, fun _ _ => trivial⟩)

theorem ends_bind_ofRefusal {x : Except Refusal β} {next : β → Action γ}
    (h : forall y, x = .ok y -> Ends (next y) w Q Fails) :
    Ends (ofRefusal x >>= next) w Q Fails :=
  ends_bind.mpr (ends_ofRefusal.mpr ⟨h, fun _ _ => trivial⟩)

end Checks

theorem ends_dims (ids : List NodeId) :
    Ends (dims ids) w (fun ds w' => w' = w ∧ w.dims? ids = some ds) Fails := by
  unfold dims
  apply Ends.mapM (P := fun done ds w' => w' = w ∧ w.dims? done = some ds)
  · exact ⟨rfl, rfl⟩
  · intro done id rest ds v _ hdone
    rcases hdone with ⟨rfl, hds⟩
    apply ends_bind_node
    intro n hn
    refine ⟨rfl, ?_⟩
    unfold dims? at hds ⊢
    rw [List.mapM_append, hds]
    simp [hn]

/-!
# Data
-/

theorem two_le_length_toData {kindOf : NodeId → String} {v : Value} {t : Tensor Float}
    (h : v.toData kindOf = .ok t) : 2 ≤ t.shape.length := by
  unfold Value.toData at h
  split at h
  · cases h
    exact Tensor.two_le_rank_atLeastMatrix _
  · cases h
  · cases h

theorem growsTo_put {n : Node} (hmade : n.Made) (hkind : n.isDistribution = false) :
    w.GrowsTo (w.reserve.put w.nodes.length n) ∧
      (w.reserve.put w.nodes.length n).node? w.nodes.length = some n ∧
      forall other, other < w.nodes.length ->
        (w.reserve.put w.nodes.length n).node? other = w.node? other := by
  have hlength : w.nodes.length < w.reserve.nodes.length := by
    simp [Workspace.reserve]
  have hadmits : w.reserve.Admits (.place w.nodes.length n) :=
    ⟨hlength, (node?_reserve w _).trans (node?_length w), hmade⟩
  refine ⟨?_, node?_put_self _ _ hlength, ?_⟩
  · apply (Edits.single (e := .reserve) trivial rfl).trans
    apply Edits.single hadmits
    simp [Edit.isGrowth, hkind]
  · intro other hother
    rw [node?_put_of_ne _ _ (Nat.ne_of_gt hother), node?_reserve]

theorem ends_newData_put (v : Value) :
    Ends (newData v) w
      (fun id w' => ∃ t : Tensor Float, 2 ≤ t.shape.length ∧ t.shape.IsDim ∧
        id = w.nodes.length ∧
        w' = w.reserve.put w.nodes.length (Node.lone t.shape (.ofFloats t) .data))
      (fun _ w' => w' = w ∨ w' = w.reserve) := by
  unfold newData
  rw [ends_bind, ends_get, ends_bind, ends_ofExcept]
  constructor
  · intro t ht
    rw [ends_bind, ends_reserve]
    refine ends_unless (Or.inr rfl) ?_
    intro hpositive
    have hlength := two_le_length_toData ht
    have hdim : t.shape.IsDim := by
      constructor
      · omega
      · intro k hk
        simp only [List.any_eq_true, decide_eq_true_eq, not_exists, not_and] at hpositive
        exact Nat.le_of_not_lt (hpositive k hk)
    rw [ends_bind, ends_put, ends_pure]
    exact ⟨t, hlength, hdim, rfl, rfl⟩
  · intro _ _
    exact Or.inl rfl

theorem ends_newData (v : Value) :
    Ends (newData v) w
      (fun id w' => w.GrowsTo w' ∧ w'.has Node.isData id = true) Fails := by
  apply (ends_newData_put v).mono
  · rintro id w' ⟨t, _, hdim, rfl, rfl⟩
    rcases growsTo_put (w := w) (Node.Made.data t hdim) rfl with ⟨hgrows, hnode, _⟩
    refine ⟨hgrows, ?_⟩
    unfold Workspace.has
    rw [hnode]
    rfl
  · intro _ _ _
    trivial

theorem isNode_eq_false {v : Value} (h : forall id, v = .node id -> False) :
    isNode v = false := by
  unfold isNode
  split
  · exact absurd rfl (h _)
  · rfl

theorem ends_toNode (v : Value) :
    Ends (toNode v) w (fun id w' => w.GrowsTo w' ∧ w'.StandsFor v id) Fails := by
  unfold toNode
  split
  · exact ends_pure.mpr ⟨Edits.refl w, Or.inl rfl⟩
  · rename_i hnode
    apply (ends_newData v).imp
    intro id w' h
    exact ⟨h.1, Or.inr ⟨isNode_eq_false hnode, h.2⟩⟩

theorem ends_toNodes (args : List Value) :
    Ends (args.mapM toNode) w
      (fun ids w' => w.GrowsTo w' ∧ List.Forall₂ w'.StandsFor args ids) Fails := by
  apply Ends.mapM (P := fun (done : List Value) ids w' =>
    w.GrowsTo w' ∧ List.Forall₂ w'.StandsFor done ids)
  · exact ⟨Edits.refl w, List.Forall₂.nil⟩
  · intro done v rest ids u _ hdone
    rcases hdone with ⟨hgrows, hids⟩
    apply (ends_toNode v).imp
    intro id u' h
    rcases h with ⟨hgrows', hid⟩
    refine ⟨hgrows.trans hgrows', ?_⟩
    apply List.rel_append
    · exact hids.imp fun _ _ hx => hgrows'.standsFor hx
    · exact List.Forall₂.cons hid List.Forall₂.nil

theorem ends_asData (v : Value) :
    Ends (asData v) w
      (fun id w' => w.GrowsTo w' ∧ w'.has Node.isData id = true) Fails := by
  unfold asData
  split
  · rename_i id
    apply ends_bind_node
    intro n hn
    refine ends_when trivial ?_
    intro hdata
    rw [ends_pure]
    refine ⟨Edits.refl w, ?_⟩
    rw [has_of_node? hn]
    exact hdata
  · exact ends_newData v

/-!
# Operations

A computed node is built in three steps: nodes are made of the arguments, a number is given
out, and the node is put down with the shape and the value that were declared or refused.
-/

/-- The value that the shape of an operation is read from: the one that is given, or the one
that a rule makes of the shapes of the arguments. -/
def sizesFrom? (dims : Option (List Shape)) : Value → Option Value
  | .rule r => dims.bind fun ds => (r.apply ds).toOption
  | v => some v

theorem ends_operationDim (name : String) (arguments : List NodeId) (dim : Value) :
    Ends (operationDim name arguments dim) w
      (fun d w' => w' = w ∧
        (dim = .none -> ∃ ds, w.dims? arguments = some ds ∧ Dim.broadcast name ds = .ok d) ∧
        (dim ≠ .none -> ∃ x, sizesFrom? (w.dims? arguments) dim = some x ∧ x.toDim = .ok d))
      Fails := by
  unfold operationDim
  split
  · apply Ends.bind (ends_dims arguments)
    intro ds w' h
    rcases h with ⟨rfl, hds⟩
    cases hbroadcast : Dim.broadcast name ds with
    | error reason => exact trivial
    | ok d => exact ends_pure.mpr ⟨rfl, fun _ => ⟨ds, hds, hbroadcast⟩, fun h => absurd rfl h⟩
  · rename_i r
    apply Ends.bind (ends_dims arguments)
    intro ds w' h
    rcases h with ⟨rfl, hds⟩
    apply ends_bind_ofRefusal
    intro x hx
    rw [ends_ofExcept]
    constructor
    · intro d hd
      refine ⟨rfl, nofun, fun _ => ⟨x, ?_, hd⟩⟩
      rw [hds, sizesFrom?, Option.bind_some, hx]
      rfl
    · intro _ _
      trivial
  · rename_i hnone hrule
    rw [ends_ofExcept]
    constructor
    · intro d hd
      refine ⟨rfl, fun h => absurd h hnone, fun _ => ⟨dim, ?_, hd⟩⟩
      unfold sizesFrom?
      split
      · exact absurd rfl (hrule _)
      · rfl
    · intro _ _
      trivial

inductive Computed (w : Workspace) (operation : Value) (args : List Value)
    (dim extras value : Value) (reps : List (String × NodeId)) : NodeId → Workspace → Prop where
  | intro (v : Workspace) (o : Operation) (id : NodeId) (arguments : List NodeId)
      (d : Shape) (nv : NodeValue) (es : List Value) :
      w.GrowsTo v ->
      Operation.resolve w.written operation = .ok o ->
      List.Forall₂ v.StandsFor args arguments ->
      (dim = .none -> ∃ ds, v.dims? arguments = some ds ∧ Dim.broadcast o.name ds = .ok d) ->
      (forall xs, dim = .tuple xs -> dim.toDim = .ok d) ->
      members extras = .ok es ->
      nv.array.shape = d ->
      w.nodes.length ≤ id -> id < v.nodes.length -> v.node? id = none ->
      Computed w operation args dim extras value reps id
        (v.edit (.compute false id { Node.lone d nv (.operation o arguments es) with
          representations := reps } arguments))

theorem ends_forM_link (id : NodeId) (arguments : List NodeId) {Q : Unit → Workspace → Prop}
    (h : Q () (w.linkAll id arguments)) :
    Ends (arguments.forM fun a => modify fun w => w.link id a) w Q E := by
  induction arguments generalizing w with
  | nil => exact h
  | cons a arguments ih =>
      change Ends ((modify fun w => w.link id a) >>= fun _ =>
        arguments.forM fun a => modify fun w => w.link id a) w Q E
      rw [ends_bind, ends_modify]
      exact ih h

theorem dims?_reserve (w : Workspace) (ids : List NodeId) :
    w.reserve.dims? ids = w.dims? ids := by
  unfold dims?
  congr 1
  funext id
  rw [node?_reserve]

theorem Computed.reserved {operation : Value} {args : List Value} {dim extras value : Value}
    {reps : List (String × NodeId)} {v : Workspace} {o : Operation}
    {arguments : List NodeId} {d : Shape} {nv : NodeValue} {es : List Value}
    (hgrows : w.GrowsTo v) (hresolve : Operation.resolve w.written operation = .ok o)
    (harguments : List.Forall₂ v.StandsFor args arguments)
    (hnone : dim = .none -> ∃ ds, v.dims? arguments = some ds ∧ Dim.broadcast o.name ds = .ok d)
    (htuple : forall xs, dim = .tuple xs -> dim.toDim = .ok d) (hes : members extras = .ok es)
    (hvalue : nv.array.shape = d) :
    Computed w operation args dim extras value reps v.nodes.length
      (v.reserve.edit (.compute false v.nodes.length
        { Node.lone d nv (.operation o arguments es) with representations := reps }
        arguments)) := by
  have hreserve : v.GrowsTo v.reserve := Edits.single (e := .reserve) trivial rfl
  apply Computed.intro v.reserve o v.nodes.length arguments d nv es
  · exact hgrows.trans hreserve
  · exact hresolve
  · exact harguments.imp fun _ _ hx => hreserve.standsFor hx
  · intro hdim
    rw [dims?_reserve]
    exact hnone hdim
  · exact htuple
  · exact hes
  · exact hvalue
  · exact Edits.length_le hgrows
  · simp [Workspace.reserve]
  · exact (node?_reserve v _).trans (node?_length v)

theorem shape_fill {β : Type} {s : Shape} {xs : List β} {t : Tensor β}
    (h : Value.fill s xs = .ok t) : t.shape = s := by
  unfold Value.fill Tensor.ofArray? at h
  split at h
  · rename_i heq
    split at heq
    · cases heq
      cases h
      rfl
    · cases heq
  · cases h

theorem shape_toFloats {v : Value} {t : Tensor Float} {s : Shape} (h : v.toFloats = .ok t)
    (hs : v.shape = .ok s) : t.shape = s := by
  unfold Value.toFloats at h
  unfold Value.shape at hs
  cases hnesting : v.nesting with
  | error r =>
      rw [hnesting] at h
      cases h
  | ok nested =>
      rw [hnesting] at h hs
      cases hs
      cases hentries : nested.2.mapM Value.toFloat with
      | error r =>
          simp [bind, Except.bind, hentries] at h
      | ok xs =>
          simp only [bind, Except.bind, hentries] at h
          exact shape_fill h

theorem shape_toNodeValue {v : Value} {nv : NodeValue} {s : Shape}
    (h : toNodeValue v = .ok nv) (hs : v.shape = .ok s) : nv.array.shape = s := by
  unfold toNodeValue at h
  split at h
  · rename_i a
    cases h
    unfold Value.shape Value.nesting at hs
    exact Except.ok.inj hs
  · cases hfloats : v.toFloats with
    | error r =>
        rw [hfloats] at h
        cases h
    | ok t =>
        rw [hfloats] at h
        cases h
        exact shape_toFloats hfloats hs

theorem ends_compute {o : Operation} {arguments : List NodeId} {d : Shape} {id : NodeId}
    {nv : NodeValue} {extras : Value} {reps : List (String × NodeId)}
    {Q : NodeId → Workspace → Prop}
    (hQ : forall es, members extras = .ok es -> Q id (w.edit (.compute false id
      { Node.lone d nv (.operation o arguments es) with representations := reps } arguments))) :
    Ends (do
      let es ← ofRefusal (members extras)
      put id { Node.lone d nv (.operation o arguments es) with representations := reps }
      arguments.forM fun a => modify fun w => w.link id a
      return id) w Q Fails := by
  apply ends_bind_ofRefusal
  intro es hes
  rw [ends_bind, ends_put, ends_bind]
  apply ends_forM_link
  rw [ends_pure]
  exact hQ es hes

theorem ends_newOperation_node (operation : Value) (args : List Value)
    (dim extras value : Value) (reps : List (String × NodeId)) :
    Ends (newOperation operation args dim extras value reps) w
      (fun id w' => ∃ o arguments v d nv es, Operation.resolve w.written operation = .ok o ∧
        (args.mapM toNode).run w = (.ok arguments, v) ∧
        (dim = .none -> ∃ ds, v.dims? arguments = some ds ∧ Dim.broadcast o.name ds = .ok d) ∧
        (dim ≠ .none -> ∃ x, sizesFrom? (v.dims? arguments) dim = some x ∧ x.toDim = .ok d) ∧
        members extras = .ok es ∧ nv.array.shape = d ∧
        id = v.nodes.length ∧ w' = v.reserve.edit (.compute false v.nodes.length
          { Node.lone d nv (.operation o arguments es) with representations := reps }
          arguments)) Fails := by
  unfold newOperation
  rw [ends_bind, ends_get]
  apply ends_bind_ofExcept
  intro o hresolve
  rw [ends_bind]
  apply ends_run.mono _ fun _ _ _ => trivial
  intro arguments v hrun
  apply Ends.bind (ends_operationDim o.name arguments dim)
  intro d v' hd
  rcases hd with ⟨rfl, hnone, hgiven⟩
  simp only
  split
  · simp only
    rw [ends_bind, ends_reserve, ends_bind, ends_pure]
    apply ends_compute
    intro es hes
    exact ⟨o, arguments, v', d, _, es, hresolve, hrun, hnone, hgiven, hes,
      NodeValue.shape_blank d, rfl, rfl⟩
  · rename_i hvalue
    apply ends_bind_ofRefusal
    intro shape hshape
    refine ends_unless trivial ?_
    intro heq
    rw [ends_bind, ends_reserve]
    simp only
    apply ends_bind_ofRefusal
    intro nv hnv
    apply ends_compute
    intro es hes
    have hsame : nv.array.shape = d := by
      rw [shape_toNodeValue hnv hshape]
      exact Classical.not_not.mp heq
    exact ⟨o, arguments, v', d, nv, es, hresolve, hrun, hnone, hgiven, hes, hsame, rfl, rfl⟩

theorem ends_newOperation (operation : Value) (args : List Value) (dim extras value : Value)
    (reps : List (String × NodeId)) :
    Ends (newOperation operation args dim extras value reps) w
      (fun id w' => Computed w operation args dim extras value reps id w') Fails := by
  apply (ends_newOperation_node operation args dim extras value reps).imp
  intro _ _ hends
  rcases hends with ⟨o, arguments, v, d, nv, es, hresolve, hrun, hnone, hgiven, hes, hvalue,
    rfl, rfl⟩
  rcases (ends_toNodes args).of_ok hrun with ⟨hgrows, harguments⟩
  have htuple : forall xs, dim = .tuple xs -> dim.toDim = .ok d := by
    intro xs htuple
    rw [htuple] at hgiven ⊢
    rcases hgiven nofun with ⟨x, hx, hd⟩
    cases hx
    exact hd
  exact Computed.reserved hgrows hresolve harguments hnone htuple hes hvalue

/-!
# Variables

A variable is put down with bounds and a constraint that have been checked against each
other.
-/

theorem ends_bound (which : String) (v : Value) :
    Ends (bound which v) w (fun _ w' => w' = w) Fails := by
  unfold bound
  apply ends_bind_ofRefusal
  intro content _
  split
  · exact trivial
  · split
    · exact ends_pure.mpr rfl
    · exact trivial
  · exact trivial

theorem ends_bounds (lower upper : Value) :
    Ends (bounds lower upper) w
      (fun b w' => w' = w ∧ b.isProper = true ∧ ¬b.upper ≤ b.lower) Fails := by
  unfold bounds
  apply Ends.bind (ends_bound "lower" lower)
  intro l w' hl
  rw [hl]
  apply Ends.bind (ends_bound "upper" upper)
  intro u w' hu
  rw [hu]
  simp only
  refine ends_when trivial ?_
  intro hproper
  refine ends_unless trivial ?_
  intro hordered
  exact ends_pure.mpr ⟨rfl, hproper, hordered⟩

theorem ends_constraintOf (b : Interval) (constraint : Value) :
    Ends (constraintOf b constraint) w
      (fun c w' => w' = w ∧ (constraint = .none ∧ c = Constraint.ofBounds b ∨
        constraint = .text c.tag ∧ Constraint.ofBounds b = .unconstrained)) Fails := by
  unfold constraintOf
  split
  · exact ends_pure.mpr ⟨rfl, Or.inl ⟨rfl, rfl⟩⟩
  · refine ends_unless trivial ?_
    intro h
    rw [ends_bind, ends_get, ends_ofExcept]
    constructor
    · intro c hc
      exact ⟨rfl, Or.inr ⟨Constraint.eq_of_resolve hc, Classical.not_not.mp h⟩⟩
    · intro _ _
      trivial

theorem ends_freeSizeOf (c : Constraint) (dim : Shape) :
    Ends (freeSizeOf c dim) w
      (fun size w' => w' = w ∧
        (c.freeSize? (dim.map Int.ofNat)).map Int.toNat = some size) Fails := by
  unfold freeSizeOf
  split
  · rename_i k hk
    rw [ends_pure, hk]
    exact ⟨rfl, rfl⟩
  · exact trivial

theorem ends_putVariable_latent (b : Interval) (c : Constraint) (dim : Shape) :
    Ends (putVariable b c dim) w
      (fun id w' => ∃ size, (c.freeSize? (dim.map Int.ofNat)).map Int.toNat = some size ∧
        id = w.nodes.length ∧ w' = w.reserve.put w.nodes.length
          (Node.lone dim (NodeValue.blank dim) (.latent b c size))) Fails := by
  unfold putVariable
  apply Ends.bind (ends_freeSizeOf c dim)
  rintro size v ⟨rfl, hsize⟩
  rw [ends_bind, ends_reserve, ends_bind, ends_put, ends_pure]
  exact ⟨size, hsize, rfl, rfl⟩

theorem ends_constrained {lower upper constraint : Value} {next : Interval → Constraint → Action β}
    {Q : β → Workspace → Prop} (h : forall b c, (bounds lower upper).run w = (.ok b, w) ->
      (constraint = .none ∧ c = Constraint.ofBounds b ∨
        constraint = .text c.tag ∧ Constraint.ofBounds b = .unconstrained) ->
      b.Fits c -> Ends (next b c) w Q Fails) :
    Ends (do
      let b ← bounds lower upper
      let c ← constraintOf b constraint
      next b c) w Q Fails := by
  apply Ends.bind (ends_run.and (ends_bounds lower upper) |>.mono (fun _ _ h => h)
    fun _ _ _ => trivial)
  rintro b v ⟨hrun, rfl, hproper, hordered⟩
  apply Ends.bind (ends_constraintOf b constraint)
  rintro c v ⟨rfl, hasked⟩
  exact h b c hrun hasked ⟨hproper, hordered, hasked.imp And.right And.right⟩

theorem ends_putVariable {b : Interval} {c : Constraint} {dim : Shape} (hfits : b.Fits c)
    (hdim : dim.IsDim) :
    Ends (putVariable b c dim) w
      (fun id w' => (w.GrowsTo w' ∧ w'.has Node.isSource id = true ∧
        forall other, other < w.nodes.length -> w'.node? other = w.node? other) ∧
        (c.freeSize? (dim.map Int.ofNat)).isSome = true) Fails := by
  apply (ends_putVariable_latent b c dim).imp
  rintro id w' ⟨size, hsize, rfl, rfl⟩
  have hmade := Node.Made.latent dim (NodeValue.blank dim) b c size hdim hfits hsize
    (NodeValue.shape_blank dim)
  rcases growsTo_put (w := w) hmade rfl with ⟨hgrows, hnode, hothers⟩
  refine ⟨⟨hgrows, ?_, hothers⟩, ?_⟩
  · rw [has_of_node? hnode]
    rfl
  · rcases Option.map_eq_some_iff.mp hsize with ⟨k, hk, _⟩
    rw [hk]
    rfl

theorem ends_newVariable_latent (lower upper dim constraint : Value) :
    Ends (newVariable lower upper dim constraint) w
      (fun id w' => ∃ b c d size, (bounds lower upper).run w = (.ok b, w) ∧
        (constraint = .none ∧ c = Constraint.ofBounds b ∨
          constraint = .text c.tag ∧ Constraint.ofBounds b = .unconstrained) ∧
        dim.toDim = .ok d ∧ b.Fits c ∧
        (c.freeSize? (d.map Int.ofNat)).map Int.toNat = some size ∧ id = w.nodes.length ∧
        w' = w.reserve.put w.nodes.length
          (Node.lone d (NodeValue.blank d) (.latent b c size))) Fails := by
  apply ends_constrained
  intro b c hrun hasked hfits
  apply ends_bind_ofExcept
  intro d hd
  apply (ends_putVariable_latent b c d).imp
  rintro id w' ⟨size, hsize, hid, hw'⟩
  exact ⟨b, c, d, size, hrun, hasked, hd, hfits, hsize, hid, hw'⟩

theorem ends_newVariable (lower upper dim constraint : Value) :
    Ends (newVariable lower upper dim constraint) w
      (fun id w' => w.GrowsTo w' ∧ w'.has Node.isSource id = true ∧
        forall other, other < w.nodes.length -> w'.node? other = w.node? other) Fails := by
  apply ends_constrained
  intro b c _ _ hfits
  apply ends_bind_ofExcept
  intro d hd
  apply (ends_putVariable hfits (Value.isDim_toDim hd)).imp
  intro _ _ h
  exact h.1

theorem ends_newBounded (truncation dim : Value) :
    Ends (newBounded truncation dim) w (fun _ w' => w.GrowsTo w') Fails := by
  have hvariable : forall lower upper constraint,
      Ends (newVariable lower upper dim constraint) w (fun _ w' => w.GrowsTo w') Fails := by
    intro lower upper constraint
    apply (ends_newVariable lower upper dim constraint).imp
    intro _ _ h
    exact h.1
  unfold newBounded
  split
  · exact hvariable _ _ _
  · apply ends_bind_ofRefusal
    intro xs _
    split
    · exact hvariable _ _ _
    · exact trivial

end Action
end DensityGraph
