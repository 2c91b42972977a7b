import DensityGraph.Proofs.Graph.Build
import DensityGraph.Proofs.Graph.Change
/-!
# Functions and operators by edits

A function or an operator adds data for its operands and at most one computed node,
whose shape is declared for the shapes of its arguments.
-/

namespace DensityGraph

/-- The edits of a call that applies an operation to some values and starts in the
workspace `u`. -/
def Edit.Applies (u : Workspace) (operands : List Value) (w : Workspace) : Edit → Prop
  | compute isDeclared id _ arguments => isDeclared = true ∧ u.nodes.length ≤ id ∧
      forall a, a ∈ arguments -> .node a ∈ operands ∨ w.has Node.isData a = true
  | e => e.isGrowth = true

namespace Workspace

variable {u v w : Workspace} {operands : List Value}

abbrev AppliesTo (w : Workspace) (operands : List Value) (v : Workspace) : Prop :=
  Edits (Edit.Applies w operands) w v

theorem GrowsTo.appliesTo (h : w.GrowsTo v) : w.AppliesTo operands v := by
  apply h.mono
  intro u e he
  cases e with
  | compute _ _ _ _ => cases he
  | _ => exact he

theorem StandsFor.operand {x : Value} {id : NodeId} (h : w.StandsFor x id)
    (hx : x ∈ operands) : .node id ∈ operands ∨ w.has Node.isData id = true := by
  rcases h with rfl | ⟨_, hdata⟩
  · exact Or.inl hx
  · exact Or.inr hdata

theorem exists_operand {args : List Value} {ids : List NodeId} {a : NodeId}
    (h : List.Forall₂ w.StandsFor args ids) (ha : a ∈ ids) :
    ∃ x, x ∈ args ∧ w.StandsFor x a := by
  induction h with
  | nil => cases ha
  | cons hx _ ih =>
      rcases List.mem_cons.mp ha with rfl | hrest
      · exact ⟨_, List.mem_cons_self, hx⟩
      · rcases ih hrest with ⟨y, hy, hstands⟩
        exact ⟨y, List.mem_cons_of_mem _ hy, hstands⟩

theorem dims?_node {id : NodeId} {n : Node} (hn : w.node? id = some n) :
    w.dims? [id] = some [n.dim] := by
  simp [dims?, hn]

theorem dims?_pair {x y : NodeId} {n m : Node} (hn : w.node? x = some n)
    (hm : w.node? y = some m) : w.dims? [x, y] = some [n.dim, m.dim] := by
  simp [dims?, hn, hm]

theorem eq_of_standsFor_nodes {ids arguments : List NodeId}
    (h : List.Forall₂ w.StandsFor (ids.map Value.node) arguments) : arguments = ids := by
  induction ids generalizing arguments with
  | nil =>
      cases h
      rfl
  | cons id ids ih =>
      rw [List.map_cons] at h
      rcases h with _ | ⟨hfirst, hrest⟩
      rcases hfirst with hfirst | ⟨hfirst, _⟩
      · cases hfirst
        rw [ih hrest]
      · cases hfirst

end Workspace

theorem NamedOperation.ofName?_name (o : NamedOperation) :
    NamedOperation.ofName? o.name = some o := by
  cases o <;> decide

theorem NamedOperation.name_of_ofName? {s : String} {o : NamedOperation}
    (h : NamedOperation.ofName? s = some o) : o.name = s := by
  have heq := List.find?_some h
  exact eq_of_beq heq

theorem NamedOperation.isFunction_of_isPlain {o : NamedOperation} (h : o.isPlain = true) :
    o.isFunction = true := by
  cases o <;> first | rfl | cases h

theorem Operation.resolve_name (label : NodeId → String) (o : NamedOperation) :
    Operation.resolve label (.text o.name) = .ok (.named o) := by
  unfold Operation.resolve
  simp only
  rw [NamedOperation.ofName?_name]

namespace Action

open Workspace

variable {w : Workspace} {operands : List Value}

/-- Without a given shape, an operation gets the shape that its arguments broadcast
to. -/
theorem ends_newOperation_declared {u : Workspace} (o : NamedOperation) (args : List Value)
    (dim : Value) (reps : List (String × NodeId)) (hgrown : u.GrowsTo w)
    (hdeclares : forall v arguments d, w.GrowsTo v ->
      List.Forall₂ v.StandsFor args arguments ->
      (dim = .none -> ∃ ds, v.dims? arguments = some ds ∧ Dim.broadcast o.name ds = .ok d) ->
      (forall xs, dim = .tuple xs -> dim.toDim = .ok d) ->
      ∃ ds, v.dims? arguments = some ds ∧ o.Declares ds d)
    (hoperands : forall a, .node a ∈ args ->
      .node a ∈ operands ∨ w.has Node.isData a = true) :
    Ends (newOperation (.text o.name) args dim (.tuple []) .none reps) w
      (fun _ w' => u.AppliesTo operands w') Fails := by
  apply (ends_newOperation _ _ _ _ _ _).imp
  intro id w' h
  cases h with
  | intro v o' id arguments d nv es hgrows hresolve harguments hnone htuple hes hvalue hle
      hid hnew =>
      rw [Operation.resolve_name] at hresolve
      cases hresolve
      cases hes
      have hds := hdeclares v arguments d hgrows harguments hnone htuple
      have hadmits : v.Admits (.compute true id
          { Node.lone d nv (.operation (.named o) arguments []) with
            representations := reps } arguments) := by
        refine ⟨hid, hnew, ⟨d, nv, .named o, [], reps, rfl⟩, ?_, hvalue⟩
        intro _
        exact ⟨rfl, hds⟩
      apply (GrowsTo.appliesTo (hgrown.trans hgrows)).trans
      apply Edits.single hadmits
      refine ⟨rfl, Nat.le_trans (Edits.length_le hgrown) hle, ?_⟩
      intro a ha
      rcases exists_operand harguments ha with ⟨x, hx, rfl | ⟨_, hdata⟩⟩
      · rcases hoperands a hx with hoperand | hdata
        · exact Or.inl hoperand
        · exact Or.inr (hgrows.has hdata)
      · exact Or.inr hdata

theorem ends_function₁ {u : Workspace} {o : NamedOperation} (ho : o.isFunction = true)
    (x : Value) (reps : List (String × NodeId)) (hgrown : u.GrowsTo w)
    (hx : forall a, x = .node a -> .node a ∈ operands ∨ w.has Node.isData a = true) :
    Ends (newOperation (.text o.name) [x] .none (.tuple []) .none reps) w
      (fun _ w' => u.AppliesTo operands w') Fails := by
  apply ends_newOperation_declared o [x] .none reps hgrown
  · intro v arguments d _ harguments hnone _
    rcases hnone rfl with ⟨ds, hds, hbroadcast⟩
    rcases harguments with _ | ⟨_, harguments⟩
    rcases harguments with _ | _
    rcases exists_of_dims? hds with ⟨n, es, _, hes, rfl⟩
    cases hes
    exact ⟨[n.dim], hds, NamedOperation.Declares.function o n.dim d ho hbroadcast⟩
  · intro a ha
    rw [List.mem_singleton] at ha
    exact hx a ha.symm

theorem ends_operator₂ {o : NamedOperation} (ho : o.isOperator = true) (a b : Value) :
    Ends (newOperation (.text o.name) [a, b] .none (.tuple []) .none []) w
      (fun _ w' => w.AppliesTo [a, b] w') Fails := by
  apply ends_newOperation_declared o [a, b] .none [] (Edits.refl w)
  · intro v arguments d _ harguments hnone _
    rcases hnone rfl with ⟨ds, hds, hbroadcast⟩
    rcases harguments with _ | ⟨_, harguments⟩
    rcases harguments with _ | ⟨_, harguments⟩
    rcases harguments with _ | _
    rcases exists_of_dims? hds with ⟨n, es, _, hes, rfl⟩
    rcases exists_of_dims? hes with ⟨m, fs, _, hfs, rfl⟩
    cases hfs
    exact ⟨[n.dim, m.dim], hds,
      NamedOperation.Declares.operator o n.dim m.dim d ho hbroadcast⟩
  · intro x hx
    exact Or.inl hx

theorem ends_operationOf {u : Workspace} {o : NamedOperation} {ids : List NodeId}
    {s : Shape} {ds : List Shape} (hgrown : u.GrowsTo w) (hds : w.dims? ids = some ds)
    (hids : forall a, a ∈ ids -> .node a ∈ operands ∨ w.has Node.isData a = true)
    (hdeclares : forall d, (Value.ofShape s).toDim = .ok d -> o.Declares ds d) :
    Ends (operationOf o ids (.ofShape s)) w
      (fun _ w' => u.AppliesTo operands w') Fails := by
  unfold operationOf
  apply ends_newOperation_declared o _ _ [] hgrown
  · intro v arguments d hgrows harguments _ htuple
    rw [eq_of_standsFor_nodes harguments]
    exact ⟨ds, Edits.dims? hgrows hds, hdeclares d (htuple _ rfl)⟩
  · intro a ha
    rcases List.mem_map.mp ha with ⟨b, hb, heq⟩
    cases heq
    exact hids a hb

/-!
# Functions of one node
-/

theorem ends_invertible {o : NamedOperation} (ho : o.isFunction = true)
    (inverse : NamedOperation) (x : Value) :
    Ends (invertible o inverse x) w (fun _ w' => w.AppliesTo [x] w') Fails := by
  unfold invertible
  apply Ends.bind (ends_toNode x)
  intro id v hid
  rcases hid with ⟨hgrows, hstands⟩
  apply ends_bind_node
  intro n _
  split
  · exact ends_pure.mpr hgrows.appliesTo
  · apply ends_function₁ ho (.node id) _ hgrows
    intro a ha
    cases ha
    exact hstands.operand (List.mem_singleton.mpr rfl)

theorem ends_matmul (x y : Value) :
    Ends (matmul x y) w (fun _ w' => w.AppliesTo [x, y] w') Fails := by
  unfold matmul
  apply Ends.bind (ends_toNode x)
  intro left v hleft
  rcases hleft with ⟨hgrows, hstands⟩
  apply Ends.bind (ends_toNode y)
  intro right v' hright
  rcases hright with ⟨hgrows', hstands'⟩
  apply ends_bind_node
  intro n hn
  apply ends_bind_node
  intro m hm
  simp only
  split
  · rename_i r k l c hnd hmd
    refine ends_when trivial ?_
    intro hkl
    have hgrown : w.GrowsTo v' := Edits.trans hgrows hgrows'
    have hds := dims?_pair hn hm
    rw [hnd, hmd, ← hkl] at hds
    -- The name of the operation is never looked at.
    generalize hmatmul : NamedOperation.matmul = o
    apply ends_operationOf hgrown hds
    · intro a ha
      rcases List.mem_cons.mp ha with rfl | ha
      · rcases hstands.operand List.mem_cons_self with hx | hdata
        · exact Or.inl hx
        · exact Or.inr (hgrows'.has hdata)
      · rw [List.mem_singleton.mp ha]
        exact hstands'.operand (List.mem_cons_of_mem _ List.mem_cons_self)
    · intro d hd
      rw [← hmatmul]
      exact NamedOperation.Declares.matmul r k c d hd
  · exact trivial

theorem ends_transpose (x : Value) :
    Ends (transpose x) w (fun _ w' => w.AppliesTo [x] w') Fails := by
  unfold transpose
  apply Ends.bind (ends_toNode x)
  intro id v hid
  rcases hid with ⟨hgrows, hstands⟩
  apply ends_bind_node
  intro n hn
  simp only
  refine ends_unless trivial ?_
  intro hlength
  apply ends_operationOf hgrows (dims?_node hn)
  · intro a ha
    rw [List.mem_singleton.mp ha]
    exact hstands.operand (List.mem_singleton.mpr rfl)
  · intro d hd
    exact NamedOperation.Declares.transpose n.dim d (Nat.le_of_not_lt hlength) hd

theorem ends_reduce {o : NamedOperation} (ho : o = .sum ∨ o = .mean) (x : Value) :
    Ends (reduce o x) w (fun _ w' => w.AppliesTo [x] w') Fails := by
  unfold reduce
  apply Ends.bind (ends_toNode x)
  intro id v hid
  rcases hid with ⟨hgrows, hstands⟩
  apply ends_bind_node
  intro n hn
  apply ends_operationOf hgrows (dims?_node hn)
  · intro a ha
    rw [List.mem_singleton.mp ha]
    exact hstands.operand (List.mem_singleton.mpr rfl)
  · intro d hd
    exact NamedOperation.Declares.reduction o n.dim d ho hd

/-!
# Calls by name
-/

theorem ends_function (name : String) (args : List Value) :
    Ends (function name args) w (fun _ w' => w.AppliesTo args w') Fails := by
  unfold function
  split
  · exact ends_invertible rfl _ _
  · exact ends_invertible rfl _ _
  · exact ends_matmul _ _
  · exact ends_transpose _
  · exact ends_reduce (Or.inl rfl) _
  · exact ends_reduce (Or.inr rfl) _
  · apply ends_function₁ (o := .sigmoid) rfl _ _ (Edits.refl w)
    intro a ha
    rw [ha]
    exact Or.inl (List.mem_singleton.mpr rfl)
  · split
    · rename_i o x hfilter _ _ _ _ _ _ _
      rcases Option.filter_eq_some_iff.mp hfilter with ⟨hname, hplain⟩
      rw [← NamedOperation.name_of_ofName? hname]
      apply ends_function₁ (NamedOperation.isFunction_of_isPlain hplain) _ _ (Edits.refl w)
      intro a ha
      rw [ha]
      exact Or.inl (List.mem_singleton.mpr rfl)
    · exact trivial
    · rw [ends_ite]
      exact ⟨fun _ => trivial, fun _ => trivial⟩

theorem ends_binary (o : BinaryOperator) (a b : Value) :
    Ends (binary o a b) w (fun _ w' => w.AppliesTo [a, b] w') Fails := by
  unfold binary
  simp only
  refine ends_when trivial ?_
  intro _
  cases o with
  | matmul => exact ends_matmul a b
  | add => exact ends_operator₂ (o := .add) rfl a b
  | subtract => exact ends_operator₂ (o := .subtract) rfl a b
  | multiply => exact ends_operator₂ (o := .multiply) rfl a b
  | divide => exact ends_operator₂ (o := .divide) rfl a b
  | power => exact ends_operator₂ (o := .power) rfl a b

theorem ends_negate (a : Value) :
    Ends (negate a) w (fun _ w' => w.AppliesTo [a] w') Fails := by
  unfold negate
  simp only
  refine ends_when trivial ?_
  intro _
  apply ends_function₁ (o := .negative) rfl _ _ (Edits.refl w)
  intro x hx
  rw [hx]
  exact Or.inl (List.mem_singleton.mpr rfl)

end Action
end DensityGraph
