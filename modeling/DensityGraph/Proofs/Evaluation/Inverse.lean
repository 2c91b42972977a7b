import DensityGraph.Proofs.Constraint.Bounded
import DensityGraph.Proofs.Evaluation.Faithful
import DensityGraph.Proofs.Evaluation.Runs
import DensityGraph.Proofs.Graph.Inverse
import DensityGraph.Proofs.Tensor.Batch
import DensityGraph.Proofs.Tensor.Map
/-!
# Values of words of functions

A node to which a word of exponentials and logarithms leads has the value of the functions
on its path.  Over the real numbers this is the word as a function, wherever every logarithm
has a positive argument.
-/

namespace DensityGraph

section Reals

variable [CustomCode ℝ]

theorem Operation.apply_letter (density : NodeId → Argument ℝ → Except Failure (Tensor ℝ))
    (l : Letter) (t : Tensor ℝ) :
    (named l.operation).apply density [.tensor t] = .ok (t.map l.function) := by
  cases l <;> rfl

theorem Operation.exists_of_apply_letter
    {density : NodeId → Argument ℝ → Except Failure (Tensor ℝ)} {l : Letter} {x : Entry ℝ}
    {r : Tensor ℝ} (h : (named l.operation).apply density [Pass.argument x] = .ok r) :
    ∃ t, x = .tensor t ∧ r = t.map l.function := by
  cases x with
  | tensor t =>
      rw [Pass.argument, apply_letter, Except.ok.injEq] at h
      exact ⟨t, rfl, h.symm⟩
  | density id => cases l <;> cases h

omit [CustomCode ℝ] in
theorem Tensor.map_compose_history {word : Word} {t : Tensor ℝ}
    (h : forall a, a ∈ t.toList -> word.Defined a) :
    t.map (Word.compose word.history.reverse) = t.map word.compose :=
  map_congr fun a ha => (Word.compose_history (h a ha)).2

namespace Workspace

variable {v w : Workspace} {x z : NodeId} {n : Node} {l : Letter} {word : Word} {dim : Shape}
  {path : List (Letter × NodeId)} {fed : List (NodeId × Value)}
  {free : NodeId → Option (Except Refusal (Tensor ℝ))} {t : Tensor ℝ}

theorem evaluate_remembers {y : NodeId} (hn : w.node? z = some n) (h : n.Remembers l y dim)
    (hy : w.evaluate fed free y = some t) :
    w.evaluate fed free z = some (t.map l.function) := by
  have hreadable : forall a, a ∈ [y] -> w.isReadable (w.evaluate fed free) a = true := by
    intro a ha
    rw [List.mem_singleton.mp ha]
    exact isReadable_of_evaluate hy
  rw [evaluate_operation hn h.role hreadable, List.map_singleton, argumentOf_of_evaluate hy]
  unfold given
  rw [List.map_nil, List.append_nil, Batched.reconcile_singleton]
  exact congrArg Except.toOption (Operation.apply_letter _ l t)

theorem Path.evaluate (h : w.Path x dim path) (hx : w.evaluate fed free x = some t) :
    w.evaluate fed free (destination x path) =
      some (t.map (Word.compose (path.map Prod.fst).reverse)) := by
  induction h with
  | start _ _ _ =>
      rw [List.map_nil, List.reverse_nil]
      exact hx.trans (congrArg some (Constraint.map_id_tensor t).symm)
  | @step path l z n _ hn hremembers ih =>
      have hcompose : l.function ∘ Word.compose (path.map Prod.fst).reverse =
          Word.compose (((l, z) :: path).map Prod.fst).reverse := by
        funext a
        rw [List.map_cons, List.reverse_cons, Word.compose_concat]
        rfl
      rw [← hcompose, ← Tensor.map_map]
      exact evaluate_remembers hn hremembers ih

theorem Reaches.evaluate (h : w.Reaches x dim word path v)
    (hx : v.evaluate fed free x = some t) (hdefined : forall a, a ∈ t.toList -> word.Defined a) :
    v.evaluate fed free (destination x path) = some (t.map word.compose) := by
  rw [h.isPath.evaluate hx, h.letters, Tensor.map_compose_history hdefined]

end Workspace

/-!
# Entries of functions

In whatever order a pass takes the nodes, it computes a function from the entry that the
argument has then, and no entry is written again.
-/

/-- Only distributions have entries that are no tensors, and a function of a node has that of
the entry of the node. -/
structure Environment.Follows (w : Workspace) (e : Environment ℝ) : Prop where
  tensors : forall z n x, w.node? z = some n -> n.isDistribution = false ->
    e.get? z .value = some x -> ∃ t, x = .tensor t
  functions : forall z n x l y dim, w.node? z = some n -> n.Remembers l y dim ->
    e.get? z .value = some x ->
      ∃ t, e.get? y .value = some (.tensor t) ∧ x = .tensor (t.map l.function)

namespace Environment

variable {w : Workspace} {e : Environment ℝ} {z : NodeId} {kind : EntryKind} {entry : Entry ℝ}

omit [CustomCode ℝ] in
theorem follows_start (w : Workspace) (fed : List (NodeId × Value)) (mode : Value) :
    Follows w ⟨[], fed, [], mode⟩ := by
  constructor
  · intro _ _ _ _ _ hx
    cases hx
  · intro _ _ _ _ _ _ _ _ hx
    cases hx

omit [CustomCode ℝ] in
theorem Follows.add (h : e.Follows w) (hnew : (z, kind) ∉ e.keys)
    (htensor : kind = .value -> forall n, w.node? z = some n -> n.isDistribution = false ->
      ∃ t, entry = .tensor t)
    (hfunction : kind = .value -> forall n l y dim, w.node? z = some n -> n.Remembers l y dim ->
      ∃ t, e.get? y .value = some (.tensor t) ∧ entry = .tensor (t.map l.function)) :
    (e.add z kind entry).Follows w := by
  constructor
  · intro other n x hn hkind hx
    rcases get?_add_eq_some hnew hx with hold | ⟨⟨rfl, rfl⟩, rfl⟩
    · exact h.tensors other n x hn hkind hold
    · exact htensor rfl n hn hkind
  · intro other n x l y dim hn hremembers hx
    have hargument : ∃ t, e.get? y .value = some (.tensor t) ∧ x = .tensor (t.map l.function) := by
      rcases get?_add_eq_some hnew hx with hold | ⟨⟨rfl, rfl⟩, rfl⟩
      · exact h.functions other n x l y dim hn hremembers hold
      · exact hfunction rfl n l y dim hn hremembers
    rcases hargument with ⟨t, ht, hxt⟩
    exact ⟨t, get?_add_of_get? hnew ht, hxt⟩

end Environment

namespace Pass

open Environment

variable {w : Workspace} {z : NodeId} {n : Node}

omit [CustomCode ℝ] in
theorem follows_assign (hn : w.node? z = some n)
    (hrole : forall o arguments extras, n.role ≠ .operation o arguments extras)
    (kind : EntryKind) {entry : Entry ℝ}
    (htensor : n.isDistribution = false -> ∃ t, entry = .tensor t) :
    Maintains (Follows w) (assign w z kind entry) := by
  intro e he
  refine ends_assign_iff.mpr ⟨fun hnew => he.add hnew ?_ ?_, fun _ => he⟩
  · intro _ m hm hkind
    cases hn.symm.trans hm
    exact htensor hkind
  · intro _ m l y dim hm hremembers
    cases hn.symm.trans hm
    exact absurd hremembers.role (hrole _ _ _)

omit [CustomCode ℝ] in
theorem follows_materializeData (hn : w.node? z = some n) (hrole : n.role = .data) :
    Maintains (Follows w) (materializeData w z n) := by
  have hassign : forall t, Maintains (Follows w) (assign w z .value (.tensor t)) := fun t =>
    follows_assign hn (by rw [hrole]; nofun) .value fun _ => ⟨t, rfl⟩
  unfold materializeData
  apply reads_get.maintains.bind
  intro e
  apply (reads_ofRefusal _).maintains.bind
  intro constant
  cases constant with
  | true => exact (reads_ofRefusal _).maintains.bind hassign
  | false =>
      rw [if_neg Bool.false_ne_true]
      apply Maintains.bind
      · -- Registered data are no entries.
        exact fun e he => ends_modify.mpr ⟨he.tensors, he.functions⟩
      · exact fun _ => (maintains_placeholder w z _).bind hassign

omit [CustomCode ℝ] in
theorem follows_materializeLatent (hn : w.node? z = some n) {bounds : Interval}
    {tag : Constraint} {size : Nat} (hrole : n.role = .latent bounds tag size) (b : Interval)
    (c : Constraint) : Maintains (Follows w) (materializeLatent w z n.dim b c) := by
  have hassign : forall kind t, Maintains (Follows w) (assign w z kind (.tensor t)) :=
    fun kind t => follows_assign hn (by rw [hrole]; nofun) kind fun _ => ⟨t, rfl⟩
  unfold materializeLatent
  apply (reads_entry w z .free).maintains.bind
  intro x
  cases x with
  | density _ => exact (reads_throw _).maintains
  | tensor free =>
      apply (reads_ofExcept _).maintains.bind
      intro adjustment
      apply (hassign .adjustment adjustment).bind
      intro _
      exact (reads_ofExcept _).maintains.bind (hassign .value)

theorem follows_materializeOperation (hn : w.node? z = some n) {o : Operation}
    {arguments : List NodeId} {extras : List Value}
    (hrole : n.role = .operation o arguments extras) :
    Maintains (Follows w) (materializeOperation w z o arguments extras) := by
  intro e he
  unfold materializeOperation
  have hfailed : forall (_ : Failure) e', e' = e -> e'.Follows w := by
    rintro _ _ rfl
    exact he
  apply Ends.bind (((reads_arguments w .value arguments).ends e).mono (fun _ _ h => h) hfailed)
  rintro entries _ ⟨hentries, rfl⟩
  apply Ends.bind (((reads_reconcile _).ends _).mono (fun _ _ h => h) hfailed)
  rintro args e ⟨hargs, rfl⟩
  rw [ends_bind, ends_get, ends_bind, ends_ofExcept]
  refine ⟨fun r hr => ?_, fun _ _ => he⟩
  refine ends_assign_iff.mpr ⟨fun hnew => he.add hnew ?_ ?_, fun _ => he⟩
  · exact fun _ _ _ _ => ⟨r, rfl⟩
  · intro _ m l y dim hm hremembers
    cases hn.symm.trans hm
    cases hrole.symm.trans hremembers.role
    -- There is one argument, and it is handed on as it is.
    rcases Environment.exists_of_arguments_singleton hentries with ⟨x, hx, rfl⟩
    rw [Workspace.given, List.map_nil, List.append_nil, Batched.reconciled,
      Batched.reconcile_singleton] at hargs
    cases hargs
    rcases Operation.exists_of_apply_letter hr with ⟨t, rfl, rfl⟩
    exact ⟨t, hx, rfl⟩

theorem follows_materialize (z : NodeId) : Maintains (Follows w) (materialize w z) := by
  unfold materialize
  cases hn : w.node? z with
  | none => exact (reads_throw _).maintains
  | some n =>
      cases hrole : n.role with
      | data =>
          simp only [hrole]
          exact follows_materializeData hn hrole
      | operation o arguments extras =>
          simp only [hrole]
          exact follows_materializeOperation hn hrole
      | latent b c size =>
          simp only [hrole]
          exact follows_materializeLatent hn hrole b c
      | distribution d =>
          simp only [hrole]
          apply follows_assign hn (by rw [hrole]; nofun)
          intro hkind
          rw [Node.isDistribution, Node.distribution?, hrole] at hkind
          cases hkind

omit [CustomCode ℝ] in
theorem follows_assignFree (free : NodeId → Option (Except Refusal (Tensor ℝ))) (z : NodeId) :
    Maintains (Follows w) (assignFree w free z) := by
  have hassign : forall t, Maintains (Follows w) (assign w z .free (.tensor t)) :=
    fun _ _ he => ends_assign_iff.mpr ⟨fun hnew => he.add hnew nofun nofun, fun _ => he⟩
  unfold assignFree
  cases free z with
  | none => exact (reads_throw _).maintains
  | some t =>
      apply (reads_ofRefusal t).maintains.bind
      intro t
      simp only
      split
      · exact (reads_throw _).maintains.bind fun _ => hassign t
      · exact hassign t

theorem ends_follows (w : Workspace) (d : Dag) (fed : List (NodeId × Value)) (mode : Value)
    (free : NodeId → Option (Except Refusal (Tensor ℝ))) :
    Ends (materializeAll w d free) ⟨[], fed, [], mode⟩
      (fun _ e => e.Follows w ∧ forall z, z ∈ d.nodes -> (z, EntryKind.value) ∈ e.keys)
      fun _ _ => True := by
  have hfrees : Maintains (Follows w) ((d.latents w).forM (assignFree w free)) :=
    Maintains.forM (follows_assignFree free) _
  unfold materializeAll
  apply Ends.bind ((hfrees _ (follows_start w fed mode)).mono (fun _ _ h => h) fun _ _ _ => trivial)
  intro _ e he
  apply Ends.forM (P := fun (done : List NodeId) (e : Environment ℝ) =>
    e.Follows w ∧ forall z, z ∈ done -> (z, EntryKind.value) ∈ e.keys) ⟨he, nofun⟩
  intro done z rest e _ hdone
  have hwritten := ends_materialize_of_add (w := w)
    (I := fun e => forall z, z ∈ done -> (z, EntryKind.value) ∈ e.keys)
    (fun e _ _ _ hkeys z hz => by
      rw [keys_add]
      exact List.mem_append_left _ (hkeys z hz))
    (fun _ _ _ hkeys => hkeys) z hdone.2
  apply ((follows_materialize z e hdone.1).and hwritten).mono
  · rintro _ e' ⟨he', hold, hnew⟩
    refine ⟨he', ?_⟩
    intro other hother
    rcases List.mem_append.mp hother with hmem | hlast
    · exact hold other hmem
    · rw [List.mem_singleton.mp hlast]
      exact hnew
  · exact fun _ _ _ => trivial

end Pass

namespace Dag

variable {w : Workspace} {d : Dag} {fed : List (NodeId × Value)}
  {free : NodeId → Option (Except Refusal (Tensor ℝ))} {e : Environment ℝ}

theorem follows_of_environment (h : d.environment w fed free = .ok e) :
    e.Follows w ∧ forall z, z ∈ d.nodes -> ∃ x, e.get? z .value = some x := by
  rcases (Pass.ends_follows w d fed w.settings.dataAsConstants free).of_ok
    (run_of_environment h) with ⟨hfollows, hkeys⟩
  refine ⟨hfollows, ?_⟩
  intro z hz
  apply Option.ne_none_iff_exists'.mp
  exact fun hnone => Environment.get?_eq_none_iff.mp hnone (hkeys z hz)

end Dag

namespace Workspace

variable {v w : Workspace} {x : NodeId} {n : Node} {word : Word} {dim : Shape}
  {path : List (Letter × NodeId)} {e : Environment ℝ} {a : Entry ℝ}

omit [CustomCode ℝ] in
theorem Path.follows (h : w.Path x dim path) (hkind : w.has Node.isDistribution x = false)
    (he : e.Follows w) (ha : e.get? (destination x path) .value = some a) :
    ∃ t, e.get? x .value = some (.tensor t) ∧
      a = .tensor (t.map (Word.compose (path.map Prod.fst).reverse)) := by
  induction h generalizing a with
  | start hn _ _ =>
      rcases he.tensors _ _ a hn ((has_of_node? hn).symm.trans hkind) ha with ⟨t, rfl⟩
      exact ⟨t, ha, congrArg Entry.tensor (Constraint.map_id_tensor t).symm⟩
  | @step path l z n _ hn hremembers ih =>
      rcases he.functions z n a l _ dim hn hremembers ha with ⟨u, hu, rfl⟩
      rcases ih hu with ⟨t, ht, hut⟩
      cases hut
      refine ⟨t, ht, ?_⟩
      rw [Tensor.map_map, List.map_cons, List.reverse_cons]
      congr 2
      funext b
      exact (Word.compose_concat _ l b).symm

omit [CustomCode ℝ] in
theorem Reaches.follows (h : w.Reaches x dim word path v)
    (hkind : v.has Node.isDistribution x = false) (he : e.Follows v)
    (ha : e.get? (destination x path) .value = some a) :
    ∃ t, e.get? x .value = some (.tensor t) ∧
      ((forall b, b ∈ t.toList -> word.Defined b) -> a = .tensor (t.map word.compose)) := by
  rcases h.isPath.follows hkind he ha with ⟨t, ht, hat⟩
  refine ⟨t, ht, ?_⟩
  intro hdefined
  rw [hat, h.letters, Tensor.map_compose_history hdefined]

/-- Exponentials and logarithms that are applied one after another to a node of which no
function is known lead to the node of the reduced word.  A function that undoes the last one
that is left gives back the node that this one was applied to, and nothing changes; any other
one adds a single node, which remembers its argument.  Over the real numbers, and where every
logarithm has a positive argument, the node has the value of the whole word, also in every
pass over a graph with the node in it. -/
theorem reduced_word_of_apply (hn : w.node? x = some n) (hnone : n.representations = [])
    (word : Word) :
    ∃ y v path,
      (word.apply x).run w = (.ok y, v) ∧ w.KeepsNodes v ∧
      v.Path x n.dim path ∧ y = destination x path ∧
      path.reverse.map (fun p => p.1.signed) = word.reduced ∧
      (word.reduced = [] -> y = x) ∧
      (forall l : Letter,
        (word.reduced.getLast? = some l.inverse.signed ->
          ∃ z earlier u, (∃ m, v.node? y = some m ∧ m.Remembers l.inverse z n.dim) ∧
            earlier <+: word ∧ Word.reduced earlier = word.reduced.dropLast ∧
            (Word.apply earlier x).run w = (.ok z, u) ∧ (l.apply y).run v = (.ok z, v)) ∧
        (word.reduced.getLast? ≠ some l.inverse.signed ->
          ∃ v', (l.apply y).run v = (.ok v.nodes.length, v') ∧ v.Appends v' l y n.dim)) ∧
      forall fed (free : NodeId → Option (Except Refusal (Tensor ℝ))),
        (forall t, v.evaluate fed free x = some t ->
          (forall a, a ∈ t.toList -> word.Defined a) ->
            v.evaluate fed free y = some (t.map word.compose)) ∧
        (n.isDistribution = false -> forall (d : Dag) e, y ∈ d.nodes ->
          d.environment v fed free = .ok e ->
            ∃ t, e.get? x .value = some (.tensor t) ∧
              ((forall a, a ∈ t.toList -> word.Defined a) ->
                e.get? y .value = some (.tensor (t.map word.compose)))) := by
  -- All parts are read off the path that the word leaves behind.
  rcases exists_reaches hn hnone word with ⟨path, v, h⟩
  refine ⟨destination x path, v, path, h.run, h.keeps, h.isPath, rfl, ?_, ?_, ?_, ?_⟩
  · rw [← Word.map_signed_history, ← h.letters, ← List.map_reverse, List.map_map]
    rfl
  · intro hreduced
    rw [← Word.map_signed_history, List.map_eq_nil_iff, List.reverse_eq_nil_iff, ← h.letters,
      List.map_eq_nil_iff] at hreduced
    rw [hreduced]
    rfl
  · intro l
    rw [ne_eq, ← Word.head?_history_iff]
    constructor
    · intro hlast
      rcases h.visited path.tail (List.tail_suffix path) with ⟨earlier, u, hprefix, hleft, hrun⟩
      refine ⟨destination x path.tail, earlier, u, ?_, hprefix, ?_, hrun, (h.undo hlast).1⟩
      · exact h.isPath.exists_remembers (h.head?.trans hlast)
      · rw [← Word.map_signed_tail_history, ← Word.map_signed_history, hleft, ← h.letters,
          List.map_tail]
    · intro hlast
      rcases h.extend hlast with ⟨v', hrun, happends, _⟩
      exact ⟨v', hrun, happends⟩
  · intro fed free
    constructor
    · exact fun t ht hdefined => h.evaluate ht hdefined
    · intro hkind d e hlast he
      rcases h.keeps x n hn with ⟨n', hn', heq⟩
      have hx : v.has Node.isDistribution x = false := by
        rw [has_of_node? hn', heq]
        exact hkind
      rcases Dag.follows_of_environment he with ⟨hfollows, hwritten⟩
      rcases hwritten _ hlast with ⟨a, ha⟩
      rcases h.follows hx hfollows ha with ⟨t, ht, hdefined⟩
      exact ⟨t, ht, fun h => ha.trans (congrArg some (hdefined h))⟩

end Workspace
end Reals

namespace Workspace

attribute [local instance] CustomCode.refusing

/-- Of the exponential of a variable, its logarithm and the exponential again, one exponential is
left, and it has the value of all three. -/
theorem reduced_word_of_apply_sharing :
    ∃ n y v, sharing.node? 1 = some n ∧ n.representations = [] ∧
      (Word.apply [.exp, .log, .exp] 1).run sharing = (.ok y, v) ∧
      Word.reduced [.exp, .log, .exp] = [((), true)] ∧
      forall fed (free : NodeId → Option (Except Refusal (Tensor ℝ))) (t : Tensor ℝ),
        v.evaluate fed free 1 = some t ->
          v.evaluate fed free y = some (t.map fun a => Real.exp (Real.log (Real.exp a))) := by
  rcases reduced_word_of_apply (w := sharing) (x := 1) rfl rfl [.exp, .log, .exp] with
    ⟨y, v, path, hrun, _, _, _, _, _, _, hvalues⟩
  refine ⟨_, y, v, rfl, rfl, hrun, by decide, ?_⟩
  intro fed free t ht
  exact (hvalues fed free).1 t ht fun a _ => ⟨nofun, fun _ => Real.exp_pos a, nofun, trivial⟩

end Workspace
end DensityGraph
