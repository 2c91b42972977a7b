import DensityGraph.Evaluation.FreeState
import DensityGraph.Proofs.Constraint.Acceptance
import DensityGraph.Proofs.Evaluation.Fed
/-!
# Values that variables take

A variable that is built from bounds takes the values that the constraint of its bounds
accepts.  A free state is made of initial values only if their variables take all of them.
-/

namespace DensityGraph

open Extended
open Number (literal)

namespace Action

variable {s s' : Workspace} {id : NodeId} {n : Node} {b : Interval} {c : Constraint}
  {size : Nat} {v : Value} {t : Tensor Float}

theorem exists_shape {r : Tensor Float} (h : v.toFloats = .ok r) : ∃ shape, v.shape = .ok shape := by
  unfold Value.toFloats at h
  unfold Value.shape
  cases hnesting : v.nesting with
  | error f =>
      rw [hnesting] at h
      cases h
  | ok nested => exact ⟨nested.1, rfl⟩

/-- Whether a variable takes a value. -/
def Takes (s : Workspace) (id : NodeId) (v : Value) : Prop :=
  ∃ free, (toFree id v).run s = (.ok free, s)

theorem ends_toFree (hnode : s.node? id = some n) (hrole : n.role = .latent b c size)
    (h : b.Spans c) (ht : v.toFloats = .ok t) :
    Ends (toFree id v) s (fun _ s' => s' = s ∧ b.Accepts n.dim t)
      (fun f s' => s' = s ∧ (∃ i, f = .invalid i) ∧ ¬b.Accepts n.dim t) := by
  unfold toFree
  rw [ends_bind, ends_node, hnode]
  refine ⟨?_, nofun⟩
  rintro _ ⟨rfl⟩
  simp only [hrole, ht]
  rw [pure_bind]
  cases hy : t.broadcastTo? n.dim with
  | none =>
      have hnot : ¬b.Accepts n.dim t := by
        rintro ⟨y, hsome, _⟩
        rw [hy] at hsome
        cases hsome
      rcases exists_shape ht with ⟨shape, hshape⟩
      simp only [hshape]
      exact ⟨rfl, ⟨_, rfl⟩, hnot⟩
  | some y =>
      have hiff : b.Accepts n.dim t ↔ (y.map literal).toList.all
          (c.accepts (literal b.lower) (literal b.upper)) = true := by
        rw [h.all_accepts_iff]
        unfold Interval.Accepts
        rw [hy]
        simp
      rw [hiff]
      simp only
      cases hall : (y.map literal).toList.all
          (c.accepts (literal b.lower) (literal b.upper)) with
      | true =>
          rw [Constraint.inverse_of_accepts h.isMatrix hall]
          exact ⟨rfl, rfl⟩
      | false =>
          rcases Constraint.exists_misfit h.isMatrix hall with ⟨misfit, hmisfit⟩
          rw [hmisfit]
          exact ⟨rfl, ⟨_, rfl⟩, Bool.false_ne_true⟩

theorem takes_iff (hnode : s.node? id = some n) (hrole : n.role = .latent b c size)
    (h : b.Spans c) (ht : v.toFloats = .ok t) : Takes s id v ↔ b.Accepts n.dim t := by
  have hends := ends_toFree hnode hrole h ht
  constructor
  · rintro ⟨free, hrun⟩
    exact (hends.of_ok hrun).2
  · intro haccepts
    rcases hends.exists_ok fun _ _ hf => hf.2.2 haccepts with ⟨free, s', hrun, hs', _⟩
    rw [hs'] at hrun
    exact ⟨free, hrun⟩

theorem exists_invalid (hnode : s.node? id = some n) (hrole : n.role = .latent b c size)
    (h : b.Spans c) (ht : v.toFloats = .ok t) (hnot : ¬b.Accepts n.dim t) :
    ∃ i, (toFree id v).run s = (.error (.invalid i), s) := by
  rcases (ends_toFree hnode hrole h ht).exists_error fun _ _ hfree => hnot hfree.2 with
    ⟨f, s', hrun, hs', ⟨i, hi⟩, _⟩
  rw [hs', hi] at hrun
  exact ⟨i, hrun⟩

theorem leaves_toFree (id : NodeId) (v : Value) : (toFree id v).Leaves s := by
  unfold toFree
  apply Leaves.bind
  · unfold node
    apply leaves_get.bind
    intro w
    split <;> rfl
  · intro n
    split
    · dsimp only
      split
      · rw [pure_bind]
        split
        · exact (leaves_ofRefusal _).bind fun _ => rfl
        · split <;> rfl
      · exact (leaves_ofRefusal _).bind fun _ => rfl
      · rfl
    · rfl

theorem exists_of_toFree {id : NodeId} {v : Value} {free : List Number}
    (h : (toFree id v).run s = (.ok free, s')) :
    s' = s ∧ ∃ n b c size t y, s.node? id = some n ∧ n.role = .latent b c size ∧
      v.toFloats = .ok t ∧ t.broadcastTo? n.dim = some y ∧
      c.inverse (.literal b.lower) (.literal b.upper) (y.map Number.literal) = .ok free := by
  have hends : Ends (toFree id v) s (fun free _ => ∃ n b c size t y, s.node? id = some n ∧
      n.role = .latent b c size ∧ v.toFloats = .ok t ∧ t.broadcastTo? n.dim = some y ∧
      c.inverse (.literal b.lower) (.literal b.upper) (y.map Number.literal) = .ok free)
      Fails := by
    unfold toFree
    apply ends_bind_node
    intro n hn
    cases hrole : n.role with
    | latent b c size =>
        cases hfloats : v.toFloats with
        | error r =>
            simp only
            split
            · rename_i heq
              cases heq
            · rw [pure_bind]
              exact ends_bind_ofRefusal fun shape _ => ends_invalid.mpr trivial
            · exact ends_bind.mpr (ends_refuse.mpr trivial)
        | ok t =>
            simp only
            rw [pure_bind]
            cases hy : t.broadcastTo? n.dim with
            | none => exact ends_bind_ofRefusal fun shape _ => ends_invalid.mpr trivial
            | some y =>
                simp only
                split
                · rename_i hinverse
                  exact ⟨n, b, c, size, t, y, hn, hrole, rfl, hy, hinverse⟩
                · exact ends_invalid.mpr trivial
    | _ => exact ends_refuse.mpr trivial
  have hleaves := leaves_toFree (s := s) id v
  unfold Leaves at hleaves
  rw [h] at hleaves
  exact ⟨hleaves, hends.of_ok h⟩

/-!
# Initial values
-/

variable {w : Workspace}

structure Finds (w : Workspace) (p : NodeId × Value) (r : NodeId × List Number × NodeValue) :
    Prop where
  id : r.1 = p.1
  free : (toFree p.1 p.2).run w = (.ok r.2.1, w)
  value : ∃ n t y, w.node? p.1 = some n ∧ p.2.toFloats = .ok t ∧
    t.broadcastTo? n.dim = some y ∧ r.2.2 = .ofFloats y

def TakesAll (w : Workspace) (g : Dag) (inits : List (NodeId × Value)) : Prop :=
  forall p, p ∈ inits -> p.1 ∈ g.latents w ∧ Takes w p.1 p.2

theorem ends_forIn_yield {β : Type} {P : β → Prop} {E : Failure → Workspace → Prop}
    {f : β → PUnit → Action (ForInStep PUnit)} {xs : List β}
    (h : forall x, x ∈ xs -> Ends (f x ⟨⟩) w (fun step w' => w' = w ∧ step = .yield ⟨⟩ ∧ P x) E) :
    Ends (forIn xs ⟨⟩ f) w (fun _ w' => w' = w ∧ forall x, x ∈ xs -> P x) E := by
  induction xs with
  | nil => exact ⟨rfl, nofun⟩
  | cons x xs ih =>
      rw [List.forIn_cons]
      apply (h x List.mem_cons_self).bind
      intro step w' hstep
      rcases hstep with ⟨rfl, rfl, hx⟩
      apply (ih fun y hy => h y (List.mem_cons_of_mem x hy)).imp
      intro _ w'' hrest
      exact ⟨hrest.1, List.forall_mem_cons.mpr ⟨hx, hrest.2⟩⟩

theorem ends_find (id : NodeId) (v : Value) :
    Ends (do
      let free ← toFree id v
      let t ← ofRefusal v.toFloats
      return (id, free, NodeValue.ofFloats (t.broadcast (← node id).dim)) : Action _) w
      (fun r w' => w' = w ∧ Finds w (id, v) r) (fun _ w' => w' = w ∧ ¬Takes w id v) := by
  cases hrun : (toFree id v).run w with
  | mk result last =>
      have hleaves := leaves_toFree (s := w) id v
      unfold Leaves at hleaves
      rw [hrun] at hleaves
      obtain rfl : last = w := hleaves
      cases result with
      | error f =>
          have hnot : ¬Takes last id v := by
            intro htakes
            rcases htakes with ⟨free, hfree⟩
            rw [hrun] at hfree
            cases hfree
          apply ends_bind.mpr
          apply ends_run.mono
          · intro free w' hok
            rw [hrun] at hok
            cases hok
          · intro f w' herror
            rw [hrun] at herror
            cases herror
            exact ⟨rfl, hnot⟩
      | ok free =>
          rcases exists_of_toFree hrun with ⟨_, n, b, c, size, t, y, hn, _, ht, hy, _⟩
          rw [ends_bind, ends_of_run hrun, ends_bind, ht, ends_ofRefusal]
          constructor
          · intro t' ht'
            cases ht'
            rw [ends_bind, ends_node, hn]
            constructor
            · intro n' hn'
              cases hn'
              rw [← Tensor.eq_broadcast hy]
              exact ⟨rfl, rfl, hrun, n, t, y, hn, ht, hy, rfl⟩
            · nofun
          · nofun

theorem ends_initialValues (g : Dag) (inits : List (NodeId × Value)) :
    Ends (initialValues g inits) w
      (fun initial w' => w' = w ∧ TakesAll w g inits ∧ List.Forall₂ (Finds w) inits initial)
      (fun _ w' => w' = w ∧ ¬TakesAll w g inits) := by
  unfold initialValues
  rw [ends_bind, ends_get]
  apply Ends.bind (Q := fun _ w' => w' = w ∧ forall p, p ∈ inits -> p.1 ∈ g.latents w)
  · apply ends_forIn_yield
    intro p hp
    dsimp only
    split
    · rename_i hlatent
      exact ⟨rfl, rfl, by simpa using hlatent⟩
    · rename_i hlatent
      rw [ends_bind]
      refine ⟨rfl, ?_⟩
      intro hall
      exact hlatent (by simpa using (hall p hp).1)
  · intro _ w' hlatents
    rcases hlatents with ⟨rfl, hlatents⟩
    apply Ends.imp (Q := fun initial w'' => w'' = w' ∧ List.Forall₂ (Finds w') inits initial)
    · apply Ends.mapM (P := fun done rs w'' => w'' = w' ∧ List.Forall₂ (Finds w') done rs)
      · exact ⟨rfl, .nil⟩
      · intro done p rest rs w'' hinits hdone
        rw [hdone.1]
        apply (ends_find p.1 p.2).mono
        · intro r v' hr
          exact ⟨hr.1, List.rel_append hdone.2 (.cons hr.2 .nil)⟩
        · intro f v' hf
          refine ⟨hf.1, ?_⟩
          intro hall
          have hp : p ∈ inits := by
            rw [hinits]
            exact List.mem_append_right _ List.mem_cons_self
          exact hf.2 (hall p hp).2
    · intro initial w'' hinitial
      rcases hinitial with ⟨rfl, hforall⟩
      refine ⟨rfl, ?_, hforall⟩
      intro p hp
      rcases exists_right_of_forall₂ hforall hp with ⟨r, _, hr⟩
      exact ⟨hlatents p hp, r.2.1, hr.free⟩

theorem ends_chainCount (count : Value) :
    Ends (chainCount count) w
      (fun c w' => w' = w ∧ c = w.settings.chains count ∧
        Settings.lessThanOne (w.settings.chains count) = .ok false)
      (fun _ w' => w' = w ∧ Settings.lessThanOne (w.settings.chains count) ≠ .ok false) := by
  unfold chainCount
  rw [ends_bind, ends_get, ends_bind, ends_ofRefusal]
  constructor
  · intro isLess hless
    rw [hless]
    cases isLess with
    | true => exact ⟨rfl, nofun⟩
    | false => exact ⟨rfl, rfl, rfl⟩
  · intro r hr
    rw [hr]
    exact ⟨rfl, nofun⟩

theorem ends_initialFreeState (g : Dag) (count seed : Value) (inits : List (NodeId × Value)) :
    Ends (initialFreeState g count inits seed) s
      (fun _ _ => forall p, p ∈ inits -> Takes s p.1 p.2) Fails := by
  unfold initialFreeState
  apply Ends.bind (Q := fun _ s' => s' = s)
  · exact (ends_chainCount count).mono (fun _ _ h => h.1) fun _ _ _ => trivial
  · rintro count w rfl
    have hinitial := (ends_initialValues (w := w) g inits).mono (fun _ _ h => h)
      (F := Fails) fun _ _ _ => trivial
    apply hinitial.bind
    rintro initial w' ⟨_, htakes, _⟩
    exact Ends.of_forall (fun _ _ p hp => (htakes p hp).2) fun _ _ => trivial

/-!
# Variables that are built from bounds
-/

theorem not_takes_of_error {r : Refusal} (hr : v.toFloats = .error r) : ¬Takes s id v := by
  rintro ⟨free, hrun⟩
  rcases exists_of_toFree hrun with ⟨_, m, b', c', size', t', y, _, _, ht, _⟩
  rw [hr] at ht
  cases ht

/-- A variable that can be built from bounds takes exactly the accepted values, and refuses the
others as invalid.  The free vector is finite in exact arithmetic if all entries are numbers. -/
theorem toFree_newVariable_iff {w w' : Workspace} {lower upper dim : Value}
    (h : (newVariable lower upper dim .none).run w = (.ok id, w')) :
    ∃ b d nv size, (bounds lower upper).run w = (.ok b, w) ∧ dim.toDim = .ok d ∧
      w'.node? id = some (Node.lone d nv (.latent b (.ofBounds b) size)) ∧
      forall (s : Workspace) (n : Node), s.node? id = some n -> n.dim = d ->
        n.role = .latent b (.ofBounds b) size -> forall v : Value,
          (forall t, v.toFloats = .ok t ->
            (Takes s id v ↔ b.Accepts d t) ∧
            (¬b.Accepts d t -> ∃ i, (toFree id v).run s = (.error (.invalid i), s)) ∧
            (b.Accepts d t -> ∃ y free, t.broadcastTo? d = some y ∧
              (Constraint.ofBounds b).inverse (ofFloat b.lower) (ofFloat b.upper)
                (y.map ofFloat) = .ok free ∧
              ((forall z, z ∈ free -> Scalar.isFinite z = true) ↔
                forall x, x ∈ y.toList -> x.isNaN = false))) ∧
          (forall r, v.toFloats = .error r -> ¬Takes s id v) ∧
          forall g count inits seed state s',
            (initialFreeState g count inits seed).run s = (.ok state, s') ->
              (id, v) ∈ inits -> ∃ t, v.toFloats = .ok t ∧ b.Accepts d t := by
  rcases exists_of_newVariable h with ⟨b, d, size, hbounds, hd, hbuilt, hspans, _⟩
  refine ⟨b, d, NodeValue.blank d, size, hbounds, hd, hbuilt, ?_⟩
  intro s n hnode hdim hrole v
  rw [← hdim]
  refine ⟨?_, fun r hr => not_takes_of_error hr, ?_⟩
  · intro t ht
    refine ⟨takes_iff hnode hrole hspans ht, ?_, ?_⟩
    · exact exists_invalid hnode hrole hspans ht
    · rintro ⟨y, hy, haccepts⟩
      rcases hspans.exists_inverse haccepts with ⟨free, hfree, hfinite⟩
      exact ⟨y, free, hy, hfree, hfinite⟩
  · intro g count inits seed state s' hrun hmem
    have htaken : Takes s _ v := (ends_initialFreeState g count seed inits).of_ok hrun _ hmem
    cases ht : v.toFloats with
    | error r => exact absurd htaken (not_takes_of_error ht)
    | ok t => exact ⟨t, rfl, (takes_iff hnode hrole hspans ht).mp htaken⟩

/-- A half fits into a column of two numbers between zero and one. -/
theorem toFree_newVariable_iff_half :
    ∃ id w', (newVariable (.float 0.0) (.float 1.0) (.int 2) .none).run (.empty default true) =
        (.ok id, w') ∧ Takes w' id (.float 0.5) := by
  rcases exists_run_of_isOk (show ((newVariable (.float 0.0) (.float 1.0) (.int 2) .none).run
    (.empty default true)).1.isOk = true by decide +kernel) with ⟨id, w', hrun⟩
  rcases toFree_newVariable_iff hrun with ⟨b, d, nv, size, hb, hd, hnode, htakes⟩
  refine ⟨id, w', hrun, ?_⟩
  apply ((htakes w' _ hnode rfl rfl (.float 0.5)).1 (Tensor.scalar 0.5) rfl).1.mpr
  have hbetween : b.lower < 0.5 ∧ 0.5 < b.upper := by
    have hany : ((bounds (.float 0.0) (.float 1.0)).run
        (.empty default true)).1.toOption.all (fun b => b.lower < 0.5 && 0.5 < b.upper) =
          true := by decide +kernel
    rw [hb] at hany
    change (decide (b.lower < 0.5) && decide (0.5 < b.upper)) = true at hany
    rwa [Bool.and_eq_true, decide_eq_true_iff, decide_eq_true_iff] at hany
  have hcolumn : (Value.int 2).toDim = .ok [2, 1] := by rfl
  rw [hcolumn] at hd
  cases hd
  refine ⟨(Tensor.scalar 0.5).broadcast [2, 1], rfl, ?_⟩
  intro x hx
  have hentries : ((Tensor.scalar (0.5 : Float)).broadcast [2, 1]).toList = [0.5, 0.5] := rfl
  rw [hentries] at hx
  obtain rfl : x = 0.5 := by simpa using hx
  left
  unfold Interval.Contains
  rw [less_ofFloat, less_ofFloat, decide_eq_true_iff, decide_eq_true_iff]
  exact hbetween

/-- What is no number is taken by a variable between zero and one. -/
theorem takes_nan :
    ∃ id w', (newVariable (.float 0.0) (.float 1.0) .none .none).run (.empty default true) =
        (.ok id, w') ∧ Takes w' id (.float (0.0 / 0.0)) ∧ (0.0 / 0.0 : Float).isFinite = false := by
  have hboth : ((do
      let id ← newVariable (.float 0.0) (.float 1.0) .none .none
      toFree id (.float (0.0 / 0.0))).run (.empty default true)).1.isOk = true := by
    decide +kernel
  rcases exists_run_of_isOk (show ((newVariable (.float 0.0) (.float 1.0) .none .none).run
    (.empty default true)).1.isOk = true by decide +kernel) with ⟨id, w', hrun⟩
  rw [run_bind_of_run hrun] at hboth
  rcases exists_run_of_isOk hboth with ⟨free, v, htaken⟩
  have hleaves := leaves_toFree (s := w') id (.float (0.0 / 0.0))
  unfold Leaves at hleaves
  rw [htaken] at hleaves
  obtain rfl : v = w' := hleaves
  exact ⟨id, v, hrun, ⟨free, htaken⟩, by decide +kernel⟩

end Action
end DensityGraph
