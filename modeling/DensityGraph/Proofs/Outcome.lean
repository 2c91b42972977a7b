import DensityGraph.Failure
/-!
# Outcomes of computations

Actions change a workspace and passes fill an environment; both are computations on a
state that may fail and keep the state that they failed in.  What such a computation
can end in is described by two conditions, one for each kind of end, and taken apart
along the computation.
-/

namespace DensityGraph

variable {σ β γ δ : Type}

/-- From the state `s` the computation ends with a result that satisfies `Q` or with a
failure that satisfies `E`, each together with the last state. -/
def Ends (a : ExceptT Failure (StateM σ) β) (s : σ) (Q : β → σ → Prop)
    (E : Failure → σ → Prop) : Prop :=
  match StateT.run (ExceptT.run a) s with
  | (.ok x, t) => Q x t
  | (.error f, t) => E f t

section Steps

variable {s : σ} {E : Failure → σ → Prop}

theorem ends_pure {x : β} {Q : β → σ → Prop} : Ends (pure x) s Q E ↔ Q x s :=
  Iff.rfl

theorem ends_throw {f : Failure} {Q : β → σ → Prop} : Ends (throw f) s Q E ↔ E f s :=
  Iff.rfl

theorem ends_get {Q : σ → σ → Prop} : Ends get s Q E ↔ Q s s :=
  Iff.rfl

theorem ends_set {t : σ} {Q : PUnit → σ → Prop} : Ends (set t) s Q E ↔ Q ⟨⟩ t :=
  Iff.rfl

theorem ends_modify {g : σ → σ} {Q : PUnit → σ → Prop} :
    Ends (modify g) s Q E ↔ Q ⟨⟩ (g s) :=
  Iff.rfl

theorem run_bind (a : ExceptT Failure (StateM σ) β)
    (next : β → ExceptT Failure (StateM σ) γ) (s : σ) :
    StateT.run (ExceptT.run (a >>= next)) s =
      match StateT.run (ExceptT.run a) s with
      | (.ok x, t) => StateT.run (ExceptT.run (next x)) t
      | (.error f, t) => (.error f, t) := by
  simp only [ExceptT.run_bind, StateT.run_bind]
  generalize StateT.run a.run s = r
  obtain ⟨x | x, t⟩ := r
  · rfl
  · rfl

theorem ends_bind {a : ExceptT Failure (StateM σ) β}
    {next : β → ExceptT Failure (StateM σ) γ} {Q : γ → σ → Prop} :
    Ends (a >>= next) s Q E ↔ Ends a s (fun x t => Ends (next x) t Q E) E := by
  unfold Ends
  rw [run_bind]
  generalize StateT.run a.run s = r
  obtain ⟨x | x, t⟩ := r
  · rfl
  · rfl

theorem ends_ite {c : Prop} [Decidable c] {a b : ExceptT Failure (StateM σ) β}
    {Q : β → σ → Prop} :
    Ends (if c then a else b) s Q E ↔ (c → Ends a s Q E) ∧ (¬c → Ends b s Q E) := by
  by_cases h : c
  · simp [h]
  · simp [h]

theorem ends_unless {c : Prop} [Decidable c] {a b : ExceptT Failure (StateM σ) β}
    {Q : β → σ → Prop} (ha : Ends a s Q E) (hb : ¬c -> Ends b s Q E) :
    Ends (if c then a else b) s Q E :=
  ends_ite.mpr ⟨fun _ => ha, hb⟩

theorem ends_when {c : Prop} [Decidable c] {a b : ExceptT Failure (StateM σ) β}
    {Q : β → σ → Prop} (hb : Ends b s Q E) (ha : c -> Ends a s Q E) :
    Ends (if c then a else b) s Q E :=
  ends_ite.mpr ⟨ha, fun _ => hb⟩

end Steps

namespace Ends

variable {a : ExceptT Failure (StateM σ) β} {s : σ} {Q R : β → σ → Prop}
  {E F : Failure → σ → Prop}

theorem of_ok {x : β} {t : σ} (h : Ends a s Q E)
    (hrun : StateT.run (ExceptT.run a) s = (.ok x, t)) : Q x t := by
  unfold Ends at h
  rw [hrun] at h
  exact h

theorem of_error {f : Failure} {t : σ} (h : Ends a s Q E)
    (hrun : StateT.run (ExceptT.run a) s = (.error f, t)) : E f t := by
  unfold Ends at h
  rw [hrun] at h
  exact h

theorem exists_ok (h : Ends a s Q E) (hE : forall f t, ¬E f t) :
    ∃ x t, StateT.run (ExceptT.run a) s = (.ok x, t) ∧ Q x t := by
  cases hrun : StateT.run (ExceptT.run a) s with
  | mk result t =>
      cases result with
      | ok x => exact ⟨x, t, rfl, h.of_ok hrun⟩
      | error f => exact absurd (h.of_error hrun) (hE f t)

theorem exists_error (h : Ends a s Q E) (hQ : forall x t, ¬Q x t) :
    ∃ f t, StateT.run (ExceptT.run a) s = (.error f, t) ∧ E f t := by
  cases hrun : StateT.run (ExceptT.run a) s with
  | mk result t =>
      cases result with
      | ok x => exact absurd (h.of_ok hrun) (hQ x t)
      | error f => exact ⟨f, t, rfl, h.of_error hrun⟩

theorem last {P : σ → Prop} (h : Ends a s (fun _ t => P t) fun _ t => P t) :
    P (StateT.run (ExceptT.run a) s).2 := by
  unfold Ends at h
  generalize StateT.run a.run s = r at h ⊢
  obtain ⟨x | x, t⟩ := r
  · exact h
  · exact h

theorem exists_ok_iff {P : Prop} (h : Ends a s Q E) (hQ : forall x t, Q x t -> P)
    (hE : forall f t, E f t -> ¬P) :
    (∃ x t, StateT.run (ExceptT.run a) s = (.ok x, t)) ↔ P := by
  constructor
  · intro hex
    rcases hex with ⟨x, t, hrun⟩
    exact hQ x t (h.of_ok hrun)
  · intro hP
    rcases h.exists_ok fun f t hf => hE f t hf hP with ⟨x, t, hrun, _⟩
    exact ⟨x, t, hrun⟩

theorem mono (h : Ends a s Q E) (hQ : forall x t, Q x t -> R x t)
    (hE : forall f t, E f t -> F f t) : Ends a s R F := by
  unfold Ends at h ⊢
  generalize StateT.run a.run s = r at h
  obtain ⟨x | x, t⟩ := r
  · exact hE x t h
  · exact hQ x t h

theorem imp (h : Ends a s Q E) (hQ : forall x t, Q x t -> R x t) : Ends a s R E :=
  h.mono hQ fun _ _ hf => hf

theorem of_forall (hQ : forall x t, Q x t) (hE : forall f t, E f t) : Ends a s Q E := by
  unfold Ends
  generalize StateT.run a.run s = r
  obtain ⟨x | x, t⟩ := r
  · exact hE x t
  · exact hQ x t

theorem and (h : Ends a s Q E) (h' : Ends a s R F) :
    Ends a s (fun x t => Q x t ∧ R x t) (fun f t => E f t ∧ F f t) := by
  unfold Ends at h h' ⊢
  generalize StateT.run a.run s = r at h h'
  obtain ⟨x | x, t⟩ := r
  · exact ⟨h, h'⟩
  · exact ⟨h, h'⟩

theorem bind {next : β → ExceptT Failure (StateM σ) γ} {P : γ → σ → Prop}
    (h : Ends a s Q E) (hnext : forall x t, Q x t -> Ends (next x) t P E) :
    Ends (a >>= next) s P E :=
  ends_bind.mpr (h.imp hnext)

/-!
# Computations along a list

The condition `P` holds of the members that have been dealt with, of their results,
and of the state.
-/

theorem foldlM {f : β → γ → ExceptT Failure (StateM σ) β} {xs : List γ} {y : β}
    {P : List γ → β → σ → Prop} (hstart : P [] y s)
    (hstep : forall done x rest z t, xs = done ++ x :: rest -> P done z t ->
      Ends (f z x) t (fun z' t' => P (done ++ [x]) z' t') E) :
    Ends (xs.foldlM f y) s (P xs) E := by
  -- The induction is on what is left, with the condition of what is done as its invariant.
  have hrest : forall rest done z t, xs = done ++ rest -> P done z t ->
      Ends (rest.foldlM f z) t (P xs) E := by
    intro rest
    induction rest with
    | nil =>
        intro done z t hxs hP
        rw [List.append_nil] at hxs
        rw [hxs]
        exact ends_pure.mpr hP
    | cons x rest ih =>
        intro done z t hxs hP
        apply bind (hstep done x rest z t hxs hP)
        intro z' t' hP'
        have hxs' : xs = (done ++ [x]) ++ rest := by
          rw [hxs, List.append_assoc, List.singleton_append]
        exact ih (done ++ [x]) z' t' hxs' hP'
  exact hrest xs [] y s rfl hstart

theorem forM_eq_foldlM (f : γ → ExceptT Failure (StateM σ) PUnit) (xs : List γ) :
    xs.forM f = xs.foldlM (fun _ x => f x) ⟨⟩ := by
  induction xs with
  | nil => rfl
  | cons x xs ih => exact congrArg (f x >>= ·) (funext fun _ => ih)

theorem forM {f : γ → ExceptT Failure (StateM σ) PUnit} {xs : List γ}
    {P : List γ → σ → Prop} (hstart : P [] s)
    (hstep : forall done x rest t, xs = done ++ x :: rest -> P done t ->
      Ends (f x) t (fun _ t' => P (done ++ [x]) t') E) :
    Ends (xs.forM f) s (fun _ t => P xs t) E := by
  rw [forM_eq_foldlM]
  apply foldlM (P := fun done _ t => P done t) hstart
  intro done x rest _ t hxs hP
  exact hstep done x rest t hxs hP

theorem mapM {f : γ → ExceptT Failure (StateM σ) δ} {xs : List γ}
    {P : List γ → List δ → σ → Prop} (hstart : P [] [] s)
    (hstep : forall done x rest ys t, xs = done ++ x :: rest -> P done ys t ->
      Ends (f x) t (fun y t' => P (done ++ [x]) (ys ++ [y]) t') E) :
    Ends (xs.mapM f) s (P xs) E := by
  rw [List.mapM_eq_reverse_foldlM_cons, map_eq_pure_bind]
  -- The results are gathered with the last one first.
  apply bind (Q := fun (ys : List δ) t => P xs ys.reverse t)
  · apply foldlM (P := fun done (ys : List δ) t => P done ys.reverse t) (y := []) hstart
    intro done x rest ys t hxs hP
    rw [map_eq_pure_bind]
    apply bind (hstep done x rest ys.reverse t hxs hP)
    intro y t' hP'
    rw [← List.reverse_cons] at hP'
    exact ends_pure.mpr hP'
  · intro ys t hP
    exact ends_pure.mpr hP

end Ends

/-!
# Results without the reason of a failure
-/

section Results

variable {ε : Type}

theorem bind_eq_error {x : Except ε β} {f : β → Except ε γ} {e : ε} (h : x >>= f = .error e) :
    x = .error e ∨ ∃ y, x = .ok y ∧ f y = .error e := by
  cases x with
  | error e' =>
      cases h
      exact Or.inl rfl
  | ok y => exact Or.inr ⟨y, rfl, h⟩

theorem toOption_bind (x : Except ε β) (f : β → Except ε γ) :
    (x >>= f).toOption = x.toOption.bind fun y => (f y).toOption := by
  cases x <;> rfl

theorem toOption_eq_some {x : Except ε β} {y : β} : x.toOption = some y ↔ x = .ok y := by
  cases x with
  | error f =>
      constructor
      · rintro ⟨⟩
      · rintro ⟨⟩
  | ok z =>
      constructor
      · rintro ⟨⟩
        rfl
      · rintro ⟨⟩
        rfl

theorem toOption_mapM (f : β → Except ε γ) (xs : List β) :
    (xs.mapM f).toOption = xs.mapM fun x => (f x).toOption := by
  induction xs with
  | nil => rfl
  | cons x xs ih =>
      rw [List.mapM_cons, List.mapM_cons, toOption_bind]
      change ((f x).toOption.bind fun y => (xs.mapM f >>= fun ys => pure (y :: ys)).toOption) =
        (f x).toOption.bind fun y => (xs.mapM fun x => (f x).toOption).bind fun ys => some (y :: ys)
      simp only [toOption_bind, ih]
      rfl

end Results
end DensityGraph
