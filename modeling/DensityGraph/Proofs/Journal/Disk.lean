import DensityGraph.Journal.Disk
/-!
# What opening a file leaves behind

Nothing is taken from a disk when a file is opened, and no text is changed.  Directories
and the file are added, as far as they are missing and until a name is met that cannot be
followed.
-/

namespace DensityGraph
namespace Disk

/-- More directories and files without text may be there. -/
def Grows (d e : Disk) : Prop :=
  ∃ added : List (Place × Item), e.items = d.items ++ added ∧
    forall q, q ∈ added -> q.2 = .directory ∨ q.2 = .file ""

theorem Grows.refl (d : Disk) : d.Grows d :=
  ⟨[], (List.append_nil _).symm, by simp⟩

theorem Grows.trans {d e f : Disk} (hde : d.Grows e) (hef : e.Grows f) : d.Grows f := by
  rcases hde with ⟨first, he, hfirst⟩
  rcases hef with ⟨second, hf, hsecond⟩
  refine ⟨first ++ second, ?_, ?_⟩
  · rw [hf, he, List.append_assoc]
  · intro q hq
    rcases List.mem_append.mp hq with hq | hq
    · exact hfirst q hq
    · exact hsecond q hq

theorem grows_add (d : Disk) (p : Place) {x : Item} (hx : x = .directory ∨ x = .file "") :
    d.Grows (d.add p x) := by
  refine ⟨[(p, x)], rfl, ?_⟩
  intro q hq
  rw [List.mem_singleton.mp hq]
  exact hx

theorem Grows.ne {d e f : Disk} (hde : d.Grows e) (hne : e ≠ d) (hef : e.Grows f) :
    f ≠ d := by
  rcases hde with ⟨first, he, _⟩
  rcases hef with ⟨second, hf, _⟩
  rintro rfl
  rw [he, List.append_assoc] at hf
  have hnil : first = [] := (List.append_eq_nil_iff.mp (List.self_eq_append_right.mp hf)).1
  rw [hnil, List.append_nil] at he
  exact hne (congrArg Disk.mk he)

theorem add_ne (d : Disk) (p : Place) (x : Item) : d.add p x ≠ d := by
  intro h
  have hlength := congrArg (fun d : Disk => d.items.length) h
  simp [add] at hlength

section Way

variable (d : Disk) (p : Place) (name : String) (names : List String)

theorem grows_makeWay : d.Grows (d.makeWay p names).2 := by
  induction names generalizing d p with
  | nil => exact .refl d
  | cons name rest ih =>
      rw [makeWay]
      split
      · exact ih d _
      · exact (grows_add d _ (.inl rfl)).trans (ih _ _)
      · exact .refl d

theorem makeWay_of_ne_missing (h : names.foldlM d.enter p ≠ .error .missing) :
    d.makeWay p names = (names.foldlM d.enter p, d) := by
  induction names generalizing p with
  | nil => rfl
  | cons name rest ih =>
      rw [List.foldlM_cons] at h ⊢
      rw [makeWay]
      cases henter : d.enter p name with
      | ok q =>
          rw [henter] at h
          exact ih q h
      | error o =>
          rw [henter] at h
          cases o with
          | missing => exact absurd rfl h
          | blocked => rfl
          | unusable => rfl

theorem makeWay_ne_of_missing (h : names.foldlM d.enter p = .error .missing) :
    (d.makeWay p names).2 ≠ d := by
  induction names generalizing p with
  | nil => cases h
  | cons name rest ih =>
      rw [List.foldlM_cons] at h
      rw [makeWay]
      cases henter : d.enter p name with
      | ok q =>
          rw [henter] at h
          exact ih q h
      | error o =>
          rw [henter] at h
          cases h
          exact (grows_add d _ (.inl rfl)).ne (add_ne d _ _) (grows_makeWay _ _ _)

theorem grows_openIn : d.Grows (d.openIn p name).2 := by
  unfold openIn
  split
  · split
    · split <;> exact .refl d
    · exact grows_add d _ (.inr rfl)
    · exact .refl d
  · exact .refl d

theorem openIn_eq_self_iff :
    (d.openIn p name).2 = d ↔ ¬(isUsable name ∧ d.enter p name = .error .missing) := by
  unfold openIn
  by_cases husable : isUsable name = true
  · rw [if_pos husable]
    cases henter : d.enter p name with
    | ok q =>
        simp only [reduceCtorEq, and_false, not_false_eq_true, iff_true]
        split <;> rfl
    | error o =>
        cases o with
        | missing =>
            simp only [husable, and_self, not_true_eq_false, iff_false]
            exact add_ne d _ _
        | blocked => simp
        | unusable => simp
  · rw [if_neg husable]
    simp [husable]

end Way

/-- The file, or a directory on the way to it, is not there yet. -/
def Lacks (d : Disk) (names : List String) : Prop :=
  d.find names.dropLast = .error .missing ∨ d.find names = .error .missing

theorem grows_openFile (d : Disk) (names : List String) : d.Grows (d.openFile names).2 := by
  unfold openFile
  split
  · exact .refl d
  · rename_i name _
    split
    · have hway := grows_makeWay d [] names.dropLast
      split
      · rename_i p e hmade
        rw [hmade] at hway
        exact hway.trans (grows_openIn e p name)
      · rename_i o e hmade
        rw [hmade] at hway
        exact hway
    · exact .refl d

theorem find_concat (d : Disk) (init : List String) (name : String) :
    d.find (init ++ [name]) =
      if init.all isUsable && isUsable name then
        init.foldlM d.enter [] >>= fun p => d.enter p name
      else .error .unusable := by
  simp [find, List.foldlM_append, bind_pure]

theorem openFile_concat (d : Disk) (init : List String) (name : String) :
    d.openFile (init ++ [name]) =
      if init.all isUsable then
        match d.makeWay [] init with
        | (.ok p, e) => e.openIn p name
        | (.error o, e) => (.error o, e)
      else (.error .unusable, d) := by
  unfold openFile
  rewrite [List.getLast?_concat, List.dropLast_concat]
  rfl

theorem openFile_ne_of_missing {d : Disk} {init : List String} (name : String)
    (husable : init.all isUsable = true) (hmissing : init.foldlM d.enter [] = .error .missing) :
    (d.openFile (init ++ [name])).2 ≠ d := by
  have hgrows := grows_makeWay d [] init
  have hne := makeWay_ne_of_missing d [] init hmissing
  rw [openFile_concat, if_pos husable]
  cases hmade : d.makeWay [] init with
  | mk result e =>
      rw [hmade] at hgrows hne
      cases result with
      | ok p => exact hgrows.ne hne (grows_openIn e p name)
      | error o => exact hne

theorem openFile_eq_self_iff (d : Disk) (names : List String) :
    (d.openFile names).2 = d ↔ ¬d.Lacks names := by
  rcases List.eq_nil_or_concat names with rfl | ⟨init, name, rfl⟩
  · simp [openFile, Lacks, find, pure, Except.pure]
  · rw [List.concat_eq_append]
    unfold Lacks
    rw [find_concat, List.dropLast_concat]
    unfold find
    by_cases husable : init.all isUsable = true
    · rw [if_pos husable, husable, Bool.true_and]
      by_cases hmissing : init.foldlM d.enter [] = .error .missing
      · have hne := openFile_ne_of_missing name husable hmissing
        simp only [hne, hmissing, true_or, not_true_eq_false]
      · rw [openFile_concat, if_pos husable, makeWay_of_ne_missing d [] init hmissing]
        cases hway : init.foldlM d.enter [] with
        | ok p =>
            rw [openIn_eq_self_iff]
            cases isUsable name with
            | false => simp
            | true => simp [bind, Except.bind]
        | error o =>
            rw [hway] at hmissing
            simp only [hmissing, false_or, true_iff]
            cases isUsable name with
            | false => simp
            | true => exact hmissing
    · rw [openFile_concat, if_neg husable, if_neg husable]
      simp [husable]

end Disk
end DensityGraph
