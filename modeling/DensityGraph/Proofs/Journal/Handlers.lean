import DensityGraph.Journal.Logger
import DensityGraph.Proofs.Journal.Disk
/-!
# Handlers of loggers

A call that adds a file handler is refused at one of four points, and what it leaves
behind is told by the point.  Whatever calls have been made, the setup finds at most one
of its own handlers and leaves exactly one, behind handlers that stay until they are taken
back.
-/

namespace DensityGraph
namespace Journal

/-!
# Calls that are refused
-/

def shown (format : String) : String :=
  if format == "" then "%(message)s" else format

inductive Ending (path level name format : String) (j : Journal) :
    Except Failure Unit × Journal → Prop where
  | relative (hpath : isAbsolute path = false) :
      Ending path level name format j (.error (.relativePath (normalize path)), j)
  | closed {o : Obstacle} {d : Disk} (hpath : isAbsolute path = true)
      (hfile : j.disk.openFile (namesOf path) = (.error o, d)) :
      Ending path level name format j (.error (.refused o.refusal), { j with disk := d })
  | unleveled {p : Disk.Place} {d : Disk} {r : Refusal} (hpath : isAbsolute path = true)
      (hfile : j.disk.openFile (namesOf path) = (.ok p, d)) (hlevel : levelOf level = .error r) :
      Ending path level name format j (.error (.refused r), { j with disk := d })
  | unformatted {p : Disk.Place} {d : Disk} {n : Nat} (hpath : isAbsolute path = true)
      (hfile : j.disk.openFile (namesOf path) = (.ok p, d)) (hlevel : levelOf level = .ok n)
      (hformat : LineFormat.isValid (shown format).toList = false) :
      Ending path level name format j (.error (.refused .value), { j with disk := d })
  | added {p : Disk.Place} {d : Disk} {n : Nat} (hpath : isAbsolute path = true)
      (hfile : j.disk.openFile (namesOf path) = (.ok p, d)) (hlevel : levelOf level = .ok n)
      (hformat : LineFormat.isValid (shown format).toList = true) :
      Ending path level name format j (.ok (),
        { j with disk := d }.addHandler (canonical name) ⟨some p, n, shown format, false⟩)

theorem ending_addFileHandler (path level name format : String) (j : Journal) :
    Ending path level name format j (addFileHandler path level name format j) := by
  unfold addFileHandler
  cases hpath : isAbsolute path with
  | false => exact .relative hpath
  | true =>
      cases hfile : j.disk.openFile (namesOf path) with
      | mk result d =>
          cases result with
          | error o => exact .closed hpath hfile
          | ok p =>
              cases hlevel : levelOf level with
              | error r => exact .unleveled hpath hfile hlevel
              | ok n =>
                  cases hformat : LineFormat.isValid (shown format).toList with
                  | false =>
                      simp only [Bool.not_true, Bool.false_eq_true, if_false]
                      rw [if_neg]
                      · exact .unformatted hpath hfile hlevel hformat
                      · exact ne_true_of_eq_false hformat
                  | true =>
                      simp only [Bool.not_true, Bool.false_eq_true, if_false]
                      rw [if_pos]
                      · exact .added hpath hfile hlevel hformat
                      · exact hformat

theorem ending_of_eq {path level name format : String} {j k : Journal}
    {result : Except Failure Unit} (h : addFileHandler path level name format j = (result, k)) :
    Ending path level name format j (result, k) := by
  rw [← h]
  exact ending_addFileHandler path level name format j

/-- A call that is refused changes no logger.  It changes the disk if and only if it got
as far as to open a file that was not there. -/
theorem refused_addFileHandler (path level name format : String) (j k : Journal) (f : Failure)
    (h : addFileHandler path level name format j = (.error f, k)) :
    k.loggers = j.loggers ∧ j.disk.Grows k.disk ∧
      (k = j ↔ ¬(isAbsolute path = true ∧ j.disk.Lacks (namesOf path))) := by
  have hopened : forall {result : Except Obstacle Disk.Place} {d : Disk},
      isAbsolute path = true -> j.disk.openFile (namesOf path) = (result, d) ->
        j.disk.Grows d ∧ ({ j with disk := d } = j ↔
          ¬(isAbsolute path = true ∧ j.disk.Lacks (namesOf path))) := by
    intro result d hpath hfile
    have hgrows := Disk.grows_openFile j.disk (namesOf path)
    have hsame := Disk.openFile_eq_self_iff j.disk (namesOf path)
    rw [hfile] at hgrows hsame
    constructor
    · exact hgrows
    · rw [hpath, eq_self, true_and, ← hsame]
      constructor
      · intro heq
        exact congrArg Journal.disk heq
      · intro heq
        have hdisk : d = j.disk := heq
        rw [hdisk]
  cases ending_of_eq h with
  | relative hpath => simp [hpath, Disk.Grows.refl]
  | closed hpath hfile => exact ⟨rfl, hopened hpath hfile⟩
  | unleveled hpath hfile hlevel => exact ⟨rfl, hopened hpath hfile⟩
  | unformatted hpath hfile hlevel hformat => exact ⟨rfl, hopened hpath hfile⟩

/-- A journal with a file. -/
def oneFile : Journal :=
  (addFileHandler "/w.log" "info" package fileFormat start).2

/-- A level that is none changes nothing if the file was there before. -/
theorem refused_addFileHandler_oneFile :
    ∃ f k, addFileHandler "/w.log" "loud" package fileFormat oneFile = (.error f, k) ∧
      k = oneFile := by
  have hrefused : (addFileHandler "/w.log" "loud" package fileFormat oneFile).1.isOk = false := by
    decide +kernel
  have hfound : (oneFile.disk.find (namesOf "/w.log")).isOk = true ∧
      (oneFile.disk.find (namesOf "/w.log").dropLast).isOk = true := by decide +kernel
  cases hcall : addFileHandler "/w.log" "loud" package fileFormat oneFile with
  | mk result k =>
      cases result with
      | ok u =>
          rw [hcall] at hrefused
          cases hrefused
      | error f =>
          have hall := refused_addFileHandler "/w.log" "loud" package fileFormat oneFile k f hcall
          refine ⟨f, k, rfl, hall.2.2.mpr ?_⟩
          intro hlacks
          rcases hlacks.2 with hmissing | hmissing
          · rw [hmissing] at hfound
            cases hfound.2
          · rw [hmissing] at hfound
            cases hfound.1

/-- A level that is none leaves a directory and a file behind. -/
theorem not_unchanged_unknown_level :
    ¬forall (path level name format : String) (j k : Journal) (f : Failure),
      addFileHandler path level name format j = (.error f, k) -> k = j := by
  intro hall
  have hrefused : (addFileHandler "/q/w.log" "loud" package fileFormat start).1.isOk = false := by
    decide +kernel
  have hmade : (addFileHandler "/q/w.log" "loud" package fileFormat start).2.disk.items.length =
      2 := by decide +kernel
  cases hcall : addFileHandler "/q/w.log" "loud" package fileFormat start with
  | mk result k =>
      rw [hcall] at hrefused hmade
      cases result with
      | ok u => cases hrefused
      | error f =>
          rw [hall _ _ _ _ _ _ _ hcall] at hmade
          cases hmade

/-!
# Setting up and taking back
-/

theorem logger_setLogger_of_ne (j : Journal) {name other : String} (h : other ≠ name)
    (l : Logger) : (j.setLogger name l).logger other = j.logger other := by
  have hlookup : forall loggers : List (String × Logger),
      (loggers.filter fun p => p.1 != name).lookup other = loggers.lookup other := by
    intro loggers
    induction loggers with
    | nil => rfl
    | cons p rest ih =>
        by_cases hp : p.1 = name
        · have hother : (other == p.1) = false := beq_false_of_ne (hp ▸ h)
          rw [List.filter_cons_of_neg (by simp [hp]), ih, List.lookup_cons, hother]
        · rw [List.filter_cons_of_pos (by simp [hp]), List.lookup_cons, List.lookup_cons, ih]
  rw [logger, setLogger, List.lookup_cons, beq_false_of_ne h, hlookup]
  rfl

theorem setLogger_setLogger (j : Journal) (name : String) (l m : Logger) :
    (j.setLogger name l).setLogger name m = j.setLogger name m := by
  simp [setLogger, List.filter_filter]

theorem logger_setup (j : Journal) : j.setup.logger package = Logger.setup (j.logger package) :=
  logger_setLogger_self j package _

theorem logger_reset (j : Journal) : j.reset.logger package = Logger.fresh :=
  logger_setLogger_self j package _

/-- The number of handlers that were put there by the setup. -/
def defaults (l : Logger) : Nat :=
  l.handlers.countP Handler.isDefault

/-- The logger `m` is the logger `l` after the setup. -/
structure SetsUp (l m : Logger) : Prop where
  level : m.level = Level.info.number
  propagates : m.propagates = false
  defaults : defaults m = 1
  kept : l.handlers <+: m.handlers
  others : (m.handlers.filter fun h => !h.isDefault) = l.handlers.filter fun h => !h.isDefault

theorem setsUp_setup {l : Logger} (h : defaults l ≤ 1) : SetsUp l (Logger.setup l) := by
  cases hany : l.handlers.any Handler.isDefault with
  | true =>
      have hhandlers : (Logger.setup l).handlers = l.handlers := by
        simp [Logger.setup, hany]
      have hpos : 0 < defaults l := by
        rcases List.any_eq_true.mp hany with ⟨d, hmem, hd⟩
        exact List.countP_pos_iff.mpr ⟨d, hmem, hd⟩
      have hone : defaults l = 1 := Nat.le_antisymm h hpos
      exact {
        level := rfl
        propagates := rfl
        defaults := by rw [← hone, defaults, defaults, hhandlers]
        kept := hhandlers ▸ List.prefix_rfl
        others := by rw [hhandlers] }
  | false =>
      have hhandlers : (Logger.setup l).handlers = l.handlers ++ [defaultHandler] := by
        simp [Logger.setup, hany]
      have hnone : defaults l = 0 := by
        rw [defaults, List.countP_eq_zero]
        intro d hd
        exact List.any_eq_false.mp hany d hd
      exact {
        level := rfl
        propagates := rfl
        defaults := by
          rw [defaults, hhandlers, List.countP_append, ← defaults, hnone]
          rfl
        kept := ⟨[defaultHandler], hhandlers.symm⟩
        others := by
          rw [hhandlers, List.filter_append]
          exact List.append_nil _ }

theorem setup_setup (j : Journal) : j.setup.setup = j.setup := by
  have hany : (Logger.setup (j.logger package)).handlers.any Handler.isDefault = true := by
    cases hany : (j.logger package).handlers.any Handler.isDefault with
    | true => simp [Logger.setup, hany]
    | false => simp [Logger.setup, hany, defaultHandler]
  have htwice : Logger.setup (Logger.setup (j.logger package)) =
      Logger.setup (j.logger package) := by
    rw [Logger.setup, if_pos hany]
    rfl
  rw [setup, logger_setup, htwice, setup, setLogger_setLogger]

/-!
# Calls one after another

One call keeps it that a logger has at most one handler by default, and adds other handlers
at the end only.  Any sequence of calls follows by induction.
-/

inductive Call where
  | setup
  | reset
  | addFileHandler (path level name format : String)
deriving Repr, DecidableEq

def follow (j : Journal) : Call → Journal
  | .setup => j.setup
  | .reset => j.reset
  | .addFileHandler path level name format => (addFileHandler path level name format j).2

def followAll (j : Journal) (calls : List Call) : Journal :=
  calls.foldl follow j

theorem logger_addFileHandler (path level name format : String) (j : Journal) :
    (addFileHandler path level name format j).2.logger package = j.logger package ∨
      ∃ h : Handler, h.isDefault = false ∧
        (addFileHandler path level name format j).2.logger package =
          { j.logger package with handlers := (j.logger package).handlers ++ [h] } := by
  cases hcall : addFileHandler path level name format j with
  | mk result k =>
      cases ending_of_eq hcall with
      | relative => exact .inl rfl
      | closed => exact .inl rfl
      | unleveled => exact .inl rfl
      | unformatted => exact .inl rfl
      | added =>
          by_cases hname : package = canonical name
          · rw [← hname]
            exact .inr ⟨_, rfl, logger_setLogger_self _ package _⟩
          · exact .inl (logger_setLogger_of_ne _ hname _)

theorem defaults_follow {j : Journal} (h : defaults (j.logger package) ≤ 1) (c : Call) :
    defaults ((j.follow c).logger package) ≤ 1 := by
  cases c with
  | setup =>
      rw [follow, logger_setup]
      exact Nat.le_of_eq (setsUp_setup h).defaults
  | reset =>
      rw [follow, logger_reset]
      exact Nat.zero_le 1
  | addFileHandler path level name format =>
      rw [follow]
      rcases logger_addFileHandler path level name format j with hsame | ⟨d, hd, hadded⟩
      · rw [hsame]
        exact h
      · rw [hadded, defaults, List.countP_append, List.countP_singleton, hd]
        exact h

theorem defaults_followAll {j : Journal} (h : defaults (j.logger package) ≤ 1)
    (calls : List Call) : defaults ((j.followAll calls).logger package) ≤ 1 := by
  induction calls generalizing j with
  | nil => exact h
  | cons c rest ih => exact ih (defaults_follow h c)

theorem handlers_follow (j : Journal) {c : Call} (hc : c ≠ .reset) :
    (j.logger package).handlers <+: ((j.follow c).logger package).handlers := by
  cases c with
  | setup =>
      rw [follow, logger_setup, Logger.setup]
      split
      · exact List.prefix_rfl
      · exact List.prefix_append _ _
  | reset => exact absurd rfl hc
  | addFileHandler path level name format =>
      rw [follow]
      rcases logger_addFileHandler path level name format j with hsame | ⟨d, _, hadded⟩
      · simp only [hsame, List.prefix_rfl]
      · rw [hadded]
        exact List.prefix_append _ _

theorem handlers_followAll (j : Journal) {calls : List Call} (hreset : Call.reset ∉ calls) :
    (j.logger package).handlers <+: ((j.followAll calls).logger package).handlers := by
  induction calls generalizing j with
  | nil => exact List.prefix_rfl
  | cons c rest ih =>
      have hc : c ≠ .reset := fun h => hreset (h ▸ List.mem_cons_self)
      have hrest : Call.reset ∉ rest := fun h => hreset (List.mem_cons_of_mem c h)
      exact (handlers_follow j hc).trans (ih (j.follow c) hrest)

/-- The handlers of the package logger after any calls. -/
theorem handlers_of_calls (i : Journal) (hnone : (i.logger package).handlers = [])
    (calls : List Call) :
    defaults ((i.followAll calls).logger package) ≤ 1 ∧
    SetsUp ((i.followAll calls).logger package) ((i.followAll calls).setup.logger package) ∧
    (i.followAll calls).setup.setup = (i.followAll calls).setup ∧
    (i.followAll calls).reset.logger package =
      { level := 0, propagates := true, handlers := [] } ∧
    forall (path level format : String) (k : Journal),
      addFileHandler path level package format (i.followAll calls) = (.ok (), k) ->
        ∃ h : Handler, h.file.isSome = true ∧ h.isDefault = false ∧
          (k.logger package).handlers =
            ((i.followAll calls).logger package).handlers ++ [h] ∧
          forall later : List Call, Call.reset ∉ later ->
            (k.logger package).handlers <+: ((k.followAll later).logger package).handlers := by
  have hstart : defaults (i.logger package) ≤ 1 := by
    rw [defaults, hnone]
    exact Nat.zero_le 1
  have hone := defaults_followAll hstart calls
  refine ⟨hone, ?_, setup_setup _, logger_reset _, ?_⟩
  · rw [logger_setup]
    exact setsUp_setup hone
  · intro path level format k hcall
    cases ending_of_eq hcall with
    | @added p d n hpath hfile hlevel hformat =>
        refine ⟨⟨some p, n, shown format, false⟩, rfl, rfl, ?_,
          fun later hreset => handlers_followAll _ hreset⟩
        exact congrArg Logger.handlers (logger_setLogger_self _ package _)

/-- After a setup, a file handler and a setup there are the two handlers. -/
theorem handlers_of_calls_oneFile :
    defaults (oneFile.setup.logger package) = 1 ∧
      ((oneFile.setup.logger package).handlers.map fun h => h.file.isSome) = [false, true] := by
  have hall := handlers_of_calls start.reset rfl
    [.setup, .addFileHandler "/w.log" "info" package fileFormat]
  have hsame : start.reset.followAll
      [.setup, .addFileHandler "/w.log" "info" package fileFormat] = oneFile := by
    decide +kernel
  rw [hsame] at hall
  refine ⟨hall.2.1.defaults, ?_⟩
  decide +kernel

end Journal
end DensityGraph
