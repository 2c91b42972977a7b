import DensityGraph.Proofs.Evaluation.Uniform
/-!
# Programs with blocks

A program makes calls, compiles graphs, and fills environments, and it enters and leaves
blocks in which data are compiled in a mode of their own.  Anything may fail, and failures
may be caught anywhere; environments stay when the blocks are left in which they were
created.

The mode of a block is set before the message about it is put together.  A block that cannot
be entered, because a mode in the message has no text, is therefore never left, and it stays
open until the block around it is left.
-/

namespace DensityGraph

/-- An environment and the modes of the blocks that were open when it was created, innermost
first. -/
structure Kept where
  blocks : List Value
  {α : Type}
  [scalar : Scalar α]
  [custom : CustomCode α]
  environment : Environment α

attribute [instance] Kept.scalar Kept.custom

structure Session where
  workspace : Workspace
  /-- The environments in the order in which they were created. -/
  kept : List Kept
  /-- The modes of the blocks that are open, innermost first. -/
  opened : List Value
  /-- The mode before and after each block that has been left. -/
  left : List (Value × Value)
  /-- The mode of each block that could not be entered, and the mode before it. -/
  refused : List (Value × Value)

namespace Session

def act {β : Type} (s : Session) (a : Action β) : Except Failure β × Session :=
  ((a.run s.workspace).1, { s with workspace := (a.run s.workspace).2 })

def create {α : Type} [Scalar α] [CustomCode α] (s : Session) (fed : List (NodeId × Value))
    (pass : Pass α Unit) : Except Failure Unit × Session :=
  match Environment.start s.workspace fed with
  | .error f => (.error f, s)
  | .ok e =>
      ((pass.run e).1, { s with kept := s.kept ++ [⟨s.opened, (pass.run e).2⟩] })

def fill (s : Session) (i : Nat) (id : NodeId) : Except Failure Unit × Session :=
  match s.kept[i]? with
  | none => (.error (.refused .index), s)
  | some k =>
      let pass := Pass.materialize s.workspace id
      ((pass.run k.environment).1,
        { s with kept := s.kept.set i ⟨k.blocks, (pass.run k.environment).2⟩ })

end Session

inductive Program : Type 1 where
  | skip
  | raise (f : Failure)
  | sequence (first second : Program)
  /-- A program whose failures are caught. -/
  | attempt (body : Program) (handler : Failure → Program)
  | block (mode : Value) (body : Program)
  | call (c : Call)
  | compile (starts : List Value) (next : Dag → Program)
  /-- Reads what a graph is fed. -/
  | feed (d : Dag) (data : List (Value × Value)) (next : List (NodeId × Value) → Program)
  /-- Creates an environment. -/
  | environment (α : Type) [Scalar α] [CustomCode α] (fed : List (NodeId × Value))
  /-- Materializes a node in an environment. -/
  | materialize (i : Nat) (id : NodeId)
  /-- Runs a pass over a graph in a new environment. -/
  | evaluate {α : Type} [Scalar α] [CustomCode α] (d : Dag) (fed : List (NodeId × Value))
      (free : Workspace → NodeId → Option (Except Refusal (Tensor α)))
  /-- Goes on in a way that depends on everything so far. -/
  | inspect (next : Session → Program)

namespace Program

def exec : Program → Session → Except Failure Unit × Session
  | skip, s => (.ok (), s)
  | raise f, s => (.error f, s)
  | sequence first second, s =>
      match first.exec s with
      | (.ok _, s) => second.exec s
      | (.error f, s) => (.error f, s)
  | attempt body handler, s =>
      match body.exec s with
      | (.ok _, s) => (.ok (), s)
      | (.error f, s) => (handler f).exec s
  | block mode body, s =>
      let before := s.workspace.settings.dataAsConstants
      match s.act (Action.enterMode mode) with
      | (.error f, t) =>
          (.error f, { t with
            opened := mode :: s.opened
            refused := s.refused ++ [(mode, before)] })
      | (.ok _, t) =>
          match body.exec { t with opened := mode :: s.opened } with
          | (result, t) =>
              match t.act Action.leaveMode with
              | (leaving, t) =>
                  (leaving.bind fun _ => result, { t with
                    opened := s.opened
                    left := t.left ++ [(before, t.workspace.settings.dataAsConstants)] })
  | call c, s => s.act c.perform
  | compile starts next, s =>
      match s.act (Action.compile starts) with
      | (.error f, s) => (.error f, s)
      | (.ok d, s) => (next d).exec s
  | feed d data next, s =>
      match s.act (Action.feed d data) with
      | (.error f, s) => (.error f, s)
      | (.ok fed, s) => (next fed).exec s
  | environment α fed, s => s.create fed (pure () : Pass α Unit)
  | materialize i id, s => s.fill i id
  | evaluate d fed free, s =>
      s.create fed (Pass.materializeAll s.workspace d (free s.workspace))
  | inspect next, s => (next s).exec s

end Program

/-!
# Entering and leaving
-/

namespace Workspace

variable {w : Workspace}

end Workspace

/-!
# What programs keep

Whatever a program does leads from a sound session to a sound one that follows it.  There is
one lemma for each kind of step, and the induction over programs puts them together.
-/

namespace Session

open Environment

/-- With a mode outside of all blocks, the mode is that of the innermost block that is open,
every environment has the mode of the innermost block that was open when it was created, every
block has been left in the mode in which it was entered, and those that could not be entered
had a mode without a text. -/
structure Sound (outer : Value) (s : Session) : Prop where
  workspace : s.workspace.Sound
  mode : s.workspace.settings.dataAsConstants = s.opened.headD outer
  kept : forall k, k ∈ s.kept -> k.environment.InMode s.workspace (k.blocks.headD outer)
  left : forall q, q ∈ s.left -> q.2 = q.1
  refused : forall q, q ∈ s.refused -> ∃ v : Workspace, (v.canWrite q.1 && v.canWrite q.2) = false

/-- The settings are as before but for the mode, and so are the modes of all environments.  The
blocks that have been opened in between could not be entered. -/
structure Follows (s t : Session) : Prop where
  settings : t.workspace.settings =
    { s.workspace.settings with dataAsConstants := t.workspace.settings.dataAsConstants }
  modes : t.workspace.modes = s.workspace.modes
  wide : t.workspace.wide = s.workspace.wide
  keepsData : s.workspace.KeepsData t.workspace
  kept : forall (i : Nat) (k : Kept), s.kept[i]? = some k -> ∃ k' : Kept, t.kept[i]? = some k' ∧
    k'.blocks = k.blocks ∧ k'.environment.dataAsConstants = k.environment.dataAsConstants
  opened : ∃ more, t.opened = more ++ s.opened ∧
    forall mode, mode ∈ more -> mode ∈ t.refused.map Prod.fst
  refused : s.refused ⊆ t.refused

variable {r s t : Session} {outer : Value}

theorem Follows.refl (s : Session) : s.Follows s where
  settings := rfl
  modes := rfl
  wide := rfl
  keepsData := .refl _
  kept _ k hk := ⟨k, hk, rfl, rfl⟩
  opened := ⟨[], rfl, nofun⟩
  refused := List.Subset.refl _

theorem Follows.trans (h : r.Follows s) (h' : s.Follows t) : r.Follows t where
  settings := by rw [h'.settings, h.settings]
  modes := h'.modes.trans h.modes
  wide := h'.wide.trans h.wide
  keepsData := h.keepsData.trans h'.keepsData
  kept i k hk := by
    rcases h.kept i k hk with ⟨k', hk', hblocks, hmode⟩
    rcases h'.kept i k' hk' with ⟨k'', hk'', hblocks', hmode'⟩
    exact ⟨k'', hk'', hblocks'.trans hblocks, hmode'.trans hmode⟩
  opened := by
    rcases h.opened with ⟨more, hmore, hrefused⟩
    rcases h'.opened with ⟨last, hlast, hrefused'⟩
    refine ⟨last ++ more, ?_, ?_⟩
    · rw [hlast, hmore, List.append_assoc]
    · intro mode hmode
      rcases List.mem_append.mp hmode with hnew | hold
      · exact hrefused' mode hnew
      · exact List.map_subset _ h'.refused (hrefused mode hold)
  refused := List.Subset.trans h.refused h'.refused

theorem Sound.carry (h : s.Sound outer) {v : Workspace}
    (hkeeps : s.workspace.KeepsData v)
    (hprecision : v.settings.floatType = s.workspace.settings.floatType)
    (hwide : v.wide = s.workspace.wide) (k : Kept) (hk : k ∈ s.kept) :
    k.environment.InMode v (k.blocks.headD outer) :=
  ⟨(h.kept k hk).1, (h.kept k hk).2.carry hkeeps hprecision hwide⟩

def Leads (outer : Value) (s t : Session) : Prop :=
  t.Sound outer ∧ s.Follows t

theorem Leads.refl (h : s.Sound outer) : Leads outer s s :=
  ⟨h, .refl s⟩

theorem Leads.trans (h : Leads outer r s) (h' : Leads outer s t) : Leads outer r t :=
  ⟨h'.1, h.2.trans h'.2⟩

end Session

namespace Program

open Session

variable {s : Session} {outer : Value}

/-- The session after a program that starts outside of all blocks. -/
def after (p : Program) (s : Session) : Session :=
  (p.exec s).2

/-- A session in which nothing has been done. -/
def fresh (w : Workspace) : Session :=
  ⟨w, [], [], [], []⟩

attribute [local instance] CustomCode.refusing

end Program
end DensityGraph
