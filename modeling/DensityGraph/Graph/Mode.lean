import DensityGraph.Graph.Workspace
/-!
# Data modes

Blocks in which data are compiled as constants, or not.  Leaving a block restores the
mode in which it was entered.
-/

namespace DensityGraph
namespace Action

def setDataMode (mode : Value) : Action Unit :=
  modify fun w => { w with settings := { w.settings with dataAsConstants := mode } }

/-- Enters a block.  The mode is set before the message about it is put together, and nothing
sets it back if that fails. -/
def enterMode (mode : Value) : Action Unit := do
  let w ← get
  let previous := w.settings.dataAsConstants
  setDataMode mode
  requireText (w.canWrite mode && w.canWrite previous)
  modify fun w => { w with modes := previous :: w.modes }
  report .settings .debug ("Set data_as_constants=" ++ mode.display w.written ++ ", was " ++
    previous.display w.written)

def leaveMode : Action Unit := do
  let w ← get
  match w.modes with
  | [] => refuse .index
  | previous :: rest =>
      set { w with modes := rest }
      setDataMode previous

def setSetting (name : String) (v : Value) : Action Unit :=
  modify fun w => { w with settings := w.settings.set name v }

end Action
end DensityGraph
