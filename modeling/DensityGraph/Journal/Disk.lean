import DensityGraph.Value.Refusal
/-!
# Files and directories

A disk holds files and directories, each under the names that lead to it from the top.
A path is followed name by name, where two points lead back to the directory above.
Files are opened to be written at their end, and what is missing on the way to them is
made.
-/

namespace DensityGraph

inductive Item where
  | directory
  | file (text : String)
deriving Repr, DecidableEq, Inhabited

inductive Obstacle where
  | missing
  | blocked
  | unusable
deriving Repr, DecidableEq, Inhabited

def Obstacle.refusal : Obstacle → Refusal
  | missing => .missingFile
  | blocked => .missingFile
  | unusable => .value

structure Disk where
  items : List (List String × Item)
deriving Repr, DecidableEq, Inhabited

namespace Disk

abbrev Place := List String

/-- What there is at a place; at the top there always is a directory. -/
def item? (d : Disk) (p : Place) : Option Item :=
  if p.isEmpty then some .directory else d.items.lookup p

def add (d : Disk) (p : Place) (x : Item) : Disk :=
  ⟨d.items ++ [(p, x)]⟩

def isUsable (name : String) : Bool :=
  !name.toList.contains '\x00'

def enter (d : Disk) (p : Place) (name : String) : Except Obstacle Place :=
  match d.item? p with
  | some .directory =>
      if name == ".." then .ok p.dropLast
      else if (d.item? (p ++ [name])).isSome then .ok (p ++ [name])
      else .error .missing
  | _ => .error .blocked

def find (d : Disk) (names : List String) : Except Obstacle Place :=
  if names.all isUsable then names.foldlM d.enter [] else .error .unusable

def makeWay (d : Disk) (p : Place) : List String → Except Obstacle Place × Disk
  | [] => (.ok p, d)
  | name :: rest =>
      match d.enter p name with
      | .ok q => d.makeWay q rest
      | .error .missing => (d.add (p ++ [name]) .directory).makeWay (p ++ [name]) rest
      | .error o => (.error o, d)

/-- Opens a file in a directory; one that is missing is made without text. -/
def openIn (d : Disk) (p : Place) (name : String) : Except Obstacle Place × Disk :=
  if isUsable name then
    match d.enter p name with
    | .ok q =>
        match d.item? q with
        | some (.file _) => (.ok q, d)
        | _ => (.error .blocked, d)
    | .error .missing => (.ok (p ++ [name]), d.add (p ++ [name]) (.file ""))
    | .error o => (.error o, d)
  else (.error .unusable, d)

/-- Opens the file at the end of a path.  The directories on the way are made first,
and they stay if the file cannot be opened. -/
def openFile (d : Disk) (names : List String) : Except Obstacle Place × Disk :=
  match names.getLast? with
  | none => (.error .blocked, d)
  | some name =>
      if names.dropLast.all isUsable then
        match d.makeWay [] names.dropLast with
        | (.ok p, d) => d.openIn p name
        | (.error o, d) => (.error o, d)
      else (.error .unusable, d)

def append (d : Disk) (p : Place) (text : String) : Disk :=
  ⟨d.items.map fun (q, x) =>
    match x with
    | .file old => (q, .file (if q == p then old ++ text else old))
    | .directory => (q, .directory)⟩

def read (d : Disk) (names : List String) : Except Obstacle String := do
  match d.item? (← d.find names) with
  | some (.file text) => return text
  | _ => throw .blocked

def files (d : Disk) : List Place :=
  d.items.filterMap fun (p, x) =>
    match x with
    | .file _ => some p
    | .directory => none

end Disk
end DensityGraph
