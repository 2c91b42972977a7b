import DensityGraph.Failure
import DensityGraph.Journal.Disk
import DensityGraph.Journal.Format
/-!
# Loggers

Loggers have names with points in them; each is a child of the logger whose name
stands in front of its last point.  A message that a logger lets through goes to its
handlers and, as long as loggers pass it on, to those of its ancestors.  Handlers
write to files or to the terminal, which is not kept.
-/

namespace DensityGraph

structure Handler where
  file : Option Disk.Place
  level : Nat
  format : String
  isDefault : Bool
deriving Repr, DecidableEq, Inhabited

structure Logger where
  level : Nat
  propagates : Bool
  handlers : List Handler
deriving Repr, DecidableEq, Inhabited

def Logger.fresh : Logger :=
  ⟨0, true, []⟩

structure Journal where
  loggers : List (String × Logger)
  disk : Disk
deriving Repr, DecidableEq, Inhabited

namespace Journal

def package : String := "probdag"

def root : String := "root"

/-- The name under which a logger is kept; the root goes by no name as well. -/
def canonical (name : String) : String :=
  if name == "" then root else name

def defaultFormat : String := "%(name)s - %(levelname)s - %(message)s"

def fileFormat : String := "%(asctime)s - %(levelname)s - %(name)s - %(message)s"

def logger (j : Journal) (name : String) : Logger :=
  (j.loggers.lookup name).getD Logger.fresh

def setLogger (j : Journal) (name : String) (l : Logger) : Journal :=
  { j with loggers := (name, l) :: j.loggers.filter fun p => p.1 != name }

theorem logger_setLogger_self (j : Journal) (name : String) (l : Logger) :
    (j.setLogger name l).logger name = l := by
  simp [logger, setLogger]

/-!
# Setup
-/

def defaultHandler : Handler :=
  ⟨none, 0, defaultFormat, true⟩

def Logger.setup (l : Logger) : Logger :=
  { level := Level.info.number
    propagates := false
    handlers :=
      if l.handlers.any Handler.isDefault then l.handlers else l.handlers ++ [defaultHandler] }

def setup (j : Journal) : Journal :=
  j.setLogger package (Logger.setup (j.logger package))

def reset (j : Journal) : Journal :=
  j.setLogger package Logger.fresh

def start : Journal :=
  setup ⟨[], ⟨[]⟩⟩

/-!
# Files

A path is taken apart into the names that lead somewhere, and a file is kept under the path
that is written with these names.
-/

def namesOf (path : String) : List String :=
  ((path.toList.splitOn '/').map String.ofList).filter fun name => name != "" && name != "."

def isAbsolute (path : String) : Bool :=
  path.startsWith "/"

def normalize (path : String) : String :=
  let joined := String.intercalate "/" (namesOf path)
  if isAbsolute path then "/" ++ joined
  else if joined == "" then "."
  else joined

/-- The levels by their names, in capitals.  Two more names mean something, but no
level. -/
def levelNumber (name : String) : Except Refusal Nat :=
  let known := [("NOTSET", 0), ("DEBUG", 10), ("INFO", 20), ("WARN", 30), ("WARNING", 30),
    ("ERROR", 40), ("FATAL", 50), ("CRITICAL", 50)]
  match known.lookup name with
  | some n => .ok n
  | none =>
      if name == "BASIC_FORMAT" then .error .value
      else if name == "_STYLES" then .error .type
      else .error .attribute

/-- The capitals of a letter; some letters share theirs with others. -/
def capitals (c : Char) : List Char :=
  match c with
  | 'ı' => ['I']
  | 'ſ' => ['S']
  | 'ﬅ' | 'ﬆ' => ['S', 'T']
  | c => [c.toUpper]

def levelOf (name : String) : Except Refusal Nat :=
  levelNumber (String.ofList (name.toList.flatMap capitals))

def levelName (n : Nat) : String :=
  if n = 0 then "NOTSET"
  else
    match Level.all.find? fun l => l.number == n with
    | some l => l.name
    | none => "Level " ++ toString n

def addHandler (j : Journal) (name : String) (h : Handler) : Journal :=
  j.setLogger name { j.logger name with handlers := (j.logger name).handlers ++ [h] }

/-- Writes the messages of a logger to the file at an absolute path.  The file is made
before the level and the format are looked at. -/
def addFileHandler (path level name format : String) (j : Journal) :
    Except Failure Unit × Journal :=
  if !isAbsolute path then (.error (.relativePath (normalize path)), j)
  else
    match j.disk.openFile (namesOf path) with
    | (.error o, d) => (.error (.refused o.refusal), { j with disk := d })
    | (.ok p, d) =>
        let j := { j with disk := d }
        match levelOf level with
        | .error r => (.error (.refused r), j)
        | .ok n =>
            let format := if format == "" then "%(message)s" else format
            if LineFormat.isValid format.toList then
              (.ok (), j.addHandler (canonical name) ⟨some p, n, format, false⟩)
            else (.error (.refused .value), j)

def fileNames (j : Journal) : List String :=
  (j.disk.files.map fun p => "/" ++ String.intercalate "/" p).mergeSort (· ≤ ·)

def read (j : Journal) (path : String) : Except Failure (List String) :=
  match j.disk.read (namesOf path) with
  | .error o => .error (.refused o.refusal)
  | .ok text => .ok ((text.splitOn "\n").dropLast)

/-!
# Messages

A message passes from its logger to the ancestors, up to the root.  The least level that is
let through is that of the nearest logger that has one.
-/

def chain (name : String) : List String :=
  let parts := name.splitOn "."
  (((List.range parts.length).map fun i =>
    String.intercalate "." (parts.take (parts.length - i))).filter (· != root)) ++ [root]

def effectiveLevel (j : Journal) (name : String) : Nat :=
  ((chain name).findSome? fun n =>
    let l := (j.logger n).level
    if l = 0 then none else some l).getD Level.warning.number

def reachedFrom (j : Journal) : List String → List Handler
  | [] => []
  | name :: rest =>
      let l := j.logger name
      l.handlers ++ (if l.propagates then reachedFrom j rest else [])

def admits (j : Journal) (m : Message) : Bool :=
  j.effectiveLevel m.logger ≤ m.level.number

def handle (m : Message) (j : Journal) (h : Handler) : Journal :=
  if m.level.number < h.level then j
  else
    match h.file, LineFormat.line h.format m with
    | some p, some line => { j with disk := j.disk.append p (line ++ "\n") }
    | _, _ => j

def log (j : Journal) (m : Message) : Journal :=
  let m := { m with logger := canonical m.logger }
  if j.admits m then (j.reachedFrom (chain m.logger)).foldl (handle m) j else j

end Journal
end DensityGraph
