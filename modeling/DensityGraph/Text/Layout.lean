import DensityGraph.Tensor.Shape
/-!
# Layout of nested entries

Entries of the last axis stand in lines, a line that grows too long is continued
under its first entry.  Deeper axes are separated by line breaks, one more for
every further axis.
-/

namespace DensityGraph
namespace Layout

/-- How entries are joined: the separator, the room in a line, the length of the
text in front, and whether long axes are cut down to their ends. -/
structure Style where
  separator : String
  lineWidth : Nat
  indent : Nat
  shorten : Bool

def edge : Nat := 3

def positions (s : Style) (n : Nat) : List (Option Nat) :=
  if s.shorten && 2 * edge < n then
    (List.range edge).map some ++ none :: (List.range edge).map fun i => some (n - edge + i)
  else (List.range n).map some

def blanks (n : Nat) : String :=
  String.ofList (List.replicate n ' ')

def trimRight (s : String) : String :=
  String.ofList ((s.toList.reverse.dropWhile (· == ' ')).reverse)

/-- Adds a word behind the finished text and the current line; a word that does not
fit starts a new line, unless the line is still empty. -/
def extend (width hanging : Nat) (text : String × String) (word : String) : String × String :=
  let (done, line) := text
  if line.length + word.length > width && line.length > hanging then
    (done ++ trimRight line ++ "\n", blanks hanging ++ word)
  else (done, line ++ word)

def row (s : Style) (enclosing : Nat) (words : List String) : String :=
  let hanging := s.indent + enclosing + 1
  let width := s.lineWidth - enclosing - 1
  let step (text : String × String) (word : String) :=
    extend width hanging (text.1, text.2 ++ s.separator) word
  match words with
  | [] => ""
  | first :: rest =>
      let text := rest.foldl step (extend width hanging ("", blanks hanging) first)
      String.ofList ((text.1 ++ text.2).toList.drop hanging)

def nested (s : Style) (entry : List Nat → String) (enclosing : Nat) :
    Shape → List Nat → String
  | [], index => entry index
  | [n], index =>
      "[" ++ row s enclosing ((positions s n).map fun i =>
        match i with
        | some i => entry (index ++ [i])
        | none => "...") ++ "]"
  | n :: m :: rest, index =>
      let gap := trimRight s.separator ++
        String.ofList (List.replicate (rest.length + 1) '\n') ++
        blanks (s.indent + enclosing + 1)
      let parts := (positions s n).map fun i =>
        match i with
        | some i => nested s entry (enclosing + 1) (m :: rest) (index ++ [i])
        | none => "..."
      "[" ++ String.intercalate gap parts ++ "]"

end Layout

end DensityGraph
