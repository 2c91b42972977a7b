import DensityGraph.Journal.Message
import DensityGraph.Text.Quoted
/-!
# Line formats

A line format is a text with places for the properties of a message.  A place names
the property between `%(` and `)` and ends with a letter; a width and a precision may
stand in front of the letter, and a minus sign puts the blanks behind.
-/

namespace DensityGraph
namespace LineFormat

structure Place where
  key : String
  flags : List Char
  width : Nat
  precision : Option Nat
  isOpen : Bool
  conversion : Char
deriving Inhabited

inductive Property where
  | text (s : String)
  | number (n : Nat)

def isKeyCharacter (c : Char) : Bool :=
  c.isAlphanum || c == '_' || 127 < c.toNat

def digitsOf (cs : List Char) : Nat :=
  cs.foldl (fun n c => 10 * n + (c.toNat - 48)) 0

def count (cs : List Char) : Option Nat × Bool × List Char :=
  match cs with
  | '*' :: rest => (none, true, rest)
  | cs =>
      let ds := cs.takeWhile Char.isDigit
      (if ds.isEmpty then none else some (digitsOf ds), false, cs.dropWhile Char.isDigit)

def place? (cs : List Char) : Option (Place × List Char) :=
  let key := cs.takeWhile isKeyCharacter
  match cs.dropWhile isKeyCharacter with
  | ')' :: cs =>
      let isFlag (c : Char) : Bool := "#0+ -".toList.contains c
      let flags := cs.takeWhile isFlag
      let (width, openWidth, cs) := count (cs.dropWhile isFlag)
      let (precision, openPrecision, cs) :=
        match cs with
        | '.' :: rest => count rest
        | cs => (none, false, cs)
      match cs with
      | c :: rest =>
          if key.isEmpty || !("diouxefgcrsa%".toList.contains c.toLower) then none
          else some (⟨String.ofList key, flags, width.getD 0, precision,
            openWidth || openPrecision, c⟩, rest)
      | [] => none
  | _ => none

def isValid : List Char → Bool
  | [] => false
  | '%' :: '(' :: rest => (place? rest).isSome || isValid rest
  | _ :: rest => isValid rest

def property (m : Message) (key : String) : Option Property :=
  match key with
  | "name" => some (.text m.logger)
  | "levelname" => some (.text m.level.name)
  | "levelno" => some (.number m.level.number)
  | "message" => some (.text m.text)
  | "msg" => some (.text m.text)
  | "asctime" => some (.text "")
  | _ => none

def fillWidth (p : Place) (filler : Char) (s : String) : String :=
  let blanks := List.replicate (p.width - s.length) filler
  if p.flags.contains '-' then s ++ String.ofList (blanks.map fun _ => ' ')
  else String.ofList blanks ++ s

/-- The text of a property in its place; `none` if the letter does not suit it. -/
def fill (p : Place) (v : Property) : Option String :=
  let text (s : String) : String :=
    fillWidth p ' ' (match p.precision with
      | some n => String.ofList (s.toList.take n)
      | none => s)
  if p.isOpen then none
  else
    match p.conversion, v with
    | 's', .text s => some (text s)
    | 's', .number n => some (text (toString n))
    | 'r', .text s => some (text (Quoted.text s))
    | 'r', .number n => some (text (toString n))
    | 'd', .number n => some (fillWidth p (if p.flags.contains '0' then '0' else ' ') (toString n))
    | 'i', .number n => some (fillWidth p (if p.flags.contains '0' then '0' else ' ') (toString n))
    | _, _ => none

def render (m : Message) : Nat → List Char → Option (List Char)
  | 0, _ => some []
  | _ + 1, [] => some []
  | fuel + 1, '%' :: '(' :: rest => do
      let (p, rest) ← place? rest
      let v ← property m p.key
      let s ← fill p v
      return s.toList ++ (← render m fuel rest)
  | fuel + 1, '%' :: '%' :: rest => do return '%' :: (← render m fuel rest)
  | _ + 1, '%' :: _ => none
  | fuel + 1, c :: rest => do return c :: (← render m fuel rest)

def line (format : String) (m : Message) : Option String :=
  (render m (format.length + 1) format.toList).map String.ofList

end LineFormat
end DensityGraph
