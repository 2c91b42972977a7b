import DensityGraph.Text.Visible
/-!
# Quoted text

A text in a message stands between single quotes, or between double quotes if it
holds a single quote and no double one.  The quote itself, the backslash, line
feeds, carriage returns and tabs are escaped by a backslash; other characters
without a visible form are written by their code in hexadecimal digits.
-/

namespace DensityGraph
namespace Quoted

def quoteOf (cs : List Char) : Char :=
  if cs.contains '\'' && !cs.contains '"' then '"' else '\''

def hexDigits (n width : Nat) : List Char :=
  let ds := Nat.toDigits 16 n
  List.replicate (width - ds.length) '0' ++ ds

def encodeChar (q c : Char) : List Char :=
  if c = q || c = '\\' then ['\\', c]
  else if c = '\n' then ['\\', 'n']
  else if c = '\r' then ['\\', 'r']
  else if c = '\t' then ['\\', 't']
  else if Character.isVisible c then [c]
  else if c.toNat < 0x100 then '\\' :: 'x' :: hexDigits c.toNat 2
  else if c.toNat < 0x10000 then '\\' :: 'u' :: hexDigits c.toNat 4
  else '\\' :: 'U' :: hexDigits c.toNat 8

def encode (cs : List Char) : List Char :=
  let q := quoteOf cs
  q :: (cs.flatMap (encodeChar q) ++ [q])

def text (s : String) : String :=
  String.ofList (encode s.toList)

end Quoted
end DensityGraph
