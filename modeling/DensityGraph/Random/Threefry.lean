/-!
# Threefry

A counter-based generator: words are the encryption of a counter under a key.  Keys
are made from a seed and split into as many independent keys as are needed.
-/

namespace DensityGraph
namespace Threefry

structure Key where
  high : UInt32
  low : UInt32
deriving Repr, DecidableEq, Inhabited

def Key.ofSeed (wide : Bool) (seed : Int) : Key :=
  let half := Nat.pow 2 32
  let bits := (seed % Int.ofNat (half * half)).toNat
  ⟨if wide then UInt32.ofNat (bits / half) else 0, UInt32.ofNat (bits % half)⟩

/-!
# The cipher
-/

def rotateLeft (x : UInt32) (r : UInt32) : UInt32 :=
  (x <<< r) ||| (x >>> (32 - r))

def rotations (i : Nat) : List UInt32 :=
  if i % 2 = 0 then [13, 15, 26, 6] else [17, 29, 16, 24]

def mix (block : UInt32 × UInt32) (r : UInt32) : UInt32 × UInt32 :=
  let x := block.1 + block.2
  (x, rotateLeft block.2 r ^^^ x)

def schedule (k : Key) (i : Nat) : UInt32 :=
  match i % 3 with
  | 0 => k.high
  | 1 => k.low
  | _ => k.high ^^^ k.low ^^^ 0x1BD11BDA

def round (k : Key) (block : UInt32 × UInt32) (i : Nat) : UInt32 × UInt32 :=
  let mixed := (rotations i).foldl mix block
  (mixed.1 + schedule k (i + 1), mixed.2 + schedule k (i + 2) + UInt32.ofNat (i + 1))

def encrypt (k : Key) (block : UInt32 × UInt32) : UInt32 × UInt32 :=
  (List.range 5).foldl (round k) (block.1 + schedule k 0, block.2 + schedule k 1)

/-!
# Words
-/

def words (k : Key) (n : Nat) : List UInt32 :=
  let half := (n + 1) / 2
  let counter (i : Nat) : UInt32 := if i < n then UInt32.ofNat i else 0
  let blocks := (List.range half).map fun i => encrypt k (counter i, counter (half + i))
  (blocks.map Prod.fst ++ blocks.map Prod.snd).take n

theorem length_words (k : Key) (n : Nat) : (words k n).length = n := by
  simp only [words, List.length_take, List.length_append, List.length_map, List.length_range]
  omega

def split (k : Key) (n : Nat) : List Key :=
  let ws := (words k (2 * n)).toArray
  (List.range n).map fun i => ⟨ws.getD (2 * i) 0, ws.getD (2 * i + 1) 0⟩

/-!
# Fractions
-/

def singleFraction (w : UInt32) : Float :=
  Float.scaleB (Float.ofNat (w >>> 9).toNat) (-23)

def doubleFraction (high low : UInt32) : Float :=
  Float.scaleB (Float.ofNat ((high.toNat * Nat.pow 2 32 + low.toNat) / Nat.pow 2 12)) (-52)

def fractions (isDouble : Bool) (k : Key) (count : Nat) : List Float :=
  if isDouble then
    let ws := (words k (2 * count)).toArray
    (List.range count).map fun j => doubleFraction (ws.getD j 0) (ws.getD (count + j) 0)
  else (words k count).map singleFraction

def uniform (isDouble : Bool) (k : Key) (count : Nat) : List Float :=
  (fractions isDouble k count).map fun u =>
    let x := u * 4.0 - 2.0
    if x < -2.0 then -2.0 else x

end Threefry
end DensityGraph
