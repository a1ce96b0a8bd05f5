/-!
# Reproducible noise

Uniform noise between -1 and 1 from a stream cipher of eight rounds. The key is drawn from a 64-bit
seed by a congruential generator with permuted output; the same seed gives the same noise.
-/

namespace ScoreSynth.Sound

namespace Cipher

def rotateLeft (x n : UInt32) : UInt32 := (x <<< n) ||| (x >>> (32 - n))

def rotateRight (x n : UInt32) : UInt32 := (x >>> n) ||| (x <<< ((32 - n) % 32))

/-- Four words mixed by additions, exclusive ors and rotations. -/
def mix (a b c d : UInt32) : UInt32 × UInt32 × UInt32 × UInt32 :=
  let a := a + b; let d := rotateLeft (d ^^^ a) 16
  let c := c + d; let b := rotateLeft (b ^^^ c) 12
  let a := a + b; let d := rotateLeft (d ^^^ a) 8
  let c := c + d; let b := rotateLeft (b ^^^ c) 7
  (a, b, c, d)

/-- The words at four places of a block, mixed. -/
def mixAt (s : Array UInt32) (i j k l : Nat) : Array UInt32 :=
  let (a, b, c, d) := mix (s.getD i 0) (s.getD j 0) (s.getD k 0) (s.getD l 0)
  (((s.setIfInBounds i a).setIfInBounds j b).setIfInBounds k c).setIfInBounds l d

/-- A round over the columns and a round over the diagonals. -/
def doubleRound (s : Array UInt32) : Array UInt32 :=
  let s := mixAt (mixAt (mixAt (mixAt s 0 4 8 12) 1 5 9 13) 2 6 10 14) 3 7 11 15
  mixAt (mixAt (mixAt (mixAt s 0 5 10 15) 1 6 11 12) 2 7 8 13) 3 4 9 14

def constants : List UInt32 := [0x61707865, 0x3320646E, 0x79622D32, 0x6B206574]

def block (key : List UInt32) (number : Nat) : List UInt32 :=
  let counter := UInt64.ofNat number
  let s := (constants ++ key ++ [counter.toUInt32, (counter >>> 32).toUInt32, 0, 0]).toArray
  let t := doubleRound (doubleRound (doubleRound (doubleRound s)))
  (Array.zipWith (· + ·) s t).toList

def keyFrom : Nat → UInt64 → List UInt32
  | 0, _ => []
  | n + 1, seed =>
    let seed := seed * 6364136223846793005 + 11634580027462260723
    let x := (((seed >>> 18) ^^^ seed) >>> 27).toUInt32
    rotateRight x (seed >>> 59).toUInt32 :: keyFrom n seed

end Cipher

/-- The key, the number of the next block and the words left of the current one. -/
structure Noise where
  key : List UInt32
  block : Nat
  words : List UInt32

namespace Noise

def ofSeed (seed : UInt64) : Noise := ⟨Cipher.keyFrom 8 seed, 0, []⟩

/-- Two words, the lower half of the number first. -/
def nextWord (n : Noise) : UInt64 × Noise :=
  match n.words with
  | low :: high :: rest => (low.toUInt64 ||| (high.toUInt64 <<< 32), { n with words := rest })
  | _ =>
    match Cipher.block n.key n.block with
    | low :: high :: rest =>
      (low.toUInt64 ||| (high.toUInt64 <<< 32), { n with block := n.block + 1, words := rest })
    | _ => (0, n)

/-- The upper 52 bits become the fraction of a number from 1 to 2, which is stretched and moved. -/
def next (n : Noise) : Float × Noise :=
  let (word, n) := n.nextWord
  let v := Float.ofBits ((word >>> 12) ||| 0x3FF0000000000000)
  ((v - 1.0) * 2.0 + -1.0, n)

end Noise

end ScoreSynth.Sound
