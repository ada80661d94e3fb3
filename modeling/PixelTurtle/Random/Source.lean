/-
PixelTurtle.Random.Source — streams of random 32 bit words.

A source is a state and a way to take the next word from it. There are
two: `Stepping` counts in even steps, for canvases that can be worked out
by hand, and `KeyStream` spreads a seed over the words of a stream cipher
with twelve rounds.
-/
namespace PixelTurtle

/-- A value whose low half is the next word, and what it grows by. -/
structure Stepping where
  value : UInt64
  increment : UInt64

/-- Take the next word. The value wraps around. -/
def Stepping.next (s : Stepping) : UInt32 × Stepping :=
  (s.value.toUInt32, { s with value := s.value + s.increment })

/-- The sixteen words a cipher round works on. -/
abbrev CipherBlock := Vector UInt32 16

namespace CipherBlock

/-- Turn a word left. -/
def turnLeft (word bits : UInt32) : UInt32 :=
  (word <<< bits) ||| (word >>> (32 - bits))

/-- Add word `b` to word `a` and mix the sum into word `d`. -/
def mix (block : CipherBlock) (a b d : Fin 16) (bits : UInt32) : CipherBlock :=
  let block := block.set a (block[a] + block[b])
  block.set d (turnLeft (block[d] ^^^ block[a]) bits)

/-- One quarter of a round. -/
def quarterRound (block : CipherBlock) (a b c d : Fin 16) : CipherBlock :=
  let block := block.mix a b d 16
  let block := block.mix c d b 12
  let block := block.mix a b d 8
  block.mix c d b 7

/-- A round down the columns and a round down the diagonals. -/
def doubleRound (block : CipherBlock) : CipherBlock :=
  let block := block.quarterRound 0 4 8 12
  let block := block.quarterRound 1 5 9 13
  let block := block.quarterRound 2 6 10 14
  let block := block.quarterRound 3 7 11 15
  let block := block.quarterRound 0 5 10 15
  let block := block.quarterRound 1 6 11 12
  let block := block.quarterRound 2 7 8 13
  block.quarterRound 3 4 9 14

/-- Apply a number of double rounds. -/
def doubleRounds : Nat → CipherBlock → CipherBlock
  | 0, block => block
  | n + 1, block => doubleRounds n block.doubleRound

/-- The output block of an input block: twelve rounds, added to the
input. -/
def output (block : CipherBlock) : CipherBlock :=
  Vector.zipWith (· + ·) (doubleRounds 6 block) block

end CipherBlock

/-- A keyed stream of words, handed out block by block. -/
structure KeyStream where
  key : Vector UInt32 8
  /-- The number of the next block. -/
  counter : UInt64
  /-- The words of the current block that are left. -/
  ready : List UInt32

namespace KeyStream

/-- Four words that begin every block: `expand 32-byte k`. -/
def constants : Vector UInt32 4 :=
  #v[0x61707865, 0x3320646e, 0x79622d32, 0x6b206574]

/-- The block with a given number. -/
def block (key : Vector UInt32 8) (counter : UInt64) : CipherBlock :=
  CipherBlock.output
    (constants ++ key ++ #v[counter.toUInt32, (counter >>> 32).toUInt32, 0, 0])

/-- Take the next word. -/
def next (s : KeyStream) : UInt32 × KeyStream :=
  match s.ready with
  | word :: rest => (word, { s with ready := rest })
  | [] =>
      let words := (block s.key s.counter).toList
      (words.headD 0, ⟨s.key, s.counter + 1, words.tail⟩)

/-- The key words that a seed expands to, with a congruential step and a
permutation for each. -/
def keyWords : Nat → UInt64 → List UInt32
  | 0, _ => []
  | n + 1, state =>
      let state := state * 6364136223846793005 + 11634580027462260723
      let mixed := (((state >>> 18) ^^^ state) >>> 27).toUInt32
      let turn := (state >>> 59).toUInt32
      ((mixed >>> turn) ||| (mixed <<< ((32 - turn) % 32))) :: keyWords n state

/-- The stream of a seed. -/
def ofSeed (seed : UInt64) : KeyStream where
  key := Vector.ofFn (fun i => (keyWords 8 seed).getD i 0)
  counter := 0
  ready := []

end KeyStream

end PixelTurtle
