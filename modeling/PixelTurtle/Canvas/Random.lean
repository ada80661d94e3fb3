/-
PixelTurtle.Canvas.Random — canvases with random pixels.

Pixels are drawn bottom row first, from the left. A word `v` picks color
number `v * n / 2^32` of `n`, unless the remainder lies in the part of the
range that would favor some colors; then the next word is tried.
-/
import PixelTurtle.Canvas
import PixelTurtle.Random.Source

namespace PixelTurtle.Canvas

/-- The largest remainder that is accepted when one of `n` is picked. -/
def acceptZone (n : Nat) : Nat :=
  n <<< (31 - n.log2) - 1

/-- Pick a number below `n`, trying at most a given number of words. -/
def pick {σ : Type} (next : σ → UInt32 × σ) (n : Nat) : Nat → σ → Nat × σ
  | 0, s => (0, s)
  | tries + 1, s =>
      let (word, s) := next s
      let product := word.toNat * n
      if product % UInt32.size ≤ acceptZone n then (product / UInt32.size, s)
      else pick next n tries s

/-- How many words are tried for one pixel. A source that counts in even
steps repeats its words after that many, so a further try is in vain. -/
def maxTries : Nat := UInt32.size

/-- Draw one pixel. An empty palette gives white and takes no word. -/
def drawPixel {σ : Type} (next : σ → UInt32 × σ) (palette : Array Color) (s : σ) : Color × σ :=
  if palette.isEmpty then (.white, s)
  else
    let (index, s) := pick next palette.size maxTries s
    (palette.getD index .white, s)

/-- Draw a number of pixels after those already drawn. -/
def drawPixels {σ : Type} (next : σ → UInt32 × σ) (palette : Array Color) :
    Nat → σ → Array Color → Array Color
  | 0, _, drawn => drawn
  | count + 1, s, drawn =>
      let (color, s) := drawPixel next palette s
      drawPixels next palette count s (drawn.push color)

/-- A canvas with every pixel drawn from a palette. -/
def random {σ : Type} (next : σ → UInt32 × σ) (s : σ) (width height : Nat)
    (palette : List Color) : Except CanvasFlaw Canvas :=
  match pixelCount width height with
  | .error flaw => .error flaw
  | .ok count => ofPixels width height (drawPixels next palette.toArray count s #[])

/-- The random canvas of a seed. -/
def seeded (seed : UInt64) (width height : Nat) (palette : List Color) :
    Except CanvasFlaw Canvas :=
  random KeyStream.next (KeyStream.ofSeed seed) width height palette

end PixelTurtle.Canvas
