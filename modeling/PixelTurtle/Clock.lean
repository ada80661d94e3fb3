/-
PixelTurtle.Clock — how many instructions a stretch of time is worth.

A clock is told the time since the last frame and answers with the budget
of this one; it is then told how much of that was used. Time that is not
used up is queued. At most once in half a second it measures the rate that
was really reached. Times are whole nanoseconds.
-/
namespace PixelTurtle

/-- A throttle for runs that are watched. -/
structure Clock where
  /-- Instructions per second. -/
  normalRate : Float
  /-- What turbo multiplies the rate with. -/
  turboFactor : Float
  /-- The largest budget of one frame. -/
  frameLimit : Float
  turbo : Bool
  paused : Bool
  /-- Instructions that are due. -/
  queued : Float
  /-- Nanoseconds since the last measurement. -/
  meterElapsed : Int
  /-- Instructions since the last measurement. -/
  meterCount : Float
  /-- The rate measured last. -/
  measured : Option Float

namespace Clock

/-- The rate of a clock that is told nothing. -/
def standardRate : Float := 5.0

/-- The turbo factor of a clock that is told nothing. -/
def standardTurboFactor : Float := 36000000.0

/-- The frame limit of a clock that is told nothing. -/
def standardFrameLimit : Float := 3000000.0

/-- A clock that starts now. -/
def make (normalRate turboFactor frameLimit : Float) : Clock where
  normalRate := normalRate
  turboFactor := turboFactor
  frameLimit := frameLimit
  turbo := false
  paused := false
  queued := 0.0
  meterElapsed := 0
  meterCount := 0.0
  measured := none

/-- A clock with the usual settings. -/
def standard : Clock :=
  make standardRate standardTurboFactor standardFrameLimit

/-- Instructions per second at present. -/
def targetRate (c : Clock) : Float :=
  if c.paused then 0.0
  else if c.turbo then c.normalRate * c.turboFactor
  else c.normalRate

/-- Pause or go on. What was due is dropped. -/
def setPaused (c : Clock) (paused : Bool) : Clock :=
  { c with paused := paused, queued := 0.0 }

/-- Switch turbo on or off. What was due is dropped. -/
def setTurbo (c : Clock) (turbo : Bool) : Clock :=
  { c with turbo := turbo, queued := 0.0 }

/-- Pause; if paused already, let exactly one instruction through. -/
def singleStep (c : Clock) : Clock :=
  { c with queued := if c.paused then 1.0 else 0.0, paused := true }

/-- A time in seconds: whole microseconds where those fit 64 bits, else
whole milliseconds, both cut off toward zero. -/
def seconds (nanoseconds : Int) : Float :=
  let micros := nanoseconds.tdiv 1000
  if Int64.minValue.toInt ≤ micros ∧ micros ≤ Int64.maxValue.toInt then
    (Int64.ofInt micros).toFloat / 1000000.0
  else (Int64.ofInt (nanoseconds.tdiv 1000000)).toFloat / 1000.0

/-- The smaller of two numbers; no number gives way to the other. -/
def least (a b : Float) : Float :=
  if a.isNaN then b else if b.isNaN then a else if a ≤ b then a else b

/-- The larger of two numbers; no number gives way to the other. -/
def greatest (a b : Float) : Float :=
  if a.isNaN then b else if b.isNaN then a else if a ≤ b then b else a

/-- The whole part of a number, held between 0 and the largest 64 bit
number. -/
def wholePart (x : Float) : Nat :=
  x.toUInt64.toNat

/-- A count as a floating point number. -/
def ofCount (count : Nat) : Float :=
  (UInt64.ofNat count).toFloat

/-- Let time pass. Gives the budget of this frame. -/
def tick (c : Clock) (elapsed : Int) : Clock × Nat :=
  let queued := c.queued + c.targetRate * seconds elapsed
  let budget := wholePart (greatest (least queued c.frameLimit) 0.0).floor
  ({ c with queued := queued, meterElapsed := c.meterElapsed + elapsed }, budget)

/-- The time after which the rate is measured again: half a second. -/
def measuringTime : Int := 500000000

/-- Record that instructions were executed. -/
def consume (c : Clock) (executed : Nat) : Clock :=
  let queued := c.queued - ofCount executed
  let count := c.meterCount + ofCount executed
  if c.meterElapsed > measuringTime ∧ count > 0.0 then
    { c with queued := queued, meterElapsed := 0, meterCount := 0.0,
             measured := some (count / seconds c.meterElapsed) }
  else { c with queued := queued, meterCount := count }

end Clock

end PixelTurtle
