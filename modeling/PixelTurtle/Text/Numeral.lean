/-
PixelTurtle.Text.Numeral — reading whole numbers.

A numeral is an optional sign and at least one decimal digit. Digits are
read from the left and the first digit that is no digit, or that takes
the number past its limit, decides the fault.
-/
namespace PixelTurtle.Text

/-- Why a text is no number of the wanted range. -/
inductive NumeralFault where
  | empty
  | invalidDigit
  | tooLarge
  | tooSmall
  deriving DecidableEq

/-- The wording of a numeral fault. -/
def NumeralFault.message : NumeralFault → String
  | .empty => "cannot parse integer from empty string"
  | .invalidDigit => "invalid digit found in string"
  | .tooLarge => "number too large to fit in target type"
  | .tooSmall => "number too small to fit in target type"

/-- The value of a decimal digit. -/
def digit? (c : Char) : Option Nat :=
  if '0' ≤ c ∧ c ≤ '9' then some (c.toNat - '0'.toNat) else none

/-- Read digits after those that made `value`; `past` is the fault of a
number above `limit`. -/
def readDigits (limit : Nat) (past : NumeralFault) (value : Nat) :
    List Char → Except NumeralFault Nat
  | [] => .ok value
  | c :: rest =>
      match digit? c with
      | none => .error .invalidDigit
      | some d =>
          if 10 * value + d ≤ limit then readDigits limit past (10 * value + d) rest
          else .error past

/-- Read a number between 0 and `limit`. A plus sign may precede it. -/
def readNat (limit : Nat) : List Char → Except NumeralFault Nat
  | [] => .error .empty
  | ['+'] => .error .invalidDigit
  | '+' :: rest => readDigits limit .tooLarge 0 rest
  | text => readDigits limit .tooLarge 0 text

/-- Read a number between `-limit - 1` and `limit`. -/
def readInt (limit : Nat) : List Char → Except NumeralFault Int
  | ['-'] => .error .invalidDigit
  | '-' :: rest => (readDigits (limit + 1) .tooSmall 0 rest).map (fun n => -(n : Int))
  | text => (readNat limit text).map (fun n => (n : Int))

/-- The largest 32 bit number. -/
def max32 : Nat := 0xffffffff

/-- The largest 64 bit number. -/
def max64 : Nat := 0xffffffffffffffff

/-- The signed 32 bit number that a word spells, if it spells one. -/
def int32? (word : String) : Option Int :=
  (readInt 0x7fffffff word.toList).toOption

end PixelTurtle.Text
