/-
PixelTurtle.Text.Decimal — floating point numbers as decimals.

`oneDecimal` writes a number with one place after the point. It works on
the exact value of the number, so a half is a half: the last place is then
the even neighbor. `readFloat?` reads decimals with an optional exponent.
-/
import PixelTurtle.Text.Numeral

namespace PixelTurtle.Text

/-- The quotient of two numbers rounded to the nearest whole number, a
half to the even neighbor. -/
def roundDiv (numerator denominator : Nat) : Nat :=
  let quotient := numerator / denominator
  let remainder := numerator % denominator
  if 2 * remainder < denominator then quotient
  else if denominator < 2 * remainder then quotient + 1
  else quotient + quotient % 2

/-- A number of 64 bits taken apart: whether it is negative, and its size
as `mantissa * 2 ^ (exponent - 1075)`. An `exponent` of 2047 marks what is
no finite number. -/
structure Binary64 where
  negative : Bool
  exponent : Nat
  mantissa : Nat

namespace Binary64

/-- Take the bits of a number apart. -/
def ofBits (bits : UInt64) : Binary64 :=
  let n := bits.toNat
  let exponent := (n >>> 52) % 0x800
  let fraction := n % (1 <<< 52)
  if exponent = 0 then ⟨1 <<< 63 ≤ n, 1, fraction⟩
  else ⟨1 <<< 63 ≤ n, exponent, (1 <<< 52) + fraction⟩

/-- The size of a finite number in tenths, rounded. -/
def tenths (b : Binary64) : Nat :=
  if 1075 ≤ b.exponent then (b.mantissa <<< (b.exponent - 1075)) * 10
  else roundDiv (b.mantissa * 10) (1 <<< (1075 - b.exponent))

end Binary64

/-- A number with one place after the point. A negative number keeps its
sign even where it rounds to zero. -/
def oneDecimal (x : Float) : String :=
  let b := Binary64.ofBits x.toBits
  let sign := if b.negative then "-" else ""
  if x.isNaN then "NaN"
  else if b.exponent = 2047 then sign ++ "inf"
  else
    let whole := b.tenths / 10
    let place := b.tenths % 10
    sign ++ s!"{whole}.{place}"

/-- A letter in lower case. -/
def lowered (text : List Char) : String :=
  String.ofList (text.map Char.toLower)

/-- The number `digits * 10 ^ exponent`. What is too large for a floating
point number is infinite and what is too small is zero. -/
def scaled (digits : Nat) (exponent : Int) : Float :=
  let size : Int := (toString digits).length + exponent
  if digits = 0 ∨ size < -400 then 0.0
  else if 400 < size then 1.0 / 0.0
  else Float.ofScientific digits (exponent < 0) exponent.natAbs

/-- The value of a text of digits. -/
def digitsValue (digits : List Char) : Nat :=
  digits.foldl (fun value c => 10 * value + (c.toNat - '0'.toNat)) 0

/-- Read an exponent after its mark: a sign and at least one digit. -/
def readExponent? (text : List Char) : Option Int :=
  let (negative, digits) :=
    match text with
    | '-' :: rest => (true, rest)
    | '+' :: rest => (false, rest)
    | _ => (false, text)
  if digits.isEmpty || !digits.all Char.isDigit then none
  else if negative then some (-(digitsValue digits : Int))
  else some (digitsValue digits)

/-- Read a decimal without a sign. -/
def readDecimal? (text : List Char) : Option Float :=
  let whole := text.takeWhile Char.isDigit
  let afterWhole := text.dropWhile Char.isDigit
  let (fraction, afterFraction) :=
    match afterWhole with
    | '.' :: rest => (rest.takeWhile Char.isDigit, rest.dropWhile Char.isDigit)
    | _ => ([], afterWhole)
  let digits := digitsValue (whole ++ fraction)
  let places : Int := fraction.length
  if whole.isEmpty && fraction.isEmpty then none
  else
    match afterFraction with
    | [] => some (scaled digits (-places))
    | mark :: rest =>
        if mark = 'e' ∨ mark = 'E' then
          (readExponent? rest).map (fun exponent => scaled digits (exponent - places))
        else none

/-- Read a number without a sign: a decimal, an infinity or none at
all. -/
def readSize? (text : List Char) : Option Float :=
  let word := lowered text
  if word = "inf" || word = "infinity" then some (1.0 / 0.0)
  else if word = "nan" then some (0.0 / 0.0)
  else readDecimal? text

/-- Read a number. -/
def readFloat? : List Char → Option Float
  | '-' :: rest => (readSize? rest).map (fun x => -x)
  | '+' :: rest => readSize? rest
  | text => readSize? text

end PixelTurtle.Text
