import ThreeAddress.Token

/-!
# Values of number literals

The exact value of a literal decides whether it is accepted.  A literal without a point is read as a whole number,
which has to fit in 32 bits.  A literal with a point is read as a decimal number, which has to round to a finite
double-precision value.  A text that cannot be read, or a whole number beyond 64 bits, is invalid.
-/

namespace ThreeAddress

/-- The number written by a list of decimal digits. -/
def digitsValue (digits : List Char) : Nat := digits.foldl (fun n c => 10 * n + (c.toNat - '0'.toNat)) 0

/-- A sign taken off the front of a text: whether it is a minus sign, and the text behind it. -/
def splitSign : List Char → Bool × List Char
  | '-' :: text => (true, text)
  | '+' :: text => (false, text)
  | text => (false, text)

/-- The value of a whole number: digits behind an optional sign. -/
def wholeNumber? (text : List Char) : Option Int :=
  let (negative, digits) := splitSign text
  if digits.isEmpty || !digits.all Char.isDigit then none
  else some (if negative then -(digitsValue digits : Int) else digitsValue digits)

/-- Whether a value fits in the two's complement range of `width` bits. -/
def fitsIn (width : Nat) (value : Int) : Bool :=
  let bound := Int.ofNat (Nat.pow 2 (width - 1))
  decide (-bound ≤ value) && decide (value < bound)

/-- A decimal number taken apart: the value is `± digits * 10 ^ exponent`. -/
structure Decimal where
  negative : Bool
  digits : Nat
  exponent : Int
deriving DecidableEq, Repr

/-- The digits behind a point at the front of a text, and the text behind them. -/
def splitFraction : List Char → List Char × List Char
  | '.' :: text => (text.takeWhile Char.isDigit, text.dropWhile Char.isDigit)
  | text => ([], text)

/-- The value of an exponent.  It is zero if there is no text. -/
def exponent? : List Char → Option Int
  | [] => some 0
  | c :: text => if c = 'e' || c = 'E' then wholeNumber? text else none

/-- Reads a decimal number: an optional sign, digits with or without a point, at least one of them on one of its
sides, and an optional exponent. -/
def Decimal.ofText? (text : List Char) : Option Decimal :=
  let (negative, unsigned) := splitSign text
  let whole := unsigned.takeWhile Char.isDigit
  let (fraction, rest) := splitFraction (unsigned.dropWhile Char.isDigit)
  if whole.isEmpty && fraction.isEmpty then none
  else (exponent? rest).map fun e => ⟨negative, digitsValue (whole ++ fraction), e - fraction.length⟩

/-- The least magnitude that rounds to infinity: half a unit in the last place above the largest finite
double-precision value. -/
def doubleLimit : Nat := Nat.pow 2 1024 - Nat.pow 2 970

/-- Whether a decimal number rounds to infinity.  A negative exponent is moved to the other side. -/
def Decimal.isInfinite (d : Decimal) : Bool :=
  decide (doubleLimit * Nat.pow 10 (-d.exponent).toNat ≤ d.digits * Nat.pow 10 d.exponent.toNat)

/-- The error of a number literal, if it has one. -/
def numeralError? (text : List Char) : Option LexError :=
  if text.contains '.' then
    match Decimal.ofText? text with
    | some d => if d.isInfinite then some (.floatOverflow (.ofList text)) else none
    | none => some (.invalidFloat (.ofList text))
  else
    match (wholeNumber? text).filter (fitsIn 64) with
    | some value => if fitsIn 32 value then none else some (.integerOverflow (.ofList text))
    | none => some (.invalidInteger (.ofList text))

end ThreeAddress
