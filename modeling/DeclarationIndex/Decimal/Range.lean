import DeclarationIndex.Decimal.Read

/-!
Whether a decimal is within the range of doubles. Only the digits that fit a word count; those
left over shift the number by their places. The number and the power of ten are rounded to doubles
before they are multiplied.
-/

namespace DeclarationIndex.Decimal

/-- Appends digits to a number while it fits a word of 64 bits. Gives the number and how many
digits are left over. -/
def appendDigits (number : Nat) : List Char → Nat × Nat
  | [] => (number, 0)
  | digit :: rest =>
      let longer := 10 * number + (digit.toNat - '0'.toNat)
      if longer < UInt64.size then appendDigits longer rest else (number, rest.length + 1)

/-- The exponent of the largest power of ten that is a double. -/
def largestPower : Int := 308

def isFinite (number : Nat) (power : Int) : Bool :=
  number == 0 || power ≤ 0 ||
    (power ≤ largestPower && (Float.ofNat number * Float.ofScientific 1 false power.toNat).isFinite)

def inRange (literal : List Char) : Bool :=
  let (whole, rest) := spanDigits (literal.dropWhile (· == '-'))
  let (fraction, rest) := match rest with
    | '.' :: rest => spanDigits rest
    | rest => ([], rest)
  let (head, skipped) := appendDigits 0 whole
  let (number, ignored) := appendDigits head fraction
  let exponent := (readExponent? rest).getD 0
  isFinite number (exponent + skipped - (fraction.length - ignored))

end DeclarationIndex.Decimal
