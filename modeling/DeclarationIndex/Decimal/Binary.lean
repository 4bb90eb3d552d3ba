/-!
Binary floating-point numbers as exact values: a sign and a whole number times a power of two.
-/

namespace DeclarationIndex.Decimal

/-- The value `mantissa * 2 ^ exponent`, negated if `negative`. -/
structure Binary where
  negative : Bool
  mantissa : Nat
  exponent : Int
  deriving DecidableEq

namespace Binary

/-- The bits of a double: eleven of exponent and fifty-two of fraction under the sign. -/
def ofBits (bits : Nat) : Binary :=
  let fraction := bits % Nat.pow 2 52
  let power := bits / Nat.pow 2 52 % Nat.pow 2 11
  { negative := bits / Nat.pow 2 63 % 2 == 1
    mantissa := if power == 0 then fraction else fraction + Nat.pow 2 52
    exponent := Int.ofNat (max power 1) - 1075 }

def ofFloat (x : Float) : Binary :=
  ofBits x.toBits.toNat

def ratio (value : Binary) : Nat × Nat :=
  if value.exponent < 0 then (value.mantissa, Nat.pow 2 value.exponent.natAbs)
  else (value.mantissa * Nat.pow 2 value.exponent.natAbs, 1)

end Binary

/-- The whole number nearest to a quotient; of two equally near, the even one. -/
def roundQuotient (numerator denominator : Nat) : Nat :=
  let quotient := numerator / denominator
  let twice := 2 * (numerator % denominator)
  if twice < denominator then quotient
  else if denominator < twice then quotient + 1
  else quotient + quotient % 2

def paddedDigits (width number : Nat) : List Char :=
  let digits := Nat.toDigits 10 number
  List.replicate (width - digits.length) '0' ++ digits

def withPlaces (places units : Nat) : String :=
  let digits := paddedDigits (places + 1) units
  let whole := digits.length - places
  String.ofList (digits.take whole ++ '.' :: digits.drop whole)

end DeclarationIndex.Decimal
