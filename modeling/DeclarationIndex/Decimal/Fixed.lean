import DeclarationIndex.Decimal.Binary

/-! A number with a fixed count of decimal places, correctly rounded, a half to the even digit. -/

namespace DeclarationIndex.Decimal

def fixed (places : Nat) (x : Float) : String :=
  let value := Binary.ofFloat x
  let ratio := value.ratio
  (if value.negative then "-" else "") ++
    withPlaces places (roundQuotient (ratio.1 * Nat.pow 10 places) ratio.2)

end DeclarationIndex.Decimal
