import DeclarationIndex.Decimal.Binary

/-!
The shortest decimal that reads back as the same double, always with a fraction. A score is zero
or lies between a sixth and one, so the positional form is the only one needed.
-/

namespace DeclarationIndex.Decimal

/-- Whether the decimal `units / 10 ^ places` reads back as the value: it lies at most half a step
from it, and the ends count when the mantissa is even. Below a power of two the step is half as
wide. -/
def readsBack (value : Binary) (places units : Nat) : Bool :=
  let quarter : Binary := { value with mantissa := 1, exponent := value.exponent - 2 }
  let (unit, denominator) := quarter.ratio
  let scaled := units * denominator
  let middle := 4 * value.mantissa * unit * Nat.pow 10 places
  let above := 2 * unit * Nat.pow 10 places
  let narrow := value.mantissa == Nat.pow 2 52 && value.exponent != -1074
  let below := (if narrow then 1 else 2) * unit * Nat.pow 10 places
  if value.mantissa % 2 == 0 then
    middle ≤ scaled + below && scaled ≤ middle + above
  else
    middle < scaled + below && scaled < middle + above

def atPlaces? (value : Binary) (places : Nat) : Option Nat :=
  let ratio := value.ratio
  let scaled := ratio.1 * Nat.pow 10 places
  let below := scaled / ratio.2
  [roundQuotient scaled ratio.2, below, below + 1].find? (readsBack value places)

def shortestFrom (value : Binary) : Nat → Nat → String
  | 0, places =>
      let ratio := value.ratio
      withPlaces places (roundQuotient (ratio.1 * Nat.pow 10 places) ratio.2)
  | left + 1, places =>
      match atPlaces? value places with
      | some units => withPlaces places units
      | none => shortestFrom value left (places + 1)

/-- A double below ten needs no more places than the smallest positive one has before and among
its seventeen digits. -/
def mostPlaces : Nat := 342

def shortest (x : Float) : String :=
  let value := Binary.ofFloat x
  (if value.negative then "-" else "") ++ shortestFrom value mostPlaces 1

end DeclarationIndex.Decimal
