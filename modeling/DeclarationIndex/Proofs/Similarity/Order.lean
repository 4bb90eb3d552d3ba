import Mathlib

/-!
Where floating-point numbers stand in a linear order. They compare as their ranks do, zeros of both
signs have one rank, and what is not a number stands at the bottom and compares with nothing.
-/

namespace DeclarationIndex

open Float.Model (UnpackedFloat)

/-- A place in the order of the kinds of number and, within a kind, of exponents and mantissas. -/
def rankAt (kind exponent mantissa : ℤ) : WithBot (ℤ ×ₗ ℤ ×ₗ ℤ) :=
  (toLex (kind, toLex (exponent, mantissa)) : ℤ ×ₗ ℤ ×ₗ ℤ)

def unpackedRank : UnpackedFloat → WithBot (ℤ ×ₗ ℤ ×ₗ ℤ)
  | .notANumber => ⊥
  | .infinity .negative => rankAt (-2) 0 0
  | .finite .negative mantissa exponent _ => rankAt (-1) (-exponent) (-mantissa)
  | .zero _ => rankAt 0 0 0
  | .finite .positive mantissa exponent _ => rankAt 1 exponent mantissa
  | .infinity .positive => rankAt 2 0 0

def floatRank (number : Float) : WithBot (ℤ ×ₗ ℤ ×ₗ ℤ) :=
  unpackedRank number.toModel.unpack

theorem rankAt_ne_bot (kind exponent mantissa : ℤ) : rankAt kind exponent mantissa ≠ ⊥ :=
  WithBot.coe_ne_bot

theorem rankAt_le_iff (kind exponent mantissa kind' exponent' mantissa' : ℤ) :
    rankAt kind exponent mantissa ≤ rankAt kind' exponent' mantissa' ↔
      kind < kind' ∨ kind = kind' ∧
        (exponent < exponent' ∨ exponent = exponent' ∧ mantissa ≤ mantissa') := by
  rw [rankAt, rankAt, WithBot.coe_le_coe, Prod.Lex.toLex_le_toLex, Prod.Lex.toLex_le_toLex]

theorem isLE_then_compare_iff (first second : Int) (low high : Nat) :
    ((compare first second).then (compare low high)).isLE = true ↔
      first < second ∨ first = second ∧ low ≤ high := by
  rw [Ordering.isLE_then_iff_or, Int.compare_eq_lt, Int.compare_eq_eq, Nat.isLE_compare]

theorem isGE_then_compare_iff (first second : Int) (low high : Nat) :
    ((compare first second).then (compare low high)).isGE = true ↔
      second < first ∨ first = second ∧ high ≤ low := by
  rw [← Ordering.isLE_swap, Ordering.swap_then, Int.compare_swap, Nat.compare_swap,
    isLE_then_compare_iff, eq_comm]

theorem floatRank_eq_bot_iff (number : Float) : floatRank number = ⊥ ↔ number.isNaN = true := by
  change unpackedRank number.toModel.unpack = ⊥ ↔ number.toModel.unpack.isNaN = true
  rcases number.toModel.unpack with (_ | _) | _ | _ | ⟨_ | _, _, _, _⟩ <;>
    simp [UnpackedFloat.isNaN, unpackedRank, rankAt_ne_bot]

theorem unpacked_le_iff (first second : UnpackedFloat) :
    first.le second = true ↔
      unpackedRank first ≠ ⊥ ∧ unpackedRank first ≤ unpackedRank second := by
  rcases first with (_ | _) | _ | _ | ⟨_ | _, _, _, _⟩ <;>
    rcases second with (_ | _) | _ | _ | ⟨_ | _, _, _, _⟩ <;>
      simp [UnpackedFloat.le, UnpackedFloat.compare, unpackedRank, rankAt_ne_bot, rankAt_le_iff,
        isLE_then_compare_iff, isGE_then_compare_iff]
  -- Infinities are left, which compare by their signs alone.
  all_goals rfl

theorem float_le_iff (first second : Float) :
    first ≤ second ↔ floatRank first ≠ ⊥ ∧ floatRank first ≤ floatRank second := by
  have unpacked := unpacked_le_iff first.toModel.unpack second.toModel.unpack
  exact decide_eq_true_iff.trans unpacked

end DeclarationIndex
