import Mathlib

/-!
# Saturating 64-bit arithmetic

`u64::saturating_add`, `saturating_mul` and `checked_add`, and the addition that
wraps, on the naturals that a `u64` holds; `i64::saturating_add` and
`i64::saturating_sub` as the integer result clamped into the 64-bit range, so
that a comparison against a saturated deadline becomes linear arithmetic
(`toInt_saturatingAdd`, `toInt_saturatingSub`).
-/

namespace Nat

/-- `u64::MAX`. -/
def u64Max : Nat := 2 ^ 64 - 1

/-- `u64::saturating_add`. -/
def u64SaturatingAdd (a b : Nat) : Nat :=
  min (a + b) u64Max

/-- `u64::saturating_mul`. -/
def u64SaturatingMul (a b : Nat) : Nat :=
  min (a * b) u64Max

/-- An unchecked `+` on `u64`, which wraps in a release build. -/
def u64WrappingAdd (a b : Nat) : Nat :=
  (a + b) % 2 ^ 64

/-- `u64::checked_add`. -/
def u64CheckedAdd (a b : Nat) : Option Nat :=
  if a + b ≤ u64Max then some (a + b) else none

theorem u64WrappingAdd_of_le {a b : Nat} (fits : a + b ≤ u64Max) :
    u64WrappingAdd a b = a + b :=
  Nat.mod_eq_of_lt (Nat.lt_of_le_of_lt fits (by decide))

theorem u64SaturatingAdd_le (a b : Nat) : u64SaturatingAdd a b ≤ a + b :=
  Nat.min_le_left _ _

theorem lt_u64SaturatingAdd_one {a b : Nat} (le : a ≤ b) (h : a < u64Max) :
    a < u64SaturatingAdd b 1 :=
  Nat.lt_min.mpr ⟨Nat.lt_succ_of_le le, h⟩

end Nat

namespace Int64

/-- `i64::saturating_add`. -/
def saturatingAdd (a b : Int64) : Int64 :=
  ofIntClamp (a.toInt + b.toInt)

/-- `i64::saturating_sub`. -/
def saturatingSub (a b : Int64) : Int64 :=
  ofIntClamp (a.toInt - b.toInt)

theorem toInt_ofIntClamp_eq (i : Int) :
    (ofIntClamp i).toInt = max (-2 ^ 63) (min (2 ^ 63 - 1) i) := by
  have hmin : minValue.toInt = -2 ^ 63 := rfl
  have hmax : maxValue.toInt = 2 ^ 63 - 1 := rfl
  unfold ofIntClamp
  split
  · split
    · rw [toInt_ofIntLE]
      omega
    · omega
  · omega

theorem toInt_saturatingAdd (a b : Int64) :
    (a.saturatingAdd b).toInt = max (-2 ^ 63) (min (2 ^ 63 - 1) (a.toInt + b.toInt)) :=
  toInt_ofIntClamp_eq _

theorem toInt_saturatingSub (a b : Int64) :
    (a.saturatingSub b).toInt = max (-2 ^ 63) (min (2 ^ 63 - 1) (a.toInt - b.toInt)) :=
  toInt_ofIntClamp_eq _

theorem toInt_max (a b : Int64) : (max a b).toInt = max a.toInt b.toInt := by
  show (if a ≤ b then b else a).toInt = _
  by_cases le : a ≤ b
  · rw [if_pos le, max_eq_right (Int64.le_iff_toInt_le.mp le)]
  · rw [if_neg le, max_eq_left (Int.le_of_not_le (Int64.le_iff_toInt_le.not.mp le))]

theorem max_right_comm (a b c : Int64) : max (max a b) c = max (max a c) b := by
  rw [← Int64.toInt_inj, toInt_max, toInt_max, toInt_max, toInt_max]
  omega

end Int64
