import Mathlib.Algebra.Ring.Nat
import Mathlib.Data.Nat.Basic
import Mathlib.Order.Basic

/-!
# Saturating arithmetic

Sums, products and powers of unsigned integers of `w` bits that stop at the largest one.
-/

/-- The largest unsigned integer of `w` bits. -/
def maxUnsigned (w : ℕ) : ℕ := 2 ^ w - 1

/-- A sum that stops there. -/
def satAdd (w a b : ℕ) : ℕ := min (a + b) (maxUnsigned w)

def satMul (w a b : ℕ) : ℕ := min (a * b) (maxUnsigned w)

def satPow (w a n : ℕ) : ℕ := min (a ^ n) (maxUnsigned w)

variable {w a b c : ℕ}

theorem satAdd_le_max : satAdd w a b ≤ maxUnsigned w := Nat.min_le_right _ _

/-- Stopping only makes a sum smaller. -/
theorem satAdd_le_add : satAdd w a b ≤ a + b := Nat.min_le_left _ _

/-- A sum grows as long as it has not stopped. -/
theorem lt_satAdd (ha : a < maxUnsigned w) (hb : 0 < b) : a < satAdd w a b := by
  rw [satAdd]
  omega

theorem le_satAdd (ha : a ≤ maxUnsigned w) : a ≤ satAdd w a b := by
  rw [satAdd]
  omega
