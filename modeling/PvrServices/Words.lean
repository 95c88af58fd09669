import Mathlib.Tactic.Common

set_option autoImplicit false

/-! Unsigned 32-bit words as natural numbers, every wrap written out. -/
namespace PvrServices.Words

@[irreducible] def u32 (n : ℕ) : ℕ := n % 4294967296

@[irreducible] def u32Sub (a b : ℕ) : ℕ := if b ≤ a then a - b else 4294967296 - (b - a)

theorem u32_eq_mod (n : ℕ) : u32 n = n % 4294967296 := by unfold u32; rfl

theorem u32_lt (n : ℕ) : u32 n < 4294967296 := by unfold u32; omega

theorem u32_of_lt {n : ℕ} (h : n < 4294967296) : u32 n = n := by unfold u32; omega

theorem u32_le (n : ℕ) : u32 n ≤ n := by unfold u32; omega

theorem u32Sub_of_le {a b : ℕ} (h : b ≤ a) : u32Sub a b = a - b := by
  unfold u32Sub
  exact if_pos h

theorem u32Sub_eq_mod {a b : ℕ} (ha : a < 4294967296) (hb : b < 4294967296) :
    u32Sub a b = (a + 4294967296 - b) % 4294967296 := by
  unfold u32Sub
  split <;> omega

theorem u32Sub_zero_one : u32Sub 0 1 = 4294967295 := by unfold u32Sub; rfl

def roundUpToMultiple (a b : ℕ) : ℕ := u32 (u32 (a + b - 1) / b * b)

end PvrServices.Words
