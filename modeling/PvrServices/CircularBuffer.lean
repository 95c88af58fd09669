import Mathlib.Data.Nat.ModEq
import PvrServices.Memory

set_option autoImplicit false

/-!
# Circular buffers

A memory of cells, read around the end of a buffer of `N` cells. What is stored in the cells that
are free behind a window leaves the window as it is.
-/
namespace PvrServices.CircularBuffer
open Memory
variable {α : Type} {N : ℕ} {data data' : ℕ → α} {r i m n : ℕ}

/-- The `n` cells from `r` on around a buffer of `N` cells. -/
def window (N : ℕ) (data : ℕ → α) (r n : ℕ) : List α :=
  (List.range n).map fun j => data ((r + j) % N)

@[simp] theorem window_length : (window N data r n).length = n := by simp [window]

theorem window_add (N : ℕ) (data : ℕ → α) (r m n : ℕ) :
    window N data r (m + n) = window N data r m ++ window N data (r + m) n := by
  simp [window, List.range_add, Nat.add_assoc]

theorem window_mod (N : ℕ) (data : ℕ → α) (r n : ℕ) :
    window N data (r % N) n = window N data r n := by
  simp [window]

theorem window_eq_copy (h : r + n ≤ N) : window N data r n = copy data r n := by
  apply List.map_congr_left
  intro j hj
  rw [List.mem_range] at hj
  rw [Nat.mod_eq_of_lt (by omega)]

theorem window_wrap (hr : r < N) (hn : n ≤ N) :
    window N data r n = copy data r (min n (N - r)) ++ copy data 0 (n - min n (N - r)) := by
  rcases le_or_gt n (N - r) with h | h
  · rw [Nat.min_eq_left h, window_eq_copy (by omega), Nat.sub_self]
    simp [copy]
  · have hsplit : n = (N - r) + (n - (N - r)) := by omega
    have hend : r + (N - r) = N := by omega
    rw [Nat.min_eq_right (by omega), hsplit, window_add, window_eq_copy (by omega), hend,
      ← window_mod, Nat.mod_self, window_eq_copy (by omega)]
    congr 2
    omega

theorem offset_unique {j k : ℕ} (hj : j < N) (hk : k < N) (h : (r + j) % N = (r + k) % N) :
    j = k := by
  have hmod : j % N = k % N := Nat.ModEq.add_left_cancel' r h
  rwa [Nat.mod_eq_of_lt hj, Nat.mod_eq_of_lt hk] at hmod

theorem window_apart {j k : ℕ} (hi : (r + n) % N = i) (hfit : i + m ≤ N) (hfree : n + m ≤ N)
    (hj : j < n) (hk : k < m) : (r + j) % N ≠ i + k := by
  intro h
  have hwrap : i + k = (r + (n + k)) % N := by
    rw [← Nat.add_assoc, ← Nat.mod_add_mod, hi, Nat.mod_eq_of_lt (by omega)]
  have := offset_unique (by omega) (by omega) (h.trans hwrap)
  omega

theorem window_congr (hi : (r + n) % N = i) (hfit : i + m ≤ N) (hfree : n + m ≤ N)
    (hout : ∀ j, (j < i ∨ i + m ≤ j) → data' j = data j) :
    window N data' r n = window N data r n := by
  apply List.map_congr_left
  intro j hj
  rw [List.mem_range] at hj
  apply hout
  by_contra hin
  have heq : (r + j) % N = i + ((r + j) % N - i) := by omega
  exact window_apart hi hfit hfree hj (by omega) heq

end PvrServices.CircularBuffer
