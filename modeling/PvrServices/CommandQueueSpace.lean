import Mathlib.Data.Nat.Size
import Mathlib.Order.Bounds.Basic
import PvrServices.CommandQueueLayout

set_option autoImplicit false

/-!
# The arithmetic of command queues

The size of a queue is a power of two, so that the masked words count modulo it.
-/
namespace PvrServices.Queues
open Words
variable {q : QueueInfo} {j k m n : ℕ}

/-- Each turn doubles the result and halves the rest, of which `m` bits are left. -/
theorem nearestPower2Loop_eq {fuel temp : ℕ} (hf : m ≤ fuel) (ht : temp < 2 ^ m)
    (hlow : m ≠ 0 → 2 ^ (m - 1) ≤ temp) (hm : j + m ≤ 31) :
    nearestPower2Loop fuel (2 ^ j) temp = 2 ^ (j + m) := by
  induction m generalizing fuel j temp with
  | zero =>
    have h0 : temp = 0 := by omega
    cases fuel with
    | zero => rfl
    | succ fuel =>
      unfold nearestPower2Loop
      rw [if_pos h0, Nat.add_zero]
  | succ m ih =>
    obtain ⟨fuel, rfl⟩ : ∃ f, fuel = f + 1 := ⟨fuel - 1, by omega⟩
    have hpos : 2 ^ m ≤ temp := hlow (by omega)
    have h0 : temp ≠ 0 := by
      have := Nat.two_pow_pos m
      omega
    have hdouble : u32 (2 ^ j <<< 1) = 2 ^ (j + 1) := by
      have hlt : 2 ^ (j + 1) < 2 ^ 32 := Nat.pow_lt_pow_right (by decide) (by omega)
      rw [Nat.shiftLeft_eq, ← Nat.pow_add, u32_of_lt hlt]
    have hhalf : temp >>> 1 < 2 ^ m := by
      rw [Nat.shiftRight_one]
      omega
    have hrest : m ≠ 0 → 2 ^ (m - 1) ≤ temp >>> 1 := by
      intro hm0
      obtain ⟨i, rfl⟩ : ∃ i, m = i + 1 := ⟨m - 1, by omega⟩
      rw [Nat.shiftRight_one, Nat.add_sub_cancel]
      omega
    unfold nearestPower2Loop
    rw [if_neg h0, hdouble, ih (by omega) hhalf hrest (by omega), Nat.add_assoc,
      Nat.add_comm 1 m]

theorem turns_of (h : 1 ≤ n) (hn : n ≤ 2147483648) : ∃ m, m ≤ 31 ∧ n - 1 < 2 ^ m ∧
    (m ≠ 0 → 2 ^ (m - 1) ≤ n - 1) := by
  refine ⟨(n - 1).size, Nat.size_le.mpr (by omega), Nat.lt_size_self _, fun h0 => ?_⟩
  exact Nat.lt_size.mp (by omega)

theorem nearestPower2_turns (h : 1 ≤ n) {fuel : ℕ} (hf : m ≤ fuel) (hm : m ≤ 31)
    (ht : n - 1 < 2 ^ m) (hlow : m ≠ 0 → 2 ^ (m - 1) ≤ n - 1) :
    nearestPower2Loop fuel 1 (n - 1) = 2 ^ m ∧ nearestPower2 n = 2 ^ m := by
  have hloop : ∀ f, m ≤ f → nearestPower2Loop f (2 ^ 0) (n - 1) = 2 ^ (0 + m) := fun f hf =>
    nearestPower2Loop_eq hf ht hlow (by omega)
  rw [Nat.zero_add] at hloop
  refine ⟨hloop fuel hf, ?_⟩
  unfold nearestPower2
  rw [if_neg (by omega)]
  exact hloop 32 (by omega)

theorem nearestPower2_eq (h : 1 ≤ n) (hn : n ≤ 2147483648) :
    ∃ k, k ≤ 31 ∧ nearestPower2 n = 2 ^ k := by
  obtain ⟨m, hm, ht, hlow⟩ := turns_of h hn
  exact ⟨m, hm, (nearestPower2_turns h le_rfl hm ht hlow).2⟩

theorem isLeast_power (h : 1 ≤ n) (ht : n - 1 < 2 ^ m) (hlow : m ≠ 0 → 2 ^ (m - 1) ≤ n - 1) :
    IsLeast {p | (∃ k, p = 2 ^ k) ∧ n ≤ p} (2 ^ m) := by
  refine ⟨⟨⟨m, rfl⟩, by omega⟩, ?_⟩
  rintro p ⟨⟨k, rfl⟩, hp⟩
  apply Nat.pow_le_pow_right (by decide)
  by_contra hlt
  have hstep : 2 ^ k ≤ 2 ^ (m - 1) := Nat.pow_le_pow_right (by decide) (by omega)
  have := hlow (by omega)
  omega

theorem and_queueSize (hk : k ≤ 31) (n : ℕ) : u32 n &&& u32Sub (2 ^ k) 1 = n % 2 ^ k := by
  have hdvd : 2 ^ k ∣ 2 ^ 32 := Nat.pow_dvd_pow 2 (by omega)
  rw [u32Sub_of_le Nat.one_le_two_pow, Nat.and_two_pow_sub_one_eq_mod, u32_eq_mod]
  exact Nat.mod_mod_of_dvd n hdvd

def QueueInfo.unread (q : QueueInfo) : ℕ :=
  (q.writeOffset + q.queueSize - q.readOffset) % q.queueSize

structure QueueInfo.Sized (q : QueueInfo) : Prop where
  size : ∃ k, k ≤ 31 ∧ q.queueSize = 2 ^ k
  read_lt : q.readOffset < q.queueSize
  write_lt : q.writeOffset < q.queueSize

theorem QueueInfo.Sized.mask (v : q.Sized) (n : ℕ) :
    u32 n &&& u32Sub q.queueSize 1 = n % q.queueSize := by
  obtain ⟨k, hk, he⟩ := v.size
  rw [he, and_queueSize hk]

theorem QueueInfo.Sized.le (v : q.Sized) : q.queueSize ≤ 2147483648 := by
  obtain ⟨k, hk, he⟩ := v.size
  rw [he]
  exact Nat.pow_le_pow_right (by decide) hk

theorem QueueInfo.Sized.unread_eq (v : q.Sized) : q.unread =
    if q.readOffset ≤ q.writeOffset then q.writeOffset - q.readOffset
    else q.writeOffset + q.queueSize - q.readOffset := by
  have hr := v.read_lt
  have hw := v.write_lt
  unfold QueueInfo.unread
  split
  · rw [Nat.sub_add_comm ‹_›, Nat.add_mod_right, Nat.mod_eq_of_lt (by omega)]
  · exact Nat.mod_eq_of_lt (by omega)

theorem QueueInfo.Sized.space (v : q.Sized) : getSpaceInCmdq q = q.queueSize - 1 - q.unread := by
  have hle := v.le
  have hr := v.read_lt
  have hw := v.write_lt
  have hu := v.unread_eq
  have hbig : 4294967296 % q.queueSize = 0 := by
    obtain ⟨k, hk, he⟩ := v.size
    rw [he]
    exact Nat.mod_eq_zero_of_dvd (Nat.pow_dvd_pow 2 (show k ≤ 32 by omega))
  unfold getSpaceInCmdq
  rw [u32Sub_eq_mod (by omega) (by omega), v.mask, u32Sub_of_le (by omega)]
  have hcases : (q.readOffset + 4294967296 - q.writeOffset) % 4294967296 + (q.queueSize - 1) =
        q.queueSize - 1 - q.unread + q.queueSize ∨
      (q.readOffset + 4294967296 - q.writeOffset) % 4294967296 + (q.queueSize - 1) =
        q.queueSize - 1 - q.unread ∨
      (q.readOffset + 4294967296 - q.writeOffset) % 4294967296 + (q.queueSize - 1) =
        q.queueSize - 1 - q.unread + 4294967296 := by
    split at hu <;> omega
  rcases hcases with h | h | h
  · rw [h, Nat.add_mod_right, Nat.mod_eq_of_lt (by omega)]
  · rw [h, Nat.mod_eq_of_lt (by omega)]
  · rw [h, Nat.add_mod, hbig, Nat.add_zero, Nat.mod_mod, Nat.mod_eq_of_lt (by omega)]

theorem QueueInfo.Sized.space_emod (v : q.Sized) :
    (getSpaceInCmdq q : ℤ) = ((q.readOffset : ℤ) - q.writeOffset - 1) % q.queueSize := by
  have hr := v.read_lt
  have hw := v.write_lt
  have hu := v.unread_eq
  rw [v.space]
  split at hu
  · rw [← Int.add_emod_right, Int.emod_eq_of_lt (by omega) (by omega)]
    omega
  · rw [Int.emod_eq_of_lt (by omega) (by omega)]
    omega

theorem createCommandQueue_queue {os : Os} {mem : ℕ → UInt8}
    (h : (createCommandQueue os mem n).1 = .ok q) : q = ⟨mem, 0, 0, nearestPower2 n⟩ := by
  unfold createCommandQueue at h
  dsimp only at h
  split at h
  · cases h
  · split at h
    · cases h
    · exact (Except.ok.inj h).symm

theorem QueueInfo.Sized.updateWoff (v : q.Sized) (n : ℕ) :
    updateQueueWoff q n = { q with writeOffset := (q.writeOffset + n) % q.queueSize } := by
  unfold updateQueueWoff
  rw [v.mask]

theorem QueueInfo.Sized.updateRoff (v : q.Sized) (n : ℕ) :
    updateQueueRoff q n = { q with readOffset := (q.readOffset + n) % q.queueSize } := by
  unfold updateQueueRoff
  rw [v.mask]

theorem command_queue_arithmetic (h : 1 ≤ n) (hn : n ≤ 2147483648) :
    (∃ turns, (n - 1) >>> turns = 0 ∧
      ∀ fuel, turns ≤ fuel → nearestPower2Loop fuel 1 (n - 1) = nearestPower2 n) ∧
    IsLeast {p | (∃ k, p = 2 ^ k) ∧ n ≤ p} (nearestPower2 n) ∧
    (∀ os mem q, (createCommandQueue os mem n).1 = .ok q →
      q.queueSize = nearestPower2 n ∧ q.readOffset = 0 ∧ q.writeOffset = 0) ∧
    ∀ q : QueueInfo, q.queueSize = nearestPower2 n → q.readOffset < q.queueSize →
      q.writeOffset < q.queueSize →
      (getSpaceInCmdq q : ℤ) = ((q.readOffset : ℤ) - q.writeOffset - 1) % q.queueSize ∧
      getSpaceInCmdq q = q.queueSize - 1 - q.unread ∧
      ∀ size, size < 4294967296 →
        updateQueueWoff q size = { q with writeOffset := (q.writeOffset + size) % q.queueSize } ∧
        updateQueueRoff q size = { q with readOffset := (q.readOffset + size) % q.queueSize } := by
  obtain ⟨m, hm, ht, hlow⟩ := turns_of h hn
  have heq : nearestPower2 n = 2 ^ m := (nearestPower2_turns h le_rfl hm ht hlow).2
  refine ⟨⟨m, ?_, fun fuel hf => ?_⟩, ?_, fun os mem q hq => ?_, fun q hq hr hw => ?_⟩
  · rw [Nat.shiftRight_eq_div_pow]
    exact Nat.div_eq_of_lt ht
  · rw [heq]
    exact (nearestPower2_turns h hf hm ht hlow).1
  · rw [heq]
    exact isLeast_power h ht hlow
  · rw [createCommandQueue_queue hq]
    exact ⟨rfl, rfl, rfl⟩
  · have v : q.Sized := ⟨⟨m, hm, hq.trans heq⟩, hr, hw⟩
    exact ⟨v.space_emod, v.space, fun size _ => ⟨v.updateWoff size, v.updateRoff size⟩⟩

/-- A queue of 1000 bytes gets 1024, and a full turn of the write offset ends where it began. -/
theorem command_queue_arithmetic_thousand : nearestPower2 1000 = 1024 ∧
    getSpaceInCmdq ⟨fun _ => 0, 8, 24, 1024⟩ = 1007 := by
  obtain ⟨-, -, -, hall⟩ := command_queue_arithmetic (n := 1000) (by decide) (by decide)
  have hsize : nearestPower2 1000 = 1024 := by decide +kernel
  have hspace := (hall ⟨fun _ => 0, 8, 24, 1024⟩ hsize.symm (by decide) (by decide)).2.1
  exact ⟨hsize, by simpa only [QueueInfo.unread] using hspace⟩

end PvrServices.Queues
