import Mathlib.Order.Bounds.Basic
import PvrServices.LfbDevice

set_option autoImplicit false

/-!
# The size of a display buffer

`omaplfb_displayclass.c`: a buffer is aligned to the pages of the SGX and to the lines of the screen.
`roundup` is the macro of the kernel.
-/
namespace PvrServices.Lfb
open Words
variable {roundup : ℕ → ℕ → ℕ} {a b stride size fuel : ℕ}

def gcdLoop : ℕ → ℕ → ℕ → Option ℕ
  | 0, _, _ => none
  | fuel + 1, a, b =>
    if b = 0 then none
    else if a % b = 0 then some b
    else gcdLoop fuel b (a % b)

def gcd (fuel a b : ℕ) : Option ℕ := if a < b then gcdLoop fuel b a else gcdLoop fuel a b

def sgxBufferAlignBy (roundup : ℕ → ℕ → ℕ) (fuel stride size : ℕ) : Option ℕ :=
  if stride = 0 ∨ size = 0 then some 0
  else (gcd fuel stride 4096).map fun g => roundup size (u32 (stride * 4096) / g)

/-- What `roundup(x, y)` computes on unsigned words: `((x + (y - 1)) / y) * y`. -/
def KernelRoundup (roundup : ℕ → ℕ → ℕ) : Prop :=
  ∀ x y, 0 < y → roundup x y = u32 (u32 (x + u32Sub y 1) / y * y)

theorem gcdLoop_eq (hb : 0 < b) (hf : b ≤ fuel) : gcdLoop fuel a b = some (Nat.gcd a b) := by
  induction fuel generalizing a b with
  | zero => omega
  | succ fuel ih =>
    unfold gcdLoop
    rw [if_neg (by omega)]
    split
    · next h => rw [Nat.gcd_eq_right (Nat.dvd_of_mod_eq_zero h)]
    · next h =>
      have hlt : a % b < b := Nat.mod_lt a hb
      rw [ih (by omega) (by omega), Nat.gcd_comm b, ← Nat.gcd_rec, Nat.gcd_comm]

theorem gcd_eq (ha : 0 < a) (hb : 0 < b) (hf : min a b ≤ fuel) :
    gcd fuel a b = some (Nat.gcd a b) := by
  unfold gcd
  split
  · rw [gcdLoop_eq ha (by omega), Nat.gcd_comm]
  · exact gcdLoop_eq hb (by omega)

theorem isLeast_multiple {l : ℕ} (hl : 0 < l) (n : ℕ) :
    IsLeast {m | l ∣ m ∧ n ≤ m} ((n + (l - 1)) / l * l) := by
  have hmod := Nat.div_add_mod (n + (l - 1)) l
  have hlt := Nat.mod_lt (n + (l - 1)) hl
  rw [Nat.mul_comm] at hmod
  refine ⟨⟨Nat.dvd_mul_left .., by omega⟩, ?_⟩
  rintro m ⟨⟨k, rfl⟩, hm⟩
  rw [Nat.mul_comm l k] at hm ⊢
  have hk : (n + (l - 1)) / l < k + 1 := by
    rw [Nat.div_lt_iff_lt_mul hl, Nat.succ_mul]
    omega
  exact Nat.mul_le_mul_right l (by omega)

theorem isLeast_lcm (h : 0 < stride) (n : ℕ) :
    IsLeast {m | stride ∣ m ∧ 4096 ∣ m ∧ n ≤ m}
      ((n + (stride.lcm 4096 - 1)) / stride.lcm 4096 * stride.lcm 4096) := by
  have hset : {m | stride ∣ m ∧ 4096 ∣ m ∧ n ≤ m} = {m | stride.lcm 4096 ∣ m ∧ n ≤ m} := by
    ext m
    simp only [Set.mem_ofPred_eq, Nat.lcm_dvd_iff, and_assoc]
  rw [hset]
  exact isLeast_multiple (Nat.lcm_pos h (by decide)) n

theorem lcm_lt (h : 0 < stride) (hs : stride < 1048576) : stride.lcm 4096 < 4294967296 :=
  (Nat.le_of_dvd (by omega) (Nat.lcm_dvd_mul stride 4096)).trans_lt (by omega)

theorem sgxBufferAlignBy_eq (hr : KernelRoundup roundup) (h : 0 < stride) (hs : stride < 1048576)
    (hsize : 0 < size) (hf : 4096 ≤ fuel) : sgxBufferAlignBy roundup fuel stride size =
      some (u32 (u32 (size + (stride.lcm 4096 - 1)) / stride.lcm 4096 * stride.lcm 4096)) := by
  have hpos : 0 < stride.lcm 4096 := Nat.lcm_pos h (by decide)
  unfold sgxBufferAlignBy
  rw [if_neg (by omega), gcd_eq h (by decide) (by omega), Option.map_some,
    u32_of_lt (show stride * 4096 < 4294967296 by omega)]
  change some (roundup size (stride.lcm 4096)) = _
  rw [hr size _ hpos, u32Sub_of_le hpos]

/-- The rest of the development takes the turns of the loop for granted. -/
theorem sgxBufferAlignBy_model (hr : KernelRoundup roundup) (h : 0 < stride)
    (hs : stride < 1048576) (hsize : 0 < size) (hf : 4096 ≤ fuel) :
    sgxBufferAlignBy roundup fuel stride size = some (sgxBufferAlign stride size) := by
  rw [sgxBufferAlignBy_eq hr h hs hsize hf]
  unfold sgxBufferAlign
  rw [if_neg (by omega), u32_of_lt (show stride * 4096 < 4294967296 by omega)]
  rfl

theorem round_short {l : ℕ} (hl : l < 4294967296) (hsize : size < 4294967296)
    (h : 4294967296 ≤ size + (l - 1)) : u32 (u32 (size + (l - 1)) / l * l) < size :=
  calc
    u32 (u32 (size + (l - 1)) / l * l) ≤ u32 (size + (l - 1)) / l * l := u32_le _
    _ ≤ u32 (size + (l - 1)) := Nat.div_mul_le_self ..
    _ < size := by
      rw [u32_eq_mod]
      omega

/-- What is expected of a stride and a size: `gcd` ends with the greatest common divisor, the size
    is rounded to the least common multiple, and no sum and no product of the words wraps. -/
structure Aligned (roundup : ℕ → ℕ → ℕ) (stride size : ℕ) : Prop where
  gcd : ∀ a b, 0 < a → 0 < b → ∃ turns, ∀ fuel, turns ≤ fuel → gcd fuel a b = some (Nat.gcd a b)
  least : ∃ n turns, (∀ fuel, turns ≤ fuel → sgxBufferAlignBy roundup fuel stride size = some n) ∧
    IsLeast {m | stride ∣ m ∧ 4096 ∣ m ∧ size ≤ m} n
  product : stride * 4096 < 4294967296
  sum : size + (stride.lcm 4096 - 1) < 4294967296
  rounded : (size + (stride.lcm 4096 - 1)) / stride.lcm 4096 * stride.lcm 4096 < 4294967296

theorem not_least_of_wrap (hr : KernelRoundup roundup) (h : 0 < stride) (hs : stride < 1048576)
    (hsize : 0 < size) (hlt : size < 4294967296)
    (hwrap : 4294967296 ≤ size + (stride.lcm 4096 - 1)) {n turns : ℕ}
    (hn : ∀ fuel, turns ≤ fuel → sgxBufferAlignBy roundup fuel stride size = some n) :
    n < size := by
  have hres := hn (max turns 4096) (by omega)
  rw [sgxBufferAlignBy_eq hr h hs hsize (by omega)] at hres
  rw [← Option.some.inj hres]
  exact round_short (lcm_lt h hs) hlt hwrap

theorem sgx_buffer_align_iff (hr : KernelRoundup roundup) (h : 1 ≤ stride)
    (hs : stride ≤ 1048575) (hsize : 1 ≤ size) (hlt : size ≤ 4294967295)
    (_hround : ∃ m, m ≤ 4294967295 ∧ stride ∣ m ∧ 4096 ∣ m ∧ size ≤ m) :
    Aligned roundup stride size ↔ size + (stride.lcm 4096 - 1) ≤ 4294967295 := by
  constructor
  · intro hal
    by_contra hwrap
    obtain ⟨n, turns, hn, hleast⟩ := hal.least
    have hshort := not_least_of_wrap hr h (by omega) hsize (by omega) (by omega) hn
    exact absurd hleast.1.2.2 (by omega)
  · intro hsum
    have hdiv := Nat.div_mul_le_self (size + (stride.lcm 4096 - 1)) (stride.lcm 4096)
    have hres : ∀ fuel, 4096 ≤ fuel → sgxBufferAlignBy roundup fuel stride size =
        some ((size + (stride.lcm 4096 - 1)) / stride.lcm 4096 * stride.lcm 4096) := by
      intro fuel hf
      rw [sgxBufferAlignBy_eq hr h (by omega) hsize hf, u32_of_lt (n := size + _) (by omega),
        u32_of_lt (by omega)]
    exact
      { gcd := fun a b ha hb => ⟨min a b, fun fuel hf => gcd_eq ha hb hf⟩
        least := ⟨_, 4096, hres, isLeast_lcm h size⟩
        product := by omega
        sum := by omega
        rounded := by omega }

def roundupMacro (x y : ℕ) : ℕ := u32 (u32 (x + u32Sub y 1) / y * y)

theorem sgx_buffer_align_screen : Aligned roundupMacro 5464 4196352 :=
  (sgx_buffer_align_iff (fun _ _ _ => rfl) (by decide) (by decide) (by decide) (by decide)
    ⟨5595136, by decide, by decide, by decide, by decide⟩).mpr (by decide +kernel)

/-- Two lines of 1048575 bytes fit into 4294963200, and the result is 0. -/
theorem sgx_buffer_align_wraps : ¬ ∀ roundup, KernelRoundup roundup →
    ∀ stride size, 1 ≤ stride → stride ≤ 1048575 → 1 ≤ size → size ≤ 4294967295 →
      (∃ m, m ≤ 4294967295 ∧ stride ∣ m ∧ 4096 ∣ m ∧ size ≤ m) →
      Aligned roundup stride size := by
  intro hall
  have hal := hall roundupMacro (fun _ _ _ => rfl) 1048575 2097150 (by decide) (by decide)
    (by decide) (by decide) ⟨4294963200, by decide, by decide, by decide, by decide⟩
  obtain ⟨n, turns, hn, hleast⟩ := hal.least
  have hshort := not_least_of_wrap (fun _ _ _ => rfl) (by decide) (by decide) (by decide)
    (by decide) (by decide +kernel) hn
  exact absurd hleast.1.2.2 (by omega)

end PvrServices.Lfb
