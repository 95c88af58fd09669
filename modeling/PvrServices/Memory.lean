import Mathlib.Algebra.Ring.Nat
import Mathlib.Data.List.GetD
import Mathlib.Tactic.Common

set_option autoImplicit false

/-!
# Memory

A memory of cells, of which stretches are read and stored, and little-endian fields in a memory
of bytes.
-/
namespace PvrServices.Memory
variable {α : Type} {data data' : ℕ → α} {i m n : ℕ} {bs : List α}

def copy (data : ℕ → α) (i n : ℕ) : List α := (List.range n).map fun j => data (i + j)

def store (data : ℕ → α) (i : ℕ) (bs : List α) : ℕ → α :=
  fun j => if i ≤ j then bs.getD (j - i) (data j) else data j

@[simp] theorem copy_length : (copy data i n).length = n := by simp [copy]

theorem copy_add (data : ℕ → α) (i m n : ℕ) :
    copy data i (m + n) = copy data i m ++ copy data (i + m) n := by
  simp [copy, List.range_add, Nat.add_assoc]

theorem copy_take (data : ℕ → α) (i : ℕ) (h : m ≤ n) : (copy data i n).take m = copy data i m := by
  obtain ⟨k, rfl⟩ := Nat.exists_eq_add_of_le h
  rw [copy_add, List.take_left' copy_length]

theorem copy_drop (data : ℕ → α) (i : ℕ) (h : m ≤ n) :
    (copy data i n).drop m = copy data (i + m) (n - m) := by
  obtain ⟨k, rfl⟩ := Nat.exists_eq_add_of_le h
  rw [copy_add, List.drop_left' copy_length, Nat.add_sub_cancel_left]

theorem copy_congr (h : ∀ j, i ≤ j → j < i + n → data' j = data j) :
    copy data' i n = copy data i n := by
  apply List.map_congr_left
  intro j hj
  rw [List.mem_range] at hj
  exact h _ (by omega) (by omega)

theorem store_out {j : ℕ} (h : j < i ∨ i + bs.length ≤ j) : store data i bs j = data j := by
  unfold store
  split
  · rw [List.getD_eq_default _ _ (by omega)]
  · rfl

theorem store_in {k : ℕ} (h : k < bs.length) : store data i bs (i + k) = bs[k] := by
  unfold store
  rw [if_pos (by omega), Nat.add_sub_cancel_left, List.getD_eq_getElem _ _ h]

theorem copy_store (data : ℕ → α) (i : ℕ) (bs : List α) :
    copy (store data i bs) i bs.length = bs := by
  apply List.ext_getElem (by simp)
  intro k h _
  rw [copy_length] at h
  simp [copy, store_in h]

theorem copy_store_out {k : ℕ} (data : ℕ → α) (h : i + n ≤ k ∨ k + bs.length ≤ i) :
    copy (store data k bs) i n = copy data i n := by
  apply copy_congr
  intro j hi hn
  apply store_out
  omega

theorem store_eq_self (h : copy data i bs.length = bs) : store data i bs = data := by
  funext j
  by_cases hin : i ≤ j ∧ j < i + bs.length
  · obtain ⟨k, rfl⟩ := Nat.exists_eq_add_of_le hin.1
    have hk : k < bs.length := by omega
    rw [store_in hk]
    have hcopied : k < (copy data i bs.length).length := by
      rw [copy_length]
      exact hk
    have hget : (copy data i bs.length)[k] = bs[k] := by
      simp only [h]
    rw [← hget]
    simp [copy]
  · exact store_out (by omega)

def storeAll (data : ℕ → α) (base : ℕ) (ws : List (ℕ × List α)) : ℕ → α :=
  ws.foldl (fun d w => store d (base + w.1) w.2) data

@[simp] theorem storeAll_nil (data : ℕ → α) (base : ℕ) : storeAll data base [] = data := rfl

def fieldBytes (width v : ℕ) : List UInt8 :=
  (List.range width).map fun k => UInt8.ofNat (v / 256 ^ k)

def fieldValue : List UInt8 → ℕ
  | [] => 0
  | b :: bs => b.toNat + 256 * fieldValue bs

theorem fieldBytes_succ (w v : ℕ) :
    fieldBytes (w + 1) v = UInt8.ofNat v :: fieldBytes w (v / 256) := by
  unfold fieldBytes
  rw [List.range_succ_eq_map, List.map_cons, List.map_map]
  congr 1
  · simp
  · apply List.map_congr_left
    intro k _
    simp [Nat.pow_succ', Nat.div_div_eq_div_mul]

@[simp] theorem fieldBytes_length (w v : ℕ) : (fieldBytes w v).length = w := by simp [fieldBytes]

theorem fieldValue_fieldBytes (w v : ℕ) : fieldValue (fieldBytes w v) = v % 256 ^ w := by
  induction w generalizing v with
  | zero => simp [fieldBytes, fieldValue, Nat.mod_one]
  | succ w ih =>
    rw [fieldBytes_succ, fieldValue, ih, Nat.pow_succ', Nat.mod_mul]
    simp

theorem copy_field (data : ℕ → UInt8) (i w v : ℕ) :
    copy (store data i (fieldBytes w v)) i w = fieldBytes w v := by
  simpa using copy_store data i (fieldBytes w v)

def word (data : ℕ → UInt8) (i : ℕ) : UInt32 := UInt32.ofNat (fieldValue (copy data i 4))

def wordBytes (ws : List UInt32) : List UInt8 := ws.flatMap fun w => fieldBytes 4 w.toNat

@[simp] theorem wordBytes_nil : wordBytes [] = [] := rfl

@[simp] theorem wordBytes_cons (w : UInt32) (ws : List UInt32) :
    wordBytes (w :: ws) = fieldBytes 4 w.toNat ++ wordBytes ws := rfl

@[simp] theorem wordBytes_append (ws vs : List UInt32) :
    wordBytes (ws ++ vs) = wordBytes ws ++ wordBytes vs := List.flatMap_append

@[simp] theorem wordBytes_length (ws : List UInt32) : (wordBytes ws).length = 4 * ws.length := by
  induction ws with
  | nil => rfl
  | cons w ws ih =>
    rw [wordBytes_cons, List.length_append, fieldBytes_length, ih, List.length_cons]
    omega

theorem word_of_copy {data : ℕ → UInt8} {i : ℕ} {w : UInt32}
    (h : copy data i 4 = fieldBytes 4 w.toNat) : word data i = w := by
  unfold word
  rw [h, fieldValue_fieldBytes, Nat.mod_eq_of_lt (show w.toNat < 256 ^ 4 from w.toNat_lt),
    UInt32.ofNat_toNat]

theorem copy_of_copy_words {data : ℕ → UInt8} {i : ℕ} {ws : List UInt32}
    (h : copy data i (4 * ws.length) = wordBytes ws) {k : ℕ} (hk : k < ws.length) :
    copy data (i + 4 * k) 4 = wordBytes [ws[k]] := by
  induction ws generalizing i k with
  | nil => simp at hk
  | cons w ws ih =>
    rw [List.length_cons, show 4 * (ws.length + 1) = 4 + 4 * ws.length by omega, copy_add,
      wordBytes_cons] at h
    have hpair := List.append_inj h (by rw [copy_length, fieldBytes_length])
    cases k with
    | zero => simpa using hpair.1
    | succ k =>
      have := ih hpair.2 (k := k) (Nat.lt_of_succ_lt_succ hk)
      rw [List.getElem_cons_succ, ← this]
      congr 1
      omega

theorem word_of_copy_words {data : ℕ → UInt8} {i : ℕ} {ws : List UInt32}
    (h : copy data i (4 * ws.length) = wordBytes ws) {k : ℕ} (hk : k < ws.length) :
    word data (i + 4 * k) = ws[k] :=
  word_of_copy (by simpa using copy_of_copy_words h hk)

end PvrServices.Memory
