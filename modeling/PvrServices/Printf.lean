import PvrServices.Memory

set_option autoImplicit false

/-!
# Formatted printing

The conversions of `printf` as texts, and the functions that put a text into a buffer of limited
size.
-/
namespace PvrServices.Printf
open Memory
variable {s t : List UInt8} {fill : UInt8} {pos size width n : ℕ}

def charByte (c : Char) : UInt8 := c.toNat.toUInt8

def text (s : String) : List UInt8 := s.toList.map charByte

def field (fill : UInt8) (width : ℕ) (s : List UInt8) : List UInt8 :=
  List.replicate (width - s.length) fill ++ s

def digits (base n : ℕ) : List UInt8 := (Nat.toDigits base n).map charByte

def upperDigits (base n : ℕ) : List UInt8 :=
  (Nat.toDigits base n).map fun c => charByte c.toUpper

def signedDigits (z : ℤ) : List UInt8 :=
  if z < 0 then charByte '-' :: digits 10 z.natAbs else digits 10 z.natAbs

def space : UInt8 := charByte ' '

def zero : UInt8 := charByte '0'

theorem field_length (h : s.length ≤ width) : (field fill width s).length = width := by
  rw [field, List.length_append, List.length_replicate]
  omega

theorem upperDigits_length {base : ℕ} (hb : 1 < base) (hn : 0 < width) (h : n < base ^ width) :
    (upperDigits base n).length ≤ width := by
  rw [upperDigits, List.length_map]
  exact (Nat.length_toDigits_le_iff hb hn).mpr h

theorem mem_toDigits {base : ℕ} {c : Char} (hb : 1 < base) (hc : c ∈ Nat.toDigits base n) :
    ∃ d < base, c = Nat.digitChar d := by
  induction n using Nat.strong_induction_on with
  | _ n ih =>
    rw [Nat.toDigits_eq_if hb] at hc
    by_cases hlt : n < base
    · rw [if_pos hlt, List.mem_singleton] at hc
      exact ⟨n, hlt, hc⟩
    · rw [if_neg hlt, List.mem_append, List.mem_singleton] at hc
      cases hc with
      | inl hc => exact ih (n / base) (Nat.div_lt_self (by omega) hb) hc
      | inr hc => exact ⟨n % base, Nat.mod_lt n (by omega), hc⟩

theorem upper_digitChar_ne_zero : ∀ d < 16, charByte (Nat.digitChar d).toUpper ≠ 0 := by
  decide

theorem upperDigits_ne_zero {base : ℕ} {b : UInt8} (hb : 1 < base) (hb' : base ≤ 16)
    (h : b ∈ upperDigits base n) : b ≠ 0 := by
  obtain ⟨c, hc, hcb⟩ := List.mem_map.mp h
  obtain ⟨d, hd, hcd⟩ := mem_toDigits hb hc
  rw [← hcb, hcd]
  exact upper_digitChar_ne_zero d (by omega)

theorem field_ne_zero {b : UInt8} (hfill : fill ≠ 0) (hs : ∀ a ∈ s, a ≠ 0)
    (h : b ∈ field fill width s) : b ≠ 0 := by
  cases List.mem_append.mp h with
  | inl hin =>
    rw [List.eq_of_mem_replicate hin]
    exact hfill
  | inr hin => exact hs b hin

/-- Memory that is printed to, and the end of what was written to. -/
structure Buffer where
  bytes : ℕ → UInt8
  written : ℕ

variable {x : Buffer}

/-- As many bytes of a text as there is room for, and the byte 0. -/
def vsnprintf (pos size : ℕ) (s : List UInt8) (x : Buffer) : Buffer :=
  if size = 0 then x
  else
    ⟨store x.bytes pos (s.take (size - 1) ++ [0]),
      max x.written (pos + min s.length (size - 1) + 1)⟩

def snprintf (pos size : ℕ) (s : List UInt8) (x : Buffer) : ℕ × Buffer :=
  (s.length, vsnprintf pos size s x)

def scnprintf (s : List UInt8) (pos size : ℕ) (x : Buffer) : ℕ × Buffer :=
  (min s.length (size - 1), vsnprintf pos size s x)

theorem vsnprintf_pos (h : 0 < size) : vsnprintf pos size s x =
    ⟨store x.bytes pos (s.take (size - 1) ++ [0]),
      max x.written (pos + min s.length (size - 1) + 1)⟩ :=
  if_neg (Nat.ne_of_gt h)

theorem store_behind (data : ℕ → UInt8) (pos : ℕ) (s : List UInt8) (b : UInt8) (ht : t ≠ []) :
    store (store data pos (s ++ [b])) (pos + s.length) t = store data pos (s ++ t) := by
  have hlen := List.length_pos_iff.mpr ht
  funext j
  by_cases hbefore : j < pos
  · rw [store_out (.inl (by omega)), store_out (.inl hbefore), store_out (.inl hbefore)]
  · obtain ⟨k, rfl⟩ := Nat.exists_eq_add_of_le (Nat.le_of_not_lt hbefore)
    by_cases hs : k < s.length
    · rw [store_out (.inl (by omega)), store_in (by rw [List.length_append]; omega),
        store_in (by rw [List.length_append]; omega), List.getElem_append_left hs,
        List.getElem_append_left hs]
    · by_cases hin : k < s.length + t.length
      · have hk : pos + k = pos + s.length + (k - s.length) := by omega
        have hlast : store data pos (s ++ t) (pos + k) = t[k - s.length] := by
          rw [store_in (by rw [List.length_append]; exact hin), List.getElem_append_right (by omega)]
        rw [hlast, hk, store_in (by omega)]
      · rw [store_out (.inr (by omega)), store_out (.inr ?_), store_out (.inr ?_)]
        · rw [List.length_append]
          omega
        · rw [List.length_append, List.length_singleton]
          omega

theorem scnprintf_append (h : 0 < size) :
    scnprintf t (pos + (scnprintf s pos size x).1) (size - (scnprintf s pos size x).1)
        (scnprintf s pos size x).2 =
      ((scnprintf (s ++ t) pos size x).1 - (scnprintf s pos size x).1,
        (scnprintf (s ++ t) pos size x).2) := by
  obtain ⟨m, hm⟩ : ∃ m, m = min s.length (size - 1) := ⟨_, rfl⟩
  have hlen : (s.take (size - 1)).length = m := by
    rw [List.length_take, hm]
    exact Nat.min_comm _ _
  have htake : (s ++ t).take (size - 1) = s.take (size - 1) ++ t.take (size - m - 1) := by
    rw [List.take_append]
    congr 2
    omega
  unfold scnprintf
  dsimp only
  rw [← hm, vsnprintf_pos h, vsnprintf_pos h, vsnprintf_pos (by omega), Prod.mk.injEq,
    Buffer.mk.injEq, List.length_append]
  refine ⟨by omega, ?_, by dsimp only; omega⟩
  have hstore := store_behind x.bytes pos (s.take (size - 1)) 0
    (t := t.take (size - m - 1) ++ [0]) (by simp)
  rw [hlen] at hstore
  dsimp only
  rw [hstore, htake, List.append_assoc]

abbrev Printer := ℕ → ℕ → Buffer → ℕ × Buffer

variable {p q : Printer}

/-- One after the other, the second behind what the first has printed. -/
def andThen (p q : Printer) : Printer := fun pos size x =>
  let r := p pos size x
  let r' := q (pos + r.1) (size - r.1) r.2
  (r.1 + r'.1, r'.2)

def Ready (x : Buffer) (pos : ℕ) : Prop := x.bytes pos = 0 ∧ pos < x.written

def Prints (p : Printer) (s : List UInt8) : Prop :=
  ∀ pos size x, 0 < size → Ready x pos → p pos size x = scnprintf s pos size x

theorem prints_scnprintf (s : List UInt8) : Prints (scnprintf s) s := fun _ _ _ _ _ => rfl

theorem scnprintf_ready (h : 0 < size) :
    Ready (scnprintf s pos size x).2 (pos + (scnprintf s pos size x).1) := by
  unfold scnprintf Ready
  dsimp only
  rw [vsnprintf_pos h]
  dsimp only
  have hlen : (s.take (size - 1)).length = min s.length (size - 1) := by
    rw [List.length_take]
    exact Nat.min_comm _ _
  refine ⟨?_, by omega⟩
  rw [← hlen, store_in (by rw [List.length_append, List.length_singleton]; omega),
    List.getElem_concat_length rfl]

theorem prints_nil : Prints (fun _ _ x => (0, x)) [] := by
  intro pos size x hsize hready
  unfold scnprintf
  rw [vsnprintf_pos hsize]
  simp only [List.length_nil, Nat.zero_min, List.take_nil, List.nil_append, Nat.add_zero]
  have hstore : store x.bytes pos [0] = x.bytes := by
    apply store_eq_self
    simp [copy, hready.1]
  have hmax : max x.written (pos + 1) = x.written := Nat.max_eq_left hready.2
  rw [hstore, hmax]

theorem andThen_eq (h : 0 < size) (hp : p pos size x = scnprintf s pos size x)
    (hq : Prints q t) : andThen p q pos size x = scnprintf (s ++ t) pos size x := by
  unfold andThen
  dsimp only
  have hroom : 0 < size - (scnprintf s pos size x).1 := by
    unfold scnprintf
    dsimp only
    omega
  rw [hp, hq _ _ _ hroom (scnprintf_ready h), scnprintf_append h, Prod.mk.injEq]
  refine ⟨?_, rfl⟩
  unfold scnprintf
  dsimp only
  rw [List.length_append]
  omega

theorem Prints.andThen (hp : Prints p s) (hq : Prints q t) : Prints (andThen p q) (s ++ t) :=
  fun pos size x h hready => andThen_eq h (hp pos size x h hready) hq

theorem Prints.foldl {α : Type} {f : α → Printer} {g : α → List UInt8} (hp : Prints p s)
    (hf : ∀ a, Prints (f a) (g a)) (l : List α) :
    Prints (l.foldl (fun p a => Printf.andThen p (f a)) p) (s ++ l.flatMap g) := by
  induction l generalizing p s with
  | nil =>
    rw [List.flatMap_nil, List.append_nil]
    exact hp
  | cons a l ih =>
    rw [List.foldl_cons, List.flatMap_cons, ← List.append_assoc]
    exact ih (hp.andThen (hf a))

theorem scnprintf_copy (h : 0 < size) :
    copy (scnprintf s pos size x).2.bytes pos (scnprintf s pos size x).1 = s.take (size - 1) := by
  unfold scnprintf
  dsimp only
  rw [vsnprintf_pos h]
  dsimp only
  have hlen : (s.take (size - 1)).length = min s.length (size - 1) := by
    rw [List.length_take]
    exact Nat.min_comm _ _
  have hall := copy_store x.bytes pos (s.take (size - 1) ++ [0])
  rw [List.length_append, hlen, List.length_singleton, copy_add] at hall
  exact List.append_inj_left hall (by rw [copy_length, hlen])

theorem scnprintf_before {n : ℕ} (hn : n ≤ pos) :
    copy (scnprintf s pos size x).2.bytes 0 n = copy x.bytes 0 n := by
  unfold scnprintf vsnprintf
  dsimp only
  split
  · rfl
  · exact copy_store_out _ (.inl (by omega))

def cString (mem : ℕ → UInt8) : ℕ → ℕ → List UInt8
  | 0, _ => []
  | n + 1, a => if mem a = 0 then [] else mem a :: cString mem n (a + 1)

end PvrServices.Printf
