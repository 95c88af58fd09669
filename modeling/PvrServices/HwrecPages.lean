import Mathlib.Data.List.Nodup
import Mathlib.Data.List.ReduceOption
import PvrServices.Memory
import PvrServices.Runs

set_option autoImplicit false

/-!
# The pages of a dump

What is dumped before a recovery is written piece by piece into pages that are taken one after the
other, read through a file, and freed before the next dump.
-/
namespace PvrServices.Hwrec
open Memory Runs

def pageSize : ℕ := 4096

def enomem : ℤ := -12

def efault : ℤ := -14

inductive Dump where
  | mem
  | status

/-- The number of entries of `hwrec_mem_pages` and of `hwrec_status_pages`. -/
def Dump.arraySize : Dump → ℕ
  | .mem => 4 * pageSize
  | .status => 1024

/-- The size and the pages of a dump, the pages that it has from the kernel in the order in which it
    got them, the bytes of the kernel's pages, and the position of a reader. -/
structure DumpState where
  currentSize : ℕ
  pages : ℕ → ℕ
  allocated : List ℕ
  data : ℕ → ℕ → UInt8
  fPos : ℤ

def DumpState.start (data : ℕ → ℕ → UInt8) : DumpState := ⟨0, fun _ => 0, [], data, 0⟩

def freePage (p : ℕ) (x : DumpState) : Option DumpState :=
  if p ∈ x.allocated then some { x with allocated := x.allocated.erase p } else none

def pagesFreeLoop (size i : ℕ) (x : DumpState) : Option (List ℕ × DumpState) :=
  if i * pageSize < size then
    (freePage (x.pages i) x).bind fun y =>
      (pagesFreeLoop size (i + 1) { y with pages := Function.update y.pages i 0 }).map
        fun r => (x.pages i :: r.1, r.2)
  else some ([], x)
termination_by size - i * pageSize
decreasing_by
  unfold pageSize at *
  omega

def hwrecPagesFree (x : DumpState) : Option (List ℕ × DumpState) :=
  if x.currentSize = 0 then some ([], x)
  else
    (pagesFreeLoop x.currentSize 0 x).map fun r => (r.1, { r.2 with currentSize := 0 })

/-- The block that takes a page where the size is page aligned. `grants` has the answers of
    `__get_free_page`. -/
def takePage (arraySize : ℕ) (grants : List (Option ℕ)) (x : DumpState) :
    Except DumpState (List (Option ℕ) × DumpState) :=
  if x.currentSize % pageSize = 0 then
    if arraySize ≤ x.currentSize / pageSize then .error x
    else
      match grants.headD none with
      | none => .error { x with pages := Function.update x.pages (x.currentSize / pageSize) 0 }
      | some p =>
        .ok (grants.tail, { x with
          pages := Function.update x.pages (x.currentSize / pageSize) p
          allocated := x.allocated ++ [p] })
  else .ok (grants, x)

def memcpy (p offset : ℕ) (bs : List UInt8) (x : DumpState) : Option DumpState :=
  if p ∈ x.allocated ∧ offset + bs.length ≤ pageSize then
    some { x with data := Function.update x.data p (store (x.data p) offset bs) }
  else none

def pagesWriteLoop (arraySize : ℕ) (buffer : List UInt8) (ret : ℕ) (grants : List (Option ℕ))
    (x : DumpState) : Option (ℤ × DumpState) :=
  if buffer.length = 0 then some (ret, x)
  else
    match takePage arraySize grants x with
    | .error y => some (enomem, y)
    | .ok (grants', y) =>
      let offset := x.currentSize % pageSize
      let count := min buffer.length (pageSize - offset)
      (memcpy (y.pages (x.currentSize / pageSize)) offset (buffer.take count) y).bind fun z =>
        pagesWriteLoop arraySize (buffer.drop count) (ret + count) grants'
          { z with currentSize := x.currentSize + count }
termination_by buffer.length
decreasing_by
  rw [List.length_drop]
  have hlt := Nat.mod_lt x.currentSize (show 0 < pageSize by decide)
  omega

def hwrecPagesWrite (arraySize : ℕ) (buffer : List UInt8) (grants : List (Option ℕ))
    (x : DumpState) : Option (ℤ × DumpState) :=
  pagesWriteLoop arraySize buffer 0 grants x

def hwrecRead (size : ℕ) (copied : Bool) (x : DumpState) :
    Option ((ℤ × List UInt8) × DumpState) :=
  if 0 ≤ x.fPos ∧ x.fPos < x.currentSize then
    let page := x.fPos.toNat / pageSize
    let offset := x.fPos.toNat % pageSize
    let count := min (min size (x.currentSize - x.fPos.toNat)) (pageSize - offset)
    if x.pages page ∈ x.allocated then
      if copied then
        some ((count, copy (x.data (x.pages page)) offset count), { x with fPos := x.fPos + count })
      else some ((efault, []), x)
    else none
  else some ((0, []), x)

def hwrecMemWrite : List UInt8 → List (Option ℕ) → DumpState → Option (ℤ × DumpState) :=
  hwrecPagesWrite Dump.mem.arraySize

def hwrecStatusWrite : List UInt8 → List (Option ℕ) → DumpState → Option (ℤ × DumpState) :=
  hwrecPagesWrite Dump.status.arraySize

def hwrecMemFree : DumpState → Option (List ℕ × DumpState) := hwrecPagesFree

def hwrecStatusFree : DumpState → Option (List ℕ × DumpState) := hwrecPagesFree

def hwrecMemRead : ℕ → Bool → DumpState → Option ((ℤ × List UInt8) × DumpState) := hwrecRead

def hwrecStatusRead : ℕ → Bool → DumpState → Option ((ℤ × List UInt8) × DumpState) := hwrecRead

def Dump.write : Dump → List UInt8 → List (Option ℕ) → DumpState → Option (ℤ × DumpState)
  | .mem => hwrecMemWrite
  | .status => hwrecStatusWrite

def Dump.read : Dump → ℕ → Bool → DumpState → Option ((ℤ × List UInt8) × DumpState)
  | .mem => hwrecMemRead
  | .status => hwrecStatusRead

def Dump.free : Dump → DumpState → Option (List ℕ × DumpState)
  | .mem => hwrecMemFree
  | .status => hwrecStatusFree

inductive Op where
  | write (buffer : List UInt8) (grants : List (Option ℕ))
  /-- The file is opened: its position is 0. -/
  | openFile
  | read (size : ℕ) (copied : Bool)
  | free

/-- The answer of a write comes with the size that it leaves in `*current_size`, that of a free with
    the pages that it freed. -/
inductive Reply where
  | wrote (ret : ℤ) (currentSize : ℕ)
  | opened
  | bytes (ret : ℤ) (bs : List UInt8)
  | freed (pages : List ℕ)
  deriving DecidableEq

def step (d : Dump) (x : DumpState) : Op → Option (Reply × DumpState)
  | .write buffer grants => (d.write buffer grants x).map fun r =>
      (.wrote r.1 r.2.currentSize, r.2)
  | .openFile => some (.opened, { x with fPos := 0 })
  | .read size copied => (d.read size copied x).map fun r => (.bytes r.1.1 r.1.2, r.2)
  | .free => (d.free x).map fun r => (.freed r.1, r.2)

def Fresh (x : DumpState) (grants : List (Option ℕ)) : Prop :=
  grants.reduceOption.Nodup ∧ ∀ p ∈ grants.reduceOption, p ≠ 0 ∧ p ∉ x.allocated

instance (x : DumpState) (grants : List (Option ℕ)) : Decidable (Fresh x grants) :=
  inferInstanceAs (Decidable (_ ∧ _))

def Granted (x : DumpState) : Op → Prop
  | .write _ grants => Fresh x grants
  | _ => True

instance (x : DumpState) (op : Op) : Decidable (Granted x op) :=
  match op with
  | .write _ _ => inferInstanceAs (Decidable (Fresh _ _))
  | .openFile | .read _ _ | .free => inferInstanceAs (Decidable True)

/-- The bytes that were stored since the dump was freed, and what the reader got since it opened the
    file, or `none` if the dump was freed since. -/
structure Log where
  stored : List UInt8
  given : Option (List UInt8)

def Log.record (g : Log) : Op × Reply → Log
  | (.write buffer _, .wrote _ currentSize) =>
    { g with stored := g.stored ++ buffer.take (currentSize - g.stored.length) }
  | (.openFile, _) => { g with given := some [] }
  | (.read _ _, .bytes _ bs) => { g with given := g.given.map (· ++ bs) }
  | (.free, _) => ⟨[], none⟩
  | _ => g

variable {d : Dump} {x y : DumpState} {stored buffer bs : List UInt8} {grants : List (Option ℕ)}
  {arraySize i k m n p offset ret size : ℕ} {copied : Bool}

theorem Dump.write_eq (d : Dump) : d.write = hwrecPagesWrite d.arraySize := by
  cases d <;> rfl

theorem Dump.read_eq (d : Dump) : d.read = hwrecRead := by
  cases d <;> rfl

theorem Dump.free_eq (d : Dump) : d.free = hwrecPagesFree := by
  cases d <;> rfl

def pageCount (size : ℕ) : ℕ := (size + (pageSize - 1)) / pageSize

def flat (x : DumpState) : ℕ → UInt8 := fun i => x.data (x.pages (i / pageSize)) (i % pageSize)

/-- The first `m` entries of the array are the allocated pages. -/
structure Paged (m : ℕ) (x : DumpState) : Prop where
  allocated : x.allocated = (List.range m).map x.pages
  nodup : x.allocated.Nodup
  nonzero : 0 ∉ x.allocated
  rest : ∀ i, m ≤ i → x.pages i = 0

structure Sound (arraySize : ℕ) (x : DumpState) (stored : List UInt8) : Prop where
  size : x.currentSize = stored.length
  fits : x.currentSize ≤ arraySize * pageSize
  paged : Paged (pageCount x.currentSize) x
  content : copy (flat x) 0 x.currentSize = stored

theorem pageSize_pos : 0 < pageSize := by decide

theorem pageCount_zero : pageCount 0 = 0 := by decide

theorem pageCount_aligned (h : size % pageSize = 0) : pageCount size = size / pageSize := by
  unfold pageCount pageSize at *
  omega

theorem pageCount_within (h : k * pageSize < size) (h' : size ≤ (k + 1) * pageSize) :
    pageCount size = k + 1 := by
  unfold pageCount pageSize at *
  omega

theorem pageCount_inside (h : i < size) : i / pageSize < pageCount size := by
  unfold pageCount pageSize at *
  omega

theorem pageCount_covers : i * pageSize < size ↔ i < pageCount size := by
  unfold pageCount pageSize
  omega

theorem Paged.mem (h : Paged m x) (hi : i < m) : x.pages i ∈ x.allocated := by
  rw [h.allocated]
  exact List.mem_map_of_mem (List.mem_range.mpr hi)

theorem Paged.injective (h : Paged m x) (hk : k < m) (he : x.pages i = x.pages k) : i = k := by
  by_cases hi : i < m
  · have hnodup := h.nodup
    rw [h.allocated] at hnodup
    exact List.inj_on_of_nodup_map hnodup (List.mem_range.mpr hi) (List.mem_range.mpr hk) he
  · have hzero := h.nonzero
    rw [h.rest i (by omega)] at he
    rw [he] at hzero
    exact absurd (h.mem hk) hzero

theorem Paged.congr (h : Paged m x) (ha : y.allocated = x.allocated) (hp : y.pages = x.pages) :
    Paged m y := by
  constructor
  · rw [ha, hp]
    exact h.allocated
  · rw [ha]
    exact h.nodup
  · rw [ha]
    exact h.nonzero
  · rw [hp]
    exact h.rest

theorem sound_start (n : ℕ) (data : ℕ → ℕ → UInt8) : Sound n (.start data) [] :=
  ⟨rfl, Nat.zero_le _, ⟨by simp [DumpState.start, pageCount_zero], List.nodup_nil,
    List.not_mem_nil, fun _ _ => rfl⟩, rfl⟩

theorem Sound.moveReader (h : Sound n x stored) (fPos : ℤ) : Sound n { x with fPos } stored :=
  ⟨h.size, h.fits, h.paged.congr rfl rfl, h.content⟩

theorem Paged.memcpy (h : Paged m x) (hk : k < m) (hin : offset + bs.length ≤ pageSize) :
    ∃ y, Hwrec.memcpy (x.pages k) offset bs x = some y ∧ y.currentSize = x.currentSize ∧
      y.fPos = x.fPos ∧ y.pages = x.pages ∧ y.allocated = x.allocated ∧
      flat y = store (flat x) (k * pageSize + offset) bs := by
  refine ⟨_, if_pos ⟨h.mem hk, hin⟩, rfl, rfl, rfl, rfl, ?_⟩
  funext i
  unfold flat
  by_cases hik : i / pageSize = k
  · have hsplit := Nat.div_add_mod i pageSize
    rw [hik, Nat.mul_comm] at hsplit
    dsimp only
    rw [hik, Function.update_self]
    unfold store
    by_cases ho : offset ≤ i % pageSize
    · have hsub : i - (k * pageSize + offset) = i % pageSize - offset := by omega
      rw [if_pos ho, if_pos (by omega), hsub]
      dsimp only
      rw [hik]
    · rw [if_neg ho, if_neg (by omega)]
      dsimp only
      rw [hik]
  · have hne : x.pages (i / pageSize) ≠ x.pages k := fun he => hik (h.injective hk he)
    have hout : i < k * pageSize + offset ∨ k * pageSize + offset + bs.length ≤ i := by
      unfold pageSize at *
      omega
    dsimp only
    rw [Function.update_of_ne hne, store_out hout]

structure Taken (n : ℕ) (x y : DumpState) (stored : List UInt8) : Prop where
  size : y.currentSize = x.currentSize
  position : y.fPos = x.fPos
  room : x.currentSize / pageSize < n
  paged : Paged (x.currentSize / pageSize + 1) y
  content : copy (flat y) 0 x.currentSize = stored

theorem Sound.inPage (h : Sound n x stored) (grants : List (Option ℕ))
    (hoffset : x.currentSize % pageSize ≠ 0) :
    takePage n grants x = .ok (grants, x) ∧ Taken n x x stored := by
  have hfits := h.fits
  have hcount : pageCount x.currentSize = x.currentSize / pageSize + 1 := by
    unfold pageCount pageSize at *
    omega
  have hpaged := h.paged
  rw [hcount] at hpaged
  refine ⟨if_neg hoffset, rfl, rfl, ?_, hpaged, h.content⟩
  unfold pageSize at *
  omega

theorem Sound.newPage (h : Sound n x stored) (haligned : x.currentSize % pageSize = 0)
    (hroom : x.currentSize / pageSize < n) (hp : p ≠ 0) (hfresh : p ∉ x.allocated) :
    Taken n x { x with
      pages := Function.update x.pages (x.currentSize / pageSize) p
      allocated := x.allocated ++ [p] } stored := by
  have hpaged := h.paged
  rw [pageCount_aligned haligned] at hpaged
  have hbefore (i : ℕ) (hi : i < x.currentSize / pageSize) :
      Function.update x.pages (x.currentSize / pageSize) p i = x.pages i :=
    Function.update_of_ne (Nat.ne_of_lt hi) _ _
  refine ⟨rfl, rfl, hroom, ⟨?_, ?_, ?_, fun i hi => ?_⟩, ?_⟩
  · dsimp only
    rw [List.range_succ, List.map_append, List.map_singleton, Function.update_self,
      hpaged.allocated]
    congr 1
    apply List.map_congr_left
    intro i hi
    exact (hbefore i (List.mem_range.mp hi)).symm
  · exact List.nodup_append.mpr ⟨hpaged.nodup, List.nodup_singleton p, fun a ha b hb hab =>
      hfresh (List.mem_singleton.mp hb ▸ hab ▸ ha)⟩
  · dsimp only
    rw [List.mem_append, List.mem_singleton]
    exact fun hor => hor.elim hpaged.nonzero fun hzero => hp hzero.symm
  · have hne : i ≠ x.currentSize / pageSize := by omega
    dsimp only
    rw [Function.update_of_ne hne]
    exact hpaged.rest i (by omega)
  · rw [← h.content]
    apply copy_congr
    intro j _ hj
    unfold flat
    dsimp only
    rw [hbefore]
    unfold pageSize at *
    omega

theorem Sound.takePage (h : Sound n x stored) (hfresh : Fresh x grants) :
    Hwrec.takePage n grants x = .error x ∨
    ∃ grants' y, Hwrec.takePage n grants x = .ok (grants', y) ∧ Taken n x y stored ∧
      Fresh y grants' := by
  by_cases hoffset : x.currentSize % pageSize = 0
  · by_cases hfull : n ≤ x.currentSize / pageSize
    · left
      unfold Hwrec.takePage
      rw [if_pos hoffset, if_pos hfull]
    · unfold Hwrec.takePage
      rw [if_pos hoffset, if_neg hfull]
      cases grants with
      | nil =>
        left
        have hzero := h.paged.rest _ (Nat.le_of_eq (pageCount_aligned hoffset))
        dsimp only [List.headD_nil]
        rw [← hzero, Function.update_eq_self]
      | cons grant grants =>
        cases grant with
        | none =>
          left
          have hzero := h.paged.rest _ (Nat.le_of_eq (pageCount_aligned hoffset))
          dsimp only [List.headD_cons]
          rw [← hzero, Function.update_eq_self]
        | some p =>
          right
          obtain ⟨hnodup, hnew⟩ := hfresh
          rw [List.reduceOption_cons_of_some] at hnodup hnew
          obtain ⟨hp, hnot⟩ := hnew p List.mem_cons_self
          obtain ⟨hlater, hnodup'⟩ := List.nodup_cons.mp hnodup
          refine ⟨grants, _, rfl, h.newPage hoffset (Nat.lt_of_not_le hfull) hp hnot, hnodup',
            fun q hq => ⟨(hnew q (List.mem_cons_of_mem _ hq)).1, ?_⟩⟩
          dsimp only
          rw [List.mem_append, List.mem_singleton]
          intro hor
          cases hor with
          | inl hold => exact (hnew q (List.mem_cons_of_mem _ hq)).2 hold
          | inr heq =>
            rw [heq] at hq
            exact hlater hq
  · obtain ⟨htake, htaken⟩ := h.inPage grants hoffset
    exact .inr ⟨grants, x, htake, htaken, hfresh⟩

theorem Taken.memcpy (h : Taken n x y stored) (hs : x.currentSize = stored.length)
    (hbs : bs ≠ []) (hin : x.currentSize % pageSize + bs.length ≤ pageSize) :
    ∃ z, Hwrec.memcpy (y.pages (x.currentSize / pageSize)) (x.currentSize % pageSize) bs y =
        some z ∧
      z.fPos = x.fPos ∧ z.allocated = y.allocated ∧
      Sound n { z with currentSize := x.currentSize + bs.length } (stored ++ bs) := by
  obtain ⟨z, hz, -, hpos, hpages, hallocated, hflat⟩ := h.paged.memcpy (Nat.lt_succ_self _) hin
  have hroom := h.room
  have hlen : 0 < bs.length := List.length_pos_iff.mpr hbs
  have hcount : pageCount (x.currentSize + bs.length) = x.currentSize / pageSize + 1 := by
    apply pageCount_within
    · unfold pageSize at *
      omega
    · unfold pageSize at *
      omega
  have hplace : x.currentSize / pageSize * pageSize + x.currentSize % pageSize = x.currentSize :=
    Nat.div_add_mod' _ _
  refine ⟨z, hz, hpos.trans h.position, hallocated, ?_, ?_, ?_, ?_⟩
  · rw [List.length_append, ← hs]
  · dsimp only
    unfold pageSize at *
    omega
  · dsimp only
    rw [hcount]
    exact h.paged.congr hallocated hpages
  · change copy (flat z) 0 (x.currentSize + bs.length) = _
    rw [hflat, hplace, copy_add, Nat.zero_add, copy_store, copy_store_out _ (.inl (by omega)),
      h.content]

/-- How a write ends: it stored the first `k` bytes. -/
structure Wrote (n : ℕ) (x y : DumpState) (stored buffer : List UInt8) (ret k : ℕ) (r : ℤ) :
    Prop where
  sound : Sound n y (stored ++ buffer.take k)
  position : y.fPos = x.fPos
  inside : k ≤ buffer.length
  answer : r = if k = buffer.length then ((ret + buffer.length : ℕ) : ℤ) else enomem

theorem Sound.writeLoop (h : Sound n x stored) (hfresh : Fresh x grants) (buffer : List UInt8)
    (ret : ℕ) :
    ∃ r y k, pagesWriteLoop n buffer ret grants x = some (r, y) ∧
      Wrote n x y stored buffer ret k r := by
  induction hl : buffer.length using Nat.strong_induction_on
    generalizing buffer x stored grants ret with
  | _ len ih =>
    rw [pagesWriteLoop]
    by_cases hzero : buffer.length = 0
    · rw [if_pos hzero]
      refine ⟨ret, x, 0, rfl, ?_, rfl, Nat.zero_le _, ?_⟩
      · rw [List.take_zero, List.append_nil]
        exact h
      · rw [if_pos hzero.symm, hzero, Nat.add_zero]
    · rw [if_neg hzero]
      cases h.takePage hfresh with
      | inl herror =>
        rw [herror]
        refine ⟨enomem, x, 0, rfl, ?_, rfl, Nat.zero_le _, ?_⟩
        · rw [List.take_zero, List.append_nil]
          exact h
        · rw [if_neg (Ne.symm hzero)]
      | inr hok =>
        obtain ⟨grants', y, htake, htaken, hfresh'⟩ := hok
        rw [htake]
        dsimp only
        obtain ⟨count, hcount⟩ : ∃ c, c = min buffer.length (pageSize - x.currentSize % pageSize) :=
          ⟨_, rfl⟩
        rw [← hcount]
        have hlt := Nat.mod_lt x.currentSize pageSize_pos
        have hlen : (buffer.take count).length = count := by
          rw [List.length_take]
          omega
        have hsome : buffer.take count ≠ [] := by
          apply List.ne_nil_of_length_pos
          omega
        obtain ⟨z, hz, hpos, hallocated, hsound⟩ :=
          htaken.memcpy h.size hsome (by omega)
        rw [hlen] at hsound
        have hrest : (buffer.drop count).length < len := by
          rw [List.length_drop]
          omega
        have hfresh'' : Fresh { z with currentSize := x.currentSize + count } grants' := by
          refine ⟨hfresh'.1, fun p hp => ?_⟩
          dsimp only
          rw [hallocated]
          exact hfresh'.2 p hp
        obtain ⟨r, w, k, hw, hwrote⟩ := ih _ hrest hsound hfresh'' (buffer.drop count) (ret + count) rfl
        rw [hz]
        have hk := hwrote.inside
        rw [List.length_drop] at hk
        refine ⟨r, w, count + k, hw, ?_, hwrote.position.trans hpos, by omega, ?_⟩
        · rw [List.take_add, ← List.append_assoc]
          exact hwrote.sound
        · rw [hwrote.answer, List.length_drop]
          by_cases hall : k = buffer.length - count
          · rw [if_pos hall, if_pos (by omega)]
            congr 1
            omega
          · rw [if_neg hall, if_neg (by omega)]

theorem pagesFreeLoop_spec (hi : i ≤ pageCount size)
    (hallocated : x.allocated = (List.range' i (pageCount size - i)).map x.pages)
    (hrest : ∀ j, j < i ∨ pageCount size ≤ j → x.pages j = 0) :
    pagesFreeLoop size i x =
      some (x.allocated, { x with pages := fun _ => 0, allocated := [] }) := by
  induction hm : pageCount size - i generalizing i x with
  | zero =>
    have hnot : ¬i * pageSize < size := by
      rw [pageCount_covers]
      omega
    have hnil : x.allocated = [] := by
      rw [hallocated, hm]
      rfl
    have hzero : x.pages = fun _ => 0 := by
      funext j
      exact hrest j (by omega)
    rw [pagesFreeLoop, if_neg hnot, ← hzero, ← hnil]
  | succ m ih =>
    have hlt : i * pageSize < size := by
      rw [pageCount_covers]
      omega
    rw [hm, List.range'_succ, List.map_cons] at hallocated
    have hfree : freePage (x.pages i) x =
        some { x with allocated := (List.range' (i + 1) m).map x.pages } := by
      unfold freePage
      rw [hallocated, if_pos List.mem_cons_self, List.erase_cons_head]
    have hlater : (List.range' (i + 1) m).map x.pages =
        (List.range' (i + 1) m).map (Function.update x.pages i 0) := by
      apply List.map_congr_left
      intro j hj
      have hne : j ≠ i := by
        have hge := (List.mem_range'_1.mp hj).1
        omega
      rw [Function.update_of_ne hne]
    rw [pagesFreeLoop, if_pos hlt, hfree, Option.bind_some, ih (by omega), hallocated]
    · rfl
    · have hsub : pageCount size - (i + 1) = m := by omega
      rw [hsub]
      exact hlater
    · intro j hj
      dsimp only
      by_cases hji : j = i
      · rw [hji, Function.update_self]
      · rw [Function.update_of_ne hji]
        exact hrest j (by omega)
    · omega

theorem Sound.free (h : Sound n x stored) : ∃ y, hwrecPagesFree x = some (x.allocated, y) ∧
    y.allocated = [] ∧ y.fPos = x.fPos ∧ Sound n y [] := by
  have hpaged := h.paged
  unfold hwrecPagesFree
  by_cases hzero : x.currentSize = 0
  · have hnil : x.allocated = [] := by
      rw [hpaged.allocated, hzero, pageCount_zero]
      rfl
    have hstored : stored = [] := by
      apply List.eq_nil_of_length_eq_zero
      rw [← h.size, hzero]
    rw [if_pos hzero, hnil]
    rw [hstored] at h
    exact ⟨x, rfl, hnil, rfl, h⟩
  · have hloop := pagesFreeLoop_spec (Nat.zero_le _)
      (by rw [Nat.sub_zero, ← List.range_eq_range']; exact hpaged.allocated)
      (fun j hj => hpaged.rest j (by omega))
    rw [if_neg hzero, hloop]
    exact ⟨_, rfl, rfl, rfl, rfl, Nat.zero_le _,
      ⟨by rw [pageCount_zero]; rfl, List.nodup_nil, List.not_mem_nil, fun _ _ => rfl⟩, rfl⟩

/-- A read gives the next bytes, some of them if it may and there are any. -/
structure ReadsRight (x y : DumpState) (stored : List UInt8) (size : ℕ) (copied : Bool) (ret : ℤ)
    (bs : List UInt8) : Prop where
  position : y.fPos = x.fPos + bs.length
  inside : bs.length ≤ size
  bytes : bs <+: stored.drop x.fPos.toNat
  answer : ret = bs.length ∨ copied = false ∧ ret = efault ∧ bs = []
  progress : copied = true → 0 < size → 0 ≤ x.fPos → x.fPos < stored.length → bs ≠ []

theorem Sound.read (h : Sound n x stored) (size : ℕ) (copied : Bool) : ∃ ret bs y,
    hwrecRead size copied x = some ((ret, bs), y) ∧ Sound n y stored ∧
      ReadsRight x y stored size copied ret bs := by
  have hsize := h.size
  unfold hwrecRead
  by_cases hin : 0 ≤ x.fPos ∧ x.fPos < x.currentSize
  · obtain ⟨pos, hpos⟩ := Int.eq_ofNat_of_zero_le hin.1
    have hlt : pos < x.currentSize := by omega
    have hpage := h.paged.mem (pageCount_inside hlt)
    rw [if_pos hin, hpos, Int.toNat_natCast]
    obtain ⟨count, hcount⟩ :
        ∃ c, c = min (min size (x.currentSize - pos)) (pageSize - pos % pageSize) := ⟨_, rfl⟩
    dsimp only
    rw [← hcount, if_pos hpage]
    cases copied with
    | false =>
      exact ⟨_, _, _, rfl, h, (Int.add_zero _).symm, Nat.zero_le _, List.nil_prefix,
        .inr ⟨rfl, rfl, rfl⟩, fun hfalse => by cases hfalse⟩
    | true =>
      have hbytes : copy (x.data (x.pages (pos / pageSize))) (pos % pageSize) count =
          (stored.drop pos).take count := by
        rw [← h.content, copy_drop _ _ (by omega), copy_take _ _ (by omega), Nat.zero_add]
        apply List.map_congr_left
        intro j hj
        rw [List.mem_range] at hj
        have hsame : (pos + j) / pageSize = pos / pageSize ∧
            (pos + j) % pageSize = pos % pageSize + j := by
          unfold pageSize at *
          omega
        unfold flat
        rw [hsame.1, hsame.2]
      refine ⟨_, _, _, rfl, h.moveReader _, ?_, ?_, ?_, .inl ?_, fun _ hpositive _ _ => ?_⟩
      · rw [copy_length, hpos]
      · rw [copy_length]
        omega
      · rw [hbytes, hpos]
        exact List.take_prefix _ _
      · rw [copy_length]
      · have hmod := Nat.mod_lt pos pageSize_pos
        apply List.ne_nil_of_length_pos
        rw [copy_length]
        omega
  · rw [if_neg hin]
    exact ⟨0, [], x, rfl, h, (Int.add_zero _).symm, Nat.zero_le _, List.nil_prefix, .inl rfl,
      fun _ _ _ _ => by omega⟩

/-- The dump has what was stored, and the reader got the beginning of it. -/
structure Agrees (d : Dump) (x : DumpState) (g : Log) : Prop where
  sound : Sound d.arraySize x g.stored
  position : 0 ≤ x.fPos
  reader : ∀ given, g.given = some given → given <+: g.stored ∧ x.fPos = given.length

variable {g : Log} {op : Op} {r : Reply} {l : List (Op × Reply)} {data : ℕ → ℕ → UInt8}

theorem Agrees.write (h : Agrees d x g) (hfresh : Fresh x grants) (buffer : List UInt8) :
    ∃ ret y, step d x (.write buffer grants) = some (.wrote ret y.currentSize, y) ∧
      Agrees d y (g.record (.write buffer grants, .wrote ret y.currentSize)) ∧
      (ret = buffer.length ∧ y.currentSize = x.currentSize + buffer.length ∨
        ret = enomem ∧ y.currentSize < x.currentSize + buffer.length) := by
  obtain ⟨ret, y, k, hy, hwrote⟩ := h.sound.writeLoop hfresh buffer 0
  have hsize := h.sound.size
  have hinside := hwrote.inside
  have hgrown : y.currentSize = g.stored.length + k := by
    rw [hwrote.sound.size, List.length_append, List.length_take]
    omega
  have hpart : y.currentSize - g.stored.length = k := by omega
  have hrecord : g.record (.write buffer grants, .wrote ret y.currentSize) =
      { g with stored := g.stored ++ buffer.take k } := by
    unfold Log.record
    dsimp only
    rw [hpart]
  refine ⟨ret, y, ?_, ?_, ?_⟩
  · simp only [step, d.write_eq, hwrecPagesWrite, hy, Option.map_some]
  · rw [hrecord]
    refine ⟨hwrote.sound, ?_, fun given hgiven => ?_⟩
    · rw [hwrote.position]
      exact h.position
    · obtain ⟨hbegins, hpos⟩ := h.reader given hgiven
      exact ⟨hbegins.trans (List.prefix_append _ _), hwrote.position.trans hpos⟩
  · rw [hwrote.answer]
    by_cases hall : k = buffer.length
    · rw [if_pos hall]
      exact .inl ⟨by rw [Nat.zero_add], by omega⟩
    · rw [if_neg hall]
      exact .inr ⟨rfl, by omega⟩

theorem Agrees.openFile (h : Agrees d x g) (g' : Log) (hg : g' = { g with given := some [] }) :
    Agrees d { x with fPos := 0 } g' := by
  rw [hg]
  refine ⟨h.sound.moveReader 0, Int.le_refl 0, fun given hgiven => ?_⟩
  cases hgiven
  exact ⟨List.nil_prefix, rfl⟩

theorem Agrees.read (h : Agrees d x g) (size : ℕ) (copied : Bool) : ∃ ret bs y,
    step d x (.read size copied) = some (.bytes ret bs, y) ∧
      Agrees d y { g with given := g.given.map (· ++ bs) } ∧
      ReadsRight x y g.stored size copied ret bs := by
  obtain ⟨ret, bs, y, hy, hsound, hright⟩ := h.sound.read size copied
  have hposition := hright.position
  have hpos := h.position
  refine ⟨ret, bs, y, ?_, ⟨hsound, by omega, fun given hgiven => ?_⟩, hright⟩
  · simp only [step, d.read_eq, hy, Option.map_some]
  · obtain ⟨before, hbefore, hgiven⟩ := Option.map_eq_some_iff.mp hgiven
    obtain ⟨⟨rest, hrest⟩, hat⟩ := h.reader before hbefore
    have hbytes := hright.bytes
    dsimp only at hgiven hbytes ⊢
    rw [hat, Int.toNat_natCast, ← hrest, List.drop_left] at hbytes
    rw [← hgiven, ← hrest, List.prefix_append_right_inj, hposition, hat, List.length_append]
    exact ⟨hbytes, by push_cast; rfl⟩

theorem Agrees.free (h : Agrees d x g) : ∃ y, step d x .free = some (.freed x.allocated, y) ∧
    y.allocated = [] ∧ Agrees d y ⟨[], none⟩ := by
  obtain ⟨y, hy, hnil, hpos, hsound⟩ := h.sound.free
  refine ⟨y, ?_, hnil, hsound, ?_, fun given hgiven => by cases hgiven⟩
  · simp only [step, d.free_eq, hy, Option.map_some]
  · rw [hpos]
    exact h.position

theorem Agrees.step (h : Agrees d x g) (hop : Granted x op) :
    ∃ r y, Hwrec.step d x op = some (r, y) ∧ Agrees d y (g.record (op, r)) := by
  cases op with
  | write buffer grants =>
    obtain ⟨ret, y, hy, hagrees, -⟩ := h.write hop buffer
    exact ⟨_, y, hy, hagrees⟩
  | openFile => exact ⟨_, _, rfl, h.openFile _ rfl⟩
  | read size copied =>
    obtain ⟨ret, bs, y, hy, hagrees, -⟩ := h.read size copied
    exact ⟨_, y, hy, hagrees⟩
  | free =>
    obtain ⟨y, hy, -, hagrees⟩ := h.free
    exact ⟨_, y, hy, hagrees⟩

def log (l : List (Op × Reply)) : Log := l.foldl Log.record ⟨[], none⟩

theorem agrees_start (d : Dump) (data : ℕ → ℕ → UInt8) : Agrees d (.start data) ⟨[], none⟩ :=
  ⟨sound_start _ _, Int.le_refl 0, fun given hgiven => by cases hgiven⟩

theorem agrees_run (h : Run (step d) Granted (.start data) l x) : Agrees d x (log l) := by
  apply h.ledger (Agrees d) Log.record ⟨[], none⟩ (agrees_start d data)
  intro s g a r t hagrees hop hs
  obtain ⟨r', t', hs', hagrees'⟩ := hagrees.step hop
  rw [hs, Option.some.injEq, Prod.mk.injEq] at hs'
  rw [hs'.1, hs'.2]
  exact hagrees'

def given (l : List (Op × Reply)) : List UInt8 :=
  l.flatMap fun e => match e.2 with
    | .bytes _ bs => bs
    | _ => []

/-- Reads one after the other give what follows the position, all of it if there are enough of
    them. -/
theorem Agrees.reads (h : Agrees d x g) (hin : x.fPos ≤ g.stored.length) (sizes : List ℕ) :
    ∃ l y, exec (Hwrec.step d) x (sizes.map (.read · true)) = some (l, y) ∧
      given l <+: g.stored.drop x.fPos.toNat ∧
      ((∀ s ∈ sizes, 0 < s) → g.stored.length ≤ x.fPos.toNat + sizes.length →
        given l = g.stored.drop x.fPos.toNat) := by
  induction sizes generalizing x g with
  | nil =>
    refine ⟨[], x, rfl, List.nil_prefix, fun _ hall => ?_⟩
    rw [List.length_nil] at hall
    exact (List.drop_eq_nil_of_le hall).symm
  | cons size sizes ih =>
    obtain ⟨ret, bs, y, hy, hagrees, hright⟩ := h.read size true
    have hpos := h.position
    have hposition := hright.position
    obtain ⟨rest, hrest⟩ := hright.bytes
    have hnext : y.fPos.toNat = x.fPos.toNat + bs.length := by omega
    have hdrop : g.stored.drop y.fPos.toNat = rest := by
      rw [hnext, ← List.drop_drop, ← hrest, List.drop_left]
    have hlen : (g.stored.drop x.fPos.toNat).length = bs.length + rest.length := by
      rw [← hrest, List.length_append]
    rw [List.length_drop] at hlen
    obtain ⟨l, z, hz, hbegins, hall⟩ := ih hagrees (by dsimp only; omega)
    dsimp only at hbegins hall
    rw [hdrop] at hbegins hall
    refine ⟨(.read size true, .bytes ret bs) :: l, z, exec_cons hy hz, ?_, fun hsizes hmany => ?_⟩
    · rw [← hrest]
      exact (List.prefix_append_right_inj bs).mpr hbegins
    · have hsome : x.fPos < g.stored.length → bs ≠ [] :=
        hright.progress rfl (hsizes size List.mem_cons_self) hpos
      have hstep : x.fPos < g.stored.length → 0 < bs.length :=
        fun hlt => List.length_pos_iff.mpr (hsome hlt)
      rw [List.length_cons] at hmany
      have hgiven : given ((.read size true, .bytes ret bs) :: l) = bs ++ given l := rfl
      rw [hgiven, hall (fun s hs => hsizes s (List.mem_cons_of_mem _ hs)) (by omega), hrest]

/-- After all writes, whatever pages the kernel gave, the dump's pages are the first ones of the
    array and hold what was stored; reads from the start give it; a write stores all or fails; a
    free frees each page once. -/
theorem pages_hold_writes (d : Dump) (h : Run (step d) Granted (.start data) l x) :
    Sound d.arraySize x (log l).stored ∧
    (∀ given, (log l).given = some given → given <+: (log l).stored) ∧
    (∀ sizes : List ℕ, ∃ l' y,
      exec (step d) x (.openFile :: sizes.map (.read · true)) = some (l', y) ∧
        given l' <+: (log l).stored ∧
        ((∀ s ∈ sizes, 0 < s) → (log l).stored.length ≤ sizes.length →
          given l' = (log l).stored)) ∧
    (∀ buffer grants, Fresh x grants →
      ∃ ret y, step d x (.write buffer grants) = some (.wrote ret y.currentSize, y) ∧
        (ret = buffer.length ∧ y.currentSize = x.currentSize + buffer.length ∨
          ret = enomem ∧ y.currentSize < x.currentSize + buffer.length)) ∧
    ∃ y, step d x .free = some (.freed x.allocated, y) ∧ x.allocated.Nodup ∧ y.allocated = [] ∧
      ∀ i, y.pages i = 0 := by
  have hagrees := agrees_run h
  refine ⟨hagrees.sound, fun given hgiven => (hagrees.reader given hgiven).1, fun sizes => ?_,
    fun buffer grants hfresh => ?_, ?_⟩
  · obtain ⟨l', y, hy, hbegins, hall⟩ :=
      (hagrees.openFile _ rfl).reads (Int.natCast_nonneg _) sizes
    refine ⟨_, y, exec_cons rfl hy, hbegins, fun hsizes hmany => hall hsizes ?_⟩
    exact Nat.le_trans hmany (Nat.le_add_left _ _)
  · obtain ⟨ret, y, hy, -, hends⟩ := hagrees.write hfresh buffer
    exact ⟨ret, y, hy, hends⟩
  · obtain ⟨y, hy, hnil, hempty⟩ := hagrees.free
    have hsize := hempty.sound.size
    refine ⟨y, hy, hagrees.sound.paged.nodup, hnil, fun i => hempty.sound.paged.rest i ?_⟩
    rw [hsize]
    exact Nat.zero_le _

def sampleOps : List Op :=
  [.write (List.replicate 4095 1) [some 8192], .write [2, 3, 4] [none], .openFile,
    .write [5, 6] [some 4096], .read 4095 true, .read 7 true]

theorem pages_hold_sample : ∃ l x,
    exec (step .status) (.start fun _ _ => 0) sampleOps = some (l, x) ∧
    Sound 1024 x (log l).stored ∧ (log l).stored.drop 4094 = [1, 2, 5, 6] ∧
    (log l).given.map List.length = some 4096 ∧
    ∃ y, step .status x .free = some (.freed [8192, 4096], y) ∧ y.allocated = [] := by
  have hallowed : Allowed (step .status) Granted (.start fun _ _ => 0) sampleOps := by
    decide +kernel
  have hsome : (exec (step .status) (.start fun _ _ => 0) sampleOps).map (fun r =>
      (r.2.allocated, (log r.1).stored.drop 4094, (log r.1).given.map List.length)) =
      some ([8192, 4096], [1, 2, 5, 6], some 4096) := by
    decide +kernel
  obtain ⟨⟨l, x⟩, hexec, he⟩ := Option.map_eq_some_iff.mp hsome
  simp only [Prod.mk.injEq] at he
  obtain ⟨hallocated, hstored, hgiven⟩ := he
  obtain ⟨hsound, -, -, -, y, hfree, -, hnil, -⟩ :=
    pages_hold_writes .status (Run.of_allowed hexec hallowed)
  rw [hallocated] at hfree
  exact ⟨l, x, hexec, hsound, hstored, hgiven, y, hfree, hnil⟩

end PvrServices.Hwrec
