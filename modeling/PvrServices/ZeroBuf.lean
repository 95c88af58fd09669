import PvrServices.AllocMemory

set_option autoImplicit false

/-!
# Memory that is set to zero

`ZeroBuf` of a buffer that `BM_Alloc` makes. Bytes are named by their processor physical addresses.
A kernel address, a contiguous piece and the pages of an area lead to the same bytes as long as the
mapping has memory there.
-/
namespace PvrServices.ZeroBuf
open Words BlockHeap BufferStore AllocMemory
open Mmaps (AreaData linuxMemAreaToCpuPAddr pageSize pageAlign)
open OsAreas hiding makeArea releaseArea
open BufferManager (backingstoreSysmemNoncontig cpuVAddrAt)

/-- `LinuxMemAreaToCpuPAddr`; past the end of a list of pages there is nothing. -/
def cpuByte : AreaData → ℕ → Option ℕ
  | .ioRemap addr, o => some (u32 (addr + o))
  | .externalKvContig addr, o => some (u32 (addr + o))
  | .io addr, o => some (u32 (addr + o))
  | .externalKv pages, o => (pages[o / pageSize]?).map fun p => u32 (p + o % pageSize)
  | .vmalloc pages, o => (pages[o / pageSize]?).map fun p => u32 (p + o % pageSize)
  | .allocPages pages, o => (pages[o / pageSize]?).map fun p => u32 (p + o % pageSize)
  | .subAlloc parent byteOffset, o => cpuByte parent (u32 (byteOffset + o))

/-- What `OSAllocPages` and `OSReservePhys` make for the map type of a heap. -/
def rootData (attribs : ℕ) : AreaKind → Option AreaData
  | .pages frames =>
    if mapType attribs = .singleProcess then some (.allocPages frames) else some (.vmalloc frames)
  | .phys base => if mapType attribs = .singleProcess then some (.io base) else some (.ioRemap base)
  | .scatter list => some (.externalKv list)
  | .sub _ _ => none

def rootArea (s : Store) (attribs a : ℕ) : Option AreaData :=
  (s.areas.blocks a).bind fun b => rootData attribs b.content.kind

def areaData (s : Store) (attribs a : ℕ) : Option AreaData :=
  (s.areas.blocks a).bind fun b =>
    match b.content.kind with
    | .sub parent o => (rootArea s attribs parent).map fun d => .subAlloc d o
    | kind => rootData attribs kind

def bytesAt (byte : ℕ → Option ℕ) : ℕ → ℕ → Option (List ℕ)
  | 0, _ => some []
  | n + 1, o => (byte o).bind fun x => (bytesAt byte n (o + 1)).map fun l => x :: l

def blockAt (p n : ℕ) : List ℕ := (List.range n).map fun i => u32 (p + i)

def blockBytes (remaining p : ℕ) : ℕ :=
  if p % pageSize ≠ 0 then min remaining (u32Sub (pageAlign p) p) else min remaining pageSize

theorem blockBytes_pos {remaining : ℕ} (p : ℕ) (h : remaining ≠ 0) :
    0 < blockBytes remaining (u32 p) := by
  have hp := u32_lt p
  generalize u32 p = x at hp
  have hsub := u32Sub_eq_mod (pageAlign_lt x) hp
  have hround : pageAlign x = (x + 4095) % 4294967296 / 4096 * 4096 := by
    unfold pageAlign pageSize
    rw [u32_eq_mod]
  unfold blockBytes
  split
  · rename_i hodd
    unfold pageSize at hodd
    rw [hsub, hround]
    omega
  · unfold pageSize
    omega

def zeroLoop (byte : ℕ → Option ℕ) (lin : ℕ → Bool) (remaining offset : ℕ) :
    Option (Bool × List ℕ) :=
  if _h : remaining = 0 then some (true, [])
  else
    (byte offset).bind fun p =>
      let n := blockBytes remaining (u32 p)
      if lin (u32 p) then
        (zeroLoop byte lin (remaining - n) (u32 (offset + n))).map fun r =>
          (r.1, blockAt (u32 p) n ++ r.2)
      else some (false, [])
termination_by remaining
decreasing_by exact Nat.sub_lt (Nat.pos_of_ne_zero _h) (blockBytes_pos p _h)

/-- `ZeroBuf`: whether it succeeds, and the bytes that it has set to zero. A kernel address leads
    into the area of the mapping. -/
def zeroBuf (s : Store) (attribs : ℕ) (b : Buf) (m : Mapping) (bytes : ℕ) (lin : ℕ → Bool) :
    Option (Bool × List ℕ) :=
  if b.cpuVAddr ≠ 0 then do
    let d ← rootArea s attribs m.hOSMemHandle
    (bytesAt (cpuByte d) bytes (u32Sub b.cpuVAddr m.cpuVAddr)).map fun l => (true, l)
  else if m.origin = .contiguous ∨ m.origin = .wrapped then
    if lin b.cpuPAddr then some (true, blockAt b.cpuPAddr bytes) else some (false, [])
  else do
    let d ← areaData s attribs b.hOSMemHandle
    zeroLoop (cpuByte d) lin bytes 0

variable {f : ℕ → Option ℕ} {lin : ℕ → Bool} {n k o p x : ℕ} {w l l' : List ℕ} {d : AreaData}

theorem bytesAt_of {g : ℕ → ℕ} (h : ∀ i, i < n → f (o + i) = some (g i)) :
    bytesAt f n o = some ((List.range n).map g) := by
  induction n generalizing o g with
  | zero => rfl
  | succ n ih =>
    have htail : bytesAt f n (o + 1) = some ((List.range n).map fun i => g (i + 1)) := by
      apply ih
      intro i hi
      have hnext := h (i + 1) (by omega)
      rw [Nat.add_assoc, Nat.add_comm 1 i]
      exact hnext
    unfold bytesAt
    rw [← Nat.add_zero o, h 0 (by omega), Option.bind_some, Nat.add_zero, htail,
      List.range_succ_eq_map, List.map_cons, List.map_map]
    rfl

theorem bytesAt_congr {g : ℕ → Option ℕ} (h : ∀ i, i < n → f (o + i) = g (k + i)) :
    bytesAt f n o = bytesAt g n k := by
  induction n generalizing o k with
  | zero => rfl
  | succ n ih =>
    have hhead : f o = g k := h 0 (by omega)
    have htail : bytesAt f n (o + 1) = bytesAt g n (k + 1) := by
      apply ih
      intro i hi
      have hnext := h (i + 1) (by omega)
      rw [Nat.add_assoc, Nat.add_assoc, Nat.add_comm 1 i]
      exact hnext
    unfold bytesAt
    rw [hhead, htail]

theorem bytesAt_isSome (h : bytesAt f n o = some l) : ∀ i, i < n → ∃ x, f (o + i) = some x := by
  induction n generalizing o l with
  | zero =>
    intro i hi
    omega
  | succ n ih =>
    unfold bytesAt at h
    obtain ⟨x, hx, h⟩ := Option.bind_eq_some_iff.mp h
    obtain ⟨l', hl', -⟩ := Option.map_eq_some_iff.mp h
    intro i hi
    cases i with
    | zero => exact ⟨x, hx⟩
    | succ i =>
      obtain ⟨y, hy⟩ := ih hl' i (by omega)
      refine ⟨y, ?_⟩
      rw [← hy, Nat.add_assoc, Nat.add_comm 1 i]

theorem bytesAt_eq (h : bytesAt f n o = some l) :
    l = (List.range n).map fun i => (f (o + i)).getD 0 := by
  have hall := bytesAt_isSome h
  have hof : bytesAt f n o = some ((List.range n).map fun i => (f (o + i)).getD 0) := by
    apply bytesAt_of
    intro i hi
    obtain ⟨x, hx⟩ := hall i hi
    rw [hx]
    rfl
  exact Option.some.inj (h.symm.trans hof)

theorem mem_bytesAt (h : bytesAt f n o = some l) : x ∈ l ↔ ∃ i, i < n ∧ f (o + i) = some x := by
  have hall := bytesAt_isSome h
  rw [bytesAt_eq h, List.mem_map]
  constructor
  · intro hx
    obtain ⟨i, hi, heq⟩ := hx
    have hlt := List.mem_range.mp hi
    obtain ⟨y, hy⟩ := hall i hlt
    rw [hy] at heq
    refine ⟨i, hlt, ?_⟩
    rw [hy, ← heq]
    rfl
  · intro hx
    obtain ⟨i, hi, heq⟩ := hx
    refine ⟨i, List.mem_range.mpr hi, ?_⟩
    rw [heq]
    rfl

theorem bytesAt_nodup (h : bytesAt f n o = some l)
    (hinj : ∀ i j, i < n → j < n → f (o + i) = f (o + j) → i = j) : l.Nodup := by
  have hall := bytesAt_isSome h
  rw [bytesAt_eq h]
  refine List.Nodup.map_on ?_ List.nodup_range
  intro i hi j hj heq
  obtain ⟨x, hx⟩ := hall i (List.mem_range.mp hi)
  obtain ⟨y, hy⟩ := hall j (List.mem_range.mp hj)
  apply hinj i j (List.mem_range.mp hi) (List.mem_range.mp hj)
  rw [hx, hy] at heq ⊢
  exact congrArg some heq

theorem bytesAt_append (h : bytesAt f n o = some l) (h' : bytesAt f k (o + n) = some l') :
    bytesAt f (n + k) o = some (l ++ l') := by
  induction n generalizing o l with
  | zero =>
    rw [← Option.some.inj h, Nat.zero_add]
    exact h'
  | succ n ih =>
    unfold bytesAt at h
    obtain ⟨x, hx, h⟩ := Option.bind_eq_some_iff.mp h
    obtain ⟨l₁, hl₁, heq⟩ := Option.map_eq_some_iff.mp h
    have hrest : o + 1 + n = o + (n + 1) := by omega
    have htail := ih hl₁ (by rw [hrest]; exact h')
    have hcount : n + 1 + k = n + k + 1 := by omega
    rw [hcount, ← heq]
    unfold bytesAt
    rw [hx, Option.bind_some, htail]
    rfl

theorem bytesAt_drop (h : bytesAt f (n + k) o = some l) : ∃ l', bytesAt f k (o + n) = some l' := by
  have hall := bytesAt_isSome h
  refine ⟨_, bytesAt_of (g := fun i => (f (o + n + i)).getD 0) fun i hi => ?_⟩
  obtain ⟨x, hx⟩ := hall (n + i) (by omega)
  rw [Nat.add_assoc, hx]
  rfl

def Paged (f : ℕ → Option ℕ) : Prop :=
  ∀ o p, f o = some p → p < 4294967296 ∧
    ∀ i, p % 4096 + i < 4096 → f (o + i) = some (u32 (p + i))

theorem blockBytes_le (hp : p < 4294967296) :
    blockBytes n p ≤ n ∧ p % 4096 + blockBytes n p ≤ 4096 := by
  have hsub := u32Sub_eq_mod (pageAlign_lt p) hp
  have hround : pageAlign p = (p + 4095) % 4294967296 / 4096 * 4096 := by
    unfold pageAlign pageSize
    rw [u32_eq_mod]
  unfold blockBytes
  split
  · rename_i hodd
    unfold pageSize at hodd
    rw [hsub, hround]
    omega
  · rename_i heven
    unfold pageSize at heven ⊢
    omega

theorem bytesAt_block (hf : Paged f) (ho : f o = some p) :
    bytesAt f (blockBytes n p) o = some (blockAt p (blockBytes n p)) := by
  obtain ⟨hp, hpage⟩ := hf o p ho
  have hle := (blockBytes_le (n := n) hp).2
  apply bytesAt_of
  intro i hi
  apply hpage
  omega

theorem next_offset (hno : o + n ≤ 4294967296) (hk : k ≤ n) :
    n - k = 0 ∨ u32 (o + k) = o + k := by
  by_cases hlast : n - k = 0
  · exact .inl hlast
  · exact .inr (u32_of_lt (by omega))

theorem zeroLoop_ok (hf : Paged f) (hno : o + n ≤ 4294967296)
    (hz : zeroLoop f lin n o = some (true, w)) : bytesAt f n o = some w := by
  induction n using Nat.strong_induction_on generalizing o w with
  | _ n ih =>
    rw [zeroLoop] at hz
    by_cases h0 : n = 0
    · rw [dif_pos h0] at hz
      obtain ⟨-, hw⟩ := Prod.mk.inj (Option.some.inj hz)
      rw [h0, ← hw]
      rfl
    · rw [dif_neg h0] at hz
      obtain ⟨p, hp, hz⟩ := Option.bind_eq_some_iff.mp hz
      have hlt := (hf o p hp).1
      have hpos := blockBytes_pos p h0
      dsimp only at hz
      rw [u32_of_lt hlt] at hz hpos
      obtain ⟨hle, -⟩ := blockBytes_le (n := n) hlt
      have hblock := bytesAt_block (n := n) hf hp
      generalize blockBytes n p = k at hz hpos hle hblock
      split at hz
      · obtain ⟨r, hr, heq⟩ := Option.map_eq_some_iff.mp hz
        obtain ⟨hok, hw⟩ := Prod.mk.inj heq
        have hr' : zeroLoop f lin (n - k) (u32 (o + k)) = some (true, r.2) := by
          rw [hr, ← hok]
        have hrest : bytesAt f (n - k) (o + k) = some r.2 := by
          cases next_offset hno hle with
          | inl hlast =>
            rw [hlast, zeroLoop, dif_pos rfl] at hr'
            rw [hlast, ← (Prod.mk.inj (Option.some.inj hr')).2]
            rfl
          | inr hnext =>
            rw [hnext] at hr'
            exact ih (n - k) (by omega) (by omega) hr'
        have hall := bytesAt_append hblock hrest
        rw [Nat.add_sub_cancel' hle, hw] at hall
        exact hall
      · obtain ⟨hok, -⟩ := Prod.mk.inj (Option.some.inj hz)
        cases hok

/-- The loop comes to an end where every offset leads to a byte. -/
theorem zeroLoop_isSome (lin : ℕ → Bool) (hf : Paged f) (hno : o + n ≤ 4294967296)
    (hb : bytesAt f n o = some l) :
    ∃ r, zeroLoop f lin n o = some r := by
  induction n using Nat.strong_induction_on generalizing o l with
  | _ n ih =>
    rw [zeroLoop]
    by_cases h0 : n = 0
    · rw [dif_pos h0]
      exact ⟨_, rfl⟩
    · rw [dif_neg h0]
      obtain ⟨p, hp⟩ := bytesAt_isSome hb 0 (by omega)
      have hlt := (hf o p hp).1
      have hpos := blockBytes_pos p h0
      rw [Nat.add_zero] at hp
      rw [hp, Option.bind_some]
      dsimp only
      rw [u32_of_lt hlt] at hpos ⊢
      obtain ⟨hle, -⟩ := blockBytes_le (n := n) hlt
      generalize blockBytes n p = k at hpos hle ⊢
      split
      · have hrest : ∃ r, zeroLoop f lin (n - k) (u32 (o + k)) = some r := by
          cases next_offset hno hle with
          | inl hlast =>
            rw [hlast, zeroLoop, dif_pos rfl]
            exact ⟨_, rfl⟩
          | inr hnext =>
            rw [hnext]
            rw [← Nat.add_sub_cancel' hle] at hb
            obtain ⟨l', hl'⟩ := bytesAt_drop hb
            exact ih (n - k) (by omega) (by omega) hl'
        obtain ⟨r, hr⟩ := hrest
        rw [hr]
        exact ⟨_, rfl⟩
      · exact ⟨_, rfl⟩

/-- The byte at `x` belongs to memory of this kind and size. -/
def AreaKind.Holds (size x : ℕ) : AreaKind → Prop
  | .pages frames => ∃ p ∈ frames, p ≤ x ∧ x < p + pageSize
  | .phys base => base ≤ x ∧ x < base + size
  | .scatter list => ∃ p ∈ list, p ≤ x ∧ x < p + pageSize
  | .sub _ _ => False

def Allotted (s : Store) (m : Mapping) (x : ℕ) : Prop :=
  ∃ b, s.areas.blocks m.hOSMemHandle = some b ∧ AreaKind.Holds b.size x b.content.kind

/-- Exactly the bytes of the buffer are in the list, each once, and all were allocated for the
    mapping. -/
structure Exact (s : Store) (attribs : ℕ) (b : Buf) (m : Mapping) (bytes : ℕ) (w : List ℕ) :
    Prop where
  bytes : ∃ d l, rootArea s attribs m.hOSMemHandle = some d ∧
    bytesAt (cpuByte d) bytes (u32Sub b.devVAddr m.devVAddr) = some l ∧ w.Perm l
  once : w.Nodup
  inside : ∀ x, x ∈ w → Allotted s m x

def Cleared (heap : BmHeap) (c : AllocCall) (lin : ℕ → Bool) (r : ℕ × Store) : Prop :=
  ∃ b m w, r.2.bufAt r.1 = some b ∧ r.2.mappingAt b.mapping = some m ∧
    zeroBuf r.2 heap.attribs b m c.size lin = some (true, w) ∧
      Exact r.2 heap.attribs b m c.size w

/-- The buffer at `r.1` and its mapping have no memory, of which `AllocMemory` sets nothing. -/
def Bare (r : ℕ × Store) : Prop :=
  ∃ b m, r.2.bufAt r.1 = some b ∧ r.2.mappingAt b.mapping = some m ∧ b.hOSMemHandle = 0 ∧
    m.hOSMemHandle = 0

def Clears (heap : BmHeap) (c : AllocCall) (flags : ℕ) (lin : ℕ → Bool) (r : ℕ × Store) : Prop :=
  if hasFlag flags memRamBackedAllocation then Cleared heap c lin r else Bare r

def Answers (heap : BmHeap) (c : AllocCall) (lin : ℕ → Bool) (r : ℕ × Store) : Prop :=
  ∀ b m w, r.2.bufAt r.1 = some b → r.2.mappingAt b.mapping = some m →
    zeroBuf r.2 heap.attribs b m c.size lin = some (false, w) → c.zeroed = false

def spanMemory (heap : BmHeap) (flags n : ℕ) : ℕ :=
  if hasFlag flags memDummy then heap.dataPageSize else n

def spanBytes (heap : BmHeap) (flags n : ℕ) : ℕ :=
  if hasFlag heap.attribs backingstoreSysmemNoncontig then
    4096 * pageCount (spanMemory heap flags n)
  else spanMemory heap flags n

def mappingBytes (flags n : ℕ) : ℕ := if hasFlag flags memInterleaved then u32 (n * 2) else n

structure Frames (frames : List ℕ) : Prop where
  aligned : ∀ p, p ∈ frames → p % 4096 = 0 ∧ p < 4294967296
  nodup : frames.Nodup

/-- The kernel has the memory of a span at an address, or at none. -/
def KernelAt (heap : BmHeap) (flags n cpuVAddr : ℕ) : Prop :=
  if mapType heap.attribs = .singleProcess then cpuVAddr = 0
  else cpuVAddr ≠ 0 ∧ cpuVAddr + spanBytes heap flags n ≤ 4294967296

inductive Behind (s : Store) (heap : BmHeap) (flags n : ℕ) (m : Mapping) : Prop where
  | pages {size : ℕ} {mapped : Bool} {frames : List ℕ}
      (sys : hasFlag heap.attribs backingstoreSysmemNoncontig = true) (origin : m.origin = .env)
      (area : s.areas.blocks m.hOSMemHandle = some ⟨size, ⟨.pages frames, mapped⟩⟩)
      (count : frames.length = pageCount (spanMemory heap flags n)) (frames : Frames frames)
  | phys {mapped : Bool} (sys : hasFlag heap.attribs backingstoreSysmemNoncontig = false)
      (origin : m.origin = .contiguous)
      (area : s.areas.blocks m.hOSMemHandle =
        some ⟨spanMemory heap flags n, ⟨.phys m.cpuPAddr, mapped⟩⟩)
      (fits : m.cpuPAddr + spanMemory heap flags n ≤ 4294967296)

/-- `m` is the mapping of a span of `n` bytes that was imported with these flags. -/
structure Span (s : Store) (heap : BmHeap) (flags n : ℕ) (m : Mapping) : Prop where
  lt : n < 4294967296
  size : m.size = mappingBytes flags n
  cpuVAddr : KernelAt heap flags n m.cpuVAddr
  behind : Behind s heap flags n m

/-- `RA_Alloc` answers with a segment at an offset of a span of `n` bytes: of one that is there, or
    of the one that it imports. -/
inductive Offer (s : Store) (heap : BmHeap) (c : AllocCall) (flags n offset : ℕ) : Prop where
  | found {base q : ℕ} {m : Mapping} (found : c.found = some (base, q))
      (mapping : s.mappingAt q = some m) (span : Span s heap flags n m)
      (base : base = m.devVAddr + offset) (fits : offset + c.size ≤ n)
  | imported {base v : ℕ} (found : c.found = none) (again : c.again = some base)
      (range : c.steps.devVAddr = some v) (base : base = v + offset)
      (size : n = pageAlign (c.importSize heap))
      (frames : Frames ((c.imports heap flags).frames (spanMemory heap flags n)))
      (cpuVAddr : mapType heap.attribs ≠ .singleProcess →
        KernelAt heap flags n c.steps.cpuVAddr)
      (fits : offset + c.size ≤ n)

/-- The buffer is empty, or in the memory behind its span, and its handle says where: it is the one
    of the mapping only where the buffer starts there, or the handle does not matter. -/
def InMemory (heap : BmHeap) (c : AllocCall) (flags n offset : ℕ) : Prop :=
  c.size = 0 ∨ (offset + c.size ≤ spanBytes heap flags n ∧
    (hasFlag heap.attribs backingstoreSysmemNoncontig = true →
      mapType heap.attribs = .singleProcess → c.size = mappingBytes flags n → offset = 0))

def pageByte (frames : List ℕ) (o : ℕ) : Option ℕ :=
  (frames[o / pageSize]?).map fun p => u32 (p + o % pageSize)

section
variable {frames : List ℕ} {i base size : ℕ}

theorem pageByte_some (hf : Frames frames) (hx : pageByte frames o = some x) :
    ∃ p, frames[o / 4096]? = some p ∧ p % 4096 = 0 ∧ p < 4294967296 ∧ x = p + o % 4096 := by
  obtain ⟨p, hp, heq⟩ := Option.map_eq_some_iff.mp hx
  obtain ⟨haligned, hlt⟩ := hf.aligned p (List.mem_of_getElem? hp)
  refine ⟨p, hp, haligned, hlt, ?_⟩
  rw [← heq, u32_of_lt (by unfold pageSize; omega)]
  rfl

theorem pageByte_isSome : (∃ x, pageByte frames o = some x) ↔ o < 4096 * frames.length := by
  constructor
  · intro h
    obtain ⟨x, hx⟩ := h
    obtain ⟨p, hp, -⟩ := Option.map_eq_some_iff.mp hx
    have hlt := (List.getElem?_eq_some_iff.mp hp).1
    unfold pageSize at hlt
    omega
  · intro h
    have hlt : o / 4096 < frames.length := by omega
    have hp : frames[o / 4096]? = some frames[o / 4096] := List.getElem?_eq_getElem hlt
    refine ⟨u32 (frames[o / 4096] + o % 4096), ?_⟩
    unfold pageByte pageSize
    rw [hp]
    rfl

theorem pageByte_inj (hf : Frames frames) (hx : pageByte frames o = some x)
    (hy : pageByte frames k = some x) : o = k := by
  obtain ⟨p, hp, haligned, -, hxp⟩ := pageByte_some hf hx
  obtain ⟨q, hq, haligned', -, hxq⟩ := pageByte_some hf hy
  have hpq : p = q := by omega
  rw [← hpq] at hq
  have hlt := (List.getElem?_eq_some_iff.mp hp).1
  have hpage : o / 4096 = k / 4096 :=
    (List.getElem?_inj hlt hf.nodup).mp (hp.trans hq.symm)
  omega

theorem pageByte_paged (hf : Frames frames) : Paged (pageByte frames) := by
  intro o p hp
  obtain ⟨q, hq, haligned, hlt, hpq⟩ := pageByte_some hf hp
  refine ⟨by omega, fun i hi => ?_⟩
  have hpage : (o + i) / 4096 = o / 4096 := by omega
  have hrest : (o + i) % 4096 = o % 4096 + i := by omega
  unfold pageByte pageSize
  rw [hpage, hq, hrest, hpq, Nat.add_assoc]
  rfl

theorem pages_covered (hf : Frames frames) (hle : o + n ≤ 4096 * frames.length) :
    ∃ l, bytesAt (pageByte frames) n o = some l ∧ l.Nodup ∧
      ∀ x, x ∈ l → ∃ p ∈ frames, p ≤ x ∧ x < p + pageSize := by
  have hall : ∀ i, i < n → pageByte frames (o + i) = some ((pageByte frames (o + i)).getD 0) := by
    intro i hi
    obtain ⟨x, hx⟩ := pageByte_isSome.mpr (show o + i < 4096 * frames.length by omega)
    rw [hx]
    rfl
  have hl := bytesAt_of hall
  refine ⟨_, hl, bytesAt_nodup hl ?_, ?_⟩
  · intro i j hi hj heq
    rw [hall i hi] at heq
    have hsame := pageByte_inj hf (hall i hi) heq.symm
    omega
  · intro x hx
    obtain ⟨i, hi, hxi⟩ := (mem_bytesAt hl).mp hx
    obtain ⟨p, hp, -, -, hxp⟩ := pageByte_some hf hxi
    refine ⟨p, List.mem_of_getElem? hp, ?_⟩
    unfold pageSize
    omega

theorem pages_past (h0 : n ≠ 0) (hgt : 4096 * frames.length < o + n) :
    bytesAt (pageByte frames) n o = none := by
  by_contra hsome
  obtain ⟨l, hl⟩ := Option.ne_none_iff_exists'.mp hsome
  obtain ⟨x, hx⟩ := bytesAt_isSome hl (n - 1) (by omega)
  have hlt := pageByte_isSome.mp ⟨x, hx⟩
  omega

def physByte (base o : ℕ) : Option ℕ := some (u32 (base + o))

theorem phys_bytes : bytesAt (physByte base) n o = some (blockAt (u32 (base + o)) n) := by
  apply bytesAt_of
  intro i hi
  unfold physByte
  rw [u32_eq_mod, u32_eq_mod, u32_eq_mod]
  congr 1
  omega

theorem phys_covered (base : ℕ) (hle : o + n ≤ size) (hfits : base + size ≤ 4294967296) :
    (blockAt (u32 (base + o)) n).Nodup ∧
      ∀ x, x ∈ blockAt (u32 (base + o)) n → base ≤ x ∧ x < base + size := by
  have hat {i : ℕ} (hi : i < n) : u32 (u32 (base + o) + i) = base + o + i := by
    rw [u32_eq_mod, u32_eq_mod]
    omega
  constructor
  · refine List.Nodup.map_on ?_ List.nodup_range
    intro i hi j hj heq
    rw [hat (List.mem_range.mp hi), hat (List.mem_range.mp hj)] at heq
    omega
  · intro x hx
    obtain ⟨i, hi, heq⟩ := List.mem_map.mp hx
    have hlt := List.mem_range.mp hi
    rw [hat hlt] at heq
    omega

theorem phys_past (base : ℕ) (h0 : n ≠ 0) (hgt : size < o + n) (hle : o + n ≤ 4294967296) :
    ∃ x ∈ blockAt (u32 (base + o)) n, ¬(base ≤ x ∧ x < base + size) := by
  refine ⟨u32 (u32 (base + o) + (n - 1)), List.mem_map.mpr ⟨n - 1, List.mem_range.mpr (by omega),
    rfl⟩, ?_⟩
  rw [u32_eq_mod, u32_eq_mod]
  omega

end

/-- What `AllocMemory` fills into the buffer before `ZeroBuf`. -/
structure Handed (s : Store) (b : Buf) (m : Mapping) (offset bytes : ℕ) : Prop where
  cpuVAddr : b.cpuVAddr = cpuVAddrAt m.cpuVAddr offset
  cpuPAddr : b.cpuPAddr = u32 (m.cpuPAddr + offset)
  devVAddr : u32Sub b.devVAddr m.devVAddr = offset
  handle : (bytes = m.size ∧ b.hOSMemHandle = m.hOSMemHandle) ∨
    (bytes ≠ m.size ∧ ∃ z x,
      s.areas.blocks b.hOSMemHandle = some ⟨z, ⟨.sub m.hOSMemHandle offset, x⟩⟩)

section
variable {s : Store} {heap : BmHeap} {b : Buf} {m : Mapping} {flags offset bytes size a : ℕ}
  {mapped : Bool} {frames : List ℕ}

theorem rootArea_pages (attribs : ℕ)
    (ha : s.areas.blocks a = some ⟨size, ⟨.pages frames, mapped⟩⟩) :
    ∃ d, rootArea s attribs a = some d ∧ cpuByte d = pageByte frames := by
  unfold rootArea rootData
  rw [ha, Option.bind_some]
  dsimp only
  by_cases hsingle : mapType attribs = .singleProcess
  · rw [if_pos hsingle]
    exact ⟨_, rfl, rfl⟩
  · rw [if_neg hsingle]
    exact ⟨_, rfl, rfl⟩

theorem rootArea_phys (attribs : ℕ) {base : ℕ}
    (ha : s.areas.blocks a = some ⟨size, ⟨.phys base, mapped⟩⟩) :
    ∃ d, rootArea s attribs a = some d ∧ cpuByte d = physByte base := by
  unfold rootArea rootData
  rw [ha, Option.bind_some]
  dsimp only
  by_cases hsingle : mapType attribs = .singleProcess
  · rw [if_pos hsingle]
    exact ⟨_, rfl, rfl⟩
  · rw [if_neg hsingle]
    exact ⟨_, rfl, rfl⟩

theorem bytesAt_sub (hle : offset + n ≤ 4294967296) :
    bytesAt (cpuByte (.subAlloc d offset)) n 0 = bytesAt (cpuByte d) n offset := by
  apply bytesAt_congr
  intro i hi
  show cpuByte d (u32 (offset + (0 + i))) = cpuByte d (offset + i)
  rw [Nat.zero_add, u32_of_lt (by omega)]

theorem paged_sub (hf : Frames frames) (hd : cpuByte d = pageByte frames) (offset : ℕ) :
    Paged (cpuByte (.subAlloc d offset)) := by
  have hsub (o : ℕ) : cpuByte (.subAlloc d offset) o = pageByte frames (u32 (offset + o)) := by
    show cpuByte d (u32 (offset + o)) = _
    rw [hd]
  intro o p hp
  rw [hsub] at hp
  obtain ⟨hlt, hpage⟩ := pageByte_paged hf _ _ hp
  refine ⟨hlt, fun i hi => ?_⟩
  obtain ⟨q, -, haligned, -, hpq⟩ := pageByte_some hf hp
  have hnext : u32 (offset + (o + i)) = u32 (offset + o) + i := by
    rw [u32_eq_mod] at hpq ⊢
    rw [u32_eq_mod]
    omega
  rw [hsub, hnext]
  exact hpage i hi

theorem kernel_offset (hk : KernelAt heap flags n m.cpuVAddr) (h0 : bytes ≠ 0)
    (hle : offset + bytes ≤ spanBytes heap flags n)
    (hsingle : mapType heap.attribs ≠ .singleProcess) :
    cpuVAddrAt m.cpuVAddr offset ≠ 0 ∧
      u32Sub (cpuVAddrAt m.cpuVAddr offset) m.cpuVAddr = offset := by
  unfold KernelAt at hk
  rw [if_neg hsingle] at hk
  unfold cpuVAddrAt
  rw [if_neg hk.1, u32_of_lt (by omega), u32Sub_of_le (by omega)]
  omega

theorem kernel_none (hk : KernelAt heap flags n m.cpuVAddr)
    (hsingle : mapType heap.attribs = .singleProcess) : cpuVAddrAt m.cpuVAddr offset = 0 := by
  unfold KernelAt at hk
  rw [if_pos hsingle] at hk
  unfold cpuVAddrAt
  rw [if_pos hk]

theorem zeroBuf_kernel (hroot : rootArea s a m.hOSMemHandle = some d) (hv : b.cpuVAddr ≠ 0) :
    zeroBuf s a b m bytes lin =
      (bytesAt (cpuByte d) bytes (u32Sub b.cpuVAddr m.cpuVAddr)).map fun l => (true, l) := by
  unfold zeroBuf
  rw [if_pos hv, hroot]
  rfl

theorem zeroBuf_pages (hv : b.cpuVAddr = 0) (horigin : m.origin = .env)
    (hd : areaData s a b.hOSMemHandle = some d) :
    zeroBuf s a b m bytes lin = zeroLoop (cpuByte d) lin bytes 0 := by
  have hpages : ¬(m.origin = .contiguous ∨ m.origin = .wrapped) := by
    rw [horigin]
    decide
  unfold zeroBuf
  rw [if_neg (not_not.mpr hv), if_neg hpages, hd]
  rfl

theorem zeroBuf_contig (hv : b.cpuVAddr = 0) (horigin : m.origin = .contiguous) :
    zeroBuf s a b m bytes lin =
      if lin b.cpuPAddr then some (true, blockAt b.cpuPAddr bytes) else some (false, []) := by
  unfold zeroBuf
  rw [if_neg (not_not.mpr hv), if_pos (Or.inl horigin)]

theorem Handed.areaData (hh : Handed s b m offset bytes)
    (harea : s.areas.blocks m.hOSMemHandle = some ⟨size, ⟨.pages frames, mapped⟩⟩)
    (hroot : rootArea s a m.hOSMemHandle = some d) :
    (bytes = m.size ∧ areaData s a b.hOSMemHandle = some d) ∨
      (bytes ≠ m.size ∧ areaData s a b.hOSMemHandle = some (.subAlloc d offset)) := by
  cases hh.handle with
  | inl h =>
    refine .inl ⟨h.1, ?_⟩
    rw [h.2, ← hroot]
    unfold ZeroBuf.areaData rootArea
    rw [harea]
    rfl
  | inr h =>
    obtain ⟨hne, z, x, hx⟩ := h
    refine .inr ⟨hne, ?_⟩
    unfold ZeroBuf.areaData
    rw [hx, Option.bind_some]
    dsimp only
    rw [hroot]
    rfl

theorem zeroLoop_all (hf : Paged f) (hn : n ≤ 4294967296) (hb : bytesAt f n 0 = some l)
    (hok : ∀ w, zeroLoop f lin n 0 ≠ some (false, w)) : zeroLoop f lin n 0 = some (true, l) := by
  obtain ⟨⟨ok, w⟩, hr⟩ := zeroLoop_isSome lin hf (by omega) hb
  cases ok with
  | false => exact absurd hr (hok w)
  | true =>
    have hw := zeroLoop_ok hf (by omega) hr
    rw [hr, ← Option.some.inj (hw.symm.trans hb)]

theorem exact_pages {c : AllocCall}
    (sys : hasFlag heap.attribs backingstoreSysmemNoncontig = true) (horigin : m.origin = .env)
    (harea : s.areas.blocks m.hOSMemHandle = some ⟨size, ⟨.pages frames, mapped⟩⟩)
    (hcount : frames.length = pageCount (spanMemory heap flags n)) (hframes : Frames frames)
    (hk : KernelAt heap flags n m.cpuVAddr) (hsize : m.size = mappingBytes flags n)
    (hh : Handed s b m offset c.size) (hle : offset + c.size ≤ n) (hlt : n < 4294967296)
    (hok : ∀ w, zeroBuf s heap.attribs b m c.size lin ≠ some (false, w)) :
    (∃ w, zeroBuf s heap.attribs b m c.size lin = some (true, w) ∧
      Exact s heap.attribs b m c.size w) ↔ InMemory heap c flags n offset := by
  obtain ⟨d, hroot, hd⟩ := rootArea_pages heap.attribs harea
  have hbytes : spanBytes heap flags n = 4096 * frames.length := by
    unfold spanBytes
    rw [if_pos sys, hcount]
  have hpaged : Paged (cpuByte d) := by
    rw [hd]
    exact pageByte_paged hframes
  constructor
  · intro h
    obtain ⟨w, hw, hexact⟩ := h
    obtain ⟨d', l, hroot', hl, hperm⟩ := hexact.bytes
    rw [← Option.some.inj (hroot.symm.trans hroot'), hh.devVAddr, hd] at hl
    by_cases h0 : c.size = 0
    · exact .inl h0
    refine .inr ⟨?_, fun _ hsingle hwhole => ?_⟩
    · by_contra hgt
      rw [pages_past h0 (by omega)] at hl
      cases hl
    · have hv : b.cpuVAddr = 0 := hh.cpuVAddr.trans (kernel_none hk hsingle)
      cases hh.areaData harea hroot with
      | inr hpart => exact absurd (hwhole.trans hsize.symm) hpart.1
      | inl hall =>
        rw [zeroBuf_pages hv horigin hall.2] at hw
        have hfirst := zeroLoop_ok hpaged (by omega) hw
        rw [hd] at hfirst
        obtain ⟨x, hx⟩ := bytesAt_isSome hfirst 0 (by omega)
        have hmem := (mem_bytesAt hfirst).mpr ⟨0, by omega, hx⟩
        obtain ⟨i, -, hi⟩ := (mem_bytesAt hl).mp (hperm.mem_iff.mp hmem)
        have hsame := pageByte_inj hframes hx hi
        omega
  · intro h
    have hall (l : List ℕ) (hl : bytesAt (cpuByte d) c.size offset = some l) (hnodup : l.Nodup)
        (hin : ∀ x, x ∈ l → ∃ p ∈ frames, p ≤ x ∧ x < p + pageSize) :
        Exact s heap.attribs b m c.size l := by
      refine ⟨⟨d, l, hroot, ?_, List.Perm.refl l⟩, hnodup, fun x hx => ⟨_, harea, hin x hx⟩⟩
      rw [hh.devVAddr]
      exact hl
    by_cases h0 : c.size = 0
    · have hempty : bytesAt (cpuByte d) c.size offset = some [] := by
        rw [h0]
        rfl
      have hresult : zeroBuf s heap.attribs b m c.size lin = some (true, []) := by
        by_cases hv : b.cpuVAddr = 0
        · cases hh.areaData harea hroot with
          | inl hwhole =>
            rw [zeroBuf_pages hv horigin hwhole.2, h0, zeroLoop, dif_pos rfl]
          | inr hpart =>
            rw [zeroBuf_pages hv horigin hpart.2, h0, zeroLoop, dif_pos rfl]
        · rw [zeroBuf_kernel hroot hv, h0]
          rfl
      exact ⟨[], hresult, hall [] hempty List.nodup_nil fun x hx => absurd hx List.not_mem_nil⟩
    · obtain ⟨hcovered, hhandle⟩ := h.resolve_left h0
      obtain ⟨l, hl, hnodup, hin⟩ := pages_covered (n := c.size) hframes (hbytes ▸ hcovered)
      rw [← hd] at hl
      refine ⟨l, ?_, hall l hl hnodup hin⟩
      by_cases hsingle : mapType heap.attribs = .singleProcess
      · have hv : b.cpuVAddr = 0 := hh.cpuVAddr.trans (kernel_none hk hsingle)
        cases hh.areaData harea hroot with
        | inl hwhole =>
          have hstart := hhandle sys hsingle (hwhole.1.trans hsize)
          rw [zeroBuf_pages hv horigin hwhole.2] at hok ⊢
          rw [hstart] at hl
          exact zeroLoop_all hpaged (by omega) hl hok
        | inr hpart =>
          rw [zeroBuf_pages hv horigin hpart.2] at hok ⊢
          rw [← bytesAt_sub (by omega)] at hl
          exact zeroLoop_all (paged_sub hframes hd offset) (by omega) hl hok
      · obtain ⟨hv, hat⟩ := kernel_offset hk h0 hcovered hsingle
        rw [← hh.cpuVAddr] at hv hat
        rw [zeroBuf_kernel hroot hv, hat, hl]
        rfl

theorem exact_phys {c : AllocCall}
    (sys : hasFlag heap.attribs backingstoreSysmemNoncontig = false)
    (horigin : m.origin = .contiguous)
    (harea : s.areas.blocks m.hOSMemHandle =
      some ⟨spanMemory heap flags n, ⟨.phys m.cpuPAddr, mapped⟩⟩)
    (hfits : m.cpuPAddr + spanMemory heap flags n ≤ 4294967296)
    (hk : KernelAt heap flags n m.cpuVAddr) (hh : Handed s b m offset c.size)
    (hle : offset + c.size ≤ n) (hlt : n < 4294967296)
    (hok : ∀ w, zeroBuf s heap.attribs b m c.size lin ≠ some (false, w)) :
    (∃ w, zeroBuf s heap.attribs b m c.size lin = some (true, w) ∧
      Exact s heap.attribs b m c.size w) ↔ InMemory heap c flags n offset := by
  obtain ⟨d, hroot, hd⟩ := rootArea_phys heap.attribs harea
  have hbytes : spanBytes heap flags n = spanMemory heap flags n := by
    unfold spanBytes
    rw [if_neg (Bool.eq_false_iff.mp sys)]
  have hnot : ¬hasFlag heap.attribs backingstoreSysmemNoncontig = true := Bool.eq_false_iff.mp sys
  have hlist : bytesAt (cpuByte d) c.size offset =
      some (blockAt (u32 (m.cpuPAddr + offset)) c.size) := by
    rw [hd]
    exact phys_bytes
  constructor
  · intro h
    obtain ⟨w, hw, hexact⟩ := h
    obtain ⟨d', l, hroot', hl, hperm⟩ := hexact.bytes
    rw [← Option.some.inj (hroot.symm.trans hroot'), hh.devVAddr, hlist] at hl
    by_cases h0 : c.size = 0
    · exact .inl h0
    refine .inr ⟨?_, fun h => absurd h hnot⟩
    by_contra hgt
    obtain ⟨x, hx, hout⟩ := phys_past m.cpuPAddr h0
      (show spanMemory heap flags n < offset + c.size by omega) (by omega)
    rw [Option.some.inj hl] at hx
    obtain ⟨z, hz, hholds⟩ := hexact.inside x (hperm.mem_iff.mpr hx)
    rw [harea] at hz
    rw [← Option.some.inj hz] at hholds
    exact hout hholds
  · intro h
    have hall (hnodup : (blockAt (u32 (m.cpuPAddr + offset)) c.size).Nodup)
        (hin : ∀ x, x ∈ blockAt (u32 (m.cpuPAddr + offset)) c.size → m.cpuPAddr ≤ x ∧
          x < m.cpuPAddr + spanMemory heap flags n) :
        Exact s heap.attribs b m c.size (blockAt (u32 (m.cpuPAddr + offset)) c.size) := by
      refine ⟨⟨d, _, hroot, ?_, List.Perm.refl _⟩, hnodup, fun x hx => ⟨_, harea, hin x hx⟩⟩
      rw [hh.devVAddr]
      exact hlist
    have hcontig (hv : b.cpuVAddr = 0) : zeroBuf s heap.attribs b m c.size lin =
        some (true, blockAt (u32 (m.cpuPAddr + offset)) c.size) := by
      have hresult : zeroBuf s heap.attribs b m c.size lin = if lin b.cpuPAddr then
          some (true, blockAt b.cpuPAddr c.size) else some (false, []) := zeroBuf_contig hv horigin
      by_cases hlin : lin b.cpuPAddr = true
      · rw [hresult, if_pos hlin, hh.cpuPAddr]
      · rw [if_neg hlin] at hresult
        exact absurd hresult (hok [])
    by_cases h0 : c.size = 0
    · have hresult : zeroBuf s heap.attribs b m c.size lin =
          some (true, blockAt (u32 (m.cpuPAddr + offset)) c.size) := by
        by_cases hv : b.cpuVAddr = 0
        · exact hcontig hv
        · rw [zeroBuf_kernel hroot hv, h0]
          rfl
      refine ⟨_, hresult, hall ?_ ?_⟩
      · rw [h0]
        exact List.nodup_nil
      · rw [h0]
        intro x hx
        cases hx
    · obtain ⟨hcovered, -⟩ := h.resolve_left h0
      obtain ⟨hnodup, hin⟩ := phys_covered m.cpuPAddr (hbytes ▸ hcovered) hfits
      refine ⟨_, ?_, hall hnodup hin⟩
      by_cases hsingle : mapType heap.attribs = .singleProcess
      · exact hcontig (hh.cpuVAddr.trans (kernel_none hk hsingle))
      · obtain ⟨hv, hat⟩ := kernel_offset hk h0 hcovered hsingle
        rw [← hh.cpuVAddr] at hv hat
        rw [zeroBuf_kernel hroot hv, hat, hlist]
        rfl

end

section
variable {s t u : Store} {heap : BmHeap} {c : AllocCall} {ic : ImportCall} {b : Buf} {m : Mapping}
  {flags offset bytes size a q base : ℕ} {r : ℕ × Store}

/-- A successful `BM_Alloc` of backed memory: the buffer at `p` that it has filled in over the
    state `t` that `RA_Alloc` leaves. -/
structure Filled (t u : Store) (c : AllocCall) (p base q : ℕ) (m : Mapping) : Prop where
  buf : ∃ b, u.bufAt p = some b ∧ b.mapping = q ∧ b.devVAddr = base ∧
    Handed u b m (u32Sub base m.devVAddr) c.size
  mapping : u.mappingAt q = some { m with arena := true }
  areas : ∀ i z, t.areas.blocks i = some z → u.areas.blocks i = some z

theorem enterBuf_rest (he : enterBuf s p = some (k, u)) :
    u.mappings = s.mappings ∧ u.areas = s.areas := by
  unfold enterBuf at he
  obtain ⟨b, -, he⟩ := Option.bind_eq_some_iff.mp he
  obtain ⟨w, hw, he⟩ := Option.bind_eq_some_iff.mp he
  have hrest := (writeBuf_spec hw).2
  rw [← (Prod.mk.inj (Option.some.inj he)).2, hrest]
  exact ⟨rfl, rfl⟩

theorem allocZero_filled {r : Bool × Store} (hr : allocZero u c flags p base q m a = some r)
    (hok : r.1 = true) (he : enterBuf r.2 p = some (k, s))
    (hareas : ∀ i z, t.areas.blocks i = some z → u.areas.blocks i = some z)
    (hhandle : (c.size = m.size ∧ a = m.hOSMemHandle) ∨ (c.size ≠ m.size ∧ ∃ z x,
      u.areas.blocks a = some ⟨z, ⟨.sub m.hOSMemHandle (u32Sub base m.devVAddr), x⟩⟩)) :
    (hasFlag flags memZero = true → c.zeroed = true) ∧ k = p ∧ Filled t s c p base q m := by
  unfold allocZero at hr
  by_cases hcond : (hasFlag flags memZero && !c.zeroed) = true
  · rw [if_pos hcond] at hr
    rw [← Option.some.inj hr] at hok
    cases hok
  · rw [if_neg hcond] at hr
    obtain ⟨v, hv, hr⟩ := Option.bind_eq_some_iff.mp hr
    obtain ⟨w, hw, heq⟩ := Option.map_eq_some_iff.mp hr
    obtain ⟨⟨z, hz⟩, hrest⟩ := writeBuf_spec hw
    obtain ⟨hvrest, ⟨x, -, hnew⟩, -⟩ := Store.writeMapping_spec hv
    have hzeroed : hasFlag flags memZero = true → c.zeroed = true := by
      intro hflag
      by_contra hnot
      apply hcond
      rw [hflag, Bool.eq_false_iff.mpr hnot]
      rfl
    rw [← heq] at he
    obtain ⟨hk, hb, -, -⟩ := enterBuf_spec hz he
    obtain ⟨hmappings, hsame⟩ := enterBuf_rest he
    have hareas' : s.areas = u.areas := by
      rw [hsame]
      dsimp only
      rw [hrest]
      dsimp only
      rw [hvrest]
    refine ⟨hzeroed, hk, ⟨_, hb, rfl, rfl, rfl, rfl, rfl, ?_⟩, ?_, ?_⟩
    · rw [hareas']
      exact hhandle
    · have hheld : s.mappings = v.mappings := by
        rw [hmappings]
        dsimp only
        rw [hrest]
      refine Store.mappingAt_eq_some.mpr ⟨x.size, ?_⟩
      rw [hheld]
      exact hnew
    · intro i y hi
      rw [hareas']
      exact hareas i y hi

theorem allocBacked_filled {r : Bool × Store} (hm : t.mappingAt q = some m)
    (hr : allocBacked t c flags p base q = some r) (hok : r.1 = true)
    (he : enterBuf r.2 p = some (k, s)) :
    (hasFlag flags memZero = true → c.zeroed = true) ∧ k = p ∧ Filled t s c p base q m := by
  unfold allocBacked at hr
  rw [hm, Option.bind_eq_bind, Option.bind_some] at hr
  by_cases hwhole : c.size = m.size
  · rw [if_pos hwhole] at hr
    exact allocZero_filled hr hok he (fun _ _ h => h) (.inl ⟨hwhole, rfl⟩)
  · rw [if_neg hwhole] at hr
    obtain ⟨⟨a, w⟩, hw, hr⟩ := Option.bind_eq_some_iff.mp hr
    dsimp only at hr
    obtain ⟨x, hx, heq⟩ := Option.map_eq_some_iff.mp hw
    obtain ⟨hxa, hxw⟩ := Prod.mk.inj heq
    cases Heap.alloc_spec (show t.areas.alloc _ _ c.sub = some (x.1, x.2) from hx) with
    | inl hnone =>
      rw [if_pos (hxa.symm.trans hnone.2.1)] at hr
      rw [← Option.some.inj hr] at hok
      cases hok
    | inr hnew =>
      obtain ⟨-, hnew⟩ := hnew
      have ha0 : a ≠ 0 := by
        rw [← hxa]
        exact hnew.pos
      rw [if_neg ha0] at hr
      refine allocZero_filled hr hok he ?_ (.inr ⟨hwhole, c.size, false, ?_⟩)
      · intro i z hi
        rw [← hxw]
        exact hnew.keeps hi
      · rw [← hxw, ← hxa]
        exact hnew.new

theorem alloc_filled (hr : bmAlloc s heap c = some r) (h0 : r.1 ≠ 0) (hflags : c.flags = some flags)
    (hram : hasFlag flags memRamBackedAllocation = true) :
    ∃ t₀ t base q, t₀ = { s with bufs := t₀.bufs } ∧
      raAlloc t₀ heap c flags = some (some (base, q), t) ∧
      (hasFlag flags memZero = true → c.zeroed = true) ∧
      ∃ m, t.mappingAt q = some m ∧ Filled t r.2 c r.1 base q m := by
  unfold bmAlloc at hr
  rw [hflags, Option.elim_some] at hr
  obtain ⟨⟨p, t₀⟩, ht₀, hr⟩ := Option.bind_eq_some_iff.mp hr
  dsimp only at hr
  have hrest : t₀ = { s with bufs := t₀.bufs } := by
    obtain ⟨x, -, heq⟩ := Option.map_eq_some_iff.mp ht₀
    rw [← (Prod.mk.inj heq).2]
  by_cases hp : p = 0
  · rw [if_pos hp] at hr
    rw [← Option.some.inj hr] at h0
    exact absurd rfl h0
  · rw [if_neg hp] at hr
    obtain ⟨y, hy, hr⟩ := Option.bind_eq_some_iff.mp hr
    by_cases hok : y.1 = true
    · rw [if_pos hok] at hr
      unfold allocMemory at hy
      rw [if_pos hram] at hy
      split at hy
      · rw [← Option.some.inj hy] at hok
        cases hok
      · split at hy
        · unfold allocRam at hy
          obtain ⟨⟨x, t⟩, ht, hy⟩ := Option.bind_eq_some_iff.mp hy
          dsimp only at hy
          cases x with
          | none =>
            rw [← Option.some.inj hy] at hok
            cases hok
          | some x =>
            rw [Option.elim_some] at hy
            have hlive := hy
            unfold allocBacked at hlive
            obtain ⟨m, hm, -⟩ := Option.bind_eq_some_iff.mp hlive
            obtain ⟨hzeroed, hk, hfilled⟩ := allocBacked_filled hm hy hok hr
            refine ⟨t₀, t, x.1, x.2, hrest, ht, hzeroed, m, hm, ?_⟩
            rw [hk]
            exact hfilled
        · rw [← Option.some.inj hy] at hok
          cases hok
    · rw [if_neg hok] at hr
      obtain ⟨w, -, heq⟩ := Option.map_eq_some_iff.mp hr
      rw [← heq] at h0
      exact absurd rfl h0

theorem importDevMem_vaddrs (hi : importDevMem t heap ic p m = some r) (h0 : r.1 ≠ 0) :
    ∃ w, ic.devVAddr = some w ∧
      r.2.mappingAt r.1 = some { devSize m ic.flags with devVAddr := w } := by
  unfold importDevMem at hi
  obtain ⟨⟨x, u⟩, hu, hi⟩ := Option.bind_eq_some_iff.mp hi
  cases devMemoryAlloc_spec hu with
  | inl hnone =>
    obtain ⟨-, hx, -⟩ := hnone
    rw [hx] at hi
    dsimp only at hi
    rw [if_neg Bool.false_ne_true] at hi
    unfold failDevMemAlloc at hi
    split at hi
    · obtain ⟨v, -, heq⟩ := Option.map_eq_some_iff.mp hi
      rw [← heq] at h0
      exact absurd rfl h0
    · obtain ⟨v, -, hi⟩ := Option.bind_eq_some_iff.mp hi
      obtain ⟨w, -, heq⟩ := Option.map_eq_some_iff.mp hi
      rw [← heq] at h0
      exact absurd rfl h0
  | inr hsome =>
    obtain ⟨w, hw, -, -, -, hx, -⟩ := hsome
    rw [hx] at hi
    dsimp only at hi
    rw [if_pos rfl] at hi
    obtain ⟨v, hv, heq⟩ := Option.map_eq_some_iff.mp hi
    obtain ⟨-, ⟨b, -, hb⟩, -⟩ := Store.writeMapping_spec hv
    rw [← heq]
    exact ⟨w, hw, Store.mappingAt_eq_some.mpr ⟨b.size, hb⟩⟩

theorem failMapping_zero (hf : failMappingAlloc t p = some r) : r.1 = 0 := by
  obtain ⟨v, -, heq⟩ := Option.map_eq_some_iff.mp hf
  rw [← heq]

theorem import_vaddrs (hi : bmImportMemory s heap ic = some r) (h0 : r.1 ≠ 0)
    (hm : r.2.mappingAt r.1 = some m) : ic.devVAddr = some m.devVAddr ∧
      ∃ a, a ≠ 0 ∧ m.cpuVAddr = areaCpuVAddr heap.attribs a ic.cpuVAddr := by
  have hdone {t : Store} {p : ℕ} {m₀ : Mapping} (hdev : importDevMem t heap ic p m₀ = some r)
      {a : ℕ} (ha : a ≠ 0) (hv : m₀.cpuVAddr = areaCpuVAddr heap.attribs a ic.cpuVAddr) :
      ic.devVAddr = some m.devVAddr ∧
        ∃ a, a ≠ 0 ∧ m.cpuVAddr = areaCpuVAddr heap.attribs a ic.cpuVAddr := by
    obtain ⟨w, hw, hat⟩ := importDevMem_vaddrs hdev h0
    rw [Option.some.inj (hm.symm.trans hat), devSize_eq]
    exact ⟨hw, a, ha, hv⟩
  unfold bmImportMemory at hi
  obtain ⟨⟨p, t⟩, -, hi⟩ := Option.bind_eq_some_iff.mp hi
  dsimp only at hi
  split at hi
  · rw [← Option.some.inj hi] at h0
    exact absurd rfl h0
  · split at hi
    · unfold importPages at hi
      obtain ⟨⟨a, u⟩, -, hi⟩ := Option.bind_eq_some_iff.mp hi
      dsimp only at hi
      split at hi
      · exact absurd (failMapping_zero hi) h0
      · rename_i ha
        exact hdone hi ha rfl
    · split at hi
      · cases haddr : ic.localAddr with
        | none =>
          rw [haddr] at hi
          exact absurd (failMapping_zero hi) h0
        | some addr =>
          rw [haddr] at hi
          unfold importLocal at hi
          obtain ⟨w, -, hi⟩ := Option.bind_eq_some_iff.mp hi
          obtain ⟨⟨a, u⟩, -, hi⟩ := Option.bind_eq_some_iff.mp hi
          dsimp only at hi
          split at hi
          · unfold failDevMemAlloc at hi
            split at hi
            · exact absurd (failMapping_zero hi) h0
            · obtain ⟨v, -, hi⟩ := Option.bind_eq_some_iff.mp hi
              exact absurd (failMapping_zero hi) h0
          · rename_i ha
            exact hdone hi ha rfl
      · exact absurd (failMapping_zero hi) h0

theorem Imported.behind {t : Store} (hi : Imported heap ic q t m)
    (hn : n = pageAlign ic.size) (hframes : Frames (ic.frames (spanMemory heap ic.flags n))) :
    Behind t heap ic.flags n m := by
  have hmemory : memorySize heap ic = spanMemory heap ic.flags n := by
    rw [hn]
    rfl
  cases hi.laid with
  | pages sys origin area entries =>
    rw [hmemory] at area
    refine .pages sys origin area ?_ hframes
    unfold ImportCall.frames
    rw [List.length_map, List.length_range]
  | locals sys contig origin area live addr_lt fits entries =>
    rw [hmemory] at area fits
    exact .phys sys origin area fits

/-- What is behind a mapping stays there as long as the areas do. -/
theorem Behind.kept {v : Store} (hb : Behind t heap flags n m)
    (hareas : ∀ i z, t.areas.blocks i = some z → v.areas.blocks i = some z) :
    Behind v heap flags n m := by
  cases hb with
  | pages sys origin area count frames =>
    exact .pages sys origin (hareas _ _ area) count frames
  | phys sys origin area fits => exact .phys sys origin (hareas _ _ area) fits

/-- `RA_Alloc` answers with a segment of a span as it has been offered. -/
theorem raAlloc_span {t₀ : Store} (hs : t₀ = { s with bufs := t₀.bufs })
    (ho : Offer s heap c flags n offset)
    (hr : raAlloc t₀ heap c flags = some (some (base, q), t)) (hm : t.mappingAt q = some m) :
    Span t heap flags n m ∧ base = m.devVAddr + offset ∧ offset + c.size ≤ n := by
  unfold raAlloc at hr
  cases ho with
  | @found base' q' m' hfound mapping span hbase fits =>
    rw [hfound, Option.elim_some] at hr
    obtain ⟨w, hw, heq⟩ := Option.map_eq_some_iff.mp hr
    obtain ⟨hx, hwt⟩ := Prod.mk.inj heq
    obtain ⟨hb, hq⟩ := Prod.mk.inj (Option.some.inj hx)
    have hrest := (raTake_spec hw).2
    have hmappings : t.mappings = s.mappings := by rw [← hwt, hrest, hs]
    have hareas : t.areas = s.areas := by rw [← hwt, hrest, hs]
    have hsame : m = m' := by
      unfold Store.mappingAt at hm mapping
      rw [hmappings, ← hq, mapping] at hm
      exact (Option.some.inj hm).symm
    rw [hsame, ← hb]
    refine ⟨⟨span.lt, span.size, span.cpuVAddr, span.behind.kept fun i z hi => ?_⟩, hbase, fits⟩
    rw [hareas]
    exact hi
  | @imported base' v hfound again range hbase size frames cpuVAddr fits =>
    rw [hfound, Option.elim_none] at hr
    obtain ⟨⟨p, t₁⟩, ht₁, hr⟩ := Option.bind_eq_some_iff.mp hr
    dsimp only at hr
    by_cases h0 : p = 0
    · rw [if_pos h0] at hr
      cases Option.some.inj hr
    · rw [if_neg h0] at hr
      unfold raInsert at hr
      by_cases hinserted : c.inserted = true
      · rw [if_pos hinserted, again, Option.elim_some] at hr
        obtain ⟨w, hw, heq⟩ := Option.map_eq_some_iff.mp hr
        obtain ⟨hx, hwt⟩ := Prod.mk.inj heq
        obtain ⟨hb, hq⟩ := Prod.mk.inj (Option.some.inj hx)
        have hrest := (raTake_spec hw).2
        have hmade : t₁.mappingAt p = some m := by
          rw [← hwt, hrest, ← hq] at hm
          exact hm
        obtain ⟨hrange, a, ha, hv⟩ := import_vaddrs ht₁ h0 hmade
        have hrange' : c.steps.devVAddr = some m.devVAddr := hrange
        have hsize := (import_made ht₁ h0 hmade).2
        rw [devSize_eq] at hsize
        have hvm : v = m.devVAddr := Option.some.inj (range.symm.trans hrange')
        rw [← hb, hbase, hvm]
        refine ⟨⟨?_, ?_, ?_, ?_⟩, rfl, fits⟩
        · rw [size]
          exact pageAlign_lt _
        · rw [hsize, size]
          rfl
        · rw [hv]
          by_cases hsingle : mapType heap.attribs = .singleProcess
          · unfold KernelAt areaCpuVAddr
            rw [if_pos hsingle, if_pos (Or.inr hsingle)]
          · have hkernel := cpuVAddr hsingle
            unfold areaCpuVAddr
            rw [if_neg (not_or.mpr ⟨ha, hsingle⟩)]
            exact hkernel
        · have hlaid : Behind t₁ heap flags n m := by
            cases import_ends ht₁ with
            | failed back how found => exact absurd rfl h0
            | lost left how => exact absurd rfl h0
            | made imported how =>
              rw [Option.some.inj (hmade.symm.trans imported.mapping)]
              exact Imported.behind imported size frames
          refine hlaid.kept fun i z hi => ?_
          rw [← hwt, hrest]
          exact hi
      · rw [if_neg hinserted] at hr
        obtain ⟨w, -, heq⟩ := Option.map_eq_some_iff.mp hr
        cases (Prod.mk.inj heq).1

/-- Memory that is backed is cleared, exactly where it is in memory that the mapping has. -/
theorem cleared_iff (hr : bmAlloc s heap c = some r) (h0 : r.1 ≠ 0)
    (hflags : c.flags = some flags) (hram : hasFlag flags memRamBackedAllocation = true)
    (hzero : hasFlag flags memZero = true) (ho : Offer s heap c flags n offset)
    (ha : Answers heap c lin r) : Cleared heap c lin r ↔ InMemory heap c flags n offset := by
  obtain ⟨t₀, t, base, q, hs, hra, hzeroed, m, hm, hfilled⟩ := alloc_filled hr h0 hflags hram
  obtain ⟨hspan, hbase, hfits⟩ := raAlloc_span hs ho hra hm
  obtain ⟨b, hb, hbq, hbv, hhanded⟩ := hfilled.buf
  have hoffset : u32Sub base m.devVAddr = offset := by
    rw [hbase, u32Sub_of_le (by omega)]
    omega
  have hmapping : r.2.mappingAt b.mapping = some { m with arena := true } := by
    rw [hbq]
    exact hfilled.mapping
  have hok : ∀ w, zeroBuf r.2 heap.attribs b { m with arena := true } c.size lin ≠
      some (false, w) := by
    intro w hw
    have hnot := ha b _ w hb hmapping hw
    rw [hzeroed hzero] at hnot
    cases hnot
  rw [hoffset] at hhanded
  have hheld : Handed r.2 b { m with arena := true } offset c.size :=
    ⟨hhanded.cpuVAddr, hhanded.cpuPAddr, hhanded.devVAddr, hhanded.handle⟩
  have hiff : (∃ w, zeroBuf r.2 heap.attribs b { m with arena := true } c.size lin =
      some (true, w) ∧ Exact r.2 heap.attribs b { m with arena := true } c.size w) ↔
        InMemory heap c flags n offset := by
    cases hspan.behind with
    | pages sys origin area count frames =>
      exact exact_pages sys origin (hfilled.areas _ _ area) count frames hspan.cpuVAddr hspan.size
        hheld hfits hspan.lt hok
    | phys sys origin area fits =>
      exact exact_phys sys origin (hfilled.areas _ _ area) fits hspan.cpuVAddr hheld hfits hspan.lt
        hok
  rw [← hiff]
  constructor
  · intro h
    obtain ⟨b', m', w, hb', hm', hw, hexact⟩ := h
    obtain rfl : b = b' := Option.some.inj (hb.symm.trans hb')
    obtain rfl := Option.some.inj (hmapping.symm.trans hm')
    exact ⟨w, hw, hexact⟩
  · intro h
    obtain ⟨w, hw, hexact⟩ := h
    exact ⟨b, _, w, hb, hmapping, hw, hexact⟩

theorem bare_of_plain (hr : bmAlloc s heap c = some r) (h0 : r.1 ≠ 0)
    (hflags : c.flags = some flags) (hram : hasFlag flags memRamBackedAllocation = false) :
    Bare r := by
  have hplain {t : Store} {p v : ℕ} {y : Bool × Store} (hy : allocPlain t c p v = some y)
      (hok : y.1 = true) (he : enterBuf y.2 p = some r) : Bare r := by
    unfold allocPlain at hy
    obtain ⟨⟨q, u⟩, hu, hy⟩ := Option.bind_eq_some_iff.mp hy
    dsimp only at hy
    cases (Store.allocMapping_spec hu).2 with
    | inl hnone =>
      rw [if_pos hnone.2.1] at hy
      rw [← Option.some.inj hy] at hok
      cases hok
    | inr hnew =>
      obtain ⟨-, hnew⟩ := hnew
      rw [if_neg hnew.pos] at hy
      obtain ⟨w, hw, heq⟩ := Option.map_eq_some_iff.mp hy
      obtain ⟨⟨z, hz⟩, hrest⟩ := writeBuf_spec hw
      rw [← heq] at he
      obtain ⟨hp, hb, -, -⟩ := enterBuf_spec hz he
      have hmappings : r.2.mappings = u.mappings := by
        have hsame := (enterBuf_rest (k := r.1) (u := r.2) he).1
        rw [hsame]
        dsimp only
        rw [hrest]
      have hat := hnew.new
      rw [← hmappings] at hat
      rw [← hp] at hb
      exact ⟨_, _, hb, Store.mappingAt_eq_some.mpr ⟨bmMappingSize, hat⟩, rfl, rfl⟩
  unfold bmAlloc at hr
  rw [hflags, Option.elim_some] at hr
  obtain ⟨⟨p, t⟩, -, hr⟩ := Option.bind_eq_some_iff.mp hr
  dsimp only at hr
  by_cases hp : p = 0
  · rw [if_pos hp] at hr
    rw [← Option.some.inj hr] at h0
    exact absurd rfl h0
  · rw [if_neg hp] at hr
    obtain ⟨y, hy, hr⟩ := Option.bind_eq_some_iff.mp hr
    by_cases hok : y.1 = true
    · rw [if_pos hok] at hr
      unfold allocMemory at hy
      rw [if_neg (Bool.eq_false_iff.mp hram)] at hy
      unfold allocAddresses at hy
      split at hy
      · cases hgiven : c.devVAddr with
        | none =>
          rw [hgiven] at hy
          rw [← Option.some.inj hy] at hok
          cases hok
        | some v =>
          rw [hgiven, Option.elim_some] at hy
          exact hplain hy hok hr
      · obtain ⟨x, -, hy⟩ := Option.bind_eq_some_iff.mp hy
        exact hplain hy hok hr
    · rw [if_neg hok] at hr
      obtain ⟨w, -, heq⟩ := Option.map_eq_some_iff.mp hr
      rw [← heq] at h0
      exact absurd rfl h0

/-- A successful `BM_Alloc` with `PVRSRV_MEM_ZERO` has set exactly the bytes of its buffer to zero,
    exactly where they are in memory that the mapping has. -/
theorem zero_clears_iff (hr : bmAlloc s heap c = some r) (h0 : r.1 ≠ 0)
    (hflags : c.flags = some flags) (hzero : hasFlag flags memZero = true)
    (ho : hasFlag flags memRamBackedAllocation = true → Offer s heap c flags n offset)
    (ha : Answers heap c lin r) : Clears heap c flags lin r ↔
      (hasFlag flags memRamBackedAllocation = true → InMemory heap c flags n offset) := by
  unfold Clears
  by_cases hram : hasFlag flags memRamBackedAllocation = true
  · rw [if_pos hram, cleared_iff hr h0 hflags hram hzero (ho hram) ha]
    exact ⟨fun h _ => h, fun h => h hram⟩
  · rw [if_neg hram]
    exact iff_of_true (bare_of_plain hr h0 hflags (Bool.eq_false_iff.mpr hram))
      fun h => absurd h hram

theorem zeroLoop_true {o : ℕ} (hlin : ∀ x, lin x = true) :
    zeroLoop f lin n o ≠ some (false, w) := by
  induction n using Nat.strong_induction_on generalizing o w with
  | _ n ih =>
    intro hz
    rw [zeroLoop] at hz
    by_cases h0 : n = 0
    · rw [dif_pos h0] at hz
      cases hz
    · rw [dif_neg h0] at hz
      obtain ⟨x, -, hz⟩ := Option.bind_eq_some_iff.mp hz
      dsimp only at hz
      have hpos := blockBytes_pos x h0
      rw [if_pos (hlin _)] at hz
      obtain ⟨y, hy, heq⟩ := Option.map_eq_some_iff.mp hz
      have hfails : y = (false, y.2) := by rw [← (Prod.mk.inj heq).1]
      rw [hfails] at hy
      exact ih _ (by omega) hy

theorem zeroBuf_true (hlin : ∀ x, lin x = true) : zeroBuf s a b m bytes lin ≠ some (false, w) := by
  intro hz
  unfold zeroBuf at hz
  split at hz
  · obtain ⟨d, -, hz⟩ := Option.bind_eq_some_iff.mp hz
    obtain ⟨l, -, heq⟩ := Option.map_eq_some_iff.mp hz
    cases (Prod.mk.inj heq).1
  · split at hz
    · rw [if_pos (hlin _)] at hz
      cases hz
    · obtain ⟨d, -, hz⟩ := Option.bind_eq_some_iff.mp hz
      exact zeroLoop_true hlin hz

def sampleZero (flags alignment base : ℕ) : AllocCall :=
  { sampleAlloc (some 96) with
    flags := some (memRamBackedAllocation ||| memZero ||| flags)
    alignment := alignment
    steps := { sampleImport 0 with devVAddr := some 69632 }
    again := some base }

theorem sampleZero_answers {alignment : ℕ} :
    Answers sampleHeap (sampleZero flags alignment base) (fun _ => true) r :=
  fun _ _ _ _ _ hz => absurd hz (zeroBuf_true fun _ => rfl)

theorem zero_clears_sample : ∃ r,
    bmAlloc storeInit sampleHeap (sampleZero 0 0 69632) = some r ∧ r.1 ≠ 0 ∧
      Clears sampleHeap (sampleZero 0 0 69632) (memRamBackedAllocation ||| memZero)
        (fun _ => true) r := by
  have hsome : ((bmAlloc storeInit sampleHeap (sampleZero 0 0 69632)).map
      fun r => decide (r.1 ≠ 0)) = some true := by decide +kernel
  obtain ⟨r, hr, hpos⟩ := Option.map_eq_some_iff.mp hsome
  have h0 : r.1 ≠ 0 := of_decide_eq_true hpos
  have hframes : Frames [1048576] := by
    refine ⟨fun p hp => ?_, List.nodup_singleton _⟩
    rw [List.mem_singleton.mp hp]
    decide
  have hoffer : Offer storeInit sampleHeap (sampleZero 0 0 69632)
      (memRamBackedAllocation ||| memZero) 4096 0 := by
    refine .imported rfl rfl rfl rfl (by decide +kernel) hframes (fun _ => ?_) (by decide)
    show (65536 : ℕ) ≠ 0 ∧ _
    decide +kernel
  refine ⟨r, hr, h0, (zero_clears_iff hr h0 rfl (by decide) (fun _ => hoffer)
    sampleZero_answers).mpr fun _ => .inr ⟨?_, fun _ _ _ => rfl⟩⟩
  decide +kernel

/-- A dummy owns one page, and the buffer is behind it. -/
theorem zero_past_dummy : ∃ r,
    bmAlloc storeInit sampleHeap (sampleZero memDummy 8192 73728) = some r ∧ r.1 ≠ 0 ∧
      ¬Clears sampleHeap (sampleZero memDummy 8192 73728)
        (memRamBackedAllocation ||| memZero ||| memDummy) (fun _ => true) r := by
  have hsome : ((bmAlloc storeInit sampleHeap (sampleZero memDummy 8192 73728)).map
      fun r => decide (r.1 ≠ 0)) = some true := by decide +kernel
  obtain ⟨r, hr, hpos⟩ := Option.map_eq_some_iff.mp hsome
  have hleft : (bmAlloc storeInit sampleHeap (sampleZero memDummy 8192 73728)).bind (fun r =>
      (r.2.bufAt r.1).bind fun b => (r.2.mappingAt b.mapping).map fun m => decide
        (zeroBuf r.2 sampleHeap.attribs b m 256 (fun _ => true) = none)) = some true := by
    decide +kernel
  refine ⟨r, hr, of_decide_eq_true hpos, fun h => ?_⟩
  obtain ⟨b, m, w, hb, hm, hw, -⟩ := h
  rw [hr, Option.bind_some, hb, Option.bind_some, hm] at hleft
  have hnone := of_decide_eq_true (Option.some.inj hleft)
  have hw' : zeroBuf r.2 sampleHeap.attribs b m 256 (fun _ => true) = some (true, w) := hw
  rw [hnone] at hw'
  cases hw'

end

end PvrServices.ZeroBuf
