import Mathlib.Data.List.Range
import PvrServices.BufferManagerBase

set_option autoImplicit false

/-!
# The pages of wrapped user memory

`PVRSRVWrapExtMemoryKM` counts the pages of a range of user addresses, `OSAcquirePhysPageAddr`
counts them again and finds their physical addresses, and `WrapMemory` rounds the size of the range
once more. All sums are words.
-/
namespace PvrServices.WrapPages
open Words Mmaps BufferManager

/-- A `vm_area_struct`: `io`, `readWrite` and `pfnMap` are tests of its `vm_flags`. -/
structure VmArea where
  vmStart : ℕ
  vmEnd : ℕ
  vmPgoff : ℕ
  io : Bool
  readWrite : Bool
  pfnMap : Bool
deriving DecidableEq, Repr

def pfnMapAddr (v : VmArea) (addr : ℕ) : ℕ :=
  u32 (u32Sub addr v.vmStart + u32 (v.vmPgoff * pageSize)) / pageSize * pageSize

/-- An address space below `taskSize`, with the system address behind each page. `get_user_pages`
    pins pages one after the other and none above the end, `cpuVAddrToPage` says whether a page has
    a page structure, and the frames of a `VM_PFNMAP` area lie in a row from `vm_pgoff` on. -/
structure UserSpace (taskSize : ℕ) where
  sysPAddr : ℕ → ℕ
  getUserPages : ℕ → ℕ → Option ℕ
  findVma : ℕ → Option VmArea
  cpuVAddrToPage : ℕ → Bool
  none_asked : ∀ start, getUserPages start 0 = some 0
  pinned_le : ∀ start n m, getUserPages start n = some m → m ≤ n
  pinned_below : ∀ start n m, getUserPages start n = some m → 0 < m →
    start + pageSize * m ≤ taskSize
  frames_linear : ∀ addr v, findVma addr = some v → v.pfnMap = true →
    ∀ a, v.vmStart ≤ a → a < v.vmEnd → sysPAddr a = pfnMapAddr v a

/-- The allocations, and the error of the steps that follow the page lookup. -/
structure WrapAnswers where
  sysPAddrList : Bool
  wrapMemInfo : Bool
  physAddrArray : Bool
  pageArray : Bool
  later : Option PvrsrvError

def getPageDetails (vaddr byteSize : ℕ) : ℕ × ℕ :=
  (vaddr % pageSize, pageAlign (u32 (byteSize + vaddr % pageSize)) / pageSize)

def getPageCount (vaddr byteSize : ℕ) : ℕ := (getPageDetails vaddr byteSize).2

/-- What `OSAcquirePhysPageAddr` ends with: an error, a stop at a `BUG` or at an access outside of
    a block, or the addresses that it has written. -/
inductive Acquired where
  | refused
  | stopped
  | pages (sysPAddrs : List ℕ)
deriving DecidableEq, Repr

/-- `CheckPagesContiguous` reads the first entry, whether or not there is one. -/
def exitCheck (sysPAddrs : List ℕ) : Acquired :=
  if sysPAddrs = [] then .stopped else .pages sysPAddrs

/-- The loops over the pages of an area, which leave off at a page that `page` does not know. They
    stop where the arrays have no `room` left. -/
def pageLoop (page : ℕ → Option ℕ) (beyond : ℕ) : ℕ → ℕ → Option (List ℕ)
  | 0, addr => if addr < beyond then none else some []
  | room + 1, addr =>
    if addr < beyond then
      match page addr with
      | none => some []
      | some p => (pageLoop page beyond room (u32 (addr + pageSize))).map fun l => p :: l
    else some []

section
variable {taskSize : ℕ} (k : UserSpace taskSize) (c : WrapAnswers)

def acquireFrames (v : VmArea) (start beyond numPages : ℕ) : Acquired :=
  if !v.pfnMap then .refused
  else
    match pageLoop (fun a => some (pfnMapAddr v a)) beyond numPages start with
    | none => .stopped
    | some l => if l.length = numPages then exitCheck l else .stopped

def acquireArea (start beyond numPages : ℕ) : Acquired :=
  match k.findVma start with
  | none => .refused
  | some v =>
    if start < v.vmStart ∨ v.vmEnd < beyond ∨ v.io = false ∨ v.readWrite = false then .refused
    else
      match pageLoop (fun a => if k.cpuVAddrToPage a then some (k.sysPAddr a) else none) beyond
        numPages start with
      | none => .stopped
      | some l => if l.length = numPages then exitCheck l else acquireFrames v start beyond numPages

def osAcquirePhysPageAddr (cpuVAddr bytes : ℕ) : Acquired :=
  let beyondOrig := u32 (cpuVAddr + bytes)
  let start := cpuVAddr / pageSize * pageSize
  let numPages := u32Sub (pageAlign beyondOrig) start / pageSize
  if !(c.wrapMemInfo && c.physAddrArray && c.pageArray) then .refused
  else
    match k.getUserPages start numPages with
    | some m =>
      if m = numPages then
        exitCheck ((List.range m).map fun i => k.sysPAddr (start + pageSize * i))
      else .refused
    | none => acquireArea k cpuVAddr beyondOrig numPages

/-- What becomes of a call: `room` is the number of entries of the list that it has allocated, and
    the buffer manager was asked for `call`. -/
inductive Outcome where
  | rejected (e : PvrsrvError)
  | stopped
  | wrapped (pageCount room : ℕ) (call : WrapCall)

def listRoom (pageCount : ℕ) : ℕ := u32 (pageCount * 4) / 4

def wrapPages (pageCount : ℕ) (call : WrapCall) : Outcome :=
  match c.later with
  | some e => .rejected e
  | none => .wrapped pageCount (listRoom pageCount) call

/-- `PVRSRVWrapExtMemoryKM`. `base` holds the page list, offset and `bPhysContig` of the caller, the
    heap and what `BM_Wrap` gets; no list is `NULL`. -/
def wrapExtMemory (base : WrapCall) (linAddr byteSize : ℕ) : Outcome :=
  if linAddr = 0 then
    if base.sysAddr = [] then .rejected .errorInvalidParams
    else wrapPages c 0 { base with size := byteSize, cpuVAddr := 0 }
  else
    let pageOffset := (getPageDetails linAddr byteSize).1
    let pageCount := (getPageDetails linAddr byteSize).2
    if !c.sysPAddrList then .rejected .errorOutOfMemory
    else
      match osAcquirePhysPageAddr k c (linAddr - pageOffset) (u32 (pageCount * pageSize)) with
      | .refused => .rejected .errorOutOfMemory
      | .stopped => .stopped
      | .pages l => wrapPages c pageCount { base with
          size := byteSize
          offset := pageOffset
          physContig := false
          sysAddr := l
          cpuVAddr := 0 }

def Touches (linAddr byteSize p : ℕ) : Prop :=
  ∃ x, linAddr ≤ x ∧ x < linAddr + byteSize ∧ x / pageSize = p

/-- The list has the pages of the range, in order, and the mapping is as large as they are. -/
structure Covers (linAddr byteSize pageCount room : ℕ) (call : WrapCall) (pages : List ℕ) :
    Prop where
  no_wrap : linAddr + byteSize ≤ 4294967296
  count_pos : 1 ≤ pageCount
  fits : call.sysAddr.length ≤ room
  sorted : pages.Pairwise (· < ·)
  exact : ∀ p, p ∈ pages ↔ Touches linAddr byteSize p
  list : call.sysAddr = pages.map fun p => k.sysPAddr (pageSize * p)
  size : call.mappingSize = pageSize * pages.length

def Sound (linAddr byteSize : ℕ) : Outcome → Prop
  | .rejected _ => True
  | .stopped => False
  | .wrapped pageCount room call => ∃ pages, Covers k linAddr byteSize pageCount room call pages

end

section
variable {a b n x off room start : ℕ}

theorem pageAlign_of_le (h : n ≤ 4294963200) : pageAlign n = (n + 4095) / 4096 * 4096 := by
  unfold pageAlign pageSize
  rw [u32_of_lt (by omega)]

theorem getPageDetails_eq (h : a + n ≤ 4294963200) :
    getPageDetails a n = (a % 4096, (n + a % 4096 + 4095) / 4096) := by
  unfold getPageDetails pageSize
  rw [u32_of_lt (by omega), pageAlign_of_le (by omega), Nat.mul_div_cancel _ (by decide)]

theorem touches_iff (hn : 0 < n) {p : ℕ} : Touches a n p ↔
    a / 4096 ≤ p ∧ p < a / 4096 + (n + a % 4096 + 4095) / 4096 := by
  unfold Touches pageSize
  constructor
  · rintro ⟨x, hax, hxn, hp⟩
    omega
  · rintro ⟨hle, hlt⟩
    refine ⟨max a (4096 * p), le_max_left _ _, ?_, ?_⟩ <;> omega

theorem not_touches_zero {p : ℕ} : ¬Touches a 0 p := by
  rintro ⟨x, hax, hx, -⟩
  omega

/-- In a range that does not wrap the loop never runs out of room; if it gets to the end it has
    found every page. -/
theorem pageLoop_spec (page : ℕ → Option ℕ) {f : ℕ → ℕ} (h : 4096 * x + 4096 * room ≤ 4294963200)
    (hf : ∀ p, x ≤ p → p < x + room → ∀ v, page (4096 * p) = some v → v = f (4096 * p)) :
    ∃ l, pageLoop page (4096 * x + 4096 * room) room (4096 * x) = some l ∧
      (l.length = room → l = (List.range' x room).map fun p => f (4096 * p)) := by
  induction room generalizing x with
  | zero =>
    refine ⟨[], ?_, fun _ => rfl⟩
    unfold pageLoop
    exact if_neg (by omega)
  | succ room ih =>
    unfold pageLoop
    rw [if_pos (by omega)]
    cases hp : page (4096 * x) with
    | none =>
      refine ⟨[], rfl, fun hlen => ?_⟩
      simp at hlen
    | some v =>
      have hnext : u32 (4096 * x + pageSize) = 4096 * (x + 1) := by
        unfold pageSize
        rw [u32_of_lt (by omega)]
        omega
      have hend : 4096 * x + 4096 * (room + 1) = 4096 * (x + 1) + 4096 * room := by
        rw [Nat.mul_succ, Nat.mul_succ]
        omega
      obtain ⟨l, hl, hall⟩ := ih (x := x + 1) (by omega) fun p hp hlt => hf p (by omega) (by omega)
      dsimp only
      rw [hnext, hend, hl]
      refine ⟨v :: l, rfl, fun hlen => ?_⟩
      rw [List.range'_succ, List.map_cons, ← hall (by simpa using hlen),
        hf x (le_refl x) (by omega) v hp]

theorem pageLoop_wrapped {page : ℕ → Option ℕ} {beyond addr : ℕ} (h : beyond ≤ addr) :
    pageLoop page beyond room addr = some [] := by
  cases room with
  | zero =>
    unfold pageLoop
    exact if_neg (by omega)
  | succ room =>
    unfold pageLoop
    exact if_neg (by omega)

end

section
variable {taskSize : ℕ} {k : UserSpace taskSize} {c : WrapAnswers} {a n q room : ℕ}

def pageAddrs (k : UserSpace taskSize) (q room : ℕ) : List ℕ :=
  (List.range' q room).map fun p => k.sysPAddr (4096 * p)

theorem pageAddrs_length : (pageAddrs k q room).length = room := by
  unfold pageAddrs
  rw [List.length_map, List.length_range']

theorem exitCheck_pageAddrs (h : 0 < room) :
    exitCheck (pageAddrs k q room) = .pages (pageAddrs k q room) := by
  refine if_neg fun hnil => ?_
  have hlen := congrArg List.length hnil
  rw [pageAddrs_length, List.length_nil] at hlen
  omega

theorem acquireFrames_spec {v : VmArea} (h0 : 0 < room) (h : 4096 * q + 4096 * room ≤ 4294963200)
    (hv : k.findVma (4096 * q) = some v) (hlo : v.vmStart ≤ 4096 * q)
    (hhi : 4096 * q + 4096 * room ≤ v.vmEnd) :
    acquireFrames v (4096 * q) (4096 * q + 4096 * room) room = .refused ∨
      acquireFrames v (4096 * q) (4096 * q + 4096 * room) room = .pages (pageAddrs k q room) := by
  unfold acquireFrames
  cases hpfn : v.pfnMap with
  | false => exact .inl (if_pos rfl)
  | true =>
    right
    have hframe (p : ℕ) (hp : q ≤ p) (hlt : p < q + room) :
        pfnMapAddr v (4096 * p) = k.sysPAddr (4096 * p) :=
      (k.frames_linear _ v hv hpfn _ (by omega) (by omega)).symm
    -- the frames of all pages are known, so the loop gets to the end
    have hlen (m x : ℕ) (hm : 4096 * x + 4096 * m ≤ 4294963200) :
        ∃ l, pageLoop (fun a => some (pfnMapAddr v a)) (4096 * x + 4096 * m) m (4096 * x) = some l ∧
          l.length = m := by
      induction m generalizing x with
      | zero => exact ⟨[], pageLoop_wrapped (by omega), rfl⟩
      | succ m ih =>
        obtain ⟨l, hl, hlen⟩ := ih (x + 1) (by omega)
        have hnext : u32 (4096 * x + pageSize) = 4096 * (x + 1) := by
          unfold pageSize
          rw [u32_of_lt (by omega)]
          omega
        have hend : 4096 * x + 4096 * (m + 1) = 4096 * (x + 1) + 4096 * m := by
          rw [Nat.mul_succ, Nat.mul_succ]
          omega
        unfold pageLoop
        rw [if_pos (by omega)]
        dsimp only
        rw [hnext, hend, hl]
        exact ⟨_, rfl, by rw [List.length_cons, hlen]⟩
    obtain ⟨l, hl, hroom⟩ := hlen room q h
    obtain ⟨l', hl', hall⟩ := pageLoop_spec (fun a => some (pfnMapAddr v a))
      (f := k.sysPAddr) h fun p hp hlt w hw => (Option.some.inj hw).symm.trans (hframe p hp hlt)
    have heq : l = l' := Option.some.inj (hl.symm.trans hl')
    rw [if_neg (by simp), hl]
    dsimp only
    rw [if_pos hroom, heq, hall (heq ▸ hroom)]
    exact exitCheck_pageAddrs h0

theorem acquireArea_spec (h0 : 0 < room) (h : 4096 * q + 4096 * room ≤ 4294963200) :
    acquireArea k (4096 * q) (4096 * q + 4096 * room) room = .refused ∨
      acquireArea k (4096 * q) (4096 * q + 4096 * room) room = .pages (pageAddrs k q room) := by
  unfold acquireArea
  cases hv : k.findVma (4096 * q) with
  | none => exact .inl rfl
  | some v =>
    dsimp only
    split
    · exact .inl rfl
    · rename_i hin
      obtain ⟨l, hl, hall⟩ := pageLoop_spec
        (fun a => if k.cpuVAddrToPage a then some (k.sysPAddr a) else none) (f := k.sysPAddr) h
        fun p _ _ w hw => by
          split at hw
          · exact (Option.some.inj hw).symm
          · cases hw
      rw [hl]
      dsimp only
      split
      · rename_i hlen
        rw [hall hlen]
        exact .inr (exitCheck_pageAddrs h0)
      · exact acquireFrames_spec h0 h hv (by omega) (by omega)

theorem osAcquirePhysPageAddr_spec (h0 : 0 < room) (h : 4096 * q + 4096 * room ≤ 4294963200) :
    osAcquirePhysPageAddr k c (4096 * q) (4096 * room) = .refused ∨
      osAcquirePhysPageAddr k c (4096 * q) (4096 * room) = .pages (pageAddrs k q room) := by
  have hbeyond : u32 (4096 * q + 4096 * room) = 4096 * q + 4096 * room := by
    rw [u32_of_lt (by omega)]
  have hstart : 4096 * q / pageSize * pageSize = 4096 * q := by
    unfold pageSize
    omega
  have hpages : u32Sub (pageAlign (4096 * q + 4096 * room)) (4096 * q) / pageSize = room := by
    rw [pageAlign_of_le h, u32Sub_of_le (by omega)]
    unfold pageSize
    omega
  unfold osAcquirePhysPageAddr
  dsimp only
  rw [hbeyond, hstart, hpages]
  split
  · exact .inl rfl
  · cases hpin : k.getUserPages (4096 * q) room with
    | none => exact acquireArea_spec h0 h
    | some m =>
      dsimp only
      split
      · rename_i hm
        right
        have hlist : (List.range m).map (fun i => k.sysPAddr (4096 * q + pageSize * i)) =
            pageAddrs k q room := by
          unfold pageAddrs
          rw [hm, List.range'_eq_map_range, List.map_map]
          refine List.map_congr_left fun i _ => ?_
          dsimp only [Function.comp]
          rw [Nat.mul_add]
          rfl
        rw [hlist]
        exact exitCheck_pageAddrs h0
      · exact .inl rfl

/-- The list and the mapping of a range that does not wrap have its pages. -/
theorem sound_of_le (base : WrapCall) (ha : a ≠ 0) (hn : 0 < n) (h : a + n ≤ 4294963200) :
    Sound k a n (wrapExtMemory k c base a n) := by
  have hdetails := getPageDetails_eq h
  have hpage : a - a % 4096 = 4096 * (a / 4096) := by omega
  have hpos : 0 < (n + a % 4096 + 4095) / 4096 := by omega
  have hbytes : u32 ((n + a % 4096 + 4095) / 4096 * pageSize) =
      4096 * ((n + a % 4096 + 4095) / 4096) := by
    unfold pageSize
    rw [u32_of_lt (by omega), Nat.mul_comm]
  unfold wrapExtMemory
  rw [hdetails, if_neg ha]
  dsimp only
  rw [hpage, hbytes]
  split
  · exact trivial
  · cases osAcquirePhysPageAddr_spec (k := k) (c := c) (q := a / 4096) hpos (by omega) with
    | inl hrefused =>
      rw [hrefused]
      exact trivial
    | inr hpages =>
      rw [hpages]
      unfold wrapPages
      cases c.later with
      | some e => exact trivial
      | none =>
        refine ⟨List.range' (a / 4096) ((n + a % 4096 + 4095) / 4096), ?_⟩
        constructor
        · omega
        · exact hpos
        · unfold listRoom
          rw [u32_of_lt (by omega)]
          dsimp only
          rw [pageAddrs_length]
          omega
        · exact List.pairwise_lt_range'
        · intro p
          rw [List.mem_range'_1, touches_iff hn]
        · rfl
        · unfold WrapCall.mappingSize
          dsimp only
          rw [List.length_range', u32_of_lt (by omega), pageAlign_of_le (by omega)]
          unfold pageSize
          omega

def pinnedSpace (taskSize : ℕ) : UserSpace taskSize where
  sysPAddr := fun a => a
  getUserPages := fun start n =>
    if n = 0 ∨ start + pageSize * n ≤ taskSize then some n else none
  findVma := fun _ => none
  cpuVAddrToPage := fun _ => false
  none_asked := by
    intro start
    exact if_pos (.inl rfl)
  pinned_le := by
    intro start n m h
    split at h
    · exact le_of_eq (Option.some.inj h).symm
    · cases h
  pinned_below := by
    intro start n m h hm
    split at h
    · rename_i hn
      rw [← Option.some.inj h] at hm ⊢
      omega
    · cases h
  frames_linear := by
    intro addr v h
    cases h

/-- Device memory from `start` up to the end of the address space, without page structures. -/
def deviceArea (taskSize start : ℕ) : VmArea := ⟨start, taskSize, 0, true, true, true⟩

def deviceSpace (taskSize start : ℕ) : UserSpace taskSize where
  sysPAddr := pfnMapAddr (deviceArea taskSize start)
  getUserPages := fun _ n => if n = 0 then some 0 else none
  findVma := fun _ => some (deviceArea taskSize start)
  cpuVAddrToPage := fun _ => false
  none_asked := by
    intro start
    exact if_pos rfl
  pinned_le := by
    intro start n m h
    split at h
    · rw [← Option.some.inj h]
      exact Nat.zero_le _
    · cases h
  pinned_below := by
    intro start n m h hm
    split at h
    · rw [← Option.some.inj h] at hm
      exact absurd hm (lt_irrefl 0)
    · cases h
  frames_linear := by
    intro addr v h _ a _ _
    rw [← Option.some.inj h]

def granting : WrapAnswers := ⟨true, true, true, true, none⟩

theorem granted : (!(granting.wrapMemInfo && granting.physAddrArray && granting.pageArray)) = false :=
  rfl

theorem acquire_none {start : ℕ} (h : start ≤ 4294963200) (hstart : start % 4096 = 0) :
    osAcquirePhysPageAddr (pinnedSpace taskSize) granting start 0 = .stopped := by
  have hpages : u32Sub (pageAlign (u32 (start + 0))) (start / pageSize * pageSize) / pageSize = 0 := by
    rw [u32_of_lt (by omega), pageAlign_of_le (by omega), u32Sub_of_le (by unfold pageSize; omega)]
    unfold pageSize
    omega
  unfold osAcquirePhysPageAddr
  dsimp only
  rw [hpages, granted, if_neg (by decide), (pinnedSpace taskSize).none_asked]
  rfl

theorem acquire_one {start : ℕ} (h : start + 4096 ≤ taskSize) (hend : taskSize ≤ 4294963200)
    (hstart : start % 4096 = 0) :
    osAcquirePhysPageAddr (pinnedSpace taskSize) granting start 4096 = .pages [start] := by
  have hdiv : start / pageSize * pageSize = start := by
    unfold pageSize
    omega
  have hpages : u32Sub (pageAlign (u32 (start + 4096))) start / pageSize = 1 := by
    rw [u32_of_lt (by omega), pageAlign_of_le (by omega), u32Sub_of_le (by omega)]
    unfold pageSize
    omega
  have hpin : (pinnedSpace taskSize).getUserPages start 1 = some 1 := by
    refine if_pos (.inr ?_)
    unfold pageSize
    omega
  unfold osAcquirePhysPageAddr
  dsimp only
  rw [hdiv, hpages, granted, if_neg (by decide), hpin]
  rfl

/-- The end of the range wraps, so that the loops over device memory find no page. -/
theorem acquire_wrapped {start room : ℕ} (hle : start ≤ taskSize) (hlt : start < 4294967296)
    (hstart : start % 4096 = 0) (h0 : 0 < room) (hroom : 4096 * room < 4294967296) (h : 4294967296 ≤ start + 4096 * room) :
    osAcquirePhysPageAddr (deviceSpace taskSize start) granting start (4096 * room) = .stopped := by
  have hbeyond : u32 (start + 4096 * room) = start + 4096 * room - 4294967296 := by
    rw [u32_eq_mod]
    omega
  have hdiv : start / pageSize * pageSize = start := by
    unfold pageSize
    omega
  have hpages : u32Sub (pageAlign (start + 4096 * room - 4294967296)) start / pageSize = room := by
    rw [pageAlign_of_le (by omega), u32Sub_eq_mod (by omega) hlt]
    unfold pageSize
    omega
  have hpin : (deviceSpace taskSize start).getUserPages start room = none :=
    if_neg (by omega)
  unfold osAcquirePhysPageAddr
  dsimp only
  rw [hbeyond, hdiv, hpages, granted, if_neg (by decide), hpin]
  have hin : ¬(start < start ∨ taskSize < start + 4096 * room - 4294967296 ∨ true = false ∨
      true = false) := by
    simp only [Bool.true_eq_false, or_false]
    omega
  unfold acquireArea
  change (if start < start ∨ taskSize < start + 4096 * room - 4294967296 ∨ true = false ∨
    true = false then _ else _) = Acquired.stopped
  rw [if_neg hin, pageLoop_wrapped (by omega)]
  dsimp only
  rw [if_neg (by simp only [List.length_nil]; omega)]
  unfold acquireFrames
  rw [if_neg (by simp [deviceArea]), pageLoop_wrapped (by omega)]
  dsimp only
  exact if_neg (by simp only [List.length_nil]; omega)

theorem not_sound_none (base : WrapCall) (ha : a ≠ 0) (hlt : a < 4294963200)
    (h : (getPageDetails a n).2 = 0) :
    ¬Sound (pinnedSpace taskSize) a n (wrapExtMemory (pinnedSpace taskSize) granting base a n) := by
  have hstart : a - (getPageDetails a n).1 = a - a % 4096 := rfl
  have hbytes : u32 (0 * pageSize) = 0 := by
    rw [Nat.zero_mul, u32_of_lt (by decide)]
  intro hsound
  unfold wrapExtMemory at hsound
  rw [if_neg ha] at hsound
  dsimp only at hsound
  rw [h, hstart, hbytes, acquire_none (by omega) (by omega)] at hsound
  exact hsound

theorem one_page_of_sound (base : WrapCall) (ha : a ≠ 0) (hlt : a < taskSize)
    (hend : taskSize ≤ 4294963200) (hpage : taskSize % 4096 = 0)
    (h : (getPageDetails a n).2 = 1)
    (hsound : Sound (pinnedSpace taskSize) a n
      (wrapExtMemory (pinnedSpace taskSize) granting base a n)) :
    ∃ q, ∀ p, p = q ↔ Touches a n p := by
  have hstart : a - (getPageDetails a n).1 = a - a % 4096 := rfl
  have hbytes : u32 (1 * pageSize) = 4096 := by
    unfold pageSize
    rw [Nat.one_mul, u32_of_lt (by decide)]
  unfold wrapExtMemory at hsound
  rw [if_neg ha] at hsound
  dsimp only at hsound
  rw [h, hstart, hbytes, acquire_one (by omega) hend (by omega)] at hsound
  obtain ⟨pages, hcovers⟩ := hsound
  have hlen := congrArg List.length hcovers.list
  rw [List.length_map] at hlen
  obtain ⟨q, hq⟩ := List.length_eq_one_iff.mp hlen.symm
  refine ⟨q, fun p => ?_⟩
  rw [← hcovers.exact, hq, List.mem_singleton]

/-- Every call with a user address is rejected or wraps exactly the pages of its range, whatever
    the kernel answers, exactly if the range is not empty and ends below the last page of the
    addresses. -/
theorem wrap_ext_memory_iff {taskSize a n : ℕ} (base : WrapCall) (hend : taskSize ≤ 4294963200)
    (hpage : taskSize % pageSize = 0) (ha : a ≠ 0) (hlt : a < taskSize) (hn : n < 4294967296) :
    (∀ (k : UserSpace taskSize) (c : WrapAnswers), Sound k a n (wrapExtMemory k c base a n)) ↔
      0 < n ∧ a + n ≤ 4294963200 := by
  unfold pageSize at hpage
  constructor
  · intro hall
    have hpinned := hall (pinnedSpace taskSize) granting
    by_contra hnot
    have hcount : (getPageDetails a n).2 = u32 (u32 (n + a % 4096) + 4095) / 4096 := by
      unfold getPageDetails pageAlign pageSize
      exact Nat.mul_div_cancel _ (by decide)
    by_cases hsmall : n = 0 ∨ 4294963200 < n + a % 4096
    · -- the size is nothing, or its sum with the offset wraps
      have hle : (getPageDetails a n).2 = 0 ∨ (getPageDetails a n).2 = 1 := by
        rw [hcount, u32_eq_mod, u32_eq_mod]
        omega
      cases hle with
      | inl hzero => exact not_sound_none base ha (by omega) hzero hpinned
      | inr hone =>
        obtain ⟨q, hq⟩ := one_page_of_sound base ha hlt hend hpage hone hpinned
        cases hsmall with
        | inl hzero =>
          have htouch := (hq q).mp rfl
          rw [hzero] at htouch
          exact not_touches_zero htouch
        | inr hbig =>
          have hfirst := (hq (a / 4096)).mpr ((touches_iff (by omega)).mpr (by omega))
          have hsecond := (hq (a / 4096 + 1)).mpr ((touches_iff (by omega)).mpr (by omega))
          omega
    · -- the size does not wrap, but the end of the range does
      have hdevice := hall (deviceSpace taskSize (a - a % 4096)) granting
      have hstart : a - (getPageDetails a n).1 = a - a % 4096 := rfl
      have heq : (getPageDetails a n).2 = (n + a % 4096 + 4095) / 4096 := by
        have hin : u32 (n + a % 4096) = n + a % 4096 := u32_of_lt (by omega)
        rw [hcount, hin, u32_of_lt (by omega)]
      have hbytes : u32 ((n + a % 4096 + 4095) / 4096 * pageSize) =
          4096 * ((n + a % 4096 + 4095) / 4096) := by
        unfold pageSize
        rw [u32_of_lt (by omega), Nat.mul_comm]
      unfold wrapExtMemory at hdevice
      rw [if_neg ha] at hdevice
      dsimp only at hdevice
      rw [heq, hstart, hbytes, acquire_wrapped (by omega) (by omega) (by omega) (by omega)
        (by omega) (by omega)] at hdevice
      exact hdevice
  · rintro ⟨hpos, hle⟩ k c
    exact sound_of_le base ha hpos hle

end

def sampleBase : WrapCall where
  heap := 2
  size := 0
  offset := 0
  physContig := false
  sysAddr := []
  cpuVAddr := 0
  memInfo := some 100
  buf := some 101
  mapping := some 102
  grant := some ⟨103, 0, []⟩
  devVAddr := some 8192
  sub := some 104
  zeroed := false

/-- 10000 bytes from 100 bytes into a page on are three pages. -/
theorem wrap_ext_memory_sample : Sound (pinnedSpace 3221225472) 4198500 10000
    (wrapExtMemory (pinnedSpace 3221225472) granting sampleBase 4198500 10000) :=
  (wrap_ext_memory_iff sampleBase (by decide) (by decide) (by decide) (by decide) (by decide)).mpr
    ⟨by decide, by decide⟩ (pinnedSpace 3221225472) granting

/-- The size and its offset of half a page add up to 256 bytes: one page is wrapped where the range
    has a million. -/
theorem wrap_ext_memory_short : ¬Sound (pinnedSpace 3221225472) 4196352 4294965504
    (wrapExtMemory (pinnedSpace 3221225472) granting sampleBase 4196352 4294965504) := by
  intro hsound
  have hone : (getPageDetails 4196352 4294965504).2 = 1 := by decide +kernel
  obtain ⟨q, hq⟩ := one_page_of_sound sampleBase (by decide) (by decide) (by decide) (by decide)
    hone hsound
  have hfirst := (hq 1024).mpr ((touches_iff (by decide)).mpr (by decide))
  have hsecond := (hq 1025).mpr ((touches_iff (by decide)).mpr (by decide))
  omega

end PvrServices.WrapPages
