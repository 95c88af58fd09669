import PvrServices.BlockHeap
import PvrServices.BufferManagerBase

set_option autoImplicit false

/-!
# What the buffer manager holds

The structures, memory areas, device addresses and page-table entries that `buffer_manager.c` takes
and gives back, for its ends by an error. What an allocator, an arena or the kernel answers comes
with each call; an answer that hands out what is in use has no result, nor has a call that follows
the null pointer or does not get past a `BUG`.
-/
namespace PvrServices.BufferStore
open Words Mmaps OsAreas BlockHeap
open BufferManager (Origin backingstoreSysmemNoncontig backingstoreLocalmemContig)

def bmMappingSize : ℕ := 40
def bmBufSize : ℕ := 24

structure Mapping where
  origin : Origin
  arena : Bool
  cpuVAddr : ℕ
  cpuPAddr : ℕ
  devVAddr : ℕ
  psSysAddr : List ℕ
  size : ℕ
  hOSMemHandle : ℕ
  flags : ℕ
deriving DecidableEq, Repr

structure Buf where
  cpuVAddr : ℕ
  hOSMemHandle : ℕ
  cpuPAddr : ℕ
  devVAddr : ℕ
  mapping : ℕ
  refCount : ℕ
deriving DecidableEq, Repr

def blankBuf : Buf := ⟨0, 0, 0, 0, 0, 0⟩

/-- What an area stands for: pages of its own, memory that was there before, or a part of another
    area. -/
inductive AreaKind where
  | pages (frames : List ℕ)
  | phys (base : ℕ)
  | scatter (list : List ℕ)
  | sub (parent byteOffset : ℕ)
deriving DecidableEq, Repr

structure Area where
  kind : AreaKind
  mapped : Bool
deriving DecidableEq, Repr

/-- The address in a page-table entry: of a page, or read past the end of a list of pages. -/
inductive Target where
  | page (addr : ℕ)
  | junk
deriving DecidableEq, Repr

/-- `locals`, `device` and `blocks` are the live segments of the local memory arena, of the
    device-address arena and of the import arena of the heap, with their sizes; `ptes` are the valid
    page-table entries by the number of the device page. -/
structure Store where
  mappings : Heap Mapping
  bufs : Heap Buf
  areas : Heap Area
  locals : ℕ → Option ℕ
  device : ℕ → Option ℕ
  blocks : ℕ → Option ℕ
  ptes : ℕ → Option Target
  hash : List (ℕ × ℕ)
  refCount : ℕ

def storeInit : Store :=
  ⟨emptyHeap Mapping, emptyHeap Buf, emptyHeap Area, fun _ => none, fun _ => none, fun _ => none,
    fun _ => none, [], 1⟩

/-- What `struct BM_HEAP` says about its memory. -/
structure BmHeap where
  attribs : ℕ
  dataPageSize : ℕ
  dataPageSize_pos : 0 < dataPageSize

def sampleHeap : BmHeap := ⟨backingstoreSysmemNoncontig ||| hapKernelOnly, 4096, Nat.succ_pos 4095⟩

def Store.allocMapping (s : Store) (m : Mapping) (grant : Option ℕ) : Option (ℕ × Store) :=
  (s.mappings.alloc bmMappingSize (fun _ => m) grant).map fun r => (r.1, { s with mappings := r.2 })

def Store.writeMapping (s : Store) (p : ℕ) (m : Mapping) : Option Store :=
  (s.mappings.write p m).map fun h => { s with mappings := h }

def Store.freeMapping (s : Store) (p : ℕ) : Option Store :=
  (s.mappings.free p bmMappingSize).map fun h => { s with mappings := h }

def Store.mappingAt (s : Store) (p : ℕ) : Option Mapping := (s.mappings.blocks p).map Block.content

/-- The switch on `PVRSRV_HAP_MAPTYPE_MASK` of `OSAllocPages`, `OSReservePhys` and
    `RegisterExternalMem`: an area, or the null pointer. -/
def makeArea (s : Store) (flags size : ℕ) (kind : AreaKind) (grant : Option ℕ) :
    Option (ℕ × Store) :=
  if mapType flags = .other then some (0, s)
  else (s.areas.alloc size (fun _ => ⟨kind, false⟩) grant).map fun r =>
    (r.1, { s with areas := r.2 })

def Store.freeArea (s : Store) (a size : ℕ) : Option Store :=
  (s.areas.free a size).map fun h => { s with areas := h }

/-- An area of this map type has to leave the list of areas that processes may map. -/
def MapType.listed (t : MapType) : Bool := t.registers.getD false

/-- The same switch of `OSFreePages` and `OSUnReservePhys`: an area that is still mapped is
    refused, and the callers drop the error. -/
def releaseArea (s : Store) (flags a size : ℕ) : Option Store :=
  if mapType flags = .other then some s
  else do
    let b ← s.areas.blocks a
    if MapType.listed (mapType flags) && b.content.mapped then some s else s.freeArea a size

/-- `OSUnRegisterMem` and `OSUnRegisterDiscontigMem`: an area that is still mapped is a `BUG`. -/
def unregisterArea (s : Store) (flags a size : ℕ) : Option Store :=
  if mapType flags = .other then some s
  else do
    let b ← s.areas.blocks a
    if MapType.listed (mapType flags) && b.content.mapped then none else s.freeArea a size

def areaCpuVAddr (flags a cpuVAddr : ℕ) : ℕ :=
  if a = 0 ∨ mapType flags = .singleProcess then 0 else cpuVAddr

def Store.allocBuf (s : Store) (b : Buf) (grant : Option ℕ) : Option (ℕ × Store) :=
  (s.bufs.alloc bmBufSize (fun _ => b) grant).map fun r => (r.1, { s with bufs := r.2 })

def Store.writeBuf (s : Store) (p : ℕ) (b : Buf) : Option Store :=
  (s.bufs.write p b).map fun h => { s with bufs := h }

def Store.freeBuf (s : Store) (p : ℕ) : Option Store :=
  (s.bufs.free p bmBufSize).map fun h => { s with bufs := h }

def Store.bufAt (s : Store) (p : ℕ) : Option Buf := (s.bufs.blocks p).map Block.content

def enterBuf (s : Store) (p : ℕ) : Option (ℕ × Store) := do
  let b ← s.bufAt p
  let s ← s.writeBuf p { b with refCount := 1 }
  some (p, { s with refCount := s.refCount + 1 })

def makeSub (s : Store) (parent byteOffset bytes : ℕ) (grant : Option ℕ) :
    Option (ℕ × Store) :=
  (s.areas.alloc bytes (fun _ => ⟨.sub parent byteOffset, false⟩) grant).map fun r =>
    (r.1, { s with areas := r.2 })

def releaseSub (s : Store) (flags a : ℕ) : Option Store := do
  let b ← s.areas.blocks a
  if !hasFlag flags hapKernelOnly && b.content.mapped then some s else s.freeArea a b.size

def Store.retrieve (s : Store) (key : ℕ) : ℕ := (s.hash.find? fun e => e.1 = key).elim 0 Prod.snd

def pageCount (size : ℕ) : ℕ := (size + (pageSize - 1)) / pageSize

/-- The loops of `MMU_MapPages`, `MMU_MapShadow` and `MMU_MapScatter`, with `n` rounds to go:
    `look` is what the entry gets at `o`, which advances. -/
def mapLoop (look : ℕ → Target) (advance : ℕ) : ℕ → ℕ → ℕ → (ℕ → Option Target) → ℕ → Option Target
  | 0, _, _, t => t
  | n + 1, v, o, t => mapLoop look advance n (u32 (v + pageSize)) (u32 (o + advance))
      (Function.update t (v / pageSize) (some (look o)))

def pAdvance (flags : ℕ) : ℕ := if hasFlag flags memDummy then 0 else pageSize

def mmuMapPages (s : Store) (v p size flags : ℕ) : Store :=
  { s with ptes := mapLoop .page (pAdvance flags) (pageCount size) v p s.ptes }

def AreaKind.page : AreaKind → ℕ → Target
  | .pages frames, offset => (frames[offset / pageSize]?).elim .junk .page
  | .phys base, offset => .page (u32 (base + offset))
  | .scatter list, offset => (list[offset / pageSize]?).elim .junk .page
  | .sub _ _, _ => .junk

/-- The kernel sees an area page by page as it is, so that `OSMapLinToCPUPhys` finds the same
    pages. -/
def mmuMapShadow (s : Store) (v size a flags : ℕ) : Option Store :=
  (s.areas.blocks a).map fun b =>
    { s with
      ptes := mapLoop b.content.kind.page (pAdvance flags) (pageCount size) v 0 s.ptes }

def mmuMapScatter (s : Store) (v : ℕ) (sysAddr : List ℕ) (size : ℕ) : Store :=
  { s with
    ptes := mapLoop (fun i => (sysAddr[i]?).elim .junk .page) 1 (pageCount size) v 0 s.ptes }

/-- `MMU_Alloc`, up to its page tables; `answer` is where the arena has found the addresses. -/
def mmuAlloc (s : Store) (size : ℕ) : Option ℕ → Option (Option ℕ × Store)
  | none => some (none, s)
  | some v =>
    if (s.device v).isSome ∨ v + size > 4294967296 then none
    else some (some v, { s with device := Function.update s.device v (some size) })

def unmapLoop : ℕ → ℕ → (ℕ → Option Target) → ℕ → Option Target
  | 0, _, t => t
  | n + 1, v, t => unmapLoop n (u32 (v + pageSize)) (Function.update t (v / pageSize) none)

def mmuFree (s : Store) (v : ℕ) : Store :=
  (s.device v).elim s fun n =>
    { s with
      device := Function.update s.device v none
      ptes := unmapLoop (pageCount n) v s.ptes }

def devMap (s : Store) (m : Mapping) (flags : ℕ) : Option Store :=
  match m.origin with
  | .wrapped => some (mmuMapPages s m.devVAddr m.cpuPAddr m.size flags)
  | .wrappedVirtaddr => some (mmuMapPages s m.devVAddr m.cpuPAddr m.size flags)
  | .contiguous => some (mmuMapPages s m.devVAddr m.cpuPAddr m.size flags)
  | .env => mmuMapShadow s m.devVAddr m.size m.hOSMemHandle flags
  | .wrappedScatter => some (mmuMapScatter s m.devVAddr m.psSysAddr m.size)
  | .wrappedScatterVirtaddr => some (mmuMapScatter s m.devVAddr m.psSysAddr m.size)

def devSize (m : Mapping) (flags : ℕ) : Mapping :=
  if hasFlag flags memInterleaved then { m with size := u32 (m.size * 2) } else m

/-- `DevMemoryAlloc`: whether it succeeds, and the mapping then. The buffer manager asks for whole
    pages, and gets them at the start of a page. -/
def devMemoryAlloc (s : Store) (m : Mapping) (flags : ℕ) (answer : Option ℕ) :
    Option ((Bool × Mapping) × Store) := do
  let m := devSize m flags
  let (v, s) ← mmuAlloc s m.size answer
  match v with
  | none => some ((false, m), s)
  | some v =>
    if v % pageSize ≠ 0 then none
    else
      let m := { m with devVAddr := v }
      (devMap s m flags).map fun s => ((true, m), s)

def devMemoryFree (s : Store) (m : Mapping) : Store := mmuFree s m.devVAddr

variable {s t : Store} {m : Mapping} {p q a v o n k size flags : ℕ} {kind : AreaKind}
  {g : Option ℕ} {look : ℕ → Target} {advance : ℕ} {e : ℕ → Option Target}

theorem Store.allocMapping_spec (ha : s.allocMapping m g = some (p, t)) :
    t = { s with mappings := t.mappings } ∧ ((g = none ∧ p = 0 ∧ t = s) ∨
      (g = some p ∧ Allocates s.mappings t.mappings p bmMappingSize m)) := by
  unfold Store.allocMapping at ha
  obtain ⟨r, hr, heq⟩ := Option.map_eq_some_iff.mp ha
  obtain ⟨hp, ht⟩ := Prod.mk.inj heq
  rw [← ht, ← hp]
  refine ⟨rfl, ?_⟩
  cases Heap.alloc_spec (show s.mappings.alloc _ _ g = some (r.1, r.2) from hr) with
  | inl hnone =>
    refine .inl ⟨hnone.1, hnone.2.1, ?_⟩
    rw [hnone.2.2]
  | inr hnew => exact .inr hnew

theorem Store.writeMapping_spec (hw : s.writeMapping p m = some t) :
    t = { s with mappings := t.mappings } ∧
      (∃ b, s.mappings.blocks p = some b ∧ t.mappings.blocks p = some { b with content := m }) ∧
      ∀ q, q ≠ p → t.mappings.blocks q = s.mappings.blocks q := by
  unfold Store.writeMapping at hw
  obtain ⟨h, hh, heq⟩ := Option.map_eq_some_iff.mp hw
  obtain ⟨b, hb, hnew, hothers, -⟩ := Heap.write_spec hh
  rw [← heq]
  exact ⟨rfl, ⟨b, hb, hnew⟩, hothers⟩

theorem Store.freeMapping_spec (hf : s.freeMapping p = some t) :
    t = { s with mappings := t.mappings } ∧ Frees s.mappings t.mappings p bmMappingSize := by
  unfold Store.freeMapping at hf
  obtain ⟨h, hh, heq⟩ := Option.map_eq_some_iff.mp hf
  rw [← heq]
  exact ⟨rfl, Heap.free_spec hh⟩

theorem Store.freeMapping_some (hp : s.mappings.blocks p ≠ none) :
    ∃ t, s.freeMapping p = some t := by
  unfold Store.freeMapping Heap.free
  rw [if_neg fun hnone => hp (Option.isNone_iff_eq_none.mp hnone)]
  exact ⟨_, rfl⟩

theorem Store.mappingAt_eq_some :
    s.mappingAt p = some m ↔ ∃ z, s.mappings.blocks p = some ⟨z, m⟩ := by
  unfold Store.mappingAt
  rw [Option.map_eq_some_iff]
  constructor
  · intro h
    obtain ⟨b, hb, hm⟩ := h
    exact ⟨b.size, by rw [hb, ← hm]⟩
  · intro h
    obtain ⟨z, hz⟩ := h
    exact ⟨_, hz, rfl⟩

theorem makeArea_spec (ha : makeArea s flags n kind g = some (a, t)) :
    t = { s with areas := t.areas } ∧
      ((a = 0 ∧ t = s ∧ (mapType flags = .other ∨ g = none)) ∨
        (g = some a ∧ mapType flags ≠ .other ∧
          Allocates s.areas t.areas a n ⟨kind, false⟩)) := by
  unfold makeArea at ha
  split at ha
  · rename_i hother
    obtain ⟨h0, hs⟩ := Prod.mk.inj (Option.some.inj ha)
    rw [← hs]
    exact ⟨rfl, .inl ⟨h0.symm, rfl, .inl hother⟩⟩
  · rename_i hknown
    obtain ⟨r, hr, heq⟩ := Option.map_eq_some_iff.mp ha
    obtain ⟨hp, ht⟩ := Prod.mk.inj heq
    rw [← ht, ← hp]
    refine ⟨rfl, ?_⟩
    cases Heap.alloc_spec (show s.areas.alloc _ _ g = some (r.1, r.2) from hr) with
    | inl hnone =>
      refine .inl ⟨hnone.2.1, ?_, .inr hnone.1⟩
      rw [hnone.2.2]
    | inr hnew => exact .inr ⟨hnew.1, hknown, hnew.2⟩

theorem releaseArea_free {b : Block Area} (hb : s.areas.blocks a = some b)
    (hknown : mapType flags ≠ .other)
    (hmapped : MapType.listed (mapType flags) = true → b.content.mapped = false) :
    releaseArea s flags a n = s.freeArea a n := by
  have hfree : ¬(MapType.listed (mapType flags) && b.content.mapped) = true := by
    intro hboth
    obtain ⟨hlisted, hmap⟩ := Bool.and_eq_true_iff.mp hboth
    rw [hmapped hlisted] at hmap
    cases hmap
  unfold releaseArea
  rw [if_neg hknown, hb, Option.bind_eq_bind, Option.bind_some, if_neg hfree]

theorem Store.freeArea_spec (hf : s.freeArea a n = some t) :
    t = { s with areas := t.areas } ∧ Frees s.areas t.areas a n := by
  unfold Store.freeArea at hf
  obtain ⟨h, hh, heq⟩ := Option.map_eq_some_iff.mp hf
  rw [← heq]
  exact ⟨rfl, Heap.free_spec hh⟩

theorem Store.freeArea_some (ha : s.areas.blocks a ≠ none) : ∃ t, s.freeArea a n = some t := by
  unfold Store.freeArea Heap.free
  rw [if_neg fun hnone => ha (Option.isNone_iff_eq_none.mp hnone)]
  exact ⟨_, rfl⟩

theorem mmuAlloc_spec {r : Option ℕ} (ha : mmuAlloc s size g = some (r, t)) :
    (g = none ∧ r = none ∧ t = s) ∨ ∃ v, g = some v ∧ r = some v ∧ s.device v = none ∧
      v + size ≤ 4294967296 ∧ t = { s with device := Function.update s.device v (some size) } := by
  cases g with
  | none =>
    obtain ⟨hr, ht⟩ := Prod.mk.inj (Option.some.inj ha)
    exact .inl ⟨rfl, hr.symm, ht.symm⟩
  | some v =>
    unfold mmuAlloc at ha
    dsimp only at ha
    split at ha
    · cases ha
    · rename_i hfree
      obtain ⟨hnone, hfits⟩ := not_or.mp hfree
      obtain ⟨hr, ht⟩ := Prod.mk.inj (Option.some.inj ha)
      exact .inr ⟨v, rfl, hr.symm, by simpa using hnone, Nat.le_of_not_lt hfits, ht.symm⟩

theorem freeMapping_back (ha : Added s.mappings.blocks t.mappings.blocks q) :
    ∃ u, t.freeMapping q = some u ∧ u.mappings.blocks = s.mappings.blocks ∧
      u = { t with mappings := u.mappings } := by
  obtain ⟨b, hb⟩ := Option.ne_none_iff_exists'.mp ha.live
  unfold Store.freeMapping
  rw [Heap.free_eq hb]
  exact ⟨_, rfl, ha.taken, rfl⟩

theorem freeArea_back (ha : Added s.areas.blocks t.areas.blocks a) :
    ∃ u, t.freeArea a n = some u ∧ u.areas.blocks = s.areas.blocks ∧
      u = { t with areas := u.areas } := by
  obtain ⟨b, hb⟩ := Option.ne_none_iff_exists'.mp ha.live
  unfold Store.freeArea
  rw [Heap.free_eq hb]
  exact ⟨_, rfl, ha.taken, rfl⟩

theorem freeBuf_back (ha : Added s.bufs.blocks t.bufs.blocks p) :
    ∃ u, t.freeBuf p = some u ∧ u.bufs.blocks = s.bufs.blocks ∧
      u = { t with bufs := u.bufs } := by
  obtain ⟨b, hb⟩ := Option.ne_none_iff_exists'.mp ha.live
  unfold Store.freeBuf
  rw [Heap.free_eq hb]
  exact ⟨_, rfl, ha.taken, rfl⟩

theorem mapLoop_of_not (hv : v + 4096 * n ≤ 4294967296)
    (hq : q < v / pageSize ∨ v / pageSize + n ≤ q) : mapLoop look advance n v o e q = e q := by
  induction n generalizing v o e with
  | zero => rfl
  | succ n ih =>
    unfold pageSize at hq
    have hne : q ≠ v / 4096 := by omega
    have hself : Function.update e (v / 4096) (some (look o)) q = e q :=
      Function.update_of_ne hne _ _
    unfold mapLoop pageSize
    by_cases hlast : n = 0
    · rw [hlast]
      exact hself
    · have hnext : u32 (v + 4096) = v + 4096 := u32_of_lt (by omega)
      rw [hnext]
      refine (ih (by omega) ?_).trans hself
      unfold pageSize
      omega

theorem mapLoop_at (hv : v + 4096 * n ≤ 4294967296) (ho : o < 4294967296) (hk : k < n) :
    mapLoop look advance n v o e (v / pageSize + k) = some (look (u32 (o + k * advance))) := by
  induction n generalizing v o e k with
  | zero => omega
  | succ n ih =>
    unfold mapLoop
    cases k with
    | zero =>
      rw [Nat.zero_mul, Nat.add_zero, Nat.add_zero, u32_of_lt ho]
      by_cases hlast : n = 0
      · rw [hlast]
        exact Function.update_self _ _ _
      · have hnext : u32 (v + pageSize) = v + 4096 := u32_of_lt (by unfold pageSize; omega)
        rw [hnext]
        refine (mapLoop_of_not (by omega) (.inl ?_)).trans (Function.update_self _ _ _)
        unfold pageSize
        omega
    | succ k =>
      have hnext : u32 (v + pageSize) = v + 4096 := u32_of_lt (by unfold pageSize; omega)
      rw [hnext]
      have hpage : v / pageSize + (k + 1) = (v + 4096) / pageSize + k := by
        unfold pageSize
        omega
      have hoffset : u32 (u32 (o + advance) + k * advance) = u32 (o + (k + 1) * advance) := by
        rw [Nat.succ_mul, u32_eq_mod, u32_eq_mod, u32_eq_mod]
        omega
      rw [hpage, ih (by omega) (u32_lt _) (by omega), hoffset]

theorem unmapLoop_none (hq : e q = none) : unmapLoop n v e q = none := by
  induction n generalizing v e with
  | zero => exact hq
  | succ n ih =>
    apply ih
    by_cases hv : q = v / pageSize
    · rw [hv]
      exact Function.update_self _ _ _
    · rw [Function.update_of_ne hv]
      exact hq

theorem unmapLoop_at (hv : v + 4096 * n ≤ 4294967296) (hk : k < n) :
    unmapLoop n v e (v / pageSize + k) = none := by
  induction n generalizing v e k with
  | zero => omega
  | succ n ih =>
    unfold unmapLoop
    cases k with
    | zero => exact unmapLoop_none (Function.update_self _ _ _)
    | succ k =>
      have hnext : u32 (v + pageSize) = v + 4096 := u32_of_lt (by unfold pageSize; omega)
      have hpage : v / pageSize + (k + 1) = (v + 4096) / pageSize + k := by
        unfold pageSize
        omega
      rw [hnext, hpage]
      exact ih (by omega) (by omega)

theorem unmapLoop_of_not (hv : v + 4096 * n ≤ 4294967296)
    (hq : q < v / pageSize ∨ v / pageSize + n ≤ q) : unmapLoop n v e q = e q := by
  induction n generalizing v e with
  | zero => rfl
  | succ n ih =>
    unfold pageSize at hq
    have hne : q ≠ v / 4096 := by omega
    have hself : Function.update e (v / 4096) none q = e q := Function.update_of_ne hne _ _
    unfold unmapLoop pageSize
    by_cases hlast : n = 0
    · rw [hlast]
      exact hself
    · have hnext : u32 (v + 4096) = v + 4096 := u32_of_lt (by omega)
      rw [hnext]
      refine (ih (by omega) ?_).trans hself
      unfold pageSize
      omega

theorem pageAlign_mod (n : ℕ) : pageAlign n % 4096 = 0 := by
  unfold pageAlign pageSize
  omega

theorem pageAlign_lt (n : ℕ) : pageAlign n < 4294967296 := by
  have h := u32_lt (n + (pageSize - 1))
  unfold pageAlign
  unfold pageSize at h ⊢
  omega

theorem pageCount_whole (hn : n % 4096 = 0) : 4096 * pageCount n = n := by
  unfold pageCount pageSize
  omega

theorem devSize_eq (m : Mapping) (flags : ℕ) : devSize m flags = { m with
    size := if hasFlag flags memInterleaved then u32 (m.size * 2) else m.size } := by
  unfold devSize
  split
  · rfl
  · rfl

@[simp] theorem devSize_hOSMemHandle (m : Mapping) (flags : ℕ) :
    (devSize m flags).hOSMemHandle = m.hOSMemHandle := by
  unfold devSize
  split <;> rfl

@[simp] theorem devSize_cpuPAddr (m : Mapping) (flags : ℕ) :
    (devSize m flags).cpuPAddr = m.cpuPAddr := by
  unfold devSize
  split <;> rfl

@[simp] theorem devSize_flags (m : Mapping) (flags : ℕ) : (devSize m flags).flags = m.flags := by
  unfold devSize
  split <;> rfl

@[simp] theorem devSize_origin (m : Mapping) (flags : ℕ) : (devSize m flags).origin = m.origin := by
  unfold devSize
  split <;> rfl

theorem devMemoryAlloc_spec {r : Bool × Mapping}
    (hd : devMemoryAlloc s m flags g = some (r, t)) :
    (g = none ∧ r = (false, devSize m flags) ∧ t = s) ∨ ∃ w, g = some w ∧ s.device w = none ∧
      w % 4096 = 0 ∧ w + (devSize m flags).size ≤ 4294967296 ∧
      r = (true, { devSize m flags with devVAddr := w }) ∧
      devMap { s with device := Function.update s.device w (some (devSize m flags).size) }
        { devSize m flags with devVAddr := w } flags = some t := by
  unfold devMemoryAlloc at hd
  obtain ⟨⟨r', s'⟩, ha, hd⟩ := Option.bind_eq_some_iff.mp hd
  cases mmuAlloc_spec ha with
  | inl hnone =>
    obtain ⟨hg, hr, hs⟩ := hnone
    rw [hr] at hd
    obtain ⟨hrr, hts⟩ := Prod.mk.inj (Option.some.inj hd)
    exact .inl ⟨hg, hrr.symm, hts.symm.trans hs⟩
  | inr hsome =>
    obtain ⟨w, hg, hr, hfree, hfits, hs⟩ := hsome
    rw [hr] at hd
    dsimp only at hd
    split at hd
    · cases hd
    · rename_i haligned
      obtain ⟨t', ht, heq⟩ := Option.map_eq_some_iff.mp hd
      obtain ⟨hrr, hts⟩ := Prod.mk.inj heq
      rw [hs] at ht
      refine .inr ⟨w, hg, hfree, not_not.mp haligned, hfits, hrr.symm, ?_⟩
      rw [← hts]
      exact ht

theorem devMemoryAlloc_some (haligned : v % 4096 = 0) (hfree : s.device v = none)
    (hfits : v + (devSize m flags).size ≤ 4294967296)
    (hmap : devMap { s with device := Function.update s.device v (some (devSize m flags).size) }
      { devSize m flags with devVAddr := v } flags = some t) :
    devMemoryAlloc s m flags (some v) =
      some ((true, { devSize m flags with devVAddr := v }), t) := by
  have hgiven : ¬((s.device v).isSome ∨ v + (devSize m flags).size > 4294967296) := by
    rw [hfree]
    simp
    omega
  have hwhole : ¬v % pageSize ≠ 0 := not_not.mpr haligned
  unfold devMemoryAlloc mmuAlloc
  dsimp only
  rw [if_neg hgiven, Option.bind_eq_bind, Option.bind_some]
  dsimp only
  rw [if_neg hwhole, hmap]
  rfl

/-- Every valid page-table entry belongs to a live range of device addresses. -/
def Store.Translated (s : Store) : Prop :=
  ∀ q, s.ptes q ≠ none → ∃ v n, s.device v = some n ∧ v / pageSize ≤ q ∧
    q < v / pageSize + pageCount n

structure Store.Offers (s : Store) (v n : ℕ) : Prop where
  aligned : v % 4096 = 0
  fits : v + n ≤ 4294967296
  free : s.device v = none
  apart : ∀ w k, s.device w = some k → w / pageSize + pageCount k ≤ v / pageSize ∨
    v / pageSize + pageCount n ≤ w / pageSize

theorem Store.Offers.unmapped (ho : s.Offers v n) (hs : s.Translated) (hk : k < pageCount n) :
    s.ptes (v / pageSize + k) = none := by
  by_contra hvalid
  obtain ⟨w, z, hw, hlow, hhigh⟩ := hs _ hvalid
  have hapart := ho.apart w z hw
  omega

theorem unmapLoop_mapLoop (hv : v + 4096 * n ≤ 4294967296)
    (hnone : ∀ k, k < n → e (v / pageSize + k) = none) :
    unmapLoop n v (mapLoop look advance n v o e) = e := by
  funext q
  by_cases hq : q < v / pageSize ∨ v / pageSize + n ≤ q
  · rw [unmapLoop_of_not hv hq, mapLoop_of_not hv hq]
  · have hk : q - v / pageSize < n := by omega
    have hpage : q = v / pageSize + (q - v / pageSize) := by omega
    rw [hpage, unmapLoop_at hv hk, hnone _ hk]

end PvrServices.BufferStore
