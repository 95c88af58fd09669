import PvrServices.BufferStore

set_option autoImplicit false

/-!
# Wrapped memory and its errors

`BM_Wrap` with `WrapMemory` and `FreeBuf`. Memory of four origins gets an area, device addresses and
a buffer; what an error leaves behind depends on how far the call has got.
-/
namespace PvrServices.Wraps
open Words Mmaps BlockHeap BufferStore
open OsAreas hiding makeArea releaseArea
open BufferManager (Origin cpuVAddrAt zeroBuf)

structure WrapCall where
  size : ℕ
  offset : ℕ
  physContig : Bool
  sysAddr : List ℕ
  cpuVAddr : ℕ
  flags : Option ℕ
  buf : Option ℕ
  mapping : Option ℕ
  area : Option ℕ
  areaVAddr : ℕ
  devVAddr : Option ℕ
  sub : Option ℕ
  zeroed : Bool
  inserted : Bool

def WrapCall.uFlags (c : WrapCall) (heap : BmHeap) : ℕ :=
  (heap.attribs &&& (hapCachetypeMask ||| hapMaptypeMask)) ||| c.flags.getD 0

def WrapCall.mappingSize (c : WrapCall) : ℕ := pageAlign (u32 (c.size + c.offset))

def WrapCall.hashAddress (c : WrapCall) : ℕ := u32 (c.sysAddr.headD 0 + c.offset)

def WrapCall.origin (c : WrapCall) : Origin :=
  if c.cpuVAddr ≠ 0 then if c.physContig then .wrappedVirtaddr else .wrappedScatterVirtaddr
  else if c.physContig then .wrapped else .wrappedScatter

def WrapCall.newMapping (c : WrapCall) : Mapping :=
  ⟨c.origin, false, c.cpuVAddr, if c.physContig then c.sysAddr.headD 0 else 0, 0,
    if c.physContig then [] else c.sysAddr, c.mappingSize, 0, 0⟩

def WrapCall.kind (c : WrapCall) : AreaKind :=
  if c.physContig then .phys (c.sysAddr.headD 0) else .scatter c.sysAddr

def WrapCall.mappingVAddr (c : WrapCall) (flags a : ℕ) : ℕ :=
  if c.origin = .wrapped then areaCpuVAddr flags a c.areaVAddr else c.cpuVAddr

def unwrapArea (s : Store) (flags : ℕ) (m : Mapping) : Option Store :=
  match m.origin with
  | .wrapped => releaseArea s flags m.hOSMemHandle m.size
  | .wrappedVirtaddr => unregisterArea s flags m.hOSMemHandle m.size
  | .wrappedScatter => unregisterArea s flags m.hOSMemHandle m.size
  | .wrappedScatterVirtaddr => unregisterArea s flags m.hOSMemHandle m.size
  | _ => some s

/-- What `fail_cleanup` does with the area; the buffer has none of its own when it gets there. -/
def wrapCleanup (s : Store) (flags : ℕ) (m : Mapping) : Option Store :=
  if m.cpuVAddr = 0 ∧ m.hOSMemHandle = 0 then some s else unwrapArea s flags m

def wrapFail (s : Store) (flags q : ℕ) (m : Mapping) : Option (Bool × Store) := do
  let s ← wrapCleanup s flags m
  let s ← s.freeMapping q
  some (false, s)

def wrapZero (s : Store) (c : WrapCall) (flags p q : ℕ) (m : Mapping) (a : ℕ) :
    Option (Bool × Store) := do
  let s ← s.writeMapping q m
  let cpuVAddr := cpuVAddrAt m.cpuVAddr c.offset
  if hasFlag flags memZero && !zeroBuf cpuVAddr c.zeroed then some (false, s)
  else (s.writeBuf p ⟨cpuVAddr, a, u32 (m.cpuPAddr + c.offset), u32 (m.devVAddr + c.offset), q,
    0⟩).map fun s => (true, s)

def wrapSub (s : Store) (c : WrapCall) (flags p q : ℕ) (m : Mapping) : Option (Bool × Store) :=
  if c.offset = 0 then wrapZero s c flags p q m m.hOSMemHandle
  else do
    let (a, s) ← makeSub s m.hOSMemHandle c.offset (u32Sub m.size c.offset) c.sub
    if a = 0 then wrapFail s flags q m else wrapZero s c flags p q m a

def wrapDevMem (s : Store) (c : WrapCall) (flags p q : ℕ) (m : Mapping) :
    Option (Bool × Store) := do
  let (r, s) ← devMemoryAlloc s m (flags ||| memRead ||| memWrite) c.devVAddr
  if r.1 then wrapSub s c flags p q r.2 else wrapFail s flags q r.2

def wrapMemory (s : Store) (c : WrapCall) (flags p : ℕ) : Option (Bool × Store) := do
  let m := c.newMapping
  let (q, s) ← s.allocMapping m c.mapping
  if q = 0 then some (false, s)
  else do
    let (a, s) ← makeArea s flags m.size c.kind c.area
    let m := { m with hOSMemHandle := a, cpuVAddr := c.mappingVAddr flags a }
    if a = 0 then wrapFail s flags q m else wrapDevMem s c flags p q m

/-- The part of `FreeBuf` before the free of the buffer, which is of wrapped memory: `RA_Free`
    of its arena, which is the null pointer, does nothing. -/
def freeWrapped (s : Store) (flags : ℕ) (b : Buf) (m : Mapping) : Option Store :=
  if hasFlag flags memUserSuppliedDevvaddr then
    if hasFlag flags memRamBackedAllocation then some s else s.freeMapping b.mapping
  else do
    let s ← (if b.hOSMemHandle = m.hOSMemHandle then some s else releaseSub s flags b.hOSMemHandle)
    if hasFlag flags memRamBackedAllocation then some s
    else do
      let s ← unwrapArea s flags m
      (devMemoryFree s m).freeMapping b.mapping

def freeBuf (s : Store) (flags p : ℕ) : Option Store := do
  let b ← s.bufAt p
  let m ← s.mappingAt b.mapping
  let s ← freeWrapped s flags b m
  s.freeBuf p

def wrapInsert (s : Store) (c : WrapCall) (flags p : ℕ) : Option (ℕ × Store) :=
  if c.origin.hashed then
    if c.inserted then enterBuf { s with hash := (c.hashAddress, p) :: s.hash } p
    else (freeBuf s flags p).map fun s => (0, s)
  else enterBuf s p

def wrapNew (s : Store) (c : WrapCall) (flags : ℕ) : Option (ℕ × Store) := do
  let (p, s) ← s.allocBuf blankBuf c.buf
  if p = 0 then some (0, s)
  else do
    let (ok, s) ← wrapMemory s c flags p
    if ok then wrapInsert s c flags p else (s.freeBuf p).map fun s => (0, s)

def matchesWrap (s : Store) (c : WrapCall) (p : ℕ) : Option Bool := do
  let b ← s.bufAt p
  let m ← s.mappingAt b.mapping
  some (m.size = c.mappingSize && m.origin.hashed)

def wrapAgain (s : Store) (p : ℕ) : Option (ℕ × Store) := do
  let b ← s.bufAt p
  let s ← s.writeBuf p { b with refCount := u32 (b.refCount + 1) }
  some (p, s)

def bmWrap (s : Store) (heap : BmHeap) (c : WrapCall) : Option (ℕ × Store) := do
  let p := s.retrieve c.hashAddress
  let again ← (if p = 0 then some false else matchesWrap s c p)
  if again then wrapAgain s p else wrapNew s c (c.uFlags heap)

structure Undone (s t : Store) : Prop where
  mappings : t.mappings.blocks = s.mappings.blocks
  bufs : t.bufs.blocks = s.bufs.blocks
  areas : t.areas.blocks = s.areas.blocks
  device : t.device = s.device
  ptes : t.ptes = s.ptes
  hash : t.hash = s.hash
  refCount : t.refCount = s.refCount

def Keeps (s : Store) (r : ℕ × Store) : Prop := r.1 = 0 → Undone s r.2

def WrapCall.devSize (c : WrapCall) (flags : ℕ) : ℕ :=
  (BufferStore.devSize c.newMapping (flags ||| memRead ||| memWrite)).size

/-- The table knows live buffers only, and the allocators answer with what is free. -/
structure Fresh (s : Store) (heap : BmHeap) (c : WrapCall) : Prop where
  known : s.retrieve c.hashAddress ≠ 0 → (matchesWrap s c (s.retrieve c.hashAddress)).isSome
  buf : ∀ p, c.buf = some p → p ≠ 0 ∧ s.bufs.blocks p = none
  mapping : ∀ q, c.mapping = some q → q ≠ 0 ∧ s.mappings.blocks q = none
  null : s.areas.blocks 0 = none
  area : ∀ a, c.area = some a → a ≠ 0 ∧ s.areas.blocks a = none
  sub : ∀ a, c.sub = some a → a ≠ 0 ∧ s.areas.blocks a = none ∧ c.area ≠ some a
  translated : s.Translated
  range : ∀ v, c.devVAddr = some v → s.Offers v (c.devSize (c.uFlags heap))

def Lost (c : WrapCall) (flags : ℕ) : Prop :=
  mapType flags ≠ .other ∧ c.area = none ∧ c.cpuVAddr ≠ 0

structure Placed (c : WrapCall) (flags : ℕ) : Prop where
  known : mapType flags ≠ .other
  area : c.area ≠ none
  range : c.devVAddr ≠ none

structure Finishes (c : WrapCall) (flags : ℕ) : Prop where
  sub : c.offset ≠ 0 → c.sub ≠ none
  zero : hasFlag flags memZero = true →
    zeroBuf (cpuVAddrAt (c.mappingVAddr flags (c.area.getD 0)) c.offset) c.zeroed = true

def Freeing (flags : ℕ) : Prop :=
  hasFlag flags memUserSuppliedDevvaddr = false ∧ hasFlag flags memRamBackedAllocation = false

/-- Memory with an address of the processor is registered, no step fails behind the device
    addresses, and a buffer that the table does not take is not of a kind of its own. -/
structure Behaves (c : WrapCall) (flags : ℕ) : Prop where
  registered : ¬Lost c flags
  finishes : Placed c flags → Finishes c flags
  entered : Placed c flags → c.origin.hashed = true → c.inserted = false → Freeing flags

def Provided (s : Store) (heap : BmHeap) (c : WrapCall) : Prop :=
  (s.retrieve c.hashAddress ≠ 0 ∧ matchesWrap s c (s.retrieve c.hashAddress) = some true) ∨
    c.buf = none ∨ c.mapping = none ∨ Behaves c (c.uFlags heap)

variable {s t u : Store} {heap : BmHeap} {c : WrapCall} {flags p q a v n : ℕ} {m : Mapping}
  {r : ℕ × Store}

theorem Undone.refl (s : Store) : Undone s s := ⟨rfl, rfl, rfl, rfl, rfl, rfl, rfl⟩

@[simp] theorem newMapping_size (c : WrapCall) : c.newMapping.size = c.mappingSize := rfl

theorem origin_cases (c : WrapCall) : c.origin = .wrapped ∨ c.origin = .wrappedVirtaddr ∨
    c.origin = .wrappedScatter ∨ c.origin = .wrappedScatterVirtaddr := by
  unfold WrapCall.origin
  split
  · split
    · exact .inr (.inl rfl)
    · exact .inr (.inr (.inr rfl))
  · split
    · exact .inl rfl
    · exact .inr (.inr (.inl rfl))

theorem unwrapArea_eq {b : Block Area} (hm : m.origin = c.origin) (hknown : mapType flags ≠ .other)
    (hb : s.areas.blocks m.hOSMemHandle = some b) (hmapped : b.content.mapped = false) :
    unwrapArea s flags m = s.freeArea m.hOSMemHandle m.size := by
  have hrelease : releaseArea s flags m.hOSMemHandle m.size =
      s.freeArea m.hOSMemHandle m.size := releaseArea_free hb hknown fun _ => hmapped
  have hunregister : unregisterArea s flags m.hOSMemHandle m.size =
      s.freeArea m.hOSMemHandle m.size := by
    unfold unregisterArea
    rw [if_neg hknown, hb, Option.bind_eq_bind, Option.bind_some, hmapped, Bool.and_false]
    rfl
  unfold unwrapArea
  rcases origin_cases c with horigin | horigin | horigin | horigin
  · rw [hm, horigin]
    exact hrelease
  · rw [hm, horigin]
    exact hunregister
  · rw [hm, horigin]
    exact hunregister
  · rw [hm, horigin]
    exact hunregister

theorem devMap_back (hm : m.origin = c.origin) (hv : m.devVAddr = v) (hw : m.size % 4096 = 0)
    (hfits : v + m.size ≤ 4294967296)
    (hnone : ∀ k, k < pageCount m.size → s.ptes (v / pageSize + k) = none) :
    ∃ e, devMap s m flags = some { s with ptes := e } ∧
      unmapLoop (pageCount m.size) v e = s.ptes := by
  have hpages : v + 4096 * pageCount m.size ≤ 4294967296 := by
    rw [pageCount_whole hw]
    exact hfits
  have hback (look : ℕ → Target) (advance o : ℕ) :
      unmapLoop (pageCount m.size) v (mapLoop look advance (pageCount m.size) v o s.ptes) =
        s.ptes := unmapLoop_mapLoop hpages hnone
  unfold devMap
  rcases origin_cases c with horigin | horigin | horigin | horigin
  · rw [hm, horigin, hv]
    exact ⟨_, rfl, hback _ _ _⟩
  · rw [hm, horigin, hv]
    exact ⟨_, rfl, hback _ _ _⟩
  · rw [hm, horigin, hv]
    exact ⟨_, rfl, hback _ _ _⟩
  · rw [hm, horigin, hv]
    exact ⟨_, rfl, hback _ _ _⟩

structure Mapped (s t : Store) (q : ℕ) : Prop where
  mappings : Added s.mappings.blocks t.mappings.blocks q
  bufs : t.bufs = s.bufs
  hash : t.hash = s.hash
  refCount : t.refCount = s.refCount

/-- `WrapMemory` fails, and what it has made is gone but for device addresses. -/
structure Failed (s u : Store) (device : ℕ → Option ℕ) (ptes : ℕ → Option Target) : Prop where
  mappings : u.mappings.blocks = s.mappings.blocks
  bufs : u.bufs = s.bufs
  areas : u.areas.blocks = s.areas.blocks
  hash : u.hash = s.hash
  refCount : u.refCount = s.refCount
  device : u.device = device
  ptes : u.ptes = ptes

theorem wrapFail_back (hclean : wrapCleanup t flags m = some u) (hm : Mapped s u q)
    (hareas : u.areas.blocks = s.areas.blocks) :
    ∃ w, wrapFail t flags q m = some (false, w) ∧ Failed s w u.device u.ptes := by
  obtain ⟨w, hw, hback, hrest⟩ := freeMapping_back hm.mappings
  unfold wrapFail
  rw [hclean, Option.bind_eq_bind, Option.bind_some, hw]
  refine ⟨w, rfl, hback, ?_, ?_, ?_, ?_, ?_, ?_⟩
  · rw [hrest]
    exact hm.bufs
  · rw [hrest]
    exact hareas
  · rw [hrest]
    exact hm.hash
  · rw [hrest]
    exact hm.refCount
  · rw [hrest]
  · rw [hrest]

theorem wrapFail_area (hm : Mapped s t q) (ha : Added s.areas.blocks t.areas.blocks m.hOSMemHandle)
    (h0 : m.hOSMemHandle ≠ 0) (horigin : m.origin = c.origin) (hknown : mapType flags ≠ .other)
    {b : Block Area} (hb : t.areas.blocks m.hOSMemHandle = some b)
    (hmapped : b.content.mapped = false) :
    ∃ w, wrapFail t flags q m = some (false, w) ∧ Failed s w t.device t.ptes := by
  obtain ⟨u, hu, hareas, hrest⟩ := freeArea_back (n := m.size) ha
  have hclean : wrapCleanup t flags m = some u := by
    unfold wrapCleanup
    rw [if_neg fun h => h0 h.2, unwrapArea_eq horigin hknown hb hmapped]
    exact hu
  have hmapping : Mapped s u q := by
    rw [hrest]
    exact ⟨hm.mappings, hm.bufs, hm.hash, hm.refCount⟩
  have hdevice : u.device = t.device := by rw [hrest]
  have hptes : u.ptes = t.ptes := by rw [hrest]
  rw [← hdevice, ← hptes]
  exact wrapFail_back hclean hmapping hareas

/-- The area at `a` is new, and so is the one at `b`, which may be the same. -/
structure Areas (s t : Store) (a b : ℕ) : Prop where
  fresh : s.areas.blocks a = none
  live : ∃ z, t.areas.blocks a = some z ∧ z.content.mapped = false
  own : ∃ z, t.areas.blocks b = some z ∧ z.content.mapped = false
  back : Function.update (Function.update t.areas.blocks b none) a none = s.areas.blocks

structure Ranged (s t : Store) (m : Mapping) : Prop where
  fresh : s.device m.devVAddr = none
  live : t.device m.devVAddr = some m.size
  back : Function.update t.device m.devVAddr none = s.device
  ptes : unmapLoop (pageCount m.size) m.devVAddr t.ptes = s.ptes

theorem Ranged.ne (hr : Ranged s t m) : t.device ≠ s.device := by
  intro heq
  have hlive := hr.live
  rw [heq, hr.fresh] at hlive
  cases hlive

structure Wrapped (s t : Store) (c : WrapCall) (p : ℕ) (b : Buf) (m : Mapping) : Prop where
  buf : ∃ z, t.bufs.blocks p = some ⟨z, b⟩
  bufs : ∀ i, i ≠ p → t.bufs.blocks i = s.bufs.blocks i
  mapping : ∃ z, t.mappings.blocks b.mapping = some ⟨z, m⟩
  mappings : Added s.mappings.blocks t.mappings.blocks b.mapping
  origin : m.origin = c.origin
  areas : Areas s t m.hOSMemHandle b.hOSMemHandle
  range : Ranged s t m
  hash : t.hash = s.hash
  refCount : t.refCount = s.refCount

theorem wrapZero_fails (hm : Mapped s t q) (hr : Ranged s t m)
    (hzero : hasFlag flags memZero = true)
    (hfails : zeroBuf (cpuVAddrAt m.cpuVAddr c.offset) c.zeroed = false) :
    ∃ u, wrapZero t c flags p q m a = some (false, u) ∧ u.bufs = s.bufs ∧ u.device ≠ s.device := by
  obtain ⟨b, hb⟩ := Option.ne_none_iff_exists'.mp hm.mappings.live
  have hcond : (hasFlag flags memZero && !zeroBuf (cpuVAddrAt m.cpuVAddr c.offset) c.zeroed) =
      true := by
    rw [hzero, hfails]
    rfl
  unfold wrapZero Store.writeMapping
  rw [Heap.write_eq hb, Option.map_some, Option.bind_eq_bind, Option.bind_some, if_pos hcond]
  exact ⟨_, rfl, hm.bufs, hr.ne⟩

theorem wrapZero_ok (hm : Mapped s t q) (hr : Ranged s t m) (ha : Areas s t m.hOSMemHandle a)
    (horigin : m.origin = c.origin) (hbuf : s.bufs.blocks p ≠ none)
    (hzero : hasFlag flags memZero = true →
      zeroBuf (cpuVAddrAt m.cpuVAddr c.offset) c.zeroed = true) :
    ∃ u b, wrapZero t c flags p q m a = some (true, u) ∧ Wrapped s u c p b m := by
  obtain ⟨x, hx⟩ := Option.ne_none_iff_exists'.mp hm.mappings.live
  obtain ⟨y, hy⟩ := Option.ne_none_iff_exists'.mp hbuf
  have hcond : ¬(hasFlag flags memZero && !zeroBuf (cpuVAddrAt m.cpuVAddr c.offset) c.zeroed) =
      true := by
    intro h
    obtain ⟨hflag, hnot⟩ := Bool.and_eq_true_iff.mp h
    rw [hzero hflag] at hnot
    cases hnot
  have hheld : t.bufs.blocks p = some y := by
    rw [hm.bufs]
    exact hy
  unfold wrapZero Store.writeMapping
  rw [Heap.write_eq hx, Option.map_some, Option.bind_eq_bind, Option.bind_some, if_neg hcond]
  unfold Store.writeBuf
  dsimp only
  rw [Heap.write_eq hheld, Option.map_some, Option.map_some]
  refine ⟨_, _, rfl, ⟨_, Function.update_self _ _ _⟩, ?_, ⟨_, Function.update_self _ _ _⟩,
    hm.mappings.written _, horigin, ?_, ?_, hm.hash, hm.refCount⟩
  · intro i hi
    refine (Function.update_of_ne hi _ _).trans ?_
    rw [hm.bufs]
  · exact ⟨ha.fresh, ha.live, ha.own, ha.back⟩
  · exact ⟨hr.fresh, hr.live, hr.back, hr.ptes⟩

structure Held (s t : Store) (c : WrapCall) (flags q : ℕ) (m : Mapping) : Prop where
  mapped : Mapped s t q
  range : Ranged s t m
  area : Added s.areas.blocks t.areas.blocks m.hOSMemHandle
  live : ∃ z, t.areas.blocks m.hOSMemHandle = some z ∧ z.content.mapped = false
  pos : m.hOSMemHandle ≠ 0
  origin : m.origin = c.origin
  cpuVAddr : m.cpuVAddr = c.mappingVAddr flags (c.area.getD 0)
  known : mapType flags ≠ .other

def SubFresh (s : Store) (c : WrapCall) (a : ℕ) : Prop :=
  ∀ b, c.sub = some b → b ≠ 0 ∧ s.areas.blocks b = none ∧ b ≠ a

theorem Held.areas (hh : Held s t c flags q m) : Areas s t m.hOSMemHandle m.hOSMemHandle := by
  refine ⟨hh.area.fresh, hh.live, hh.live, ?_⟩
  rw [hh.area.taken]
  exact Function.update_eq_self_iff.mpr hh.area.fresh.symm

theorem Held.zero_iff (hh : Held s t c flags q m) :
    zeroBuf (cpuVAddrAt m.cpuVAddr c.offset) c.zeroed =
      zeroBuf (cpuVAddrAt (c.mappingVAddr flags (c.area.getD 0)) c.offset) c.zeroed := by
  rw [hh.cpuVAddr]

theorem Held.makeSub (hh : Held s t c flags q m) (hfresh : SubFresh s c m.hOSMemHandle) {b : ℕ}
    (hb : c.sub = some b) :
    ∃ u, makeSub t m.hOSMemHandle c.offset n c.sub = some (b, u) ∧ Mapped s u q ∧ Ranged s u m ∧
      Areas s u m.hOSMemHandle b := by
  obtain ⟨h0, hfree, hne⟩ := hfresh b hb
  obtain ⟨z, hz, hmapped⟩ := hh.live
  have hnone : t.areas.blocks b = none := by
    rw [hh.area.others b hne]
    exact hfree
  unfold BufferStore.makeSub
  rw [hb, Heap.alloc_eq h0 hnone]
  refine ⟨_, rfl, ⟨hh.mapped.mappings, hh.mapped.bufs, hh.mapped.hash, hh.mapped.refCount⟩,
    ⟨hh.range.fresh, hh.range.live, hh.range.back, hh.range.ptes⟩, hh.area.fresh, ?_, ?_, ?_⟩
  · exact ⟨z, (Function.update_of_ne hne.symm _ _).trans hz, hmapped⟩
  · exact ⟨_, Function.update_self _ _ _, rfl⟩
  · have hback : Function.update (Function.update t.areas.blocks b
        (some ⟨n, ⟨.sub m.hOSMemHandle c.offset, false⟩⟩)) b none = t.areas.blocks :=
      update_back hnone
    dsimp only
    rw [hback]
    exact hh.area.taken

theorem wrapSub_ok (hh : Held s t c flags q m) (hfresh : SubFresh s c m.hOSMemHandle)
    (hbuf : s.bufs.blocks p ≠ none) (hfin : Finishes c flags) :
    ∃ u b, wrapSub t c flags p q m = some (true, u) ∧ Wrapped s u c p b m := by
  have hzero : hasFlag flags memZero = true →
      zeroBuf (cpuVAddrAt m.cpuVAddr c.offset) c.zeroed = true := by
    intro hflag
    rw [hh.zero_iff]
    exact hfin.zero hflag
  unfold wrapSub
  by_cases hoffset : c.offset = 0
  · rw [if_pos hoffset]
    exact wrapZero_ok hh.mapped hh.range hh.areas hh.origin hbuf hzero
  · obtain ⟨b, hb⟩ := Option.ne_none_iff_exists'.mp (hfin.sub hoffset)
    obtain ⟨u, hu, hm, hr, ha⟩ := hh.makeSub (n := u32Sub m.size c.offset) hfresh hb
    rw [if_neg hoffset, hu, Option.bind_eq_bind, Option.bind_some]
    dsimp only
    rw [if_neg (hfresh b hb).1]
    exact wrapZero_ok hm hr ha hh.origin hbuf hzero

theorem wrapSub_fails (hh : Held s t c flags q m) (hfresh : SubFresh s c m.hOSMemHandle)
    (hfin : ¬Finishes c flags) :
    ∃ u, wrapSub t c flags p q m = some (false, u) ∧ u.bufs = s.bufs ∧ u.device ≠ s.device := by
  have hunzero (hsub : c.offset ≠ 0 → c.sub ≠ none) : hasFlag flags memZero = true ∧
      zeroBuf (cpuVAddrAt m.cpuVAddr c.offset) c.zeroed = false := by
    by_contra hnot
    apply hfin
    refine ⟨hsub, fun hflag => ?_⟩
    rw [← hh.zero_iff]
    by_contra hfails
    exact hnot ⟨hflag, Bool.eq_false_iff.mpr hfails⟩
  unfold wrapSub
  by_cases hoffset : c.offset = 0
  · obtain ⟨hflag, hfails⟩ := hunzero fun h => absurd hoffset h
    rw [if_pos hoffset]
    exact wrapZero_fails hh.mapped hh.range hflag hfails
  · rw [if_neg hoffset]
    cases hsub : c.sub with
    | none =>
      obtain ⟨z, hz, hmapped⟩ := hh.live
      obtain ⟨w, hw, hfailed⟩ :=
        wrapFail_area hh.mapped hh.area hh.pos hh.origin hh.known hz hmapped
      refine ⟨w, hw, hfailed.bufs, ?_⟩
      rw [hfailed.device]
      exact hh.range.ne
    | some b =>
      obtain ⟨u, hu, hm, hr, -⟩ := hh.makeSub (n := u32Sub m.size c.offset) hfresh hsub
      obtain ⟨hflag, hfails⟩ := hunzero fun _ => by
        rw [hsub]
        exact Option.some_ne_none b
      rw [← hsub, hu, Option.bind_eq_bind, Option.bind_some]
      dsimp only
      rw [if_neg (hfresh b hsub).1]
      exact wrapZero_fails hm hr hflag hfails

structure HasArea (s t : Store) (c : WrapCall) (flags q : ℕ) (m : Mapping) : Prop where
  mapped : Mapped s t q
  area : Added s.areas.blocks t.areas.blocks m.hOSMemHandle
  live : ∃ z, t.areas.blocks m.hOSMemHandle = some z ∧ z.content.mapped = false
  pos : m.hOSMemHandle ≠ 0
  handle : c.area = some m.hOSMemHandle
  origin : m.origin = c.origin
  size : m.size = c.mappingSize
  cpuVAddr : m.cpuVAddr = c.mappingVAddr flags (c.area.getD 0)
  known : mapType flags ≠ .other
  device : t.device = s.device
  ptes : t.ptes = s.ptes

theorem HasArea.devSize_eq (hh : HasArea s t c flags q m) :
    (devSize m (flags ||| memRead ||| memWrite)).size = c.devSize flags := by
  unfold WrapCall.devSize
  rw [BufferStore.devSize_eq, BufferStore.devSize_eq, hh.size]
  rfl

theorem WrapCall.devSize_whole (c : WrapCall) (flags : ℕ) : c.devSize flags % 4096 = 0 := by
  have hmod : c.mappingSize % 4096 = 0 := pageAlign_mod _
  unfold WrapCall.devSize
  rw [BufferStore.devSize_eq]
  dsimp only
  rw [newMapping_size]
  split
  · rw [u32_eq_mod]
    omega
  · exact hmod

theorem wrapDevMem_none (hh : HasArea s t c flags q m) (hv : c.devVAddr = none) :
    ∃ w, wrapDevMem t c flags p q m = some (false, w) ∧ Failed s w s.device s.ptes := by
  obtain ⟨z, hz, hmapped⟩ := hh.live
  have hnone : devMemoryAlloc t m (flags ||| memRead ||| memWrite) none =
      some ((false, devSize m (flags ||| memRead ||| memWrite)), t) := rfl
  have hhandle := devSize_hOSMemHandle m (flags ||| memRead ||| memWrite)
  have horigin : (devSize m (flags ||| memRead ||| memWrite)).origin = c.origin := by
    rw [devSize_origin]
    exact hh.origin
  unfold wrapDevMem
  rw [hv, hnone, Option.bind_eq_bind, Option.bind_some]
  dsimp only
  rw [if_neg Bool.false_ne_true, ← hh.device, ← hh.ptes]
  refine wrapFail_area hh.mapped ?_ ?_ horigin hh.known ?_ hmapped
  · rw [hhandle]
    exact hh.area
  · rw [hhandle]
    exact hh.pos
  · rw [hhandle]
    exact hz

def placed (m : Mapping) (flags v : ℕ) : Mapping :=
  { devSize m (flags ||| memRead ||| memWrite) with devVAddr := v }

@[simp] theorem placed_hOSMemHandle : (placed m flags v).hOSMemHandle = m.hOSMemHandle :=
  devSize_hOSMemHandle m _

@[simp] theorem placed_origin : (placed m flags v).origin = m.origin := devSize_origin m _

@[simp] theorem placed_cpuVAddr : (placed m flags v).cpuVAddr = m.cpuVAddr := by
  unfold placed
  rw [BufferStore.devSize_eq]

theorem HasArea.placed_size (hh : HasArea s t c flags q m) :
    (placed m flags v).size = c.devSize flags := hh.devSize_eq

def ranged (t : Store) (v n : ℕ) (e : ℕ → Option Target) : Store :=
  { t with device := Function.update t.device v (some n), ptes := e }

theorem wrapDevMem_some (hh : HasArea s t c flags q m) (hv : c.devVAddr = some v)
    (ho : s.Offers v (c.devSize flags)) (hs : s.Translated) :
    ∃ u, wrapDevMem t c flags p q m = wrapSub u c flags p q (placed m flags v) ∧
      Held s u c flags q (placed m flags v) := by
  have hnone : t.device v = none := by
    rw [hh.device]
    exact ho.free
  obtain ⟨e, he, hback⟩ : ∃ e, devMap (ranged t v (c.devSize flags) t.ptes) (placed m flags v)
      (flags ||| memRead ||| memWrite) = some (ranged t v (c.devSize flags) e) ∧
      unmapLoop (pageCount (c.devSize flags)) v e = t.ptes := by
    have hwhole := c.devSize_whole flags
    rw [← hh.placed_size (v := v)] at hwhole ⊢
    apply devMap_back (placed_origin.trans hh.origin) rfl hwhole
    · rw [hh.placed_size]
      exact ho.fits
    · intro k hk
      rw [hh.placed_size] at hk
      have hunmapped := ho.unmapped hs hk
      rw [← hh.ptes] at hunmapped
      exact hunmapped
  have hfits : v + (devSize m (flags ||| memRead ||| memWrite)).size ≤ 4294967296 := by
    rw [hh.devSize_eq]
    exact ho.fits
  have hcall := devMemoryAlloc_some ho.aligned hnone hfits (by
    rw [hh.devSize_eq]
    exact he)
  unfold wrapDevMem
  rw [hv, hcall, Option.bind_eq_bind, Option.bind_some]
  refine ⟨_, if_pos rfl, ?_⟩
  refine ⟨⟨hh.mapped.mappings, hh.mapped.bufs, hh.mapped.hash, hh.mapped.refCount⟩, ?_, ?_, ?_, ?_,
    placed_origin.trans hh.origin, placed_cpuVAddr.trans hh.cpuVAddr, hh.known⟩
  · refine ⟨ho.free, ?_, ?_, ?_⟩
    · rw [hh.placed_size]
      exact Function.update_self _ _ _
    · rw [← hh.device]
      exact update_back hnone
    · rw [hh.placed_size, ← hh.ptes]
      exact hback
  · rw [placed_hOSMemHandle]
    exact hh.area
  · rw [placed_hOSMemHandle]
    exact hh.live
  · rw [placed_hOSMemHandle]
    exact hh.pos

theorem wrapMemory_unmapped (hq : c.mapping = none) :
    wrapMemory s c flags p = some (false, s) := by
  unfold wrapMemory
  rw [hq]
  rfl

theorem allocMapping_mapped (h0 : q ≠ 0) (hq : s.mappings.blocks q = none) :
    ∃ t, s.allocMapping m (some q) = some (q, t) ∧ Mapped s t q ∧ t.areas = s.areas ∧
      t.device = s.device ∧ t.ptes = s.ptes := by
  unfold Store.allocMapping
  rw [Heap.alloc_eq h0 hq]
  exact ⟨_, rfl, ⟨added_update hq _, rfl, rfl, rfl⟩, rfl, rfl, rfl⟩

def bound (c : WrapCall) (flags a : ℕ) : Mapping :=
  { c.newMapping with hOSMemHandle := a, cpuVAddr := c.mappingVAddr flags a }

theorem wrapMemory_bare (hq : c.mapping = some q) (h0 : q ≠ 0) (hfree : s.mappings.blocks q = none)
    (harea : mapType flags = .other ∨ c.area = none) :
    ∃ t, wrapMemory s c flags p = wrapFail t flags q (bound c flags 0) ∧ Mapped s t q ∧
      t.areas = s.areas ∧ t.device = s.device ∧ t.ptes = s.ptes := by
  obtain ⟨t, ht, hrest⟩ := allocMapping_mapped (m := c.newMapping) h0 hfree
  have hnone : makeArea t flags c.newMapping.size c.kind c.area = some (0, t) := by
    unfold makeArea
    by_cases hother : mapType flags = .other
    · exact if_pos hother
    · rw [if_neg hother, harea.resolve_left hother]
      rfl
  unfold wrapMemory
  rw [hq]
  dsimp only
  rw [ht, Option.bind_eq_bind, Option.bind_some]
  dsimp only
  rw [if_neg h0, hnone, Option.bind_some]
  exact ⟨t, if_pos rfl, hrest⟩

theorem wrapMemory_back (hq : c.mapping = some q) (h0 : q ≠ 0) (hfree : s.mappings.blocks q = none)
    (harea : mapType flags = .other ∨ c.area = none) (hlost : ¬Lost c flags) :
    ∃ w, wrapMemory s c flags p = some (false, w) ∧ Failed s w s.device s.ptes := by
  obtain ⟨t, ht, hm, hareas, hdevice, hptes⟩ := wrapMemory_bare (p := p) hq h0 hfree harea
  have hclean : wrapCleanup t flags (bound c flags 0) = some t := by
    unfold wrapCleanup
    by_cases hcond : (bound c flags 0).cpuVAddr = 0 ∧ (bound c flags 0).hOSMemHandle = 0
    · exact if_pos hcond
    · rw [if_neg hcond]
      have hother : mapType flags = .other := by
        by_contra hknown
        have hvaddr : c.cpuVAddr = 0 := by
          by_contra hset
          exact hlost ⟨hknown, harea.resolve_left hknown, hset⟩
        apply hcond
        refine ⟨?_, rfl⟩
        show c.mappingVAddr flags 0 = 0
        unfold WrapCall.mappingVAddr areaCpuVAddr
        rw [if_pos (Or.inl rfl), hvaddr]
        exact ite_self 0
      unfold unwrapArea releaseArea unregisterArea
      rw [if_pos hother, if_pos hother]
      rcases origin_cases c with horigin | horigin | horigin | horigin
      · rw [show (bound c flags 0).origin = _ from horigin]
      · rw [show (bound c flags 0).origin = _ from horigin]
      · rw [show (bound c flags 0).origin = _ from horigin]
      · rw [show (bound c flags 0).origin = _ from horigin]
  rw [ht, ← hdevice, ← hptes]
  exact wrapFail_back hclean hm (congrArg Heap.blocks hareas)

theorem wrapMemory_lost (hq : c.mapping = some q) (h0 : q ≠ 0) (hfree : s.mappings.blocks q = none)
    (hnull : s.areas.blocks 0 = none) (hlost : Lost c flags) : wrapMemory s c flags p = none := by
  obtain ⟨hknown, harea, hvaddr⟩ := hlost
  obtain ⟨t, ht, hm, hareas, -, -⟩ := wrapMemory_bare (p := p) hq h0 hfree (.inr harea)
  have hcrash : unregisterArea t flags (bound c flags 0).hOSMemHandle (bound c flags 0).size =
      none := by
    unfold unregisterArea
    rw [if_neg hknown]
    show (t.areas.blocks 0).bind _ = none
    rw [hareas, hnull]
    rfl
  have hset (horigin : c.origin ≠ .wrapped) : (bound c flags 0).cpuVAddr ≠ 0 := by
    show c.mappingVAddr flags 0 ≠ 0
    unfold WrapCall.mappingVAddr
    rw [if_neg horigin]
    exact hvaddr
  have hclean : wrapCleanup t flags (bound c flags 0) = none := by
    have horigin : c.origin = .wrappedVirtaddr ∨ c.origin = .wrappedScatterVirtaddr := by
      unfold WrapCall.origin
      rw [if_pos hvaddr]
      split
      · exact .inl rfl
      · exact .inr rfl
    unfold wrapCleanup unwrapArea
    cases horigin with
    | inl h =>
      rw [if_neg fun hnone => hset (by rw [h]; decide) hnone.1,
        show (bound c flags 0).origin = _ from h]
      exact hcrash
    | inr h =>
      rw [if_neg fun hnone => hset (by rw [h]; decide) hnone.1,
        show (bound c flags 0).origin = _ from h]
      exact hcrash
  rw [ht]
  unfold wrapFail
  rw [hclean]
  rfl

theorem wrapMemory_area (hq : c.mapping = some q) (h0 : q ≠ 0) (hfree : s.mappings.blocks q = none)
    (hknown : mapType flags ≠ .other) (ha : c.area = some a) (ha0 : a ≠ 0)
    (hunused : s.areas.blocks a = none) :
    ∃ t, wrapMemory s c flags p = wrapDevMem t c flags p q (bound c flags a) ∧
      HasArea s t c flags q (bound c flags a) := by
  obtain ⟨t, ht, hm, hareas, hdevice, hptes⟩ := allocMapping_mapped (m := c.newMapping) h0 hfree
  have hempty : t.areas.blocks a = none := by
    rw [hareas]
    exact hunused
  unfold wrapMemory makeArea
  rw [hq, ha]
  dsimp only
  rw [ht, Option.bind_eq_bind, Option.bind_some]
  dsimp only
  rw [if_neg h0, if_neg hknown, Heap.alloc_eq ha0 hempty]
  refine ⟨_, if_neg ha0, ⟨hm.mappings, hm.bufs, hm.hash, hm.refCount⟩, ?_, ?_, ha0, ha, rfl, rfl,
    ?_, hknown, hdevice, hptes⟩
  · dsimp only
    rw [hareas]
    exact added_update hunused _
  · exact ⟨_, Function.update_self _ _ _, rfl⟩
  · rw [ha]
    rfl

variable {b : Buf}

theorem Wrapped.release (hw : Wrapped s t c p b m) (flags : ℕ) :
    ∃ u, (if b.hOSMemHandle = m.hOSMemHandle then some t else releaseSub t flags b.hOSMemHandle) =
      some u ∧ u = { t with areas := u.areas } ∧
      Added s.areas.blocks u.areas.blocks m.hOSMemHandle ∧
      ∃ z, u.areas.blocks m.hOSMemHandle = some z ∧ z.content.mapped = false := by
  obtain ⟨hfresh, hlive, hown, hback⟩ := hw.areas
  by_cases heq : b.hOSMemHandle = m.hOSMemHandle
  · rw [if_pos heq]
    rw [heq, Function.update_idem] at hback
    refine ⟨t, rfl, rfl, ⟨hfresh, ?_, ?_⟩, hlive⟩
    · obtain ⟨z, hz, -⟩ := hlive
      rw [hz]
      exact Option.some_ne_none z
    · intro k hk
      rw [← hback, Function.update_of_ne hk]
  · obtain ⟨x, hx, hunmapped⟩ := hown
    obtain ⟨z, hz, hmapped⟩ := hlive
    have hkept : Function.update t.areas.blocks b.hOSMemHandle none m.hOSMemHandle = some z :=
      (Function.update_of_ne (Ne.symm heq) _ _).trans hz
    have hcond : ¬(!hasFlag flags hapKernelOnly && x.content.mapped) = true := by
      rw [hunmapped, Bool.and_false]
      exact Bool.false_ne_true
    unfold releaseSub Store.freeArea
    rw [if_neg heq, hx, Option.bind_eq_bind, Option.bind_some, if_neg hcond, Heap.free_eq hx]
    refine ⟨_, rfl, rfl, ⟨hfresh, ?_, ?_⟩, ⟨z, hkept, hmapped⟩⟩
    · dsimp only
      rw [hkept]
      exact Option.some_ne_none z
    · intro k hk
      rw [← hback, Function.update_of_ne hk]

theorem Wrapped.bufAt (hw : Wrapped s t c p b m) : t.bufAt p = some b := by
  obtain ⟨z, hz⟩ := hw.buf
  unfold Store.bufAt
  rw [hz]
  rfl

theorem Wrapped.mappingAt (hw : Wrapped s t c p b m) : t.mappingAt b.mapping = some m := by
  obtain ⟨z, hz⟩ := hw.mapping
  exact Store.mappingAt_eq_some.mpr ⟨z, hz⟩

theorem Wrapped.freeBuf_eq (hw : Wrapped s t c p b m) (hu : freeWrapped t flags b m = some u)
    (hbufs : u.bufs = t.bufs) :
    ∃ w, freeBuf t flags p = some w ∧ w = { u with bufs := w.bufs } ∧
      w.bufs.blocks = Function.update t.bufs.blocks p none := by
  obtain ⟨z, hz⟩ := hw.buf
  rw [← hbufs] at hz
  unfold freeBuf
  rw [hw.bufAt, Option.bind_eq_bind, Option.bind_some, hw.mappingAt, Option.bind_eq_bind,
    Option.bind_some, hu, Option.bind_eq_bind, Option.bind_some]
  unfold Store.freeBuf
  rw [Heap.free_eq hz, hbufs]
  exact ⟨_, rfl, rfl, rfl⟩

theorem Wrapped.freed (hw : Wrapped s t c p b m) (hknown : mapType flags ≠ .other)
    (hfree : Freeing flags) :
    ∃ w, freeBuf t flags p = some w ∧ w.mappings.blocks = s.mappings.blocks ∧
      w.bufs.blocks = Function.update t.bufs.blocks p none ∧
      w.areas.blocks = s.areas.blocks ∧ w.device = s.device ∧ w.ptes = s.ptes ∧
      w.hash = s.hash ∧ w.refCount = s.refCount := by
  obtain ⟨t₁, ht₁, hrest₁, ha, z, hz, hmapped⟩ := hw.release flags
  obtain ⟨t₂, ht₂, hareas, hrest₂⟩ := freeArea_back (n := m.size) ha
  have hunwrap := (unwrapArea_eq hw.origin hknown hz hmapped).trans ht₂
  have hmem : devMemoryFree t₂ m = { t₂ with
      device := s.device
      ptes := s.ptes } := by
    have hdevice : t₂.device = t.device := by rw [hrest₂, hrest₁]
    have hptes : t₂.ptes = t.ptes := by rw [hrest₂, hrest₁]
    unfold devMemoryFree mmuFree
    rw [hdevice, hw.range.live, hptes]
    show ({ t₂ with device := _, ptes := _ } : Store) = _
    rw [hw.range.back, hw.range.ptes]
  have hmappings : t₂.mappings = t.mappings := by rw [hrest₂, hrest₁]
  have hlive : Added s.mappings.blocks (devMemoryFree t₂ m).mappings.blocks b.mapping := by
    rw [hmem, hmappings]
    exact hw.mappings
  obtain ⟨t₃, ht₃, hback, hrest₃⟩ := freeMapping_back hlive
  have hall : freeWrapped t flags b m = some t₃ := by
    unfold freeWrapped
    rw [if_neg (Bool.eq_false_iff.mp hfree.1), ht₁, Option.bind_eq_bind, Option.bind_some,
      if_neg (Bool.eq_false_iff.mp hfree.2), hunwrap, Option.bind_some]
    exact ht₃
  have hbufs : t₃.bufs = t.bufs := by rw [hrest₃, hmem, hrest₂, hrest₁]
  obtain ⟨w, hfreed, hrest, hlast⟩ := hw.freeBuf_eq hall hbufs
  have hhash : t₃.hash = t.hash := by rw [hrest₃, hmem, hrest₂, hrest₁]
  have hcount : t₃.refCount = t.refCount := by rw [hrest₃, hmem, hrest₂, hrest₁]
  have hareas₃ : t₃.areas = t₂.areas := by rw [hrest₃, hmem]
  have hdevice₃ : t₃.device = s.device := by rw [hrest₃, hmem]
  have hptes₃ : t₃.ptes = s.ptes := by rw [hrest₃, hmem]
  refine ⟨w, hfreed, ?_, hlast, ?_, ?_, ?_, ?_, ?_⟩
  · rw [hrest]
    exact hback
  · rw [hrest]
    exact (congrArg Heap.blocks hareas₃).trans hareas
  · rw [hrest]
    exact hdevice₃
  · rw [hrest]
    exact hptes₃
  · rw [hrest]
    exact hhash.trans hw.hash
  · rw [hrest]
    exact hcount.trans hw.refCount

theorem Wrapped.not_freed (hw : Wrapped s t c p b m) (hfree : ¬Freeing flags) :
    ∃ w, freeBuf t flags p = some w ∧ w.device ≠ s.device := by
  have hkept : ∃ u, freeWrapped t flags b m = some u ∧ u.bufs = t.bufs ∧ u.device = t.device := by
    unfold freeWrapped
    by_cases hsupplied : hasFlag flags memUserSuppliedDevvaddr = true
    · rw [if_pos hsupplied]
      by_cases hram : hasFlag flags memRamBackedAllocation = true
      · rw [if_pos hram]
        exact ⟨t, rfl, rfl, rfl⟩
      · obtain ⟨u, hu, -, hrest⟩ := freeMapping_back hw.mappings
        rw [if_neg hram, hu]
        refine ⟨u, rfl, ?_, ?_⟩
        · rw [hrest]
        · rw [hrest]
    · have hram : hasFlag flags memRamBackedAllocation = true := by
        by_contra hnot
        exact hfree ⟨Bool.eq_false_iff.mpr hsupplied, Bool.eq_false_iff.mpr hnot⟩
      obtain ⟨u, hu, hrest, -⟩ := hw.release flags
      rw [if_neg hsupplied, hu, Option.bind_eq_bind, Option.bind_some, if_pos hram]
      refine ⟨u, rfl, ?_, ?_⟩
      · rw [hrest]
      · rw [hrest]
  obtain ⟨u, hu, hbufs, hdevice⟩ := hkept
  obtain ⟨w, hfreed, hrest, -⟩ := hw.freeBuf_eq hu hbufs
  refine ⟨w, hfreed, ?_⟩
  have hsame : w.device = t.device := by
    rw [hrest]
    exact hdevice
  rw [hsame]
  exact hw.range.ne

theorem Wrapped.entered (hw : Wrapped s t c p b m) (hash : List (ℕ × ℕ)) :
    ∃ u, enterBuf { t with hash := hash } p = some (p, u) := by
  obtain ⟨z, hz⟩ := hw.buf
  have hb : ({ t with hash := hash } : Store).bufAt p = some b := hw.bufAt
  unfold enterBuf Store.writeBuf
  rw [hb, Option.bind_eq_bind, Option.bind_some]
  dsimp only
  rw [Heap.write_eq hz]
  exact ⟨_, rfl⟩

theorem Failed.undone (hf : Failed t u s.device s.ptes) (hb : Added s.bufs.blocks t.bufs.blocks p)
    (ht : t = { s with bufs := t.bufs }) : ∃ w, u.freeBuf p = some w ∧ Undone s w := by
  have hbufs : Added s.bufs.blocks u.bufs.blocks p := by
    rw [hf.bufs]
    exact hb
  obtain ⟨w, hw, hback, hrest⟩ := freeBuf_back hbufs
  have hmappings : t.mappings = s.mappings := by rw [ht]
  have hareas : t.areas = s.areas := by rw [ht]
  have hhash : t.hash = s.hash := by rw [ht]
  have hcount : t.refCount = s.refCount := by rw [ht]
  refine ⟨w, hw, ?_, hback, ?_, ?_, ?_, ?_, ?_⟩
  · rw [hrest]
    exact hf.mappings.trans (congrArg Heap.blocks hmappings)
  · rw [hrest]
    exact hf.areas.trans (congrArg Heap.blocks hareas)
  · rw [hrest]
    exact hf.device
  · rw [hrest]
    exact hf.ptes
  · rw [hrest]
    exact hf.hash.trans hhash
  · rw [hrest]
    exact hf.refCount.trans hcount

theorem freeBuf_kept (hb : Added s.bufs.blocks t.bufs.blocks p) (hbufs : u.bufs = t.bufs)
    (hdevice : u.device ≠ s.device) : ∃ w, u.freeBuf p = some w ∧ w.device ≠ s.device := by
  rw [← hbufs] at hb
  obtain ⟨w, hw, -, hrest⟩ := freeBuf_back hb
  refine ⟨w, hw, ?_⟩
  rw [hrest]
  exact hdevice

def wrapEnd (c : WrapCall) (flags p : ℕ) (r : Bool × Store) : Option (ℕ × Store) :=
  if r.1 then wrapInsert r.2 c flags p else (r.2.freeBuf p).map fun s => (0, s)

theorem wrapNew_eq (flags : ℕ) (hp : c.buf = some p) (h0 : p ≠ 0) (hfree : s.bufs.blocks p = none) :
    ∃ t, wrapNew s c flags = (wrapMemory t c flags p).bind (wrapEnd c flags p) ∧
      t = { s with bufs := t.bufs } ∧ Added s.bufs.blocks t.bufs.blocks p := by
  unfold wrapNew Store.allocBuf
  rw [hp, Heap.alloc_eq h0 hfree, Option.map_some, Option.bind_eq_bind, Option.bind_some]
  exact ⟨_, if_neg h0, rfl, added_update hfree _⟩

/-- What an end of `BM_Wrap` is: of one that behaves, or of one that fails and leaves device
    addresses. -/
def Ends (s : Store) (good : Prop) (r : Option (ℕ × Store)) : Prop :=
  (good ∧ ∃ x, r = some x ∧ Keeps s x) ∨
    (¬good ∧ ∀ x, r = some x → x.1 = 0 ∧ x.2.device ≠ s.device)

theorem not_keeps_of_device (hr : r.1 = 0) (hd : r.2.device ≠ s.device) : ¬Keeps s r :=
  fun hk => hd (hk hr).device

theorem Ends.iff {good : Prop} {r : Option (ℕ × Store)} (he : Ends s good r) :
    (∃ x, r = some x ∧ Keeps s x) ↔ good := by
  constructor
  · intro h
    obtain ⟨x, hx, hk⟩ := h
    cases he with
    | inl h => exact h.1
    | inr h =>
      obtain ⟨h0, hdevice⟩ := h.2 x hx
      exact absurd hk (not_keeps_of_device h0 hdevice)
  · intro hgood
    cases he with
    | inl h => exact h.2
    | inr h => exact absurd hgood h.1

theorem wrapInsert_ends (hw : Wrapped t u c p b m) (ht : t = { s with bufs := t.bufs })
    (hb : Added s.bufs.blocks t.bufs.blocks p) (h0 : p ≠ 0) (hknown : mapType flags ≠ .other) :
    Ends s (c.origin.hashed = true → c.inserted = false → Freeing flags)
      (wrapInsert u c flags p) := by
  have hdevice : t.device = s.device := by rw [ht]
  unfold wrapInsert
  by_cases hhashed : c.origin.hashed = true
  · rw [if_pos hhashed]
    by_cases hinserted : c.inserted = true
    · obtain ⟨v, hv⟩ := hw.entered ((c.hashAddress, p) :: u.hash)
      rw [if_pos hinserted, hv]
      refine .inl ⟨?_, (p, v), rfl, fun h => absurd h h0⟩
      intro _ hnot
      rw [hinserted] at hnot
      cases hnot
    · rw [if_neg hinserted]
      by_cases hfree : Freeing flags
      · obtain ⟨w, hfreed, hmappings, hbufs, hareas, hrange, hptes, hhash, hcount⟩ :=
          hw.freed hknown hfree
        have hback : Function.update u.bufs.blocks p none = s.bufs.blocks := by
          funext i
          by_cases hi : i = p
          · rw [hi, Function.update_self]
            exact hb.fresh.symm
          · rw [Function.update_of_ne hi, hw.bufs i hi, hb.others i hi]
        rw [hfreed]
        refine .inl ⟨fun _ _ => hfree, (0, w), rfl, fun _ => ?_⟩
        rw [ht] at hmappings hareas hrange hptes hhash hcount
        exact ⟨hmappings, hbufs.trans hback, hareas, hrange, hptes, hhash, hcount⟩
      · obtain ⟨w, hfreed, hkept⟩ := hw.not_freed hfree
        rw [hfreed]
        refine .inr ⟨fun hgood => hfree (hgood hhashed (Bool.eq_false_iff.mpr hinserted)), ?_⟩
        intro x hx
        rw [← Option.some.inj hx, ← hdevice]
        exact ⟨rfl, hkept⟩
  · obtain ⟨v, hv⟩ := hw.entered u.hash
    rw [if_neg hhashed]
    exact .inl ⟨fun h => absurd h hhashed, (p, v), hv, fun h => absurd h h0⟩

theorem ends_of_failed {good : Prop} {x : Option (Bool × Store)} (hgood : good)
    (hx : x = some (false, u)) (hf : Failed t u t.device t.ptes)
    (ht : t = { s with bufs := t.bufs }) (hb : Added s.bufs.blocks t.bufs.blocks p) :
    Ends s good (x.bind (wrapEnd c flags p)) := by
  have hdevice : t.device = s.device := by rw [ht]
  have hptes : t.ptes = s.ptes := by rw [ht]
  rw [hdevice, hptes] at hf
  obtain ⟨w, hw, hundone⟩ := hf.undone hb ht
  have hend : wrapEnd c flags p (false, u) = some (0, w) := by
    unfold wrapEnd
    rw [if_neg Bool.false_ne_true, hw]
    rfl
  rw [hx, Option.bind_some, hend]
  exact .inl ⟨hgood, (0, w), rfl, fun _ => hundone⟩

theorem wrapDevMem_ends (hf : Fresh s heap c) (hh : HasArea t u c (c.uFlags heap) q m)
    (ht : t = { s with bufs := t.bufs }) (hb : Added s.bufs.blocks t.bufs.blocks p) (h0 : p ≠ 0)
    (harea : c.area ≠ none) (hlost : ¬Lost c (c.uFlags heap)) :
    Ends s (Behaves c (c.uFlags heap))
      ((wrapDevMem u c (c.uFlags heap) p q m).bind (wrapEnd c (c.uFlags heap) p)) := by
  have hdevice : t.device = s.device := by rw [ht]
  have hptes : t.ptes = s.ptes := by rw [ht]
  cases hv : c.devVAddr with
  | none =>
    obtain ⟨w, hw, hfailed⟩ := wrapDevMem_none (p := p) hh hv
    have hgood : Behaves c (c.uFlags heap) :=
      ⟨hlost, fun h => absurd hv h.range, fun h => absurd hv h.range⟩
    exact ends_of_failed hgood hw hfailed ht hb
  | some v =>
    have hplaced : Placed c (c.uFlags heap) := by
      refine ⟨hh.known, harea, ?_⟩
      rw [hv]
      exact Option.some_ne_none v
    have hoffers : t.Offers v (c.devSize (c.uFlags heap)) := by
      obtain ⟨haligned, hfits, hfree, hapart⟩ := hf.range v hv
      rw [← hdevice] at hfree hapart
      exact ⟨haligned, hfits, hfree, hapart⟩
    have htranslated : t.Translated := by
      have hs := hf.translated
      unfold Store.Translated at hs ⊢
      rw [hptes, hdevice]
      exact hs
    obtain ⟨w, hw, hheld⟩ := wrapDevMem_some (p := p) hh hv hoffers htranslated
    have hfresh : SubFresh t c (placed m (c.uFlags heap) v).hOSMemHandle := by
      intro a ha
      obtain ⟨ha0, hunused, hne⟩ := hf.sub a ha
      have hareas : t.areas = s.areas := by rw [ht]
      rw [placed_hOSMemHandle, hareas]
      refine ⟨ha0, hunused, fun heq => hne ?_⟩
      rw [hh.handle, heq]
    rw [hw]
    by_cases hfin : Finishes c (c.uFlags heap)
    · obtain ⟨x, b, hx, hwrapped⟩ := wrapSub_ok hheld hfresh hb.live hfin
      have hends := wrapInsert_ends hwrapped ht hb h0 hh.known
      have hiff : Behaves c (c.uFlags heap) ↔ (c.origin.hashed = true → c.inserted = false →
          Freeing (c.uFlags heap)) :=
        ⟨fun h => h.entered hplaced, fun h => ⟨hlost, fun _ => hfin, fun _ => h⟩⟩
      rw [hx, Option.bind_some, propext hiff]
      exact hends
    · obtain ⟨x, hx, hbufs, hkept⟩ := wrapSub_fails (p := p) hheld hfresh hfin
      rw [hdevice] at hkept
      obtain ⟨y, hy, hlast⟩ := freeBuf_kept hb hbufs hkept
      have hend : wrapEnd c (c.uFlags heap) p (false, x) = some (0, y) := by
        unfold wrapEnd
        rw [if_neg Bool.false_ne_true, hy]
        rfl
      rw [hx, Option.bind_some, hend]
      refine .inr ⟨fun h => hfin (h.finishes hplaced), ?_⟩
      intro r hr
      rw [← Option.some.inj hr]
      exact ⟨rfl, hlast⟩

theorem wrapNew_ends (hf : Fresh s heap c) (hp : c.buf = some p) (hq : c.mapping = some q) :
    Ends s (Behaves c (c.uFlags heap)) (wrapNew s c (c.uFlags heap)) := by
  obtain ⟨h0, hunused⟩ := hf.buf p hp
  obtain ⟨hq0, hqfree⟩ := hf.mapping q hq
  obtain ⟨t, hcall, ht, hb⟩ := wrapNew_eq (c.uFlags heap) hp h0 hunused
  have hareas : t.areas = s.areas := by rw [ht]
  have hmappings : t.mappings.blocks q = none := by
    rw [ht]
    exact hqfree
  rw [hcall]
  by_cases harea : mapType (c.uFlags heap) = .other ∨ c.area = none
  · by_cases hlost : Lost c (c.uFlags heap)
    · have hnull : t.areas.blocks 0 = none := by
        rw [hareas]
        exact hf.null
      rw [wrapMemory_lost hq hq0 hmappings hnull hlost]
      refine .inr ⟨fun h => h.registered hlost, ?_⟩
      intro r hr
      cases hr
    · obtain ⟨w, hw, hfailed⟩ := wrapMemory_back (p := p) hq hq0 hmappings harea hlost
      have hplaced : ¬Placed c (c.uFlags heap) := fun h => h.area (harea.resolve_left h.known)
      have hgood : Behaves c (c.uFlags heap) :=
        ⟨hlost, fun h => absurd h hplaced, fun h => absurd h hplaced⟩
      exact ends_of_failed hgood hw hfailed ht hb
  · obtain ⟨hknown, hset⟩ := not_or.mp harea
    obtain ⟨a, ha⟩ := Option.ne_none_iff_exists'.mp hset
    obtain ⟨ha0, hfree⟩ := hf.area a ha
    rw [← hareas] at hfree
    obtain ⟨u, hu, hh⟩ := wrapMemory_area (p := p) hq hq0 hmappings hknown ha ha0 hfree
    rw [hu]
    exact wrapDevMem_ends hf hh ht hb h0 hset fun h => hset h.2.1

theorem wrapAgain_some {b : Bool} (hm : matchesWrap s c p = some b) :
    ∃ u, wrapAgain s p = some (p, u) := by
  unfold matchesWrap at hm
  obtain ⟨x, hx, -⟩ := Option.bind_eq_some_iff.mp hm
  obtain ⟨y, hy, -⟩ := Option.map_eq_some_iff.mp hx
  unfold wrapAgain Store.writeBuf
  rw [hx, Option.bind_eq_bind, Option.bind_some, Heap.write_eq hy]
  exact ⟨_, rfl⟩

theorem bmWrap_new (hf : Fresh s heap c) (hnot : ¬(s.retrieve c.hashAddress ≠ 0 ∧
    matchesWrap s c (s.retrieve c.hashAddress) = some true)) :
    bmWrap s heap c = wrapNew s c (c.uFlags heap) := by
  have hagain : (if s.retrieve c.hashAddress = 0 then some false
      else matchesWrap s c (s.retrieve c.hashAddress)) = some false := by
    by_cases h0 : s.retrieve c.hashAddress = 0
    · exact if_pos h0
    · obtain ⟨x, hx⟩ := Option.isSome_iff_exists.mp (hf.known h0)
      have hfalse : x = false := by
        by_contra htrue
        apply hnot
        refine ⟨h0, ?_⟩
        rw [hx, Bool.of_not_eq_false htrue]
      rw [if_neg h0, hx, hfalse]
  unfold bmWrap
  dsimp only
  rw [hagain, Option.bind_eq_bind, Option.bind_some, if_neg Bool.false_ne_true]

theorem bmWrap_ends (hf : Fresh s heap c) : Ends s (Provided s heap c) (bmWrap s heap c) := by
  by_cases hagain : s.retrieve c.hashAddress ≠ 0 ∧
      matchesWrap s c (s.retrieve c.hashAddress) = some true
  · obtain ⟨h0, hmatch⟩ := hagain
    obtain ⟨u, hu⟩ := wrapAgain_some hmatch
    refine .inl ⟨.inl ⟨h0, hmatch⟩, (s.retrieve c.hashAddress, u), ?_, fun h => absurd h h0⟩
    unfold bmWrap
    dsimp only
    rw [if_neg h0, hmatch, Option.bind_eq_bind, Option.bind_some, if_pos rfl]
    exact hu
  · rw [bmWrap_new hf hagain]
    cases hp : c.buf with
    | none =>
      refine .inl ⟨.inr (.inl hp), (0, s), ?_, fun _ => Undone.refl s⟩
      unfold wrapNew
      rw [hp]
      rfl
    | some p =>
      cases hq : c.mapping with
      | none =>
        obtain ⟨h0, hunused⟩ := hf.buf p hp
        obtain ⟨t, hcall, ht, hb⟩ := wrapNew_eq (c.uFlags heap) hp h0 hunused
        have hfailed : Failed t t t.device t.ptes := ⟨rfl, rfl, rfl, rfl, rfl, rfl, rfl⟩
        rw [hcall]
        exact ends_of_failed (.inr (.inr (.inl hq))) (wrapMemory_unmapped hq) hfailed ht hb
      | some q =>
        have hiff : Provided s heap c ↔ Behaves c (c.uFlags heap) := by
          unfold Provided
          rw [hp, hq]
          constructor
          · intro h
            rcases h with h | h | h | h
            · exact absurd h hagain
            · cases h
            · cases h
            · exact h
          · exact fun h => .inr (.inr (.inr h))
        rw [propext hiff]
        exact wrapNew_ends hf hp hq

/-- `BM_Wrap` has a result, and undoes all it has done where that is `IMG_FALSE`, exactly for the
    calls that are provided for. -/
theorem wrap_keeps_iff (hf : Fresh s heap c) :
    (∃ r, bmWrap s heap c = some r ∧ Keeps s r) ↔ Provided s heap c := (bmWrap_ends hf).iff

/-- The answers that the mapping calls know of are all: a buffer, nothing, or an error that leaves
    device addresses. -/
theorem bmWrap_answers (hf : Fresh s heap c) (hr : bmWrap s heap c = some r) :
    r.1 ≠ 0 ∨ Undone s r.2 ∨ r.2.device ≠ s.device := by
  cases bmWrap_ends hf with
  | inl h =>
    obtain ⟨-, x, hx, hk⟩ := h
    obtain rfl : r = x := Option.some.inj (hr.symm.trans hx)
    by_cases h0 : r.1 = 0
    · exact .inr (.inl (hk h0))
    · exact .inl h0
  | inr h => exact .inr (.inr (h.2 r hr).2)

def sampleWrap (sub : Option ℕ) : WrapCall :=
  ⟨3840, 256, true, [1048576], 0, none, some 16, some 32, some 48, 65536, some 65536, sub, true,
    false⟩

theorem sampleWrap_fresh (sub : Option ℕ) (hs : sub = none ∨ sub = some 64) :
    Fresh storeInit sampleHeap (sampleWrap sub) := by
  refine ⟨fun h => absurd rfl h, ?_, ?_, rfl, ?_, ?_, fun q hq => absurd rfl hq, ?_⟩
  · intro p hp
    rw [← Option.some.inj hp]
    exact ⟨by decide, rfl⟩
  · intro p hp
    rw [← Option.some.inj hp]
    exact ⟨by decide, rfl⟩
  · intro p hp
    rw [← Option.some.inj hp]
    exact ⟨by decide, rfl⟩
  · intro p hp
    have hp' : sub = some p := hp
    cases hs with
    | inl h =>
      rw [h] at hp'
      cases hp'
    | inr h =>
      rw [h] at hp'
      have hne : (some 48 : Option ℕ) ≠ some 64 := by decide
      rw [← Option.some.inj hp']
      exact ⟨by decide, rfl, hne⟩
  · intro v hv
    rw [← Option.some.inj hv]
    have hsize : (sampleWrap sub).devSize ((sampleWrap sub).uFlags sampleHeap) = 4096 := by
      show (sampleWrap none).devSize ((sampleWrap none).uFlags sampleHeap) = 4096
      decide +kernel
    refine ⟨rfl, ?_, rfl, ?_⟩
    · rw [hsize]
      decide
    · intro w k hw
      cases hw

theorem wrap_keeps_sample : ∃ r, bmWrap storeInit sampleHeap (sampleWrap (some 64)) = some r ∧
    Keeps storeInit r := by
  refine (wrap_keeps_iff (sampleWrap_fresh (some 64) (.inr rfl))).mpr (.inr (.inr (.inr ?_)))
  refine ⟨fun h => ?_, fun _ => ⟨fun _ => ?_, fun h => ?_⟩, fun _ _ _ => ⟨?_, ?_⟩⟩
  · cases h.2.1
  · exact Option.some_ne_none 64
  · exact absurd h (by decide)
  · decide
  · decide

/-- When the part of the area cannot be made, the device addresses stay. -/
theorem wrap_without_sub : Fresh storeInit sampleHeap (sampleWrap none) ∧
    ∃ r, bmWrap storeInit sampleHeap (sampleWrap none) = some r ∧ r.1 = 0 ∧
      r.2.device 65536 = some 4096 ∧ ¬Keeps storeInit r := by
  refine ⟨sampleWrap_fresh none (.inl rfl), ?_⟩
  have hsome : ((bmWrap storeInit sampleHeap (sampleWrap none)).map fun r =>
      decide (r.1 = 0 ∧ r.2.device 65536 = some 4096)) = some true := by decide +kernel
  obtain ⟨r, hr, hleft⟩ := Option.map_eq_some_iff.mp hsome
  obtain ⟨h0, hdevice⟩ := of_decide_eq_true hleft
  refine ⟨r, hr, h0, hdevice, fun hk => ?_⟩
  rw [(hk h0).device] at hdevice
  cases hdevice

end PvrServices.Wraps
