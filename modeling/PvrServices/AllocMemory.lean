import PvrServices.ImportMemory

set_option autoImplicit false

/-!
# Allocated memory and its errors

`BM_Alloc` with `AllocMemory`, and `RA_Alloc` of the import arena with what it imports. Memory that
is backed comes from the arena; for the rest there are only device addresses. What each step answers
comes with the call.
-/
namespace PvrServices.AllocMemory
open Words BlockHeap BufferStore
open OsAreas hiding makeArea releaseArea
open BufferManager (backingstoreSysmemNoncontig backingstoreLocalmemContig)

/-- A call of `BM_Alloc` with what its steps answer; `flags` is what `pui32Flags` points to and
    `devVAddr` what `psDevVAddr` does. `found` and `again` are the base and the mapping that the
    first and the base that the second `_AttemptAllocAligned` finds, `steps` the answers inside
    `BM_ImportMemory`, `inserted` the one of `_InsertResourceSpan`. `range` is what `MMU_Alloc`
    answers, which leaves `left` when it fails, and `tables` whether it has page tables for an
    address that it is given. `old` is what the memory for a mapping holds. -/
structure AllocCall where
  size : ℕ
  flags : Option ℕ
  alignment : ℕ
  devVAddr : Option ℕ
  buf : Option ℕ
  found : Option (ℕ × ℕ)
  steps : ImportCall
  inserted : Bool
  again : Option ℕ
  sub : Option ℕ
  zeroed : Bool
  range : Option ℕ
  left : ℕ
  tables : Bool
  mapping : Option ℕ
  old : Mapping

def AllocCall.align (c : AllocCall) : ℕ := if c.alignment = 0 then 1 else c.alignment

/-- `uImportSize` of `RA_Alloc`; the quantum of the arena is the size of a page of data. -/
def AllocCall.importSize (c : AllocCall) (heap : BmHeap) : ℕ :=
  let size := if c.align > heap.dataPageSize then u32 (c.size + u32Sub c.align 1) else c.size
  u32 (u32Sub (u32 (size + heap.dataPageSize)) 1 / heap.dataPageSize * heap.dataPageSize)

def AllocCall.imports (c : AllocCall) (heap : BmHeap) (flags : ℕ) : ImportCall :=
  { c.steps with
    size := c.importSize heap
    flags := flags }

def raTake (s : Store) (base size : ℕ) : Option Store :=
  if (s.blocks base).isSome then none
  else some { s with blocks := Function.update s.blocks base (some size) }

def raInsert (s : Store) (heap : BmHeap) (c : AllocCall) (q : ℕ) :
    Option (Option (ℕ × ℕ) × Store) :=
  if c.inserted then
    c.again.elim (some (none, s)) fun base =>
      (raTake s base c.size).map fun s => (some (base, q), s)
  else (bmFreeMemory s heap q).map fun s => (none, s)

def raAlloc (s : Store) (heap : BmHeap) (c : AllocCall) (flags : ℕ) :
    Option (Option (ℕ × ℕ) × Store) :=
  c.found.elim
    (do
      let (q, s) ← bmImportMemory s heap (c.imports heap flags)
      if q = 0 then some (none, s) else raInsert s heap c q)
    fun found => (raTake s found.1 c.size).map fun s => (some found, s)

def allocZero (s : Store) (c : AllocCall) (flags p base q : ℕ) (m : Mapping) (a : ℕ) :
    Option (Bool × Store) :=
  if hasFlag flags memZero && !c.zeroed then some (false, s)
  else do
    let offset := u32Sub base m.devVAddr
    let s ← s.writeMapping q { m with arena := true }
    (s.writeBuf p ⟨BufferManager.cpuVAddrAt m.cpuVAddr offset, a, u32 (m.cpuPAddr + offset), base,
      q, 0⟩).map fun s => (true, s)

def allocBacked (s : Store) (c : AllocCall) (flags p base q : ℕ) : Option (Bool × Store) := do
  let m ← s.mappingAt q
  if c.size = m.size then allocZero s c flags p base q m m.hOSMemHandle
  else do
    let (a, s) ← makeSub s m.hOSMemHandle (u32Sub base m.devVAddr) c.size c.sub
    if a = 0 then some (false, s) else allocZero s c flags p base q m a

def allocRam (s : Store) (heap : BmHeap) (c : AllocCall) (flags p : ℕ) : Option (Bool × Store) := do
  let (r, s) ← raAlloc s heap c flags
  r.elim (some (false, s)) fun r => allocBacked s c flags p r.1 r.2

def allocPlain (s : Store) (c : AllocCall) (p v : ℕ) : Option (Bool × Store) := do
  let (q, s) ← s.allocMapping { c.old with
    arena := false
    cpuVAddr := 0
    cpuPAddr := 0
    devVAddr := v
    psSysAddr := []
    size := c.size
    hOSMemHandle := 0 } c.mapping
  if q = 0 then some (false, s)
  else (s.writeBuf p ⟨0, 0, 0, v, q, 0⟩).map fun s => (true, s)

def allocAddresses (s : Store) (c : AllocCall) (flags p : ℕ) : Option (Bool × Store) :=
  if hasFlag flags memUserSuppliedDevvaddr then
    c.devVAddr.elim (some (false, s)) fun v => allocPlain s c p v
  else do
    let (v, s) ← mmuAlloc s c.size c.range
    allocPlain s c p (v.getD c.left)

def allocMemory (s : Store) (heap : BmHeap) (c : AllocCall) (flags p : ℕ) : Option (Bool × Store) :=
  if hasFlag flags memRamBackedAllocation then
    if hasFlag flags memUserSuppliedDevvaddr then some (false, s)
    else if hasFlag heap.attribs (backingstoreSysmemNoncontig ||| backingstoreLocalmemContig) then
      allocRam s heap c flags p
    else some (false, s)
  else allocAddresses s c flags p

def bmAlloc (s : Store) (heap : BmHeap) (c : AllocCall) : Option (ℕ × Store) :=
  c.flags.elim (some (0, s)) fun flags => do
    let (p, s) ← s.allocBuf blankBuf c.buf
    if p = 0 then some (0, s)
    else do
      let (ok, s) ← allocMemory s heap c flags p
      if ok then enterBuf s p else (s.freeBuf p).map fun s => (0, s)

def SubsOf (s t : Store) : Prop :=
  ∀ a b k o, t.areas.blocks a = some b → b.content.kind = .sub k o → s.areas.blocks a = some b

/-- The live segments of the two arenas are as before, and nothing that the call has made is
    left. -/
structure Undone (s t : Store) : Prop where
  blocks : t.blocks = s.blocks
  device : t.device = s.device
  mappings : t.mappings.blocks = s.mappings.blocks
  bufs : t.bufs.blocks = s.bufs.blocks
  subs : SubsOf s t
  refCount : t.refCount = s.refCount

/-- The device address of the buffer has been allocated: in the import arena, or in the arena of
    device addresses; or it is the caller's and has its page tables. -/
def Allocated (s t : Store) (c : AllocCall) (flags : ℕ) (b : Buf) : Prop :=
  if hasFlag flags memRamBackedAllocation then
    s.blocks b.devVAddr = none ∧ t.blocks b.devVAddr = some c.size
  else if hasFlag flags memUserSuppliedDevvaddr then c.tables = true
  else s.device b.devVAddr = none ∧ t.device b.devVAddr = some c.size

def Keeps (s : Store) (c : AllocCall) (r : ℕ × Store) : Prop :=
  if r.1 = 0 then Undone s r.2
  else ∃ flags b, c.flags = some flags ∧ r.2.bufAt r.1 = some b ∧ Allocated s r.2 c flags b

structure Stranded (heap : BmHeap) (c : AllocCall) (flags : ℕ) : Prop where
  found : c.found = none
  made : Made heap (c.imports heap flags)
  inserted : c.inserted = true
  again : c.again = none

def Taken (heap : BmHeap) (c : AllocCall) (flags : ℕ) : Prop :=
  c.found ≠ none ∨
    (Made heap (c.imports heap flags) ∧ c.inserted = true ∧ c.again ≠ none)

def spanSize (s : Store) (heap : BmHeap) (c : AllocCall) (flags : ℕ) : ℕ :=
  c.found.elim (devSize (newMapping (c.imports heap flags)) flags).size fun found =>
    (s.mappingAt found.2).elim 0 Mapping.size

/-- No step fails behind `RA_Alloc`, which leaves nothing itself. -/
structure RamBehaves (s : Store) (heap : BmHeap) (c : AllocCall) (flags : ℕ) : Prop where
  kept : ¬Stranded heap c flags
  sub : Taken heap c flags → c.size ≠ spanSize s heap c flags → c.sub ≠ none
  zeroed : Taken heap c flags → hasFlag flags memZero = true → c.zeroed = true

/-- The memory is refused, or nothing goes wrong behind the allocation of its addresses; the two
    steps of an allocation without memory go through together. -/
def Behaves (s : Store) (heap : BmHeap) (c : AllocCall) (flags : ℕ) : Prop :=
  if hasFlag flags memRamBackedAllocation then
    hasFlag flags memUserSuppliedDevvaddr = false →
      hasFlag heap.attribs (backingstoreSysmemNoncontig ||| backingstoreLocalmemContig) = true →
        RamBehaves s heap c flags
  else if hasFlag flags memUserSuppliedDevvaddr then
    c.devVAddr ≠ none → c.mapping ≠ none → c.tables = true
  else c.range = none ↔ c.mapping = none

def Provided (s : Store) (heap : BmHeap) (c : AllocCall) : Prop :=
  ∀ flags, c.flags = some flags → c.buf ≠ none → Behaves s heap c flags

variable {s t u v : Store} {heap : BmHeap} {c : AllocCall} {ic : ImportCall}
  {flags p q a n k base : ℕ} {m : Mapping} {r : ℕ × Store} {kind : AreaKind} {g : Option ℕ}

/-- An import has nothing to do with buffers, segments, parts of areas and the context. -/
structure Frame (s t : Store) : Prop where
  bufs : t.bufs = s.bufs
  blocks : t.blocks = s.blocks
  refCount : t.refCount = s.refCount
  subs : SubsOf s t

theorem Frame.refl (s : Store) : Frame s s := ⟨rfl, rfl, rfl, fun _ _ _ _ h _ => h⟩

theorem Frame.trans (h : Frame s t) (h' : Frame t u) : Frame s u := by
  refine ⟨h'.bufs.trans h.bufs, h'.blocks.trans h.blocks, h'.refCount.trans h.refCount, ?_⟩
  intro a b k o ha hk
  exact h.subs a b k o (h'.subs a b k o ha hk) hk

theorem frame_of_areas (hbufs : t.bufs = s.bufs) (hblocks : t.blocks = s.blocks)
    (hcount : t.refCount = s.refCount) (hareas : t.areas = s.areas) : Frame s t := by
  refine ⟨hbufs, hblocks, hcount, ?_⟩
  intro a b k o ha _
  rw [← hareas]
  exact ha

theorem frame_freeMapping (hf : s.freeMapping p = some t) : Frame s t := by
  have hrest := (Store.freeMapping_spec hf).1
  rw [hrest]
  exact frame_of_areas rfl rfl rfl rfl

theorem frame_writeMapping (hw : s.writeMapping p m = some t) : Frame s t := by
  have hrest := (Store.writeMapping_spec hw).1
  rw [hrest]
  exact frame_of_areas rfl rfl rfl rfl

theorem frame_allocMapping (ha : s.allocMapping m g = some (p, t)) : Frame s t := by
  have hrest := (Store.allocMapping_spec ha).1
  rw [hrest]
  exact frame_of_areas rfl rfl rfl rfl

theorem frame_makeArea (ha : makeArea s flags n kind g = some (a, t))
    (hkind : ∀ k o, kind ≠ .sub k o) : Frame s t := by
  obtain ⟨hrest, hcases⟩ := makeArea_spec ha
  cases hcases with
  | inl hnone =>
    rw [hnone.2.1]
    exact Frame.refl s
  | inr hnew =>
    obtain ⟨-, -, hnew⟩ := hnew
    refine ⟨by rw [hrest], by rw [hrest], by rw [hrest], ?_⟩
    intro i b k o hi hk
    by_cases hia : i = a
    · rw [hia, hnew.new] at hi
      rw [← Option.some.inj hi] at hk
      exact absurd hk (hkind k o)
    · rw [← hnew.others i hia]
      exact hi

theorem frame_freeArea (hf : s.freeArea a n = some t) : Frame s t := by
  obtain ⟨hrest, hfrees⟩ := Store.freeArea_spec hf
  refine ⟨by rw [hrest], by rw [hrest], by rw [hrest], ?_⟩
  intro i b k o hi _
  by_cases hia : i = a
  · rw [hia, hfrees.gone] at hi
    cases hi
  · rw [← hfrees.others i hia]
    exact hi

theorem frame_releaseArea (hr : releaseArea s flags a n = some t) : Frame s t := by
  unfold releaseArea at hr
  split at hr
  · rw [← Option.some.inj hr]
    exact Frame.refl s
  · obtain ⟨b, -, hr⟩ := Option.bind_eq_some_iff.mp hr
    split at hr
    · rw [← Option.some.inj hr]
      exact Frame.refl s
    · exact frame_freeArea hr

structure Side (s t : Store) : Prop where
  frame : Frame s t
  mappings : t.mappings = s.mappings
  device : t.device = s.device

theorem Side.trans (h : Side s t) (h' : Side t u) : Side s u :=
  ⟨h.frame.trans h'.frame, h'.mappings.trans h.mappings, h'.device.trans h.device⟩

theorem side_makeArea (ha : makeArea s flags n kind g = some (a, t))
    (hkind : ∀ k o, kind ≠ .sub k o) : Side s t := by
  have hrest := (makeArea_spec ha).1
  exact ⟨frame_makeArea ha hkind, by rw [hrest], by rw [hrest]⟩

theorem side_releaseArea (hr : releaseArea s flags a n = some t) : Side s t := by
  refine ⟨frame_releaseArea hr, ?_, ?_⟩
  · unfold releaseArea at hr
    split at hr
    · rw [← Option.some.inj hr]
    · obtain ⟨b, -, hr⟩ := Option.bind_eq_some_iff.mp hr
      split at hr
      · rw [← Option.some.inj hr]
      · rw [(Store.freeArea_spec hr).1]
  · unfold releaseArea at hr
    split at hr
    · rw [← Option.some.inj hr]
    · obtain ⟨b, -, hr⟩ := Option.bind_eq_some_iff.mp hr
      split at hr
      · rw [← Option.some.inj hr]
      · rw [(Store.freeArea_spec hr).1]

theorem side_localAlloc (hl : localAlloc s a n = some t) : Side s t := by
  unfold localAlloc at hl
  split at hl
  · cases hl
  · rw [← Option.some.inj hl]
    exact ⟨frame_of_areas rfl rfl rfl rfl, rfl, rfl⟩

theorem side_localFree : Side s (localFree s a) := ⟨frame_of_areas rfl rfl rfl rfl, rfl, rfl⟩

theorem side_undoMemory (hu : undoMemory s heap m = some t) : Side s t := by
  unfold undoMemory at hu
  split at hu
  · exact side_releaseArea hu
  · obtain ⟨w, hw, heq⟩ := Option.map_eq_some_iff.mp hu
    rw [← heq]
    refine Side.trans ?_ side_localFree
    split at hw
    · exact side_releaseArea hw
    · rw [← Option.some.inj hw]
      exact ⟨Frame.refl s, rfl, rfl⟩

theorem side_freeBacking (hf : freeBacking s heap m = some t) : Side s t := by
  unfold freeBacking at hf
  split at hf
  · exact side_releaseArea hf
  · split at hf
    · obtain ⟨w, hw, heq⟩ := Option.map_eq_some_iff.mp hf
      rw [← heq]
      exact (side_releaseArea hw).trans side_localFree
    · rw [← Option.some.inj hf]
      exact ⟨Frame.refl s, rfl, rfl⟩

theorem side_devMap (hd : devMap s m flags = some t) : Side s t := by
  have hside (e : ℕ → Option Target) : Side s { s with ptes := e } :=
    ⟨frame_of_areas rfl rfl rfl rfl, rfl, rfl⟩
  unfold devMap at hd
  cases horigin : m.origin with
  | env =>
    rw [horigin] at hd
    obtain ⟨b, -, heq⟩ := Option.map_eq_some_iff.mp hd
    rw [← heq]
    exact hside _
  | wrapped =>
    rw [horigin] at hd
    rw [← Option.some.inj hd]
    exact hside _
  | wrappedVirtaddr =>
    rw [horigin] at hd
    rw [← Option.some.inj hd]
    exact hside _
  | contiguous =>
    rw [horigin] at hd
    rw [← Option.some.inj hd]
    exact hside _
  | wrappedScatter =>
    rw [horigin] at hd
    rw [← Option.some.inj hd]
    exact hside _
  | wrappedScatterVirtaddr =>
    rw [horigin] at hd
    rw [← Option.some.inj hd]
    exact hside _

structure Begun (s t : Store) (p : ℕ) : Prop where
  pos : p ≠ 0
  frame : Frame s t
  mappings : Added s.mappings.blocks t.mappings.blocks p
  device : t.device = s.device

theorem Begun.side (hb : Begun s t p) (hs : Side t u) : Begun s u p := by
  refine ⟨hb.pos, hb.frame.trans hs.frame, ?_, hs.device.trans hb.device⟩
  rw [hs.mappings]
  exact hb.mappings

/-- What an import makes: nothing, or a mapping with device addresses. -/
inductive Grows (s : Store) (r : ℕ × Store) : Prop where
  | failed (zero : r.1 = 0) (frame : Frame s r.2)
      (mappings : r.2.mappings.blocks = s.mappings.blocks) (device : r.2.device = s.device)
  | made {m : Mapping} (pos : r.1 ≠ 0) (frame : Frame s r.2) (mapping : r.2.mappingAt r.1 = some m)
      (mappings : Added s.mappings.blocks r.2.mappings.blocks r.1)
      (device : Added s.device r.2.device m.devVAddr)

theorem Begun.failMapping (hb : Begun s t p) (hf : failMappingAlloc t p = some r) : Grows s r := by
  obtain ⟨u, hu, heq⟩ := Option.map_eq_some_iff.mp hf
  have hframe := hb.frame.trans (frame_freeMapping hu)
  obtain ⟨hrest, hfrees⟩ := Store.freeMapping_spec hu
  rw [← heq]
  refine .failed rfl hframe ?_ ?_
  · funext i
    by_cases hi : i = p
    · rw [hi, hb.mappings.fresh]
      exact hfrees.gone
    · exact (hfrees.others i hi).trans (hb.mappings.others i hi)
  · rw [hrest]
    exact hb.device

theorem Begun.failDevMem (hb : Begun s t p) (hf : failDevMemAlloc t heap p m = some r) :
    Grows s r := by
  unfold failDevMemAlloc at hf
  split at hf
  · exact hb.failMapping hf
  · obtain ⟨u, hu, hf⟩ := Option.bind_eq_some_iff.mp hf
    exact (hb.side (side_undoMemory hu)).failMapping hf

theorem Begun.devMem (hb : Begun s t p) (hi : importDevMem t heap ic p m = some r) : Grows s r := by
  unfold importDevMem at hi
  obtain ⟨⟨x, u⟩, hu, hi⟩ := Option.bind_eq_some_iff.mp hi
  cases devMemoryAlloc_spec hu with
  | inl hnone =>
    obtain ⟨-, hx, hsame⟩ := hnone
    rw [hx, hsame] at hi
    dsimp only at hi
    rw [if_neg Bool.false_ne_true] at hi
    exact hb.failDevMem hi
  | inr hsome =>
    obtain ⟨w, -, hfree, -, -, hx, hmap⟩ := hsome
    have hside := side_devMap hmap
    rw [hx] at hi
    dsimp only at hi
    rw [if_pos rfl] at hi
    obtain ⟨v, hv, heq⟩ := Option.map_eq_some_iff.mp hi
    obtain ⟨hrest, hwritten, hothers⟩ := Store.writeMapping_spec hv
    obtain ⟨b, -, hb'⟩ := hwritten
    have hmappings : u.mappings = t.mappings := hside.mappings
    have hstart : Frame t { t with
        device := Function.update t.device w (some (devSize m ic.flags).size) } :=
      frame_of_areas rfl rfl rfl rfl
    rw [← heq]
    refine .made hb.pos (hb.frame.trans (hstart.trans (hside.frame.trans (frame_writeMapping hv))))
      (Store.mappingAt_eq_some.mpr ⟨_, hb'⟩) ⟨hb.mappings.fresh, ?_, ?_⟩ ?_
    · rw [hb']
      exact Option.some_ne_none _
    · intro i hi
      rw [hothers i hi, hmappings]
      exact hb.mappings.others i hi
    · have hdevice : v.device = Function.update s.device w (some (devSize m ic.flags).size) := by
        rw [hrest, ← hb.device]
        exact hside.device
      rw [← hb.device] at hdevice ⊢
      dsimp only
      rw [hdevice]
      exact added_update hfree _

theorem import_grows (hi : bmImportMemory s heap ic = some r) : Grows s r := by
  unfold bmImportMemory at hi
  obtain ⟨⟨p, t⟩, ht, hi⟩ := Option.bind_eq_some_iff.mp hi
  obtain ⟨hrest, hcases⟩ := Store.allocMapping_spec ht
  have hframe := frame_allocMapping ht
  dsimp only at hi
  cases hcases with
  | inl hnone =>
    obtain ⟨-, h0, hsame⟩ := hnone
    rw [if_pos h0, hsame] at hi
    rw [← Option.some.inj hi]
    exact .failed rfl (Frame.refl s) rfl rfl
  | inr hnew =>
    obtain ⟨-, hnew⟩ := hnew
    have hb : Begun s t p := ⟨hnew.pos, hframe, hnew.added, by rw [hrest]⟩
    rw [if_neg hnew.pos] at hi
    split at hi
    · unfold importPages at hi
      obtain ⟨⟨a, u⟩, hu, hi⟩ := Option.bind_eq_some_iff.mp hi
      have hb' := hb.side (side_makeArea hu fun k o h => by cases h)
      dsimp only at hi
      split at hi
      · exact hb'.failMapping hi
      · exact hb'.devMem hi
    · split at hi
      · cases haddr : ic.localAddr with
        | none =>
          rw [haddr] at hi
          exact hb.failMapping hi
        | some addr =>
          rw [haddr] at hi
          unfold importLocal at hi
          obtain ⟨w, hw, hi⟩ := Option.bind_eq_some_iff.mp hi
          obtain ⟨⟨a, u⟩, hu, hi⟩ := Option.bind_eq_some_iff.mp hi
          have hb' := (hb.side (side_localAlloc hw)).side (side_makeArea hu fun k o h => by cases h)
          dsimp only at hi
          split at hi
          · exact hb'.failDevMem hi
          · exact hb'.devMem hi
      · exact hb.failMapping hi

structure Back (s t : Store) : Prop where
  frame : Frame s t
  mappings : t.mappings.blocks = s.mappings.blocks
  device : t.device = s.device

theorem Back.undone (hb : Back s t) : Undone s t :=
  ⟨hb.frame.blocks, hb.device, hb.mappings, congrArg Heap.blocks hb.frame.bufs, hb.frame.subs,
    hb.frame.refCount⟩

theorem bmFreeMemory_back (hframe : Frame s t) (hm : t.mappingAt q = some m)
    (hmappings : Added s.mappings.blocks t.mappings.blocks q)
    (hdevice : Added s.device t.device m.devVAddr) (hf : bmFreeMemory t heap q = some u) :
    Back s u := by
  unfold bmFreeMemory at hf
  rw [hm, Option.bind_eq_bind, Option.bind_some] at hf
  obtain ⟨w, hw, hf⟩ := Option.bind_eq_some_iff.mp hf
  obtain ⟨n, hn⟩ := Option.ne_none_iff_exists'.mp hdevice.live
  have hfreed : devMemoryFree t m = { t with
      device := s.device
      ptes := unmapLoop (pageCount n) m.devVAddr t.ptes } := by
    unfold devMemoryFree mmuFree
    rw [hn, Option.elim_some, hdevice.taken]
  have hside := side_freeBacking hw
  obtain ⟨hrest, hfrees⟩ := Store.freeMapping_spec hf
  have hstart : Frame t (devMemoryFree t m) := by
    rw [hfreed]
    exact frame_of_areas rfl rfl rfl rfl
  have hheld : w.mappings = t.mappings := by
    rw [hside.mappings, hfreed]
  refine ⟨hframe.trans (hstart.trans (hside.frame.trans (frame_freeMapping hf))), ?_, ?_⟩
  · rw [hheld] at hfrees
    funext i
    by_cases hi : i = q
    · rw [hi, hmappings.fresh]
      exact hfrees.gone
    · exact (hfrees.others i hi).trans (hmappings.others i hi)
  · have hsame : w.device = s.device := by rw [hside.device, hfreed]
    rw [hrest]
    exact hsame

theorem raTake_spec (ht : raTake s base n = some t) :
    s.blocks base = none ∧ t = { s with blocks := Function.update s.blocks base (some n) } := by
  unfold raTake at ht
  split at ht
  · cases ht
  · rename_i hfree
    exact ⟨by simpa using hfree, (Option.some.inj ht).symm⟩

inductive RaEnds (s : Store) (heap : BmHeap) (c : AllocCall) (flags : ℕ) (t : Store) :
    Option (ℕ × ℕ) → Prop where
  | failed (back : Back s t) (kept : ¬Stranded heap c flags) (how : ¬Taken heap c flags) :
      RaEnds s heap c flags t none
  | stranded (left : t.device ≠ s.device) (bufs : t.bufs = s.bufs) (how : Stranded heap c flags) :
      RaEnds s heap c flags t none
  | taken {base q : ℕ} {m : Mapping} (fresh : s.blocks base = none)
      (new : t.blocks base = some c.size) (bufs : t.bufs = s.bufs)
      (mapping : t.mappingAt q = some m) (size : m.size = spanSize s heap c flags)
      (kept : ¬Stranded heap c flags) (how : Taken heap c flags) :
      RaEnds s heap c flags t (some (base, q))

theorem import_made (hi : bmImportMemory s heap ic = some r) (h0 : r.1 ≠ 0)
    (hm : r.2.mappingAt r.1 = some m) :
    Made heap ic ∧ m.size = (devSize (newMapping ic) ic.flags).size := by
  cases import_ends hi with
  | failed back how found => exact absurd rfl h0
  | lost left how => exact absurd rfl h0
  | made imported how =>
    refine ⟨how, ?_⟩
    rw [Option.some.inj (hm.symm.trans imported.mapping)]
    exact imported.size

theorem import_not_made (hi : bmImportMemory s heap ic = some r) (h0 : r.1 = 0) :
    ¬Made heap ic := by
  intro hmade
  cases import_ends hi with
  | failed back how found => exact how hmade
  | lost left how => exact hmade.not_lost how
  | made imported how => exact imported.pos h0

theorem raInsert_ends {x : Option (ℕ × ℕ)} (hfound : c.found = none)
    (hi : bmImportMemory s heap (c.imports heap flags) = some r) (h0 : r.1 ≠ 0)
    (hr : raInsert r.2 heap c r.1 = some (x, u)) : RaEnds s heap c flags u x := by
  cases import_grows hi with
  | failed zero => exact absurd zero h0
  | @made m pos frame mapping mappings device =>
    obtain ⟨hmade, hsize⟩ := import_made hi h0 mapping
    unfold raInsert at hr
    by_cases hinserted : c.inserted = true
    · rw [if_pos hinserted] at hr
      cases hagain : c.again with
      | none =>
        rw [hagain] at hr
        obtain ⟨hx, hu⟩ := Prod.mk.inj (Option.some.inj hr)
        rw [← hx, ← hu]
        exact .stranded device.ne frame.bufs ⟨hfound, hmade, hinserted, hagain⟩
      | some base =>
        rw [hagain] at hr
        obtain ⟨w, hw, heq⟩ := Option.map_eq_some_iff.mp hr
        obtain ⟨hx, hu⟩ := Prod.mk.inj heq
        obtain ⟨hfree, hrest⟩ := raTake_spec hw
        have hsome : c.again ≠ none := by
          rw [hagain]
          exact Option.some_ne_none base
        rw [← hx, ← hu]
        refine .taken ?_ ?_ ?_ (m := m) ?_ ?_ (fun h => hsome h.again)
          (.inr ⟨hmade, hinserted, hsome⟩)
        · rw [← frame.blocks]
          exact hfree
        · rw [hrest]
          exact Function.update_self _ _ _
        · rw [hrest]
          exact frame.bufs
        · rw [hrest]
          exact mapping
        · unfold spanSize
          rw [hfound]
          exact hsize
    · rw [if_neg hinserted] at hr
      obtain ⟨w, hw, heq⟩ := Option.map_eq_some_iff.mp hr
      obtain ⟨hx, hu⟩ := Prod.mk.inj heq
      rw [← hx, ← hu]
      refine .failed (bmFreeMemory_back frame mapping mappings device hw)
        (fun h => hinserted h.inserted) fun h => ?_
      cases h with
      | inl h => exact h hfound
      | inr h => exact hinserted h.2.1

theorem raAlloc_ends {x : Option (ℕ × ℕ)} (hr : raAlloc s heap c flags = some (x, u))
    (hlive : ∀ f, c.found = some f → s.mappingAt f.2 ≠ none) : RaEnds s heap c flags u x := by
  unfold raAlloc at hr
  cases hfound : c.found with
  | none =>
    rw [hfound, Option.elim_none] at hr
    obtain ⟨⟨q, t⟩, ht, hr⟩ := Option.bind_eq_some_iff.mp hr
    dsimp only at hr
    by_cases h0 : q = 0
    · rw [if_pos h0] at hr
      obtain ⟨hx, hu⟩ := Prod.mk.inj (Option.some.inj hr)
      have hnot := import_not_made ht h0
      rw [← hx, ← hu]
      cases import_grows ht with
      | failed zero frame mappings device =>
        refine .failed ⟨frame, mappings, device⟩ (fun h => hnot h.made) fun h => ?_
        cases h with
        | inl h => exact h hfound
        | inr h => exact hnot h.1
      | made pos => exact absurd h0 pos
    · rw [if_neg h0] at hr
      exact raInsert_ends hfound ht h0 hr
  | some f =>
    rw [hfound, Option.elim_some] at hr
    obtain ⟨w, hw, heq⟩ := Option.map_eq_some_iff.mp hr
    obtain ⟨hx, hu⟩ := Prod.mk.inj heq
    obtain ⟨hfree, hrest⟩ := raTake_spec hw
    obtain ⟨m, hm⟩ := Option.ne_none_iff_exists'.mp (hlive f hfound)
    have hsome : c.found ≠ none := by
      rw [hfound]
      exact Option.some_ne_none f
    rw [← hx, ← hu]
    refine .taken hfree ?_ ?_ (m := m) ?_ ?_ (fun h => hsome h.found) (.inl hsome)
    · rw [hrest]
      exact Function.update_self _ _ _
    · rw [hrest]
    · rw [hrest]
      exact hm
    · unfold spanSize
      rw [hfound, Option.elim_some, hm]
      rfl

inductive MemEnds (s : Store) (heap : BmHeap) (c : AllocCall) (flags p : ℕ) :
    Bool × Store → Prop where
  | failed {t : Store} (back : Back s t) (how : Behaves s heap c flags) :
      MemEnds s heap c flags p (false, t)
  | kept {t : Store} (left : t.device ≠ s.device ∨ t.blocks ≠ s.blocks) (bufs : t.bufs = s.bufs)
      (how : ¬Behaves s heap c flags) : MemEnds s heap c flags p (false, t)
  | made {t : Store} {b : Buf} {z : ℕ} (buf : t.bufs.blocks p = some ⟨z, b⟩)
      (allocated : Allocated s t c flags b) (how : Behaves s heap c flags) :
      MemEnds s heap c flags p (true, t)
  | unmade {t : Store} {b : Buf} {z : ℕ} (buf : t.bufs.blocks p = some ⟨z, b⟩)
      (missing : ¬Allocated s t c flags b) (how : ¬Behaves s heap c flags) :
      MemEnds s heap c flags p (true, t)

theorem Back.refl (s : Store) : Back s s := ⟨Frame.refl s, rfl, rfl⟩

theorem writeBuf_spec {b : Buf} (hw : s.writeBuf p b = some t) :
    (∃ z, t.bufs.blocks p = some ⟨z, b⟩) ∧ t = { s with bufs := t.bufs } := by
  obtain ⟨h, hh, heq⟩ := Option.map_eq_some_iff.mp hw
  obtain ⟨x, -, hnew, -⟩ := Heap.write_spec hh
  rw [← heq]
  exact ⟨⟨x.size, hnew⟩, rfl⟩

theorem allocZero_ends {r : Bool × Store} (hr : allocZero t c flags p base q m a = some r) :
    (r = (false, t) ∧ hasFlag flags memZero = true ∧ c.zeroed = false) ∨
      (r.1 = true ∧ (hasFlag flags memZero = true → c.zeroed = true) ∧
        r.2.blocks = t.blocks ∧ ∃ z b, r.2.bufs.blocks p = some ⟨z, b⟩ ∧ b.devVAddr = base) := by
  unfold allocZero at hr
  by_cases hcond : (hasFlag flags memZero && !c.zeroed) = true
  · rw [if_pos hcond] at hr
    obtain ⟨hzero, hnot⟩ := Bool.and_eq_true_iff.mp hcond
    exact .inl ⟨(Option.some.inj hr).symm, hzero, by simpa using hnot⟩
  · rw [if_neg hcond] at hr
    obtain ⟨u, hu, hr⟩ := Option.bind_eq_some_iff.mp hr
    obtain ⟨v, hv, heq⟩ := Option.map_eq_some_iff.mp hr
    obtain ⟨⟨z, hz⟩, hrest⟩ := writeBuf_spec hv
    rw [← heq]
    refine .inr ⟨rfl, ?_, ?_, z, _, hz, rfl⟩
    · intro hzero
      by_contra hnot
      apply hcond
      rw [hzero, Bool.eq_false_iff.mpr hnot]
      rfl
    · dsimp only
      rw [hrest]
      dsimp only
      rw [(Store.writeMapping_spec hu).1]

theorem makeSub_spec {b o : ℕ} (ha : makeSub s k o n g = some (b, t)) :
    t = { s with areas := t.areas } ∧ ((g = none ∧ b = 0 ∧ t = s) ∨ (g = some b ∧ b ≠ 0)) := by
  obtain ⟨r, hr, heq⟩ := Option.map_eq_some_iff.mp ha
  obtain ⟨hb, ht⟩ := Prod.mk.inj heq
  rw [← ht, ← hb]
  refine ⟨rfl, ?_⟩
  cases Heap.alloc_spec (show s.areas.alloc _ _ g = some (r.1, r.2) from hr) with
  | inl hnone =>
    refine .inl ⟨hnone.1, hnone.2.1, ?_⟩
    rw [hnone.2.2]
  | inr hnew => exact .inr ⟨hnew.1, hnew.2.pos⟩

section
variable {r : Bool × Store}

theorem allocBacked_ends (hfresh : s.blocks base = none) (hnew : t.blocks base = some c.size)
    (hbufs : t.bufs = s.bufs) (hm : t.mappingAt q = some m)
    (hsize : m.size = spanSize s heap c flags) (hkept : ¬Stranded heap c flags)
    (htaken : Taken heap c flags) (hram : hasFlag flags memRamBackedAllocation = true)
    (huser : hasFlag flags memUserSuppliedDevvaddr = false)
    (hback : hasFlag heap.attribs
      (backingstoreSysmemNoncontig ||| backingstoreLocalmemContig) = true)
    (hr : allocBacked t c flags p base q = some r) : MemEnds s heap c flags p r := by
  have hbehaves : Behaves s heap c flags ↔ RamBehaves s heap c flags := by
    unfold Behaves
    rw [if_pos hram]
    exact ⟨fun h => h huser hback, fun h _ _ => h⟩
  have hleft {w : Store} (hw : w.blocks = t.blocks) : w.blocks ≠ s.blocks := by
    intro heq
    have hat := congrFun heq base
    rw [hw, hnew, hfresh] at hat
    cases hat
  have hzero {w : Store} (a : ℕ) (hw : w.blocks = t.blocks) (hwb : w.bufs = t.bufs)
      (hsub : c.size ≠ spanSize s heap c flags → c.sub ≠ none)
      (hz : allocZero w c flags p base q m a = some r) : MemEnds s heap c flags p r := by
    cases allocZero_ends hz with
    | inl hfails =>
      obtain ⟨heq, hflag, hnot⟩ := hfails
      rw [heq]
      refine .kept (.inr (hleft hw)) (hwb.trans hbufs) fun h => ?_
      have hset := (hbehaves.mp h).zeroed htaken hflag
      rw [hnot] at hset
      cases hset
    | inr hmade =>
      obtain ⟨hok, hset, hblocks, z, b, hb, haddr⟩ := hmade
      obtain ⟨ok, w'⟩ := r
      obtain rfl : ok = true := hok
      refine .made hb ?_ (hbehaves.mpr ⟨hkept, fun _ => hsub, fun _ => hset⟩)
      unfold Allocated
      rw [if_pos hram, haddr]
      refine ⟨hfresh, ?_⟩
      rw [hblocks, hw]
      exact hnew
  unfold allocBacked at hr
  rw [hm, Option.bind_eq_bind, Option.bind_some] at hr
  by_cases hwhole : c.size = m.size
  · rw [if_pos hwhole] at hr
    exact hzero _ rfl rfl (fun hne => absurd (hwhole.trans hsize) hne) hr
  · rw [if_neg hwhole] at hr
    obtain ⟨⟨b, w⟩, hw, hr⟩ := Option.bind_eq_some_iff.mp hr
    obtain ⟨hrest, hcases⟩ := makeSub_spec hw
    dsimp only at hr
    cases hcases with
    | inl hnone =>
      obtain ⟨hsub, h0, hsame⟩ := hnone
      rw [if_pos h0, hsame] at hr
      rw [← Option.some.inj hr]
      refine .kept (.inr (hleft rfl)) hbufs fun h => ?_
      refine (hbehaves.mp h).sub htaken ?_ hsub
      rw [← hsize]
      exact hwhole
    | inr hsome =>
      obtain ⟨hsub, h0⟩ := hsome
      rw [if_neg h0] at hr
      refine hzero b ?_ ?_ (fun _ => ?_) hr
      · rw [hrest]
      · rw [hrest]
      · rw [hsub]
        exact Option.some_ne_none b

theorem allocRam_ends (hram : hasFlag flags memRamBackedAllocation = true)
    (huser : hasFlag flags memUserSuppliedDevvaddr = false)
    (hback : hasFlag heap.attribs
      (backingstoreSysmemNoncontig ||| backingstoreLocalmemContig) = true)
    (hr : allocRam s heap c flags p = some r) : MemEnds s heap c flags p r := by
  have hbehaves : Behaves s heap c flags ↔ RamBehaves s heap c flags := by
    unfold Behaves
    rw [if_pos hram]
    exact ⟨fun h => h huser hback, fun h _ _ => h⟩
  unfold allocRam at hr
  obtain ⟨⟨x, t⟩, ht, hr⟩ := Option.bind_eq_some_iff.mp hr
  have hlive : ∀ f, c.found = some f → s.mappingAt f.2 ≠ none := by
    intro f hf
    have hra := ht
    unfold raAlloc at hra
    rw [hf, Option.elim_some] at hra
    obtain ⟨w, hw, heq⟩ := Option.map_eq_some_iff.mp hra
    obtain ⟨hx, hwt⟩ := Prod.mk.inj heq
    rw [← hx, ← hwt] at hr
    dsimp only at hr
    rw [Option.elim_some] at hr
    unfold allocBacked at hr
    obtain ⟨m, hm, -⟩ := Option.bind_eq_some_iff.mp hr
    have hsame : w.mappingAt f.2 = s.mappingAt f.2 := by rw [(raTake_spec hw).2]; rfl
    rw [← hsame, hm]
    exact Option.some_ne_none m
  cases raAlloc_ends ht hlive with
  | failed back kept how =>
    rw [← Option.some.inj hr]
    exact .failed back (hbehaves.mpr ⟨kept, fun h => absurd h how, fun h => absurd h how⟩)
  | stranded left bufs how =>
    rw [← Option.some.inj hr]
    exact .kept (.inl left) bufs fun h => (hbehaves.mp h).kept how
  | taken fresh new bufs mapping size kept how =>
    exact allocBacked_ends fresh new bufs mapping size kept how hram huser hback hr

theorem allocPlain_ends {x : ℕ} (hr : allocPlain t c p x = some r) :
    (r.1 = false ∧ c.mapping = none ∧ r.2 = t) ∨ (r.1 = true ∧ c.mapping ≠ none ∧
      r.2.device = t.device ∧ ∃ z b, r.2.bufs.blocks p = some ⟨z, b⟩ ∧ b.devVAddr = x) := by
  unfold allocPlain at hr
  obtain ⟨⟨q, u⟩, hu, hr⟩ := Option.bind_eq_some_iff.mp hr
  obtain ⟨hrest, hcases⟩ := Store.allocMapping_spec hu
  dsimp only at hr
  cases hcases with
  | inl hnone =>
    obtain ⟨hgrant, h0, hsame⟩ := hnone
    rw [if_pos h0, hsame] at hr
    rw [← Option.some.inj hr]
    exact .inl ⟨rfl, hgrant, rfl⟩
  | inr hnew =>
    obtain ⟨hgrant, hnew⟩ := hnew
    rw [if_neg hnew.pos] at hr
    obtain ⟨w, hw, heq⟩ := Option.map_eq_some_iff.mp hr
    obtain ⟨⟨z, hz⟩, hlast⟩ := writeBuf_spec hw
    rw [← heq]
    refine .inr ⟨rfl, ?_, ?_, z, _, hz, rfl⟩
    · rw [hgrant]
      exact Option.some_ne_none q
    · dsimp only
      rw [hlast]
      dsimp only
      rw [hrest]

theorem allocAddresses_ends (hram : hasFlag flags memRamBackedAllocation = false)
    (hr : allocAddresses s c flags p = some r) : MemEnds s heap c flags p r := by
  obtain ⟨ok, w⟩ := r
  unfold allocAddresses at hr
  by_cases huser : hasFlag flags memUserSuppliedDevvaddr = true
  · have hbehaves : Behaves s heap c flags ↔
        (c.devVAddr ≠ none → c.mapping ≠ none → c.tables = true) := by
      unfold Behaves
      rw [if_neg (Bool.eq_false_iff.mp hram), if_pos huser]
    rw [if_pos huser] at hr
    cases hgiven : c.devVAddr with
    | none =>
      rw [hgiven] at hr
      rw [← Option.some.inj hr]
      exact .failed (Back.refl s) (hbehaves.mpr fun h => absurd hgiven h)
    | some x =>
      rw [hgiven, Option.elim_some] at hr
      cases allocPlain_ends hr with
      | inl hnone =>
        obtain ⟨hok, hmapping, hsame⟩ := hnone
        obtain rfl : ok = false := hok
        obtain rfl : w = s := hsame
        exact .failed (Back.refl w) (hbehaves.mpr fun _ h => absurd hmapping h)
      | inr hmade =>
        obtain ⟨hok, hmapping, -, z, b, hb, haddr⟩ := hmade
        obtain rfl : ok = true := hok
        have hallocated : Allocated s w c flags b ↔ c.tables = true := by
          unfold Allocated
          rw [if_neg (Bool.eq_false_iff.mp hram), if_pos huser]
        by_cases htables : c.tables = true
        · exact .made hb (hallocated.mpr htables) (hbehaves.mpr fun _ _ => htables)
        · have hset : c.devVAddr ≠ none := by
            rw [hgiven]
            exact Option.some_ne_none x
          exact .unmade hb (fun h => htables (hallocated.mp h))
            fun h => htables (hbehaves.mp h hset hmapping)
  · have hbehaves : Behaves s heap c flags ↔ (c.range = none ↔ c.mapping = none) := by
      unfold Behaves
      rw [if_neg (Bool.eq_false_iff.mp hram), if_neg huser]
    have hallocated {b : Buf} : Allocated s w c flags b ↔
        (s.device b.devVAddr = none ∧ w.device b.devVAddr = some c.size) := by
      unfold Allocated
      rw [if_neg (Bool.eq_false_iff.mp hram), if_neg huser]
    rw [if_neg huser] at hr
    obtain ⟨⟨x, t⟩, ht, hr⟩ := Option.bind_eq_some_iff.mp hr
    cases mmuAlloc_spec ht with
    | inl hnone =>
      obtain ⟨hrange, -, hsame⟩ := hnone
      cases allocPlain_ends hr with
      | inl hfails =>
        obtain ⟨hok, hmapping, hlast⟩ := hfails
        obtain rfl : ok = false := hok
        obtain rfl : w = s := hlast.trans hsame
        exact .failed (Back.refl w) (hbehaves.mpr ⟨fun _ => hmapping, fun _ => hrange⟩)
      | inr hmade =>
        obtain ⟨hok, hmapping, hdevice, z, b, hb, -⟩ := hmade
        obtain rfl : ok = true := hok
        refine .unmade hb (fun h => ?_) fun h => hmapping ((hbehaves.mp h).mp hrange)
        obtain ⟨hfree, hlive⟩ := hallocated.mp h
        have hkept : w.device = s.device := by
          rw [← hsame]
          exact hdevice
        rw [hkept, hfree] at hlive
        cases hlive
    | inr hsome =>
      obtain ⟨v, hrange, hx, hfree, -, htaken⟩ := hsome
      have hset : c.range ≠ none := by
        rw [hrange]
        exact Option.some_ne_none v
      cases allocPlain_ends hr with
      | inl hfails =>
        obtain ⟨hok, hmapping, hlast⟩ := hfails
        obtain rfl : ok = false := hok
        refine .kept (.inl ?_) ?_ fun h => hset ((hbehaves.mp h).mpr hmapping)
        · rw [show w = t from hlast, htaken]
          exact (added_update hfree _).ne
        · rw [show w = t from hlast, htaken]
      | inr hmade =>
        obtain ⟨hok, hmapping, hdevice, z, b, hb, haddr⟩ := hmade
        obtain rfl : ok = true := hok
        have hat : b.devVAddr = v := by
          rw [haddr, hx]
          rfl
        refine .made hb (hallocated.mpr ?_)
          (hbehaves.mpr ⟨fun h => absurd h hset, fun h => absurd h hmapping⟩)
        rw [hat]
        refine ⟨hfree, ?_⟩
        have hlive : w.device = t.device := hdevice
        rw [hlive, htaken]
        exact Function.update_self _ _ _

theorem allocMemory_ends (hr : allocMemory s heap c flags p = some r) :
    MemEnds s heap c flags p r := by
  unfold allocMemory at hr
  by_cases hram : hasFlag flags memRamBackedAllocation = true
  · have hrefused (hnot : ¬(hasFlag flags memUserSuppliedDevvaddr = false ∧ hasFlag heap.attribs
        (backingstoreSysmemNoncontig ||| backingstoreLocalmemContig) = true)) :
        Behaves s heap c flags := by
      unfold Behaves
      rw [if_pos hram]
      intro huser hback
      exact absurd ⟨huser, hback⟩ hnot
    rw [if_pos hram] at hr
    by_cases huser : hasFlag flags memUserSuppliedDevvaddr = true
    · rw [if_pos huser] at hr
      rw [← Option.some.inj hr]
      refine .failed (Back.refl s) (hrefused fun h => ?_)
      rw [huser] at h
      cases h.1
    · rw [if_neg huser] at hr
      by_cases hback : hasFlag heap.attribs
          (backingstoreSysmemNoncontig ||| backingstoreLocalmemContig) = true
      · rw [if_pos hback] at hr
        exact allocRam_ends hram (Bool.eq_false_iff.mpr huser) hback hr
      · rw [if_neg hback] at hr
        rw [← Option.some.inj hr]
        exact .failed (Back.refl s) (hrefused fun h => hback h.2)
  · rw [if_neg hram] at hr
    exact allocAddresses_ends (Bool.eq_false_iff.mpr hram) hr

end

theorem behaves_congr (h : t.mappings = s.mappings) :
    Behaves t heap c flags ↔ Behaves s heap c flags := by
  have hsize : spanSize t heap c flags = spanSize s heap c flags := by
    unfold spanSize Store.mappingAt
    rw [h]
  have hram : RamBehaves t heap c flags ↔ RamBehaves s heap c flags := by
    constructor
    · intro hb
      refine ⟨hb.kept, fun ht hne => hb.sub ht ?_, hb.zeroed⟩
      rw [hsize]
      exact hne
    · intro hb
      refine ⟨hb.kept, fun ht hne => hb.sub ht ?_, hb.zeroed⟩
      rw [← hsize]
      exact hne
  unfold Behaves
  rw [hram]

theorem enterBuf_spec {b : Buf} {z : ℕ} (hb : s.bufs.blocks p = some ⟨z, b⟩)
    (he : enterBuf s p = some r) : r.1 = p ∧ r.2.bufAt p = some { b with refCount := 1 } ∧
      r.2.blocks = s.blocks ∧ r.2.device = s.device := by
  have hat : s.bufAt p = some b := by
    unfold Store.bufAt
    rw [hb]
    rfl
  unfold enterBuf Store.writeBuf at he
  rw [hat, Option.bind_eq_bind, Option.bind_some, Heap.write_eq hb] at he
  rw [← Option.some.inj he]
  refine ⟨rfl, ?_, rfl, rfl⟩
  unfold Store.bufAt
  dsimp only
  rw [Function.update_self]
  rfl

theorem allocated_congr {b b' : Buf} (hs : t.blocks = s.blocks) (hd : t.device = s.device)
    (hu : v.blocks = u.blocks) (hv : v.device = u.device) (hb : b'.devVAddr = b.devVAddr) :
    Allocated t u c flags b ↔ Allocated s v c flags b' := by
  unfold Allocated
  rw [hs, hd, hu, hv, hb]

theorem Back.freed (hb : Back t u) (ht : t = { s with bufs := t.bufs })
    (hadded : Added s.bufs.blocks t.bufs.blocks p) (hf : u.freeBuf p = some v) : Undone s v := by
  have hheld : Added s.bufs.blocks u.bufs.blocks p := by
    rw [hb.frame.bufs]
    exact hadded
  obtain ⟨w, hw, hbufs, hrest⟩ := freeBuf_back hheld
  obtain rfl : w = v := Option.some.inj (hw.symm.trans hf)
  have hblocks : t.blocks = s.blocks := by rw [ht]
  have hdevice : t.device = s.device := by rw [ht]
  have hmappings : t.mappings = s.mappings := by rw [ht]
  have hcount : t.refCount = s.refCount := by rw [ht]
  have hareas : t.areas = s.areas := by rw [ht]
  refine ⟨?_, ?_, ?_, hbufs, ?_, ?_⟩
  · rw [hrest]
    exact hb.frame.blocks.trans hblocks
  · rw [hrest]
    exact hb.device.trans hdevice
  · rw [hrest]
    exact hb.mappings.trans (congrArg Heap.blocks hmappings)
  · intro a b k o ha hk
    rw [hrest] at ha
    rw [← hareas]
    exact hb.frame.subs a b k o ha hk
  · rw [hrest]
    exact hb.frame.refCount.trans hcount

theorem not_undone_of_left (hleft : u.device ≠ s.device ∨ u.blocks ≠ s.blocks)
    (hf : u.freeBuf p = some v) : ¬Undone s v := by
  obtain ⟨h, -, heq⟩ := Option.map_eq_some_iff.mp hf
  intro hundone
  have hdevice := hundone.device
  have hblocks := hundone.blocks
  rw [← heq] at hdevice hblocks
  exact hleft.elim (fun h => h hdevice) (fun h => h hblocks)

theorem MemEnds.keeps_iff {y : Bool × Store} (he : MemEnds t heap c flags p y) (h0 : p ≠ 0)
    (hflags : c.flags = some flags) (ht : t = { s with bufs := t.bufs })
    (hadded : Added s.bufs.blocks t.bufs.blocks p)
    (hr : (if y.1 = true then enterBuf y.2 p else (y.2.freeBuf p).map fun s => (0, s)) = some r) :
    Keeps s c r ↔ Behaves t heap c flags := by
  have hblocks : t.blocks = s.blocks := by rw [ht]
  have hdevice : t.device = s.device := by rw [ht]
  unfold Keeps
  cases he with
  | @failed w back how =>
    rw [if_neg Bool.false_ne_true] at hr
    obtain ⟨z, hz, heq⟩ := Option.map_eq_some_iff.mp hr
    rw [← heq, if_pos rfl]
    exact iff_of_true (back.freed ht hadded hz) how
  | @kept w left bufs how =>
    rw [if_neg Bool.false_ne_true] at hr
    obtain ⟨z, hz, heq⟩ := Option.map_eq_some_iff.mp hr
    rw [hdevice, hblocks] at left
    rw [← heq, if_pos rfl]
    exact iff_of_false (not_undone_of_left left hz) how
  | @made w b z buf allocated how =>
    rw [if_pos rfl] at hr
    obtain ⟨hp, hb, hsegments, hranges⟩ := enterBuf_spec buf hr
    rw [hp, if_neg h0]
    refine iff_of_true ⟨flags, _, hflags, hb, ?_⟩ how
    exact (allocated_congr hblocks hdevice hsegments hranges rfl).mp allocated
  | @unmade w b z buf missing how =>
    rw [if_pos rfl] at hr
    obtain ⟨hp, hb, hsegments, hranges⟩ := enterBuf_spec buf hr
    rw [hp, if_neg h0]
    refine iff_of_false (fun h => ?_) how
    obtain ⟨flags', b', hflags', hb', hallocated⟩ := h
    obtain rfl : flags = flags' := Option.some.inj (hflags.symm.trans hflags')
    rw [hb] at hb'
    rw [← Option.some.inj hb'] at hallocated
    exact missing ((allocated_congr hblocks hdevice hsegments hranges rfl).mpr hallocated)

/-- Where `BM_Alloc` returns `IMG_FALSE` the segments are as before and nothing is left, and where
    it returns `IMG_TRUE` the device address has been allocated, exactly for the calls that are
    provided for. -/
theorem bmAlloc_keeps_iff (hr : bmAlloc s heap c = some r) : Keeps s c r ↔ Provided s heap c := by
  have hnone : Keeps s c (0, s) := (Back.refl s).undone
  unfold bmAlloc at hr
  unfold Provided
  cases hflags : c.flags with
  | none =>
    rw [hflags] at hr
    rw [← Option.some.inj hr]
    refine iff_of_true hnone ?_
    intro flags h
    cases h
  | some flags =>
    rw [hflags, Option.elim_some] at hr
    obtain ⟨⟨p, t⟩, ht, hr⟩ := Option.bind_eq_some_iff.mp hr
    obtain ⟨x, hx, heq⟩ := Option.map_eq_some_iff.mp ht
    obtain ⟨hxp, hxt⟩ := Prod.mk.inj heq
    have hrest : t = { s with bufs := t.bufs } := by rw [← hxt]
    dsimp only at hr
    cases Heap.alloc_spec (show s.bufs.alloc _ _ c.buf = some (x.1, x.2) from hx) with
    | inl hfails =>
      obtain ⟨hbuf, h0, hsame⟩ := hfails
      have hts : t = s := by rw [← hxt, hsame]
      rw [if_pos (hxp.symm.trans h0), hts] at hr
      rw [← Option.some.inj hr]
      refine iff_of_true hnone ?_
      intro flags' _ hnot
      exact absurd hbuf hnot
    | inr hnew =>
      obtain ⟨hgrant, hnew⟩ := hnew
      rw [hxp] at hgrant hnew
      have hadded : Added s.bufs.blocks t.bufs.blocks p := by
        have hbufs : t.bufs = x.2 := by rw [← hxt]
        rw [hbufs]
        exact hnew.added
      have hset : c.buf ≠ none := by
        rw [hgrant]
        exact Option.some_ne_none p
      have hmappings : t.mappings = s.mappings := by rw [hrest]
      rw [if_neg hnew.pos] at hr
      obtain ⟨y, hy, hr⟩ := Option.bind_eq_some_iff.mp hr
      rw [(allocMemory_ends hy).keeps_iff hnew.pos hflags hrest hadded hr, behaves_congr hmappings]
      constructor
      · intro hb flags' heq _
        rw [← Option.some.inj heq]
        exact hb
      · exact fun h => h flags rfl hset

def sampleAlloc (sub : Option ℕ) : AllocCall :=
  ⟨256, some memRamBackedAllocation, 0, none, some 80, none, sampleImport 0, true, some 65536, sub,
    true, none, 0, true, some 112, ⟨.env, false, 0, 0, 0, [], 0, 0, 0⟩⟩

theorem bmAlloc_keeps_sample : ∃ r,
    bmAlloc storeInit sampleHeap (sampleAlloc (some 96)) = some r ∧ r.1 ≠ 0 ∧
      Keeps storeInit (sampleAlloc (some 96)) r := by
  have hsome : ((bmAlloc storeInit sampleHeap (sampleAlloc (some 96))).map
      fun r => decide (r.1 ≠ 0)) = some true := by decide +kernel
  obtain ⟨r, hr, hpos⟩ := Option.map_eq_some_iff.mp hsome
  refine ⟨r, hr, of_decide_eq_true hpos, (bmAlloc_keeps_iff hr).mpr ?_⟩
  intro flags hflags _
  rw [← Option.some.inj hflags]
  intro _ _
  refine ⟨fun h => ?_, fun _ _ => ?_, fun _ _ => rfl⟩
  · cases h.again
  · exact Option.some_ne_none 96

/-- When the part of the area cannot be made, `BM_Alloc` fails and the segment stays live. -/
theorem bmAlloc_without_sub : ∃ r,
    bmAlloc storeInit sampleHeap (sampleAlloc none) = some r ∧ r.1 = 0 ∧
      r.2.blocks 65536 = some 256 ∧ ¬Keeps storeInit (sampleAlloc none) r := by
  have hsome : ((bmAlloc storeInit sampleHeap (sampleAlloc none)).map
      fun r => decide (r.1 = 0 ∧ r.2.blocks 65536 = some 256)) = some true := by decide +kernel
  obtain ⟨r, hr, hleft⟩ := Option.map_eq_some_iff.mp hsome
  obtain ⟨h0, hlive⟩ := of_decide_eq_true hleft
  refine ⟨r, hr, h0, hlive, fun hk => ?_⟩
  unfold Keeps at hk
  rw [if_pos h0] at hk
  rw [hk.blocks] at hlive
  cases hlive

end PvrServices.AllocMemory
