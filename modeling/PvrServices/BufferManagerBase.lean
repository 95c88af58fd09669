import PvrServices.ArenaBase
import PvrServices.OsAreas

set_option autoImplicit false

/-!
# The buffer manager

`buffer_manager.c`. A buffer lies in a mapping: a span that the import arena of its heap has taken
in, or memory that was wrapped. Structures are named by their addresses, and 0 is the null
pointer; a call that follows an address at which there is nothing has no answer, nor has one that
stops at a `BUG`. What the kernel, the MMU and the local arena answer comes with each call.
-/
namespace PvrServices.BufferManager
open Words Mmaps OsAreas HashTable

def backingstoreSysmemNoncontig : ℕ := 2 ^ 25
def backingstoreLocalmemContig : ℕ := 2 ^ 26

inductive Origin where
  | wrapped
  | wrappedScatter
  | wrappedVirtaddr
  | wrappedScatterVirtaddr
  | env
  | contiguous
deriving DecidableEq, Repr

/-- `hm_wrapped` or `hm_wrapped_virtaddr`: the buffers that the hash table knows. -/
def Origin.hashed : Origin → Bool
  | .wrapped => true
  | .wrappedVirtaddr => true
  | _ => false

/-- `struct BM_MAPPING`; `arena` is the heap whose import arena `pArena` is. -/
structure BmMapping where
  origin : Origin
  heap : ℕ
  arena : Option ℕ
  cpuVAddr : ℕ
  cpuPAddr : ℕ
  devVAddr : ℕ
  size : ℕ
  hOSMemHandle : ℕ
  flags : ℕ
deriving DecidableEq, Repr

structure BmBuf where
  ptr : ℕ
  cpuVAddr : ℕ
  hOSMemHandle : ℕ
  cpuPAddr : ℕ
  devVAddr : ℕ
  mapping : ℕ
  refCount : ℕ
deriving DecidableEq, Repr

structure BmHeap where
  attribs : ℕ
  context : ℕ
  dataPageSize : ℕ
  importArena : Arenas.RaArena

structure BmContext where
  heaps : List ℕ
  bufferHash : Table ℕ
  refCount : ℕ

structure MemInfo where
  flags : ℕ
  hBuffer : ℕ
deriving DecidableEq, Repr

structure Bm where
  os : OsData
  mem : Os
  heaps : ℕ → Option BmHeap
  contexts : ℕ → Option BmContext
  mappings : ℕ → Option BmMapping
  bufs : List BmBuf
  memInfos : ℕ → Option MemInfo

def Bm.findBuf (s : Bm) (p : ℕ) : Option BmBuf := s.bufs.find? fun b => b.ptr = p

def Bm.setMapping (s : Bm) (p : ℕ) (m : Option BmMapping) : Bm :=
  { s with mappings := Function.update s.mappings p m }

def Bm.setContext (s : Bm) (c : ℕ) (x : Option BmContext) : Bm :=
  { s with contexts := Function.update s.contexts c x }

def Bm.setMemInfo (s : Bm) (i : ℕ) (x : Option MemInfo) : Bm :=
  { s with memInfos := Function.update s.memInfos i x }

def hashAddress (addr : ℕ) : ℕ := hashFuncDefault [addr]

/-- `RA_TestDelete`: the first segment of an arena that imports is a span marker. -/
def raTestDelete (a : Arenas.RaArena) : Bool := a.headSegment = 0

def testDelete (s : Bm) (h : ℕ) : Bool :=
  (s.heaps h).all fun heap =>
    !hasFlag heap.attribs (backingstoreSysmemNoncontig ||| backingstoreLocalmemContig) ||
      raTestDelete heap.importArena

def bmDestroyContextCallBack (s : Bm) (c : ℕ) (ctx : BmContext) : Bm :=
  { s with
    heaps := fun h => if h ∈ ctx.heaps then none else s.heaps h
    contexts := Function.update s.contexts c none }

def bmDestroyContext (s : Bm) (c : ℕ) (ctx : BmContext) : Option Bm :=
  if ctx.heaps.all (testDelete s) then some (bmDestroyContextCallBack s c ctx) else none

def pvrGetCtx (s : Bm) (c : ℕ) : Option Bm := do
  let ctx ← s.contexts c
  some (s.setContext c (some { ctx with refCount := ctx.refCount + 1 }))

def pvrPutCtx (s : Bm) (c : ℕ) : Option Bm := do
  let ctx ← s.contexts c
  match ctx.refCount with
  | 0 => none
  | 1 => bmDestroyContext s c ctx
  | n + 2 => some (s.setContext c (some { ctx with refCount := n + 1 }))

structure ImportAnswers where
  mapping : Option ℕ
  grant : Option Grant
  localAddr : Option ℕ
  devVAddr : Option ℕ

structure Backing where
  origin : Origin
  cpuVAddr : ℕ
  cpuPAddr : ℕ
  area : ℕ

/-- A span of which nothing is known but that it is backed by an area. -/
def backed (origin : Origin) (cpuPAddr : ℕ) (cpuVAddr : Grant → ℕ) (grant : Option Grant) :
    Except PvrsrvError ℕ × OsData → Option Backing × OsData
  | (.error _, os) => (none, os)
  | (.ok a, os) => (some ⟨origin, grant.elim 0 cpuVAddr, cpuPAddr, a⟩, os)

def importBacking (os : OsData) (attribs size : ℕ) (c : ImportAnswers) :
    Option (Option Backing × OsData) :=
  if hasFlag attribs backingstoreSysmemNoncontig then
    (osAllocPages os attribs size c.grant).map
      (backed .env 0 (allocPagesCpuVAddr attribs) c.grant)
  else if hasFlag attribs backingstoreLocalmemContig then
    match c.localAddr with
    | none => some (none, os)
    | some addr => (osReservePhys os addr attribs size c.grant).map
        (backed .contiguous addr (allocPagesCpuVAddr attribs) c.grant)
  else some (none, os)

def undoBacking (os : OsData) (attribs : ℕ) (b : Backing) : Option OsData :=
  if hasFlag attribs backingstoreSysmemNoncontig then
    (osFreePages os attribs b.area).map Prod.snd
  else if b.cpuVAddr ≠ 0 then (osUnReservePhys os attribs b.area).map Prod.snd
  else some os

/-- The end of `BM_ImportMemory`: the mapping at `p` has a backing store and `DevMemoryAlloc` asks
    for device addresses. -/
def importMapped (s : Bm) (h : ℕ) (heap : BmHeap) (size flags p : ℕ) (b : Backing) :
    Option ℕ → Option (Option Arenas.Import × Bm)
  | none => (undoBacking s.os heap.attribs b).map fun os => (none, { s with os := os })
  | some v =>
    let mapped := if hasFlag flags memInterleaved then u32 (pageAlign size * 2) else pageAlign size
    some (some ⟨u32 v, u32 (pageAlign size), some ⟨p, flags⟩, u32_lt _, u32_lt _⟩,
      s.setMapping p
        (some ⟨b.origin, h, none, b.cpuVAddr, b.cpuPAddr, u32 v, mapped, b.area, flags⟩))

/-- `BM_ImportMemory`, with the size before `INTERLEAVED` doubles it as the actual one. -/
def bmImportMemory (s : Bm) (h size flags : ℕ) (c : ImportAnswers) :
    Option (Option Arenas.Import × Bm) := do
  let heap ← s.heaps h
  match c.mapping with
  | none => some (none, s)
  | some p =>
    if p = 0 ∨ (s.mappings p).isSome then none
    else do
      let pSize := if hasFlag flags memDummy then heap.dataPageSize else pageAlign size
      let (b, os) ← importBacking s.os heap.attribs pSize c
      match b with
      | none => some (none, { s with os := os })
      | some b => importMapped { s with os := os } h heap size flags p b c.devVAddr

/-- What `BM_FreeMemory` does with the backing store; errors are dropped. -/
def freeBacking (os : OsData) (attribs area : ℕ) : Option OsData :=
  if hasFlag attribs backingstoreSysmemNoncontig then
    (osFreePages os attribs area).map Prod.snd
  else if hasFlag attribs backingstoreLocalmemContig then
    (osUnReservePhys os attribs area).map Prod.snd
  else some os

def bmFreeMemory (s : Bm) (h p : ℕ) : Option Bm := do
  let heap ← s.heaps h
  let m ← s.mappings p
  let os ← freeBacking s.os heap.attribs m.hOSMemHandle
  some ({ s with os := os }.setMapping p none)

/-- A call that the import arena of the heap `h` has made. -/
def callBack (h : ℕ) (s : Bm) : Arenas.Call → Option Bm
  | .importFree _ (some m) => bmFreeMemory s h m.ref
  | _ => some s

def setArena (s : Bm) (h : ℕ) (heap : BmHeap) (a : Arenas.RaArena) : Option Bm :=
  (a.calls.drop heap.importArena.calls.length).foldlM (callBack h)
    { s with heaps := Function.update s.heaps h (some { heap with importArena := a }) }

def raAllocImport (s : Bm) (h size flags alignment : ℕ) (c : ImportAnswers) :
    Option (Option (Option Arenas.BmMapping × ℕ) × Bm) := do
  let heap ← s.heaps h
  if !heap.importArena.importAlloc then some (none, s)
  else do
    let asked := Arenas.importSize heap.importArena.quantum size alignment
    let (i, s) ← bmImportMemory s h asked flags c
    match i with
    | none => some (none, s)
    | some i => do
      let (r, a) ← Arenas.allocFromImport heap.importArena size flags alignment i
      let s ← setArena s h heap a
      some (r, s)

def raAlloc (s : Bm) (h size flags alignment : ℕ) (c : ImportAnswers) :
    Option (Option (Option Arenas.BmMapping × ℕ) × Bm) := do
  let heap ← s.heaps h
  let (r, a) ← Arenas.attemptAllocAligned heap.importArena size flags alignment
  let s ← setArena s h heap a
  match r with
  | some r => some (some r, s)
  | none => raAllocImport s h size flags alignment c

def raFree (s : Bm) (h base : ℕ) : Option Bm := do
  let heap ← s.heaps h
  setArena s h heap (Arenas.raFree heap.importArena base false)

structure AllocAnswers extends ImportAnswers where
  memInfo : Option ℕ
  buf : Option ℕ
  sub : Option ℕ
  zeroed : Bool

def zeroBuf (cpuVAddr : ℕ) (zeroed : Bool) : Bool := cpuVAddr ≠ 0 || zeroed

def cpuVAddrAt (cpuVAddr offset : ℕ) : ℕ := if cpuVAddr = 0 then 0 else u32 (cpuVAddr + offset)

def bufHandle (os : OsData) (m : BmMapping) (offset size attribs : ℕ) (sub : Option ℕ) :
    Option (Except PvrsrvError ℕ × OsData) :=
  if size = m.size then some (.ok m.hOSMemHandle, os)
  else osGetSubMemHandle os m.hOSMemHandle offset size attribs sub

def allocInMapping (s : Bm) (h : ℕ) (heap : BmHeap) (size flags p q base : ℕ) (c : AllocAnswers) :
    Option (Option BmBuf × Bm) := do
  let m ← s.mappings q
  let offset := u32Sub base m.devVAddr
  let cpuVAddr := cpuVAddrAt m.cpuVAddr offset
  let (handle, os) ← bufHandle s.os m offset size heap.attribs c.sub
  let s := { s with os := os }
  match handle with
  | .error _ => some (none, s)
  | .ok handle =>
    if hasFlag flags memZero && !zeroBuf cpuVAddr c.zeroed then some (none, s)
    else some (some ⟨p, cpuVAddr, handle, u32 (m.cpuPAddr + offset), base, q, 1⟩,
      s.setMapping q (some { m with heap := h, arena := some h }))

/-- `AllocMemory` of the memory that is always asked for, which is RAM-backed. -/
def allocMemory (s : Bm) (h size flags alignment p : ℕ) (c : AllocAnswers) :
    Option (Option BmBuf × Bm) := do
  let heap ← s.heaps h
  if hasFlag flags memUserSuppliedDevvaddr then some (none, s)
  else if !hasFlag heap.attribs (backingstoreSysmemNoncontig ||| backingstoreLocalmemContig) then
    some (none, s)
  else do
    let (r, s) ← raAlloc s h size flags alignment c.toImportAnswers
    match r with
    | none => some (none, s)
    | some (none, _) => none
    | some (some q, base) => allocInMapping s h heap size flags p q.ref base c

def bmAlloc (s : Bm) (h size flags alignment : ℕ) (c : AllocAnswers) :
    Option (Option (ℕ × ℕ) × Bm) := do
  let heap ← s.heaps h
  match c.buf with
  | none => some (none, s)
  | some p =>
    if p = 0 ∨ (s.findBuf p).isSome then none
    else do
      let (b, s) ← allocMemory s h size flags (if alignment = 0 then 1 else alignment) p c
      match b with
      | none => some (none, s)
      | some b => do
        let s ← pvrGetCtx s heap.context
        some (some (p, flags ||| heap.attribs), { s with bufs := b :: s.bufs })

def unwrapArea (os : OsData) (origin : Origin) (flags a : ℕ) : Option OsData :=
  match origin with
  | .wrapped => (osUnReservePhys os flags a).map Prod.snd
  | .wrappedVirtaddr => (osUnRegisterMem os flags a).map Prod.snd
  | .wrappedScatter => (osUnReserveDiscontigPhys os flags a).map Prod.snd
  | .wrappedScatterVirtaddr => (osUnRegisterDiscontigMem os flags a).map Prod.snd
  | _ => some os

/-- A buffer with an area of its own gives that up; the error is dropped. -/
def releaseSub (os : OsData) (b : BmBuf) (m : BmMapping) (flags : ℕ) : Option OsData :=
  if b.hOSMemHandle ≠ m.hOSMemHandle then
    (osReleaseSubMemHandle os b.hOSMemHandle flags).map Prod.snd
  else some os

def freeMemory (s : Bm) (b : BmBuf) (m : BmMapping) (flags : ℕ) : Option Bm :=
  if hasFlag flags memRamBackedAllocation then do
    let h ← m.arena
    raFree s h b.devVAddr
  else do
    let os ← unwrapArea s.os m.origin flags m.hOSMemHandle
    some ({ s with os := os }.setMapping b.mapping none)

def freeBuf (s : Bm) (b : BmBuf) (flags : ℕ) : Option Bm := do
  let m ← s.mappings b.mapping
  if hasFlag flags memUserSuppliedDevvaddr then
    if hasFlag flags memRamBackedAllocation then some s else some (s.setMapping b.mapping none)
  else do
    let os ← releaseSub s.os b m flags
    freeMemory { s with os := os } b m flags

structure WrapCall where
  heap : ℕ
  size : ℕ
  offset : ℕ
  physContig : Bool
  sysAddr : List ℕ
  cpuVAddr : ℕ
  memInfo : Option ℕ
  buf : Option ℕ
  mapping : Option ℕ
  grant : Option Grant
  devVAddr : Option ℕ
  sub : Option ℕ
  zeroed : Bool

def WrapCall.mappingSize (c : WrapCall) : ℕ := pageAlign (u32 (c.size + c.offset))

def WrapCall.hashAddress (c : WrapCall) : ℕ := u32 (c.sysAddr.headD 0 + c.offset)

def WrapCall.origin (c : WrapCall) : Origin :=
  if c.cpuVAddr ≠ 0 then if c.physContig then .wrappedVirtaddr else .wrappedScatterVirtaddr
  else if c.physContig then .wrapped else .wrappedScatter

/-- `CpuPAddr` of the mapping, which stays 0 where the pages are scattered. -/
def WrapCall.cpuPAddr (c : WrapCall) : ℕ := if c.physContig then c.sysAddr.headD 0 else 0

def wrapArea (os : OsData) (c : WrapCall) (flags : ℕ) : Option (Except PvrsrvError ℕ × OsData) :=
  match c.origin with
  | .wrappedVirtaddr => osRegisterMem os c.cpuPAddr c.mappingSize flags c.grant
  | .wrappedScatterVirtaddr => osRegisterDiscontigMem os c.sysAddr c.mappingSize flags c.grant
  | .wrapped => osReservePhys os c.cpuPAddr flags c.mappingSize c.grant
  | _ => osReserveDiscontigPhys os c.sysAddr c.mappingSize flags c.grant

/-- `CpuVAddr` of the mapping; `OSReservePhys` answers where the kernel sees the area. -/
def WrapCall.mappingCpuVAddr (c : WrapCall) (flags : ℕ) : ℕ :=
  if c.origin = .wrapped then c.grant.elim 0 (allocPagesCpuVAddr flags) else c.cpuVAddr

/-- `fail_cleanup` of `WrapMemory`, where the buffer has no area of its own. -/
def wrapCleanup (os : OsData) (c : WrapCall) (flags cpuVAddr handle : ℕ) : Option OsData :=
  if cpuVAddr = 0 ∧ handle = 0 then some os else unwrapArea os c.origin flags handle

def wrapHandle (os : OsData) (c : WrapCall) (flags a : ℕ) :
    Option (Except PvrsrvError ℕ × OsData) :=
  if c.offset = 0 then some (.ok a, os)
  else osGetSubMemHandle os a c.offset (u32Sub c.mappingSize c.offset) flags c.sub

/-- `WrapMemory` behind `DevMemoryAlloc`, which has answered `v` for the mapping at `q`. -/
def wrapMapped (s : Bm) (c : WrapCall) (flags p q a v : ℕ) : Option (Option BmBuf × Bm) := do
  let m : BmMapping := ⟨c.origin, c.heap, none, c.mappingCpuVAddr flags, c.cpuPAddr, u32 v,
    c.mappingSize, a, 0⟩
  let (handle, os) ← wrapHandle s.os c flags a
  match handle with
  | .error _ => do
    let os ← wrapCleanup os c flags m.cpuVAddr a
    some (none, { s with os := os })
  | .ok handle =>
    let s := { s with os := os }.setMapping q (some m)
    let cpuVAddr := cpuVAddrAt m.cpuVAddr c.offset
    if hasFlag flags memZero && !zeroBuf cpuVAddr c.zeroed then some (none, s)
    else some (some ⟨p, cpuVAddr, handle, u32 (c.cpuPAddr + c.offset), u32 (u32 v + c.offset), q, 1⟩,
      s)

def wrapMemory (s : Bm) (c : WrapCall) (flags p : ℕ) : Option (Option BmBuf × Bm) :=
  match c.mapping with
  | none => some (none, s)
  | some q =>
    if q = 0 ∨ (s.mappings q).isSome then none
    else do
      let (area, os) ← wrapArea s.os c flags
      match area, c.devVAddr with
      | .error _, _ => do
        let os ← wrapCleanup os c flags c.cpuVAddr 0
        some (none, { s with os := os })
      | .ok a, none => do
        let os ← wrapCleanup os c flags (c.mappingCpuVAddr flags) a
        some (none, { s with os := os })
      | .ok a, some v => wrapMapped { s with os := os } c flags p q a v

/-- The end of `BM_Wrap` for a new buffer of the context `x`: the flags are those of memory that
    every process may map. -/
def wrapEntered (s : Bm) (x flags : ℕ) (b : BmBuf) : Option (Option (ℕ × ℕ) × Bm) := do
  let s ← pvrGetCtx s x
  some (some (b.ptr, (flags ^^^ (flags &&& hapMaptypeMask)) ||| hapMultiProcess),
    { s with bufs := b :: s.bufs })

def wrapInsert (s : Bm) (x flags key : ℕ) (b : BmBuf) : Option (Option (ℕ × ℕ) × Bm) := do
  let m ← s.mappings b.mapping
  let ctx ← s.contexts x
  if m.origin.hashed then
    match hashInsertExtended BufferManager.hashAddress s.mem ctx.bufferHash key b.ptr with
    | (false, table, mem) =>
      let s := { s with mem := mem }.setContext x (some { ctx with bufferHash := table })
      (freeBuf s b flags).map fun s => (none, s)
    | (true, table, mem) =>
      wrapEntered ({ s with mem := mem }.setContext x (some { ctx with bufferHash := table }))
        x flags b
  else wrapEntered s x flags b

def wrapNew (s : Bm) (c : WrapCall) (x flags : ℕ) : Option (Option (ℕ × ℕ) × Bm) :=
  match c.buf with
  | none => some (none, s)
  | some p =>
    if p = 0 ∨ (s.findBuf p).isSome then none
    else do
      let (b, s) ← wrapMemory s c flags p
      match b with
      | none => some (none, s)
      | some b => wrapInsert s x flags c.hashAddress b

def matchesWrap (s : Bm) (c : WrapCall) (p : ℕ) : Option Bool := do
  let b ← s.findBuf p
  let m ← s.mappings b.mapping
  some (m.size = c.mappingSize && m.origin.hashed)

def Bm.setRefCount (s : Bm) (p n : ℕ) : Bm :=
  { s with bufs := s.bufs.map fun b => if b.ptr = p then { b with refCount := n } else b }

def wrapAgain (s : Bm) (p flags : ℕ) : Option (Option (ℕ × ℕ) × Bm) := do
  let b ← s.findBuf p
  some (some (p, flags), s.setRefCount p (u32 (b.refCount + 1)))

/-- `BM_Wrap`, whose callers hand over a flags word of 0: the buffer and its flags. -/
def bmWrap (s : Bm) (c : WrapCall) : Option (Option (ℕ × ℕ) × Bm) := do
  let heap ← s.heaps c.heap
  let ctx ← s.contexts heap.context
  let flags := heap.attribs &&& (hapCachetypeMask ||| hapMaptypeMask)
  let p := hashRetrieveExtended BufferManager.hashAddress ctx.bufferHash c.hashAddress
  let again ← (if p = 0 then some false else matchesWrap s c p)
  if again then wrapAgain s p flags else wrapNew s c heap.context flags

def wrapRemove (s : Bm) (x : ℕ) (b : BmBuf) (m : BmMapping) : Option Bm := do
  let ctx ← s.contexts x
  if m.origin.hashed then
    let (_, table, mem) := hashRemoveExtended BufferManager.hashAddress s.mem ctx.bufferHash
      b.cpuPAddr
    some ({ s with mem := mem }.setContext x (some { ctx with bufferHash := table }))
  else some s

def bmFreeLast (s : Bm) (b : BmBuf) (flags : ℕ) : Option Bm := do
  let m ← s.mappings b.mapping
  let heap ← s.heaps m.heap
  let s ← wrapRemove s heap.context b m
  let s ← freeBuf s b flags
  pvrPutCtx { s with bufs := s.bufs.filter fun b' => b'.ptr ≠ b.ptr } heap.context

def bmFree (s : Bm) (p flags : ℕ) : Option Bm := do
  let b ← s.findBuf p
  let n := u32Sub b.refCount 1
  if n = 0 then bmFreeLast (s.setRefCount p n) { b with refCount := n } flags
  else some (s.setRefCount p n)

/-- A new memory info at `i` for what the buffer manager returns. -/
def enterMemInfo (s : Bm) (i : ℕ) (failed : PvrsrvError) :
    Option (ℕ × ℕ) → Except PvrsrvError ℕ × Bm
  | none => (.error failed, s)
  | some (p, flags) => (.ok i, s.setMemInfo i (some ⟨flags, p⟩))

structure AllocCall extends AllocAnswers where
  heap : ℕ
  flags : ℕ
  size : ℕ
  alignment : ℕ
  size_lt : size < 4294967296
  alignment_lt : alignment < 4294967296

def allocDeviceMem (s : Bm) (c : AllocCall) : Option (Except PvrsrvError ℕ × Bm) :=
  if c.size = 0 then some (.error .errorInvalidParams, s)
  else
    match c.memInfo with
    | none => some (.error .errorOutOfMemory, s)
    | some i =>
      if i = 0 ∨ (s.memInfos i).isSome then none
      else (bmAlloc s c.heap c.size (c.flags ||| memRamBackedAllocation) c.alignment
        c.toAllocAnswers).map fun r => enterMemInfo r.2 i .errorOutOfMemory r.1

/-- `BM_Wrap` for a new memory info, as `PVRSRVWrapExtMemoryKM`, `PVRSRVMapDeviceMemoryKM` and
    `PVRSRVMapDeviceClassMemoryKM` call it. -/
def wrapMem (s : Bm) (c : WrapCall) : Option (Except PvrsrvError ℕ × Bm) :=
  match c.memInfo with
  | none => some (.error .errorOutOfMemory, s)
  | some i =>
    if i = 0 ∨ (s.memInfos i).isSome then none
    else (bmWrap s c).map fun r => enterMemInfo r.2 i .errorBadMapping r.1

def freeDeviceMem (s : Bm) (i : ℕ) : Option Bm := do
  let info ← s.memInfos i
  let s ← bmFree s info.hBuffer info.flags
  some (s.setMemInfo i none)

def byProcess : MmapOp → Bool
  | .createArea _ _ _ _ => false
  | .registerArea _ => false
  | .removeArea _ => false
  | .freeArea _ => false
  | .toMMapData _ _ _ _ => true
  | .release _ _ => true
  | .mmap _ _ => true
  | .vmaOpen _ _ => true
  | .vmaClose _ => true
  | .disconnect _ => true

inductive BmOp where
  | alloc (c : AllocCall)
  | wrap (c : WrapCall)
  | free (i : ℕ)
  | mmap (op : MmapOp)

inductive BmReply where
  | memInfo (r : Except PvrsrvError ℕ)
  | done
  | mmap (r : MmapReply)

def step (s : Bm) : BmOp → Option (BmReply × Bm)
  | .alloc c => (allocDeviceMem s c).map fun r => (.memInfo r.1, r.2)
  | .wrap c => (wrapMem s c).map fun r => (.memInfo r.1, r.2)
  | .free i => (freeDeviceMem s i).map fun s => (.done, s)
  | .mmap op =>
    if byProcess op then
      (mmapStep s.os.mmap op).map fun r => (.mmap r.1, { s with os := { s.os with mmap := r.2 } })
    else none

end PvrServices.BufferManager
