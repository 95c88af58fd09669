import PvrServices.BlockHeap
import PvrServices.WrapPages

set_option autoImplicit false

/-!
# Mapped and wrapped memory

The three calls of `devicemem.c` that make a memory info for memory that is there already, with
their blocks, buffers, pages and resource items, and the callbacks that take them back. What the
allocator, the page lookup and the buffer manager answer comes with each call. Structures are named
by their addresses, and 0 is the null pointer; a call that follows an address at which there is
nothing has no answer.
-/
namespace PvrServices.MapMemory
open Words BlockHeap WrapPages

def linuxKmallocLimit : ℕ := 4096

/-- The choice that `OSAllocMem` and `OSFreeMem` both make by the size they are told. -/
def usesVmalloc (size : ℕ) : Bool := decide (linuxKmallocLimit < size)

def memInfoSize : ℕ := 52
def syncInfoSize : ℕ := 28
def mapDataSize : ℕ := 8

def sysPAddrSize : ℕ := 4

/-- `struct PVRSRV_KERNEL_MEM_INFO`; `exported` is the flag `PVRSRV_MEM_EXPORTED`, and
    `inKernelBase` whether `KERNEL_HANDLE_BASE` has a handle to it. -/
structure MemInfo where
  pvLinAddrKM : ℕ
  allocSize : ℕ
  hOSWrapMem : ℕ
  hBuffer : ℕ
  hResItem : ℕ
  psIntSysPAddr : ℕ
  refCount : ℕ
  psKernelSyncInfo : ℕ
  exported : Bool
  inKernelBase : Bool
deriving DecidableEq, Repr

def blankInfo : MemInfo := ⟨0, 0, 0, 0, 0, 0, 0, 0, false, false⟩

structure SyncInfo where
  psSyncDataMemInfoKM : ℕ
  physAddr : ℕ
  refcount : ℕ
deriving DecidableEq, Repr

structure MapData where
  psMemInfo : ℕ
  psSrcMemInfo : ℕ
deriving DecidableEq, Repr

/-- A list of physical addresses has room for `count` of them. -/
inductive Content where
  | pageList (count : ℕ)
  | memInfo (i : MemInfo)
  | syncInfo (y : SyncInfo)
  | mapData (d : MapData)
deriving DecidableEq, Repr

def pageListSize (count : ℕ) : ℕ := u32 (count * sysPAddrSize)

def Content.size : Content → ℕ
  | .pageList count => pageListSize count
  | .memInfo _ => memInfoSize
  | .syncInfo _ => syncInfoSize
  | .mapData _ => mapDataSize

inductive Callback where
  | freeDeviceMem
  | unwrapExtMemory
  | unmapDeviceMemory
  | unmapDeviceClassMemory
deriving DecidableEq, Repr

structure Item where
  process : ℕ
  pfnFreeResource : Callback
  pvParam : ℕ
deriving DecidableEq, Repr

/-- `buffers` are the reference counts of the buffers that the buffer manager has, and `pinned` the
    page lists of `OSAcquirePhysPageAddr` that are not released. `mappingHeaps` are the contexts
    that have a mapping heap of their own, and `strays` the device addresses that the buffer manager
    has taken and then forgotten. -/
structure Maps where
  heap : Heap Content
  syncTable : ℕ → ℕ
  buffers : ℕ → ℕ
  pinned : ℕ → Bool
  mappingHeaps : ℕ → Bool
  items : ℕ → Option Item
  strays : List ℕ

def mapsInit : Maps :=
  ⟨emptyHeap Content, fun _ => 0, fun _ => 0, fun _ => false, fun _ => false, fun _ => none, []⟩

def Content.asMemInfo : Content → Option MemInfo
  | .memInfo i => some i
  | _ => none

def Content.asSyncInfo : Content → Option SyncInfo
  | .syncInfo y => some y
  | _ => none

def Content.asMapData : Content → Option MapData
  | .mapData d => some d
  | _ => none

def Content.asPageList : Content → Option ℕ
  | .pageList count => some count
  | _ => none

def memInfoAt (h : Heap Content) (m : ℕ) : Option MemInfo :=
  (h.blocks m).bind fun b => b.content.asMemInfo

def syncInfoAt (h : Heap Content) (y : ℕ) : Option SyncInfo :=
  (h.blocks y).bind fun b => b.content.asSyncInfo

def mapDataAt (h : Heap Content) (d : ℕ) : Option MapData :=
  (h.blocks d).bind fun b => b.content.asMapData

def pageListAt (h : Heap Content) (p : ℕ) : Option ℕ :=
  (h.blocks p).bind fun b => b.content.asPageList

def Maps.free (s : Maps) (p size : ℕ) : Option Maps :=
  (s.heap.free p size).map fun h => { s with heap := h }

def Maps.write (s : Maps) (p : ℕ) (x : Content) : Option Maps :=
  (s.heap.write p x).map fun h => { s with heap := h }

def Maps.alloc (s : Maps) (x : Content) (grant : Option ℕ) : Option (ℕ × Maps) :=
  (s.heap.alloc x.size (fun _ => x) grant).map fun r => (r.1, { s with heap := r.2 })

/-- What the buffer manager answers: a buffer, and its address in the kernel. -/
structure Buffer where
  handle : ℕ
  cpuVAddr : ℕ
deriving DecidableEq, Repr

/-- What an error of the buffer manager leaves: nothing, or device addresses that nothing frees, as
    `AllocMemory` and `WrapMemory` have error exits that do not give theirs back. -/
def Maps.strand (s : Maps) : Option ℕ → Maps
  | none => s
  | some v => { s with strays := v :: s.strays }

def bmAlloc (s : Maps) (b : Buffer) : Option Maps :=
  if b.handle = 0 ∨ s.buffers b.handle ≠ 0 then none
  else some { s with buffers := Function.update s.buffers b.handle 1 }

def bmWrap (s : Maps) (b : Buffer) : Option Maps :=
  if b.handle = 0 then none
  else some { s with
    buffers := Function.update s.buffers b.handle (s.buffers b.handle + 1) }

def bmFree (s : Maps) (b : ℕ) : Option Maps :=
  if b = 0 then some s
  else if s.buffers b = 0 then none
  else some { s with buffers := Function.update s.buffers b (s.buffers b - 1) }

def freeDeviceMem (s : Maps) (m : ℕ) : Option Maps :=
  if m = 0 then some s
  else do
    let i ← memInfoAt s.heap m
    let s ← bmFree s i.hBuffer
    s.free m memInfoSize

def allocBuffer (s : Maps) (m size : ℕ) (stray : Option ℕ) : Option Buffer → Option (ℕ × Maps)
  | none => ((s.strand stray).free m memInfoSize).map fun s => (0, s)
  | some b => do
    let s ← bmAlloc s b
    let s ← s.write m (.memInfo { blankInfo with
      pvLinAddrKM := b.cpuVAddr
      allocSize := size
      hBuffer := b.handle })
    some (m, s)

def allocDeviceMem (s : Maps) (size : ℕ) (memInfo : Option ℕ) (buffer : Option Buffer)
    (stray : Option ℕ) : Option (ℕ × Maps) := do
  let (m, s) ← s.alloc (.memInfo blankInfo) memInfo
  if m = 0 then some (0, s) else allocBuffer s m size stray buffer

def syncDataSize : ℕ := 24

/-- What the making of a sync info gets; `stray` is what `BM_Alloc` leaves where it fails, and
    `inserted` the answer of `HASH_Insert`. -/
structure SyncAnswers where
  info : Option ℕ
  dataInfo : Option ℕ
  dataBuffer : Option Buffer
  stray : Option ℕ
  inserted : Bool
deriving DecidableEq, Repr

def syncData (s : Maps) (y data : ℕ) : Option (ℕ × Maps) :=
  if data = 0 then (s.free y syncInfoSize).map fun s => (0, s)
  else (s.write y (.syncInfo ⟨data, 0, 0⟩)).map fun s => (y, s)

def allocSyncInfo (s : Maps) (a : SyncAnswers) : Option (ℕ × Maps) := do
  let (y, s) ← s.alloc (.syncInfo ⟨0, 0, 0⟩) a.info
  if y = 0 then some (0, s)
  else do
    let (data, s) ← allocDeviceMem s syncDataSize a.dataInfo a.dataBuffer a.stray
    syncData s y data

def freeSyncInfo (s : Maps) (y : ℕ) : Option Maps := do
  let x ← syncInfoAt s.heap y
  let s ← freeDeviceMem s x.psSyncDataMemInfoKM
  s.free y syncInfoSize

def getSyncinfo (s : Maps) (y : ℕ) : Option Maps := do
  let x ← syncInfoAt s.heap y
  s.write y (.syncInfo { x with refcount := u32 (x.refcount + 1) })

def putSyncinfo (s : Maps) (y : ℕ) : Option Maps := do
  let x ← syncInfoAt s.heap y
  let s ← s.write y (.syncInfo { x with refcount := u32Sub x.refcount 1 })
  if u32Sub x.refcount 1 = 0 then
    freeSyncInfo { s with syncTable := Function.update s.syncTable x.physAddr 0 } y
  else some s

/-- The extra data of a new sync info, and its place in the table. -/
def insertSyncinfo (s : Maps) (y physAddr : ℕ) (inserted : Bool) :
    Option (Except PvrsrvError ℕ × Maps) := do
  let x ← syncInfoAt s.heap y
  let s ← s.write y (.syncInfo { x with physAddr := physAddr, refcount := 1 })
  if inserted then
    some (.ok y, { s with syncTable := Function.update s.syncTable physAddr y })
  else some (.error .errorGeneric, s)

def allocOrReuseSyncinfo (s : Maps) (physAddr : ℕ) (a : SyncAnswers) :
    Option (Except PvrsrvError ℕ × Maps) :=
  if s.syncTable physAddr = 0 then do
    let (y, s) ← allocSyncInfo s a
    if y = 0 then some (.error .errorOutOfMemory, s) else insertSyncinfo s y physAddr a.inserted
  else do
    let s' ← getSyncinfo s (s.syncTable physAddr)
    some (.ok (s.syncTable physAddr), s')

def registerRes (s : Maps) (x : Item) : Option ℕ → Option (ℕ × Maps)
  | none => some (0, s)
  | some p =>
    if p = 0 ∨ (s.items p).isSome then none
    else some (p, { s with items := Function.update s.items p (some x) })

/-- What the search for the mapping heap of the device finds. -/
structure HeapAnswers where
  perContext : Bool
  shared : Bool
  created : Bool
deriving DecidableEq, Repr

def mappingHeap (s : Maps) (context : ℕ) (a : HeapAnswers) : Bool × Maps :=
  if !a.perContext then (a.shared, s)
  else if s.mappingHeaps context then (true, s)
  else if a.created then
    (true, { s with mappingHeaps := Function.update s.mappingHeaps context true })
  else (false, s)

/-- The registration at the end of a call; its answer is not looked at. -/
def register (s : Maps) (m : ℕ) (x : Item) (grant : Option ℕ) :
    Option (Except PvrsrvError ℕ × Maps) := do
  let (p, s) ← registerRes s x grant
  let i ← memInfoAt s.heap m
  let s ← s.write m (.memInfo { i with hResItem := p })
  some (.ok m, s)

structure AllocCall where
  process : ℕ
  exported : Bool
  size : ℕ
  memInfo : Option ℕ
  buffer : Option Buffer
  stray : Option ℕ
  sync : Option SyncAnswers
  item : Option ℕ

def allocRegister (s : Maps) (c : AllocCall) (m y : ℕ) :
    Option (Except PvrsrvError ℕ × Maps) := do
  let i ← memInfoAt s.heap m
  let (p, s) ← registerRes s ⟨c.process, .freeDeviceMem, m⟩ c.item
  if p = 0 then (freeDeviceMem s m).map fun s => (.error .errorOutOfMemory, s)
  else do
    let s ← s.write m (.memInfo { i with
      psKernelSyncInfo := y
      exported := c.exported
      hResItem := p
      refCount := 1 })
    some (.ok m, s)

def allocSync (s : Maps) (c : AllocCall) (m : ℕ) :
    Option SyncAnswers → Option (Except PvrsrvError ℕ × Maps)
  | none => allocRegister s c m 0
  | some a => do
    let (y, s) ← allocSyncInfo s a
    if y = 0 then (freeDeviceMem s m).map fun s => (.error .errorOutOfMemory, s)
    else allocRegister s c m y

def allocDeviceMemKM (s : Maps) (c : AllocCall) : Option (Except PvrsrvError ℕ × Maps) :=
  if c.size = 0 then some (.error .errorInvalidParams, s)
  else do
    let (m, s) ← allocDeviceMem s c.size c.memInfo c.buffer c.stray
    if m = 0 then some (.error .errorOutOfMemory, s) else allocSync s c m c.sync

/-- What `OSAcquirePhysPageAddr` finds: its handle and the first page. -/
structure Pages where
  handle : ℕ
  physAddr : ℕ
deriving DecidableEq, Repr

/-- A call of `PVRSRVWrapExtMemoryKM`; `stray` is what `BM_Wrap` leaves where it fails. -/
structure WrapCall where
  process : ℕ
  context : ℕ
  byteSize : ℕ
  linAddr : ℕ
  extSysPAddr : Option ℕ
  pageList : Option ℕ
  acquired : Option Pages
  heap : HeapAnswers
  memInfo : Option ℕ
  wrap : Option Buffer
  stray : Option ℕ
  sync : SyncAnswers
  item : Option ℕ

def WrapCall.pageCount (c : WrapCall) : ℕ := getPageCount c.linAddr c.byteSize

/-- What a call has taken so far: its page list and the handle of its pages. -/
structure Taken where
  list : ℕ
  pages : ℕ
deriving DecidableEq, Repr

def wrapExit1 (s : Maps) (c : WrapCall) (t : Taken) (e : PvrsrvError) :
    Option (Except PvrsrvError ℕ × Maps) :=
  if t.list = 0 then some (.error e, s)
  else (s.free t.list (pageListSize c.pageCount)).map fun s => (.error e, s)

def releasePages (s : Maps) (w : ℕ) : Option Maps :=
  if w = 0 then some s
  else if s.pinned w then some { s with pinned := Function.update s.pinned w false }
  else none

def wrapExit2 (s : Maps) (c : WrapCall) (t : Taken) (e : PvrsrvError) :
    Option (Except PvrsrvError ℕ × Maps) := do
  let s ← releasePages s t.pages
  wrapExit1 s c t e

def wrapExit3 (s : Maps) (c : WrapCall) (t : Taken) (m : ℕ) (e : PvrsrvError) :
    Option (Except PvrsrvError ℕ × Maps) := do
  let s ← s.free m memInfoSize
  wrapExit2 s c t e

def wrapExit4 (s : Maps) (c : WrapCall) (t : Taken) (m : ℕ) (e : PvrsrvError) :
    Option (Except PvrsrvError ℕ × Maps) := do
  let s ← freeDeviceMem s m
  wrapExit2 s c t e

def wrapSynced (c : WrapCall) (t : Taken) (m : ℕ) :
    Except PvrsrvError ℕ × Maps → Option (Except PvrsrvError ℕ × Maps)
  | (.error e, s) => wrapExit4 s c t m e
  | (.ok y, s) => do
    let i ← memInfoAt s.heap m
    let s ← s.write m (.memInfo { i with
      psKernelSyncInfo := y
      refCount := u32 (i.refCount + 1) })
    register s m ⟨c.process, .unwrapExtMemory, m⟩ c.item

def wrapBuffer (s : Maps) (c : WrapCall) (t : Taken) (physAddr m : ℕ) :
    Option Buffer → Option (Except PvrsrvError ℕ × Maps)
  | none => wrapExit3 (s.strand c.stray) c t m .errorBadMapping
  | some b => do
    let s ← bmWrap s b
    let s ← s.write m (.memInfo { blankInfo with
      pvLinAddrKM := b.cpuVAddr
      allocSize := c.byteSize
      hOSWrapMem := t.pages
      hBuffer := b.handle
      psIntSysPAddr := t.list })
    let r ← allocOrReuseSyncinfo s physAddr c.sync
    wrapSynced c t m r

def wrapPages (s : Maps) (c : WrapCall) (t : Taken) (physAddr : ℕ) :
    Option (Except PvrsrvError ℕ × Maps) :=
  let (found, s) := mappingHeap s c.context c.heap
  if found = false then wrapExit2 s c t .errorGeneric
  else do
    let (m, s) ← s.alloc (.memInfo blankInfo) c.memInfo
    if m = 0 then wrapExit2 s c t .errorOutOfMemory else wrapBuffer s c t physAddr m c.wrap

def wrapAcquire (s : Maps) (c : WrapCall) (list : ℕ) :
    Option Pages → Option (Except PvrsrvError ℕ × Maps)
  | none => wrapExit1 s c ⟨list, 0⟩ .errorOutOfMemory
  | some w =>
    if w.handle = 0 ∨ s.pinned w.handle then none
    else wrapPages { s with pinned := Function.update s.pinned w.handle true } c
      ⟨list, w.handle⟩ w.physAddr

def wrapList (s : Maps) (c : WrapCall) : Option ℕ → Option (Except PvrsrvError ℕ × Maps)
  | none => some (.error .errorInvalidParams, s)
  | some physAddr => wrapPages s c ⟨0, 0⟩ physAddr

def wrapExtMemory (s : Maps) (c : WrapCall) : Option (Except PvrsrvError ℕ × Maps) :=
  if c.linAddr = 0 then wrapList s c c.extSysPAddr
  else do
    let (list, s) ← s.alloc (.pageList c.pageCount) c.pageList
    if list = 0 then some (.error .errorOutOfMemory, s) else wrapAcquire s c list c.acquired

/-- A call of `PVRSRVMapDeviceMemoryKM`; `pagesFound` says whether the buffer manager knows the
    pages of the source. -/
structure MapCall where
  process : ℕ
  src : ℕ
  dstHeap : ℕ
  pageList : Option ℕ
  pagesFound : Bool
  mapData : Option ℕ
  memInfo : Option ℕ
  wrap : Option Buffer
  stray : Option ℕ
  item : Option ℕ

def MemInfo.pageCount (i : MemInfo) : ℕ := getPageCount i.pvLinAddrKM i.allocSize

def freeIfThere (s : Maps) (p size : ℕ) : Option Maps := if p = 0 then some s else s.free p size

def mapExit (s : Maps) (list m d : ℕ) (e : PvrsrvError) :
    Option (Except PvrsrvError ℕ × Maps) := do
  let s ← freeIfThere s list sysPAddrSize
  let s ← freeIfThere s m memInfoSize
  let s ← freeIfThere s d mapDataSize
  some (.error e, s)

def mapBuffer (s : Maps) (c : MapCall) (src : MemInfo) (list d m : ℕ) :
    Option Buffer → Option (Except PvrsrvError ℕ × Maps)
  | none => mapExit (s.strand c.stray) list m d .errorBadMapping
  | some b => do
    let s ← bmWrap s b
    let s ← s.write m (.memInfo { blankInfo with
      pvLinAddrKM := src.pvLinAddrKM
      allocSize := src.allocSize
      hBuffer := b.handle
      psIntSysPAddr := list
      psKernelSyncInfo := src.psKernelSyncInfo })
    let s ← s.write c.src (.memInfo { src with refCount := u32 (src.refCount + 1) })
    let s ← s.write d (.mapData ⟨m, c.src⟩)
    register s m ⟨c.process, .unmapDeviceMemory, d⟩ c.item

def mapInfo (s : Maps) (c : MapCall) (src : MemInfo) (list d : ℕ) :
    Option (Except PvrsrvError ℕ × Maps) := do
  let (m, s) ← s.alloc (.memInfo blankInfo) c.memInfo
  if m = 0 then mapExit s list 0 d .errorOutOfMemory else mapBuffer s c src list d m c.wrap

def mapPages (s : Maps) (c : MapCall) (src : MemInfo) (list : ℕ) :
    Option (Except PvrsrvError ℕ × Maps) :=
  if src.pageCount ≠ 0 ∧ c.pagesFound = false then mapExit s list 0 0 .errorGeneric
  else do
    let (d, s) ← s.alloc (.mapData ⟨0, 0⟩) c.mapData
    if d = 0 then mapExit s list 0 0 .errorOutOfMemory else mapInfo s c src list d

def mapDeviceMemory (s : Maps) (c : MapCall) : Option (Except PvrsrvError ℕ × Maps) :=
  if c.src = 0 ∨ c.dstHeap = 0 then some (.error .errorInvalidParams, s)
  else do
    let src ← memInfoAt s.heap c.src
    let (list, s) ← s.alloc (.pageList src.pageCount) c.pageList
    if list = 0 then some (.error .errorOutOfMemory, s) else mapPages s c src list

structure ClassBuffer where
  byteSize : ℕ
  psKernelSyncInfo : ℕ
deriving DecidableEq, Repr

structure ClassCall where
  process : ℕ
  context : ℕ
  classBuffer : ℕ
  bufferAddr : Option ClassBuffer
  heap : HeapAnswers
  memInfo : Option ℕ
  wrap : Option Buffer
  stray : Option ℕ
  item : Option ℕ

def classWrap (s : Maps) (c : ClassCall) (x : ClassBuffer) (m : ℕ) :
    Option Buffer → Option (Except PvrsrvError ℕ × Maps)
  | none => ((s.strand c.stray).free m memInfoSize).map fun s =>
    (.error .errorBadMapping, s)
  | some b => do
    let s ← bmWrap s b
    let s ← s.write m (.memInfo { blankInfo with
      pvLinAddrKM := b.cpuVAddr
      allocSize := x.byteSize
      hBuffer := b.handle
      psKernelSyncInfo := x.psKernelSyncInfo })
    register s m ⟨c.process, .unmapDeviceClassMemory, m⟩ c.item

def classBuffer (s : Maps) (c : ClassCall) :
    Option ClassBuffer → Option (Except PvrsrvError ℕ × Maps)
  | none => some (.error .errorGeneric, s)
  | some x =>
    let (found, s) := mappingHeap s c.context c.heap
    if found = false then some (.error .errorGeneric, s)
    else do
      let (m, s) ← s.alloc (.memInfo blankInfo) c.memInfo
      if m = 0 then some (.error .errorOutOfMemory, s) else classWrap s c x m c.wrap

def mapDeviceClassMemory (s : Maps) (c : ClassCall) : Option (Except PvrsrvError ℕ × Maps) :=
  if c.classBuffer = 0 ∨ c.context = 0 then some (.error .errorInvalidParams, s)
  else classBuffer s c c.bufferAddr

/-- `PVRSRVExportDeviceMemBW` for memory that the process has a handle to. -/
def exportDeviceMem (s : Maps) (m : ℕ) : Option Maps := do
  let i ← memInfoAt s.heap m
  if i.inKernelBase then some s
  else s.write m (.memInfo { i with exported := true, inKernelBase := true })

def freeInfo (s : Maps) (m psKernelSyncInfo : ℕ) : Option Maps := do
  let s ← (if psKernelSyncInfo = 0 then some s else freeSyncInfo s psKernelSyncInfo)
  freeDeviceMem s m

/-- Exported memory that is still mapped, or that was not exported with a handle, is refused. -/
def freeDeviceMemCallBack (s : Maps) (m : ℕ) : Option Maps := do
  let i ← memInfoAt s.heap m
  let i := { i with refCount := u32Sub i.refCount 1 }
  let s ← s.write m (.memInfo i)
  if i.exported && (i.refCount ≠ 0 || !i.inKernelBase) then some s
  else freeInfo s m i.psKernelSyncInfo

def freePageList (s : Maps) (i : MemInfo) : Option Maps :=
  freeIfThere s i.psIntSysPAddr (pageListSize i.pageCount)

def unwrapExtMemoryCallBack (s : Maps) (m : ℕ) : Option Maps := do
  let i ← memInfoAt s.heap m
  let s ← (if i.psKernelSyncInfo = 0 then some s else putSyncinfo s i.psKernelSyncInfo)
  let s ← freePageList s i
  let s ← s.write m (.memInfo { i with refCount := u32Sub i.refCount 1 })
  let s ← freeDeviceMem s m
  releasePages s i.hOSWrapMem

def unmapDeviceMemoryCallBack (s : Maps) (d : ℕ) : Option Maps := do
  let x ← mapDataAt s.heap d
  let i ← memInfoAt s.heap x.psMemInfo
  let s ← freePageList s i
  let s ← freeDeviceMem s x.psMemInfo
  let src ← memInfoAt s.heap x.psSrcMemInfo
  let s ← s.write x.psSrcMemInfo (.memInfo { src with refCount := u32Sub src.refCount 1 })
  s.free d mapDataSize

def unmapDeviceClassMemoryCallBack (s : Maps) (m : ℕ) : Option Maps := freeDeviceMem s m

def callBack (s : Maps) (x : Item) : Option Maps :=
  match x.pfnFreeResource with
  | .freeDeviceMem => freeDeviceMemCallBack s x.pvParam
  | .unwrapExtMemory => unwrapExtMemoryCallBack s x.pvParam
  | .unmapDeviceMemory => unmapDeviceMemoryCallBack s x.pvParam
  | .unmapDeviceClassMemory => unmapDeviceClassMemoryCallBack s x.pvParam

def release (s : Maps) (p : ℕ) : Option Maps := do
  let x ← s.items p
  callBack { s with items := Function.update s.items p none } x

inductive MapOp where
  | alloc (c : AllocCall)
  | wrap (c : WrapCall)
  | map (c : MapCall)
  | mapClass (c : ClassCall)
  | exportMem (memInfo : ℕ)
  | release (item : ℕ)

def mapStep (s : Maps) : MapOp → Option (Except PvrsrvError ℕ × Maps)
  | .alloc c => allocDeviceMemKM s c
  | .wrap c => wrapExtMemory s c
  | .map c => mapDeviceMemory s c
  | .mapClass c => mapDeviceClassMemory s c
  | .exportMem m => (exportDeviceMem s m).map fun s => (.ok 0, s)
  | .release p => (release s p).map fun s => (.ok 0, s)

end PvrServices.MapMemory
