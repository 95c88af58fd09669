import Mathlib.Data.List.GetD
import Mathlib.Logic.Function.Basic
import PvrServices.Services
import PvrServices.Words

set_option autoImplicit false

/-!
# Mappings of memory areas into processes

`mmap.c`. A process asks for the offset that stands for a memory area and maps the area with
`mmap(2)` at that offset. The request is kept in an offset structure, at first on the global list
and on the list of its area, then held by the mappings alone. Structures, areas and mappings are
named by their addresses; a call that follows an address at which there is nothing, or unlinks an
item from a list that it is not on, has no answer.
-/
namespace PvrServices.Mmaps
open Words

def pageSize : ℕ := 4096

def lastPhysicalPfn : ℕ := 2147483647
def firstSpecialPfn : ℕ := lastPhysicalPfn + 1
def lastSpecialPfn : ℕ := 4294967295

def pfnIsPhysical (pfn : ℕ) : Bool := pfn ≤ lastPhysicalPfn

def pfnIsSpecial (pfn : ℕ) : Bool := firstSpecialPfn ≤ pfn && pfn ≤ lastSpecialPfn

def handleToMMapOffset (handle : ℕ) : ℕ :=
  if pfnIsSpecial handle then 0 else u32 (handle + firstSpecialPfn)

def pageAlign (n : ℕ) : ℕ := u32 (n + (pageSize - 1)) / pageSize * pageSize

/-- `eAreaType` and `uData`; an area that is not contiguous has the physical addresses of its
    pages, and an area within another one the data of that one. -/
inductive AreaData where
  | ioRemap (cpuPhysAddr : ℕ)
  | externalKvContig (sysPhysAddr : ℕ)
  | externalKv (sysPhysAddrs : List ℕ)
  | io (cpuPhysAddr : ℕ)
  | vmalloc (pages : List ℕ)
  | allocPages (pages : List ℕ)
  | subAlloc (parent : AreaData) (byteOffset : ℕ)
deriving DecidableEq, Repr

def linuxMemAreaToCpuPAddr : AreaData → ℕ → ℕ
  | .ioRemap addr, offset => u32 (addr + offset)
  | .externalKvContig addr, offset => u32 (addr + offset)
  | .io addr, offset => u32 (addr + offset)
  | .externalKv pages, offset => u32 (pages.getD (offset / pageSize) 0 + offset % pageSize)
  | .vmalloc pages, offset => u32 (pages.getD (offset / pageSize) 0 + offset % pageSize)
  | .allocPages pages, offset => u32 (pages.getD (offset / pageSize) 0 + offset % pageSize)
  | .subAlloc parent byteOffset, offset =>
    linuxMemAreaToCpuPAddr parent (u32 (byteOffset + offset))

def linuxMemAreaToCpuPfn (d : AreaData) (offset : ℕ) : ℕ :=
  linuxMemAreaToCpuPAddr d offset / pageSize

def linuxMemAreaPhysIsContig : AreaData → Bool
  | .ioRemap _ => true
  | .externalKvContig _ => true
  | .io _ => true
  | .externalKv _ => false
  | .vmalloc _ => false
  | .allocPages _ => false
  | .subAlloc parent _ => linuxMemAreaPhysIsContig parent

/-- The field of `ui32AreaFlags` under `PVRSRV_HAP_CACHETYPE_MASK`. -/
inductive CacheType where
  | cached
  | uncached
  | writeCombine
  | unknown
deriving DecidableEq, Repr

structure LinuxMemArea where
  data : AreaData
  byteSize : ℕ
  cacheType : CacheType
  mmapRegistered : Bool
  mmapOffsetStructList : List ℕ
deriving DecidableEq, Repr

/-- `DetermineUsersSizeAndByteOffset`: the size in whole pages, and the offset of the first byte. -/
def determineUsersSizeAndByteOffset (a : LinuxMemArea) : ℕ × ℕ :=
  let byteOffset := linuxMemAreaToCpuPAddr a.data 0 % pageSize
  (pageAlign (a.byteSize + byteOffset), byteOffset)

def checkSize (a : LinuxMemArea) (byteSize : ℕ) : Bool :=
  byteSize ≤ (determineUsersSizeAndByteOffset a).1

structure KvOffsetStruct where
  mapped : ℕ
  mmapOffset : ℕ
  realByteSize : ℕ
  linuxMemArea : ℕ
  tid : ℕ
  pid : ℕ
  onMMapList : Bool
  refCount : ℕ
  userVAddr : ℕ
deriving DecidableEq, Repr

/-- A live mapping: the fields of its `vm_area_struct`, and the pages put there. -/
structure Vma where
  ptr : ℕ
  vmStart : ℕ
  vmPgoff : ℕ
  privateData : ℕ
  pages : List ℕ
deriving DecidableEq, Repr

/-- What has become of the memory of the structures: `g_psMemmapCache`. -/
inductive CacheEvent where
  | alloc (p : ℕ)
  | free (p : ℕ)
deriving DecidableEq, Repr

structure MmapData where
  offsetStructs : ℕ → Option KvOffsetStruct
  areas : ℕ → Option LinuxMemArea
  mmapOffsetStructList : List ℕ
  mmapAreaList : List ℕ
  vmas : List Vma
  memmapCache : List CacheEvent

def mmapInit : MmapData := ⟨fun _ => none, fun _ => none, [], [], [], []⟩

def MmapData.setStruct (s : MmapData) (p : ℕ) (o : KvOffsetStruct) : MmapData :=
  { s with offsetStructs := Function.update s.offsetStructs p (some o) }

def MmapData.setArea (s : MmapData) (a : ℕ) (area : LinuxMemArea) : MmapData :=
  { s with areas := Function.update s.areas a (some area) }

def listDel (l : List ℕ) (p : ℕ) : Option (List ℕ) := if p ∈ l then some (l.erase p) else none

structure Task where
  pid : ℕ
  tid : ℕ
deriving DecidableEq, Repr

/-- The structure that is allocated at `p`; it is on the list of its area. -/
def createOffsetStruct (s : MmapData) (t : Task) (p a : ℕ) (area : LinuxMemArea)
    (offset realByteSize : ℕ) : MmapData :=
  let s := s.setStruct p ⟨0, offset, realByteSize, a, t.tid, t.pid, false, 0, 0⟩
  let s := s.setArea a { area with mmapOffsetStructList := area.mmapOffsetStructList ++ [p] }
  { s with memmapCache := s.memmapCache ++ [.alloc p] }

def destroyOffsetStruct (s : MmapData) (p : ℕ) : Option MmapData := do
  let o ← s.offsetStructs p
  let area ← s.areas o.linuxMemArea
  let items ← listDel area.mmapOffsetStructList p
  let global ←
    (if o.onMMapList then listDel s.mmapOffsetStructList p else some s.mmapOffsetStructList)
  let s := s.setArea o.linuxMemArea { area with mmapOffsetStructList := items }
  some { s with
    offsetStructs := Function.update s.offsetStructs p none
    mmapOffsetStructList := global
    memmapCache := s.memmapCache ++ [.free p] }

def findStruct (s : MmapData) (f : KvOffsetStruct → Bool) : List ℕ → Option (Option ℕ)
  | [] => some none
  | p :: ps =>
    match s.offsetStructs p with
    | none => none
    | some o => if f o then some (some p) else findStruct s f ps

structure MMapAnswer where
  mmapOffset : ℕ
  byteOffset : ℕ
  realByteSize : ℕ
  userVAddr : ℕ
deriving DecidableEq, Repr

/-- The offset of a new structure: the physical page where the area is contiguous, else the
    handle. -/
def newMMapOffset (area : LinuxMemArea) (handle : ℕ) : ℕ :=
  if linuxMemAreaPhysIsContig area.data then linuxMemAreaToCpuPfn area.data 0
  else handleToMMapOffset handle

/-- `PVRMMapOSMemHandleToMMapData`; `lookup` is the answer of `PVRSRVLookupOSMemHandle`, and
    `cache` that of the allocator. -/
def pvrMMapOSMemHandleToMMapData (s : MmapData) (perProc : ℕ) (t : Task) (handle : ℕ)
    (lookup : Except PvrsrvError ℕ) (cache : Option ℕ) :
    Option (Except PvrsrvError MMapAnswer × MmapData) :=
  match lookup with
  | .error e => some (.error e, s)
  | .ok a => do
    let area ← s.areas a
    let (realByteSize, byteOffset) := determineUsersSizeAndByteOffset area
    match ← findStruct s (fun o => o.pid = perProc) area.mmapOffsetStructList with
    | some p =>
      let o ← s.offsetStructs p
      some (.ok ⟨o.mmapOffset, byteOffset, realByteSize, o.userVAddr⟩,
        s.setStruct p { o with refCount := u32 (o.refCount + 1) })
    | none =>
      match cache with
      | none => some (.error .errorOutOfMemory, s)
      | some p =>
        let offset := newMMapOffset area handle
        let s := createOffsetStruct s t p a area offset realByteSize
        let o ← s.offsetStructs p
        let s := { s with mmapOffsetStructList := s.mmapOffsetStructList ++ [p] }
        some (.ok ⟨offset, byteOffset, realByteSize, 0⟩,
          s.setStruct p { o with onMMapList := true, refCount := u32 (o.refCount + 1) })

structure ReleaseAnswer where
  munmap : Bool
  realByteSize : ℕ
  userVAddr : ℕ
deriving DecidableEq, Repr

def pvrMMapReleaseMMapData (s : MmapData) (t : Task) (lookup : Except PvrsrvError ℕ) :
    Option (Except PvrsrvError ReleaseAnswer × MmapData) :=
  match lookup with
  | .error e => some (.error e, s)
  | .ok a => do
    let area ← s.areas a
    match ← findStruct s (fun o => o.pid = t.pid) area.mmapOffsetStructList with
    | none => some (.error .errorGeneric, s)
    | some p =>
      let o ← s.offsetStructs p
      if o.refCount = 0 then some (.error .errorGeneric, s)
      else
        let refCount := u32Sub o.refCount 1
        let munmap := decide (refCount = 0 ∧ o.userVAddr ≠ 0)
        some (.ok ⟨munmap, if munmap then o.realByteSize else 0, if munmap then o.userVAddr else 0⟩,
          s.setStruct p { o with refCount := refCount })

structure KernelMap where
  ioRemapPfnRange : Bool
  pfnValid : ℕ → Bool
  vmInsertPage : ℕ → Bool

/-- The pages that the second part of `DoMapToUser` puts into a mapping, each asked of the area. -/
def pagesOf (d : AreaData) (byteOffset byteSize : ℕ) : List ℕ :=
  (List.range ((u32 (byteOffset + byteSize) - byteOffset + (pageSize - 1)) / pageSize)).map
    fun i => linuxMemAreaToCpuPfn d (u32 (byteOffset + pageSize * i))

def doMapToUser (k : KernelMap) (pgoff byteSize : ℕ) : AreaData → ℕ → Option (List ℕ)
  | .subAlloc parent offset, byteOffset =>
    doMapToUser k pgoff byteSize parent (u32 (offset + byteOffset))
  | d, byteOffset =>
    if pfnIsPhysical pgoff && k.ioRemapPfnRange then
      some ((List.range (byteSize / pageSize)).map fun i => pgoff + i)
    else
      let pages := pagesOf d byteOffset byteSize
      if pages.all k.pfnValid && (List.range pages.length).all k.vmInsertPage then some pages
      else none

structure MmapCall where
  ptr : ℕ
  vmStart : ℕ
  vmEnd : ℕ
  vmPgoff : ℕ
  vmWrite : Bool
  vmShared : Bool
  kernel : KernelMap

def MmapCall.byteSize (v : MmapCall) : ℕ := u32Sub v.vmEnd v.vmStart

inductive Errno where
  | einval
  | eagain
deriving DecidableEq, Repr

/-- What `FindOffsetStructByOffset` asks of a structure. -/
def KvOffsetStruct.standsFor (o : KvOffsetStruct) (t : Task) (offset realByteSize : ℕ) : Bool :=
  offset = o.mmapOffset && realByteSize = o.realByteSize && o.pid = t.pid &&
    (!pfnIsPhysical offset || o.tid = t.tid)

def findOffsetStructByOffset (s : MmapData) (t : Task) (offset realByteSize : ℕ) :
    Option (Option ℕ) :=
  findStruct s (fun o => o.standsFor t offset realByteSize) s.mmapOffsetStructList

def mmapVOpenNoLock (s : MmapData) (v : Vma) : Option MmapData := do
  let o ← s.offsetStructs v.privateData
  let s := s.setStruct v.privateData { o with mapped := u32 (o.mapped + 1) }
  some { s with vmas := s.vmas ++ [v] }

/-- `MMapVCloseNoLock` for the mapping `v`; a reference count that is left is a debug message. -/
def mmapVCloseNoLock (s : MmapData) (v : Vma) : Option MmapData := do
  let o ← s.offsetStructs v.privateData
  let mapped := u32Sub o.mapped 1
  let s := s.setStruct v.privateData { o with mapped := mapped }
  let s := { s with vmas := s.vmas.erase v }
  if mapped = 0 then destroyOffsetStruct s v.privateData else some s

def failMMap (s : MmapData) (p : ℕ) (e : Errno) : Option (Except Errno Unit × MmapData) :=
  (destroyOffsetStruct s p).map fun s => (.error e, s)

def pvrMMap (s : MmapData) (t : Task) (v : MmapCall) : Option (Except Errno Unit × MmapData) :=
  if v.vmWrite && !v.vmShared then some (.error .einval, s)
  else do
    match ← findOffsetStructByOffset s t v.vmPgoff v.byteSize with
    | none => some (.error .einval, s)
    | some p =>
      let o ← s.offsetStructs p
      let global ← listDel s.mmapOffsetStructList p
      let o := { o with onMMapList := false }
      let s := { s.setStruct p o with mmapOffsetStructList := global }
      let area ← s.areas o.linuxMemArea
      if !checkSize area v.byteSize then failMMap s p .einval
      else if area.cacheType = .unknown then failMMap s p .einval
      else
        match doMapToUser v.kernel v.vmPgoff v.byteSize area.data 0 with
        | none => failMMap s p .eagain
        | some pages =>
          let s := s.setStruct p { o with userVAddr := v.vmStart }
          (mmapVOpenNoLock s ⟨v.ptr, v.vmStart, v.vmPgoff, p, pages⟩).map fun s => (.ok (), s)

def pvrMMapRegisterArea (s : MmapData) (a : ℕ) : Option (PvrsrvError × MmapData) := do
  let area ← s.areas a
  if area.mmapRegistered then some (.errorInvalidParams, s)
  else
    let s := s.setArea a { area with mmapRegistered := true }
    some (.ok, { s with mmapAreaList := s.mmapAreaList ++ [a] })

def removeStructs (s : MmapData) : List ℕ → Option (PvrsrvError × MmapData)
  | [] => some (.ok, s)
  | p :: ps =>
    match s.offsetStructs p with
    | none => none
    | some o =>
      if o.mapped ≠ 0 then some (.errorGeneric, s)
      else
        match destroyOffsetStruct s p with
        | none => none
        | some s => removeStructs s ps

def pvrMMapRemoveRegisteredArea (s : MmapData) (a : ℕ) : Option (PvrsrvError × MmapData) := do
  let area ← s.areas a
  let (e, s) ← removeStructs s area.mmapOffsetStructList
  if e ≠ .ok then some (e, s)
  else
    let areas ← listDel s.mmapAreaList a
    let area ← s.areas a
    let s := s.setArea a { area with mmapRegistered := false }
    some (.ok, { s with mmapAreaList := areas })

def disconnectStructs (s : MmapData) (pid : ℕ) : List ℕ → Option MmapData
  | [] => some s
  | p :: ps =>
    match s.offsetStructs p with
    | none => none
    | some o =>
      if o.pid = pid then
        match destroyOffsetStruct s p with
        | none => none
        | some s => disconnectStructs s pid ps
      else disconnectStructs s pid ps

def linuxMMapPerProcessDisconnect (s : MmapData) (t : Task) : Option MmapData :=
  disconnectStructs s t.pid s.mmapOffsetStructList

inductive MmapOp where
  | createArea (a : ℕ) (data : AreaData) (byteSize : ℕ) (cacheType : CacheType)
  | registerArea (a : ℕ)
  | removeArea (a : ℕ)
  | freeArea (a : ℕ)
  | toMMapData (t : Task) (handle : ℕ) (lookup : Except PvrsrvError ℕ) (cache : Option ℕ)
  | release (t : Task) (lookup : Except PvrsrvError ℕ)
  | mmap (t : Task) (v : MmapCall)
  | vmaOpen (v : Vma) (ptr : ℕ)
  | vmaClose (v : Vma)
  | disconnect (t : Task)

inductive MmapReply where
  | done
  | area (e : PvrsrvError)
  | data (answer : Except PvrsrvError MMapAnswer)
  | released (answer : Except PvrsrvError ReleaseAnswer)
  | mapped (answer : Except Errno Unit)

/-- One entry into the module. The areas are made and freed by `mm.c`; a second mapping gets
    `vm_private_data` from the first. -/
def mmapStep (s : MmapData) : MmapOp → Option (MmapReply × MmapData)
  | .createArea a data byteSize cacheType =>
    some (.done, s.setArea a ⟨data, byteSize, cacheType, false, []⟩)
  | .registerArea a => (pvrMMapRegisterArea s a).map fun r => (.area r.1, r.2)
  | .removeArea a => (pvrMMapRemoveRegisteredArea s a).map fun r => (.area r.1, r.2)
  | .freeArea a => some (.done, { s with areas := Function.update s.areas a none })
  | .toMMapData t handle lookup cache =>
    (pvrMMapOSMemHandleToMMapData s t.pid t handle lookup cache).map fun r => (.data r.1, r.2)
  | .release t lookup => (pvrMMapReleaseMMapData s t lookup).map fun r => (.released r.1, r.2)
  | .mmap t v => (pvrMMap s t v).map fun r => (.mapped r.1, r.2)
  | .vmaOpen v ptr => (mmapVOpenNoLock s { v with ptr := ptr }).map fun s => (.done, s)
  | .vmaClose v => (mmapVCloseNoLock s v).map fun s => (.done, s)
  | .disconnect t => (linuxMMapPerProcessDisconnect s t).map fun s => (.done, s)

def MmapData.registered (s : MmapData) (a : ℕ) : Bool :=
  (s.areas a).any fun area => area.mmapRegistered

/-- A new `vm_area_struct`, in the 32-bit address space of the kernel. -/
def MmapData.freshVma (s : MmapData) (ptr : ℕ) : Prop :=
  0 < ptr ∧ ptr < 4294967296 ∧ ∀ v ∈ s.vmas, v.ptr ≠ ptr

/-- What the callers keep to: memory that is handed out is not in use, the areas behind handles
    are registered, an area is freed when it is no longer registered, and the kernel opens and
    closes live mappings. -/
def Proper (s : MmapData) : MmapOp → Prop
  | .createArea a _ _ _ => s.areas a = none
  | .registerArea a => (s.areas a).isSome
  | .removeArea a => s.registered a
  | .freeArea a => (s.areas a).isSome ∧ ¬s.registered a
  | .toMMapData _ _ lookup cache =>
    (∀ a, lookup = .ok a → s.registered a) ∧ ∀ p, cache = some p → s.offsetStructs p = none
  | .release _ lookup => ∀ a, lookup = .ok a → s.registered a
  | .mmap _ v => s.freshVma v.ptr
  | .vmaOpen v ptr => v ∈ s.vmas ∧ s.freshVma ptr
  | .vmaClose v => v ∈ s.vmas
  | .disconnect _ => True

end PvrServices.Mmaps
