import PvrServices.HashTable
import PvrServices.ResmanRegistry

set_option autoImplicit false

/-!
# Device memory

`devicemem.c`, over the resource manager and the hash table of the sync infos. What the buffer
manager and the operating-system layer answer comes with each call; memory that they hand out is
named by its address. Following an address at which there is nothing has no answer.
-/
namespace PvrServices.Devmem
open HashTable Resman Words

structure KernelSyncInfo where
  physAddr : ℕ
  refcount : ℕ
deriving DecidableEq, Repr

/-- `struct PVRSRV_KERNEL_MEM_INFO`; `exported` is `PVRSRV_MEM_EXPORTED` in its flags. -/
structure KernelMemInfo where
  exported : Bool
  refCount : ℕ
  hResItem : Option ℕ
  psKernelSyncInfo : Option ℕ
deriving DecidableEq, Repr

structure MapDeviceMemData where
  psMemInfo : ℕ
  psSrcMemInfo : ℕ
deriving DecidableEq, Repr

/-- `kernelHandles` are the handles of `KERNEL_HANDLE_BASE` to memory infos. -/
structure DeviceMem where
  memInfos : ℕ → Option KernelMemInfo
  syncInfos : ℕ → Option KernelSyncInfo
  mapData : ℕ → Option MapDeviceMemData
  syncTable : Table (List ℕ)
  kernelHandles : List (ℕ × ℕ)
  os : Os

def deviceMemInit (os : Os) : DeviceMem :=
  ⟨fun _ => none, fun _ => none, fun _ => none, ⟨fun _ => [], 32, 0, 32⟩, [], os⟩

def DeviceMem.setMem (s : DeviceMem) (m : ℕ) (i : KernelMemInfo) : DeviceMem :=
  { s with memInfos := Function.update s.memInfos m (some i) }

def DeviceMem.setSync (s : DeviceMem) (y : ℕ) (i : KernelSyncInfo) : DeviceMem :=
  { s with syncInfos := Function.update s.syncInfos y (some i) }

def DeviceMem.freeMem (s : DeviceMem) (m : ℕ) : Option DeviceMem :=
  if (s.memInfos m).isSome then some { s with memInfos := Function.update s.memInfos m none }
  else none

def DeviceMem.freeMapData (s : DeviceMem) (q : ℕ) : Option DeviceMem :=
  if (s.mapData q).isSome then some { s with mapData := Function.update s.mapData q none }
  else none

def pvrsrvFreeSyncInfoKM (s : DeviceMem) (y : ℕ) : Option DeviceMem :=
  if (s.syncInfos y).isSome then some { s with syncInfos := Function.update s.syncInfos y none }
  else none

def getSyncinfo (s : DeviceMem) (y : ℕ) : Option DeviceMem := do
  let i ← s.syncInfos y
  some (s.setSync y { i with refcount := u32 (i.refcount + 1) })

def putSyncinfo (s : DeviceMem) (y : ℕ) : Option DeviceMem := do
  let i ← s.syncInfos y
  let i := { i with refcount := u32Sub i.refcount 1 }
  let s := s.setSync y i
  if i.refcount = 0 then
    let (_, table, os) := hashRemoveExtended hashFuncDefault s.os s.syncTable [i.physAddr]
    pvrsrvFreeSyncInfoKM { s with syncTable := table, os := os } y
  else some s

def allocOrReuseSyncinfo (s : DeviceMem) (physAddr : ℕ) (mem : Option ℕ) :
    Option (Except PvrsrvError ℕ × DeviceMem) :=
  let syncinfo := hashRetrieveExtended hashFuncDefault s.syncTable [physAddr]
  if syncinfo = 0 then
    match mem with
    | none => some (.error .errorOutOfMemory, s)
    | some y =>
      let s := s.setSync y ⟨physAddr, 1⟩
      let (inserted, table, os) :=
        hashInsertExtended hashFuncDefault s.os s.syncTable [physAddr] y
      let s := { s with syncTable := table, os := os }
      if inserted then some (.ok y, s) else some (.error .errorGeneric, s)
  else do
    let s ← getSyncinfo s syncinfo
    some (.ok syncinfo, s)

def pfnFreeDeviceMem : ℕ := 1

def pfnUnwrapExtMemory : ℕ := 2

def pfnUnmapDeviceMemory : ℕ := 3

def freeDeviceMem (s : DeviceMem) (m : ℕ) : Option DeviceMem := s.freeMem m

def freeDeviceMemCallBack (s : DeviceMem) (m : ℕ) : Option (PvrsrvError × DeviceMem) := do
  let i ← s.memInfos m
  let i := { i with refCount := u32Sub i.refCount 1 }
  let s := s.setMem m i
  let (e, s) :=
    if i.exported then
      if i.refCount ≠ 0 then (PvrsrvError.errorGeneric, s)
      else
        match s.kernelHandles.find? fun h => h.2 = m with
        | none => (PvrsrvError.errorGeneric, s)
        | some h => (PvrsrvError.ok, { s with kernelHandles := s.kernelHandles.erase h })
    else (PvrsrvError.ok, s)
  if e ≠ .ok then some (e, s)
  else do
    let s ← (match i.psKernelSyncInfo with
      | none => some s
      | some y => pvrsrvFreeSyncInfoKM s y)
    let s ← freeDeviceMem s m
    some (.ok, s)

def unwrapExtMemoryCallBack (s : DeviceMem) (m : ℕ) : Option DeviceMem := do
  let i ← s.memInfos m
  let s ← (match i.psKernelSyncInfo with
    | none => some s
    | some y => putSyncinfo s y)
  freeDeviceMem (s.setMem m { i with refCount := u32Sub i.refCount 1 }) m

def unmapDeviceMemoryCallBack (s : DeviceMem) (q : ℕ) : Option DeviceMem := do
  let d ← s.mapData q
  let s ← freeDeviceMem s d.psMemInfo
  let src ← s.memInfos d.psSrcMemInfo
  (s.setMem d.psSrcMemInfo { src with refCount := u32Sub src.refCount 1 }).freeMapData q

def devmemCallBack (call : Call) (s : DeviceMem) : Option DeviceMem :=
  if call.pfnFreeResource = pfnFreeDeviceMem then
    (freeDeviceMemCallBack s call.pvParam).map Prod.snd
  else if call.pfnFreeResource = pfnUnwrapExtMemory then unwrapExtMemoryCallBack s call.pvParam
  else if call.pfnFreeResource = pfnUnmapDeviceMemory then
    unmapDeviceMemoryCallBack s call.pvParam
  else none

structure DevmemSys where
  res : ResList
  mem : DeviceMem

def devmemInit (os : Os) : DevmemSys := ⟨resManInit, deviceMemInit os⟩

/-- A call of `PVRSRVWrapExtMemoryKM` and what it gets on its way: the memory for the page list,
    the first page that `OSAcquirePhysPageAddr` finds at `pvLinAddr`, the mapping heap, the memory
    info, the buffer, the sync info and the item. -/
structure WrapCall where
  pvLinAddr : Bool
  psExtSysPAddr : Option ℕ
  pageList : Bool
  acquired : Option ℕ
  heap : Bool
  memInfo : Option ℕ
  wrapped : Bool
  syncInfo : Option ℕ
  resItem : Option ℕ
deriving DecidableEq, Repr

def WrapCall.sysPAddr (w : WrapCall) : Except PvrsrvError ℕ :=
  if w.pvLinAddr then
    if !w.pageList then .error .errorOutOfMemory
    else
      match w.acquired with
      | none => .error .errorOutOfMemory
      | some a => .ok a
  else
    match w.psExtSysPAddr with
    | none => .error .errorInvalidParams
    | some a => .ok a

def pvrsrvWrapExtMemoryKM (x : DevmemSys) (c : ℕ) (w : WrapCall) :
    Option (Except PvrsrvError ℕ × DevmemSys) :=
  match w.sysPAddr with
  | .error e => some (.error e, x)
  | .ok physAddr =>
    if !w.heap then some (.error .errorGeneric, x)
    else
      match w.memInfo with
      | none => some (.error .errorOutOfMemory, x)
      | some m =>
        let mem := x.mem.setMem m ⟨false, 0, none, none⟩
        if !w.wrapped then do
          let mem ← mem.freeMem m
          some (.error .errorBadMapping, { x with mem := mem })
        else do
          match ← allocOrReuseSyncinfo mem physAddr w.syncInfo with
          | (.error e, mem) =>
            let mem ← freeDeviceMem mem m
            some (.error e, { x with mem := mem })
          | (.ok y, mem) =>
            let (item, res) ←
              resManRegisterRes x.res c .devicememWrap m 0 pfnUnwrapExtMemory w.resItem
            some (.ok m, ⟨res, mem.setMem m ⟨false, 1, item, some y⟩⟩)

def pvrsrvUnwrapExtMemoryKM (x : DevmemSys) (m : ℕ) : Option DevmemSys := do
  let i ← x.mem.memInfos m
  let p ← i.hResItem
  let (res, mem) ← freeHosted devmemCallBack x.res x.mem p
  some ⟨res, mem⟩

def devmemDisconnect (x : DevmemSys) (c : ℕ) : Option DevmemSys := do
  let (res, mem) ← disconnectHosted devmemCallBack x.res x.mem c
  some ⟨res, mem⟩

end PvrServices.Devmem
