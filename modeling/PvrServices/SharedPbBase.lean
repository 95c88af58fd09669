import PvrServices.ResmanRegistry
import PvrServices.Words

set_option autoImplicit false

/-!
# The shared parameter buffer

`pb.c`, over the resource manager. There is one SGX device, so one list of descriptors. Processes
are named by their contexts, memory by its address; what the calls allocate comes with them.
Freeing what is not there has no answer.
-/
namespace PvrServices.SharedPb
open Resman Words

/-- The calls that make memory infos. -/
inductive MemKind where
  | allocDeviceMem
  | allocSharedSysMem
  | mapDeviceMemory
  | mapDeviceClassMemory
  | wrapExtMemory
deriving DecidableEq, Repr

/-- `struct PVRSRV_KERNEL_MEM_INFO`, with the call that made it; `exported` is the flag
    `PVRSRV_MEM_EXPORTED`, and `inKernelBase` whether `KERNEL_HANDLE_BASE` has a handle to it. -/
structure KernelMemInfo where
  hResItem : Option ℕ
  kind : MemKind
  exported : Bool
  inKernelBase : Bool
  ui32RefCount : ℕ
deriving DecidableEq, Repr

def KernelMemInfo.shared (i : KernelMemInfo) : Bool := i.kind = .allocSharedSysMem

structure StubPbDesc where
  ui32RefCount : ℕ
  ui32TotalPBSize : ℕ
  psSharedPBDescKernelMemInfo : ℕ
  psHWPBDescKernelMemInfo : ℕ
  psBlockKernelMemInfo : ℕ
  ppsSubKernelMemInfos : List ℕ
deriving DecidableEq, Repr

/-- The two lock variables of the file, the list of the device, and the memory. -/
structure PbState where
  psResItemCreateSharedPB : Option ℕ
  psPerProcCreateSharedPB : Option ℕ
  psStubPBDescListKM : List ℕ
  stubs : ℕ → Option StubPbDesc
  memInfos : ℕ → Option KernelMemInfo

def PbState.setStub (s : PbState) (b : ℕ) (stub : StubPbDesc) : PbState :=
  { s with stubs := Function.update s.stubs b (some stub) }

def PbState.pushStub (s : PbState) (b : ℕ) : PbState :=
  { s with psStubPBDescListKM := b :: s.psStubPBDescListKM }

def PbState.setMem (s : PbState) (m : ℕ) (i : KernelMemInfo) : PbState :=
  { s with memInfos := Function.update s.memInfos m (some i) }

def PbState.freeStub (s : PbState) (b : ℕ) : Option PbState :=
  if (s.stubs b).isSome then some { s with stubs := Function.update s.stubs b none } else none

def PbState.freeMem (s : PbState) (m : ℕ) : Option PbState :=
  if (s.memInfos m).isSome then some { s with memInfos := Function.update s.memInfos m none }
  else none

def pfnFreeDeviceMemCallBack : ℕ := 1

def pfnFreeSharedSysMemCallBack : ℕ := 2

def pfnSGXCleanupSharedPBDescCallback : ℕ := 3

def pfnSGXCleanupSharedPBDescCreateLockCallback : ℕ := 4

def pfnUnmapDeviceMemoryCallBack : ℕ := 5

def pfnUnmapDeviceClassMemoryCallBack : ℕ := 6

def pfnUnwrapExtMemoryCallBack : ℕ := 7

def MemKind.resType : MemKind → ResmanType
  | .allocDeviceMem => .devicememAllocation
  | .allocSharedSysMem => .sharedMemInfo
  | .mapDeviceMemory => .devicememMapping
  | .mapDeviceClassMemory => .deviceclassmemMapping
  | .wrapExtMemory => .devicememWrap

def MemKind.pfnFreeResource : MemKind → ℕ
  | .allocDeviceMem => pfnFreeDeviceMemCallBack
  | .allocSharedSysMem => pfnFreeSharedSysMemCallBack
  | .mapDeviceMemory => pfnUnmapDeviceMemoryCallBack
  | .mapDeviceClassMemory => pfnUnmapDeviceClassMemoryCallBack
  | .wrapExtMemory => pfnUnwrapExtMemoryCallBack

/-- `ui32RefCount` at first. -/
def MemKind.refs : MemKind → ℕ
  | .allocDeviceMem | .wrapExtMemory => 1
  | .allocSharedSysMem | .mapDeviceMemory | .mapDeviceClassMemory => 0

/-- Exported memory that is still mapped, or that was not exported with a handle, is refused. -/
def freeDeviceMemCallBack (s : PbState) (m : ℕ) : Option PbState := do
  let i ← s.memInfos m
  let i := { i with ui32RefCount := u32Sub i.ui32RefCount 1 }
  if i.exported && (i.ui32RefCount ≠ 0 || !i.inKernelBase) then some (s.setMem m i)
  else s.freeMem m

def freeSharedSysMemCallBack (s : PbState) (m : ℕ) : Option PbState := s.freeMem m

/-- The callbacks of mappings and wraps; that the memory mapped counts one less is a call of its
    own. -/
def unmapCallBack (s : PbState) (m : ℕ) : Option PbState := s.freeMem m

/-- The free functions on memory that has no item, as what the descriptor holds has none: with an
    item they would enter the manager again. -/
def freeDissociated (callBack : PbState → ℕ → Option PbState) (s : PbState) (m : ℕ) :
    Option PbState := do
  let i ← s.memInfos m
  if i.hResItem.isSome then none else callBack s m

/-- What the last reference frees. The clean-up request to the microkernel is left out. -/
def freeDescriptor (s : PbState) (b : ℕ) (stub : StubPbDesc) : Option PbState := do
  let s ← stub.ppsSubKernelMemInfos.foldlM (freeDissociated freeDeviceMemCallBack) s
  let s ← freeDissociated freeSharedSysMemCallBack s stub.psBlockKernelMemInfo
  let s ← freeDissociated freeDeviceMemCallBack s stub.psHWPBDescKernelMemInfo
  let s ← freeDissociated freeSharedSysMemCallBack s stub.psSharedPBDescKernelMemInfo
  s.freeStub b

def sgxCleanupSharedPBDescKM (s : PbState) (b : ℕ) : Option PbState := do
  let stub ← s.stubs b
  if b ∈ s.psStubPBDescListKM then
    let stub := { stub with ui32RefCount := u32Sub stub.ui32RefCount 1 }
    let s := s.setStub b stub
    if stub.ui32RefCount = 0 then
      freeDescriptor { s with psStubPBDescListKM := s.psStubPBDescListKM.erase b } b stub
    else some s
  else some s

def sgxCleanupSharedPBDescCreateLockCallback (s : PbState) : PbState :=
  { s with psPerProcCreateSharedPB := none, psResItemCreateSharedPB := none }

def pbCallBack (call : Call) (s : PbState) : Option PbState :=
  if call.pfnFreeResource = pfnFreeDeviceMemCallBack then freeDeviceMemCallBack s call.pvParam
  else if call.pfnFreeResource = pfnFreeSharedSysMemCallBack then
    freeSharedSysMemCallBack s call.pvParam
  else if call.pfnFreeResource = pfnSGXCleanupSharedPBDescCallback then
    sgxCleanupSharedPBDescKM s call.pvParam
  else if call.pfnFreeResource = pfnSGXCleanupSharedPBDescCreateLockCallback then
    some (sgxCleanupSharedPBDescCreateLockCallback s)
  else if call.pfnFreeResource ∈ [pfnUnmapDeviceMemoryCallBack, pfnUnmapDeviceClassMemoryCallBack,
      pfnUnwrapExtMemoryCallBack] then unmapCallBack s call.pvParam
  else none

structure Pb where
  res : ResList
  pb : PbState

def resFree (x : Pb) (p : ℕ) : Option Pb := do
  let (res, pb) ← freeHosted pbCallBack x.res x.pb p
  some ⟨res, pb⟩

/-- The item of the memory is freed, or its callback is called where it has none. -/
def freeInfo (callBack : PbState → ℕ → Option PbState) (x : Pb) (m : ℕ) : Option Pb := do
  let i ← x.pb.memInfos m
  match i.hResItem with
  | some p => resFree x p
  | none => do
    let pb ← callBack x.pb m
    some { x with pb := pb }

def pvrsrvFreeDeviceMemKM : Pb → ℕ → Option Pb := freeInfo freeDeviceMemCallBack

def pvrsrvFreeSharedSysMemoryKM : Pb → ℕ → Option Pb := freeInfo freeSharedSysMemCallBack

def pvrsrvDissociateMemFromResmanKM (x : Pb) (m : ℕ) : Option Pb := do
  let i ← x.pb.memInfos m
  match i.hResItem with
  | none => some x
  | some p => do
    let res ← resManDissociateRes x.res p none
    some ⟨res, x.pb.setMem m { i with hResItem := none }⟩

def memRegistration (c : ℕ) (kind : MemKind) (m : ℕ) : Registration :=
  ⟨c, kind.resType, m, 0, kind.pfnFreeResource⟩

/-- The flags `PVRSRV_MEM_EXPORTED` and `PVRSRV_MEM_NO_RESMAN` of `ui32Attribs`. -/
structure MemAttribs where
  exported : Bool
  noResman : Bool
deriving DecidableEq, Repr

def newInfo (kind : MemKind) (attribs : MemAttribs) (item : Option ℕ) : KernelMemInfo :=
  ⟨item, kind, kind = .allocDeviceMem && attribs.exported, false, kind.refs⟩

/-- A call that makes a memory info, when there is memory. Only `PVRSRVAllocDeviceMemKM` looks at the
    flags, and whether it has its item. -/
def allocInfo (x : Pb) (c : ℕ) (kind : MemKind) (attribs : MemAttribs) (m : ℕ)
    (resItem : Option ℕ) : Option (Except PvrsrvError ℕ × Pb) :=
  if kind = .allocDeviceMem && attribs.noResman then
    some (.ok m, { x with pb := x.pb.setMem m (newInfo kind attribs none) })
  else do
    let g := memRegistration c kind m
    let (item, res) ← resManRegisterRes x.res c g.resType g.pvParam g.ui32Param g.pfnFreeResource
      resItem
    if item.isNone && kind = .allocDeviceMem then some (.error .errorOutOfMemory, x)
    else some (.ok m, ⟨res, x.pb.setMem m (newInfo kind attribs item)⟩)

structure FindCall where
  bLockOnFailure : Bool
  subMem : Bool
  resItem : Option ℕ

structure Found where
  hSharedPBDesc : ℕ
  psSharedPBDescKernelMemInfo : ℕ
  psHWPBDescKernelMemInfo : ℕ
  psBlockKernelMemInfo : ℕ
  ppsSubKernelMemInfos : List ℕ
deriving DecidableEq, Repr

def sgxFindSharedPBDescKM (x : Pb) (c : ℕ) (call : FindCall) :
    Option (Except PvrsrvError (Option Found) × Pb) :=
  match x.pb.psStubPBDescListKM with
  | b :: _ =>
    if !call.subMem then some (.error .errorOutOfMemory, x)
    else do
      let (item, res) ← resManRegisterRes x.res c .sharedPbDesc b 0
        pfnSGXCleanupSharedPBDescCallback call.resItem
      match item with
      | none => some (.error .errorGeneric, x)
      | some p => do
        let stub ← x.pb.stubs b
        some (.ok (some ⟨p, stub.psSharedPBDescKernelMemInfo, stub.psHWPBDescKernelMemInfo,
          stub.psBlockKernelMemInfo, stub.ppsSubKernelMemInfos⟩),
          ⟨res, x.pb.setStub b { stub with ui32RefCount := u32 (stub.ui32RefCount + 1) }⟩)
  | [] =>
    if !call.bLockOnFailure then some (.ok none, x)
    else if x.pb.psResItemCreateSharedPB.isNone then do
      let (item, res) ← resManRegisterRes x.res c .sharedPbDescCreateLock c 0
        pfnSGXCleanupSharedPBDescCreateLockCallback call.resItem
      let pb := { x.pb with psResItemCreateSharedPB := item }
      if item.isNone then some (.error .errorGeneric, ⟨res, pb⟩)
      else some (.ok none, ⟨res, { pb with psPerProcCreateSharedPB := some c }⟩)
    else some (.error .errorProcessingBlocked, x)

def sgxUnrefSharedPBDescKM (x : Pb) (hSharedPBDesc : ℕ) : Option Pb := resFree x hSharedPBDesc

/-- `stubMem` and `subMem` are the memory for the descriptor and for its array. -/
structure AddCall where
  psSharedPBDescKernelMemInfo : ℕ
  psHWPBDescKernelMemInfo : ℕ
  psBlockKernelMemInfo : ℕ
  ui32TotalPBSize : ℕ
  ppsSharedPBDescSubKernelMemInfos : List ℕ
  stubMem : Option ℕ
  subMem : Bool
  resItem : Option ℕ

def noAddKeepPB (x : Pb) (call : AddCall) (r : Except PvrsrvError ℕ) :
    Option (Except PvrsrvError ℕ × Pb) := do
  let x ← call.ppsSharedPBDescSubKernelMemInfos.foldlM pvrsrvFreeDeviceMemKM x
  let x ← pvrsrvFreeSharedSysMemoryKM x call.psSharedPBDescKernelMemInfo
  let x ← pvrsrvFreeDeviceMemKM x call.psHWPBDescKernelMemInfo
  let x ← pvrsrvFreeSharedSysMemoryKM x call.psBlockKernelMemInfo
  some (r, x)

def noAdd (x : Pb) (call : AddCall) (psStubPBDesc : Option ℕ) (e : PvrsrvError) :
    Option (Except PvrsrvError ℕ × Pb) := do
  let pb ← (match psStubPBDesc with
    | none => some x.pb
    | some b => x.pb.freeStub b)
  noAddKeepPB { x with pb := pb } call (.error e)

def fillStub (x : Pb) (call : AddCall) (b : ℕ) : Option Pb := do
  let x ← pvrsrvDissociateMemFromResmanKM x call.psSharedPBDescKernelMemInfo
  let x ← pvrsrvDissociateMemFromResmanKM x call.psHWPBDescKernelMemInfo
  let x ← pvrsrvDissociateMemFromResmanKM x call.psBlockKernelMemInfo
  let x ← call.ppsSharedPBDescSubKernelMemInfos.foldlM pvrsrvDissociateMemFromResmanKM x
  some { x with pb := x.pb.setStub b ⟨1, call.ui32TotalPBSize, call.psSharedPBDescKernelMemInfo,
    call.psHWPBDescKernelMemInfo, call.psBlockKernelMemInfo,
    call.ppsSharedPBDescSubKernelMemInfos⟩ }

def registerShared (x : Pb) (c b : ℕ) (call : AddCall) : Option (Option ℕ × Pb) := do
  let (item, res) ← resManRegisterRes x.res c .sharedPbDesc b 0 pfnSGXCleanupSharedPBDescCallback
    call.resItem
  some (item, { x with res := res })

def releaseLock (x : Pb) : Option Pb := do
  let p ← x.pb.psResItemCreateSharedPB
  resFree x p

def Pb.newStub (x : Pb) (b : ℕ) : Pb := { x with pb := x.pb.setStub b ⟨0, 0, 0, 0, 0, []⟩ }

def addExisting (x : Pb) (c b : ℕ) (call : AddCall) : Option (Except PvrsrvError ℕ × Pb) := do
  let (item, x) ← registerShared x c b call
  match item with
  | none => noAddKeepPB x call (.error .errorGeneric)
  | some p => do
    let stub ← x.pb.stubs b
    let stub := { stub with ui32RefCount := u32 (stub.ui32RefCount + 1) }
    noAddKeepPB { x with pb := x.pb.setStub b stub } call (.ok p)

/-- The descriptor that was filled in goes on the list if it has its item. -/
def pushDescriptor (call : AddCall) (b : ℕ) :
    Option ℕ × Pb → Option (Except PvrsrvError ℕ × Pb)
  | (none, x) => noAdd x call (some b) .errorGeneric
  | (some p, x) => some (.ok p, { x with pb := x.pb.pushStub b })

def addNew (x : Pb) (c : ℕ) (call : AddCall) : Option (Except PvrsrvError ℕ × Pb) :=
  match call.stubMem with
  | none => noAdd x call none .errorOutOfMemory
  | some b =>
    if !call.subMem then noAdd (x.newStub b) call (some b) .errorOutOfMemory
    else do
      let x ← fillStub (x.newStub b) call b
      let r ← registerShared x c b call
      pushDescriptor call b r

def sgxAddSharedPBDescKM (x : Pb) (c : ℕ) (call : AddCall) :
    Option (Except PvrsrvError ℕ × Pb) :=
  if x.pb.psPerProcCreateSharedPB ≠ some c then noAdd x call none .errorGeneric
  else do
    let x ← releaseLock x
    match x.pb.psStubPBDescListKM with
    | b :: _ => addExisting x c b call
    | [] => addNew x c call

def registering (x : Pb) (c : ℕ) (call : AddCall) : Option Pb :=
  if x.pb.psPerProcCreateSharedPB ≠ some c then none
  else do
    let x ← releaseLock x
    match x.pb.psStubPBDescListKM with
    | _ :: _ => some x
    | [] =>
      let b ← call.stubMem
      if !call.subMem then none else fillStub (x.newStub b) call b

/-- Next to the driver: the process to which memory belongs, how often it is mapped, the memory of
    the host control of the device, and the processes that `SGXGetInternalDevInfoBW` has given a
    shared handle to it. -/
structure PbSys where
  km : Pb
  handles : ℕ → Option ℕ
  mappings : ℕ → ℕ
  psKernelSGXHostCtlMemInfo : Option ℕ
  internalDevInfo : ℕ → Bool

/-- `devInitPart2` comes for memory that was allocated for the context of the device. -/
inductive PbOp where
  | connect (perProc : ℕ) (mem : Option ℕ)
  | alloc (c : ℕ) (kind : MemKind) (attribs : MemAttribs) (m : ℕ) (resItem : Option ℕ)
  | free (m : ℕ)
  | exportDeviceMem (c m : ℕ)
  | mapDeviceMemory (m : ℕ)
  | unmapDeviceMemory (m : ℕ)
  | devInitPart2 (m : ℕ)
  | getInternalDevInfo (c : ℕ)
  | find (c : ℕ) (call : FindCall)
  | add (c : ℕ) (call : AddCall)
  | unref (c hSharedPBDesc : ℕ)
  | exit (c : ℕ)

inductive PbReply where
  | connected (answer : Except PvrsrvError ℕ)
  | allocated (answer : Except PvrsrvError ℕ)
  | found (answer : Except PvrsrvError (Option Found))
  | added (answer : Except PvrsrvError ℕ)
  | refused
  | done

def AddCall.infos (call : AddCall) : List ℕ :=
  call.ppsSharedPBDescSubKernelMemInfos ++ [call.psSharedPBDescKernelMemInfo,
    call.psHWPBDescKernelMemInfo, call.psBlockKernelMemInfo]

def PbSys.release (x : PbSys) (infos : List ℕ) : ℕ → Option ℕ :=
  fun m => if m ∈ infos then none else x.handles m

def PbSys.setInfo (x : PbSys) (m : ℕ) (i : KernelMemInfo) : PbSys :=
  { x with km := { x.km with pb := x.km.pb.setMem m i } }

def pbStep (x : PbSys) : PbOp → Option (PbReply × PbSys)
  | .connect perProc mem => (pvrsrvResManConnect x.km.res perProc mem).map fun r =>
    (.connected r.1, { x with km := { x.km with res := r.2 } })
  | .alloc c kind attribs m resItem => (allocInfo x.km c kind attribs m resItem).map fun r =>
    (.allocated r.1, { x with
      km := r.2
      handles := match r.1 with
        | .ok m => Function.update x.handles m (some c)
        | .error _ => x.handles })
  | .free m => do
    let i ← x.km.pb.memInfos m
    -- only `PVRSRVFreeDeviceMemBW` looks at the count
    if i.kind = .allocDeviceMem && i.ui32RefCount ≠ 1 then some (.refused, x)
    else
      let km ← (if i.shared then pvrsrvFreeSharedSysMemoryKM x.km m
        else pvrsrvFreeDeviceMemKM x.km m)
      some (.done, { x with km := km, handles := x.release [m] })
  | .exportDeviceMem _ m => (x.km.pb.memInfos m).map fun i =>
    (.done, if i.inKernelBase then x
      else x.setInfo m { i with exported := true, inKernelBase := true })
  | .mapDeviceMemory m => (x.km.pb.memInfos m).map fun i =>
    (.done, { x.setInfo m { i with ui32RefCount := u32 (i.ui32RefCount + 1) } with
      mappings := Function.update x.mappings m (x.mappings m + 1) })
  | .unmapDeviceMemory m => (x.km.pb.memInfos m).map fun i =>
    (.done, { x.setInfo m { i with ui32RefCount := u32Sub i.ui32RefCount 1 } with
      mappings := Function.update x.mappings m (x.mappings m - 1) })
  | .devInitPart2 m => some (.done, { x with psKernelSGXHostCtlMemInfo := some m })
  | .getInternalDevInfo c =>
    some (.done, { x with internalDevInfo := Function.update x.internalDevInfo c true })
  | .find c call =>
    (sgxFindSharedPBDescKM x.km c call).map fun r => (.found r.1, { x with km := r.2 })
  | .add c call => (sgxAddSharedPBDescKM x.km c call).map fun r =>
    (.added r.1, { x with km := r.2, handles := x.release call.infos })
  | .unref _ p => (sgxUnrefSharedPBDescKM x.km p).map fun km => (.done, { x with km := km })
  | .exit c => do
    let (res, pb) ← disconnectHosted pbCallBack x.km.res x.km.pb c
    some (.done, { x with
      km := ⟨res, pb⟩
      handles := fun m => (x.handles m).filter fun d => d ≠ c
      internalDevInfo := Function.update x.internalDevInfo c false })

def pbInit : PbSys :=
  ⟨⟨resManInit, none, none, [], fun _ => none, fun _ => none⟩, fun _ => none, fun _ => 0, none,
    fun _ => false⟩

end PvrServices.SharedPb
