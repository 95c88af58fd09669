import PvrServices.HandleBase
import PvrServices.Tally

set_option autoImplicit false

/-!
# Kicks and transfers

`SGXDoKickKM` of `sgxkick.c` and `SGXSubmitTransferKM` of `sgxtransfer.c`, with the bridge
functions that look their handles up. A pointer is a number, `NULL` is 0. What
`SGXScheduleCCBCommandKM` answers comes with each call.
-/
namespace PvrServices.SgxKick
open Tally

/-- The addresses by which the device finds the counters of `struct PVRSRV_SYNC_DATA`. -/
inductive DevVAddr where
  | writeOpsComplete (psSyncData : ℕ)
  | readOpsComplete (psSyncData : ℕ)
deriving DecidableEq, Repr

structure KernelSyncInfo where
  psSyncData : ℕ
deriving DecidableEq, Repr

def KernelSyncInfo.sWriteOpsCompleteDevVAddr (i : KernelSyncInfo) : DevVAddr :=
  .writeOpsComplete i.psSyncData

def KernelSyncInfo.sReadOpsCompleteDevVAddr (i : KernelSyncInfo) : DevVAddr :=
  .readOpsComplete i.psSyncData

structure PendingOps where
  ui32WriteOpsPending : ℕ → BitVec 32
  ui32ReadOpsPending : ℕ → BitVec 32

def PendingOps.readAgain (p : PendingOps) (i : KernelSyncInfo) : PendingOps :=
  { p with ui32ReadOpsPending := countUp p.ui32ReadOpsPending i.psSyncData }

def PendingOps.writeAgain (p : PendingOps) (i : KernelSyncInfo) : PendingOps :=
  { p with ui32WriteOpsPending := countUp p.ui32WriteOpsPending i.psSyncData }

/-- The sync infos and the sizes of the memory infos that pointers lead to, and what a kick
    changes. -/
structure SgxServices where
  syncInfos : ℕ → KernelSyncInfo
  ui32AllocSize : ℕ → ℕ
  pending : PendingOps
  ui32KickTACounter : BitVec 32
  ui32KickTARenderCounter : BitVec 32

/-- `struct PVRSRV_DEVICE_SYNC_OBJECT`, and the same four fields wherever a command has them. -/
structure DeviceSyncObject where
  ui32ReadOpsPendingVal : BitVec 32
  sReadOpsCompleteDevVAddr : DevVAddr
  ui32WriteOpsPendingVal : BitVec 32
  sWriteOpsCompleteDevVAddr : DevVAddr
deriving DecidableEq, Repr

structure Ta3dDependency where
  ui32WriteOpsPendingVal : BitVec 32
  sWriteOpsCompleteDevVAddr : DevVAddr
deriving DecidableEq, Repr

structure CtlStatus where
  sStatusDevAddr : DevVAddr
  ui32StatusValue : BitVec 32
deriving DecidableEq, Repr

structure HwDeviceSyncList where
  ui32NumSyncObjects : ℕ
  asSyncData : Option DeviceSyncObject
deriving DecidableEq, Repr

/-- `struct SGXMKIF_CMDTA_SHARED`, the fields that a kick fills, with the list of its render
    target. -/
structure CmdTaShared where
  sTA3DDependency : Option Ta3dDependency
  taTqSync : Option DeviceSyncObject
  threeDTqSync : Option DeviceSyncObject
  sCtlTAStatusInfo : List CtlStatus
  sCtl3DStatusInfo : List CtlStatus
  asSrcSyncs : List DeviceSyncObject
  hwDeviceSyncList : Option HwDeviceSyncList
deriving DecidableEq, Repr

def sizeofCmdTaShared : ℕ := 396

structure TransfercmdShared where
  taSync : Option DeviceSyncObject
  threeDSync : Option DeviceSyncObject
  src : Option DeviceSyncObject
  dst : Option DeviceSyncObject
deriving DecidableEq, Repr

def sizeofTransfercmdShared : ℕ := 100

/-- The values that the counters have, with where the device finds them. -/
def deviceSyncObject (p : PendingOps) (i : KernelSyncInfo) : DeviceSyncObject where
  ui32ReadOpsPendingVal := p.ui32ReadOpsPending i.psSyncData
  sReadOpsCompleteDevVAddr := i.sReadOpsCompleteDevVAddr
  ui32WriteOpsPendingVal := p.ui32WriteOpsPending i.psSyncData
  sWriteOpsCompleteDevVAddr := i.sWriteOpsCompleteDevVAddr

def ccbOffsetIsValid (sizeofType allocSize offset : ℕ) : Bool :=
  sizeofType ≤ allocSize && offset ≤ allocSize - sizeofType

structure SgxCcbKick where
  hCCBKernelMemInfo : ℕ
  ui32NumDstSyncObjects : ℕ
  hKernelHWSyncListMemInfo : ℕ
  sDstSyncHandle : ℕ
  ui32NumTAStatusVals : ℕ
  ui32Num3DStatusVals : ℕ
  ahTAStatusSyncInfo : ℕ → ℕ
  ah3DStatusSyncInfo : ℕ → ℕ
  bFirstKickOrResume : Bool
  bKickRender : Bool
  ui32CCBOffset : ℕ
  ui32NumSrcSyncs : ℕ
  ahSrcKernelSyncInfo : ℕ → ℕ
  bTADependency : Bool
  hTA3DSyncInfo : ℕ
  hTASyncInfo : ℕ
  h3DSyncInfo : ℕ

def sgxMaxSrcSyncs : ℕ := 4

def sgxMaxTaStatusVals : ℕ := 32

def sgxMax3dStatusVals : ℕ := 2

/-- The counters are read before the write that a dependency announces. -/
def fillTa3d (s : SgxServices) (h : ℕ) (dependency : Bool) (p : PendingOps) :
    Option Ta3dDependency × PendingOps :=
  if h = 0 then (none, p)
  else
    let i := s.syncInfos h
    (some ⟨p.ui32WriteOpsPending i.psSyncData, i.sWriteOpsCompleteDevVAddr⟩,
      if dependency then p.writeAgain i else p)

def fillRead (s : SgxServices) (h : ℕ) (p : PendingOps) : Option DeviceSyncObject × PendingOps :=
  if h = 0 then (none, p)
  else (some (deviceSyncObject p (s.syncInfos h)), p.readAgain (s.syncInfos h))

/-- The destination of a kick, the TA and 3D entries of a transfer. -/
def fillWrite (s : SgxServices) (h : ℕ) (p : PendingOps) : Option DeviceSyncObject × PendingOps :=
  if h = 0 then (none, p)
  else (some (deviceSyncObject p (s.syncInfos h)), p.writeAgain (s.syncInfos h))

def fillStatus (s : SgxServices) (p : PendingOps) (h : ℕ) : CtlStatus :=
  ⟨(s.syncInfos h).sReadOpsCompleteDevVAddr, p.ui32ReadOpsPending (s.syncInfos h).psSyncData⟩

def fillSrcSyncs (s : SgxServices) :
    List ℕ → List ℕ → PendingOps → List DeviceSyncObject × PendingOps
  | _, [], p => ([], p)
  | before, h :: hs, p =>
    let i := s.syncInfos h
    if before.any fun tmp => (s.syncInfos tmp).psSyncData = i.psSyncData then
      fillSrcSyncs s (before ++ [h]) hs p
    else
      let rest := fillSrcSyncs s (before ++ [h]) hs (p.readAgain i)
      (deviceSyncObject p i :: rest.1, rest.2)

def fillDst (s : SgxServices) (k : SgxCcbKick) (p : PendingOps) :
    Option HwDeviceSyncList × PendingOps :=
  if k.bFirstKickOrResume && 0 < k.ui32NumDstSyncObjects then
    let dst := fillWrite s k.sDstSyncHandle p
    (some ⟨k.ui32NumDstSyncObjects, dst.1⟩, dst.2)
  else (none, p)

def firstEntries (n : ℕ) (a : ℕ → ℕ) : List ℕ := (List.range n).map a

def sgxDoKickFill (s : SgxServices) (k : SgxCcbKick) : CmdTaShared × PendingOps :=
  let ta3d := fillTa3d s k.hTA3DSyncInfo k.bTADependency s.pending
  let taTq := fillRead s k.hTASyncInfo ta3d.2
  let threeDTq := fillRead s k.h3DSyncInfo taTq.2
  let src := fillSrcSyncs s []
    (firstEntries (min sgxMaxSrcSyncs k.ui32NumSrcSyncs) k.ahSrcKernelSyncInfo) threeDTq.2
  let dst := fillDst s k src.2
  ({ sTA3DDependency := ta3d.1
     taTqSync := taTq.1
     threeDTqSync := threeDTq.1
     sCtlTAStatusInfo :=
      (firstEntries k.ui32NumTAStatusVals k.ahTAStatusSyncInfo).map (fillStatus s threeDTq.2)
     sCtl3DStatusInfo :=
      (firstEntries k.ui32Num3DStatusVals k.ah3DStatusSyncInfo).map (fillStatus s threeDTq.2)
     asSrcSyncs := src.1
     hwDeviceSyncList := dst.1 }, dst.2)

/-- What `SGXDoKickKM` takes back when it is told to retry. -/
def sgxDoKickUndo (s : SgxServices) (k : SgxCcbKick) (p : PendingOps) : PendingOps where
  ui32WriteOpsPending :=
    if k.bFirstKickOrResume && 0 < k.ui32NumDstSyncObjects && k.sDstSyncHandle ≠ 0 then
      countBack p.ui32WriteOpsPending (s.syncInfos k.sDstSyncHandle).psSyncData
    else p.ui32WriteOpsPending
  ui32ReadOpsPending := countAllBack p.ui32ReadOpsPending
    ((firstEntries k.ui32NumSrcSyncs k.ahSrcKernelSyncInfo).map fun h =>
      (s.syncInfos h).psSyncData)

/-- What a call leaves: the services, the command if one was submitted, and the answer. -/
structure KickResult (C : Type) where
  services : SgxServices
  command : Option C
  eError : PvrsrvError

def kickCounters (s : SgxServices) (k : SgxCcbKick) : SgxServices :=
  { s with
    ui32KickTARenderCounter := s.ui32KickTARenderCounter + if k.bKickRender then 1 else 0
    ui32KickTACounter := s.ui32KickTACounter + 1 }

def SgxServices.setPending (s : SgxServices) (p : PendingOps) : SgxServices :=
  { s with pending := p }

def sgxDoKickKM (s : SgxServices) (k : SgxCcbKick) (scheduled : PvrsrvError) :
    KickResult CmdTaShared :=
  let counted := kickCounters s k
  if !ccbOffsetIsValid sizeofCmdTaShared (s.ui32AllocSize k.hCCBKernelMemInfo)
      k.ui32CCBOffset then
    ⟨counted, none, .errorInvalidParams⟩
  else
    let filled := sgxDoKickFill counted k
    if scheduled = .errorRetry then
      ⟨counted.setPending (sgxDoKickUndo counted k filled.2), some filled.1, scheduled⟩
    else ⟨counted.setPending filled.2, some filled.1, scheduled⟩

structure TransferSgxKick where
  hCCBMemInfo : ℕ
  ui32SharedCmdCCBOffset : ℕ
  hTASyncInfo : ℕ
  h3DSyncInfo : ℕ
  ui32NumSrcSync : ℕ
  ahSrcSyncInfo : ℕ → ℕ
  ui32NumDstSync : ℕ
  ahDstSyncInfo : ℕ → ℕ
  ui32Flags : BitVec 32

def sgxMaxTransferSyncOps : ℕ := 5

def sgxmkifTqflagsKeeppending : BitVec 32 := 2

def TransferSgxKick.keepsPending (k : TransferSgxKick) : Bool :=
  k.ui32Flags &&& sgxmkifTqflagsKeeppending ≠ 0

/-- The first source and the first destination: both are read before either is counted. -/
def fillSrcDst (s : SgxServices) (k : TransferSgxKick) (p : PendingOps) :
    Option DeviceSyncObject × Option DeviceSyncObject × PendingOps :=
  if k.keepsPending then (none, none, p)
  else
    let src := s.syncInfos (k.ahSrcSyncInfo 0)
    let dst := s.syncInfos (k.ahDstSyncInfo 0)
    let read := if 0 < k.ui32NumSrcSync then p.readAgain src else p
    (if 0 < k.ui32NumSrcSync then some (deviceSyncObject p src) else none,
      if 0 < k.ui32NumDstSync then some (deviceSyncObject p dst) else none,
      if 0 < k.ui32NumDstSync then read.writeAgain dst else read)

def sgxSubmitTransferFill (s : SgxServices) (k : TransferSgxKick) :
    TransfercmdShared × PendingOps :=
  let ta := fillWrite s k.hTASyncInfo s.pending
  let threeD := fillWrite s k.h3DSyncInfo ta.2
  let srcDst := fillSrcDst s k threeD.2
  ({ taSync := ta.1
     threeDSync := threeD.1
     src := srcDst.1
     dst := srcDst.2.1 }, srcDst.2.2)

def sgxSubmitTransferKM (s : SgxServices) (k : TransferSgxKick) (scheduled : PvrsrvError) :
    KickResult TransfercmdShared :=
  if !ccbOffsetIsValid sizeofTransfercmdShared (s.ui32AllocSize k.hCCBMemInfo)
      k.ui32SharedCmdCCBOffset then
    ⟨s, none, .errorInvalidParams⟩
  else
    let filled := sgxSubmitTransferFill s k
    ⟨s.setPending filled.2, some filled.1, scheduled⟩

def lookupOptional (b : Handles.HandleBase) (h : ℕ) : Except PvrsrvError ℕ :=
  if h = 0 then .ok 0 else Handles.pvrsrvLookupHandle b h .syncInfo

/-- The handles of the first `n` entries of an array are replaced by what they stand for. -/
def lookupEntries (b : Handles.HandleBase) : ℕ → (ℕ → ℕ) → Except PvrsrvError (ℕ → ℕ)
  | 0, a => .ok a
  | n + 1, a => do
    let a ← lookupEntries b n a
    let p ← Handles.pvrsrvLookupHandle b (a n) .syncInfo
    return Function.update a n p

def lookupArray (b : Handles.HandleBase) (bound n : ℕ) (a : ℕ → ℕ) :
    Except PvrsrvError (ℕ → ℕ) :=
  if bound < n then .error .errorInvalidParams else lookupEntries b n a

def lookupDst (b : Handles.HandleBase) (k : SgxCcbKick) : Except PvrsrvError (ℕ × ℕ) :=
  if k.ui32NumDstSyncObjects = 0 then .ok (k.hKernelHWSyncListMemInfo, k.sDstSyncHandle)
  else do
    let list ← Handles.pvrsrvLookupHandle b k.hKernelHWSyncListMemInfo .memInfo
    let dst ← Handles.pvrsrvLookupHandle b k.sDstSyncHandle .syncInfo
    return (list, dst)

structure BridgeInDoKick where
  hDevCookie : ℕ
  sCCBKick : SgxCcbKick

def lookupKick (b : Handles.HandleBase) (psDoKickIN : BridgeInDoKick) :
    Except PvrsrvError SgxCcbKick := do
  let k := psDoKickIN.sCCBKick
  let _ ← Handles.pvrsrvLookupHandle b psDoKickIN.hDevCookie .devNode
  let ccb ← Handles.pvrsrvLookupHandle b k.hCCBKernelMemInfo .memInfo
  let ta3d ← lookupOptional b k.hTA3DSyncInfo
  let ta ← lookupOptional b k.hTASyncInfo
  let threeD ← lookupOptional b k.h3DSyncInfo
  let src ← lookupArray b sgxMaxSrcSyncs k.ui32NumSrcSyncs k.ahSrcKernelSyncInfo
  let taStatus ← lookupArray b sgxMaxTaStatusVals k.ui32NumTAStatusVals k.ahTAStatusSyncInfo
  let status3d ← lookupArray b sgxMax3dStatusVals k.ui32Num3DStatusVals k.ah3DStatusSyncInfo
  let dst ← lookupDst b k
  return { k with
    hCCBKernelMemInfo := ccb
    hTA3DSyncInfo := ta3d
    hTASyncInfo := ta
    h3DSyncInfo := threeD
    ahSrcKernelSyncInfo := src
    ahTAStatusSyncInfo := taStatus
    ah3DStatusSyncInfo := status3d
    hKernelHWSyncListMemInfo := dst.1
    sDstSyncHandle := dst.2 }

def sgxDoKickBW (s : SgxServices) (b : Handles.HandleBase) (psDoKickIN : BridgeInDoKick)
    (scheduled : PvrsrvError) : KickResult CmdTaShared :=
  match lookupKick b psDoKickIN with
  | .error e => ⟨s, none, e⟩
  | .ok k => sgxDoKickKM s k scheduled

structure BridgeInSubmitTransfer where
  hDevCookie : ℕ
  sKick : TransferSgxKick

def lookupTransfer (b : Handles.HandleBase) (psSubmitTransferIN : BridgeInSubmitTransfer) :
    Except PvrsrvError TransferSgxKick := do
  let k := psSubmitTransferIN.sKick
  let _ ← Handles.pvrsrvLookupHandle b psSubmitTransferIN.hDevCookie .devNode
  let ccb ← Handles.pvrsrvLookupHandle b k.hCCBMemInfo .memInfo
  let ta ← lookupOptional b k.hTASyncInfo
  let threeD ← lookupOptional b k.h3DSyncInfo
  let src ← lookupArray b sgxMaxTransferSyncOps k.ui32NumSrcSync k.ahSrcSyncInfo
  let dst ← lookupArray b sgxMaxTransferSyncOps k.ui32NumDstSync k.ahDstSyncInfo
  return { k with
    hCCBMemInfo := ccb
    hTASyncInfo := ta
    h3DSyncInfo := threeD
    ahSrcSyncInfo := src
    ahDstSyncInfo := dst }

def sgxSubmitTransferBW (s : SgxServices) (b : Handles.HandleBase)
    (psSubmitTransferIN : BridgeInSubmitTransfer) (scheduled : PvrsrvError) :
    KickResult TransfercmdShared :=
  match lookupTransfer b psSubmitTransferIN with
  | .error e => ⟨s, none, e⟩
  | .ok k => sgxSubmitTransferKM s k scheduled

end PvrServices.SgxKick
