import PvrServices.ResmanRegistry
import PvrServices.Words

set_option autoImplicit false

/-!
# Opening display-class devices

`PVRSRVOpenDCDeviceKM` and the callback that closes, from `deviceclass.c`. The first open of a
device takes a reference to the module of its driver, a sync info for the system buffer and the
external device; later ones count. What the calls get comes with them, memory by its address, and
devices are named by their indices.
-/
namespace PvrServices.DisplayClass
open Resman Words

/-- `struct PVRSRV_DISPLAYCLASS_INFO`; the sync info is that of the system buffer. -/
structure DisplayClassInfo where
  ui32RefCount : ℕ
  hDevMemContext : Option ℕ
  psKernelSyncInfo : Option ℕ
  hExtDevice : Option ℕ
deriving DecidableEq, Repr

structure PerContextInfo where
  psDCInfo : Option ℕ
  hResItem : Option ℕ
deriving DecidableEq, Repr

/-- The devices with, for each, the references to its module and the opens of its external device,
    and the memory of the infos. -/
structure DisplayState where
  dcInfos : ℕ → Option DisplayClassInfo
  moduleRefs : ℕ → ℕ
  extOpens : ℕ → ℕ
  perContext : ℕ → Option PerContextInfo
  syncInfos : ℕ → Bool

def DisplayState.setInfo (s : DisplayState) (d : ℕ) (i : DisplayClassInfo) : DisplayState :=
  { s with dcInfos := Function.update s.dcInfos d (some i) }

def DisplayState.setPer (s : DisplayState) (m : ℕ) (i : PerContextInfo) : DisplayState :=
  { s with perContext := Function.update s.perContext m (some i) }

def DisplayState.freePer (s : DisplayState) (m : ℕ) : Option DisplayState :=
  if (s.perContext m).isSome then some { s with perContext := Function.update s.perContext m none }
  else none

def tryModuleGet (s : DisplayState) (d : ℕ) : DisplayState :=
  { s with moduleRefs := Function.update s.moduleRefs d (s.moduleRefs d + 1) }

def modulePut (s : DisplayState) (d : ℕ) : Option DisplayState :=
  if s.moduleRefs d = 0 then none
  else some { s with moduleRefs := Function.update s.moduleRefs d (s.moduleRefs d - 1) }

def pvrsrvFreeSyncInfoKM (s : DisplayState) (y : Option ℕ) : Option DisplayState := do
  let y ← y
  if s.syncInfos y then some { s with syncInfos := Function.update s.syncInfos y false } else none

def openExternal (s : DisplayState) (d : ℕ) : DisplayState :=
  { s with extOpens := Function.update s.extOpens d (s.extOpens d + 1) }

def pfnCloseDCDevice (s : DisplayState) (d : ℕ) : Option DisplayState :=
  if s.extOpens d = 0 then none
  else some { s with extOpens := Function.update s.extOpens d (s.extOpens d - 1) }

def pfnCloseDCDeviceCallBack : ℕ := 1

def closeDCDeviceCallBack (s : DisplayState) (m : ℕ) : Option DisplayState := do
  let per ← s.perContext m
  let d ← per.psDCInfo
  let i ← s.dcInfos d
  let i := { i with ui32RefCount := u32Sub i.ui32RefCount 1 }
  let s := s.setInfo d i
  let s ← (if i.ui32RefCount = 0 then do
      let s ← pfnCloseDCDevice s d
      let s ← pvrsrvFreeSyncInfoKM s i.psKernelSyncInfo
      modulePut (s.setInfo d { i with hDevMemContext := none, hExtDevice := none }) d
    else some s)
  s.freePer m

def displayCallBack (call : Call) (s : DisplayState) : Option DisplayState :=
  if call.pfnFreeResource = pfnCloseDCDeviceCallBack then closeDCDeviceCallBack s call.pvParam
  else none

structure DisplaySys where
  res : ResList
  dc : DisplayState

/-- A call of `PVRSRVOpenDCDeviceKM` and what it gets on its way: the memory for the info of the
    context, the module, the sync info, the external device and the item. -/
structure OpenCall where
  ui32DeviceID : ℕ
  hDevCookie : Option ℕ
  phDeviceKM : Bool
  perContext : Option ℕ
  moduleGot : Bool
  syncInfo : Except PvrsrvError ℕ
  extDevice : Except PvrsrvError ℕ
  resItem : Option ℕ

/-- What the first open acquires; the error exits undo what was done before, but where there is
    no module the reference count has already been taken. -/
def acquireDevice (s : DisplayState) (call : OpenCall) (cookie d : ℕ) (i : DisplayClassInfo) :
    Option (Except PvrsrvError Unit × DisplayState) :=
  if !call.moduleGot then some (.error .errorInvalidDevice, s)
  else
    let s := tryModuleGet s d
    let i := { i with hDevMemContext := some cookie }
    match call.syncInfo with
    | .error e => do
      let s ← modulePut s d
      some (.error e, s.setInfo d { i with ui32RefCount := u32Sub i.ui32RefCount 1 })
    | .ok y =>
      let s := { s with syncInfos := Function.update s.syncInfos y true }
      let i := { i with psKernelSyncInfo := some y }
      match call.extDevice with
      | .error e => do
        let s ← pvrsrvFreeSyncInfoKM s i.psKernelSyncInfo
        let s ← modulePut s d
        some (.error e, s.setInfo d { i with ui32RefCount := u32Sub i.ui32RefCount 1 })
      | .ok hExt => some (.ok (), (openExternal s d).setInfo d { i with hExtDevice := some hExt })

def finishOpen (x : DisplaySys) (c m : ℕ) (call : OpenCall) :
    Except PvrsrvError Unit × DisplayState → Option (Except PvrsrvError ℕ × DisplaySys)
  | (.error e, s) => do
    let s ← s.freePer m
    some (.error e, { x with dc := s })
  | (.ok _, s) => do
    let (item, res) ← resManRegisterRes x.res c .displayclassDevice m 0 pfnCloseDCDeviceCallBack
      call.resItem
    some (.ok m, ⟨res, s.setPer m ⟨some call.ui32DeviceID, item⟩⟩)

def pvrsrvOpenDCDeviceKM (x : DisplaySys) (c : ℕ) (call : OpenCall) :
    Option (Except PvrsrvError ℕ × DisplaySys) :=
  match call.hDevCookie with
  | none => some (.error .errorGeneric, x)
  | some cookie =>
    let d := call.ui32DeviceID
    if !call.phDeviceKM then some (.error .errorGeneric, x)
    else
      match x.dc.dcInfos d with
      | none => some (.error .errorGeneric, x)
      | some i =>
        match call.perContext with
        | none => some (.error .errorOutOfMemory, x)
        | some m => do
          let s := x.dc.setPer m ⟨none, none⟩
          let first := i.ui32RefCount = 0
          let i := { i with ui32RefCount := u32 (i.ui32RefCount + 1) }
          let s := s.setInfo d i
          let r ← (if first then acquireDevice s call cookie d i else some (.ok (), s))
          finishOpen x c m call r

def pvrsrvCloseDCDeviceKM (x : DisplaySys) (m : ℕ) : Option DisplaySys := do
  let per ← x.dc.perContext m
  let p ← per.hResItem
  let (res, dc) ← freeHosted displayCallBack x.res x.dc p
  some ⟨res, dc⟩

def displayDisconnect (x : DisplaySys) (c : ℕ) : Option DisplaySys := do
  let (res, dc) ← disconnectHosted displayCallBack x.res x.dc c
  some ⟨res, dc⟩

inductive DisplayOp where
  | connect (perProc : ℕ) (mem : Option ℕ)
  | openDevice (c : ℕ) (call : OpenCall)
  | close (m : ℕ)
  | exit (c : ℕ)

inductive DisplayReply where
  | connected (answer : Except PvrsrvError ℕ)
  | opened (answer : Except PvrsrvError ℕ)
  | done

def displayStep (x : DisplaySys) : DisplayOp → Option (DisplayReply × DisplaySys)
  | .connect perProc mem =>
    (pvrsrvResManConnect x.res perProc mem).map fun r => (.connected r.1, { x with res := r.2 })
  | .openDevice c call => (pvrsrvOpenDCDeviceKM x c call).map fun r => (.opened r.1, r.2)
  | .close m => (pvrsrvCloseDCDeviceKM x m).map fun x => (.done, x)
  | .exit c => (displayDisconnect x c).map fun x => (.done, x)

def displayInit (devices : ℕ → Bool) : DisplaySys :=
  ⟨resManInit, fun d => if devices d then some ⟨0, none, none, none⟩ else none, fun _ => 0,
    fun _ => 0, fun _ => none, fun _ => false⟩

end PvrServices.DisplayClass
