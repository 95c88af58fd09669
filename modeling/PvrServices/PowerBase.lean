import PvrServices.Runs
import PvrServices.Services

set_option autoImplicit false

/-!
# Power states

`power.c`. A transition is a pass over all devices before the system changes and a pass after it;
the hooks of the devices and of the system may fail. What the callbacks of the devices are called
with is written to a trace. A request that leaves the system powered ends with the command-complete
callbacks of the device nodes, which may power their devices up. The data of the system is there.
-/
namespace PvrServices.Power

inductive PowerState where
  | unspecified
  | d0
  | d1
  | d2
  | d3
  | d4
deriving DecidableEq, Repr

/-- `struct PVRSRV_POWER_DEV` at its address, with which callbacks there are. -/
structure PowerDev where
  addr : ℕ
  pfnPrePower : Bool
  pfnPostPower : Bool
  ui32DeviceIndex : ℕ
  eDefaultPowerState : PowerState
  eCurrentPowerState : PowerState
deriving DecidableEq, Repr

/-- A device node that has a `pfnDeviceCommandComplete`, which are those of the SGX. -/
structure DeviceNode where
  addr : ℕ
  ui32DeviceIndex : ℕ
deriving DecidableEq, Repr

structure SysData where
  psPowerDeviceList : List PowerDev
  psDeviceNodeList : List DeviceNode
  eCurrentPowerState : PowerState
  eFailedPowerState : PowerState
deriving DecidableEq, Repr

/-- The calls of `pfnPrePower` and `pfnPostPower`, with the new and the current state. -/
inductive PowerEvent where
  | pre (addr : ℕ) (new current : PowerState)
  | post (addr : ℕ) (new current : PowerState)
deriving DecidableEq, Repr

/-- What the hooks answer in a call, those of devices by the address of the device. -/
structure Hooks where
  pfnPrePower : ℕ → PvrsrvError
  sysDevicePrePowerState : ℕ → PvrsrvError
  sysSystemPrePowerState : PvrsrvError
  sysSystemPostPowerState : PvrsrvError
  sysDevicePostPowerState : ℕ → PvrsrvError
  pfnPostPower : ℕ → PvrsrvError

def isSystemStatePowered : PowerState → Bool
  | .unspecified => true
  | .d0 => true
  | .d1 => true
  | .d2 => false
  | .d3 => false
  | .d4 => false

def newDevicePowerState (new : PowerState) (d : PowerDev) : PowerState :=
  if new = .unspecified then d.eDefaultPowerState else new

/-- Does the pass reach the device? All devices, or those with the index. -/
def selects (index : Option ℕ) (d : PowerDev) : Bool := index.all fun i => i = d.ui32DeviceIndex

def changes (index : Option ℕ) (new : PowerState) (d : PowerDev) : Bool :=
  selects index d && d.eCurrentPowerState ≠ newDevicePowerState new d

def pvrsrvDevicePrePowerStateKM (o : Hooks) (index : Option ℕ) (new : PowerState) :
    List PowerDev → PvrsrvError × List PowerEvent
  | [] => (.ok, [])
  | d :: rest =>
    if changes index new d then
      let call := if d.pfnPrePower then
        [.pre d.addr (newDevicePowerState new d) d.eCurrentPowerState] else []
      let error := if d.pfnPrePower then o.pfnPrePower d.addr else .ok
      if error ≠ .ok then (error, call)
      else if o.sysDevicePrePowerState d.addr ≠ .ok then (o.sysDevicePrePowerState d.addr, call)
      else
        let r := pvrsrvDevicePrePowerStateKM o index new rest
        (r.1, call ++ r.2)
    else pvrsrvDevicePrePowerStateKM o index new rest

def pvrsrvDevicePostPowerStateKM (o : Hooks) (index : Option ℕ) (new : PowerState) :
    List PowerDev → PvrsrvError × List PowerEvent × List PowerDev
  | [] => (.ok, [], [])
  | d :: rest =>
    if changes index new d then
      if o.sysDevicePostPowerState d.addr ≠ .ok then
        (o.sysDevicePostPowerState d.addr, [], d :: rest)
      else
        let call := if d.pfnPostPower then
          [.post d.addr (newDevicePowerState new d) d.eCurrentPowerState] else []
        let error := if d.pfnPostPower then o.pfnPostPower d.addr else .ok
        if error ≠ .ok then (error, call, d :: rest)
        else
          let r := pvrsrvDevicePostPowerStateKM o index new rest
          (r.1, call ++ r.2.1,
            { d with eCurrentPowerState := newDevicePowerState new d } :: r.2.2)
    else
      let r := pvrsrvDevicePostPowerStateKM o index new rest
      (r.1, r.2.1, d :: r.2.2)

/-- What the devices are asked for when the system is asked for `new`. -/
def devicePowerState (new : PowerState) : PowerState :=
  if isSystemStatePowered new then .unspecified else .d3

def takesDevices (s : SysData) (new : PowerState) : Bool :=
  isSystemStatePowered new ≠ isSystemStatePowered s.eCurrentPowerState

def pvrsrvSystemPrePowerStateKM (s : SysData) (o : Hooks) (new : PowerState) :
    PvrsrvError × List PowerEvent × SysData :=
  let r := if takesDevices s new then
      pvrsrvDevicePrePowerStateKM o none (devicePowerState new) s.psPowerDeviceList
    else (.ok, [])
  if r.1 ≠ .ok then (r.1, r.2, { s with eFailedPowerState := new })
  else if new ≠ s.eCurrentPowerState ∧ o.sysSystemPrePowerState ≠ .ok then
    (o.sysSystemPrePowerState, r.2, { s with eFailedPowerState := new })
  else (.ok, r.2, s)

/-- `PVRSRVSetDevicePowerStateKM`, with which a single device is powered up and down. -/
def pvrsrvSetDevicePowerStateKM (s : SysData) (o : Hooks) (index : ℕ) (new : PowerState) :
    PvrsrvError × List PowerEvent × SysData :=
  let r := pvrsrvDevicePrePowerStateKM o (some index) new s.psPowerDeviceList
  if r.1 ≠ .ok then (r.1, r.2, s)
  else
    let q := pvrsrvDevicePostPowerStateKM o (some index) new s.psPowerDeviceList
    (q.1, r.2 ++ q.2.1, { s with psPowerDeviceList := q.2.2 })

/-- What a request for a state of the system meets: the hooks, the state of the init server, and
    for a device node the hooks of the transition that its command-complete callback makes, unless
    `ui32PowerStatus` says that there is no work. -/
structure Request where
  hooks : Hooks
  initSuccessful : Bool
  commandComplete : ℕ → Option Hooks

structure Transition where
  answer : PvrsrvError
  trace : List PowerEvent
deriving DecidableEq

/-- What `SGXCommandComplete` comes to here; its answer is dropped. -/
def sgxScheduleProcessQueues (s : SysData) (n : DeviceNode) :
    Option Hooks → List Transition × SysData
  | none => ([], s)
  | some o =>
    let r := pvrsrvSetDevicePowerStateKM s o n.ui32DeviceIndex .d0
    ([⟨r.1, r.2.1⟩], r.2.2)

def pvrsrvCommandCompleteCallbacks (q : Request) :
    List DeviceNode → SysData → List Transition × SysData
  | [], s => ([], s)
  | n :: rest, s =>
    let r := sgxScheduleProcessQueues s n (q.commandComplete n.addr)
    let p := pvrsrvCommandCompleteCallbacks q rest r.2
    (r.1 ++ p.1, p.2)

/-- `PVRSRVSystemPostPowerStateKM` up to its `Exit`. -/
def systemPostPowerState (s : SysData) (o : Hooks) (new : PowerState) :
    PvrsrvError × List PowerEvent × SysData :=
  if new ≠ s.eCurrentPowerState ∧ o.sysSystemPostPowerState ≠ .ok then
    (o.sysSystemPostPowerState, [], s)
  else
    let r := if takesDevices s new then
        pvrsrvDevicePostPowerStateKM o none (devicePowerState new) s.psPowerDeviceList
      else (.ok, [], s.psPowerDeviceList)
    if r.1 ≠ .ok then (r.1, r.2.1, { s with psPowerDeviceList := r.2.2 })
    else (.ok, r.2.1, { s with psPowerDeviceList := r.2.2, eCurrentPowerState := new })

def exitNodes (s : SysData) (q : Request) (new : PowerState) : List DeviceNode :=
  if isSystemStatePowered new && q.initSuccessful then s.psDeviceNodeList else []

def pvrsrvSystemPostPowerStateKM (s : SysData) (q : Request) (new : PowerState) :
    PvrsrvError × List PowerEvent × List Transition × SysData :=
  let r := systemPostPowerState s q.hooks new
  let c := pvrsrvCommandCompleteCallbacks q (exitNodes s q new) r.2.2
  (r.1, r.2.1, c)

def pvrsrvSetPowerStateKM (s : SysData) (q : Request) (new : PowerState) :
    PvrsrvError × List PowerEvent × List Transition × SysData :=
  let r := pvrsrvSystemPrePowerStateKM s q.hooks new
  if r.1 ≠ .ok then (r.1, r.2.1, [], { r.2.2 with eFailedPowerState := new })
  else
    let p := pvrsrvSystemPostPowerStateKM r.2.2 q new
    if p.1 ≠ .ok then
      (p.1, r.2.1 ++ p.2.1, p.2.2.1, { p.2.2.2 with eFailedPowerState := new })
    else (.ok, r.2.1 ++ p.2.1, p.2.2.1, { p.2.2.2 with eFailedPowerState := .unspecified })

inductive PowerOp where
  | setPowerState (q : Request) (new : PowerState)
  | setDevicePowerState (o : Hooks) (index : ℕ) (new : PowerState)

/-- The answer of a call, and its transitions: for a request that of the system comes first. -/
structure PowerReply where
  answer : PvrsrvError
  transitions : List Transition
deriving DecidableEq

def powerStep (s : SysData) : PowerOp → Option (PowerReply × SysData)
  | .setPowerState q new =>
    let r := pvrsrvSetPowerStateKM s q new
    some (⟨r.1, ⟨r.1, r.2.1⟩ :: r.2.2.1⟩, r.2.2.2)
  | .setDevicePowerState o index new =>
    let r := pvrsrvSetDevicePowerStateKM s o index new
    some (⟨r.1, [⟨r.1, r.2.1⟩]⟩, r.2.2)

end PvrServices.Power
