import PvrServices.Memory
import PvrServices.Services

set_option autoImplicit false

/-!
# The bridge

The way of an ioctl to its handler, from `pvr_bridge_k.c` and `bridged_pvr_bridge.c`, with the
files of `module.c` and the per-process data of `perproc.c`. The per-process data of a process is
found by its pid. Addresses count from the start of the shared bridge buffer.
-/
namespace PvrServices.Bridges
open Memory

def pvrsrvMaxBridgeInSize : ℕ := 0x1000

def pvrsrvMaxBridgeOutSize : ℕ := 0x1000

def efault : ℤ := -14

def enodev : ℤ := -19

def enotty : ℤ := -25

def enomem : ℤ := -12

def pvrsrvGetBridgeId (cmd : ℕ) : ℕ := cmd % 256

def bridgeConnectServices : ℕ := 12

def bridgeDisconnectServices : ℕ := 13

def bridgeInitsrvConnect : ℕ := 67

def bridgeInitsrvDisconnect : ℕ := 68

/-- The commands that `bridged_ioctl` gives to `DummyBW`. -/
def dummyCommands : List ℕ :=
  [2, 9, 10, 14, 15, 16, 17, 18, 19, 24, 25, 28, 29, 30, 31, 32, 33, 34, 36, 39, 78, 79, 80, 84]

/-- `PVRSRV_OK` and `PVRSRV_ERROR_GENERIC` as they are written to an output structure. -/
def codeOk : ℕ := 0

def codeGeneric : ℕ := 1

structure InitServer where
  running : Bool
  ran : Bool
  successful : Bool
deriving DecidableEq, Repr

structure PerProcessData where
  ui32PID : ℕ
  ui32RefCount : ℕ
  bInitProcess : Bool
  hPerProcData : ℕ
deriving DecidableEq, Repr

/-- `struct PVRSRV_FILE_PRIVATE_DATA`; `proc` is the pid whose per-process data it points to. -/
structure FilePrivateData where
  ui32OpenPID : ℕ
  proc : ℕ
deriving DecidableEq, Repr

/-- The driver: `rest` is what the handlers of the other commands work on. -/
structure Kernel (σ : Type) where
  pvrDisabled : Bool
  initServer : InitServer
  psHashTab : ℕ → Option PerProcessData
  files : ℕ → Option FilePrivateData
  bridgeData : ℕ → UInt8
  rest : σ

variable {σ : Type}

def Kernel.setProc (k : Kernel σ) (pid : ℕ) (d : PerProcessData) : Kernel σ :=
  { k with psHashTab := Function.update k.psHashTab pid (some d) }

/-- `struct PVRSRV_BRIDGE_PACKAGE`, with the bytes that can be read at `pvParamIn` and the number
    of bytes that can be written at `pvParamOut`. -/
structure BridgePackage where
  ui32BridgeID : ℕ
  ui32InBufferSize : ℕ
  ui32OutBufferSize : ℕ
  paramIn : List UInt8
  paramOut : ℕ
deriving DecidableEq, Repr

/-- What the kernel answers on the way: `SysAcquireData`, the capability of the caller and the
    code of `PVRSRVFinaliseSystem`. -/
structure Env where
  sysAcquireData : Bool
  osProcHasPrivSrvInit : Bool
  finaliseSystem : ℕ
deriving DecidableEq, Repr

def osCopyFromUser (mem : ℕ → UInt8) (dest : ℕ) (src : List UInt8) (n : ℕ) :
    Bool × (ℕ → UInt8) :=
  (decide (n ≤ src.length),
    store mem dest (src.take n ++ List.replicate (n - src.length) 0))

def osCopyToUser (mem : ℕ → UInt8) (src n room : ℕ) : Bool × List UInt8 :=
  (decide (n ≤ room), copy mem src (min n room))

structure Access where
  toKernel : Bool
  base : ℕ
  size : ℕ
deriving DecidableEq, Repr

structure Site (σ : Type) where
  file : ℕ
  perProc : PerProcessData
  initServer : InitServer
  rest : σ
  input : List UInt8

/-- What a handler leaves: its answer, the state, and what it writes of the two structures. -/
structure Reply (σ : Type) where
  err : ℤ
  bInitProcess : Bool
  initServer : InitServer
  rest : σ
  inWrites : List (ℕ × List UInt8)
  outWrites : List (ℕ × List UInt8)

/-- A handler; `inSize` is the size of its input structure. -/
structure Handler (σ : Type) where
  inSize : ℕ
  run : Env → Site σ → Reply σ

/-- A reply that changes no state and writes words of the output structure. -/
def Site.reply (t : Site σ) (err : ℤ) (words : List (ℕ × ℕ)) : Reply σ where
  err := err
  bInitProcess := t.perProc.bInitProcess
  initServer := t.initServer
  rest := t.rest
  inWrites := []
  outWrites := words.map fun w => (w.1, fieldBytes 4 w.2)

def pvrsrvConnectBW (_ : Env) (t : Site σ) : Reply σ :=
  t.reply 0 [(4, t.perProc.hPerProcData), (0, codeOk)]

def pvrsrvDisconnectBW (_ : Env) (t : Site σ) : Reply σ := t.reply 0 [(0, codeOk)]

def dummyBW (_ : Env) (t : Site σ) : Reply σ := t.reply enotty []

def pvrsrvInitSrvConnectBW (e : Env) (t : Site σ) : Reply σ :=
  if !e.osProcHasPrivSrvInit || t.initServer.running || t.initServer.ran then
    t.reply 0 [(0, codeGeneric)]
  else
    { t.reply 0 [(0, codeOk)] with
      initServer := { t.initServer with running := true }
      bInitProcess := true }

def bInitSuccesful (input : List UInt8) : Bool := fieldValue ((input.drop 4).take 4) != 0

def pvrsrvInitSrvDisconnectBW (e : Env) (t : Site σ) : Reply σ :=
  if !t.perProc.bInitProcess then t.reply 0 [(0, codeGeneric)]
  else
    { t.reply 0 [(0, e.finaliseSystem)] with
      initServer :=
        { running := false
          ran := true
          successful := decide (e.finaliseSystem = codeOk) && bInitSuccesful t.input }
      bInitProcess := false }

/-- What a handler of another command does; the flags of the init server are out of its reach. -/
structure OtherReply (σ : Type) where
  err : ℤ
  rest : σ
  inWrites : List (ℕ × List UInt8)
  outWrites : List (ℕ × List UInt8)

/-- The handler of another command. -/
structure OtherHandler (σ : Type) where
  inSize : ℕ
  run : ℕ → PerProcessData → σ → List UInt8 → OtherReply σ

def OtherHandler.handler (h : OtherHandler σ) : Handler σ where
  inSize := h.inSize
  run _ t :=
    let r := h.run t.file t.perProc t.rest t.input
    { err := r.err
      bInitProcess := t.perProc.bInitProcess
      initServer := t.initServer
      rest := r.rest
      inWrites := r.inWrites
      outWrites := r.outWrites }

/-- The rest of the driver as the bridge calls it: the other cases of the switch,
    `ReleaseHandleBatch`, and what comes and goes with a process. -/
structure Bridge (σ : Type) where
  other : ℕ → Option (OtherHandler σ)
  releaseHandleBatch : ℕ → σ → σ
  connect : ℕ → σ → σ
  disconnect : ℕ → σ → σ

def bridgedIoctl (x : Bridge σ) (cmd : ℕ) : Option (Handler σ) :=
  if cmd = bridgeConnectServices then some ⟨0, pvrsrvConnectBW⟩
  else if cmd = bridgeDisconnectServices then some ⟨0, pvrsrvDisconnectBW⟩
  else if cmd = bridgeInitsrvConnect then some ⟨0, pvrsrvInitSrvConnectBW⟩
  else if cmd = bridgeInitsrvDisconnect then some ⟨8, pvrsrvInitSrvDisconnectBW⟩
  else if cmd ∈ dummyCommands then some ⟨0, dummyBW⟩
  else (x.other cmd).map OtherHandler.handler

def bridgedCheckCmd (i : InitServer) (cmdId : ℕ) : Bool :=
  if i.ran then !i.successful
  else if i.running then true
  else !decide (cmdId ∈ [bridgeConnectServices, bridgeDisconnectServices, bridgeInitsrvConnect,
    bridgeInitsrvDisconnect])

/-- A handler that ran: for which command and caller, on which per-process data, with which input
    structure, and whether it finished the initialisation successfully. -/
structure Handled where
  bridgeId : ℕ
  caller : ℕ
  perProc : PerProcessData
  callerIsInit : Bool
  input : List UInt8
  finished : Bool
deriving DecidableEq, Repr

structure Dispatch (σ : Type) where
  err : ℤ
  kernel : Kernel σ
  accesses : List Access
  handled : Option Handled
  copied : List UInt8

/-- An ioctl: a process calls with a command on an open file; no package is one that cannot be
    read. -/
structure Ioctl where
  caller : ℕ
  file : ℕ
  cmd : ℕ
  package : Option BridgePackage
  env : Env
deriving DecidableEq, Repr

/-- Whether a process has the flag of the init process in its per-process data. -/
def Kernel.isInitProcess (k : Kernel σ) (pid : ℕ) : Bool :=
  match k.psHashTab pid with
  | none => false
  | some d => d.bInitProcess

def returnFault (x : Bridge σ) (d : PerProcessData) (r : Dispatch σ) : Dispatch σ :=
  { r with
    kernel := { r.kernel with rest := x.releaseHandleBatch d.ui32PID r.kernel.rest } }

def Kernel.afterHandler (k : Kernel σ) (d : PerProcessData) (r : Reply σ) : Kernel σ :=
  { k.setProc d.ui32PID { d with bInitProcess := r.bInitProcess } with
    initServer := r.initServer
    rest := r.rest
    bridgeData :=
      storeAll (storeAll k.bridgeData 0 r.inWrites) pvrsrvMaxBridgeInSize r.outWrites }

/-- `BridgedDispatchKM` from the copy to the user on. When the copy fails, the number that the
    handler has returned stays. -/
def copyOut (p : BridgePackage) (k : Kernel σ) (accesses : List Access) (err : ℤ) (h : Handled) :
    Dispatch σ :=
  let c := osCopyToUser k.bridgeData pvrsrvMaxBridgeInSize p.ui32OutBufferSize p.paramOut
  { err := if c.1 then 0 else err
    kernel := k
    accesses := accesses ++ [⟨false, pvrsrvMaxBridgeInSize, c.2.length⟩]
    handled := some h
    copied := c.2 }

def callHandler (x : Bridge σ) (k : Kernel σ) (q : Ioctl) (p : BridgePackage) (bid : ℕ)
    (d : PerProcessData) (accesses : List Access) : Dispatch σ :=
  match bridgedIoctl x bid with
  | none => ⟨efault, k, accesses, none, []⟩
  | some h =>
    let t : Site σ := ⟨q.file, d, k.initServer, k.rest, copy k.bridgeData 0 h.inSize⟩
    let r := h.run q.env t
    let event : Handled :=
      { bridgeId := bid
        caller := q.caller
        perProc := d
        callerIsInit := k.isInitProcess q.caller
        input := t.input
        finished := decide (bid = bridgeInitsrvDisconnect) && d.bInitProcess &&
          decide (q.env.finaliseSystem = codeOk) && bInitSuccesful t.input }
    if r.err < 0 then ⟨r.err, k.afterHandler d r, accesses, some event, []⟩
    else copyOut p (k.afterHandler d r) accesses r.err event

def copyIn (x : Bridge σ) (k : Kernel σ) (q : Ioctl) (p : BridgePackage) (bid : ℕ)
    (d : PerProcessData) : Dispatch σ :=
  if 0 < p.ui32InBufferSize then
    let c := osCopyFromUser k.bridgeData 0 p.paramIn p.ui32InBufferSize
    let k' := { k with bridgeData := c.2 }
    let accesses := [⟨true, 0, p.ui32InBufferSize⟩]
    if c.1 then callHandler x k' q p bid d accesses else ⟨efault, k', accesses, none, []⟩
  else callHandler x k q p bid d []

def bridgedDispatchKM (x : Bridge σ) (k : Kernel σ) (q : Ioctl) (p : BridgePackage) (bid : ℕ)
    (d : PerProcessData) : Dispatch σ :=
  returnFault x d <|
    if !d.bInitProcess && bridgedCheckCmd k.initServer bid then ⟨efault, k, [], none, []⟩
    else if q.env.sysAcquireData then copyIn x k q p bid d
    else ⟨efault, k, [], none, []⟩

/-- `PVRSRV_BridgeDispatchKM`. There is no answer for a file that is not open or has lost its
    per-process data. -/
def pvrsrvBridgeDispatchKM (x : Bridge σ) (k : Kernel σ) (q : Ioctl) : Option (Dispatch σ) :=
  match k.files q.file with
  | none => none
  | some f =>
    if k.pvrDisabled then some ⟨enodev, k, [], none, []⟩
    else
      match q.package with
      | none => some ⟨efault, k, [], none, []⟩
      | some p =>
        match k.psHashTab f.proc with
        | none => none
        | some d =>
          if pvrsrvGetBridgeId q.cmd ≠ bridgeConnectServices ∧ d.ui32PID ≠ q.caller then
            some ⟨efault, k, [], none, []⟩
          else some (bridgedDispatchKM x k q p (pvrsrvGetBridgeId p.ui32BridgeID) d)

/-- `PVRSRVPerProcessDataConnect`; `handle` is the handle that new data gets, unless memory runs
    out. -/
def pvrsrvPerProcessDataConnect (x : Bridge σ) (k : Kernel σ) (pid : ℕ) (handle : Option ℕ) :
    Option (Kernel σ) :=
  match k.psHashTab pid with
  | some d => some (k.setProc pid { d with ui32RefCount := d.ui32RefCount + 1 })
  | none =>
    handle.map fun h => { k.setProc pid ⟨pid, 1, false, h⟩ with rest := x.connect pid k.rest }

/-- `pvr_open` by a process; `file` is the new open file and `grants` whether there is memory for
    its private data. -/
def pvrOpen (x : Bridge σ) (k : Kernel σ) (pid file : ℕ) (handle : Option ℕ) (grants : Bool) :
    ℤ × Kernel σ :=
  if k.pvrDisabled then (enodev, k)
  else
    match pvrsrvPerProcessDataConnect x k pid handle with
    | none => (enomem, k)
    | some k' =>
      if grants then (0, { k' with files := Function.update k'.files file (some ⟨pid, pid⟩) })
      else (enomem, k')

def pvrsrvPerProcessDataDisconnect (x : Bridge σ) (k : Kernel σ) (pid : ℕ) : Kernel σ :=
  match k.psHashTab pid with
  | none => k
  | some d =>
    if d.ui32RefCount - 1 = 0 then
      { k with
        psHashTab := Function.update k.psHashTab pid none
        rest := x.disconnect pid k.rest }
    else k.setProc pid { d with ui32RefCount := d.ui32RefCount - 1 }

def pvrRelease (x : Bridge σ) (k : Kernel σ) (file : ℕ) : Option (Kernel σ) :=
  (k.files file).map fun f =>
    let k' := pvrsrvPerProcessDataDisconnect x k f.ui32OpenPID
    { k' with files := Function.update k'.files file none }

inductive BridgeCall where
  | pvrOpen (pid file : ℕ) (handle : Option ℕ) (grants : Bool)
  | pvrRelease (file : ℕ)
  | ioctl (q : Ioctl)
  | pvrDisable
deriving DecidableEq, Repr

/-- The answer of a call, with what the dispatcher did on the way. -/
structure BridgeAnswer where
  err : ℤ
  accesses : List Access
  handled : Option Handled
  copied : List UInt8
deriving DecidableEq, Repr

/-- A call. A file that is open is not opened again, and only open files are released. -/
def step (x : Bridge σ) (k : Kernel σ) : BridgeCall → Option (BridgeAnswer × Kernel σ)
  | .pvrOpen pid file handle grants =>
    if (k.files file).isSome then none
    else
      let r := pvrOpen x k pid file handle grants
      some (⟨r.1, [], none, []⟩, r.2)
  | .pvrRelease file => (pvrRelease x k file).map fun k' => (⟨0, [], none, []⟩, k')
  | .ioctl q =>
    (pvrsrvBridgeDispatchKM x k q).map fun r =>
      (⟨r.err, r.accesses, r.handled, r.copied⟩, r.kernel)
  | .pvrDisable => some (⟨0, [], none, []⟩, { k with pvrDisabled := true })

end PvrServices.Bridges
