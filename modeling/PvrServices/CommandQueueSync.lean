import PvrServices.CommandQueueRuns

set_option autoImplicit false

/-!
# Queues and sync objects

The part of `queue.c` that orders commands: an insertion takes copies of the pending counters of
its sync objects, and a command is processed when the completed counters have come up to them.
-/
namespace PvrServices.Queues
open Words Memory Runs

structure SyncData where
  writeOpsPending : UInt32
  readOpsPending : UInt32
  writeOpsComplete : UInt32
  readOpsComplete : UInt32

structure CommandCompleteData where
  inUse : Bool
  dstSync : List SyncObject
  srcSync : List SyncObject

abbrev Syncs := UInt32 → SyncData

/-- `struct SYS_DATA`: the list of queues, with what their users hold of them, the sync data that
    commands refer to, and `ppsCmdCompleteData` by device and command type. -/
structure SysData where
  queues : List Client
  syncs : Syncs
  cmdCompleteData : ℕ → ℕ → CommandCompleteData

def sysDeviceCount : ℕ := 15

def setSync (syncs : Syncs) (o : UInt32) (d : SyncData) : Syncs :=
  fun p => if p = o then d else syncs p

def getWriteOpsPending (syncs : Syncs) (o : UInt32) (isReadOp : Bool) : UInt32 × Syncs :=
  let d := syncs o
  if isReadOp then (d.writeOpsPending, syncs)
  else (d.writeOpsPending, setSync syncs o { d with writeOpsPending := d.writeOpsPending + 1 })

def getReadOpsPending (syncs : Syncs) (o : UInt32) (isReadOp : Bool) : UInt32 × Syncs :=
  let d := syncs o
  if isReadOp then
    (d.readOpsPending, setSync syncs o { d with readOpsPending := d.readOpsPending + 1 })
  else (d.readOpsPending, syncs)

/-- The two loops of `PVRSRVInsertCommandKM`, over the destinations (`isReadOp` false) and over
    the sources. -/
def takeSyncs (isReadOp : Bool) : Syncs → List UInt32 → List SyncObject × Syncs
  | syncs, [] => ([], syncs)
  | syncs, o :: os =>
    let (w, syncs) := getWriteOpsPending syncs o isReadOp
    let (r, syncs) := getReadOpsPending syncs o isReadOp
    let (objects, syncs) := takeSyncs isReadOp syncs os
    (⟨o, w, r⟩ :: objects, syncs)

structure InsertCall where
  processId : UInt32
  devIndex : UInt32
  commandType : UInt16
  dstSync : List UInt32
  srcSync : List UInt32
  dataByteSize : ℕ
  data : List UInt8

/-- The insertion into the queue's memory, the counters being taken from `syncs`. -/
def InsertCall.insertion (x : InsertCall) (syncs : Syncs) : Insertion × Syncs :=
  let (dst, syncs) := takeSyncs false syncs x.dstSync
  let (src, syncs) := takeSyncs true syncs x.srcSync
  (⟨x.processId, x.devIndex, x.commandType, dst, src, x.dataByteSize⟩, syncs)

def syncopsStale (complete pending : UInt32) : Bool := pending ≤ complete

def syncPasses (syncs : Syncs) (flush : Bool) (o : SyncObject) : Bool :=
  let d := syncs o.kernelSyncInfo
  (d.writeOpsComplete = o.writeOpsPending && d.readOpsComplete = o.readOpsPending) ||
    (flush && syncopsStale d.writeOpsComplete o.writeOpsPending &&
      syncopsStale d.readOpsComplete o.readOpsPending)

def setSlot (slots : ℕ → ℕ → CommandCompleteData) (dev type : ℕ) (d : CommandCompleteData) :
    ℕ → ℕ → CommandCompleteData :=
  fun i j => if i = dev ∧ j = type then d else slots i j

/-- `PVRSRVProcessCommand`; `accepts` is the answer of the device's function for the command. -/
def processCommand (s : SysData) (c : Command) (flush accepts : Bool) : PvrsrvError × SysData :=
  if c.dstSync.all (syncPasses s.syncs flush) = false then (.errorFailedDependencies, s)
  else if c.srcSync.all (syncPasses s.syncs flush) = false then (.errorFailedDependencies, s)
  else if sysDeviceCount ≤ c.devIndex.toNat then (.errorInvalidParams, s)
  else
    let dev := c.devIndex.toNat
    let type := c.commandType.toNat
    if (s.cmdCompleteData dev type).inUse then (.errorFailedDependencies, s)
    else
      let slots := setSlot s.cmdCompleteData dev type ⟨accepts, c.dstSync, c.srcSync⟩
      (if accepts then .ok else .errorCmdNotProcessed, { s with cmdCompleteData := slots })

def processQueue (s : SysData) (i : ℕ) (accepts : Command → Bool) : Option Command × SysData :=
  match s.queues[i]? with
  | none => (none, s)
  | some t =>
    match headCommand t.queue with
    | none => (none, s)
    | some c =>
      let (e, s') := processCommand s c false (accepts c)
      let (taken, q) := takeCommand t.queue fun _ => e = .ok
      (taken, { s' with queues := s'.queues.set i ⟨q, t.command⟩ })

def processQueuesFrom (s : SysData) (accepts : ℕ → Command → Bool) : ℕ → ℕ → SysData
  | _, 0 => s
  | i, n + 1 => processQueuesFrom (processQueue s i (accepts i)).2 accepts (i + 1) n

def processQueues (s : SysData) (accepts : ℕ → Command → Bool) : SysData :=
  processQueuesFrom s accepts 0 s.queues.length

def completeWrites : Syncs → List SyncObject → Syncs
  | syncs, [] => syncs
  | syncs, o :: os =>
    let d := syncs o.kernelSyncInfo
    completeWrites (setSync syncs o.kernelSyncInfo
      { d with writeOpsComplete := d.writeOpsComplete + 1 }) os

def completeReads : Syncs → List SyncObject → Syncs
  | syncs, [] => syncs
  | syncs, o :: os =>
    let d := syncs o.kernelSyncInfo
    completeReads (setSync syncs o.kernelSyncInfo
      { d with readOpsComplete := d.readOpsComplete + 1 }) os

/-- `PVRSRVCommandCompleteKM`; the callbacks that it ends with touch nothing that is modelled. -/
def commandComplete (s : SysData) (dev type : ℕ) : SysData :=
  let d := s.cmdCompleteData dev type
  { s with
    syncs := completeReads (completeWrites s.syncs d.dstSync) d.srcSync
    cmdCompleteData := setSlot s.cmdCompleteData dev type { d with inUse := false } }

inductive SysOp where
  | insert (i : ℕ) (x : InsertCall)
  | submit (i : ℕ)
  | process (i : ℕ) (accepts : Command → Bool)
  | complete (dev type : ℕ)

inductive SysAnswer where
  | inserted (answer : Except PvrsrvError Command)
  | submitted (c : Command)
  | taken (c : Option Command)
  | completed

def onQueue (s : SysData) (i : ℕ) (op : QueueOp) : Option (QueueAnswer × SysData) :=
  match s.queues[i]? with
  | none => none
  | some t =>
    match step t op with
    | none => none
    | some (a, t') => some (a, { s with queues := s.queues.set i t' })

def sysStep (s : SysData) : SysOp → Option (SysAnswer × SysData)
  | .insert i x =>
    -- the counters are taken when there is space for the command, and not otherwise
    let (insertion, syncs) := x.insertion s.syncs
    match onQueue s i (.insert insertion x.data) with
    | some (.inserted (.ok p), s') =>
      match s'.queues[i]? with
      | none => none
      | some t => some (.inserted (.ok (commandAt t.queue.linQueue p)), { s' with syncs := syncs })
    | some (.inserted (.error e), s') => some (.inserted (.error e), s')
    | _ => none
  | .submit i =>
    match onQueue s i .submit with
    | some (.submitted c, s') => some (.submitted c, s')
    | _ => none
  | .process i accepts =>
    let (c, s') := processQueue s i accepts
    some (.taken c, s')
  | .complete dev type => some (.completed, commandComplete s dev type)

end PvrServices.Queues
