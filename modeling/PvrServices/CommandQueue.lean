import PvrServices.Memory
import PvrServices.Services
import PvrServices.Words

set_option autoImplicit false

/-!
# Command queues

`queue.c`: a queue is a circular buffer of commands of variable length. A command starts below
the queue's size and may run past it, into slack that every queue is given.
-/
namespace PvrServices.Queues
open Words Memory

def pvrsrvMaxCmdSize : ℕ := 1024

def commandHeader : ℕ := 40

def syncObjectSize : ℕ := 12

/-- `struct PVRSRV_QUEUE_INFO`; the memory is addressed from `pvLinQueueKM` on, and user and
    kernel see it at the same place. -/
structure QueueInfo where
  linQueue : ℕ → UInt8
  readOffset : ℕ
  writeOffset : ℕ
  queueSize : ℕ

/-- `struct PVRSRV_SYNC_OBJECT`: a sync info by its address and its counters at the insertion. -/
structure SyncObject where
  kernelSyncInfo : UInt32
  writeOpsPending : UInt32
  readOpsPending : UInt32
deriving DecidableEq, Repr

def SyncObject.words (o : SyncObject) : List UInt32 :=
  [o.kernelSyncInfo, o.writeOpsPending, o.readOpsPending]

/-- `struct PVRSRV_COMMAND` with the sync objects and the data that it points to. -/
structure Command where
  cmdSize : UInt32
  devIndex : UInt32
  commandType : UInt32
  dstSync : List SyncObject
  srcSync : List SyncObject
  dataSize : UInt32
  processId : UInt32
  data : List UInt8
deriving DecidableEq, Repr

def nearestPower2Loop : ℕ → ℕ → ℕ → ℕ
  | 0, result, _ => result
  | fuel + 1, result, temp =>
    if temp = 0 then result else nearestPower2Loop fuel (u32 (result <<< 1)) (temp >>> 1)

def nearestPower2 (value : ℕ) : ℕ :=
  if value = 0 then 0 else nearestPower2Loop 32 1 (value - 1)

/-- `PVRSRVCreateCommandQueueKM`; `mem` is what the buffer holds when it is allocated. -/
def createCommandQueue (os : Os) (mem : ℕ → UInt8) (queueSize : ℕ) :
    Except PvrsrvError QueueInfo × Os :=
  let power2QueueSize := nearestPower2 queueSize
  let (granted, os) := osAllocMem os
  if granted = false then (.error .errorGeneric, os)
  else
    let (granted, os) := osAllocMem os
    if granted = false then (.error .errorGeneric, os)
    else (.ok ⟨mem, 0, 0, power2QueueSize⟩, os)

def getSpaceInCmdq (q : QueueInfo) : ℕ :=
  u32 (u32Sub q.readOffset q.writeOffset + u32Sub q.queueSize 1) &&& u32Sub q.queueSize 1

def updateQueueWoff (q : QueueInfo) (size : ℕ) : QueueInfo :=
  { q with writeOffset := u32 (q.writeOffset + size) &&& u32Sub q.queueSize 1 }

def updateQueueRoff (q : QueueInfo) (size : ℕ) : QueueInfo :=
  { q with readOffset := u32 (q.readOffset + size) &&& u32Sub q.queueSize 1 }

def roundToWord (n : ℕ) : ℕ := u32 (n + 3) / 4 * 4

/-- `PVRSRVGetQueueSpaceKM`: the offset of the space. The function waits for space; what it sees
    when it stops waiting decides. -/
def getQueueSpace (q : QueueInfo) (paramSize : ℕ) : Except PvrsrvError ℕ :=
  let paramSize := roundToWord paramSize
  if pvrsrvMaxCmdSize < paramSize then .error .errorCmdTooBig
  else if paramSize < getSpaceInCmdq q then .ok q.writeOffset
  else .error .errorCannotGetQueueSpace

def commandSize (dstSyncCount srcSyncCount dataByteSize : ℕ) : ℕ :=
  u32 (u32 (commandHeader + u32 (u32 (dstSyncCount + srcSyncCount) * syncObjectSize)) +
    roundToWord dataByteSize)

/-- The header fields of a command at `p`, in their order. -/
def headerWords (p : ℕ) (c : Command) : List UInt32 :=
  [c.cmdSize, c.devIndex, c.commandType, UInt32.ofNat c.dstSync.length,
    UInt32.ofNat c.srcSync.length, UInt32.ofNat (p + commandHeader),
    UInt32.ofNat (p + commandHeader + syncObjectSize * c.dstSync.length), c.dataSize, c.processId,
    UInt32.ofNat (p + commandHeader + syncObjectSize * c.dstSync.length +
      syncObjectSize * c.srcSync.length)]

/-- What `PVRSRVInsertCommandKM` stores at `p`: the header, and the sync objects behind it. -/
def commandWords (p : ℕ) (c : Command) : List UInt32 :=
  headerWords p c ++ (c.dstSync.flatMap SyncObject.words ++ c.srcSync.flatMap SyncObject.words)

structure Insertion where
  processId : UInt32
  devIndex : UInt32
  commandType : UInt16
  dstSync : List SyncObject
  srcSync : List SyncObject
  dataByteSize : ℕ

def Insertion.command (x : Insertion) : Command where
  cmdSize := UInt32.ofNat (commandSize x.dstSync.length x.srcSync.length x.dataByteSize)
  devIndex := x.devIndex
  commandType := x.commandType.toUInt32
  dstSync := x.dstSync
  srcSync := x.srcSync
  dataSize := UInt32.ofNat (roundToWord x.dataByteSize)
  processId := x.processId
  data := []

/-- `PVRSRVInsertCommandKM` with the counters already taken: the offset of the command. -/
def insertCommand (q : QueueInfo) (x : Insertion) : Except PvrsrvError (ℕ × QueueInfo) :=
  match getQueueSpace q (commandSize x.dstSync.length x.srcSync.length x.dataByteSize) with
  | .error e => .error e
  | .ok p =>
    .ok (p, { q with linQueue := store q.linQueue p (wordBytes (commandWords p x.command)) })

def syncObjects (mem : ℕ → UInt8) : ℕ → ℕ → List SyncObject
  | _, 0 => []
  | p, n + 1 => ⟨word mem p, word mem (p + 4), word mem (p + 8)⟩ ::
      syncObjects mem (p + syncObjectSize) n

def commandAt (mem : ℕ → UInt8) (p : ℕ) : Command where
  cmdSize := word mem p
  devIndex := word mem (p + 4)
  commandType := word mem (p + 8)
  dstSync := syncObjects mem (word mem (p + 20)).toNat (word mem (p + 12)).toNat
  srcSync := syncObjects mem (word mem (p + 24)).toNat (word mem (p + 16)).toNat
  dataSize := word mem (p + 28)
  processId := word mem (p + 32)
  data := copy mem (word mem (p + 36)).toNat (word mem (p + 28)).toNat

/-- The pointers that `PVRSRVSubmitCommandKM` sets again, seen from the write offset. -/
def setPointers (mem : ℕ → UInt8) (p w dstSyncCount srcSyncCount : ℕ) : ℕ → UInt8 :=
  let mem := if 0 < dstSyncCount then
      store mem (p + 20) (wordBytes [UInt32.ofNat (w + commandHeader)]) else mem
  let mem := if 0 < srcSyncCount then
      store mem (p + 24)
        (wordBytes [UInt32.ofNat (w + commandHeader + syncObjectSize * dstSyncCount)]) else mem
  store mem (p + 36) (wordBytes [UInt32.ofNat (w + commandHeader + syncObjectSize * dstSyncCount +
    syncObjectSize * srcSyncCount)])

def submitCommand (q : QueueInfo) (p : ℕ) : QueueInfo :=
  let mem := setPointers q.linQueue p q.writeOffset (word q.linQueue (p + 12)).toNat
    (word q.linQueue (p + 16)).toNat
  updateQueueWoff { q with linQueue := mem } (word mem p).toNat

/-- The command that a pass of `PVRSRVProcessQueues` finds at the read offset. -/
def headCommand (q : QueueInfo) : Option Command :=
  if q.readOffset = q.writeOffset then none else some (commandAt q.linQueue q.readOffset)

/-- One round of the loop of `PVRSRVProcessQueues` over a queue: the command at the read offset
    is taken out if `PVRSRVProcessCommand` has returned `PVRSRV_OK` for it. -/
def takeCommand (q : QueueInfo) (processed : Command → Bool) : Option Command × QueueInfo :=
  match headCommand q with
  | none => (none, q)
  | some c => if processed c then (some c, updateQueueRoff q c.cmdSize.toNat) else (none, q)

/-- A queue, and the command that its user was handed out and has not submitted yet. -/
structure Client where
  queue : QueueInfo
  command : Option ℕ

inductive QueueOp where
  | request (paramSize : ℕ)
  /-- An insertion, after which the user stores the data. -/
  | insert (x : Insertion) (data : List UInt8)
  | submit
  | process (processed : Command → Bool)

inductive QueueAnswer where
  | space (answer : Except PvrsrvError ℕ)
  | inserted (answer : Except PvrsrvError ℕ)
  | submitted (c : Command)
  | taken (c : Option Command)

def step (t : Client) : QueueOp → Option (QueueAnswer × Client)
  | .request n => some (.space (getQueueSpace t.queue n), t)
  | .insert x data =>
    match insertCommand t.queue x with
    | .error e => some (.inserted (.error e), t)
    | .ok (p, q) =>
      let q := { q with linQueue := store q.linQueue (word q.linQueue (p + 36)).toNat data }
      some (.inserted (.ok p), ⟨q, some p⟩)
  | .submit =>
    match t.command with
    | none => none
    | some p =>
      let q := submitCommand t.queue p
      some (.submitted (commandAt q.linQueue p), ⟨q, none⟩)
  | .process processed =>
    let (c, q) := takeCommand t.queue processed
    some (.taken c, ⟨q, t.command⟩)

end PvrServices.Queues
