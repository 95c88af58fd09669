import Mathlib.Data.List.Count
import Mathlib.Logic.Function.Basic
import PvrServices.Words

set_option autoImplicit false

/-!
# Events for readers of the device file

`pvr_events.c`. A client asks to be told when a render is complete; the request waits on a list
of the whole driver, moves to the queue of its file and leaves it through `pvr_read`. Events, files
and sync objects are named by their addresses. Requests for flips answer `-EFAULT`, so the list of
flips is always empty and is left out.
-/
namespace PvrServices.Events
open Words

/-- The counters of `struct PVRSRV_SYNC_DATA` that the events look at. -/
structure SyncData where
  writeOpsPending : ℕ
  writeOpsComplete : ℕ
deriving DecidableEq, Repr

structure PendingSyncEvent where
  length : ℕ
  syncInfo : ℕ
  userData : ℕ
  tvSec : ℕ
  tvUsec : ℕ
  filePriv : ℕ
  writeOpsPending : ℕ
deriving DecidableEq, Repr

structure FilePrivateData where
  eventList : List ℕ
  eventSpace : ℕ
deriving DecidableEq, Repr

structure ReadCall where
  thread : ℕ
  file : ℕ
  count : ℕ
  total : ℕ
  event : Option ℕ
deriving DecidableEq, Repr

structure EventState where
  events : ℕ → Option PendingSyncEvent
  files : ℕ → Option FilePrivateData
  syncData : ℕ → SyncData
  syncWaitList : List ℕ
  reads : List ReadCall

inductive Errno where
  | enomem
  | efault
  | erestartsys
deriving DecidableEq, Repr

def eventInit : EventState := ⟨fun _ => none, fun _ => none, fun _ => ⟨0, 0⟩, [], []⟩

def sizeofEventSync : ℕ := 32

def eventSpaceMax : ℕ := 4096

/-- The difference of the counters as a signed word is not negative. -/
def isRenderComplete (sync : SyncData) (writeOpsPending : ℕ) : Bool :=
  u32Sub sync.writeOpsComplete writeOpsPending < 2147483648

def EventState.setEvent (s : EventState) (e : ℕ) (ev : PendingSyncEvent) : EventState :=
  { s with events := Function.update s.events e (some ev) }

def EventState.setFile (s : EventState) (f : ℕ) (priv : FilePrivateData) : EventState :=
  { s with files := Function.update s.files f (some priv) }

def EventState.kfree (s : EventState) (e : ℕ) : Option EventState :=
  if (s.events e).isSome then some { s with events := Function.update s.events e none } else none

def pvrSignalSyncEvent (s : EventState) (e : ℕ) (now : ℕ × ℕ) : Option EventState := do
  let ev ← s.events e
  let priv ← s.files ev.filePriv
  let s := s.setEvent e { ev with tvSec := now.1, tvUsec := now.2 }
  let s := s.setFile ev.filePriv { priv with eventList := priv.eventList ++ [e] }
  some { s with syncWaitList := s.syncWaitList.erase e }

def pvrSyncEventReq (s : EventState) (f syncInfo userData : ℕ) (mem : Option ℕ) (now : ℕ × ℕ) :
    Option (Except Errno Unit × EventState) :=
  match mem with
  | none => some (.error .enomem, s)
  | some e => do
    let pending := (s.syncData syncInfo).writeOpsPending
    let priv ← s.files f
    if priv.eventSpace < sizeofEventSync then some (.error .enomem, s)
    else do
      let s := s.setEvent e ⟨sizeofEventSync, syncInfo, userData, 0, 0, f, pending⟩
      let s := s.setFile f { priv with eventSpace := priv.eventSpace - sizeofEventSync }
      let s := { s with syncWaitList := s.syncWaitList ++ [e] }
      let s ← (if isRenderComplete (s.syncData syncInfo) pending then pvrSignalSyncEvent s e now
        else some s)
      some (.ok (), s)

def handleSyncEvent (now : ℕ × ℕ) (s : EventState) (e : ℕ) : Option EventState := do
  let ev ← s.events e
  if isRenderComplete (s.syncData ev.syncInfo) ev.writeOpsPending then pvrSignalSyncEvent s e now
  else some s

def pvrHandleSyncEvents (s : EventState) (now : ℕ × ℕ) : Option EventState :=
  s.syncWaitList.foldlM (handleSyncEvent now) s

def pvrDequeueEvent (s : EventState) (f total max : ℕ) : Option (Option ℕ × EventState) := do
  let priv ← s.files f
  match priv.eventList with
  | [] => some (none, s)
  | e :: rest => do
    let ev ← s.events e
    if ev.length + total > max then some (none, s)
    else some (some e, s.setFile f ⟨rest, priv.eventSpace + ev.length⟩)

def EventState.read? (s : EventState) (thread : ℕ) : Option ReadCall :=
  s.reads.find? fun rd => rd.thread = thread

def EventState.setRead (s : EventState) (rd : ReadCall) : EventState :=
  { s with reads := rd :: s.reads.filter fun r => r.thread ≠ rd.thread }

def EventState.endRead (s : EventState) (thread : ℕ) : EventState :=
  { s with reads := s.reads.filter fun r => r.thread ≠ thread }

def pvrReadStart (s : EventState) (thread f count : ℕ) (interrupted : Bool) :
    Option (Except Errno Unit × EventState) :=
  if interrupted then some (.error .erestartsys, s)
  else some (.ok (), s.setRead ⟨thread, f, count, 0, none⟩)

/-- The head of the loop of `pvr_read`; without an event the call returns `total`. -/
def pvrReadDequeue (s : EventState) (thread : ℕ) : Option (Option ℕ × EventState) := do
  let rd ← s.read? thread
  let (e, s) ← pvrDequeueEvent s rd.file rd.total rd.count
  match e with
  | none => some (some rd.total, s.endRead thread)
  | some e => some (none, s.setRead { rd with event := some e })

def pvrReadCopy (s : EventState) (thread : ℕ) (copied : Bool) :
    Option (Except Errno PendingSyncEvent × EventState) := do
  let rd ← s.read? thread
  let e ← rd.event
  let ev ← s.events e
  if copied then do
    let s ← s.kfree e
    some (.ok ev, s.setRead { rd with total := rd.total + ev.length, event := none })
  else some (.error .efault, s.endRead thread)

def kfreeAll (s : EventState) (l : List ℕ) : Option EventState := l.foldlM EventState.kfree s

def EventState.waitsFor (s : EventState) (f e : ℕ) : Bool :=
  (s.events e).any fun ev => ev.filePriv = f

def pvrRelease (s : EventState) (f : ℕ) : Option EventState := do
  let priv ← s.files f
  let pending := s.syncWaitList.filter (s.waitsFor f)
  let s := { s with syncWaitList := s.syncWaitList.filter fun e => !s.waitsFor f e }
  let s ← kfreeAll s pending
  let s ← kfreeAll s priv.eventList
  some { s with files := Function.update s.files f none }

def pvrOpen (s : EventState) (f : ℕ) : EventState := s.setFile f ⟨[], eventSpaceMax⟩

inductive EventOp where
  | openFile (f : ℕ)
  | setSyncData (syncInfo : ℕ) (data : SyncData)
  | request (f syncInfo userData : ℕ) (mem : Option ℕ) (now : ℕ × ℕ)
  | handle (now : ℕ × ℕ)
  | readStart (thread f count : ℕ) (interrupted : Bool)
  | readDequeue (thread : ℕ)
  | readCopy (thread : ℕ) (copied : Bool)
  | release (f : ℕ)
deriving DecidableEq, Repr

inductive EventReply where
  | done
  | requested (answer : Except Errno Unit)
  | started (answer : Except Errno Unit)
  | returned (total : Option ℕ)
  | copied (answer : Except Errno PendingSyncEvent)

def eventStep (s : EventState) : EventOp → Option (EventReply × EventState)
  | .openFile f => some (.done, pvrOpen s f)
  | .setSyncData y data => some (.done, { s with syncData := Function.update s.syncData y data })
  | .request f y userData mem now =>
    (pvrSyncEventReq s f y userData mem now).map fun r => (.requested r.1, r.2)
  | .handle now => (pvrHandleSyncEvents s now).map fun s => (.done, s)
  | .readStart thread f count interrupted =>
    (pvrReadStart s thread f count interrupted).map fun r => (.started r.1, r.2)
  | .readDequeue thread => (pvrReadDequeue s thread).map fun r => (.returned r.1, r.2)
  | .readCopy thread copied => (pvrReadCopy s thread copied).map fun r => (.copied r.1, r.2)
  | .release f => (pvrRelease s f).map fun s => (.done, s)

end PvrServices.Events
