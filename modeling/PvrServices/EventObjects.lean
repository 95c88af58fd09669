import PvrServices.KeyedList
import PvrServices.Runs
import PvrServices.Services
import PvrServices.Words

set_option autoImplicit false

/-!
# Event objects

`event.c` and the three bridge calls on event objects, with the open files and processes that they
belong to. A call has the lock of the driver from its start to its end; only a wait gives it up
while it sleeps, so a run is a sequence of calls, of sleeps that end and of signals. An event
object keeps its name when it is freed and a new one gets a new name; counts of open files are
natural numbers.
-/
namespace PvrServices.EventObjects
open Words KeyedList Runs

structure EventObject where
  sTimeStamp : ℕ
  timeStampPrevious : ℕ
  hResItem : ℕ
deriving DecidableEq, Repr

/-- A `struct RESMAN_ITEM` of an event object, at its address. -/
structure Item where
  address : ℕ
  process : ℕ
  pvParam : ℕ
deriving DecidableEq, Repr

/-- A thread that sleeps in `LinuxEventObjectWait`, with the file of its call and the `ui32TimeStamp`
    that it has read. -/
structure Sleeper where
  thread : ℕ
  file : ℕ
  object : ℕ
  timeStamp : ℕ
deriving DecidableEq, Repr

structure OpenFile where
  file : ℕ
  process : ℕ
deriving DecidableEq, Repr

/-- What stops the machine: an access to an event object that is freed, or a `BUG_ON`. -/
inductive Fault where
  | freed
  | bug
deriving DecidableEq, Repr

/-- `objects` are the event objects in memory, `next` the name of the next one and `freed` the
    names that `OSFreeMem` was called with. `items` are in the order of the lists of their
    processes. -/
structure System where
  objects : ℕ → Option EventObject
  next : ℕ
  freed : List ℕ
  eventList : List ℕ
  items : List Item
  handles : ℕ → ℕ → Option ℕ
  files : List OpenFile
  refCount : ℕ → ℕ
  sleepers : List Sleeper
  disabled : Bool
  halted : Bool

def systemInit : System :=
  ⟨fun _ => none, 0, [], [], [], fun _ _ => none, [], fun _ => 0, [], false, false⟩

inductive Answer where
  | returned (r : PvrsrvError)
  | opened (handle : ℕ)
  | noDevice
  | noMemory
  | sleeps
  | fault (e : Fault)
deriving DecidableEq, Repr

def System.object (s : System) (o : ℕ) : Except Fault EventObject :=
  (s.objects o).elim (.error .freed) .ok

def System.touch (s : System) (os : List ℕ) : Except Fault Unit :=
  if os.all fun o => (s.objects o).isSome then .ok () else .error .freed

def System.setObject (s : System) (o : ℕ) (x : EventObject) : System :=
  { s with objects := Function.update s.objects o (some x) }

/-- The neighbours of an entry of a list, whose links `list_del` sets. -/
def neighbours (l : List ℕ) (o : ℕ) : List ℕ :=
  (l.zip l.tail).filterMap fun x =>
    if x.1 = o then some x.2 else if x.2 = o then some x.1 else none

def deleteCallback (s : System) (o : ℕ) : Except Fault System := do
  let _ ← s.object o
  let _ ← s.touch (neighbours s.eventList o)
  .ok { s with
    eventList := s.eventList.erase o
    objects := Function.update s.objects o none
    freed := s.freed ++ [o] }

def freeResource (s : System) (a : ℕ) : Except Fault System :=
  (s.items.find? fun k => k.address = a).elim (.error .freed) fun k =>
    deleteCallback { s with items := dropKey Item.address s.items a } k.pvParam

def eventObjectDelete (s : System) (o : ℕ) : Except Fault System := do
  let x ← s.object o
  if x.hResItem = 0 then .error .bug else freeResource s x.hResItem

def freeResources (s : System) : List ℕ → Except Fault System
  | [] => .ok s
  | a :: as => do
    let s ← freeResource s a
    freeResources s as

def eventObjectAdd (s : System) (process : ℕ) (item : Option ℕ) :
    Except Fault (ℕ × System) := do
  let _ ← s.touch s.eventList.head?.toList
  .ok (s.next, { s with
    objects := Function.update s.objects s.next (some ⟨0, 0, item.getD 0⟩)
    next := s.next + 1
    eventList := s.next :: s.eventList
    items := (item.map fun a => ⟨a, process, s.next⟩).toList ++ s.items })

def finishWait (s : System) (o timeStamp : ℕ) (r : PvrsrvError) :
    Except Fault (Answer × System) := do
  let x ← s.object o
  .ok (.returned r, s.setObject o { x with timeStampPrevious := timeStamp })

/-- A turn of the loop of `LinuxEventObjectWait` up to its sleep. -/
def prepareToWait (s : System) (thread file o : ℕ) : Except Fault (Answer × System) := do
  let x ← s.object o
  if x.timeStampPrevious ≠ x.sTimeStamp then finishWait s o x.sTimeStamp .ok
  else .ok (.sleeps, { s with sleepers := ⟨thread, file, o, x.sTimeStamp⟩ :: s.sleepers })

def wake (s : System) (w : Sleeper) (left : ℕ) : Except Fault (Answer × System) :=
  let s := { s with sleepers := dropKey Sleeper.thread s.sleepers w.thread }
  if s.disabled then finishWait s w.object w.timeStamp .ok
  else if left = 0 then finishWait s w.object w.timeStamp .errorTimeout
  else prepareToWait s w.thread w.file w.object

def eventObjectSignal (s : System) : List ℕ → Except Fault System
  | [] => .ok s
  | o :: os => do
    let x ← s.object o
    eventObjectSignal (s.setObject o { x with sTimeStamp := u32 (x.sTimeStamp + 1) }) os

def misr (s : System) : Except Fault (Answer × System) :=
  if s.disabled then .ok (.returned .ok, s)
  else do
    let s ← eventObjectSignal s s.eventList
    .ok (.returned .ok, s)

def System.processOf (s : System) (f : ℕ) : Option ℕ :=
  (s.files.find? fun x => x.file = f).map OpenFile.process

/-- `PVRSRVEventObjectOpenBW`: `found` says whether the handle batch and the lookup of the list
    succeed, `mem` is the memory of the object and `handle` the answer of the commit. -/
structure OpenCall where
  file : ℕ
  found : Bool
  mem : Bool
  item : Option ℕ
  handle : Option ℕ
deriving DecidableEq, Repr

def openHandle (p : ℕ) (c : OpenCall) (o : ℕ) (s : System) : Answer × System :=
  c.handle.elim (.returned .errorOutOfMemory, s) fun h =>
    (.opened h, { s with
      handles := Function.update s.handles p (Function.update (s.handles p) h (some o)) })

def eventObjectOpenBW (s : System) (p : ℕ) (c : OpenCall) : Except Fault (Answer × System) :=
  if s.disabled then .ok (.noDevice, s)
  else if c.found = false then .ok (.returned .errorGeneric, s)
  else if c.mem = false then .ok (.returned .errorInvalidParams, s)
  else do
    let (o, s) ← eventObjectAdd s p c.item
    .ok (openHandle p c o s)

def eventObjectWaitBW (s : System) (p thread file h : ℕ) : Except Fault (Answer × System) :=
  if s.disabled then .ok (.noDevice, s)
  else (s.handles p h).elim (.ok (.returned .errorGeneric, s)) fun o =>
    prepareToWait s thread file o

def System.releaseHandle (s : System) (p h : ℕ) : System :=
  { s with handles := Function.update s.handles p (Function.update (s.handles p) h none) }

def closeObject (s : System) (p h o : ℕ) : Except Fault (Answer × System) := do
  let s ← eventObjectDelete (s.releaseHandle p h) o
  .ok (.returned .ok, s)

def eventObjectCloseBW (s : System) (p : ℕ) (found : Bool) (h : ℕ) :
    Except Fault (Answer × System) :=
  if s.disabled then .ok (.noDevice, s)
  else if found = false then .ok (.returned .errorGeneric, s)
  else (s.handles p h).elim (.ok (.returned .errorGeneric, s)) (closeObject s p h)

/-- `pvr_open`: `data` says whether the data of a new process is made, `priv` whether there is memory
    for the data of the file. -/
def pvrOpen (s : System) (p f : ℕ) (data priv : Bool) : Answer × System :=
  if s.disabled then (.noDevice, s)
  else if s.refCount p = 0 ∧ data = false then (.noMemory, s)
  else
    let s := { s with refCount := Function.update s.refCount p (s.refCount p + 1) }
    if priv then (.returned .ok, { s with files := ⟨f, p⟩ :: s.files }) else (.noMemory, s)

def processExit (s : System) (p : ℕ) : Except Fault (Answer × System) := do
  let s ← freeResources s ((s.items.filter fun k => k.process = p).map Item.address)
  .ok (.returned .ok, { s with handles := Function.update s.handles p fun _ => none })

def pvrRelease (s : System) (p f : ℕ) : Except Fault (Answer × System) :=
  let s := { s with
    files := dropKey OpenFile.file s.files f
    refCount := Function.update s.refCount p (s.refCount p - 1) }
  if s.refCount p = 0 then processExit s p else .ok (.returned .ok, s)

inductive Op where
  | openFile (process file : ℕ) (data priv : Bool)
  | releaseFile (file : ℕ)
  | eventOpen (c : OpenCall)
  | eventWait (thread file handle : ℕ)
  | wake (thread left : ℕ)
  | eventClose (file : ℕ) (found : Bool) (handle : ℕ)
  | signal
  | disable
deriving DecidableEq, Repr

def OpenCall.Fits (c : OpenCall) (s : System) (p : ℕ) : Prop :=
  (∀ a ∈ c.item, a ≠ 0 ∧ ∀ k ∈ s.items, k.address ≠ a) ∧
    ∀ h ∈ c.handle, (s.handles p h).isNone

instance (c : OpenCall) (s : System) (p : ℕ) : Decidable (c.Fits s p) :=
  inferInstanceAs (Decidable (_ ∧ _))

def finish (s : System) : Except Fault (Answer × System) → Answer × System
  | .ok r => r
  | .error e => (.fault e, { s with halted := true })

/-- A file stays open while a thread is in a call on it, and a thread that sleeps is in its call. -/
def act (s : System) : Op → Option (Answer × System)
  | .openFile p f data priv =>
    if s.processOf f = none then some (pvrOpen s p f data priv) else none
  | .releaseFile f => (s.processOf f).bind fun p =>
    if s.sleepers.any fun w => w.file = f then none else some (finish s (pvrRelease s p f))
  | .eventOpen c => (s.processOf c.file).bind fun p =>
    if c.Fits s p then some (finish s (eventObjectOpenBW s p c)) else none
  | .eventWait thread f h => (s.processOf f).bind fun p =>
    if s.sleepers.any fun w => w.thread = thread then none
    else some (finish s (eventObjectWaitBW s p thread f h))
  | .wake thread left => (s.sleepers.find? fun w => w.thread = thread).map fun w =>
    finish s (wake s w left)
  | .eventClose f found h => (s.processOf f).map fun p =>
    finish s (eventObjectCloseBW s p found h)
  | .signal => some (finish s (misr s))
  | .disable => some (.returned .ok, { s with disabled := true })

def step (s : System) (op : Op) : Option (Answer × System) :=
  if s.halted then none else act s op

end PvrServices.EventObjects
