import PvrServices.HandleContract
import PvrServices.HashTableMap
import PvrServices.ResmanContexts

set_option autoImplicit false

/-!
# The data of a process

`perproc.c`. The first connect of a process makes its record in steps, each of which can fail. What
clears the record away again after a failed step is also what frees it at the last disconnect.
Records, handle bases, contexts and the private data of the operating system are named by their
addresses, and 0 is `NULL`.
-/
namespace PvrServices.PerProcesses
open Words HashTable Handles Resman

def hashTabInitSize : ℕ := 32
def maxMmapHandle : ℕ := 0x7fffffff
def handleAllocFlagNone : AllocFlag := ⟨false, false, false⟩
def hashPid (pid : ℕ) : ℕ := hashFuncDefault [pid]

structure PerProc where
  pid : ℕ
  refCount : ℕ
  osPrivateData : Option ℕ
  handleBase : Option ℕ
  perProcData : ℕ
  resManContext : Option ℕ
deriving DecidableEq, Repr

/-- The hash table, the kernel's handle base, the resource manager and what is allocated. -/
structure PerProcs where
  os : Os
  hashTab : Table ℕ
  records : ℕ → Option PerProc
  osPrivates : ℕ → Bool
  bases : ℕ → Option HandleBase
  kernelBase : HandleBase
  resman : ResList

def PerProcs.setRecord (s : PerProcs) (p : ℕ) (x : PerProc) : PerProcs :=
  { s with records := Function.update s.records p (some x) }

/-- The answers of the allocator to a connect that makes a record: the address of each block, or
    `none`. The handle base comes with the allocator for its own blocks. -/
structure ConnectMem where
  record : Option ℕ
  osPrivate : Option ℕ
  base : Option ℕ
  baseOs : Os
  junk : ℕ → Handle
  context : Option ℕ

def thenDo (r : PvrsrvError × PerProcs) (next : PerProcs → Option (PvrsrvError × PerProcs)) :
    Option (PvrsrvError × PerProcs) :=
  match r with
  | (.ok, s) => next s
  | (e, s) => some (e, s)

def freeHandlesFrom : ℕ → ℕ → HandleBase → Option (PvrsrvError × HandleBase)
  | 0, _, b => some (.ok, b)
  | n + 1, i, b =>
    if (b.handleArray i).type = .none then freeHandlesFrom n (i + 1) b
    else
      match freeHandle (freeFuel b) b i with
      | none => none
      | some (.ok, b) =>
        if b.freeHandCount = b.totalHandCount then some (.ok, b)
        else freeHandlesFrom n (i + 1) b
      | some (e, b) => some (e, b)

def freeAllHandles (b : HandleBase) : Option (PvrsrvError × HandleBase) :=
  if b.freeHandCount = b.totalHandCount then some (.ok, b)
  else freeHandlesFrom b.totalHandCount 0 b

def freeHandleBase (b : HandleBase) : Option (PvrsrvError × HandleBase) := do
  let b ← (if handlesBatched b then pvrsrvReleaseHandleBatch b else some b)
  freeAllHandles b

def freeProcessBase (s : PerProcs) : Option ℕ → Option (PvrsrvError × PerProcs)
  | none => some (.ok, s)
  | some q => do
    let b ← s.bases q
    let (e, b) ← freeHandleBase b
    if e = .ok then some (.ok, { s with bases := Function.update s.bases q none })
    else some (e, { s with bases := Function.update s.bases q (some b) })

def releasePerProcHandle (s : PerProcs) (h : ℕ) : Option (PvrsrvError × PerProcs) :=
  if h = 0 then some (.ok, s)
  else do
    let (e, b) ← pvrsrvReleaseHandle s.kernelBase h .perprocData
    some (e, { s with kernelBase := b })

def osPerProcessPrivateDataDeInit (s : PerProcs) : Option ℕ → PvrsrvError × PerProcs
  | none => (.ok, s)
  | some d => (.ok, { s with osPrivates := Function.update s.osPrivates d false })

def freeRecord (s : PerProcs) (p : ℕ) : PerProcs :=
  { s with records := Function.update s.records p none }

/-- `FreePerProcessData`. The word that leaves the hash table is only compared in assertions. -/
def freePerProcessData (s : PerProcs) (p : ℕ) : Option (PvrsrvError × PerProcs) := do
  let x ← s.records p
  let removed := hashRemoveExtended hashPid s.os s.hashTab x.pid
  let r ← freeProcessBase { s with hashTab := removed.2.1, os := removed.2.2 } x.handleBase
  thenDo r fun s => do
    let r ← releasePerProcHandle s x.perProcData
    thenDo r fun s => thenDo (osPerProcessPrivateDataDeInit s x.osPrivateData) fun s =>
      some (.ok, freeRecord s p)

def pvrsrvPerProcessData (s : PerProcs) (pid : ℕ) : ℕ :=
  hashRetrieveExtended hashPid s.hashTab pid

def allocRecord (s : PerProcs) (p : ℕ) : PerProcs :=
  s.setRecord p ⟨0, 0, none, none, 0, none⟩

def insertRecord (s : PerProcs) (p pid : ℕ) : PvrsrvError × PerProcs :=
  let (inserted, hashTab, os) := hashInsertExtended hashPid s.os s.hashTab pid p
  (if inserted then .ok else .errorGeneric, { s with hashTab := hashTab, os := os })

def nameRecord (s : PerProcs) (p pid : ℕ) : Option PerProcs := do
  let x ← s.records p
  some (s.setRecord p { x with pid := pid, refCount := 0 })

def osPerProcessPrivateDataInit (s : PerProcs) (p : ℕ) :
    Option ℕ → Option (PvrsrvError × PerProcs)
  | none => some (.errorOutOfMemory, s)
  | some d => do
    let x ← s.records p
    let s := { s with osPrivates := Function.update s.osPrivates d true }
    some (.ok, s.setRecord p { x with osPrivateData := some d })

def allocPerProcHandle (s : PerProcs) (p : ℕ) : Option (PvrsrvError × PerProcs) := do
  let (e, h, b) ← pvrsrvAllocHandle s.kernelBase p .perprocData handleAllocFlagNone
  let x ← s.records p
  some (e, { s with kernelBase := b }.setRecord p { x with perProcData := h })

def allocProcessBase (s : PerProcs) (p : ℕ) (mem : ConnectMem) :
    Option (PvrsrvError × PerProcs) := do
  match mem.base, pvrsrvAllocHandleBase mem.baseOs mem.junk with
  | none, _ => some (.errorOutOfMemory, s)
  | some _, .error e => some (e, s)
  | some q, .ok b => do
    let x ← s.records p
    let s := { s with bases := Function.update s.bases q (some b) }
    some (.ok, s.setRecord p { x with handleBase := some q })

def setHandleOptions (s : PerProcs) (p : ℕ) : Option (PvrsrvError × PerProcs) := do
  let x ← s.records p
  let q ← x.handleBase
  let b ← s.bases q
  let (e, b) := pvrsrvSetMaxHandle b maxMmapHandle
  some (e, { s with bases := Function.update s.bases q (some b) })

def connectResMan (s : PerProcs) (p : ℕ) (mem : Option ℕ) : Option (PvrsrvError × PerProcs) := do
  let x ← s.records p
  let (c, resman) ← pvrsrvResManConnect s.resman p mem
  match c with
  | .error e => some (e, { s with resman := resman })
  | .ok c => some (.ok, { s with resman := resman }.setRecord p { x with resManContext := some c })

def buildRecord (s : PerProcs) (p pid : ℕ) (mem : ConnectMem) : Option (PvrsrvError × PerProcs) :=
  thenDo (insertRecord s p pid) fun s => do
    let s ← nameRecord s p pid
    let r ← osPerProcessPrivateDataInit s p mem.osPrivate
    thenDo r fun s => do
      let r ← allocPerProcHandle s p
      thenDo r fun s => do
        let r ← allocProcessBase s p mem
        thenDo r fun s => do
          let r ← setHandleOptions s p
          thenDo r fun s => connectResMan s p mem.context

def addRef (s : PerProcs) (p : ℕ) : Option (PvrsrvError × PerProcs) := do
  let x ← s.records p
  some (.ok, s.setRecord p { x with refCount := u32 (x.refCount + 1) })

/-- What follows the steps: the reference, or the clean-up under the label `failure`. -/
def endConnect (p : ℕ) : PvrsrvError × PerProcs → Option (PvrsrvError × PerProcs)
  | (.ok, s) => addRef s p
  | (e, s) => do
    let (_, s) ← freePerProcessData s p
    some (e, s)

def pvrsrvPerProcessDataConnect (s : PerProcs) (pid : ℕ) (mem : ConnectMem) :
    Option (PvrsrvError × PerProcs) :=
  if pvrsrvPerProcessData s pid ≠ 0 then addRef s (pvrsrvPerProcessData s pid)
  else
    match mem.record with
    | none => some (.errorOutOfMemory, s)
    | some p => do
      let r ← buildRecord (allocRecord s p) p pid mem
      endConnect p r

/-- The last reference is gone. What `FreePerProcessData` answers is only printed. -/
def lastDisconnect (cb : Callbacks) (s : PerProcs) (p : ℕ) : Option PerProcs := do
  let x ← s.records p
  let c ← x.resManContext
  let (_, resman) ← pvrsrvResManDisconnect cb s.resman c false
  let (_, s) ← freePerProcessData { s with resman := resman } p
  some s

def dropRef (cb : Callbacks) (s : PerProcs) (p : ℕ) : Option PerProcs := do
  let x ← s.records p
  let x := { x with refCount := u32Sub x.refCount 1 }
  let s := s.setRecord p x
  if x.refCount = 0 then lastDisconnect cb s p else some s

/-- `PVRSRVPerProcessDataDisconnect`: the kernel's handles are purged each time. -/
def pvrsrvPerProcessDataDisconnect (cb : Callbacks) (s : PerProcs) (pid : ℕ) :
    Option PerProcs := do
  let p := pvrsrvPerProcessData s pid
  let s ← (if p = 0 then some s else dropRef cb s p)
  some { s with kernelBase := (pvrsrvPurgeHandles s.kernelBase).2 }

end PvrServices.PerProcesses
