import Mathlib.Logic.Function.Basic
import PvrServices.LinkedChain
import PvrServices.Services

set_option autoImplicit false

/-!
# The resource manager

`resman.c`. A context lists what its process holds, each item with the callback that frees it.
Contexts and items are named by their addresses; following an address at which there is nothing
has no answer.
-/
namespace PvrServices.Resman
open LinkedChain

inductive ResmanType where
  | sharedPbDesc
  | sharedPbDescCreateLock
  | hwRenderContext
  | hwTransferContext
  | hw2dContext
  | transferContext
  | displayclassSwapchain
  | displayclassDevice
  | bufferclassDevice
  | osUsermodeMapping
  | devicememContext
  | deviceclassmemMapping
  | devicememMapping
  | devicememWrap
  | devicememAllocation
  | eventObject
  | sharedMemInfo
  | kernelDevicememAllocation
deriving DecidableEq, Repr

structure ResmanItem where
  ppsThis : Loc ℕ ℕ
  psNext : Option ℕ
  flags : ℕ
  resType : ResmanType
  pvParam : ℕ
  ui32Param : ℕ
  pfnFreeResource : ℕ
deriving DecidableEq, Repr

structure ResmanContext where
  ppsThis : Loc Unit ℕ
  psNext : Option ℕ
  perProc : ℕ
  resItemList : Option ℕ
deriving DecidableEq, Repr

structure Call where
  item : ℕ
  resType : ResmanType
  pvParam : ℕ
  ui32Param : ℕ
  pfnFreeResource : ℕ
  nested : Bool
deriving DecidableEq, Repr

structure ResList where
  items : ℕ → Option ResmanItem
  contexts : ℕ → Option ResmanContext
  contextList : Option ℕ
  allocated : List ℕ
  calls : List Call

def resManInit : ResList := ⟨fun _ => none, fun _ => none, none, [], []⟩

def ResList.setItem (s : ResList) (p : ℕ) (x : ResmanItem) : ResList :=
  { s with items := Function.update s.items p (some x) }

def ResList.setContext (s : ResList) (c : ℕ) (x : ResmanContext) : ResList :=
  { s with contexts := Function.update s.contexts c (some x) }

def storeItem (s : ResList) (loc : Loc ℕ ℕ) (v : Option ℕ) : Option ResList :=
  match loc with
  | .head c => do
    let x ← s.contexts c
    some (s.setContext c { x with resItemList := v })
  | .next p => do
    let x ← s.items p
    some (s.setItem p { x with psNext := v })

def storeContext (s : ResList) (loc : Loc Unit ℕ) (v : Option ℕ) : Option ResList :=
  match loc with
  | .head () => some { s with contextList := v }
  | .next c => do
    let x ← s.contexts c
    some (s.setContext c { x with psNext := v })

def setItemPlace (s : ResList) (p : Option ℕ) (loc : Loc ℕ ℕ) : Option ResList :=
  match p with
  | none => some s
  | some p => do
    let x ← s.items p
    some (s.setItem p { x with ppsThis := loc })

def setContextPlace (s : ResList) (c : Option ℕ) (loc : Loc Unit ℕ) : Option ResList :=
  match c with
  | none => some s
  | some c => do
    let x ← s.contexts c
    some (s.setContext c { x with ppsThis := loc })

def unlinkItem (s : ResList) (x : ResmanItem) : Option ResList := do
  let s ← setItemPlace s x.psNext x.ppsThis
  storeItem s x.ppsThis x.psNext

/-- The item at `p` goes to the front of the list of the context `c`. -/
def pushItem (s : ResList) (c p : ℕ) (x : ResmanItem) : Option ResList := do
  let ctx ← s.contexts c
  let s := s.setItem p { x with ppsThis := .head c, psNext := ctx.resItemList }
  let s := s.setContext c { ctx with resItemList := some p }
  setItemPlace s ctx.resItemList (.next p)

def pvrsrvResManConnect (s : ResList) (perProc : ℕ) (mem : Option ℕ) :
    Option (Except PvrsrvError ℕ × ResList) :=
  match mem with
  | none => some (.error .errorOutOfMemory, s)
  | some c => do
    let first := s.contextList
    let s := s.setContext c ⟨.head (), first, perProc, none⟩
    let s := { s with contextList := some c }
    let s ← setContextPlace s first (.next c)
    some (.ok c, s)

def resManRegisterRes (s : ResList) (c : ℕ) (resType : ResmanType)
    (pvParam ui32Param pfnFreeResource : ℕ) (mem : Option ℕ) : Option (Option ℕ × ResList) :=
  match mem with
  | none => some (none, s)
  | some p => do
    let s := { s with allocated := p :: s.allocated }
    let s ← pushItem s c p ⟨.head c, none, 0, resType, pvParam, ui32Param, pfnFreeResource⟩
    some (some p, s)

/-- Which items `find_res_by_crit` accepts: each field is asked for or not. -/
structure Criteria where
  resType : Option ResmanType
  pvParam : Option ℕ
  ui32Param : Option ℕ
deriving DecidableEq, Repr

def Criteria.accepts (crit : Criteria) (x : ResmanItem) : Bool :=
  crit.resType.all (· = x.resType) && crit.pvParam.all (· = x.pvParam) &&
    crit.ui32Param.all (· = x.ui32Param)

/-- The walk along `psNext`, as far as there is memory allocated. -/
def findItem (s : ResList) (accepts : ℕ → ResmanItem → Bool) : ℕ → Option ℕ → Option (Option ℕ)
  | _, none => some none
  | 0, some _ => none
  | n + 1, some p =>
    match s.items p with
    | none => none
    | some x => if accepts p x then some (some p) else findItem s accepts n x.psNext

def findResByCrit (s : ResList) (c : ℕ) (crit : Criteria) : Option (Option ℕ) := do
  let ctx ← s.contexts c
  findItem s (fun _ x => crit.accepts x) s.allocated.length ctx.resItemList

def resManFindResourceByPtr (s : ResList) (c p : ℕ) : Option PvrsrvError := do
  let ctx ← s.contexts c
  let found ← findItem s (fun q _ => q = p) s.allocated.length ctx.resItemList
  some (if found.isSome then .ok else .errorNotOwner)

inductive Request where
  | byPtr (c p : ℕ)
  | byCriteria (c : ℕ) (crit : Criteria)
deriving DecidableEq, Repr

/-- A callback: requests, each chosen in the light of the calls made so far, and then an answer. -/
inductive Script where
  | done (e : PvrsrvError)
  | free (r : Request) (next : List Call → Script)

/-- The callbacks of the items, in the light of the calls made so far. -/
abbrev Callbacks : Type := ℕ → List Call → Script

def freeWhileFound (free : ResList → ℕ → Option ResList) (c : ℕ) (crit : Criteria) :
    ℕ → ResList → Option (ℕ × ResList)
  | 0, _ => none
  | n + 1, s => do
    match ← findResByCrit s c crit with
    | none => some (0, s)
    | some p =>
      let s ← free s p
      let (freed, s) ← freeWhileFound free c crit n s
      some (freed + 1, s)

def freeResourceByCriteria (free : ResList → ℕ → Option ResList) (s : ResList) (c : ℕ)
    (crit : Criteria) : Option (ℕ × ResList) :=
  freeWhileFound free c crit (s.allocated.length + 1) s

/-- A callback runs; it frees items by their address only while they are registered. -/
def runScript (free : ResList → ℕ → Option ResList) : Script → ResList → Option ResList
  | .done _, s => some s
  | .free (.byPtr c p) next, s => do
    let e ← resManFindResourceByPtr s c p
    if e = .ok then
      let s ← free s p
      runScript free (next s.calls) s
    else runScript free (next s.calls) s
  | .free (.byCriteria c crit) next, s => do
    let (_, s) ← freeResourceByCriteria free s c crit
    runScript free (next s.calls) s

def ResList.freeItem (s : ResList) (p : ℕ) : Option ResList :=
  if (s.items p).isSome then
    some { s with items := Function.update s.items p none, allocated := s.allocated.erase p }
  else none

def callOf (p : ℕ) (x : ResmanItem) (nested : Bool) : Call :=
  ⟨p, x.resType, x.pvParam, x.ui32Param, x.pfnFreeResource, nested⟩

/-- `FreeResourceByPtr`, with a bound on how deep callbacks are called from callbacks. -/
def freeResourceByPtr (cb : Callbacks) (executeCallback : Bool) :
    ℕ → Bool → ResList → ℕ → Option ResList
  | 0, _, _, _ => none
  | n + 1, nested, s, p => do
    let x ← s.items p
    let s ← unlinkItem s x
    if executeCallback then
      let s := { s with calls := s.calls ++ [callOf p x nested] }
      let s ← runScript (freeResourceByPtr cb true n true) (cb p s.calls) s
      s.freeItem p
    else s.freeItem p

def resManFreeResByPtr (cb : Callbacks) (s : ResList) (p : ℕ) : Option ResList :=
  freeResourceByPtr cb true (s.allocated.length + 1) false s p

def resManFreeResByCriteria (cb : Callbacks) (s : ResList) (c : ℕ) (crit : Criteria) :
    Option (ℕ × ResList) :=
  freeResourceByCriteria (freeResourceByPtr cb true (s.allocated.length + 1) false) s c crit

def resManDissociateRes (s : ResList) (p : ℕ) (c : Option ℕ) : Option ResList :=
  match c with
  | some c => do
    let x ← s.items p
    let s ← unlinkItem s x
    let x ← s.items p
    pushItem s c p x
  | none => freeResourceByPtr (fun _ _ => .done .ok) false 1 false s p

def freeOneRes (cb : Callbacks) (s : ResList) (c : ℕ) (t : ResmanType) : Option (ℕ × ResList) :=
  resManFreeResByCriteria cb s c ⟨some t, none, none⟩

/-- The types in the order in which `PVRSRVResManDisconnect` frees them. -/
def disconnectOrder : List ResmanType :=
  [.osUsermodeMapping, .eventObject, .hwRenderContext, .hwTransferContext, .hw2dContext,
    .transferContext, .sharedPbDescCreateLock, .sharedPbDesc, .displayclassSwapchain,
    .displayclassDevice, .bufferclassDevice, .deviceclassmemMapping, .devicememWrap,
    .devicememMapping, .kernelDevicememAllocation, .devicememAllocation, .devicememContext]

def freeTypes (cb : Callbacks) (c : ℕ) : List ResmanType → ResList → Option ResList
  | [], s => some s
  | t :: ts, s => do
    let (_, s) ← freeOneRes cb s c t
    freeTypes cb c ts s

/-- `PVRSRVResManDisconnect`, and the items that are still listed when it frees the context. -/
def pvrsrvResManDisconnect (cb : Callbacks) (s : ResList) (c : ℕ) (kernelContext : Bool) :
    Option (Option ℕ × ResList) := do
  let s ← (if kernelContext then some s else freeTypes cb c disconnectOrder s)
  let ctx ← s.contexts c
  let s ← storeContext s ctx.ppsThis ctx.psNext
  let s ← setContextPlace s ctx.psNext ctx.ppsThis
  some (ctx.resItemList, { s with contexts := Function.update s.contexts c none })

end PvrServices.Resman
