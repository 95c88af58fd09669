import Mathlib.Algebra.Ring.Nat
import PvrServices.MmapBase

set_option autoImplicit false

/-!
# Memory areas of the services

`osfunc.c`. An area is made by `mm.c`, put on the list of `mmap.c` if processes may map it, taken
off that list again and freed. Whether it goes on the list and off it is read from a flags word
each time.
-/
namespace PvrServices.OsAreas
open Words Mmaps

def memRead : ℕ := 2 ^ 0
def memWrite : ℕ := 2 ^ 1
def memNoSyncobj : ℕ := 2 ^ 3
def memInterleaved : ℕ := 2 ^ 4
def memDummy : ℕ := 2 ^ 5
def memZero : ℕ := 2 ^ 7
def memUserSuppliedDevvaddr : ℕ := 2 ^ 8
def memRamBackedAllocation : ℕ := 2 ^ 9
def hapCached : ℕ := 2 ^ 12
def hapUncached : ℕ := 2 ^ 13
def hapWritecombine : ℕ := 2 ^ 14
def hapCachetypeMask : ℕ := hapCached ||| hapUncached ||| hapWritecombine
def hapKernelOnly : ℕ := 2 ^ 15
def hapSingleProcess : ℕ := 2 ^ 16
def hapMultiProcess : ℕ := 2 ^ 17
def hapFromExistingProcess : ℕ := 2 ^ 18
def hapNoCpuVirtual : ℕ := 2 ^ 19
def hapMaptypeMask : ℕ :=
  hapKernelOnly ||| hapSingleProcess ||| hapMultiProcess ||| hapFromExistingProcess |||
    hapNoCpuVirtual

def hasFlag (flags mask : ℕ) : Bool := flags &&& mask ≠ 0

/-- The cases of the switches on `PVRSRV_HAP_MAPTYPE_MASK`. -/
inductive MapType where
  | kernelOnly
  | singleProcess
  | multiProcess
  | other
deriving DecidableEq, Repr

def mapType (flags : ℕ) : MapType :=
  if flags &&& hapMaptypeMask = hapKernelOnly then .kernelOnly
  else if flags &&& hapMaptypeMask = hapSingleProcess then .singleProcess
  else if flags &&& hapMaptypeMask = hapMultiProcess then .multiProcess
  else .other

/-- What the switches decide: the areas that processes may map are registered; a map type that
    none of them knows is an error. -/
def MapType.registers : MapType → Option Bool
  | .kernelOnly => some false
  | .singleProcess => some true
  | .multiProcess => some true
  | .other => none

def cacheType (flags : ℕ) : CacheType :=
  if flags &&& hapCachetypeMask = hapCached then .cached
  else if flags &&& hapCachetypeMask = hapUncached then .uncached
  else if flags &&& hapCachetypeMask = hapWritecombine then .writeCombine
  else .unknown

inductive AreaEvent where
  | new (a : ℕ)
  | registered (a : ℕ)
  | unregistered (a : ℕ)
  | freed (a : ℕ)
deriving DecidableEq, Repr

/-- The areas, with `psParentLinuxMemArea` of the ones that lie within another. -/
structure OsData where
  mmap : MmapData
  parents : ℕ → Option ℕ
  log : List AreaEvent

def osInit : OsData := ⟨mmapInit, fun _ => none, []⟩

/-- What the kernel grants for a new area: its structure, where the kernel sees it, its pages. -/
structure Grant where
  area : ℕ
  cpuVAddr : ℕ
  pages : List ℕ
deriving DecidableEq, Repr

/-- A structure of `psLinuxMemAreaCache` is filled in; memory that is handed out is not in use. -/
def newLinuxMemArea (s : OsData) (a : ℕ) (data : AreaData) (byteSize : ℕ) (cache : CacheType)
    (parent : Option ℕ) : Option OsData :=
  if a = 0 ∨ (s.mmap.areas a).isSome then none
  else some {
    mmap := s.mmap.setArea a ⟨data, byteSize, cache, false, []⟩
    parents := Function.update s.parents a parent
    log := s.log ++ [.new a] }

def linuxMemAreaDeepFree (s : OsData) (a : ℕ) : Option OsData :=
  if (s.mmap.areas a).isNone then none
  else some {
    mmap := { s.mmap with areas := Function.update s.mmap.areas a none }
    parents := Function.update s.parents a none
    log := s.log ++ [.freed a] }

def registerArea (s : OsData) (a : ℕ) : Option (PvrsrvError × OsData) := do
  let (e, mmap) ← pvrMMapRegisterArea s.mmap a
  some (e, { s with
    mmap := mmap
    log := if e = .ok then s.log ++ [.registered a] else s.log })

def removeRegisteredArea (s : OsData) (a : ℕ) : Option (PvrsrvError × OsData) := do
  let (e, mmap) ← pvrMMapRemoveRegisteredArea s.mmap a
  some (e, { s with
    mmap := mmap
    log := if e = .ok then s.log ++ [.unregistered a] else s.log })

/-- The answer of `PVRMMapRegisterArea` is not looked at. -/
def registerIf (register : Bool) (s : OsData) (a : ℕ) : Option OsData :=
  if register then (registerArea s a).map Prod.snd else some s

def makeArea (s : OsData) (flags byteSize : ℕ) (noMemory badFlags : PvrsrvError)
    (data : Grant → AreaData) (grant : Option Grant) : Option (Except PvrsrvError ℕ × OsData) :=
  match (mapType flags).registers, grant with
  | none, _ => some (.error badFlags, s)
  | some _, none => some (.error noMemory, s)
  | some register, some g => do
    let s ← newLinuxMemArea s g.area (data g) byteSize (cacheType flags) none
    let s ← registerIf register s g.area
    some (.ok g.area, s)

def releaseArea (s : OsData) (flags a : ℕ) : Option (PvrsrvError × OsData) :=
  match (mapType flags).registers with
  | none => some (.errorInvalidParams, s)
  | some false => (linuxMemAreaDeepFree s a).map fun s => (.ok, s)
  | some true => do
    let (e, s) ← removeRegisteredArea s a
    if e ≠ .ok then some (.errorGeneric, s)
    else (linuxMemAreaDeepFree s a).map fun s => (.ok, s)

def osAllocPages (s : OsData) (flags size : ℕ) (grant : Option Grant) :
    Option (Except PvrsrvError ℕ × OsData) :=
  makeArea s flags size .errorOutOfMemory .errorInvalidParams
    (fun g => if mapType flags = .singleProcess then .allocPages g.pages else .vmalloc g.pages)
    grant

/-- `ppvCpuVAddr` of `OSAllocPages`: pages of their own are not mapped into the kernel. -/
def allocPagesCpuVAddr (flags : ℕ) (g : Grant) : ℕ :=
  if mapType flags = .singleProcess then 0 else g.cpuVAddr

def osFreePages (s : OsData) (flags a : ℕ) : Option (PvrsrvError × OsData) := releaseArea s flags a

def osReservePhys (s : OsData) (basePAddr flags bytes : ℕ) (grant : Option Grant) :
    Option (Except PvrsrvError ℕ × OsData) :=
  makeArea s flags bytes .errorGeneric .errorGeneric
    (fun _ => if mapType flags = .singleProcess then .io basePAddr else .ioRemap basePAddr) grant

def osUnReservePhys (s : OsData) (flags a : ℕ) : Option (PvrsrvError × OsData) :=
  releaseArea s flags a

def pagesAreContiguous (sysPAddr : List ℕ) (bytes : ℕ) : Bool :=
  (List.range ((bytes + (pageSize - 1)) / pageSize)).all fun i =>
    sysPAddr.getD i 0 = u32 (sysPAddr.headD 0 + pageSize * i)

/-- `bPhysContig` of an external area decides whether it has one address or the list of its
    pages. -/
def externalData (sysPAddr : List ℕ) (bytes : ℕ) (physContig : Bool) : AreaData :=
  if physContig || pagesAreContiguous sysPAddr bytes then .externalKvContig (sysPAddr.headD 0)
  else .externalKv sysPAddr

def registerExternalMem (s : OsData) (sysPAddr : List ℕ) (bytes : ℕ) (physContig : Bool)
    (flags : ℕ) (grant : Option Grant) : Option (Except PvrsrvError ℕ × OsData) :=
  makeArea s flags bytes .errorGeneric .errorGeneric
    (fun _ => externalData sysPAddr bytes physContig) grant

def osRegisterMem (s : OsData) (basePAddr bytes flags : ℕ) (grant : Option Grant) :
    Option (Except PvrsrvError ℕ × OsData) :=
  registerExternalMem s [basePAddr] bytes true flags grant

def osRegisterDiscontigMem (s : OsData) (sysPAddr : List ℕ) (bytes flags : ℕ)
    (grant : Option Grant) : Option (Except PvrsrvError ℕ × OsData) :=
  registerExternalMem s sysPAddr bytes false flags grant

def osReserveDiscontigPhys (s : OsData) (sysPAddr : List ℕ) (bytes flags : ℕ)
    (grant : Option Grant) : Option (Except PvrsrvError ℕ × OsData) :=
  osRegisterDiscontigMem s sysPAddr bytes flags grant

def osUnRegisterMem (s : OsData) (flags a : ℕ) : Option (PvrsrvError × OsData) := do
  let (e, s) ← releaseArea s flags a
  if e = .errorGeneric then none else some (e, s)

def osUnRegisterDiscontigMem (s : OsData) (flags a : ℕ) : Option (PvrsrvError × OsData) :=
  osUnRegisterMem s flags a

def osUnReserveDiscontigPhys (s : OsData) (flags a : ℕ) : Option (PvrsrvError × OsData) :=
  osUnRegisterDiscontigMem s flags a

def registerSub (s : OsData) (flags a : ℕ) : Option (Except PvrsrvError ℕ × OsData) :=
  if hasFlag flags hapKernelOnly then some (.ok a, s)
  else do
    let (e, s) ← registerArea s a
    if e = .ok then some (.ok a, s)
    else (linuxMemAreaDeepFree s a).map fun s => (.error e, s)

def osGetSubMemHandle (s : OsData) (parent byteOffset bytes flags : ℕ) (grant : Option ℕ) :
    Option (Except PvrsrvError ℕ × OsData) :=
  match grant with
  | none => some (.error .errorOutOfMemory, s)
  | some a => do
    let p ← s.mmap.areas parent
    let s ← newLinuxMemArea s a (.subAlloc p.data byteOffset) bytes p.cacheType (some parent)
    registerSub s flags a

def osReleaseSubMemHandle (s : OsData) (a flags : ℕ) : Option (PvrsrvError × OsData) :=
  if hasFlag flags hapKernelOnly then (linuxMemAreaDeepFree s a).map fun s => (.ok, s)
  else do
    let (e, s) ← removeRegisteredArea s a
    if e ≠ .ok then some (e, s)
    else (linuxMemAreaDeepFree s a).map fun s => (.ok, s)

end PvrServices.OsAreas
