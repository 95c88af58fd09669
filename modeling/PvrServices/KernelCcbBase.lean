import Mathlib.Data.Nat.Bitwise
import Mathlib.Logic.Function.Basic
import PvrServices.Services
import PvrServices.Words

set_option autoImplicit false

/-!
# The kernel circular command buffer

`sgxutils.c`, with the requests for cache invalidation of `mmu.c`. A call of
`SGXScheduleCCBCommand` is a sequence of steps, one for each access to what it shares with the
firmware; the firmware reads commands in between. The device lock admits one call at a time.
-/
namespace PvrServices.KernelCcb
open Words

theorem cacheWord : 2 < 3 := by decide

structure SgxmkifCommand where
  ui32ServiceAddress : ℕ
  ui32Data : Vector ℕ 3
deriving DecidableEq

inductive CommandType where
  | edmKick
  | videoKick
  | requestSgxmiscinfo
  | other (value : ℕ)
deriving DecidableEq, Repr

structure SgxCcbInfo where
  psCommands : ℕ → SgxmkifCommand
  writeOffset : ℕ
  readOffset : ℕ

structure TimeoutLoop where
  uiOffset : ℕ
  uiStart : ℕ
  uiCurrent : ℕ
deriving DecidableEq, Repr

/-- The next step of a call. With the address set, `cmd` is what is in the slot. -/
inductive CallPhase where
  | checking (loop : TimeoutLoop)
  | clocking (loop : TimeoutLoop)
  | acquired (slot : ℕ)
  | conveyed (slot : ℕ)
  | cleared (slot : ℕ)
  | copied (slot : ℕ)
  | addressed (cmd : SgxmkifCommand)
  | published (cmd : SgxmkifCommand)
  | kicked (cmd : SgxmkifCommand)
deriving DecidableEq

structure ScheduleCall where
  eCommandType : CommandType
  psCommandData : SgxmkifCommand
  phase : CallPhase
deriving DecidableEq

/-- The fields of `struct PVRSRV_SGXDEV_INFO` and of the host control that the calls work on, with
    the call that holds the device lock. -/
structure SgxDevInfo where
  psKernelCCBInfo : SgxCcbInfo
  ui32KernelCCBEventKicker : ℕ
  ui32HostKickAddress : ℕ
  ui32GetMiscInfoAddress : ℕ
  ui32CacheControl : ℕ
  ui32PowerStatus : ℕ
  ui32ResManFlags : ℕ
  sResManCleanupData : ℕ
  call : Option ScheduleCall

def sgxBifInvalidatePtcache : ℕ := 1
def sgxBifInvalidatePdcache : ℕ := 2
def maxHwTimeUs : ℕ := 500000
def powmanNoWork : ℕ := 32
def resmanCleanupInvalpd : ℕ := 32
def resmanCleanupInvalpt : ℕ := 64
def resmanCleanupComplete : ℕ := 128

def TimeoutLoop.start (now : ℕ) : TimeoutLoop := ⟨0, now, u32 (now + 1)⟩

def TimeoutLoop.goesOn (loop : TimeoutLoop) : Bool :=
  u32 (u32Sub loop.uiCurrent loop.uiStart + loop.uiOffset) < maxHwTimeUs

def TimeoutLoop.next (loop : TimeoutLoop) (now : ℕ) : TimeoutLoop where
  uiOffset := if now < loop.uiStart then 4294967295 - loop.uiStart else loop.uiOffset
  uiStart := if now < loop.uiStart then 0 else loop.uiStart
  uiCurrent := now

def SgxCcbInfo.hasSlot (ccb : SgxCcbInfo) : Bool :=
  ((ccb.writeOffset + 1) &&& 255) ≠ ccb.readOffset

def serviceAddress (s : SgxDevInfo) : CommandType → Option ℕ
  | .edmKick => some s.ui32HostKickAddress
  | .requestSgxmiscinfo => some s.ui32GetMiscInfoAddress
  | .videoKick => none
  | .other _ => none

def SgxDevInfo.goTo (s : SgxDevInfo) (call : ScheduleCall) (phase : CallPhase) : SgxDevInfo :=
  { s with call := some { call with phase := phase } }

def SgxDevInfo.setCommand (s : SgxDevInfo) (slot : ℕ) (cmd : SgxmkifCommand) : SgxDevInfo :=
  { s with psKernelCCBInfo := { s.psKernelCCBInfo with
      psCommands := Function.update s.psKernelCCBInfo.psCommands slot cmd } }

inductive CcbReply where
  | done
  | returned (answer : Except PvrsrvError SgxmkifCommand)
  | consumed (cmd : SgxmkifCommand)
  | cleaned (flags : ℕ)

/-- The next step of `SGXScheduleCCBCommand`, at the time `now`. With `PVRSRV_OK` comes the command
    that was submitted. -/
def sgxScheduleCCBCommand (s : SgxDevInfo) (call : ScheduleCall) (now : ℕ) :
    CcbReply × SgxDevInfo :=
  let psKernelCCB := s.psKernelCCBInfo
  match call.phase with
  | .checking loop =>
    if psKernelCCB.hasSlot then (.done, s.goTo call (.acquired psKernelCCB.writeOffset))
    else (.done, s.goTo call (.clocking loop))
  | .clocking loop =>
    if (loop.next now).goesOn then (.done, s.goTo call (.checking (loop.next now)))
    else (.returned (.error .errorTimeout), { s with call := none })
  | .acquired slot =>
    let data := call.psCommandData.ui32Data.set 2 s.ui32CacheControl cacheWord
    (.done, s.goTo { call with psCommandData := { call.psCommandData with ui32Data := data } }
      (.conveyed slot))
  | .conveyed slot => (.done, { s with ui32CacheControl := 0 }.goTo call (.cleared slot))
  | .cleared slot => (.done, (s.setCommand slot call.psCommandData).goTo call (.copied slot))
  | .copied slot =>
    match serviceAddress s call.eCommandType with
    | none => (.returned (.error .errorGeneric), { s with call := none })
    | some address =>
      let cmd := { psKernelCCB.psCommands slot with ui32ServiceAddress := address }
      (.done, (s.setCommand slot cmd).goTo call (.addressed cmd))
  | .addressed cmd =>
    (.done, { s with psKernelCCBInfo := { psKernelCCB with
      writeOffset := (psKernelCCB.writeOffset + 1) &&& 255 } }.goTo call (.published cmd))
  | .published cmd =>
    (.done, { s with ui32KernelCCBEventKicker := (s.ui32KernelCCBEventKicker + 1) &&& 255 }.goTo
      call (.kicked cmd))
  | .kicked cmd => (.returned (.ok cmd), { s with call := none })

/-- The firmware reads the command at its offset and passes it. -/
def firmwareRead (s : SgxDevInfo) : CcbReply × SgxDevInfo :=
  let ccb := s.psKernelCCBInfo
  (.consumed (ccb.psCommands ccb.readOffset),
    { s with psKernelCCBInfo := { ccb with readOffset := (ccb.readOffset + 1) &&& 255 } })

def mmuInvalidateDirectoryCache (s : SgxDevInfo) : SgxDevInfo :=
  { s with ui32CacheControl := s.ui32CacheControl ||| sgxBifInvalidatePdcache }

def mmuInvalidatePageTableCache (s : SgxDevInfo) : SgxDevInfo :=
  { s with ui32CacheControl := s.ui32CacheControl ||| sgxBifInvalidatePtcache }

def moveToResMan (s : SgxDevInfo) (bit flag : ℕ) : SgxDevInfo :=
  if s.ui32CacheControl &&& bit ≠ 0 then
    { s with
      ui32ResManFlags := s.ui32ResManFlags ||| flag
      ui32CacheControl := s.ui32CacheControl ^^^ bit }
  else s

/-- `SGXCleanupRequest` as far as the command that it schedules; there is none while the firmware
    has no work. -/
def sgxCleanupRequest (s : SgxDevInfo) (hwData : Option ℕ) (ui32ResManRequestFlag : ℕ) :
    CcbReply × SgxDevInfo :=
  if s.ui32PowerStatus &&& powmanNoWork ≠ 0 then (.done, s)
  else
    let s := moveToResMan s sgxBifInvalidatePdcache resmanCleanupInvalpd
    let s := moveToResMan s sgxBifInvalidatePtcache resmanCleanupInvalpt
    let flags := s.ui32ResManFlags ||| ui32ResManRequestFlag
    (.cleaned flags, { s with
      sResManCleanupData := hwData.getD 0
      ui32ResManFlags := flags })

def sgxCleanupComplete (s : SgxDevInfo) (ui32ResManRequestFlag : ℕ) : SgxDevInfo :=
  let l := s.ui32ResManFlags ^^^ (s.ui32ResManFlags &&& ui32ResManRequestFlag)
  { s with ui32ResManFlags := l ^^^ (l &&& resmanCleanupComplete) }

inductive CcbOp where
  | schedule (eCommandType : CommandType) (psCommandData : SgxmkifCommand) (now : ℕ)
  | host (now : ℕ)
  | firmware
  | invalidateDirectoryCache
  | invalidatePageTableCache
  | cleanupRequest (hwData : Option ℕ) (ui32ResManRequestFlag : ℕ)
  | cleanupComplete (ui32ResManRequestFlag : ℕ)
  | setHostCtl (ui32PowerStatus ui32ResManFlags : ℕ)

def ccbStep (s : SgxDevInfo) : CcbOp → Option (CcbReply × SgxDevInfo)
  | .schedule ty data now => some (.done, { s with call := some ⟨ty, data, .checking (.start now)⟩ })
  | .host now => s.call.map fun call => sgxScheduleCCBCommand s call now
  | .firmware => some (firmwareRead s)
  | .invalidateDirectoryCache => some (.done, mmuInvalidateDirectoryCache s)
  | .invalidatePageTableCache => some (.done, mmuInvalidatePageTableCache s)
  | .cleanupRequest hwData flag => some (sgxCleanupRequest s hwData flag)
  | .cleanupComplete flag => some (.done, sgxCleanupComplete s flag)
  | .setHostCtl status flags =>
    some (.done, { s with ui32PowerStatus := status, ui32ResManFlags := flags })

/-- What the callers and the firmware keep to: the device lock is taken by one call at a time, and
    the firmware reads while its offset differs from the write offset. -/
def proper (s : SgxDevInfo) : CcbOp → Bool
  | .host _ => s.call.isSome
  | .firmware => s.psKernelCCBInfo.readOffset ≠ s.psKernelCCBInfo.writeOffset
  | .setHostCtl _ _ => true
  | _ => s.call.isNone

def ccbInit (psCommands : ℕ → SgxmkifCommand) (hostKick getMiscInfo cacheControl : ℕ) :
    SgxDevInfo :=
  ⟨⟨psCommands, 0, 0⟩, 0, hostKick, getMiscInfo, cacheControl, 0, 0, 0, none⟩

end PvrServices.KernelCcb
