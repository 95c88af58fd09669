import PvrServices.Runs
import PvrServices.Services
import PvrServices.Words

set_option autoImplicit false

/-!
# The display device of the frame buffer

`omaplfb_displayclass.c`: the swap chain of the device, and the events of the frame buffer that go to
it. Memory is named by its address and 0 is the null pointer.
-/
namespace PvrServices.Lfb
open Words

structure Buffer where
  sSysAddr : ℕ
  sCPUVAddr : ℕ
  psSyncData : ℕ
  psNext : ℕ
deriving DecidableEq, Repr

def bufferStructSize : ℕ := 20

def bufferAddr (psBuffer i : ℕ) : ℕ := psBuffer + bufferStructSize * i

structure SwapChain where
  bufferCount : ℕ
  psBuffer : ℕ
  bBlanked : Bool
deriving DecidableEq, Repr

structure FbInfo where
  sSysAddr : ℕ
  sCPUVAddr : ℕ
  fbSize : ℕ
  roundedBufferSize : ℕ
  byteStride : ℕ
deriving DecidableEq, Repr

structure SurfAttrib where
  pixelformat : ℕ
  byteStride : ℕ
  width : ℕ
  height : ℕ
deriving DecidableEq, Repr

/-- The part of `struct fb_var_screeninfo` that changes. -/
structure ScreenInfo where
  yresVirtual : ℕ
  yoffset : ℕ
deriving DecidableEq, Repr

/-- `struct OMAPLFB_DEVINFO`, the memory of `OMAPLFBAllocKernelMem` and the screen of the frame
    buffer. `notified` says whether `sLINNotifBlock` is registered, and `halted` that there was an
    access to memory that is not there. -/
structure Device where
  maxSwapChains : ℕ
  maxSwapChainBuffers : ℕ
  display : SurfAttrib
  fbInfo : FbInfo
  psSwapChain : ℕ
  localVar : ScreenInfo
  screen : ScreenInfo
  chains : ℕ → Option SwapChain
  buffers : ℕ → Option (List Buffer)
  notified : Bool
  halted : Bool

/-- An access to a swap chain that is not in memory, or behind a list of buffers. -/
inductive Fault where
  | noChain
  | overrun
deriving DecidableEq, Repr

inductive Answer where
  | returned (r : Except PvrsrvError ℕ)
  | notified
  | fault (e : Fault)

def sgxBufferAlign (stride size : ℕ) : ℕ :=
  if stride = 0 ∨ size = 0 then 0
  else
    let lcm := u32 (stride * 4096) / Nat.gcd stride 4096
    u32 (u32 (size + (lcm - 1)) / lcm * lcm)

/-- What `struct fb_info` says of a mode. -/
structure Mode where
  smemStart : ℕ
  screenBase : ℕ
  size : ℕ
  lineLength : ℕ
  xresVirtual : ℕ
  yres : ℕ
  pixelFormat : ℕ
deriving DecidableEq, Repr

def calcSwapChainSize (s : Device) : Device :=
  let max := if s.fbInfo.roundedBufferSize = 0 then 0
    else s.fbInfo.fbSize / s.fbInfo.roundedBufferSize
  { s with
    maxSwapChainBuffers := max
    maxSwapChains := if max = 0 then 0 else 1 }

def setDevinfo (s : Device) (m : Mode) : Device :=
  let s := calcSwapChainSize { s with
    fbInfo := ⟨m.smemStart, m.screenBase, m.size,
      sgxBufferAlign m.lineLength (u32 (m.lineLength * m.yres)), m.lineLength⟩ }
  { s with display := ⟨m.pixelFormat, m.lineLength, m.xresVirtual, m.yres⟩ }

def lfbInit (m : Mode) (screen : ScreenInfo) : Device :=
  setDevinfo ⟨0, 0, ⟨0, 0, 0, 0⟩, ⟨0, 0, 0, 0, 0⟩, 0, ⟨0, 0⟩, screen, fun _ => none, fun _ => none,
    false, false⟩ m

def setBlanked (s : Device) (blanked : Bool) : Except Fault Device :=
  (s.chains s.psSwapChain).elim (.error .noChain) fun c =>
    .ok { s with
      chains := Function.update s.chains s.psSwapChain (some { c with bBlanked := blanked }) }

/-- The notifiers of the frame buffer at `FB_EVENT_BLANK`. -/
def frameBufferEvents (s : Device) (blanked : Bool) : Except Fault (Answer × Device) :=
  if s.notified then (setBlanked s blanked).map fun s => (.notified, s) else .ok (.notified, s)

/-- `EnableLFBEventNotification`; `registered` is the answer of `fb_register_client`. -/
def enableLFBEventNotification (s : Device) (registered : Bool) : Except Fault Device :=
  (setBlanked s false).map fun s => if registered then { s with notified := true } else s

def disableLFBEventNotification (s : Device) (unregistered : Bool) : Device :=
  if unregistered then { s with notified := false } else s

structure CreateCall where
  pointers : Bool
  dst : SurfAttrib
  src : SurfAttrib
  bufferCount : ℕ
  syncData : List ℕ
  chain : Option ℕ
  buffer : Option ℕ
  registered : Bool
deriving DecidableEq, Repr

def forBuffers (body : ℕ → Buffer → Buffer) : ℕ → List Buffer → List Buffer
  | 0, bs => bs
  | i + 1, bs => (forBuffers body i bs).modify i (body i)

def linkBuffer (psBuffer i : ℕ) (b : Buffer) : Buffer :=
  { b with psNext := bufferAddr psBuffer (i + 1) }

def fillBuffer (f : FbInfo) (syncData : List ℕ) (i : ℕ) (b : Buffer) : Buffer :=
  { b with
    psSyncData := syncData.getD i 0
    sSysAddr := u32 (f.sSysAddr + u32 (i * f.roundedBufferSize))
    sCPUVAddr := u32 (f.sCPUVAddr + u32 (i * f.roundedBufferSize)) }

/-- The buffers of a new chain; what `kmalloc` leaves in them is written over. -/
def makeBuffers (f : FbInfo) (c : CreateCall) (psBuffer : ℕ) : List Buffer :=
  let linked := forBuffers (linkBuffer psBuffer) (c.bufferCount - 1)
    (List.replicate c.bufferCount ⟨0, 0, 0, 0⟩)
  forBuffers (fillBuffer f c.syncData) c.bufferCount
    (linked.modify (c.bufferCount - 1) fun b => { b with psNext := bufferAddr psBuffer 0 })

/-- The new chain `p` with its buffers at `q`, in the device. -/
def publish (s : Device) (c : CreateCall) (p q : ℕ) : Device :=
  { s with
    chains := Function.update s.chains p (some ⟨c.bufferCount, q, false⟩)
    buffers := Function.update s.buffers q (some (makeBuffers s.fbInfo c q))
    psSwapChain := p }

def usedLines (s : Device) (c : CreateCall) : ℕ :=
  u32 (s.fbInfo.roundedBufferSize * c.bufferCount) / s.fbInfo.byteStride

def growScreen (s : Device) (c : CreateCall) : Device :=
  let screen := if s.screen.yresVirtual < usedLines s c
    then { s.screen with yresVirtual := usedLines s c } else s.screen
  { s with screen := screen, localVar := screen }

def createEnd (s : Device) (c : CreateCall) (p q : ℕ) : Except Fault (Answer × Device) := do
  if c.bufferCount = 0 then .error .overrun
  else
    let s ← enableLFBEventNotification (publish s c p q) c.registered
    if c.registered then .ok (.returned (.ok p), growScreen s c)
    else .ok (.returned (.error .errorGeneric), { s with
      buffers := Function.update s.buffers q none
      chains := Function.update s.chains p none })

def createError (s : Device) (c : CreateCall) : Option PvrsrvError :=
  if c.pointers = false then some .errorInvalidParams
  else if s.maxSwapChains = 0 then some .errorNotSupported
  else if s.psSwapChain ≠ 0 then some .errorFlipChainExists
  else if s.maxSwapChainBuffers < c.bufferCount then some .errorTooManyBuffers
  else if s.fbInfo.fbSize < u32 (s.fbInfo.roundedBufferSize * c.bufferCount) then
    some .errorTooManyBuffers
  else if c.dst ≠ s.display then some .errorInvalidParams
  else if c.dst ≠ c.src then some .errorInvalidParams
  else none

def createAllocs (s : Device) (c : CreateCall) : Except Fault (Answer × Device) :=
  c.chain.elim (.ok (.returned (.error .errorOutOfMemory), s)) fun p =>
    c.buffer.elim (.ok (.returned (.error .errorOutOfMemory), s)) fun q => createEnd s c p q

def createDCSwapChain (s : Device) (c : CreateCall) : Except Fault (Answer × Device) :=
  (createError s c).elim (createAllocs s c) fun e => .ok (.returned (.error e), s)

def freeChain (s : Device) (p : ℕ) : Except Fault (Answer × Device) :=
  (s.chains p).elim (.error .noChain) fun c =>
    .ok (.returned (.ok 0), { s with
      buffers := Function.update s.buffers c.psBuffer none
      chains := Function.update s.chains p none })

def destroyDCSwapChain (s : Device) (hDevice : Bool) (p : ℕ) (unregistered : Bool) :
    Except Fault (Answer × Device) :=
  if hDevice = false ∨ p = 0 then .ok (.returned (.error .errorInvalidParams), s)
  else if p ≠ s.psSwapChain then .ok (.returned (.error .errorInvalidParams), s)
  else freeChain { disableLFBEventNotification s unregistered with
    psSwapChain := 0
    localVar := { s.localVar with yoffset := 0 } } p

/-- The calls on the device, and the events of the frame buffer between them. -/
inductive Op where
  | create (c : CreateCall)
  | destroy (hDevice : Bool) (hSwapChain : ℕ) (unregistered : Bool)
  | blank (blanked : Bool)
  | modeChange (m : Mode)
deriving DecidableEq, Repr

def CreateCall.Fits (c : CreateCall) (s : Device) : Prop :=
  (∀ p ∈ c.chain, p ≠ 0 ∧ s.chains p = none) ∧ ∀ q ∈ c.buffer, q ≠ 0 ∧ (s.buffers q).isNone

instance (c : CreateCall) (s : Device) : Decidable (c.Fits s) :=
  inferInstanceAs (Decidable (_ ∧ _))

def finish (s : Device) : Except Fault (Answer × Device) → Answer × Device
  | .ok r => r
  | .error e => (.fault e, { s with halted := true })

def act (s : Device) : Op → Option (Answer × Device)
  | .create c =>
    if 2 ≤ c.bufferCount ∧ c.Fits s then some (finish s (createDCSwapChain s c)) else none
  | .destroy hDevice p unregistered =>
    some (finish s (destroyDCSwapChain s hDevice p unregistered))
  | .blank blanked => some (finish s (frameBufferEvents s blanked))
  | .modeChange m => some (.notified, setDevinfo s m)

def step (s : Device) (op : Op) : Option (Answer × Device) :=
  if s.halted then none else act s op

end PvrServices.Lfb
