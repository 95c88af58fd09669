import PvrServices.CommandQueueOrderRuns

set_option autoImplicit false

/-!
# Flips

The swaps of `deviceclass.c` on the swap chains of an OMAP LFB device, whose part is
`ProcessFlip` of `omaplfb_displayclass.c`. A pointer to an object of the display driver is a word.
-/
namespace PvrServices.Flips
open Words Memory Queues

structure DcBuffer where
  psKernelSyncInfo : UInt32
  hExtBuffer : UInt32

/-- `struct PVRSRV_DC_SWAPCHAIN`; its queue has its place among the queues. -/
structure DcSwapChain where
  hExtSwapChain : UInt32
  ui32BufferCount : ℕ
  asBuffer : ℕ → DcBuffer

/-- The address of a buffer: the device's system buffer, or the buffer `j` of the chain `i`. -/
inductive DcBufferPtr where
  | systemBuffer
  | asBuffer (i j : ℕ)
deriving DecidableEq, Repr

/-- `struct PVRSRV_DISPLAYCLASS_INFO`, with the swap chains that were created on the device. -/
structure DisplayclassInfo where
  ui32DeviceID : UInt32
  hExtDevice : UInt32
  sSystemBuffer : DcBuffer
  swapChainCount : ℕ
  swapChains : ℕ → DcSwapChain

def DisplayclassInfo.deref (d : DisplayclassInfo) : DcBufferPtr → DcBuffer
  | .systemBuffer => d.sSystemBuffer
  | .asBuffer i j => (d.swapChains i).asBuffer j

def DisplayclassInfo.syncOf (d : DisplayclassInfo) (p : DcBufferPtr) : UInt32 :=
  (d.deref p).psKernelSyncInfo

def DisplayclassInfo.Valid (d : DisplayclassInfo) : DcBufferPtr → Prop
  | .systemBuffer => True
  | .asBuffer i j => i < d.swapChainCount ∧ j < (d.swapChains i).ui32BufferCount

/-- An OMAP LFB device that is registered and open: it has a place in the tables of the system,
    the queues of its swap chains lie in one address space, and `PVRSRVAllocSyncInfoKM` has given
    each buffer a sync info of its own. -/
structure OmaplfbDevice extends DisplayclassInfo where
  registered : ui32DeviceID.toNat < sysDeviceCount
  fits : 1024 * swapChainCount < 4294967296
  apart : ∀ p q, toDisplayclassInfo.Valid p → toDisplayclassInfo.Valid q →
    toDisplayclassInfo.syncOf p = toDisplayclassInfo.syncOf q → p = q

def dcFlipCommand : UInt16 := 0

def sizeofFlipCommand : ℕ := 28

def sizeofImgRect : ℕ := 16

structure ImgRect where
  x0 : UInt32
  y0 : UInt32
  x1 : UInt32
  y1 : UInt32

def ImgRect.words (r : ImgRect) : List UInt32 := [r.x0, r.y0, r.x1, r.y1]

def flipDataSize (clipRectCount : ℕ) : ℕ :=
  u32 (sizeofFlipCommand + u32 (sizeofImgRect * clipRectCount))

/-- Where `pvData` of a command behind `n` sync objects will be. -/
def flipDataAt (q : QueueInfo) (n : ℕ) : ℕ := q.writeOffset + commandHeader + syncObjectSize * n

/-- `ProcessFlip` looks at the size alone; what it then tells the frame buffer cannot fail. -/
def processFlip (c : Command) : Bool := c.dataSize.toNat = sizeofFlipCommand

structure FlipAnswer where
  eError : PvrsrvError
  calls : List (SysOp × SysAnswer)

/-- The round of `PVRSRVProcessQueues` over a queue. `ProcessFlip` has completed the command it
    accepts before it returns. -/
def flipRound (s : SysData) (i : ℕ) : List (SysOp × SysAnswer) × SysData :=
  match processQueue s i processFlip with
  | (none, s) => ([(.process i processFlip, .taken none)], s)
  | (some c, s) =>
    let dev := c.devIndex.toNat
    let type := c.commandType.toNat
    ([(.process i processFlip, .taken (some c)), (.complete dev type, .completed)],
      commandComplete s dev type)

def flipRoundsFrom (s : SysData) : ℕ → ℕ → List (SysOp × SysAnswer) × SysData
  | _, 0 => ([], s)
  | i, n + 1 =>
    let first := flipRound s i
    let rest := flipRoundsFrom first.2 (i + 1) n
    (first.1 ++ rest.1, rest.2)

def flipQueues (s : SysData) : List (SysOp × SysAnswer) × SysData :=
  flipRoundsFrom s 0 s.queues.length

/-- `PVRSRVInsertCommandKM`, the stores into the command, and `PVRSRVSubmitCommandKM`. -/
def insertFlip (s : SysData) (i : ℕ) (x : InsertCall) : Option (FlipAnswer × SysData) :=
  match sysStep s (.insert i x) with
  | some (.inserted (.ok c), s) =>
    match sysStep s (.submit i) with
    | none => none
    | some (r, s) => some (⟨.ok, [(.insert i x, .inserted (.ok c)), (.submit i, r)]⟩, s)
  | some (.inserted (.error e), s) => some (⟨e, [(.insert i x, .inserted (.error e))]⟩, s)
  | _ => none

/-- The system, and `psLastFlipBuffer` of every swap chain. -/
structure FlipSystem where
  sys : SysData
  psLastFlipBuffer : ℕ → Option DcBufferPtr

def finishSwap (s : FlipSystem) (i : ℕ) (target : DcBufferPtr) (a : FlipAnswer) (sys : SysData) :
    FlipAnswer × FlipSystem :=
  let queues := flipQueues sys
  (⟨.ok, a.calls ++ queues.1⟩,
    ⟨queues.2, Function.update s.psLastFlipBuffer i (some target)⟩)

structure SwapCall where
  processId : UInt32
  i : ℕ
  j : ℕ
  ui32SwapInterval : UInt32
  hPrivateTag : UInt32
  ui32ClipRectCount : UInt32
  psClipRect : ℕ → ImgRect

def bufferSyncs (d : DisplayclassInfo) (last : Option DcBufferPtr) (target : DcBufferPtr) :
    List UInt32 :=
  match last with
  | none => [d.syncOf target]
  | some p => if target ≠ p then [d.syncOf target, d.syncOf p] else [d.syncOf target]

def systemSyncs (d : DisplayclassInfo) (last : Option DcBufferPtr) : List UInt32 :=
  let sync := d.syncOf .systemBuffer
  match last with
  | none => [sync]
  | some p => if sync ≠ d.syncOf p then [sync, d.syncOf p] else [sync]

def bufferFlipData (d : DisplayclassInfo) (a : SwapCall) (place : ℕ) : List UInt8 :=
  wordBytes ([d.hExtDevice, (d.swapChains a.i).hExtSwapChain,
    (d.deref (.asBuffer a.i a.j)).hExtBuffer, a.hPrivateTag, a.ui32ClipRectCount,
    UInt32.ofNat (place + sizeofFlipCommand), a.ui32SwapInterval] ++
    ((List.range a.ui32ClipRectCount.toNat).map a.psClipRect).flatMap ImgRect.words)

/-- The flip command to the system buffer; `psClipRect` stays as the memory is. -/
def systemFlipData (d : DisplayclassInfo) (i : ℕ) (mem : ℕ → UInt8) (place : ℕ) : List UInt8 :=
  wordBytes [d.hExtDevice, (d.swapChains i).hExtSwapChain, d.sSystemBuffer.hExtBuffer, 0, 0] ++
    (copy mem (place + 20) 4 ++ wordBytes [1])

def bufferInsert (d : DisplayclassInfo) (s : FlipSystem) (a : SwapCall) (q : QueueInfo) :
    InsertCall :=
  let src := bufferSyncs d (s.psLastFlipBuffer a.i) (.asBuffer a.i a.j)
  ⟨a.processId, d.ui32DeviceID, dcFlipCommand, [], src, flipDataSize a.ui32ClipRectCount.toNat,
    bufferFlipData d a (flipDataAt q src.length)⟩

def systemInsert (d : DisplayclassInfo) (s : FlipSystem) (processId : UInt32) (i : ℕ)
    (q : QueueInfo) : InsertCall :=
  let src := systemSyncs d (s.psLastFlipBuffer i)
  ⟨processId, d.ui32DeviceID, dcFlipCommand, [], src, sizeofFlipCommand,
    systemFlipData d i q.linQueue (flipDataAt q src.length)⟩

def pvrsrvSwapToDCBufferKM (d : DisplayclassInfo) (s : FlipSystem) (a : SwapCall) :
    Option (FlipAnswer × FlipSystem) :=
  match s.sys.queues[a.i]? with
  | none => none
  | some t =>
    match insertFlip s.sys a.i (bufferInsert d s a t.queue) with
    | none => none
    | some (r, sys) =>
      if r.eError ≠ .ok then some (r, { s with sys := sys })
      else if 4294967296 ≤ sizeofFlipCommand + sizeofImgRect * a.ui32ClipRectCount.toNat then
        -- the size has come round, and the loop over the rectangles runs out of the queue
        none
      else some (finishSwap s a.i (.asBuffer a.i a.j) r sys)

def pvrsrvSwapToDCSystemKM (d : DisplayclassInfo) (s : FlipSystem) (processId : UInt32) (i : ℕ) :
    Option (FlipAnswer × FlipSystem) :=
  match s.sys.queues[i]? with
  | none => none
  | some t =>
    match insertFlip s.sys i (systemInsert d s processId i t.queue) with
    | none => none
    | some (r, sys) =>
      if r.eError ≠ .ok then some (r, { s with sys := sys })
      else some (finishSwap s i .systemBuffer r sys)

/-- The calls; queues are also processed on behalf of others. -/
inductive FlipOp where
  | swapToDCBuffer (a : SwapCall)
  | swapToDCSystem (processId : UInt32) (i : ℕ)
  | processQueues

def flipStep (d : DisplayclassInfo) (s : FlipSystem) : FlipOp → Option (FlipAnswer × FlipSystem)
  | .swapToDCBuffer a => pvrsrvSwapToDCBufferKM d s a
  | .swapToDCSystem processId i => pvrsrvSwapToDCSystemKM d s processId i
  | .processQueues =>
    let queues := flipQueues s.sys
    some (⟨.ok, queues.1⟩, { s with sys := queues.2 })

end PvrServices.Flips
