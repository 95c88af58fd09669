import PvrServices.Memory
import PvrServices.Words

set_option autoImplicit false

/-!
# The dumped frames

`pvr_pdumpfs.c`: the frames that are written, and the file of the stream from which they are read.
There is at most one open file on the stream; its position is part of the state. What is not there
has no answer. What a frame's page addresses lead to is part of the frame.
-/
namespace PvrServices.Pdumpfs
open Memory Words

def pageSize : ℕ := 4096

def framePageCount : ℕ := 2040

def maxFrameCountHard : ℕ := 1024

def configPvrPdumpInitialMaxFrameCount : ℕ := 4

structure Frame where
  next : Option ℕ
  pid : ℕ
  number : ℕ
  offset : ℕ
  pageCount : ℕ
  pages : ℕ → ℕ → UInt8

/-- The variables of the file, the frames in memory, and the position of the open file. -/
structure DumpState where
  frameCountMax : ℕ
  frameCount : ℕ
  frameInit : Option ℕ
  frameStream : Option ℕ
  frameCurrent : Option ℕ
  frameCurrentDebugfs : Option ℕ
  frameCurrentOpenCount : ℕ
  frameStreamOpenCount : ℕ
  streamStart : ℤ
  streamFPos : ℤ
  streamEnd : ℤ
  frames : ℕ → Option Frame
  fPos : ℤ

def DumpState.setFrame (x : DumpState) (p : ℕ) (frame : Frame) : DumpState :=
  { x with frames := Function.update x.frames p (some frame) }

def frameDestroy (x : DumpState) (p : ℕ) : DumpState :=
  { x with frames := Function.update x.frames p none }

def enomem : ℕ := 4294967284

def einval : ℕ := 4294967274

def efault : ℕ := 4294967282

def frameCullFirst (x : DumpState) : Option DumpState := do
  let p ← x.frameStream
  let frame ← x.frames p
  let x := { x.setFrame p { frame with next := none } with frameStream := frame.next }
  let x : DumpState := if x.frameStreamOpenCount ≠ 0 then
      { x with streamStart := x.streamStart + frame.offset }
    else { x with streamEnd := x.streamEnd - frame.offset }
  let x := if x.frameCurrentDebugfs ≠ some p then frameDestroy x p else x
  some { x with frameCount := u32Sub x.frameCount 1 }

def frameCullNext (x : DumpState) : Option Bool :=
  if x.frameStreamOpenCount = 0 then some (x.frameCountMax < x.frameCount)
  else do
    let p ← x.frameStream
    let frame ← x.frames p
    some (decide (x.streamStart + frame.offset < x.streamFPos) ||
      decide (maxFrameCountHard < x.frameCount))

def frameCullLoop : ℕ → DumpState → Option DumpState
  | 0, _ => none
  | n + 1, x => do
    let more ← frameCullNext x
    if more then do
      let x ← frameCullFirst x
      frameCullLoop n x
    else some x

def frameCull (x : DumpState) : Option DumpState := frameCullLoop (x.frameCount + 1) x

def linkFrame (x : DumpState) (p : ℕ) : Option DumpState :=
  if x.frameInit.isNone then some { x with frameInit := some p }
  else if x.frameCurrent ≠ x.frameInit then do
    let c ← x.frameCurrent
    let current ← x.frames c
    some { x.setFrame c { current with next := some p } with
      frameCount := u32 (x.frameCount + 1) }
  else some { x with frameStream := some p, frameCount := u32 (x.frameCount + 1) }

def newFrame (pid number : ℕ) : Frame := ⟨none, pid, number, 0, 0, fun _ _ => 0⟩

def frameNew (x : DumpState) (pid number : ℕ) (mem : Option ℕ) : Option (ℕ × DumpState) :=
  match mem with
  | none => some (enomem, x)
  | some p => do
    let x ← linkFrame (x.setFrame p (newFrame pid number)) p
    let x ← frameCull { x with frameCurrent := some p }
    some (0, x)

def Frame.withPage (frame : Frame) (pages : ℕ) : Option (Frame × ℕ) :=
  if frame.offset % pageSize ≠ 0 then some (frame, pages)
  else if framePageCount ≤ frame.pageCount ∨ pages = 0 then none
  else some ({ frame with pageCount := frame.pageCount + 1 }, pages - 1)

def Frame.put (frame : Frame) (bytes : List UInt8) : Frame :=
  { frame with
    pages := Function.update frame.pages (frame.pageCount - 1)
      (store (frame.pages (frame.pageCount - 1)) (frame.offset % pageSize) bytes)
    offset := frame.offset + bytes.length }

def Frame.room (frame : Frame) (size : ℕ) : ℕ := min size (pageSize - frame.offset % pageSize)

/-- The loop of `pdumpfs_frame_write_low`: of the next pages `pages` can be had, and of the next
    copies from the process `copies` succeed. -/
def frameWriteLoop (fromUser : Bool) : ℕ → Frame → List UInt8 → ℕ → ℕ → ℕ → ℕ × Frame
  | 0, frame, _, _, _, ret => (ret, frame)
  | n + 1, frame, buffer, pages, copies, ret =>
    if buffer = [] then (ret, frame)
    else
      match frame.withPage pages with
      | none => (enomem, frame)
      | some (frame, pages) =>
        if fromUser && copies = 0 then (einval, frame)
        else
          let count := frame.room buffer.length
          frameWriteLoop fromUser n (frame.put (buffer.take count)) (buffer.drop count) pages
            (copies - 1) (ret + count)

def frameWriteLow (frame : Frame) (buffer : List UInt8) (fromUser : Bool) (pages copies : ℕ) :
    ℕ × Frame :=
  frameWriteLoop fromUser buffer.length frame buffer pages copies 0

def pdumpfsFrameWriteLow (x : DumpState) (buffer : List UInt8) (fromUser : Bool)
    (pages copies : ℕ) : Option (ℕ × DumpState) := do
  let c ← x.frameCurrent
  let frame ← x.frames c
  let r := frameWriteLow frame buffer fromUser pages copies
  some (r.1, x.setFrame c r.2)

def frameOverrunMessage : List UInt8 :=
  [45, 45, 32, 83, 116, 97, 114, 116, 105, 110, 103, 32, 102, 111, 114, 99, 101, 100, 32, 102, 114,
    97, 109, 101, 32, 99, 97, 117, 115, 101, 100, 32, 98, 121, 32, 0]

/-- The buffer and what goes well: the pages and copies for it, and if a frame is forced the frame,
    and the pages for the three parts of the message about the process `comm`. -/
structure WriteCall where
  buffer : List UInt8
  pages : ℕ
  copies : ℕ
  pid : ℕ
  frameMem : Option ℕ
  messagePages : ℕ
  comm : List UInt8
  commPages : ℕ
  endPages : ℕ
deriving DecidableEq, Repr

def overruns (frame : Frame) (size : ℕ) : Bool :=
  pageSize * framePageCount < u32 (frame.offset + size)

def overrunMessage (x : DumpState) (q : WriteCall) : Option DumpState := do
  let (_, x) ← pdumpfsFrameWriteLow x frameOverrunMessage false q.messagePages 0
  let (_, x) ← pdumpfsFrameWriteLow x q.comm false q.commPages 0
  let (_, x) ← pdumpfsFrameWriteLow x [13, 10] false q.endPages 0
  some x

def pdumpfsFrameWrite (x : DumpState) (q : WriteCall) (fromUser : Bool) :
    Option (ℕ × DumpState) := do
  let c ← x.frameCurrent
  let frame ← x.frames c
  if overruns frame q.buffer.length then do
    let (ret, x) ← frameNew x q.pid 4294967295 q.frameMem
    if ret ≠ 0 then some (ret, x)
    else do
      let x ← overrunMessage x q
      pdumpfsFrameWriteLow x q.buffer fromUser q.pages q.copies
  else pdumpfsFrameWriteLow x q.buffer fromUser q.pages q.copies

/-- `pdumpfs_write_data`. It answers `PVRSRV_OK`: what it compares is a `size_t`. -/
def pdumpfsWriteData (x : DumpState) (q : WriteCall) (fromUser : Bool) : Option DumpState := do
  let (size, x) ← pdumpfsFrameWrite x q fromUser
  some (if 0 < size ∧ x.frameCurrent ≠ x.frameInit then
    { x with streamEnd := x.streamEnd + size } else x)

def pdumpfsWriteString (x : DumpState) (q : WriteCall) : Option DumpState :=
  pdumpfsWriteData x q false

def pdumpfsCurrentOpen (x : DumpState) : DumpState :=
  { x with
    frameCurrentDebugfs := if x.frameCurrentOpenCount = 0 then x.frameCurrent
      else x.frameCurrentDebugfs
    frameCurrentOpenCount := x.frameCurrentOpenCount + 1 }

/-- A frame that is neither in use nor on the list goes with the last file. -/
def pdumpfsCurrentRelease (x : DumpState) : Option DumpState :=
  let x := { x with frameCurrentOpenCount := x.frameCurrentOpenCount - 1 }
  if x.frameCurrentOpenCount = 0 then do
    let d ← x.frameCurrentDebugfs
    let frame ← x.frames d
    let x := if x.frameCurrentDebugfs ≠ x.frameInit ∧ x.frameCurrentDebugfs ≠ x.frameCurrent ∧
        frame.next.isNone = true then frameDestroy x d else x
    some { x with frameCurrentDebugfs := none }
  else some x

def pdumpfsStreamOpen (x : DumpState) : Bool × DumpState :=
  if x.frameStreamOpenCount ≠ 0 then (false, x)
  else (true, { x with frameStreamOpenCount := x.frameStreamOpenCount + 1, fPos := 0 })

def pdumpfsStreamRelease (x : DumpState) : DumpState :=
  let x := { x with frameStreamOpenCount := x.frameStreamOpenCount - 1 }
  if x.frameStreamOpenCount = 0 then
    { x with streamEnd := x.streamEnd - x.streamStart, streamStart := 0, streamFPos := 0 }
  else x

inductive Whence where
  | seekSet
  | seekCur
  | seekEnd
deriving DecidableEq, Repr

def seekPos (x : DumpState) (offset : ℤ) : Whence → ℤ
  | .seekSet => if x.streamEnd < offset ∨ offset < x.streamStart then -22 else offset
  | .seekCur =>
    if x.streamEnd < x.fPos + offset ∨ x.fPos + offset < x.streamStart then -22
    else x.fPos + offset
  | .seekEnd =>
    if 0 < offset ∨ offset < x.streamStart - x.streamEnd then -22 else x.streamEnd + offset

def pdumpfsStreamLlseek (x : DumpState) (offset : ℤ) (whence : Whence) : ℤ × DumpState :=
  let fPos := seekPos x offset whence
  (fPos, if 0 ≤ fPos then { x with fPos := fPos, streamFPos := fPos } else x)

def clearLine : List UInt8 := List.replicate 79 46 ++ [10]

def pdumpfsStreamBufferClear (size copies : ℕ) : ℕ × List UInt8 :=
  if 80 ≤ size then
    if copies < size / 80 then (efault, (List.replicate copies clearLine).flatten)
    else (size / 80 * 80, (List.replicate (size / 80) clearLine).flatten)
  else if copies = 0 then (efault, [])
  else (size, clearLine.drop (80 - size))

def pdumpfsStreamBufferFill (x : DumpState) (frame : Frame) (offset size copies : ℕ) :
    Option ((ℕ × List UInt8) × DumpState) :=
  if frame.pageCount ≤ offset / pageSize then none
  else
    let size := min (min size (frame.offset - offset)) (pageSize - offset % pageSize)
    if copies = 0 then some ((efault, []), x)
    else some ((size, copy (frame.pages (offset / pageSize)) (offset % pageSize) size),
      { x with streamFPos := x.streamFPos + size })

def skipFrames (frames : ℕ → Option Frame) (fPos : ℤ) : ℕ → ℤ → Option ℕ → Option (ℤ × Frame)
  | 0, _, _ => none
  | n + 1, start, p => do
    let a ← p
    let frame ← frames a
    if start + frame.offset ≤ fPos then skipFrames frames fPos n (start + frame.offset) frame.next
    else some (start, frame)

/-- `pdumpfs_stream_read` at a position: how much is read, the bytes and the position after it. -/
def pdumpfsStreamRead (x : DumpState) (size copies : ℕ) (fPos : ℤ) :
    Option ((ℕ × List UInt8 × ℤ) × DumpState) := do
  let ((ret, bytes), x) ←
    if x.streamEnd ≤ 0 ∨ x.streamEnd ≤ fPos then some ((0, []), x)
    else if fPos < x.streamStart then
      some (pdumpfsStreamBufferClear (min size (x.streamStart - fPos).toNat) copies, x)
    else do
      let (start, frame) ← skipFrames x.frames fPos (x.frameCount + 1) x.streamStart x.frameStream
      pdumpfsStreamBufferFill x frame (fPos - start).toNat size copies
  some ((ret, bytes, if 0 < ret then fPos + ret else fPos), x)

/-- Reads go on from the position of the file; positional reads leave it alone. -/
inductive Op where
  | frameSet (pid frame : ℕ) (mem : Option ℕ)
  | writeData (q : WriteCall) (fromUser : Bool)
  | writeString (q : WriteCall)
  | frameCountMaxWrite (result : ℕ)
  | currentOpen
  | currentRelease
  | streamOpen
  | streamRelease
  | llseek (offset : ℤ) (whence : Whence)
  | read (size copies : ℕ)
  | pread (size copies : ℕ) (pos : ℤ)

inductive Reply where
  | done
  | opened (ok : Bool)
  | seeked (pos : ℤ)
  | bytes (ret : ℕ) (bytes : List UInt8)
deriving DecidableEq, Repr

/-- What `pdumpfs_frame_count_max_write` makes of a number. -/
def frameCountMaxOf (result : ℕ) : ℕ := if result = 0 then 1 else min result 1024

def step (x : DumpState) : Op → Option (Reply × DumpState)
  | .frameSet pid frame mem => (frameNew x pid frame mem).map fun r => (.done, r.2)
  | .writeData q fromUser => (pdumpfsWriteData x q fromUser).map fun x => (.done, x)
  | .writeString q => (pdumpfsWriteString x q).map fun x => (.done, x)
  | .frameCountMaxWrite result => some (.done, { x with frameCountMax := frameCountMaxOf result })
  | .currentOpen => some (.done, pdumpfsCurrentOpen x)
  | .currentRelease => (pdumpfsCurrentRelease x).map fun x => (.done, x)
  | .streamOpen =>
    let r := pdumpfsStreamOpen x
    some (.opened r.1, r.2)
  | .streamRelease => some (.done, pdumpfsStreamRelease x)
  | .llseek offset whence =>
    let r := pdumpfsStreamLlseek x offset whence
    some (.seeked r.1, r.2)
  | .read size copies => (pdumpfsStreamRead x size copies x.fPos).map fun r =>
    (.bytes r.1.1 r.1.2.1, { r.2 with fPos := r.1.2.2 })
  | .pread size copies pos => (pdumpfsStreamRead x size copies pos).map fun r =>
    (.bytes r.1.1 r.1.2.1, r.2)

def bootState : DumpState :=
  ⟨configPvrPdumpInitialMaxFrameCount, 0, none, none, none, none, 0, 0, 0, 0, 0, fun _ => none, 0⟩

/-- `pdumpfs_init` leaves the frame that is written before the first one of the stream. -/
def pdumpfsInit (p : ℕ) : DumpState :=
  { bootState with
    frameInit := some p
    frameCurrent := some p
    frames := Function.update (fun _ => none) p (some (newFrame 0 0)) }

end PvrServices.Pdumpfs
