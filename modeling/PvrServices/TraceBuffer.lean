import PvrServices.CircularBuffer
import PvrServices.Words

set_option autoImplicit false

/-!
# The command trace buffer

`pvr_trace_cmd.c`: frames of variable size in a circular buffer of bytes. A frame does not run
past the end of the buffer; old frames make room for new ones.
-/
namespace PvrServices.Trace
open Words Memory CircularBuffer

structure TrcmdBuf where
  readIdx : ℕ
  writeIdx : ℕ
  data : ℕ → UInt8

/-- The buffer of the module when it is loaded: static data is zero. -/
def tbuf : TrcmdBuf := ⟨0, 0, fun _ => 0⟩

/-- `PVR_TBUF_SIZE` on pages of 4 KiB; the configuration offers the shifts from 1 to 10. -/
def pvrTbufSize (bufShift : ℕ) : ℕ := 1 <<< (bufShift + 12)

def frameHeader : ℕ := 32

def pvrTrcmdPad : ℕ := 0

def trcmdDescCount : ℕ := 11

def frameSize (f : List UInt8) : ℕ := fieldValue (f.take 2)

def frameType (f : List UInt8) : ℕ := fieldValue ((f.drop 2).take 2)

def framePid (f : List UInt8) : ℕ := fieldValue ((f.drop 4).take 4)

def frameTime (f : List UInt8) : ℕ := fieldValue ((f.drop 8).take 8)

def framePname (f : List UInt8) : List UInt8 := ((f.drop 16).take 16).takeWhile (· ≠ 0)

def framePayload (f : List UInt8) : List UInt8 := f.drop frameHeader

/-- `tbuf_idx_add`: masking with a power of two less one leaves the remainder. -/
def tbufIdxAdd (N : ℕ) (val delta : ℤ) : ℕ := ((val + delta) % N).toNat

def getSpaceLoop (N size : ℕ) : ℕ → TrcmdBuf → Option (ℕ × TrcmdBuf)
  | 0, _ => none
  | fuel + 1, t =>
    if tbufIdxAdd N (t.readIdx - 1) (-t.writeIdx) < size then
      getSpaceLoop N size fuel
        { t with readIdx := tbufIdxAdd N t.readIdx (frameSize (copy t.data t.readIdx 4)) }
    else if N - t.writeIdx < size then
      let data := store t.data t.writeIdx (fieldBytes 2 (N - t.writeIdx))
      getSpaceLoop N size fuel
        { t with data := store data (t.writeIdx + 2) (fieldBytes 2 pvrTrcmdPad), writeIdx := 0 }
    else some (t.writeIdx, { t with writeIdx := tbufIdxAdd N t.writeIdx size })

/-- `tbuf_get_space`: the offset of the space. The loop has no bound of its own. -/
def tbufGetSpace (N size : ℕ) (t : TrcmdBuf) : Option (ℕ × TrcmdBuf) := getSpaceLoop N size N t

def alignSize (size : ℕ) : ℕ := u32 (size + 7) / 8 * 8

def totalSize (size : ℕ) : ℕ := u32 (frameHeader + alignSize size)

/-- What `strlcpy` writes into the 16 bytes of `pname`. -/
def strlcpyBytes (s : List UInt8) : List UInt8 := (s.takeWhile (· ≠ 0)).take 15 ++ [0]

def pvrTrcmdAlloc (N type pid : ℕ) (pname : List UInt8) (size time : ℕ) (t : TrcmdBuf) :
    Option (ℕ × TrcmdBuf) :=
  match tbufGetSpace N (totalSize size) t with
  | none => none
  | some (f, t) =>
    let data := store t.data f (fieldBytes 2 (totalSize size))
    let data := store data (f + 2) (fieldBytes 2 type)
    let data := store data (f + 4) (fieldBytes 4 pid)
    let data := store data (f + 8) (fieldBytes 8 time)
    some (f + frameHeader, { t with data := store data (f + 16) (strlcpyBytes pname) })

def createSnapshot (N : ℕ) (t : TrcmdBuf) : List UInt8 :=
  let size := tbufIdxAdd N t.writeIdx (-t.readIdx)
  let tailSize := min size (N - t.readIdx)
  copy t.data t.readIdx tailSize ++ copy t.data 0 (size - tailSize)

structure Call where
  type : ℕ
  pid : ℕ
  pname : List UInt8
  size : ℕ
  time : ℕ
  fill : List UInt8
  fits : frameHeader + fill.length ≤ totalSize size

/-- One call with its lock held: the payload's offset, and the frame as the caller leaves it. -/
def step (N : ℕ) (t : TrcmdBuf) (x : Call) : Option ((ℕ × List UInt8) × TrcmdBuf) :=
  match pvrTrcmdAlloc N x.type x.pid x.pname x.size x.time t with
  | none => none
  | some (p, t) =>
    let t := { t with data := store t.data p x.fill }
    some ((p, copy t.data (p - frameHeader) (totalSize x.size)), t)

end PvrServices.Trace
