import PvrServices.PdumpfsLivesRuns
import PvrServices.PdumpfsPages

set_option autoImplicit false

/-!
# The errors of the dump files

An error goes from the copy of a page to the handler of a file as a `size_t`. There it is greater
than 0, like a count. A write to the stream that fails so takes the end of the stream behind its
frames, where nothing can be read.
-/
namespace PvrServices.Pdumpfs
open PointerList Runs
variable {x y x' : DumpState} {l : List ℕ} {frame : Frame} {q : WriteCall} {fromUser : Bool}
  {c n p size copies fPos : ℕ} {op : Op} {reply : Reply} {log : List (Op × Reply)}

def pdumpfsInitRead (x : DumpState) (size copies fPos : ℕ) : Option (ℕ × List UInt8) := do
  let i ← x.frameInit
  let frame ← x.frames i
  pdumpfsFrameReadSingle frame size copies fPos

inductive ReadFile where
  | init
  | current
  | stream
  deriving DecidableEq

def advance (fPos ret : ℕ) : ℕ × ℤ := (ret, if 0 < ret then fPos + ret else fPos)

def fileRead (x : DumpState) (size copies fPos : ℕ) : ReadFile → Option (ℕ × ℤ)
  | .init => (pdumpfsInitRead x size copies fPos).map fun r => advance fPos r.1
  | .current => (pdumpfsCurrentRead x size copies fPos).map fun r => advance fPos r.1
  | .stream => (pdumpfsStreamRead x size copies fPos).map fun r => (r.1.1, r.1.2.2)

/-- Whether `pdumpfs_write_data` answers `PVRSRV_OK`; what it compares with 0 is a `size_t`. -/
def answersOk (size : ℕ) : Bool := 0 ≤ size || size = enomem

def writeTarget (x : DumpState) (q : WriteCall) : Option (ℕ × DumpState) := do
  let c ← x.frameCurrent
  let frame ← x.frames c
  if overruns frame q.buffer.length then do
    let (ret, x) ← frameNew x q.pid 4294967295 q.frameMem
    if ret ≠ 0 then some (ret, x)
    else (overrunMessage x q).map fun x => (0, x)
  else some (0, x)

def currentOffset (x : DumpState) : ℕ := ((x.frameCurrent.bind x.frames).map Frame.offset).getD 0

/-- An error leaves the position, and a count, no greater than the size, moves it on. -/
def ReadRight (size fPos : ℕ) (r : ℕ × ℤ) : Prop :=
  (r.1 = efault → r.2 = fPos) ∧ (r.1 ≠ efault → r.1 ≤ size ∧ r.2 = fPos + r.1)

/-- The answer is `PVRSRV_OK` if all bytes are stored or memory ran out, and only then, and the end
    of the stream moves on by no more than is stored. -/
structure WriteRight (q : WriteCall) (ret : ℕ) (x x' : DumpState) : Prop where
  answer : answersOk ret = true ↔
    currentOffset x' = currentOffset x + q.buffer.length ∨ ret = enomem
  streamEnd : x.streamEnd ≤ x'.streamEnd ∧
    x'.streamEnd + currentOffset x ≤ x.streamEnd + currentOffset x'

def frameCopies (fPos : ℕ) (frame : Frame) : ℕ := if frame.offset ≤ fPos then 0 else 1

def fileCopies (x : DumpState) (size fPos : ℕ) : ReadFile → ℕ
  | .init => (x.frameInit.bind x.frames).elim 0 (frameCopies fPos)
  | .current => (x.frameCurrentDebugfs.bind x.frames).elim 0 (frameCopies fPos)
  | .stream =>
    if x.streamEnd ≤ fPos then 0
    else max 1 ((min size (x.streamStart - fPos).toNat) / 80)

/-- The position is behind the frames, but not behind the end of the stream. -/
def unbacked (x : DumpState) (fPos : ℕ) : Bool :=
  x.streamStart + total x (streamFrames x) ≤ fPos && fPos < x.streamEnd

def readKept (x : DumpState) (size copies fPos : ℕ) (file : ReadFile) : Bool :=
  fileCopies x size fPos file ≤ copies && !(file = .stream && unbacked x fPos)

/-- The reads of the open file do not add up to more than the frames have. -/
def readerWithin (x : DumpState) : Bool :=
  x.frameStreamOpenCount = 0 || x.streamFPos ≤ x.streamStart + total x (streamFrames x)

/-- There are pages and copies for the bytes, or memory runs out before a copy fails and the current
    frame is not on the stream. -/
def writeKept (x : DumpState) (q : WriteCall) (fromUser : Bool) : Bool :=
  if forces x q then
    if q.frameMem = none then x.frameCurrent = x.frameInit
    else readerWithin x &&
      writes (overrunFrame (newFrame q.pid 4294967295) q) q.buffer.length fromUser q.pages q.copies
  else (x.frameCurrent.bind x.frames).any fun frame =>
    writes frame q.buffer.length fromUser q.pages q.copies || (x.frameCurrent = x.frameInit &&
      !copyFails frame q.buffer.length fromUser q.pages q.copies)

/-- The list with the frames, whatever the stream spans. -/
structure Chained (x : DumpState) (l : List ℕ) : Prop where
  shaped : Shaped x l
  bound : l.length ≤ maxFrameCountHard

theorem skipFrames_none {s t : ℤ} {o : Option ℕ} (hchain : Linked (nextOf x) o l)
    (halive : ∀ a ∈ l, (x.frames a).isSome = true) (hpast : s + total x l ≤ t) (n : ℕ) :
    skipFrames x.frames t n s o = none := by
  induction n generalizing s o l with
  | zero => rfl
  | succ n ih =>
    cases l with
    | nil =>
      have hnull : o = none := hchain
      rw [hnull]
      rfl
    | cons a l =>
      obtain ⟨frame, hframe⟩ := Option.isSome_iff_exists.mp (halive a List.mem_cons_self)
      have hrest := hchain.2
      rw [nextOf, hframe] at hrest
      rw [total_cons, offsetOf_eq hframe] at hpast
      have hskip : s + frame.offset ≤ t := by omega
      rw [hchain.1, skipFrames]
      simp only [hframe, Option.bind_eq_bind, Option.bind_some, hskip, if_true]
      exact ih hrest (fun b hb => halive b (List.mem_cons_of_mem a hb)) (by omega)

theorem Shaped.readerWithin_iff (h : Shaped x l) : readerWithin x = true ↔ Within x l := by
  rw [readerWithin, h.streamFrames, Within]
  simp

theorem readRight_count (h : n ≤ size) (hn : n ≠ efault) : ReadRight size fPos (advance fPos n) := by
  refine ⟨fun he => absurd he hn, fun _ => ⟨h, ?_⟩⟩
  dsimp only [advance]
  split <;> omega

theorem not_readRight : ¬ReadRight size fPos (advance fPos efault) := by
  intro h
  have hsame := h.1 rfl
  dsimp only [advance] at hsame
  unfold efault at hsame
  split at hsame <;> omega

theorem frameRead_right (hfits : frame.Fits) : ∃ r,
    pdumpfsFrameReadSingle frame size copies fPos = some r ∧
      (ReadRight size fPos (advance fPos r.1) ↔ frameCopies fPos frame ≤ copies) := by
  unfold pdumpfsFrameReadSingle frameCopies
  by_cases hend : frame.offset ≤ fPos
  · rw [if_pos hend, if_pos hend]
    exact ⟨_, rfl, iff_of_true (readRight_count (Nat.zero_le size) (by decide)) (Nat.zero_le _)⟩
  · have hpage : ¬frame.pageCount ≤ fPos / pageSize := by
      have := hfits.offset
      unfold pageSize at *
      omega
    rw [if_neg hend, if_neg hpage, if_neg hend]
    dsimp only
    by_cases hcopy : copies = 0
    · rw [if_pos hcopy]
      exact ⟨_, rfl, iff_of_false not_readRight (by omega)⟩
    · rw [if_neg hcopy]
      refine ⟨_, rfl, iff_of_true (readRight_count (by omega) ?_) (by omega)⟩
      unfold efault pageSize
      omega

theorem clear_right (n copies : ℕ) (h : n ≤ size) :
    ReadRight size fPos (advance fPos (pdumpfsStreamBufferClear n copies).1) ↔
      max 1 (n / 80) ≤ copies := by
  unfold pdumpfsStreamBufferClear
  by_cases hlines : 80 ≤ n
  · rw [if_pos hlines]
    by_cases hcopy : copies < n / 80
    · rw [if_pos hcopy]
      exact iff_of_false not_readRight (by omega)
    · rw [if_neg hcopy]
      refine iff_of_true (readRight_count (by omega) ?_) (by omega)
      unfold efault
      omega
  · rw [if_neg hlines]
    by_cases hcopy : copies = 0
    · rw [if_pos hcopy]
      exact iff_of_false not_readRight (by omega)
    · rw [if_neg hcopy]
      refine iff_of_true (readRight_count h ?_) (by omega)
      unfold efault
      omega

/-- Behind the frames a read takes the list past its end. -/
theorem Chained.stream_unbacked (h : Chained x l) (hun : unbacked x fPos = true) :
    fileRead x size copies fPos .stream = none := by
  simp only [unbacked, h.shaped.streamFrames, Bool.and_eq_true, decide_eq_true_eq] at hun
  have hstart := h.shaped.start.1
  have hskip := skipFrames_none h.shaped.listed.chain h.shaped.listed.alive hun.1 (x.frameCount + 1)
  simp only [fileRead, pdumpfsStreamRead]
  rw [if_neg (by omega), if_neg (by omega), hskip]
  rfl

theorem Chained.stream_right (h : Chained x l) (hun : unbacked x fPos = false) : ∃ r,
    fileRead x size copies fPos .stream = some r ∧
      (ReadRight size fPos r ↔ fileCopies x size fPos .stream ≤ copies) := by
  have hstart := h.shaped.start.1
  simp only [unbacked, h.shaped.streamFrames, Bool.and_eq_false_iff, decide_eq_false_iff_not] at hun
  dsimp only [fileRead, fileCopies]
  by_cases hend : x.streamEnd ≤ fPos
  · rw [if_pos hend, pdumpfsStreamRead, if_pos (.inr hend)]
    exact ⟨_, rfl, iff_of_true (@readRight_count 0 size fPos (Nat.zero_le size) (by decide))
      (Nat.zero_le _)⟩
  rw [if_neg hend]
  by_cases hgap : (fPos : ℤ) < x.streamStart
  · rw [pdumpfsStreamRead, if_neg (by omega), if_pos hgap]
    exact ⟨_, rfl, clear_right _ copies (Nat.min_le_left ..)⟩
  · obtain ⟨_, _, _, frame, i, k, -, -, -, -, hk, hread⟩ :=
      h.shaped.read_at (Int.not_lt.mp hgap) (by omega) (Int.not_le.mp hend) size copies
    have hnone : max 1 (min size (x.streamStart - fPos).toNat / 80) = 1 := by omega
    rw [hread, hnone]
    by_cases hcopy : copies = 0
    · rw [if_pos hcopy]
      exact ⟨_, rfl, iff_of_false (@not_readRight size fPos) (by omega)⟩
    · rw [if_neg hcopy]
      refine ⟨_, rfl, iff_of_true ⟨fun he => ?_, fun _ => ⟨by dsimp only; omega, rfl⟩⟩ (by omega)⟩
      dsimp only at he
      unfold efault pageSize at *
      omega

theorem answersOk_eq (size : ℕ) : answersOk size = true := by simp [answersOk]

theorem writeRight_iff {ret : ℕ} (hend : y.streamEnd = x.streamEnd) :
    WriteRight q ret x (moved (ret, y)) ↔
      (currentOffset y = currentOffset x + q.buffer.length ∨ ret = enomem) ∧
        (y.frameCurrent = y.frameInit ∧ currentOffset x ≤ currentOffset y ∨
          currentOffset x + ret ≤ currentOffset y) := by
  have hiff : x.streamEnd ≤ (moved (ret, y)).streamEnd ∧ (moved (ret, y)).streamEnd +
      currentOffset x ≤ x.streamEnd + currentOffset (moved (ret, y)) ↔
      y.frameCurrent = y.frameInit ∧ currentOffset x ≤ currentOffset y ∨
        currentOffset x + ret ≤ currentOffset y := by
    rw [moved_eq]
    change _ ∧ _ ≤ x.streamEnd + (currentOffset y : ℤ) ↔ _
    by_cases hinit : y.frameCurrent = y.frameInit
    · simp only [hinit, if_true, true_and]
      omega
    · simp only [hinit, if_false, false_and, false_or]
      omega
  have hoff : currentOffset (moved (ret, y)) = currentOffset y := by rw [moved_eq]; rfl
  rw [← hiff, ← hoff]
  exact ⟨fun h => ⟨h.answer.mp (answersOk_eq ret), h.streamEnd⟩,
    fun h => ⟨iff_of_true (answersOk_eq ret) h.1, h.2⟩⟩

theorem writeLow_right (hc : x.frameCurrent = some c) (hframe : x.frames c = some frame)
    (hfits : frame.Fits) : ∃ r, pdumpfsFrameWriteLow x q.buffer fromUser q.pages q.copies = some r ∧
      (WriteRight q r.1 x (moved r) ↔
        writes frame q.buffer.length fromUser q.pages q.copies = true ∨ x.frameCurrent = x.frameInit ∧
          copyFails frame q.buffer.length fromUser q.pages q.copies = false) := by
  obtain ⟨f, hloop, hwrote⟩ := @frameWriteLoop_wrote frame q.buffer fromUser q.buffer.length 0
    q.pages q.copies hfits le_rfl
  have hlow : frameWriteLow frame q.buffer fromUser q.pages q.copies = _ := hloop
  rw [pdumpfsFrameWriteLow_eq hc hframe, hlow]
  refine ⟨_, rfl, ?_⟩
  have hoff : currentOffset x = frame.offset := by simp [currentOffset, hc, hframe]
  have hoff' : currentOffset (x.setFrame c f) = f.offset := by
    simp [currentOffset, DumpState.setFrame, hc]
  have hend : (x.setFrame c f).streamEnd = x.streamEnd := rfl
  rw [writeRight_iff hend, hoff, hoff']
  change _ ∧ (x.frameCurrent = x.frameInit ∧ _ ∨ _) ↔ _
  have hbound := hwrote.fits.offset_lt
  have hle := hwrote.offset
  cases hw : writes frame q.buffer.length fromUser q.pages q.copies with
  | true =>
    have hall := hwrote.all.mpr hw
    have hfails : copyFails frame q.buffer.length fromUser q.pages q.copies = false := by
      rw [← Bool.not_eq_true, copyFails_iff]
      intro hfails
      have := (writes_iff.mp hw).2.2 hfails.1
      omega
    rw [writeResult, hfails, hw]
    refine iff_of_true ⟨.inl hall, .inr ?_⟩ (.inl rfl)
    simp only [Bool.false_eq_true, if_false, if_true]
    omega
  | false =>
    have hall : f.offset ≠ frame.offset + q.buffer.length := fun hall => by
      rw [hwrote.all.mp hall] at hw
      cases hw
    rw [writeResult, hw, or_iff_right Bool.false_ne_true]
    cases copyFails frame q.buffer.length fromUser q.pages q.copies with
    | true =>
      exact iff_of_false (fun h => h.1.elim hall fun he => absurd he (show einval ≠ enomem by decide))
        (by simp)
    | false =>
      simp only [Bool.false_eq_true, if_false, or_true, true_and, and_true]
      exact ⟨fun h => (h.resolve_right (by omega)).1, fun h => .inl ⟨h, hle.1⟩⟩

/-- A frame is made and becomes the last of the stream, unless the reader is behind all frames. -/
theorem Chained.frameNew (h : Chained x l) (hp : x.frames p = none) (pid number : ℕ) :
    (readerWithin x = false ∧ Pdumpfs.frameNew x pid number (some p) = none) ∨
      readerWithin x = true ∧ ∃ y k, Pdumpfs.frameNew x pid number (some p) = some (0, y) ∧
        Chained y k ∧ y.frameCurrent = some p ∧ y.frameCurrent ≠ y.frameInit ∧
        y.frames p = some (newFrame pid number) := by
  by_cases hwithin : Within x l
  · obtain ⟨z, y, k, -, -, hzp, hnew, hd⟩ := frameNew_dropped h.shaped h.bound hwithin hp pid number
    have hlast := hd.last
    rw [List.getLast?_concat] at hlast
    have hpk : p ∈ k := List.mem_of_getLast? hlast
    have hne : y.frameCurrent ≠ y.frameInit := fun heq => by
      rw [hd.shaped.current_init.mp heq] at hpk
      cases hpk
    exact .inr ⟨h.shaped.readerWithin_iff.mpr hwithin, y, k, hnew, ⟨hd.shaped, hd.bound⟩,
      hd.same.frameCurrent, hne, (hd.kept p hpk).trans hzp⟩
  · left
    rw [← Bool.not_eq_true, h.shaped.readerWithin_iff]
    exact ⟨hwithin, frameNew_none h.shaped h.bound hp hwithin pid number⟩

theorem Chained.put (h : Chained x l) (hframe : x.frames c = some frame) {f : Frame}
    (hnext : f.next = frame.next) (hf : f.Fits) (ret : ℕ) :
    Chained (moved (ret, x.setFrame c f)) l := by
  have hset := h.shaped.setFrame hframe hnext hf
  rw [moved_eq]
  exact ⟨⟨⟨hset.listed.chain, hset.listed.alive⟩, hset.count, hset.max, hset.init, hset.current,
    hset.fits, hset.users, hset.debugfs, hset.opened, hset.start, hset.reader⟩, h.bound⟩

theorem Chained.writeLow (h : Chained x l) (hc : x.frameCurrent = some c)
    (hframe : x.frames c = some frame) (q : WriteCall) (fromUser : Bool) : ∃ r,
    pdumpfsFrameWriteLow x q.buffer fromUser q.pages q.copies = some r ∧ Chained (moved r) l ∧
      (WriteRight q r.1 x (moved r) ↔
        writes frame q.buffer.length fromUser q.pages q.copies = true ∨ x.frameCurrent = x.frameInit ∧
          copyFails frame q.buffer.length fromUser q.pages q.copies = false) := by
  have hfits := h.shaped.fits c frame hframe
  obtain ⟨r, hlow, hright⟩ := @writeLow_right x frame q fromUser c hc hframe hfits
  obtain ⟨ret, f, hret, hnext, -, hf, -⟩ :=
    frameWriteLow_fits hfits q.buffer fromUser q.pages q.copies
  have hr : r = (ret, x.setFrame c f) := by
    rw [pdumpfsFrameWriteLow_eq hc hframe, hret, Option.some.injEq] at hlow
    exact hlow.symm
  refine ⟨r, hlow, ?_, hright⟩
  rw [hr]
  exact h.put hframe hnext hf ret

/-- A write has no answer, or keeps the list and is right if it meets the condition. -/
def Answered (x : DumpState) (q : WriteCall) (fromUser : Bool) : Prop :=
  (pdumpfsFrameWrite x q fromUser = none ∧ writeKept x q fromUser = false) ∨
    ∃ t y r l, writeTarget x q = some (t, y) ∧ pdumpfsFrameWrite x q fromUser = some r ∧
      Chained (moved r) l ∧ (WriteRight q r.1 y (moved r) ↔ writeKept x q fromUser = true)

theorem Chained.forced (h : Chained x l) (hc : x.frameCurrent = some c)
    (hframe : x.frames c = some frame) (hover : overruns frame q.buffer.length = true)
    (hp : q.frameMem.all (fun p => (x.frames p).isNone) = true) : Answered x q fromUser := by
  unfold Answered writeKept
  rw [forces_eq hc hframe, hover, if_pos rfl]
  cases hmem : q.frameMem with
  | none =>
    have hwrite : pdumpfsFrameWrite x q fromUser = some (enomem, x) := by
      simp [pdumpfsFrameWrite, hc, hframe, hover, Pdumpfs.frameNew, hmem, enomem]
    have htarget : writeTarget x q = some (enomem, x) := by
      simp [writeTarget, hc, hframe, hover, Pdumpfs.frameNew, hmem, enomem]
    refine .inr ⟨enomem, x, (enomem, x), l, htarget, hwrite, ?_, ?_⟩
    · have hput := h.put (f := frame) hframe rfl (h.shaped.fits c frame hframe) enomem
      rwa [DumpState.setFrame, ← hframe, Function.update_eq_self] at hput
    · rw [writeRight_iff rfl, if_pos rfl, decide_eq_true_eq, and_iff_right (.inr rfl)]
      unfold enomem
      exact ⟨fun h => (h.resolve_right (by omega)).1, fun h => .inl ⟨h, le_rfl⟩⟩
  | some p =>
    have hfree : x.frames p = none := by simpa [hmem] using hp
    rw [if_neg (by simp)]
    cases h.frameNew hfree q.pid 4294967295 with
    | inl hnone =>
      left
      simp [pdumpfsFrameWrite, hc, hframe, hover, hmem, hnone.1, hnone.2]
    | inr hsome =>
      obtain ⟨hwithin, y, k, hnew, hchained, hcurrent, hne, hfresh⟩ := hsome
      have hkept := overrunFrame_kept (newFrame_fits q.pid 4294967295) q
      have hmessage : Chained (y.setFrame p (overrunFrame (newFrame q.pid 4294967295) q)) k :=
        ⟨hchained.shaped.setFrame hfresh hkept.1 hkept.2.2, hchained.bound⟩
      obtain ⟨r, hlow, hafter, hright⟩ :=
        hmessage.writeLow hcurrent (setFrame_self y p _) q fromUser
      refine .inr ⟨0, _, r, k, ?_, ?_, hafter, hright.trans ?_⟩
      · simp [writeTarget, hc, hframe, hover, hmem, hnew, overrunMessage_eq hcurrent hfresh]
      · simpa [pdumpfsFrameWrite, hc, hframe, hover, hmem, hnew,
          overrunMessage_eq hcurrent hfresh] using hlow
      · rw [hwithin, Bool.true_and]
        exact or_iff_left fun hinit => hne hinit.1

theorem Chained.write (h : Chained x l)
    (hp : q.frameMem.all (fun p => (x.frames p).isNone) = true) : Answered x q fromUser := by
  obtain ⟨c, frame, hc, hframe⟩ := h.shaped.current_alive
  cases hover : overruns frame q.buffer.length with
  | true => exact h.forced hc hframe hover hp
  | false =>
    obtain ⟨r, hlow, hafter, hright⟩ := h.writeLow hc hframe q fromUser
    refine .inr ⟨0, x, r, l, by simp [writeTarget, hc, hframe, hover], ?_, hafter, ?_⟩
    · simpa [pdumpfsFrameWrite, hc, hframe, hover] using hlow
    · rw [hright, writeKept, forces_eq hc hframe, hover]
      simp [hc, hframe]

theorem Chained.writeData (h : Chained x l)
    (hp : q.frameMem.all (fun p => (x.frames p).isNone) = true)
    (hwrite : pdumpfsWriteData x q fromUser = some x') : ∃ k, Chained x' k := by
  rw [pdumpfsWriteData_eq] at hwrite
  have hanswered : Answered x q fromUser := h.write hp
  cases hanswered with
  | inl hnone =>
    rw [hnone.1] at hwrite
    cases hwrite
  | inr hsome =>
    obtain ⟨t, y, r, k, -, hr, hafter, -⟩ := hsome
    rw [hr, Option.map_some, Option.some.injEq] at hwrite
    exact ⟨k, hwrite ▸ hafter⟩

/-- A read of the stream moves nothing but its reader. -/
theorem pdumpfsStreamRead_moves {pos : ℤ} {r : ℕ × List UInt8 × ℤ}
    (hread : pdumpfsStreamRead x size copies pos = some (r, y)) :
    ∃ z, y = { x with streamFPos := z } := by
  unfold pdumpfsStreamRead at hread
  split at hread
  · exact ⟨x.streamFPos, (congrArg Prod.snd (Option.some.inj hread)).symm⟩
  · split at hread
    · exact ⟨x.streamFPos, (congrArg Prod.snd (Option.some.inj hread)).symm⟩
    · obtain ⟨⟨start, frame⟩, -, hread⟩ := Option.bind_eq_some_iff.mp hread
      obtain ⟨⟨b, z⟩, hfill, hy⟩ := Option.bind_eq_some_iff.mp hread
      have hzy : z = y := congrArg Prod.snd (Option.some.inj hy)
      rw [← hzy]
      simp only [pdumpfsStreamBufferFill] at hfill
      split at hfill
      · cases hfill
      · split at hfill
        · exact ⟨x.streamFPos, (congrArg Prod.snd (Option.some.inj hfill)).symm⟩
        · exact ⟨_, (congrArg Prod.snd (Option.some.inj hfill)).symm⟩

theorem Chained.step (h : Chained x l) (hop : proper x op = true)
    (hs : Pdumpfs.step x op = some (reply, x')) : ∃ k, Chained x' k := by
  have hsame {r : Reply} {y : DumpState} (hy : some (r, y) = some (reply, x'))
      (hshaped : Shaped y l) : ∃ k, Chained x' k := by
    rw [Option.some.injEq, Prod.mk.injEq] at hy
    exact ⟨l, hy.2 ▸ hshaped, h.bound⟩
  cases op with
  | frameSet pid number mem =>
    obtain ⟨⟨ret, y⟩, hnew, hy⟩ := Option.map_eq_some_iff.mp hs
    have hyx : y = x' := congrArg Prod.snd hy
    cases mem with
    | none =>
      rw [Pdumpfs.frameNew, Option.some.injEq, Prod.mk.injEq] at hnew
      exact ⟨l, hyx ▸ hnew.2 ▸ h⟩
    | some p =>
      have hfree : x.frames p = none := by simpa [proper] using hop
      cases h.frameNew hfree pid number with
      | inl hnone =>
        rw [hnone.2] at hnew
        cases hnew
      | inr hsome =>
        obtain ⟨-, z, k, hz, hchained, -⟩ := hsome
        rw [hz, Option.some.injEq, Prod.mk.injEq] at hnew
        exact ⟨k, hyx ▸ hnew.2 ▸ hchained⟩
  | writeData q fromUser =>
    obtain ⟨y, hwrite, hy⟩ := Option.map_eq_some_iff.mp hs
    have hyx : y = x' := congrArg Prod.snd hy
    exact h.writeData hop (hyx ▸ hwrite)
  | writeString q =>
    obtain ⟨y, hwrite, hy⟩ := Option.map_eq_some_iff.mp hs
    have hyx : y = x' := congrArg Prod.snd hy
    exact h.writeData hop (hyx ▸ hwrite)
  | frameCountMaxWrite result => exact hsame hs (h.shaped.frameCountMax result)
  | currentOpen => exact hsame hs h.shaped.currentOpen
  | currentRelease =>
    obtain ⟨y, hy, hshaped, -⟩ := h.shaped.currentRelease (of_decide_eq_true hop)
    rw [Pdumpfs.step, hy] at hs
    exact hsame hs hshaped
  | streamOpen => exact hsame hs h.shaped.streamOpen
  | streamRelease => exact hsame hs h.shaped.streamRelease.2
  | llseek offset whence =>
    refine hsame hs ?_
    simp only [pdumpfsStreamLlseek]
    split
    · exact h.shaped.moveReader (of_decide_eq_true hop) _ _
    · exact h.shaped
  | read size copies =>
    obtain ⟨⟨r, y⟩, hread, hy⟩ := Option.map_eq_some_iff.mp hs
    obtain ⟨z, rfl⟩ := pdumpfsStreamRead_moves hread
    exact hsame (congrArg some hy) (h.shaped.moveReader (of_decide_eq_true hop) _ _)
  | pread size copies pos =>
    obtain ⟨⟨r, y⟩, hread, hy⟩ := Option.map_eq_some_iff.mp hs
    obtain ⟨z, rfl⟩ := pdumpfsStreamRead_moves hread
    exact hsame (congrArg some hy) (h.shaped.moveReader (of_decide_eq_true hop) _ _)

theorem chained_run (hrun : Run step (fun x op => proper x op = true) (pdumpfsInit p) log x) :
    ∃ l, Chained x l :=
  hrun.invariant (fun x => ∃ l, Chained x l) ⟨[], (held_init p).shaped, (held_init p).bound⟩
    fun _ _ _ _ hx hop hs => by
      obtain ⟨l, hl⟩ := hx
      exact hl.step hop hs

theorem Chained.read_right_iff (hl : Chained x l) {file : ReadFile} (size copies fPos : ℕ)
    (hopen : file = .current → x.frameCurrentOpenCount ≠ 0) :
    (∃ r, fileRead x size copies fPos file = some r ∧ ReadRight size fPos r) ↔
      readKept x size copies fPos file = true := by
  have hright {r : ℕ × ℤ}
      (hr : fileRead x size copies fPos file = some r)
      (hiff : ReadRight size fPos r ↔ fileCopies x size fPos file ≤ copies)
      (hbacked : ¬(file = .stream ∧ unbacked x fPos = true)) :
      (∃ r, fileRead x size copies fPos file = some r ∧ ReadRight size fPos r) ↔
        readKept x size copies fPos file = true := by
    rw [hr]
    simp only [Option.some.injEq, exists_eq_left', hiff, readKept, Bool.and_eq_true,
      decide_eq_true_eq, Bool.not_eq_true', Bool.and_eq_false_iff, decide_eq_false_iff_not]
    refine (and_iff_left ?_).symm
    by_cases hstream : file = .stream
    · exact .inr (Bool.eq_false_iff.mpr fun hun => hbacked ⟨hstream, hun⟩)
    · exact .inl hstream
  cases file with
  | init =>
    obtain ⟨i, hi, hialive, -⟩ := hl.shaped.init
    obtain ⟨frame, hframe⟩ := Option.isSome_iff_exists.mp hialive
    obtain ⟨r, hread, hiff⟩ :=
      @frameRead_right frame size copies fPos (hl.shaped.fits i frame hframe)
    refine hright (r := advance fPos r.1) ?_ ?_ fun hstream => by cases hstream.1
    · simp [fileRead, pdumpfsInitRead, hi, hframe, hread]
    · simpa [fileCopies, hi, hframe] using hiff
  | current =>
    obtain ⟨d, hd⟩ := Option.isSome_iff_exists.mp (hl.shaped.opened (hopen rfl))
    obtain ⟨frame, hframe, -⟩ := hl.shaped.debugfs d hd
    obtain ⟨r, hread, hiff⟩ :=
      @frameRead_right frame size copies fPos (hl.shaped.fits d frame hframe)
    have hempty : pdumpfsCurrentRead x size copies fPos = some r := by
      simp only [pdumpfsCurrentRead, hd, hframe, Option.bind_eq_bind, Option.bind_some]
      split
      · exact hread
      · rw [← hread, pdumpfsFrameReadSingle, if_pos (by omega)]
    refine hright (r := advance fPos r.1) ?_ ?_ fun hstream => by cases hstream.1
    · simp [fileRead, hempty]
    · simpa [fileCopies, hd, hframe] using hiff
  | stream =>
    cases hun : unbacked x fPos with
    | true =>
      rw [hl.stream_unbacked hun]
      simp [readKept, hun]
    | false =>
      obtain ⟨r, hr, hiff⟩ := @Chained.stream_right x l size copies fPos hl hun
      refine hright hr hiff fun hstream => ?_
      rw [hun] at hstream
      cases hstream.2

theorem Chained.write_right_iff (hl : Chained x l) {q : WriteCall} {fromUser : Bool}
    (hp : q.frameMem.all (fun p => (x.frames p).isNone) = true) :
    (∃ t y r, writeTarget x q = some (t, y) ∧ pdumpfsFrameWrite x q fromUser = some r ∧
      pdumpfsWriteData x q fromUser = some (moved r) ∧ WriteRight q r.1 y (moved r)) ↔
      writeKept x q fromUser = true := by
  have hanswered : Answered x q fromUser := hl.write hp
  cases hanswered with
  | inl hnone =>
    refine iff_of_false (fun hsome => ?_) (by simp [hnone.2])
    obtain ⟨-, -, r, -, hr, -⟩ := hsome
    rw [hnone.1] at hr
    cases hr
  | inr hsome =>
    obtain ⟨t, y, r, -, htarget, hr, -, hiff⟩ := hsome
    rw [← hiff, htarget, hr, pdumpfsWriteData_eq, hr]
    constructor
    · intro hall
      obtain ⟨t', y', r', hy, hr', -, hwrite⟩ := hall
      rw [Option.some.injEq, Prod.mk.injEq] at hy
      rw [Option.some.injEq] at hr'
      rw [hy.2, hr']
      exact hwrite
    · intro hwrite
      exact ⟨t, y, r, rfl, rfl, rfl, hwrite⟩

/-- In every state that calls lead to, with any errors among them, a read is right exactly when none
    of its copies fails and it is not behind the frames, and a write exactly when it gets its pages
    and copies, and a forced frame finds the reader within the frames, or memory runs out and the
    first frame is the current one. -/
theorem handlers_right_iff
    (hrun : Run step (fun x op => proper x op = true) (pdumpfsInit p) log x) :
    (∀ file size copies fPos, (file = .current → x.frameCurrentOpenCount ≠ 0) →
      ((∃ r, fileRead x size copies fPos file = some r ∧ ReadRight size fPos r) ↔
        readKept x size copies fPos file = true)) ∧
    ∀ q fromUser, q.frameMem.all (fun p => (x.frames p).isNone) = true →
      ((∃ t y r, writeTarget x q = some (t, y) ∧ pdumpfsFrameWrite x q fromUser = some r ∧
        pdumpfsWriteData x q fromUser = some (moved r) ∧ WriteRight q r.1 y (moved r)) ↔
        writeKept x q fromUser = true) := by
  obtain ⟨l, hl⟩ := chained_run hrun
  exact ⟨fun _ size copies fPos hopen => hl.read_right_iff size copies fPos hopen,
    fun _ _ hp => hl.write_right_iff hp⟩

def errorOps : List Op :=
  [.writeData (sampleWrite [9] 0) true, .frameSet 1 1 (some 8192),
    .writeData (sampleWrite [1, 2, 3] 1) true, .streamOpen, .pread 1 0 0]

theorem handlers_right_iff_later : ∃ log x, exec step (pdumpfsInit 4096) errorOps = some (log, x) ∧
    (∃ r, fileRead x 2 1 1 .stream = some r ∧ ReadRight 2 1 r) ∧
    ∃ t y r, writeTarget x (sampleWrite [4, 5] 1) = some (t, y) ∧
      pdumpfsFrameWrite x (sampleWrite [4, 5] 1) true = some r ∧
      pdumpfsWriteData x (sampleWrite [4, 5] 1) true = some (moved r) ∧
      WriteRight (sampleWrite [4, 5] 1) r.1 y (moved r) ∧ (moved r).streamEnd = 5 := by
  have hsome : (exec step (pdumpfsInit 4096) errorOps).map (fun r =>
      ((readKept r.2 2 1 1 .stream, writeKept r.2 (sampleWrite [4, 5] 1) true),
        (pdumpfsWriteData r.2 (sampleWrite [4, 5] 1) true).map DumpState.streamEnd)) =
      some ((true, true), some 5) := by decide +kernel
  obtain ⟨⟨log, x⟩, hexec, hlook⟩ := Option.map_eq_some_iff.mp hsome
  simp only [Prod.mk.injEq] at hlook
  have hallowed : Allowed step (fun x op => proper x op = true) (pdumpfsInit 4096) errorOps :=
    allowed_of_allows (by decide +kernel)
  obtain ⟨hread, hwrite⟩ := handlers_right_iff (Run.of_allowed hexec hallowed)
  obtain ⟨t, y, r, htarget, hr, hdata, hright⟩ :=
    (hwrite (sampleWrite [4, 5] 1) true rfl).mpr hlook.1.2
  have hend := hlook.2
  rw [hdata, Option.map_some, Option.some.injEq] at hend
  exact ⟨log, x, hexec, (hread .stream 2 1 1 fun hfile => by cases hfile).mpr hlook.1.1, t, y, r,
    htarget, hr, hdata, hright, hend⟩

/-- The byte of the first frame is not copied to the process, and a byte not from it. -/
theorem handlers_wrong : (∃ x r, pdumpfsWriteData (pdumpfsInit 4096) (sampleWrite [1] 1) true = some x ∧
      fileRead x 1 0 0 .init = some r ∧ ¬ReadRight 1 0 r) ∧
    ∃ r, pdumpfsFrameWrite (pdumpfsInit 4096) (sampleWrite [1] 0) true = some r ∧
      ¬WriteRight (sampleWrite [1] 0) r.1 (pdumpfsInit 4096) (moved r) := by
  obtain ⟨x, hx, hread⟩ := Option.bind_eq_some_iff.mp
    (show (pdumpfsWriteData (pdumpfsInit 4096) (sampleWrite [1] 1) true).bind
      (fun x => fileRead x 1 0 0 .init) = some (advance 0 efault) by decide +kernel)
  obtain ⟨r, hr, hend⟩ := Option.map_eq_some_iff.mp
    (show (pdumpfsFrameWrite (pdumpfsInit 4096) (sampleWrite [1] 0) true).map
      (fun r => (r.1, currentOffset (moved r))) = some (einval, 0) by decide +kernel)
  obtain ⟨hret, hoff⟩ := Prod.mk.inj hend
  refine ⟨⟨x, _, hx, hread, not_readRight⟩, r, hr, fun h => ?_⟩
  have hanswer := h.answer.mp (answersOk_eq _)
  rw [hret, hoff] at hanswer
  exact absurd hanswer (by decide +kernel)

end PvrServices.Pdumpfs
