import PvrServices.PdumpfsLives

set_option autoImplicit false

/-!
# The pages of a frame

A page is entered into the frame before the copy that may fail. If that copy fails where the frame
ended with a page, the next write enters another one.
-/
namespace PvrServices.Pdumpfs
open Memory Runs
variable {frame f g : Frame} {buffer : List UInt8} {fromUser : Bool}
  {n t k pos size pages copies : ℕ}

/-- A frame, the pages entered into it, and the bytes stored in it. -/
structure PagedFrame where
  frame : Frame
  pages : List ℕ
  stored : List UInt8

/-- A call of `pdumpfs_frame_write_low`: the allocator has the pages `grants`, and of the copies
    from the process `copies` succeed. -/
structure PageWrite where
  buffer : List UInt8
  fromUser : Bool
  grants : List ℕ
  copies : ℕ

def createdFrame (mem : ℕ → ℕ → UInt8) : PagedFrame := ⟨{ newFrame 0 0 with pages := mem }, [], []⟩

def pagedWrite (s : PagedFrame) (w : PageWrite) : Option (ℕ × PagedFrame) :=
  let r := frameWriteLow s.frame w.buffer w.fromUser w.grants.length w.copies
  some (r.1, ⟨r.2, s.pages ++ w.grants.take (r.2.pageCount - s.frame.pageCount),
    s.stored ++ w.buffer.take (r.2.offset - s.frame.offset)⟩)

def frameDestroyFrees (s : PagedFrame) : List (Option ℕ) :=
  (List.range s.frame.pageCount).map fun i => s.pages[i]?

def readPieces (frame : Frame) : List ℕ → ℕ → Option (List UInt8)
  | [], _ => some []
  | size :: sizes, pos => do
    let (n, bytes) ← pdumpfsFrameReadSingle frame size 1 pos
    let rest ← readPieces frame sizes (pos + n)
    some (bytes ++ rest)

/-- The reads get as many bytes as there are, but for each read that asks for some at least one. -/
structure PagedFrame.Right (s : PagedFrame) : Prop where
  pageCount : s.frame.pageCount = (s.frame.offset + (pageSize - 1)) / pageSize
  indices : s.frame.pageCount ≤ framePageCount
  read : ∀ sizes, ∃ k, min (sizes.filter (0 < ·)).length s.stored.length ≤ k ∧
    readPieces s.frame sizes 0 = some (s.stored.take k)
  destroyed : s.pages.Nodup ∧ frameDestroyFrees s = s.pages.map some

def PageWrite.Fresh (s : PagedFrame) (w : PageWrite) : Prop := (s.pages ++ w.grants).Nodup

/-- The pages that a write needs up to its copy number `copies`. -/
def pagesBefore (frame : Frame) (copies : ℕ) : ℕ :=
  copies + if frame.offset % pageSize = 0 then 1 else 0

def copyFails (frame : Frame) (size : ℕ) (fromUser : Bool) (pages copies : ℕ) : Bool :=
  fromUser && decide (copies < pieces frame.offset size) &&
    decide (pagesBefore frame copies ≤ pages) &&
    decide (frame.pageCount + pagesBefore frame copies ≤ framePageCount)

/-- A copy from the process fails at the start of a page that could be had for it. -/
def strands (frame : Frame) (size : ℕ) (fromUser : Bool) (pages copies : ℕ) : Bool :=
  copyFails frame size fromUser pages copies && (copies ≠ 0 || frame.offset % pageSize = 0)

/-- What a write answers that has stored `t` bytes before. -/
def writeResult (frame : Frame) (size : ℕ) (fromUser : Bool) (pages copies t : ℕ) : ℕ :=
  if copyFails frame size fromUser pages copies then einval
  else if writes frame size fromUser pages copies then t + size
  else enomem

theorem copyFails_iff : copyFails frame size fromUser pages copies = true ↔
    fromUser = true ∧ copies < pieces frame.offset size ∧ pagesBefore frame copies ≤ pages ∧
      frame.pageCount + pagesBefore frame copies ≤ framePageCount := by
  simp [copyFails, and_assoc]

theorem strands_iff : strands frame size fromUser pages copies = true ↔
    copyFails frame size fromUser pages copies = true ∧
      (copies ≠ 0 ∨ frame.offset % pageSize = 0) := by
  simp [strands]

theorem Frame.Fits.writeResult_nil (h : frame.Fits) :
    writeResult frame ([] : List UInt8).length fromUser pages copies t = t := by
  have hfails : copyFails frame ([] : List UInt8).length fromUser pages copies = false := by
    simp [copyFails, pieces]
  rw [writeResult, hfails, h.writes_nil]
  rfl

theorem copyFails_no_page (hpage : frame.withPage pages = none) :
    copyFails frame size fromUser pages copies = false := by
  obtain ⟨hoff, hnone⟩ := Frame.withPage_none.mp hpage
  rw [← Bool.not_eq_true, copyFails_iff, pagesBefore, if_pos hoff]
  omega

theorem copyFails_no_copy (hfits : frame.Fits) (hpos : 0 < size)
    (hpage : frame.withPage pages = some (g, k)) : copyFails frame size true pages 0 = true := by
  have hcount := hfits.pageCount
  obtain ⟨-, -, -, hcases⟩ := Frame.withPage_some hpage
  have hpieces := (newPages_room frame hpos).2
  rw [copyFails_iff, pagesBefore]
  unfold pageSize at *
  refine ⟨rfl, by omega, ?_⟩
  split <;> omega

theorem copyFails_step (hpos : 0 < size) (hpage : frame.withPage pages = some (g, k))
    (hcopy : (fromUser && copies = 0) = false) (hoff : f.offset = frame.offset + frame.room size)
    (hcount : f.pageCount = g.pageCount) : copyFails frame size fromUser pages copies = true ↔
      copyFails f (size - frame.room size) fromUser k (copies - 1) = true := by
  obtain ⟨-, -, -, hcases⟩ := Frame.withPage_some hpage
  have hpieces := (newPages_room frame hpos).2
  have hend : size - frame.room size = 0 ∨ f.offset % pageSize = 0 := by
    rw [hoff]
    unfold Frame.room pageSize
    omega
  have hzero : pieces f.offset 0 = 0 := rfl
  have hne : fromUser = true → copies ≠ 0 := by
    rintro rfl
    simpa using hcopy
  rw [← hoff] at hpieces
  rw [copyFails_iff, copyFails_iff, hpieces, hcount, pagesBefore, pagesBefore]
  refine and_congr_right fun hu => ?_
  have := hne hu
  unfold pageSize at *
  rcases hend with hend | hend
  · rw [hend, hzero]
    split <;> omega
  · rw [if_pos hend]
    split <;> omega

theorem strands_step (hpos : 0 < size) (hpage : frame.withPage pages = some (g, k))
    (hcopy : (fromUser && copies = 0) = false) (hoff : f.offset = frame.offset + frame.room size)
    (hcount : f.pageCount = g.pageCount) : strands frame size fromUser pages copies = true ↔
      strands f (size - frame.room size) fromUser k (copies - 1) = true := by
  rw [strands_iff, strands_iff, ← copyFails_step hpos hpage hcopy hoff hcount]
  refine and_congr_right fun hfails => ?_
  obtain ⟨hu, hlt, -⟩ := copyFails_iff.mp hfails
  rw [hu, Bool.true_and, decide_eq_false_iff_not] at hcopy
  have hpieces := (newPages_room frame hpos).2
  refine iff_of_true (.inl hcopy) (.inr ?_)
  have hzero : pieces (frame.offset + frame.room size) 0 = 0 := rfl
  have hne : size - frame.room size ≠ 0 := fun hnil => by
    rw [hnil] at hpieces
    omega
  rw [hoff]
  unfold Frame.room pageSize at *
  omega

/-- A write leaves a part of its bytes, all of them if there are pages and copies. -/
structure Wrote (frame f : Frame) (buffer : List UInt8) (fromUser : Bool) (pages copies : ℕ) :
    Prop where
  fits : f.Fits
  offset : frame.offset ≤ f.offset ∧ f.offset ≤ frame.offset + buffer.length
  all : f.offset = frame.offset + buffer.length ↔
    writes frame buffer.length fromUser pages copies = true
  pageCount : frame.pageCount ≤ f.pageCount ∧ f.pageCount ≤ frame.pageCount + pages
  filled : frame.Filled → f.bytes = frame.bytes ++ buffer.take (f.offset - frame.offset) ∧
    (f.Filled ↔ strands frame buffer.length fromUser pages copies = false)

theorem Wrote.nil (hfits : frame.Fits) : Wrote frame frame [] fromUser pages copies :=
  ⟨hfits, by simp, iff_of_true rfl hfits.writes_nil, by omega,
    fun hfill => ⟨by simp, by simp [strands, copyFails, pieces, hfill]⟩⟩

theorem Wrote.none (hfits : g.Fits) (hoff : g.offset = frame.offset)
    (hw : writes frame buffer.length fromUser pages copies = false) (hpos : 0 < buffer.length)
    (hcount : frame.pageCount ≤ g.pageCount ∧ g.pageCount ≤ frame.pageCount + pages)
    (hfill : frame.Filled → g.bytes = frame.bytes ∧
      (g.Filled ↔ strands frame buffer.length fromUser pages copies = false)) :
    Wrote frame g buffer fromUser pages copies := by
  refine ⟨hfits, by omega, iff_of_false (by omega) (by rw [hw]; decide), hcount, fun h => ?_⟩
  rw [hoff, Nat.sub_self, List.take_zero, List.append_nil]
  exact hfill h

theorem frameWriteLoop_wrote (hfits : frame.Fits) (hn : buffer.length ≤ n) :
    ∃ f, frameWriteLoop fromUser n frame buffer pages copies t =
        (writeResult frame buffer.length fromUser pages copies t, f) ∧
      Wrote frame f buffer fromUser pages copies := by
  induction n generalizing frame buffer pages copies t with
  | zero =>
    obtain rfl : buffer = [] := List.length_eq_zero_iff.mp (by omega)
    exact ⟨frame, by rw [hfits.writeResult_nil]; rfl, .nil hfits⟩
  | succ n ih =>
    by_cases hnil : buffer = []
    · rw [hnil]
      exact ⟨frame, by rw [hfits.writeResult_nil]; rfl, .nil hfits⟩
    have hpos : 0 < buffer.length := List.length_pos_iff.mpr hnil
    cases hpage : frame.withPage pages with
    | none =>
      have hw := @writes_no_page frame fromUser _ pages copies hpos hpage
      have hfails := @copyFails_no_page frame fromUser buffer.length pages copies hpage
      refine ⟨frame, ?_, .none hfits rfl hw hpos (by omega) fun hfill => ⟨rfl, ?_⟩⟩
      · simp [frameWriteLoop, hnil, hpage, writeResult, hfails, hw]
      · simp [hfill, strands, hfails]
    | some r =>
      obtain ⟨g, k⟩ := r
      obtain ⟨hgoff, -, hgpages, hcases⟩ := Frame.withPage_some hpage
      have hoff := Frame.putPiece_offset buffer hpage
      have hstep := @writes_step frame (frame.putPiece g buffer) g fromUser _ _ copies k hpos hpage
        hoff rfl
      rw [frameWriteLoop_cons hnil hpage]
      by_cases hcopy : (fromUser && copies = 0) = true
      · rw [if_pos hcopy]
        obtain ⟨rfl, rfl⟩ : fromUser = true ∧ copies = 0 := by simpa using hcopy
        have hfails := copyFails_no_copy hfits hpos hpage
        have hw : writes frame buffer.length true pages 0 = false := by
          rw [← Bool.not_eq_true, hstep]
          simp
        refine ⟨g, by rw [writeResult, if_pos hfails], .none (hfits.withPage hpage) hgoff hw hpos
          (by omega) fun hfill => ⟨by simp [Frame.bytes, hgoff, hgpages], ?_⟩⟩
        rw [← Bool.not_eq_true, strands_iff, and_iff_right hfails]
        unfold Frame.Filled at hfill ⊢
        rw [hgoff]
        omega
      · rw [if_neg hcopy]
        have hle := (frame.room_le buffer.length).1
        have hroom := frame.room_pos hpos
        have hcopy := Bool.eq_false_iff.mpr hcopy
        obtain ⟨f, hloop, hw⟩ := @ih (frame.putPiece g buffer)
          (buffer.drop (frame.room buffer.length)) (t + frame.room buffer.length) k (copies - 1)
          (hfits.putPiece hpage) (by rw [List.length_drop]; omega)
        obtain ⟨hf, hoffs, hall, hcounts, hfilled⟩ := hw
        change g.pageCount ≤ f.pageCount ∧ f.pageCount ≤ g.pageCount + k at hcounts
        rw [List.length_drop] at hloop hoffs hall hfilled
        rw [hcopy, eq_self, true_and] at hstep
        have hsame := Bool.eq_iff_iff.mpr (copyFails_step hpos hpage hcopy hoff rfl)
        refine ⟨f, ?_, hf, by omega, ?_, by omega, fun hfill => ?_⟩
        · rw [hloop, writeResult, writeResult, ← hsame, Bool.eq_iff_iff.mpr hstep, Nat.add_assoc,
            Nat.add_sub_cancel' hle]
        · rw [hstep, ← hall]
          omega
        · obtain ⟨hfill', hbytes⟩ := hfill.putPiece hnil hpage
          obtain ⟨hrest, hiff⟩ := hfilled hfill'
          have hsplit : f.offset - frame.offset = frame.room buffer.length +
              (f.offset - (frame.putPiece g buffer).offset) := by omega
          rw [hrest, hbytes, List.append_assoc, hsplit, List.take_add, hiff, ← Bool.not_eq_true,
            ← Bool.not_eq_true, strands_step hpos hpage hcopy hoff rfl]
          exact ⟨rfl, Iff.rfl⟩

theorem readSingle_bytes (hfits : frame.Fits) : ∃ k, pdumpfsFrameReadSingle frame size 1 pos =
      some (k, (frame.bytes.drop pos).take k) ∧
    (0 < size → pos < frame.offset → 0 < k) := by
  unfold pdumpfsFrameReadSingle
  by_cases hend : frame.offset ≤ pos
  · rw [if_pos hend]
    exact ⟨0, by rw [List.take_zero], fun _ h => absurd h (by omega)⟩
  · have hpage : ¬ frame.pageCount ≤ pos / pageSize := by
      have := hfits.offset
      unfold pageSize at *
      omega
    have hmod : pos % pageSize < pageSize := Nat.mod_lt _ (by decide)
    rw [if_neg hend, if_neg hpage]
    refine ⟨_, congrArg some (Prod.ext rfl (Frame.bytes_stretch (by omega) (by omega))), ?_⟩
    omega

theorem readPieces_bytes (hfits : frame.Fits) (sizes : List ℕ) (pos : ℕ) :
    ∃ k, min (sizes.filter (0 < ·)).length (frame.offset - pos) ≤ k ∧
      readPieces frame sizes pos = some ((frame.bytes.drop pos).take k) := by
  induction sizes generalizing pos with
  | nil => exact ⟨0, by simp, by simp [readPieces]⟩
  | cons size sizes ih =>
    obtain ⟨m, hread, hpos⟩ := @readSingle_bytes frame pos size hfits
    obtain ⟨k, hk, hrest⟩ := ih (pos + m)
    refine ⟨m + k, ?_, ?_⟩
    · rw [List.filter_cons]
      split
      · next hsize =>
        rw [List.length_cons]
        have := hpos (by simpa using hsize)
        omega
      · omega
    · simp only [readPieces, hread, hrest, Option.bind_eq_bind, Option.bind_some]
      rw [List.take_add, List.drop_drop]

structure PagedFrame.Kept (s : PagedFrame) : Prop where
  fits : s.frame.Fits
  filled : s.frame.Filled
  stored : s.frame.bytes = s.stored
  length : s.pages.length = s.frame.pageCount
  nodup : s.pages.Nodup

theorem PagedFrame.Kept.right {s : PagedFrame} (h : s.Kept) : s.Right := by
  refine ⟨h.filled, h.fits.pageCount, fun sizes => ?_, h.nodup, ?_⟩
  · have hread := readPieces_bytes h.fits sizes 0
    rwa [h.stored, List.drop_zero, Nat.sub_zero, ← s.frame.bytes_length, h.stored] at hread
  · refine List.ext_getElem (by simp [frameDestroyFrees, h.length]) fun i hi hi' => ?_
    simp [frameDestroyFrees]

def PageWrite.Strands (s : PagedFrame) (w : PageWrite) : Prop :=
  strands s.frame w.buffer.length w.fromUser w.grants.length w.copies = true

theorem PagedFrame.Kept.step {s s' : PagedFrame} {w : PageWrite} {e : ℕ} (h : s.Kept)
    (hw : w.Fresh s) (hs : pagedWrite s w = some (e, s')) :
    (¬ w.Strands s → s'.Kept) ∧ (w.Strands s → ¬ s'.Right) := by
  obtain ⟨f, hloop, hwrote⟩ := @frameWriteLoop_wrote s.frame w.buffer w.fromUser w.buffer.length 0
    w.grants.length w.copies h.fits le_rfl
  obtain ⟨hbytes, hiff⟩ := hwrote.filled h.filled
  have hcount := hwrote.pageCount
  simp only [pagedWrite, frameWriteLow, hloop, Option.some.injEq, Prod.mk.injEq] at hs
  rw [← hs.2]
  constructor
  · intro hstay
    refine ⟨hwrote.fits, hiff.mpr (Bool.eq_false_iff.mpr hstay), hbytes.trans (by rw [h.stored]), ?_,
      ?_⟩
    · rw [List.length_append, List.length_take, h.length]
      change _ = f.pageCount
      omega
    · exact hw.sublist ((List.take_sublist _ _).append_left s.pages)
  · intro hstrands hright
    exact absurd (hiff.mp hright.pageCount) (by rw [hstrands]; decide)

theorem createdFrame_kept (mem : ℕ → ℕ → UInt8) : (createdFrame mem).Kept :=
  ⟨⟨Nat.le_refl 0, Nat.zero_le _⟩, show 0 = pagesUpTo 0 by decide, rfl, rfl, List.nodup_nil⟩

/-- A frame is right after each of its writes exactly when none of them strands a page. -/
theorem frame_right_iff {mem : ℕ → ℕ → UInt8} {l : List (PageWrite × ℕ)} {s : PagedFrame}
    (run : Run pagedWrite (fun s w => w.Fresh s) (createdFrame mem) l s) :
    (∀ m u, m <+: l → Run pagedWrite (fun s w => w.Fresh s) (createdFrame mem) m u → u.Right) ↔
      Run pagedWrite (fun s w => w.Fresh s ∧ ¬ w.Strands s) (createdFrame mem) l s :=
  run.sound_iff PagedFrame.Kept PagedFrame.Right (createdFrame_kept mem) (fun _ h => h.right)
    (fun _ _ _ _ h hw hgood hs => (h.step hw hs).1 hgood)
    fun _ _ _ _ h hw hbad hs => (h.step hw hs).2 (not_not.mp hbad)

def strandedWrite : PageWrite := ⟨[1], true, [4096], 0⟩

/-- The second write has no copy, and the third takes up at its byte. -/
def pageWrites : List PageWrite :=
  [⟨[1, 2], false, [4096], 0⟩, ⟨[5], true, [], 0⟩, ⟨[3, 4], true, [], 1⟩]

theorem frame_right_iff_inside : ∃ l s, Run pagedWrite (fun s w => w.Fresh s)
      (createdFrame fun _ _ => 170) l s ∧ s.stored = [1, 2, 3, 4] ∧ s.Right := by
  have hexec : (exec pagedWrite (createdFrame fun _ _ => 170) pageWrites).map
        (fun r => r.2.stored) = some [1, 2, 3, 4] := by
    decide +kernel
  obtain ⟨⟨l, s⟩, hl, hstored⟩ := Option.map_eq_some_iff.mp hexec
  have hallows : allows pagedWrite (fun s w => decide (s.pages ++ w.grants).Nodup &&
      !strands s.frame w.buffer.length w.fromUser w.grants.length w.copies)
      (createdFrame fun _ _ => 170) pageWrites = true := by
    decide +kernel
  have hgood : Run pagedWrite (fun s w => w.Fresh s ∧ ¬ w.Strands s) _ l s :=
    (Run.of_allowed hl (allowed_of_allows hallows)).mono fun s w h => by
      simpa [PageWrite.Fresh, PageWrite.Strands] using h
  have hfresh : Run pagedWrite (fun s w => w.Fresh s) _ l s := hgood.mono fun _ _ h => h.1
  exact ⟨l, s, hfresh, hstored, (frame_right_iff hfresh).mpr hgood l s (List.prefix_refl l) hfresh⟩

theorem page_stranded : ¬ ∀ mem l s, Run pagedWrite (fun s w => w.Fresh s) (createdFrame mem) l s →
    s.Right := by
  intro hall
  have hright := hall (fun _ _ => 0) _ _ (.snoc .refl (show strandedWrite.Fresh _ from List.nodup_singleton _) rfl)
  exact absurd hright.pageCount (by decide)

end PvrServices.Pdumpfs
