import PvrServices.PdumpfsBase

set_option autoImplicit false

/-!
# Writing a frame

A write goes page after page. It either puts all its bytes behind those of the frame, or stops with
an error and leaves behind what it had written until then.
-/
namespace PvrServices.Pdumpfs
open Memory Words
variable {frame f g : Frame} {buffer bs : List UInt8} {fromUser : Bool}
  {n size pages copies t k : ℕ}

def pagesUpTo (offset : ℕ) : ℕ := (offset + (pageSize - 1)) / pageSize

def newPages (offset size : ℕ) : ℕ := pagesUpTo (offset + size) - pagesUpTo offset

def pieces (offset size : ℕ) : ℕ :=
  if size = 0 then 0 else (offset % pageSize + size + (pageSize - 1)) / pageSize

def writes (frame : Frame) (size : ℕ) (fromUser : Bool) (pages copies : ℕ) : Bool :=
  frame.pageCount + newPages frame.offset size ≤ framePageCount &&
    newPages frame.offset size ≤ pages && (!fromUser || pieces frame.offset size ≤ copies)

structure Frame.Fits (frame : Frame) : Prop where
  offset : frame.offset ≤ pageSize * frame.pageCount
  pageCount : frame.pageCount ≤ framePageCount

def Frame.Filled (frame : Frame) : Prop := frame.pageCount = pagesUpTo frame.offset

def Frame.bytes (frame : Frame) : List UInt8 :=
  (List.range frame.offset).map fun i => frame.pages (i / pageSize) (i % pageSize)

@[simp] theorem Frame.bytes_length (frame : Frame) : frame.bytes.length = frame.offset := by
  simp [Frame.bytes]

theorem writes_iff : writes frame size fromUser pages copies = true ↔
    frame.pageCount + newPages frame.offset size ≤ framePageCount ∧
      newPages frame.offset size ≤ pages ∧
      (fromUser = true → pieces frame.offset size ≤ copies) := by
  cases fromUser <;> simp [writes, and_assoc]

theorem Frame.withPage_some (h : frame.withPage pages = some (f, k)) :
    f.offset = frame.offset ∧ f.next = frame.next ∧ f.pages = frame.pages ∧
      ((frame.offset % pageSize ≠ 0 ∧ f.pageCount = frame.pageCount ∧ k = pages) ∨
        frame.offset % pageSize = 0 ∧ f.pageCount = frame.pageCount + 1 ∧
          frame.pageCount < framePageCount ∧ pages = k + 1) := by
  unfold Frame.withPage at h
  split at h
  · rename_i hoff
    rw [Option.some.injEq, Prod.mk.injEq] at h
    rw [← h.1, ← h.2]
    exact ⟨rfl, rfl, rfl, .inl ⟨hoff, rfl, rfl⟩⟩
  · rename_i hoff
    split at h
    · cases h
    · rename_i hroom
      rw [Option.some.injEq, Prod.mk.injEq] at h
      rw [← h.1, ← h.2]
      rw [not_or] at hroom
      exact ⟨rfl, rfl, rfl, .inr ⟨by omega, rfl, by omega, by omega⟩⟩

theorem Frame.withPage_none :
    frame.withPage pages = none ↔
      frame.offset % pageSize = 0 ∧ (framePageCount ≤ frame.pageCount ∨ pages = 0) := by
  unfold Frame.withPage
  split
  · rename_i hoff
    simp [hoff]
  · rename_i hoff
    split
    · rename_i hnone
      exact ⟨fun _ => ⟨by omega, hnone⟩, fun _ => rfl⟩
    · rename_i hsome
      refine ⟨fun h => ?_, fun h => absurd h.2 hsome⟩
      cases h

theorem Frame.room_le (frame : Frame) (size : ℕ) :
    frame.room size ≤ size ∧ frame.room size ≤ pageSize - frame.offset % pageSize :=
  ⟨Nat.min_le_left _ _, Nat.min_le_right _ _⟩

theorem Frame.room_pos (frame : Frame) (h : 0 < size) : 0 < frame.room size := by
  unfold Frame.room pageSize
  omega

theorem newPages_room (frame : Frame) (h : 0 < size) :
    newPages frame.offset size = (if frame.offset % pageSize = 0 then 1 else 0) +
        newPages (frame.offset + frame.room size) (size - frame.room size) ∧
      pieces frame.offset size =
        1 + pieces (frame.offset + frame.room size) (size - frame.room size) := by
  unfold newPages pieces pagesUpTo Frame.room pageSize
  constructor
  · split <;> omega
  · rw [if_neg (by omega)]
    split <;> omega

theorem Frame.put_bytes (hpage : frame.pageCount = frame.offset / pageSize + 1)
    (hlen : bs.length ≤ pageSize - frame.offset % pageSize) :
    (frame.put bs).bytes = frame.bytes ++ bs := by
  have hslot : frame.pageCount - 1 = frame.offset / pageSize := by
    rw [hpage, Nat.add_sub_cancel]
  unfold Frame.bytes Frame.put
  simp only [hslot]
  rw [List.range_add, List.map_append]
  congr 1
  · apply List.map_congr_left
    intro i hi
    rw [List.mem_range] at hi
    by_cases hsame : i / pageSize = frame.offset / pageSize
    · rw [hsame, Function.update_self]
      apply store_out
      unfold pageSize at *
      omega
    · rw [Function.update_of_ne hsame]
  · apply List.ext_getElem
    · simp
    · intro i hi hi'
      simp only [List.getElem_map, List.getElem_range]
      have hdiv : (frame.offset + i) / pageSize = frame.offset / pageSize := by
        unfold pageSize at *
        omega
      have hmod : (frame.offset + i) % pageSize = frame.offset % pageSize + i := by
        unfold pageSize at *
        omega
      rw [hdiv, hmod, Function.update_self]
      exact store_in hi'

theorem writes_no_page (hpos : 0 < size) (hpage : frame.withPage pages = none) :
    writes frame size fromUser pages copies = false := by
  obtain ⟨hoff, hnone⟩ := Frame.withPage_none.mp hpage
  rw [← Bool.not_eq_true, writes_iff]
  intro hall
  obtain ⟨hcount, hpages, -⟩ := hall
  rw [(newPages_room frame hpos).1, if_pos hoff] at hcount hpages
  omega

theorem writes_step (hpos : 0 < size) (hpage : frame.withPage pages = some (g, k))
    (hoff : f.offset = frame.offset + frame.room size) (hpages : f.pageCount = g.pageCount) :
    writes frame size fromUser pages copies = true ↔ (fromUser && copies = 0) = false ∧
      writes f (size - frame.room size) fromUser k (copies - 1) = true := by
  obtain ⟨-, -, -, hcases⟩ := Frame.withPage_some hpage
  obtain ⟨hnew, hpieces⟩ := newPages_room frame hpos
  rw [writes_iff, writes_iff, hoff, hpages, hnew, hpieces]
  have hpage' : (if frame.offset % pageSize = 0 then 1 else 0) + frame.pageCount = g.pageCount ∧
      pages = (if frame.offset % pageSize = 0 then 1 else 0) + k := by
    cases hcases with
    | inl hin =>
      rw [if_neg hin.1]
      omega
    | inr hout =>
      rw [if_pos hout.1]
      omega
  cases fromUser with
  | false =>
    simp only [Bool.false_and, Bool.false_eq_true, false_implies, and_true, true_and]
    omega
  | true =>
    simp only [Bool.true_and, true_implies, decide_eq_false_iff_not]
    omega

def Frame.putPiece (frame g : Frame) (buffer : List UInt8) : Frame :=
  g.put (buffer.take (frame.room buffer.length))

theorem Frame.putPiece_offset (buffer : List UInt8) (hpage : frame.withPage pages = some (g, k)) :
    (frame.putPiece g buffer).offset = frame.offset + frame.room buffer.length := by
  have htake : (buffer.take (frame.room buffer.length)).length = frame.room buffer.length := by
    rw [List.length_take, Nat.min_eq_left (frame.room_le buffer.length).1]
  change g.offset + (buffer.take (frame.room buffer.length)).length = _
  rw [htake, (Frame.withPage_some hpage).1]

theorem frameWriteLoop_cons (hnil : buffer ≠ []) (hpage : frame.withPage pages = some (g, k)) :
    frameWriteLoop fromUser (n + 1) frame buffer pages copies t =
      if (fromUser && copies = 0) = true then (einval, g)
      else frameWriteLoop fromUser n (frame.putPiece g buffer)
        (buffer.drop (frame.room buffer.length)) k (copies - 1) (t + frame.room buffer.length) := by
  have hroom : g.room buffer.length = frame.room buffer.length := by
    rw [Frame.room, Frame.room, (Frame.withPage_some hpage).1]
  rw [frameWriteLoop, if_neg hnil, hpage]
  simp only [hroom, Frame.putPiece]

theorem Frame.Filled.slot (h : frame.Filled) (hpage : frame.withPage pages = some (g, k)) :
    g.pageCount = g.offset / pageSize + 1 := by
  obtain ⟨hoff, -, -, hcases⟩ := Frame.withPage_some hpage
  rw [hoff]
  unfold Frame.Filled pagesUpTo at h
  unfold pageSize at *
  omega

theorem Frame.Filled.putPiece (h : frame.Filled) (hnil : buffer ≠ [])
    (hpage : frame.withPage pages = some (g, k)) :
    (frame.putPiece g buffer).Filled ∧ (frame.putPiece g buffer).bytes =
      frame.bytes ++ buffer.take (frame.room buffer.length) := by
  have hslot := h.slot hpage
  obtain ⟨hoff, -, hpages, -⟩ := Frame.withPage_some hpage
  obtain ⟨hle, hroom⟩ := frame.room_le buffer.length
  have hpos := frame.room_pos (List.length_pos_iff.mpr hnil)
  constructor
  · unfold Frame.Filled
    rw [Frame.putPiece_offset _ hpage]
    change g.pageCount = _
    rw [hslot, hoff]
    unfold pagesUpTo
    unfold pageSize at *
    omega
  · have hbytes : g.bytes = frame.bytes := by
      rw [Frame.bytes, Frame.bytes, hoff, hpages]
    rw [Frame.putPiece, Frame.put_bytes hslot, hbytes]
    rw [List.length_take, Nat.min_eq_left hle, hoff]
    exact hroom

theorem Frame.Fits.withPage (h : frame.Fits) (hpage : frame.withPage pages = some (g, k)) :
    g.Fits := by
  obtain ⟨hoff, -, -, hcases⟩ := Frame.withPage_some hpage
  obtain ⟨hbytes, hcount⟩ := h
  constructor
  · rw [hoff]
    unfold pageSize at *
    omega
  · omega

theorem Frame.Fits.putPiece (h : frame.Fits) (hpage : frame.withPage pages = some (g, k)) :
    (frame.putPiece g buffer).Fits := by
  have hfits := h.withPage hpage
  obtain ⟨hoff, -, -, hcases⟩ := Frame.withPage_some hpage
  obtain ⟨hbytes, hcount⟩ := h
  have hroom := (frame.room_le buffer.length).2
  refine ⟨?_, hfits.pageCount⟩
  rw [Frame.putPiece_offset _ hpage]
  change _ ≤ pageSize * g.pageCount
  unfold pageSize at *
  omega

theorem frameWriteLoop_writes (hn : buffer.length ≤ n)
    (hw : writes frame buffer.length fromUser pages copies = true) :
    ∃ f, frameWriteLoop fromUser n frame buffer pages copies t = (t + buffer.length, f) ∧
      f.next = frame.next ∧ f.offset = frame.offset + buffer.length ∧ (frame.Fits → f.Fits) ∧
      (frame.Filled → f.Filled ∧ f.bytes = frame.bytes ++ buffer) := by
  induction n generalizing frame buffer pages copies t with
  | zero =>
    have hnil : buffer = [] := List.length_eq_zero_iff.mp (by omega)
    rw [hnil]
    exact ⟨frame, rfl, rfl, rfl, id, fun hf => ⟨hf, by simp⟩⟩
  | succ n ih =>
    by_cases hnil : buffer = []
    · rw [hnil]
      exact ⟨frame, by simp [frameWriteLoop], rfl, rfl, id, fun hf => ⟨hf, by simp⟩⟩
    · have hpos : 0 < buffer.length := List.length_pos_iff.mpr hnil
      cases hpage : frame.withPage pages with
      | none =>
        rw [writes_no_page hpos hpage] at hw
        cases hw
      | some r =>
        obtain ⟨g, k⟩ := r
        have hoff := Frame.putPiece_offset buffer hpage
        obtain ⟨hcopy, hrest⟩ := (writes_step hpos hpage hoff rfl).mp hw
        have hle := (frame.room_le buffer.length).1
        have hroom := frame.room_pos hpos
        rw [← List.length_drop] at hrest
        obtain ⟨f, hloop, hnext, hfoff, hfits, hfilled⟩ :=
          ih (t := t + frame.room buffer.length) (by rw [List.length_drop]; omega) hrest
        rw [List.length_drop] at hloop hfoff
        refine ⟨f, ?_, hnext.trans (Frame.withPage_some hpage).2.1, ?_,
          fun hf => hfits (hf.putPiece hpage), fun hf => ?_⟩
        · rw [frameWriteLoop_cons hnil hpage, hcopy, if_neg Bool.false_ne_true, hloop]
          congr 1
          omega
        · rw [hfoff, hoff]
          omega
        · obtain ⟨hf', hbytes⟩ := hf.putPiece hnil hpage
          obtain ⟨hf'', hall⟩ := hfilled hf'
          rw [hall, hbytes, List.append_assoc, List.take_append_drop]
          exact ⟨hf'', rfl⟩

theorem Frame.Fits.writes_nil (h : frame.Fits) :
    writes frame ([] : List UInt8).length fromUser pages copies = true := by
  rw [writes_iff]
  simpa [newPages, pieces] using h.pageCount

theorem frameWriteLoop_stops (hfits : frame.Fits) (hn : buffer.length ≤ n)
    (hw : writes frame buffer.length fromUser pages copies = false) :
    ∃ e f, frameWriteLoop fromUser n frame buffer pages copies t = (e, f) ∧
      (e = enomem ∨ e = einval) ∧ f.next = frame.next ∧ frame.offset ≤ f.offset ∧ f.Fits := by
  have hnil : buffer ≠ [] := fun hnil => by
    rw [hnil, hfits.writes_nil] at hw
    cases hw
  have hpos : 0 < buffer.length := List.length_pos_iff.mpr hnil
  induction n generalizing frame buffer pages copies t with
  | zero => omega
  | succ n ih =>
    cases hpage : frame.withPage pages with
    | none =>
      refine ⟨enomem, frame, ?_, .inl rfl, rfl, Nat.le_refl _, hfits⟩
      rw [frameWriteLoop, if_neg hnil, hpage]
    | some r =>
      obtain ⟨g, k⟩ := r
      obtain ⟨hgoff, hgnext, -, -⟩ := Frame.withPage_some hpage
      rw [frameWriteLoop_cons hnil hpage]
      by_cases hcopy : (fromUser && copies = 0) = true
      · rw [if_pos hcopy]
        exact ⟨einval, g, rfl, .inr rfl, hgnext, by omega, hfits.withPage hpage⟩
      · rw [if_neg hcopy]
        have hoff := Frame.putPiece_offset buffer hpage
        have hrest : writes (frame.putPiece g buffer)
            (buffer.drop (frame.room buffer.length)).length fromUser k (copies - 1) = false := by
          rw [List.length_drop, ← Bool.not_eq_true]
          intro hrest
          rw [(writes_step hpos hpage hoff rfl).mpr ⟨Bool.eq_false_iff.mpr hcopy, hrest⟩] at hw
          cases hw
        have hfits' : (frame.putPiece g buffer).Fits := hfits.putPiece hpage
        have hroom := frame.room_pos hpos
        have hne : buffer.drop (frame.room buffer.length) ≠ [] := fun hempty => by
          rw [hempty, hfits'.writes_nil] at hrest
          cases hrest
        obtain ⟨e, f, hloop, he, hnext, hle, hf⟩ :=
          ih hfits' (by rw [List.length_drop]; omega) hrest hne (List.length_pos_iff.mpr hne)
        rw [hoff] at hle
        exact ⟨e, f, hloop, he, hnext.trans hgnext, by omega, hf⟩

theorem frameWriteLow_writes
    (hw : writes frame buffer.length fromUser pages copies = true) :
    ∃ f, frameWriteLow frame buffer fromUser pages copies = (buffer.length, f) ∧
      f.next = frame.next ∧ f.offset = frame.offset + buffer.length ∧ (frame.Fits → f.Fits) ∧
      (frame.Filled → f.Filled ∧ f.bytes = frame.bytes ++ buffer) := by
  obtain ⟨f, hloop, hrest⟩ :=
    frameWriteLoop_writes (n := buffer.length) (t := 0) (Nat.le_refl _) hw
  refine ⟨f, ?_, hrest⟩
  rw [frameWriteLow, hloop, Nat.zero_add]

theorem frameWriteLow_fits (hfits : frame.Fits) (buffer : List UInt8) (fromUser : Bool)
    (pages copies : ℕ) : ∃ r f, frameWriteLow frame buffer fromUser pages copies = (r, f) ∧
      f.next = frame.next ∧ frame.offset ≤ f.offset ∧ f.Fits ∧
      ((writes frame buffer.length fromUser pages copies = true ∧ r = buffer.length ∧
          f.offset = frame.offset + buffer.length) ∨
        writes frame buffer.length fromUser pages copies = false ∧ (r = enomem ∨ r = einval)) := by
  cases hw : writes frame buffer.length fromUser pages copies with
  | true =>
    obtain ⟨f, hlow, hnext, hoff, hf, -⟩ := frameWriteLow_writes hw
    exact ⟨_, f, hlow, hnext, by omega, hf hfits, .inl ⟨rfl, rfl, hoff⟩⟩
  | false =>
    obtain ⟨e, f, hloop, he, hnext, hle, hf⟩ :=
      frameWriteLoop_stops (t := 0) hfits (Nat.le_refl _) hw
    exact ⟨e, f, hloop, hnext, hle, hf, .inr ⟨rfl, he⟩⟩

theorem frameWriteLow_no_page (hnil : buffer ≠ []) (hpage : frame.withPage pages = none) :
    frameWriteLow frame buffer fromUser pages copies = (enomem, frame) := by
  obtain ⟨n, hn⟩ := Nat.exists_eq_add_one_of_ne_zero (mt List.length_eq_zero_iff.mp hnil)
  rw [frameWriteLow, hn, frameWriteLoop, if_neg hnil, hpage]

theorem frameWriteLow_grows (hfits : frame.Fits) (hnil : buffer ≠ [])
    (hpage : frame.withPage pages = some (g, k)) :
    frame.offset < (frameWriteLow frame buffer false pages copies).2.offset := by
  have hpos : 0 < buffer.length := List.length_pos_iff.mpr hnil
  have hroom := frame.room_pos hpos
  obtain ⟨n, hn⟩ := Nat.exists_eq_add_one_of_ne_zero (Nat.ne_of_gt hpos)
  have hdrop : (buffer.drop (frame.room buffer.length)).length ≤ n := by
    rw [List.length_drop]
    omega
  have hfits' : (frame.putPiece g buffer).Fits := hfits.putPiece hpage
  have hoff := Frame.putPiece_offset buffer hpage
  rw [frameWriteLow, hn, frameWriteLoop_cons hnil hpage, Bool.false_and,
    if_neg Bool.false_ne_true]
  cases hw : writes (frame.putPiece g buffer) (buffer.drop (frame.room buffer.length)).length false
      k (copies - 1) with
  | true =>
    obtain ⟨f, hloop, -, hfoff, -⟩ :=
      frameWriteLoop_writes (t := 0 + frame.room buffer.length) hdrop hw
    rw [hloop, hfoff, hoff]
    omega
  | false =>
    obtain ⟨e, f, hloop, -, -, hle, -⟩ :=
      frameWriteLoop_stops (t := 0 + frame.room buffer.length) hfits' hdrop hw
    rw [hloop]
    change frame.offset < f.offset
    omega

end PvrServices.Pdumpfs
