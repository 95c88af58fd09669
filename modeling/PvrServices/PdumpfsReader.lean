import PvrServices.PdumpfsStream

set_option autoImplicit false

/-!
# A reader of the stream

The stream is opened and read to its end while frames are set and written. What arrives is what was
written, with dots for what was culled before it was read.
-/
namespace PvrServices.Pdumpfs
open Memory PointerList Runs Words
variable {x x' y : DumpState} {l l' : List ℕ} {frame f g : Frame} {buffer bs : List UInt8}
  {fromUser : Bool} {a b c d n p pages copies size : ℕ} {q : WriteCall} {op : Op} {reply : Reply}

/-- An open file with what was written to the frames that were there when it was opened or to later
    ones, what it received, and what it should have. -/
structure Session where
  state : DumpState
  written : List UInt8
  received : List UInt8
  expected : List (Option UInt8)

def openSession (x : DumpState) : Session := ⟨(pdumpfsStreamOpen x).2, streamBytes x, [], []⟩

def Session.culled (s : Session) : ℕ := s.written.length - (streamBytes s.state).length

def Session.due (s : Session) (n : ℕ) : List (Option UInt8) :=
  (List.range n).map fun i =>
    if s.received.length + i < s.culled then none else s.written[s.received.length + i]?

def arrived : Reply → List UInt8
  | .bytes ret bytes => if ret = efault then [] else bytes
  | _ => []

def Session.next (s : Session) (op : Op) (reply : Reply) (x' : DumpState) : Session :=
  ⟨x', s.written ++ Pdumpfs.written s.state op, s.received ++ arrived reply,
    s.expected ++ s.due (arrived reply).length⟩

def sessionStep (s : Session) (op : Op) : Option (Reply × Session) :=
  (step s.state op).map fun r => (r.1, s.next op r.1 r.2)

def sequential : Op → Bool
  | .streamRelease | .llseek _ _ | .pread _ _ _ => false
  | _ => true

def Session.admits (s : Session) (op : Op) : Bool :=
  proper s.state op && quiet s.state op && sequential op

def clearMeets (size copies : ℕ) : Bool :=
  if 80 ≤ size then size / 80 ≤ copies else copies ≠ 0

/-- A read, if the call is one, can copy what it finds to the process. -/
def copied (x : DumpState) : Op → Bool
  | .read size copies =>
    if x.streamEnd ≤ x.fPos then true
    else if x.fPos < x.streamStart then clearMeets (min size (x.streamStart - x.fPos).toNat) copies
    else copies ≠ 0
  | _ => true

/-- A byte, or a dot or line end where there should be one that is gone. -/
def Shows : Option UInt8 → UInt8 → Prop
  | none, b => b = 46 ∨ b = 10
  | some a, b => b = a

/-- The frames have the last of the bytes that were written, what was received is what should have
    been, and the next read goes on behind it. -/
structure Faithful (s : Session) : Prop where
  kept : streamBytes s.state <:+ s.written
  shown : List.Forall₂ Shows s.expected s.received
  inside : s.received.length ≤ s.written.length
  position : s.state.fPos = s.received.length

/-- Only frames that the reader is past are culled, unless there are too many. -/
def Spared (s : Session) (x' : DumpState) : Prop :=
  ∀ pre a post, streamFrames s.state = pre ++ a :: post → a ∉ streamFrames x' →
    s.culled + (bytesOf s.state (pre ++ [a])).length < s.received.length ∨
      maxFrameCountHard < (a :: post).length + 1

theorem pdumpfsCurrentRelease_kept (hx : pdumpfsCurrentRelease x = some x') :
    Unread x x' ∧ x'.streamStart = x.streamStart ∧
      ∀ a, x'.frames a = x.frames a ∨ x'.frames a = none := by
  unfold pdumpfsCurrentRelease at hx
  by_cases hlast : x.frameCurrentOpenCount - 1 = 0
  · simp only [hlast, if_true, Option.bind_eq_bind, Option.bind_eq_some_iff] at hx
    obtain ⟨d, -, frame, -, hx⟩ := hx
    rw [Option.some.injEq] at hx
    rw [← hx]
    split
    · refine ⟨⟨rfl, rfl, rfl⟩, rfl, fun a => ?_⟩
      by_cases had : a = d
      · right
        simp [frameDestroy, had]
      · left
        simp [frameDestroy, had]
    · exact ⟨⟨rfl, rfl, rfl⟩, rfl, fun a => .inl rfl⟩
  · simp only [hlast, if_false, Option.some.injEq] at hx
    rw [← hx]
    exact ⟨⟨rfl, rfl, rfl⟩, rfl, fun a => .inl rfl⟩

def beside : Op → Bool
  | .frameCountMaxWrite _ | .currentOpen | .currentRelease => true
  | _ => false

theorem Held.beside (h : Held x l) (hop : proper x op = true) (hbeside : Pdumpfs.beside op = true) :
    ∃ reply x', Pdumpfs.step x op = some (reply, x') ∧ arrived reply = [] ∧ Held x' l ∧ Unread x x' ∧
      x'.streamStart = x.streamStart ∧ ∀ a ∈ l, x'.frames a = x.frames a := by
  cases op with
  | frameCountMaxWrite result =>
    exact ⟨_, _, rfl, rfl, h.frameCountMax result, ⟨rfl, rfl, rfl⟩, rfl, fun _ _ => rfl⟩
  | currentOpen =>
    exact ⟨_, _, rfl, rfl, h.currentOpen, ⟨rfl, rfl, rfl⟩, rfl, fun _ _ => rfl⟩
  | currentRelease =>
    obtain ⟨y, hy, hheld⟩ := h.currentRelease (of_decide_eq_true hop)
    obtain ⟨hunread, hstart, hframes⟩ := pdumpfsCurrentRelease_kept hy
    refine ⟨.done, y, by simp [Pdumpfs.step, hy], rfl, hheld, hunread, hstart, fun a ha => ?_⟩
    refine (hframes a).resolve_right fun hnone => ?_
    have halive := hheld.shaped.listed.alive a ha
    rw [hnone] at halive
    cases halive
  | _ => cases hbeside

theorem Held.quietSet (h : Held x l) (hfull : Full x l) {mem : Option ℕ} (pid number : ℕ)
    (hmem : mem.isSome = true) (hp : mem.all (fun p => (x.frames p).isNone) = true)
    (hpos : x.frameStreamOpenCount = 0 ∨ x.streamFPos ≤ x.streamEnd) :
    ∃ p x' l', mem = some p ∧ Pdumpfs.frameNew x pid number mem = some (0, x') ∧
      Grown x x' l l' p (newFrame pid number) ∧ Held x' l' ∧ Full x' l' := by
  obtain ⟨p, hp'⟩ := Option.isSome_iff_exists.mp hmem
  rw [hp'] at hp ⊢
  obtain ⟨x', l', hnew, hgrown⟩ := frameNew_spec h.shaped h.spans h.bound (by simpa using hp) hpos
    pid number
  exact ⟨p, x', l', rfl, hnew, hgrown, ⟨hgrown.shaped, hgrown.spans, hgrown.bound⟩,
    (hgrown.bytes h hfull).1⟩

theorem Held.quietStep (h : Held x l) (hfull : Full x l) (hop : proper x op = true)
    (hmeets : meets x op = true) (hq : quiet x op = true) :
    ∃ reply x' l', Pdumpfs.step x op = some (reply, x') ∧ Held x' l' ∧ Full x' l' := by
  have hbeside (hb : Pdumpfs.beside op = true) :
      ∃ reply x' l', Pdumpfs.step x op = some (reply, x') ∧ Held x' l' ∧ Full x' l' := by
    obtain ⟨reply, x', hs, -, hheld, -, -, hframes⟩ := h.beside hop hb
    exact ⟨reply, x', l, hs, hheld, hfull.congr hframes⟩
  cases op with
  | frameSet pid number mem =>
    have hpos : x.frameStreamOpenCount = 0 ∨ x.streamFPos ≤ x.streamEnd := by
      have hsome : mem.isSome = true := hq
      cases mem with
      | none => cases hsome
      | some p => simpa [meets, cullMeets] using hmeets
    obtain ⟨p, x', l', -, hnew, -, hheld, hfull'⟩ := h.quietSet hfull pid number hq hop hpos
    exact ⟨.done, x', l', by simp [Pdumpfs.step, hnew], hheld, hfull'⟩
  | writeData q fromUser =>
    obtain ⟨x', hw, hheld, hfull', -⟩ := h.quietWrite hfull hq
    exact ⟨.done, x', l, by simp [Pdumpfs.step, hw], hheld, hfull'⟩
  | writeString q =>
    obtain ⟨x', hw, hheld, hfull', -⟩ := h.quietWrite hfull hq
    exact ⟨.done, x', l, by simp [Pdumpfs.step, pdumpfsWriteString, hw], hheld, hfull'⟩
  | frameCountMaxWrite result => exact hbeside rfl
  | currentOpen => exact hbeside rfl
  | currentRelease => exact hbeside rfl
  | streamOpen =>
    refine ⟨_, _, l, rfl, h.streamOpen, hfull.congr fun a _ => ?_⟩
    unfold pdumpfsStreamOpen
    split <;> rfl
  | streamRelease =>
    refine ⟨_, _, l, rfl, h.streamRelease, hfull.congr fun a _ => ?_⟩
    simp only [pdumpfsStreamRelease]
    split <;> rfl
  | llseek offset whence =>
    refine ⟨_, _, l, rfl, h.llseek (of_decide_eq_true hop) offset whence, hfull.congr fun a _ => ?_⟩
    simp only [pdumpfsStreamLlseek]
    split <;> rfl
  | read size copies =>
    obtain ⟨r, fPos', hread⟩ := h.read size copies x.fPos
    exact ⟨.bytes r.1 r.2.1, { x with fPos := r.2.2, streamFPos := fPos' }, l,
      by simp [Pdumpfs.step, hread], ⟨h.shaped.moveReader (of_decide_eq_true hop) _ _, h.spans,
      h.bound⟩, hfull.congr fun _ _ => rfl⟩
  | pread size copies pos =>
    obtain ⟨r, fPos', hread⟩ := h.read size copies pos
    exact ⟨.bytes r.1 r.2.1, { x with streamFPos := fPos' }, l, by simp [Pdumpfs.step, hread],
      ⟨h.shaped.moveReader (of_decide_eq_true hop) x.fPos fPos', h.spans, h.bound⟩,
      hfull.congr fun _ _ => rfl⟩

theorem clearLine_filler {u : UInt8} (hu : u ∈ clearLine) : u = 46 ∨ u = 10 := by
  cases List.mem_append.mp hu with
  | inl hdot => exact .inl (List.eq_of_mem_replicate hdot)
  | inr hend => exact .inr (List.mem_singleton.mp hend)

theorem clearLine_length : clearLine.length = 80 := by decide

theorem clearLines_length (n : ℕ) : (List.replicate n clearLine).flatten.length = n * 80 := by
  simp [clearLine_length]

theorem pdumpfsStreamBufferClear_copied (h : clearMeets size copies = true) : ∃ bs,
    pdumpfsStreamBufferClear size copies = (bs.length, bs) ∧ bs.length ≤ size ∧
      (0 < size → 0 < bs.length) ∧ bs.length ≠ efault ∧ ∀ u ∈ bs, u = 46 ∨ u = 10 := by
  unfold clearMeets at h
  unfold pdumpfsStreamBufferClear efault
  by_cases hlines : 80 ≤ size
  · rw [if_pos hlines, decide_eq_true_eq] at h
    rw [if_pos hlines, if_neg (by omega)]
    refine ⟨_, by rw [clearLines_length], ?_, ?_, ?_, fun u hu => ?_⟩
    · rw [clearLines_length]
      omega
    · rw [clearLines_length]
      omega
    · rw [clearLines_length]
      omega
    · obtain ⟨line, hline, hu⟩ := List.mem_flatten.mp hu
      rw [List.eq_of_mem_replicate hline] at hu
      exact clearLine_filler hu
  · rw [if_neg hlines, decide_eq_true_eq] at h
    rw [if_neg hlines, if_neg h]
    have hlen : (clearLine.drop (80 - size)).length = size := by
      rw [List.length_drop, clearLine_length]
      omega
    refine ⟨clearLine.drop (80 - size), by rw [hlen], by omega, by omega, by omega, fun u hu => ?_⟩
    exact clearLine_filler (List.mem_of_mem_drop hu)

theorem pdumpfsStreamBufferClear_fails (h : clearMeets size copies = false) :
    ∃ bs, pdumpfsStreamBufferClear size copies = (efault, bs) := by
  unfold clearMeets at h
  unfold pdumpfsStreamBufferClear
  by_cases hlines : 80 ≤ size
  · rw [if_pos hlines, decide_eq_false_iff_not] at h
    rw [if_pos hlines, if_pos (by omega)]
    exact ⟨_, rfl⟩
  · rw [if_neg hlines, decide_eq_false_iff_not, not_not] at h
    rw [if_neg hlines, if_pos h]
    exact ⟨_, rfl⟩

theorem Held.readGone (h : Held x l) (size copies : ℕ) {fPos : ℤ} (hpos : 0 ≤ fPos)
    (hgone : fPos < x.streamStart) {r : ℕ × List UInt8}
    (hclear : pdumpfsStreamBufferClear (min size (x.streamStart - fPos).toNat) copies = r) :
    pdumpfsStreamRead x size copies fPos =
      some ((r.1, r.2, fPos + r.1), x) := by
  have hspans := h.spans
  unfold Spans at hspans
  have hnot : ¬(x.streamEnd ≤ 0 ∨ x.streamEnd ≤ fPos) := by omega
  simp only [pdumpfsStreamRead, hnot, hgone, if_false, if_true, hclear, Option.bind_eq_bind,
    Option.bind_some]
  by_cases hzero : 0 < r.1
  · rw [if_pos hzero]
  · have hr : r.1 = 0 := by omega
    simp [hr]

variable {s s' : Session} {gone : List UInt8}

structure Reading (s : Session) (l : List ℕ) (gone : List UInt8) : Prop where
  held : Held s.state l
  full : Full s.state l
  users : s.state.frameStreamOpenCount ≠ 0
  written : s.written = gone ++ bytesOf s.state l
  start : s.state.streamStart = gone.length
  behind : s.state.streamFPos ≤ s.received.length
  shown : List.Forall₂ Shows s.expected s.received
  inside : s.received.length ≤ s.written.length
  position : s.state.fPos = s.received.length

theorem Reading.stop (h : Reading s l gone) : s.state.streamEnd = s.written.length := by
  have hspans := h.held.spans
  unfold Spans at hspans
  rw [h.start, ← bytesOf_length] at hspans
  rw [h.written, List.length_append]
  omega

theorem Reading.culled (h : Reading s l gone) : s.culled = gone.length := by
  rw [Session.culled, h.held.shaped.streamBytes, h.written, List.length_append]
  omega

theorem Reading.faithful (h : Reading s l gone) : Faithful s := by
  refine ⟨?_, h.shown, h.inside, h.position⟩
  rw [h.held.shaped.streamBytes, h.written]
  exact List.suffix_append _ _

theorem Reading.due_gone (h : Reading s l gone) (hin : s.received.length + bs.length ≤ gone.length)
    (hbs : ∀ u ∈ bs, u = 46 ∨ u = 10) : List.Forall₂ Shows (s.due bs.length) bs := by
  have hdue : s.due bs.length = List.replicate bs.length none := by
    rw [List.eq_replicate_iff]
    refine ⟨by simp [Session.due], fun o ho => ?_⟩
    obtain ⟨i, hi, hio⟩ := List.mem_map.mp ho
    rw [List.mem_range] at hi
    rw [if_pos (by rw [h.culled]; omega)] at hio
    exact hio.symm
  rw [hdue, List.forall₂_iff_get]
  refine ⟨List.length_replicate, fun i _ hi => ?_⟩
  rw [List.get_eq_getElem, List.getElem_replicate]
  exact hbs _ (List.get_mem _ _)

theorem Reading.due_kept (h : Reading s l gone) (hgone : gone.length ≤ s.received.length)
    (hin : s.received.length + n ≤ s.written.length) :
    List.Forall₂ Shows (s.due n) ((s.written.drop s.received.length).take n) := by
  rw [List.forall₂_iff_get]
  constructor
  · rw [List.length_take, List.length_drop]
    simp only [Session.due, List.length_map, List.length_range]
    omega
  · intro i hi _
    have hin' : i < n := by simpa [Session.due] using hi
    have hnot : ¬s.received.length + i < s.culled := by
      rw [h.culled]
      omega
    have hlt : s.received.length + i < s.written.length := by omega
    simp [Session.due, hnot, List.getElem?_eq_getElem hlt, Shows]

theorem Reading.arrive (h : Reading s l gone) {fPos : ℤ} (size copies : ℕ)
    (hreply : arrived reply = bs) (hshown : List.Forall₂ Shows (s.due bs.length) bs)
    (hin : s.received.length + bs.length ≤ s.written.length)
    (hbehind : fPos ≤ s.received.length + bs.length) :
    Reading (s.next (.read size copies) reply { s.state with
      fPos := s.state.fPos + bs.length
      streamFPos := fPos }) l gone := by
  have hlen : (s.received ++ bs).length = s.received.length + bs.length := List.length_append
  have hnone : s.written ++ Pdumpfs.written s.state (.read size copies) = s.written :=
    List.append_nil _
  rw [Session.next, hreply, hnone]
  refine ⟨⟨h.held.shaped.moveReader h.users _ _, h.held.spans, h.held.bound⟩,
    h.full.congr fun _ _ => rfl, h.users, ?_, h.start, ?_, ?_, ?_, ?_⟩
  · rw [h.written]
    rfl
  · rw [hlen]
    exact_mod_cast hbehind
  · exact List.rel_append h.shown hshown
  · rw [hlen]
    exact hin
  · rw [hlen]
    change s.state.fPos + bs.length = _
    rw [h.position]
    push_cast
    rfl

theorem Reading.lost (h : Reading s l gone) (size copies : ℕ) (bs : List UInt8) :
    (s.next (.read size copies) (.bytes efault bs)
      { s.state with fPos := s.state.fPos + efault }).state.fPos ≠
    (s.next (.read size copies) (.bytes efault bs)
      { s.state with fPos := s.state.fPos + efault }).received.length := by
  have hpos := h.position
  have hnone : arrived (.bytes efault bs) = [] := by simp [arrived]
  change s.state.fPos + efault ≠ (s.received ++ arrived (.bytes efault bs)).length
  rw [hnone, List.append_nil]
  unfold efault
  omega

/-- A read gives the next bytes, or fails and takes the position elsewhere. -/
theorem Reading.read (h : Reading s l gone) (size copies : ℕ) : ∃ reply x',
    step s.state (.read size copies) = some (reply, x') ∧
    streamFrames x' = streamFrames s.state ∧
    (copied s.state (.read size copies) = true →
      Reading (s.next (.read size copies) reply x') l gone ∧
        (0 < size → s.received.length < s.written.length → arrived reply ≠ [])) ∧
    (copied s.state (.read size copies) = false →
      (s.next (.read size copies) reply x').state.fPos ≠
        (s.next (.read size copies) reply x').received.length) := by
  have hstop := h.stop
  have hpos := h.position
  have hinside := h.inside
  have hbehind := h.behind
  have hstart := h.start
  have hlate : copied s.state (.read size copies) = if s.state.streamEnd ≤ s.state.fPos then true
      else if s.state.fPos < s.state.streamStart then
        clearMeets (min size (s.state.streamStart - s.state.fPos).toNat) copies
      else decide (copies ≠ 0) := rfl
  by_cases hend : s.state.streamEnd ≤ s.state.fPos
  · -- all is read
    refine ⟨.bytes 0 [], { s.state with fPos := s.state.fPos + ([] : List UInt8).length }, ?_, rfl,
      fun _ => ⟨?_, fun _ hlt => ?_⟩, fun hfalse => ?_⟩
    · simp [step, pdumpfsStreamRead, hend]
    · exact h.arrive size copies rfl .nil hinside (by simpa using hbehind)
    · omega
    · rw [hlate, if_pos hend] at hfalse
      cases hfalse
  · rw [if_neg hend] at hlate
    by_cases hgone : s.state.fPos < s.state.streamStart
    · rw [if_pos hgone] at hlate
      rw [hlate]
      obtain ⟨n, hn⟩ : ∃ n, n = min size (s.state.streamStart - s.state.fPos).toNat := ⟨_, rfl⟩
      rw [← hn]
      cases hclear : clearMeets n copies with
      | true =>
        obtain ⟨bs, hbs, hle, hsome, hne, hfiller⟩ := pdumpfsStreamBufferClear_copied hclear
        rw [hn] at hbs
        have hread := h.held.readGone size copies (by omega) hgone hbs
        have harrived : arrived (.bytes bs.length bs) = bs := if_neg hne
        have hgonele : gone.length ≤ s.written.length := by
          rw [h.written, List.length_append]
          omega
        refine ⟨.bytes bs.length bs, { s.state with fPos := s.state.fPos + bs.length }, ?_, rfl,
          fun _ => ⟨?_, fun hsize _ => ?_⟩, fun hfalse => ?_⟩
        · simp [step, hread]
        · refine h.arrive size copies harrived (h.due_gone ?_ hfiller) ?_ ?_
          · omega
          · omega
          · omega
        · rw [harrived]
          intro hnil
          rw [hnil] at hsome
          exact absurd (hsome (by omega)) (Nat.lt_irrefl 0)
        · cases hfalse
      | false =>
        obtain ⟨bs, hbs⟩ := pdumpfsStreamBufferClear_fails hclear
        rw [hn] at hbs
        have hread := h.held.readGone size copies (by omega) hgone hbs
        refine ⟨.bytes efault bs, { s.state with fPos := s.state.fPos + efault }, ?_, rfl,
          fun hfalse => ?_, fun _ => ?_⟩
        · simp [step, hread]
        · cases hfalse
        · exact h.lost size copies bs
    · rw [if_neg hgone] at hlate
      rw [hlate]
      have hfrom : s.state.streamStart ≤ s.state.fPos := by omega
      have hto : s.state.fPos < s.state.streamEnd := by omega
      obtain ⟨hfails, hgives⟩ := h.held.readStream copies size hfrom hto
      by_cases hcopies : copies = 0
      · refine ⟨.bytes efault [], { s.state with fPos := s.state.fPos + efault }, ?_, rfl,
          fun hfalse => ?_, fun _ => ?_⟩
        · simp [step, hfails hcopies]
        · simp [hcopies] at hfalse
        · exact h.lost size copies []
      · obtain ⟨k, hk, hsome, hin, hread⟩ := hgives hcopies
        obtain ⟨bs, hbs⟩ : ∃ bs, bs = (s.written.drop s.received.length).take k := ⟨_, rfl⟩
        have hlen : bs.length = k := by
          rw [hbs, List.length_take, List.length_drop]
          omega
        have hstretch : ((bytesOf s.state l).drop
            (s.state.fPos - s.state.streamStart).toNat).take k = bs := by
          have hat : s.received.length =
              gone.length + (s.state.fPos - s.state.streamStart).toNat := by omega
          rw [hbs, h.written, hat, List.drop_length_add_append]
        have harrived : arrived (.bytes k bs) = bs := by
          apply if_neg
          unfold pageSize at hk
          unfold efault
          omega
        rw [hstretch] at hread
        refine ⟨.bytes k bs, { s.state with
          fPos := s.state.fPos + bs.length
          streamFPos := s.state.streamFPos + k }, ?_, rfl, fun _ => ⟨?_, fun hsize _ => ?_⟩,
          fun hfalse => ?_⟩
        · simp [step, hread, hlen]
        · have hdue := h.due_kept (n := k) (by omega) (by omega)
          rw [← hbs] at hdue
          exact h.arrive size copies harrived (by rw [hlen]; exact hdue) (by omega) (by omega)
        · rw [harrived]
          intro hnil
          rw [hnil, List.length_nil] at hlen
          have hpositive := hsome hsize
          omega
        · simp [hcopies] at hfalse

theorem Reading.next (h : Reading s l gone) {gone' : List UInt8} (hheld : Held x' l')
    (hfull : Full x' l') (hunread : Unread s.state x') (hreply : arrived reply = [])
    (hbytes : s.written ++ Pdumpfs.written s.state op = gone' ++ bytesOf x' l')
    (hstart : x'.streamStart = gone'.length) : Reading (s.next op reply x') l' gone' := by
  have hdue : s.expected ++ s.due ([] : List UInt8).length = s.expected := List.append_nil _
  rw [Session.next, hreply, List.append_nil, hdue]
  refine ⟨hheld, hfull, ?_, hbytes, hstart, ?_, h.shown, ?_, ?_⟩
  · rw [hunread.users]
    exact h.users
  · rw [hunread.streamFPos]
    exact h.behind
  · change s.received.length ≤ (s.written ++ Pdumpfs.written s.state op).length
    have hinside := h.inside
    rw [List.length_append]
    omega
  · rw [hunread.fPos]
    exact h.position

theorem spared_of_eq (h : streamFrames x' = streamFrames s.state) : Spared s x' := by
  intro pre a post hl ha
  rw [h, hl] at ha
  exact absurd (List.mem_append_right pre List.mem_cons_self) ha

/-- The start of the stream moves on by what is culled, and the reader is past it. -/
theorem Reading.set (h : Reading s l gone) {pid number : ℕ}
    (hgrown : Grown s.state x' l l' p (newFrame pid number)) (hheld : Held x' l') :
    Spared s x' ∧ ∃ gone', s.written = gone' ++ bytesOf x' l' ∧
      x'.streamStart = gone'.length := by
  obtain ⟨-, dropped, hl, hbytes⟩ := hgrown.bytes h.held h.full
  constructor
  · intro pre a post hpre ha
    rw [h.held.shaped.streamFrames] at hpre
    rw [hheld.shaped.streamFrames] at ha
    have hall : pre ++ a :: (post ++ [p]) = dropped ++ l' := by
      rw [← hl, hpre, List.append_assoc, List.cons_append]
    have hsuffix : l' <:+ post ++ [p] := by
      cases List.append_eq_append_iff.mp hall with
      | inl hdrop =>
        obtain ⟨as, hdropped, has⟩ := hdrop
        cases as with
        | nil =>
          rw [List.nil_append] at has
          exact absurd (has ▸ List.mem_cons_self) ha
        | cons e as =>
          rw [List.cons_append, List.cons.injEq] at has
          exact ⟨as, has.2.symm⟩
      | inr hkeep =>
        obtain ⟨bs, -, hbs⟩ := hkeep
        exact absurd (hbs ▸ List.mem_append_right bs List.mem_cons_self) ha
    have hbehind := h.behind
    have hstart := h.start
    rw [h.culled, bytesOf_length]
    cases hgrown.passed h.users pre a post hpre hsuffix with
    | inl hpast =>
      left
      omega
    | inr hmany => exact .inr hmany
  · refine ⟨gone ++ bytesOf s.state dropped, ?_, ?_⟩
    · rw [h.written, hbytes, List.append_assoc]
    · have hspans := hheld.spans
      have hspans' := h.held.spans
      have hstart := h.start
      have hlen := congrArg List.length hbytes
      unfold Spans at hspans hspans'
      rw [hgrown.stop h.users, ← bytesOf_length] at hspans
      rw [← bytesOf_length] at hspans'
      rw [List.length_append] at hlen ⊢
      omega

/-- A call is answered, and the session goes on well unless it is a read that cannot copy what it
    finds. -/
def GoesOn (s : Session) (op : Op) : Prop :=
  ∃ reply x', step s.state op = some (reply, x') ∧ Spared s x' ∧
    (copied s.state op = true → ∃ l' gone', Reading (s.next op reply x') l' gone') ∧
    (copied s.state op = false →
      (s.next op reply x').state.fPos ≠ (s.next op reply x').received.length)

theorem goesOn_of_reading (hc : copied s.state op = true)
    (hs : step s.state op = some (reply, x')) (hspared : Spared s x')
    (hreading : Reading (s.next op reply x') l gone) : GoesOn s op := by
  refine ⟨reply, x', hs, hspared, fun _ => ⟨l, gone, hreading⟩, fun hfalse => ?_⟩
  rw [hc] at hfalse
  cases hfalse

theorem Reading.step (h : Reading s l gone) (hop : s.admits op = true) : GoesOn s op := by
  obtain ⟨hboth, hseq⟩ := (Bool.and_eq_true _ _).mp hop
  obtain ⟨hproper, hquiet⟩ := (Bool.and_eq_true _ _).mp hboth
  have hwrite {q : WriteCall} {fromUser : Bool} (hc : copied s.state op = true)
      (hq : writeQuiet s.state q fromUser = true)
      (hw : Pdumpfs.written s.state op =
        if s.state.frameCurrent = s.state.frameInit then [] else q.buffer)
      (hs : Pdumpfs.step s.state op =
        (pdumpfsWriteData s.state q fromUser).map fun x => (.done, x)) :
      GoesOn s op := by
    obtain ⟨x', hx', hheld, hfull, hunread, hstart, hbytes⟩ := h.held.quietWrite h.full hq
    rw [hx', Option.map_some] at hs
    have hbytes' : s.written ++ Pdumpfs.written s.state op = gone ++ bytesOf x' l := by
      rw [hw, hbytes, h.written, List.append_assoc]
    refine goesOn_of_reading hc hs (spared_of_eq ?_) (h.next hheld hfull hunread rfl hbytes' ?_)
    · rw [hheld.shaped.streamFrames, h.held.shaped.streamFrames]
    · rw [hstart, h.start]
  have hbeside (hc : copied s.state op = true) (hb : beside op = true)
      (hnone : Pdumpfs.written s.state op = []) :
      GoesOn s op := by
    obtain ⟨reply, x', hs, hreply, hheld, hunread, hstart, hframes⟩ := h.held.beside hproper hb
    have hbytes : bytesOf x' l = bytesOf s.state l := bytesOf_congr fun a ha => by
      rw [bytesAt, hframes a ha]
      rfl
    have hbytes' : s.written ++ Pdumpfs.written s.state op = gone ++ bytesOf x' l := by
      rw [hnone, List.append_nil, h.written, hbytes]
    refine goesOn_of_reading hc hs (spared_of_eq ?_)
      (h.next hheld (h.full.congr hframes) hunread hreply hbytes' ?_)
    · rw [hheld.shaped.streamFrames, h.held.shaped.streamFrames]
    · rw [hstart, h.start]
  cases op with
  | frameSet pid number mem =>
    have hpos : s.state.streamFPos ≤ s.state.streamEnd := by
      have hstop := h.stop
      have hbehind := h.behind
      have hinside := h.inside
      omega
    obtain ⟨p, x', l', -, hnew, hgrown, hheld, hfull⟩ :=
      h.held.quietSet h.full pid number hquiet hproper (.inr hpos)
    obtain ⟨hspared, gone', hbytes, hstart⟩ := h.set hgrown hheld
    have hunread : Unread s.state x' := ⟨hgrown.same.frameStreamOpenCount,
      hgrown.same.streamFPos, hgrown.same.fPos⟩
    have hs : Pdumpfs.step s.state (.frameSet pid number mem) = some (.done, x') := by
      simp [Pdumpfs.step, hnew]
    refine goesOn_of_reading rfl hs hspared (h.next hheld hfull hunread rfl ?_ hstart)
    rw [← hbytes]
    exact List.append_nil _
  | writeData q fromUser => exact hwrite rfl hquiet rfl rfl
  | writeString q => exact hwrite rfl hquiet rfl rfl
  | frameCountMaxWrite result => exact hbeside rfl rfl rfl
  | currentOpen => exact hbeside rfl rfl rfl
  | currentRelease => exact hbeside rfl rfl rfl
  | streamOpen =>
    have hsame : pdumpfsStreamOpen s.state = (false, s.state) := if_pos h.users
    have hs : Pdumpfs.step s.state .streamOpen = some (.opened false, s.state) := by
      simp [Pdumpfs.step, hsame]
    refine goesOn_of_reading rfl hs (spared_of_eq rfl) (h.next h.held h.full ⟨rfl, rfl, rfl⟩ rfl ?_ h.start)
    rw [← h.written]
    exact List.append_nil _
  | read size copies =>
    obtain ⟨reply, x', hs, hframes, hgood, hbad⟩ := h.read size copies
    exact ⟨reply, x', hs, spared_of_eq hframes, fun hc => ⟨l, gone, (hgood hc).1⟩, hbad⟩
  | streamRelease => cases hseq
  | llseek offset whence => cases hseq
  | pread size copies pos => cases hseq

variable {log log' : List (Op × Reply)}

theorem full_run (hrun : Run step (fun x op => proper x op = true ∧ meets x op = true ∧
    quiet x op = true) (pdumpfsInit p) log x) : ∃ l, Held x l ∧ Full x l := by
  have hfull : Full (pdumpfsInit p) [] := fun a ha => absurd ha List.not_mem_nil
  refine hrun.invariant (fun x => ∃ l, Held x l ∧ Full x l) ⟨[], held_init p, hfull⟩ ?_
  intro x op reply x' hx hop hs
  obtain ⟨l, hl, hfull⟩ := hx
  obtain ⟨reply', y, l', hy, hheld, hfull'⟩ := hl.quietStep hfull hop.1 hop.2.1 hop.2.2
  rw [hs, Option.some.injEq, Prod.mk.injEq] at hy
  rw [hy.2]
  exact ⟨l', hheld, hfull'⟩

theorem reading_open (h : Held x l) (hfull : Full x l) (hclosed : x.frameStreamOpenCount = 0) :
    Reading (openSession x) l [] := by
  have hopen : pdumpfsStreamOpen x =
      (true, { x with frameStreamOpenCount := x.frameStreamOpenCount + 1, fPos := 0 }) :=
    if_neg fun hne => hne hclosed
  have hheld := h.streamOpen
  unfold openSession
  rw [hopen] at hheld ⊢
  refine ⟨hheld, hfull.congr fun _ _ => rfl, Nat.succ_ne_zero _, ?_, h.shaped.start.2 hclosed, ?_,
    .nil, Nat.zero_le _, rfl⟩
  · change streamBytes x = bytesOf x l
    exact h.shaped.streamBytes
  · exact Int.le_of_eq (h.shaped.reader hclosed)

theorem reading_run (h : Reading (openSession x) l [])
    (hrun : Run sessionStep (fun s op => s.admits op = true ∧ copied s.state op = true)
      (openSession x) log s) : ∃ l gone, Reading s l gone := by
  refine hrun.invariant (fun s => ∃ l gone, Reading s l gone) ⟨l, [], h⟩ ?_
  intro s op reply s' hs hop hstep
  obtain ⟨l, gone, hl⟩ := hs
  obtain ⟨reply', x', hx', -, hgood, -⟩ := hl.step hop.1
  rw [sessionStep, hx', Option.map_some, Option.some.injEq, Prod.mk.injEq] at hstep
  rw [← hstep.2]
  exact hgood hop.2

/-- However the frames change and are written while a reader reads them to their end, it has the
    bytes that were written, with dots for those that were culled before, and no frame ahead of it is
    culled unless there are too many. Every further call keeps this exactly if it is not a read that
    cannot copy what it finds. -/
theorem faithful_over_sessions
    (hbefore : Run step (fun x op => proper x op = true ∧ meets x op = true ∧ quiet x op = true)
      (pdumpfsInit p) log x) (hclosed : x.frameStreamOpenCount = 0)
    (hrun : Run sessionStep (fun s op => s.admits op = true ∧ copied s.state op = true)
      (openSession x) log' s) :
    Faithful s ∧
    (∀ op, s.admits op = true → ∃ reply s', sessionStep s op = some (reply, s') ∧
      Spared s s'.state ∧ (Faithful s' ↔ copied s.state op = true)) ∧
    ∀ size copies, 0 < size → s.received.length < s.written.length →
      copied s.state (.read size copies) = true →
      ∃ reply s', sessionStep s (.read size copies) = some (reply, s') ∧ arrived reply ≠ [] := by
  obtain ⟨l, hl, hfull⟩ := full_run hbefore
  obtain ⟨k, gone, hk⟩ := reading_run (reading_open hl hfull hclosed) hrun
  refine ⟨hk.faithful, fun op hop => ?_, fun size copies hsize hleft hc => ?_⟩
  · obtain ⟨reply, x', hs, hspared, hgood, hbad⟩ := hk.step hop
    refine ⟨reply, s.next op reply x', by rw [sessionStep, hs, Option.map_some], hspared, ?_⟩
    constructor
    · intro hfaithful
      cases hc : copied s.state op with
      | true => rfl
      | false => exact absurd hfaithful.position (hbad hc)
    · intro hc
      obtain ⟨l', gone', hreading⟩ := hgood hc
      exact hreading.faithful
  · obtain ⟨reply, x', hs, -, hgood, -⟩ := hk.read size copies
    exact ⟨reply, s.next (.read size copies) reply x', by rw [sessionStep, hs, Option.map_some],
      (hgood hc).2 hsize hleft⟩

def beforeOps : List Op :=
  [.frameSet 1 1 (some 8192), .writeData (sampleWrite [1, 2, 3] 1) true,
    .frameSet 1 2 (some 12288), .writeString (sampleWrite [4] 0)]

theorem before_run (hexec : exec step (pdumpfsInit 4096) beforeOps = some (log, x)) :
    Run step (fun x op => proper x op = true ∧ meets x op = true ∧ quiet x op = true)
      (pdumpfsInit 4096) log x := by
  have hallowed : Allowed step (fun x op => (proper x op && meets x op && quiet x op) = true)
      (pdumpfsInit 4096) beforeOps := allowed_of_allows (by decide +kernel)
  apply (Run.of_allowed hexec hallowed).mono
  intro x op hop
  rw [Bool.and_eq_true, Bool.and_eq_true, and_assoc] at hop
  exact hop

def readerOps : List Op :=
  [.read 8 1, .writeString (sampleWrite [5, 6] 0), .read 8 1, .frameSet 1 3 (some 16384),
    .writeData (sampleWrite [7] 1) true, .read 2 1, .writeString (sampleWrite [8] 0)]

def runSession (before ops : List Op) : Option (List (Op × Reply) × Session) :=
  (exec step (pdumpfsInit 4096) before).bind fun r => exec sessionStep (openSession r.2) ops

theorem faithful_over_sample : ∃ log s, runSession beforeOps readerOps = some (log, s) ∧
    s.received = [1, 2, 3, 4, 5, 6, 7] ∧ Faithful s ∧
    (∃ reply s', sessionStep s (.read 2 1) = some (reply, s') ∧ Spared s s'.state ∧
      Faithful s') ∧
    ∃ reply s', sessionStep s (.read 2 0) = some (reply, s') ∧ ¬Faithful s' := by
  have hsome : (exec step (pdumpfsInit 4096) beforeOps).map (fun r =>
      (r.2.frameStreamOpenCount, (exec sessionStep (openSession r.2) readerOps).map fun r =>
        (r.2.received, [r.2.admits (.read 2 1), copied r.2.state (.read 2 1),
          r.2.admits (.read 2 0), copied r.2.state (.read 2 0)]))) =
      some (0, some ([1, 2, 3, 4, 5, 6, 7], [true, true, true, false])) := by decide +kernel
  obtain ⟨⟨log, x⟩, hexec, hlook⟩ := Option.map_eq_some_iff.mp hsome
  rw [Prod.mk.injEq] at hlook
  obtain ⟨⟨log', s⟩, hexec', hlook'⟩ := Option.map_eq_some_iff.mp hlook.2
  simp only [Prod.mk.injEq, List.cons.injEq, and_true] at hlook'
  have hafter : ((exec step (pdumpfsInit 4096) beforeOps).map fun r =>
      allows sessionStep (fun s op => s.admits op && copied s.state op) (openSession r.2)
        readerOps) = some true := by decide +kernel
  rw [hexec, Option.map_some, Option.some.injEq] at hafter
  have hrun' : Run sessionStep (fun s op => s.admits op = true ∧ copied s.state op = true)
      (openSession x) log' s := (Run.of_allowed hexec' (allowed_of_allows hafter)).mono
        fun _ _ h => Bool.and_eq_true_iff.mp h
  obtain ⟨hfaithful, hall, -⟩ := faithful_over_sessions (before_run hexec) hlook.1 hrun'
  refine ⟨log', s, ?_, hlook'.1, hfaithful, ?_, ?_⟩
  · rw [runSession, hexec, Option.bind_some, hexec']
  · obtain ⟨reply, s', hs, hspared, hiff⟩ := hall _ hlook'.2.1
    exact ⟨reply, s', hs, hspared, hiff.mpr hlook'.2.2.1⟩
  · obtain ⟨reply, s', hs, -, hiff⟩ := hall _ hlook'.2.2.2.1
    refine ⟨reply, s', hs, fun hf => ?_⟩
    have hcopied := hiff.mp hf
    rw [hlook'.2.2.2.2] at hcopied
    cases hcopied

/-- After a read that could not copy, the reader finds the stream at its end although it has none of
    its bytes. -/
theorem reads_nothing_more : ¬∀ p log x log' s,
    Run step (fun x op => proper x op = true ∧ meets x op = true ∧ quiet x op = true)
      (pdumpfsInit p) log x → x.frameStreamOpenCount = 0 →
    Run sessionStep (fun s op => s.admits op = true) (openSession x) log' s →
    Faithful s ∧ ∀ size, 0 < size → s.received.length < s.written.length →
      ∃ reply s', sessionStep s (.read size size) = some (reply, s') ∧ arrived reply ≠ [] := by
  intro hclaim
  have hsome : (exec step (pdumpfsInit 4096) beforeOps).map (fun r =>
      (r.2.frameStreamOpenCount, (exec sessionStep (openSession r.2) [.read 2 0]).map fun r =>
        ((r.2.received.length, r.2.written.length),
          (sessionStep r.2 (.read 2 2)).map fun r => arrived r.1))) =
      some (0, some ((0, 4), some [])) := by decide +kernel
  obtain ⟨⟨log, x⟩, hexec, hlook⟩ := Option.map_eq_some_iff.mp hsome
  rw [Prod.mk.injEq] at hlook
  obtain ⟨⟨log', s⟩, hexec', hlook'⟩ := Option.map_eq_some_iff.mp hlook.2
  simp only [Prod.mk.injEq] at hlook'
  have hafter : ((exec step (pdumpfsInit 4096) beforeOps).map fun r =>
      allows sessionStep (fun s op => s.admits op) (openSession r.2) [.read 2 0]) = some true := by
    decide +kernel
  rw [hexec, Option.map_some, Option.some.injEq] at hafter
  have hrun' := Run.of_allowed hexec' (allowed_of_allows hafter)
  obtain ⟨-, hreads⟩ := hclaim 4096 log x log' s (before_run hexec) hlook.1 hrun'
  obtain ⟨reply, s', hs, hne⟩ := hreads 2 (by decide) (by omega)
  rw [hs, Option.map_some, Option.some.injEq] at hlook'
  exact hne hlook'.2

end PvrServices.Pdumpfs
