import PvrServices.PdumpfsLists
import PvrServices.Runs

set_option autoImplicit false

/-!
# The dumped frames over runs

Frames are set and written and the stream is opened, read and released, in any order. The stream
spans the bytes of its frames as long as no write to it stops half-way, no frame is forced, and no
frame is set while the reads of the open file add up to more than the stream has.
-/
namespace PvrServices.Pdumpfs
open Memory PointerList Runs Words
variable {x x' : DumpState} {l l' : List ℕ} {frame f g : Frame} {buffer : List UInt8}
  {fromUser : Bool} {a b c d n p pages copies : ℕ} {q : WriteCall} {op : Op} {reply : Reply}

/-- The stream goes from its start to its end over the bytes of the frames on its list, which
    `frame_count` counts and of which `frame_current` is the last, if there is one. -/
def Accounted (x : DumpState) : Prop :=
  ∃ l, Listed x l ∧ Spans x l ∧ x.frameCount = l.length ∧
    x.frameCurrent = l.getLast?.or x.frameInit

def cullMeets (x : DumpState) : Bool := x.frameStreamOpenCount = 0 || x.streamFPos ≤ x.streamEnd

def silent (q : WriteCall) : Bool :=
  q.messagePages = 0 && (q.comm = [] || q.commPages = 0) && q.endPages = 0

/-- A write goes to the frame that is not on the stream, or to the stream and puts all its bytes
    there and nothing else. -/
def writeMeets (x : DumpState) (q : WriteCall) (fromUser : Bool) : Bool :=
  match x.frameCurrent.bind x.frames with
  | none => false
  | some frame =>
    if overruns frame q.buffer.length then
      match q.frameMem with
      | none => x.frameCurrent = x.frameInit
      | some _ => cullMeets x && silent q &&
        writes (newFrame q.pid 4294967295) q.buffer.length fromUser q.pages q.copies
    else x.frameCurrent = x.frameInit ||
      writes frame q.buffer.length fromUser q.pages q.copies

def meets (x : DumpState) : Op → Bool
  | .frameSet _ _ mem => mem.isNone || cullMeets x
  | .writeData q fromUser => writeMeets x q fromUser
  | .writeString q => writeMeets x q false
  | _ => true

/-- New frames are where none is, and files are used while they are open. -/
def proper (x : DumpState) : Op → Bool
  | .frameSet _ _ mem => mem.all fun p => (x.frames p).isNone
  | .writeData q _ | .writeString q => q.frameMem.all fun p => (x.frames p).isNone
  | .frameCountMaxWrite _ | .currentOpen | .streamOpen => true
  | .currentRelease => x.frameCurrentOpenCount ≠ 0
  | .streamRelease | .llseek _ _ | .read _ _ | .pread _ _ _ => x.frameStreamOpenCount ≠ 0

/-- The list with the frames, and the bytes that the stream spans. -/
structure Held (x : DumpState) (l : List ℕ) : Prop where
  shaped : Shaped x l
  spans : Spans x l
  bound : l.length ≤ maxFrameCountHard

/-- What a call makes of it: there is no answer, or the frames are in shape and the stream spans
    their bytes if the condition is met. -/
def Outcome (o : Option DumpState) (ok : Bool) : Prop :=
  (o = none ∧ ok = false) ∨ ∃ x l, o = some x ∧ Shaped x l ∧ l.length ≤ maxFrameCountHard ∧
    (Spans x l ↔ ok = true)

theorem Listed.unique (h : Listed x l) (h' : Listed x l') : l = l' := h.chain.unique h'.chain

theorem Shaped.accounted_iff (h : Shaped x l) : Accounted x ↔ Spans x l := by
  constructor
  · intro hx
    obtain ⟨l', hlist, hspans, -⟩ := hx
    rw [h.listed.unique hlist]
    exact hspans
  · intro hspans
    exact ⟨l, h.listed, hspans, h.count, h.current⟩

theorem total_setFrame (hnodup : l.Nodup) (hc : c ∈ l) (hframe : x.frames c = some frame) :
    total (x.setFrame c f) l + frame.offset = total x l + f.offset := by
  induction l with
  | nil => cases hc
  | cons a l ih =>
    rw [List.nodup_cons] at hnodup
    rw [total_cons, total_cons]
    by_cases hac : a = c
    · have hself : (x.setFrame c f).frames a = some f := by
        rw [hac]
        exact Function.update_self ..
      have hrest : total (x.setFrame c f) l = total x l := total_congr fun b hb => by
        have hbc : b ≠ c := fun hbc => hnodup.1 (hac ▸ hbc ▸ hb)
        exact Function.update_of_ne hbc ..
      rw [hrest, offsetOf_eq hself, hac, offsetOf_eq hframe]
      omega
    · have hmem : c ∈ l := by
        cases List.mem_cons.mp hc with
        | inl hca => exact absurd hca.symm hac
        | inr hmem => exact hmem
      have hother : offsetOf (x.setFrame c f) a = offsetOf x a := by
        rw [offsetOf, offsetOf]
        congr 2
        exact Function.update_of_ne hac ..
      have hrest := ih hnodup.2 hmem
      rw [hother]
      omega

theorem Shaped.written (h : Shaped x l) (hspans : Spans x l) (hc : c ∈ l)
    (hframe : x.frames c = some frame) (hnext : f.next = frame.next) (hf : f.Fits) (r : ℕ) :
    Shaped { x.setFrame c f with streamEnd := x.streamEnd + r } l ∧
      (Spans { x.setFrame c f with streamEnd := x.streamEnd + r } l ↔
        r + frame.offset = f.offset) := by
  have hset := h.setFrame hframe hnext hf
  have htotal := total_setFrame (f := f) h.listed.chain.nodup hc hframe
  refine ⟨⟨⟨hset.listed.chain, hset.listed.alive⟩, hset.count, hset.max, hset.init, hset.current,
    hset.fits, hset.users, hset.debugfs, hset.opened, hset.start, hset.reader⟩, ?_⟩
  unfold Spans at *
  have hsame : total { x.setFrame c f with streamEnd := x.streamEnd + r } l =
      total (x.setFrame c f) l := total_congr fun _ _ => rfl
  rw [hsame]
  change x.streamEnd + r - x.streamStart = _ ↔ _
  omega

theorem Frame.Fits.offset_lt (h : f.Fits) : f.offset < einval ∧ f.offset < enomem := by
  obtain ⟨hoff, hcount⟩ := h
  unfold pageSize framePageCount at *
  unfold einval enomem
  omega

/-- The result of a write is what it added exactly if it put all its bytes there, and never what
    the frame has then unless that was empty. -/
theorem frameWriteLow_result (hfits : frame.Fits) (buffer : List UInt8) (fromUser : Bool)
    (pages copies : ℕ) : ∃ r f, frameWriteLow frame buffer fromUser pages copies = (r, f) ∧
      f.next = frame.next ∧ frame.offset ≤ f.offset ∧ f.Fits ∧
      (r + frame.offset = f.offset ↔ writes frame buffer.length fromUser pages copies = true) ∧
      (r = f.offset → frame.offset = 0) := by
  obtain ⟨r, f, hlow, hnext, hle, hf, hcases⟩ :=
    frameWriteLow_fits hfits buffer fromUser pages copies
  refine ⟨r, f, hlow, hnext, hle, hf, ?_⟩
  obtain ⟨heinval, henomem⟩ := hf.offset_lt
  cases hcases with
  | inl hall =>
    obtain ⟨hw, hr, hoff⟩ := hall
    rw [hw, hr, hoff]
    exact ⟨⟨fun _ => rfl, fun _ => Nat.add_comm _ _⟩, by omega⟩
  | inr hstop =>
    obtain ⟨hw, hr⟩ := hstop
    rw [hw]
    refine ⟨⟨fun hsum => ?_, fun hfalse => ?_⟩, by omega⟩
    · omega
    · cases hfalse

def moved (r : ℕ × DumpState) : DumpState :=
  if 0 < r.1 ∧ r.2.frameCurrent ≠ r.2.frameInit then
    { r.2 with streamEnd := r.2.streamEnd + r.1 }
  else r.2

theorem pdumpfsWriteData_eq (x : DumpState) (q : WriteCall) (fromUser : Bool) :
    pdumpfsWriteData x q fromUser = (pdumpfsFrameWrite x q fromUser).map moved := by
  unfold pdumpfsWriteData
  rw [Option.map_eq_bind]
  rfl

theorem moved_stream (hne : x.frameCurrent ≠ x.frameInit) (r : ℕ) :
    moved (r, x) = { x with streamEnd := x.streamEnd + r } := by
  unfold moved
  by_cases hr : 0 < r
  · rw [if_pos ⟨hr, hne⟩]
  · have hzero : r = 0 := by omega
    simp [hzero]

theorem writeLow_stream (h : Shaped x l) (hspans : Spans x l) (hbound : l.length ≤ maxFrameCountHard)
    (hc : x.frameCurrent = some c) (hcl : c ∈ l) (hframe : x.frames c = some frame)
    (hne : x.frameCurrent ≠ x.frameInit) (hlow : frameWriteLow frame buffer fromUser pages copies =
      (n, f)) (hnext : f.next = frame.next) (hf : f.Fits) :
    ∃ x', (pdumpfsFrameWriteLow x buffer fromUser pages copies).map moved = some x' ∧ Shaped x' l ∧
      l.length ≤ maxFrameCountHard ∧ (Spans x' l ↔ n + frame.offset = f.offset) := by
  obtain ⟨hshaped, hiff⟩ := h.written hspans hcl hframe hnext hf n
  refine ⟨{ x.setFrame c f with streamEnd := x.streamEnd + n }, ?_, hshaped, hbound, hiff⟩
  have hset : (x.setFrame c f).frameCurrent ≠ (x.setFrame c f).frameInit := hne
  simp only [pdumpfsFrameWriteLow, hc, hframe, hlow, Option.bind_eq_bind, Option.bind_some,
    Option.map_some, moved_stream hset]
  rfl

theorem Held.writeLow (h : Held x l) (hc : x.frameCurrent = some c)
    (hframe : x.frames c = some frame) (buffer : List UInt8) (fromUser : Bool) (pages copies : ℕ) :
    Outcome ((pdumpfsFrameWriteLow x buffer fromUser pages copies).map moved)
      (x.frameCurrent = x.frameInit || writes frame buffer.length fromUser pages copies) := by
  obtain ⟨r, f, hlow, hnext, -, hf, hiff, -⟩ := frameWriteLow_result
    (h.shaped.fits c frame hframe) buffer fromUser pages copies
  by_cases hinit : x.frameCurrent = x.frameInit
  · have hnil := h.shaped.current_init.mp hinit
    have hset := h.shaped.setFrame hframe hnext hf
    refine .inr ⟨x.setFrame c f, l, ?_, hset, h.bound, ?_⟩
    · have hinit' : (x.setFrame c f).frameCurrent = (x.setFrame c f).frameInit := hinit
      simp only [pdumpfsFrameWriteLow, hc, hframe, hlow, Option.bind_eq_bind, Option.bind_some,
        Option.map_some, moved, hinit', ne_eq, not_true_eq_false, and_false, if_false]
    · have hspans : Spans (x.setFrame c f) l := by
        have hold := h.spans
        rw [hnil] at hold ⊢
        exact hold
      simp [hspans, hinit]
  · have hcl : c ∈ l := by
      cases hlast : l.getLast? with
      | none =>
        rw [h.shaped.current, hlast] at hinit
        exact absurd rfl hinit
      | some e =>
        have hcurrent := h.shaped.current
        rw [hlast, hc, Option.some_or, Option.some.injEq] at hcurrent
        rw [hcurrent]
        exact List.mem_of_getLast? hlast
    obtain ⟨x', hx', hshaped, hbound, hspans⟩ :=
      writeLow_stream h.shaped h.spans h.bound hc hcl hframe hinit hlow hnext hf
    refine .inr ⟨x', l, hx', hshaped, hbound, ?_⟩
    rw [hspans, hiff]
    simp [hinit]

def overrunFrame (frame : Frame) (q : WriteCall) : Frame :=
  (frameWriteLow (frameWriteLow (frameWriteLow frame frameOverrunMessage false q.messagePages 0).2
    q.comm false q.commPages 0).2 [13, 10] false q.endPages 0).2

theorem pdumpfsFrameWriteLow_eq (hc : x.frameCurrent = some c) (hframe : x.frames c = some frame) :
    pdumpfsFrameWriteLow x buffer fromUser pages copies =
      some ((frameWriteLow frame buffer fromUser pages copies).1,
        x.setFrame c (frameWriteLow frame buffer fromUser pages copies).2) := by
  simp [pdumpfsFrameWriteLow, hc, hframe]

theorem setFrame_setFrame (x : DumpState) (c : ℕ) (f g : Frame) :
    (x.setFrame c f).setFrame c g = x.setFrame c g := by
  simp [DumpState.setFrame]

theorem setFrame_self (x : DumpState) (c : ℕ) (f : Frame) :
    (x.setFrame c f).frames c = some f := Function.update_self ..

theorem overrunMessage_eq (hc : x.frameCurrent = some c) (hframe : x.frames c = some frame) :
    overrunMessage x q = some (x.setFrame c (overrunFrame frame q)) := by
  have hc' (f : Frame) : (x.setFrame c f).frameCurrent = some c := hc
  simp only [overrunMessage, Option.bind_eq_bind, pdumpfsFrameWriteLow_eq hc hframe,
    Option.bind_some, pdumpfsFrameWriteLow_eq (hc' _) (setFrame_self x c _), setFrame_setFrame,
    overrunFrame]

theorem frameWriteLow_kept (hfits : frame.Fits) (buffer : List UInt8) (fromUser : Bool)
    (pages copies : ℕ) :
    (frameWriteLow frame buffer fromUser pages copies).2.next = frame.next ∧
      frame.offset ≤ (frameWriteLow frame buffer fromUser pages copies).2.offset ∧
      (frameWriteLow frame buffer fromUser pages copies).2.Fits := by
  obtain ⟨r, f, hlow, hnext, hle, hf, -⟩ := frameWriteLow_fits hfits buffer fromUser pages copies
  rw [hlow]
  exact ⟨hnext, hle, hf⟩

theorem overrunFrame_kept (hfits : frame.Fits) (q : WriteCall) :
    (overrunFrame frame q).next = frame.next ∧ frame.offset ≤ (overrunFrame frame q).offset ∧
      (overrunFrame frame q).Fits := by
  obtain ⟨h₁, hle₁, hf₁⟩ := frameWriteLow_kept hfits frameOverrunMessage false q.messagePages 0
  obtain ⟨h₂, hle₂, hf₂⟩ := frameWriteLow_kept hf₁ q.comm false q.commPages 0
  obtain ⟨h₃, hle₃, hf₃⟩ := frameWriteLow_kept hf₂ [13, 10] false q.endPages 0
  exact ⟨h₃.trans (h₂.trans h₁), Nat.le_trans hle₁ (Nat.le_trans hle₂ hle₃), hf₃⟩

theorem newFrame_withPage (pid number pages : ℕ) :
    (newFrame pid number).withPage pages = none ↔ pages = 0 := by
  rw [Frame.withPage_none]
  simp [newFrame, framePageCount]

theorem frameWriteLow_newFrame (hnil : buffer ≠ []) (pid number pages copies : ℕ) :
    (pages = 0 → (frameWriteLow (newFrame pid number) buffer false pages copies).2 =
      newFrame pid number) ∧
    (pages ≠ 0 → 0 < (frameWriteLow (newFrame pid number) buffer false pages copies).2.offset) := by
  constructor
  · intro hzero
    rw [frameWriteLow_no_page hnil ((newFrame_withPage pid number pages).mpr hzero)]
  · intro hpages
    cases hpage : (newFrame pid number).withPage pages with
    | none => exact absurd ((newFrame_withPage pid number pages).mp hpage) hpages
    | some r => exact frameWriteLow_grows (newFrame_fits pid number) hnil hpage

/-- The message leaves a new frame empty exactly if there is no page for any of its parts. -/
theorem overrunFrame_silent (pid number : ℕ) (q : WriteCall) :
    (silent q = true → overrunFrame (newFrame pid number) q = newFrame pid number) ∧
      (silent q = false → 0 < (overrunFrame (newFrame pid number) q).offset) := by
  have hfits := newFrame_fits pid number
  have hmessage : frameOverrunMessage ≠ [] := by simp [frameOverrunMessage]
  have hend : ([13, 10] : List UInt8) ≠ [] := by simp
  obtain ⟨hno₁, hyes₁⟩ := frameWriteLow_newFrame hmessage pid number q.messagePages 0
  obtain ⟨-, -, hf₁⟩ := frameWriteLow_kept hfits frameOverrunMessage false q.messagePages 0
  obtain ⟨-, hle₂, hf₂⟩ := frameWriteLow_kept hf₁ q.comm false q.commPages 0
  obtain ⟨-, hle₃, -⟩ := frameWriteLow_kept hf₂ [13, 10] false q.endPages 0
  by_cases h₁ : q.messagePages = 0
  · rw [hno₁ h₁] at hle₂ hle₃
    have hcomm : ((q.comm = [] ∨ q.commPages = 0) →
          (frameWriteLow (newFrame pid number) q.comm false q.commPages 0).2 =
            newFrame pid number) ∧
        (¬(q.comm = [] ∨ q.commPages = 0) →
          0 < (frameWriteLow (newFrame pid number) q.comm false q.commPages 0).2.offset) := by
      by_cases hnil : q.comm = []
      · rw [hnil]
        exact ⟨fun _ => rfl, fun hnot => absurd (.inl rfl) hnot⟩
      · obtain ⟨hno, hyes⟩ := frameWriteLow_newFrame hnil pid number q.commPages 0
        exact ⟨fun h => hno (h.resolve_left hnil), fun h => hyes fun h₀ => h (.inr h₀)⟩
    by_cases h₂ : q.comm = [] ∨ q.commPages = 0
    · obtain ⟨hno₃, hyes₃⟩ := frameWriteLow_newFrame hend pid number q.endPages 0
      have heq : overrunFrame (newFrame pid number) q =
          (frameWriteLow (newFrame pid number) [13, 10] false q.endPages 0).2 := by
        unfold overrunFrame
        rw [hno₁ h₁, hcomm.1 h₂]
      rw [heq]
      refine ⟨fun hsilent => hno₃ ?_, fun hsilent => hyes₃ fun h₃ => ?_⟩
      · simp only [silent, Bool.and_eq_true, decide_eq_true_eq] at hsilent
        exact hsilent.2
      · have htrue : silent q = true := by simpa [silent, h₁, h₃] using h₂
        rw [htrue] at hsilent
        cases hsilent
    · refine ⟨fun hsilent => ?_, fun _ => ?_⟩
      · have hboth : q.comm = [] ∨ q.commPages = 0 := by
          simp only [silent, Bool.and_eq_true, Bool.or_eq_true, decide_eq_true_eq] at hsilent
          exact hsilent.1.2
        exact absurd hboth h₂
      · have hpos := hcomm.2 h₂
        unfold overrunFrame
        rw [hno₁ h₁]
        omega
  · refine ⟨fun hsilent => ?_, fun _ => ?_⟩
    · simp only [silent, Bool.and_eq_true, decide_eq_true_eq] at hsilent
      exact absurd hsilent.1.1 h₁
    · have hpos := hyes₁ h₁
      unfold overrunFrame
      omega

theorem Held.forced (h : Held x l) (hc : x.frameCurrent = some c)
    (hframe : x.frames c = some frame) (hover : overruns frame q.buffer.length = true)
    (hp : q.frameMem.all (fun p => (x.frames p).isNone) = true) :
    Outcome (pdumpfsWriteData x q fromUser) (writeMeets x q fromUser) := by
  rw [pdumpfsWriteData_eq]
  have hmeets : writeMeets x q fromUser = match q.frameMem with
      | none => decide (x.frameCurrent = x.frameInit)
      | some _ => cullMeets x && silent q &&
        writes (newFrame q.pid 4294967295) q.buffer.length fromUser q.pages q.copies := by
    simp only [writeMeets, hc, Option.bind_some, hframe, hover, if_true]
  rw [hmeets]
  cases hmem : q.frameMem with
  | none =>
    have hwrite : pdumpfsFrameWrite x q fromUser = some (enomem, x) := by
      simp [pdumpfsFrameWrite, hc, hframe, hover, frameNew, hmem, enomem]
    rw [hwrite]
    by_cases hinit : x.frameCurrent = x.frameInit
    · refine .inr ⟨x, l, ?_, h.shaped, h.bound, by simp [hinit, h.spans]⟩
      simp [moved, hinit]
    · refine .inr ⟨_, l, by rw [Option.map_some, moved_stream hinit], ?_, h.bound, ?_⟩
      · have hs := h.shaped
        exact ⟨⟨hs.listed.chain, hs.listed.alive⟩, hs.count, hs.max, hs.init, hs.current, hs.fits,
          hs.users, hs.debugfs, hs.opened, hs.start, hs.reader⟩
      · have hspans := h.spans
        unfold Spans at *
        have hsame : total { x with streamEnd := x.streamEnd + enomem } l = total x l :=
          total_congr fun _ _ => rfl
        rw [hsame]
        unfold enomem
        simp only [hinit, decide_false, Bool.false_eq_true, iff_false]
        omega
  | some p =>
    have hfree : x.frames p = none := by simpa [hmem] using hp
    dsimp only
    by_cases hpos : x.frameStreamOpenCount = 0 ∨ x.streamFPos ≤ x.streamEnd
    · obtain ⟨y, k, hnew, hgrown⟩ := frameNew_spec h.shaped h.spans h.bound hfree hpos q.pid
        4294967295
      have hcull : cullMeets x = true := by simpa [cullMeets] using hpos
      obtain ⟨hsilent, hloud⟩ := overrunFrame_silent q.pid 4294967295 q
      have hkept := overrunFrame_kept (newFrame_fits q.pid 4294967295) q
      have hpk : p ∈ k := List.mem_of_getLast? hgrown.last
      have hne : y.frameCurrent ≠ y.frameInit := fun heq => by
        rw [hgrown.shaped.current_init.mp heq] at hpk
        cases hpk
      obtain ⟨r, f, hlow, hnext, -, hf, hiff, hzero⟩ :=
        frameWriteLow_result hkept.2.2 q.buffer fromUser q.pages q.copies
      have hwrite : pdumpfsFrameWrite x q fromUser = some (r, y.setFrame p f) := by
        have hcurrent : (y.setFrame p (overrunFrame (newFrame q.pid 4294967295) q)).frameCurrent =
          some p := hgrown.current
        simp only [pdumpfsFrameWrite, hc, hframe, hover, if_true, hmem, hnew, Option.bind_eq_bind,
          Option.bind_some, ne_eq, not_true_eq_false, if_false,
          overrunMessage_eq hgrown.current hgrown.fresh,
          pdumpfsFrameWriteLow_eq hcurrent (setFrame_self y p _), hlow, setFrame_setFrame]
      obtain ⟨hshaped, hspans⟩ := hgrown.shaped.written hgrown.spans hpk hgrown.fresh
        (hnext.trans hkept.1) hf r
      have hset : (y.setFrame p f).frameCurrent ≠ (y.setFrame p f).frameInit := hne
      refine .inr ⟨{ y.setFrame p f with streamEnd := y.streamEnd + r }, k, ?_, hshaped,
        hgrown.bound, ?_⟩
      · rw [hwrite, Option.map_some, moved_stream hset]
        rfl
      · rw [hspans, hcull, Bool.true_and]
        change r + 0 = f.offset ↔ _
        cases hs : silent q with
        | true =>
          have hempty := hsilent hs
          rw [hempty] at hiff
          rw [Bool.true_and]
          exact hiff
        | false =>
          have hloud' := hloud hs
          rw [Bool.false_and]
          refine ⟨fun hr => ?_, fun hfalse => ?_⟩
          · have hm := hzero hr
            omega
          · cases hfalse
    · have hnew := frameNew_none h.shaped h.bound hfree
        ((Spans.within_iff h.spans).not.mpr hpos) q.pid 4294967295
      refine .inl ⟨?_, ?_⟩
      · simp [pdumpfsFrameWrite, hc, hframe, hover, hmem, hnew]
      · have hcull : cullMeets x = false := by simpa [cullMeets] using hpos
        rw [hcull, Bool.false_and, Bool.false_and]

theorem Held.write (h : Held x l) (fromUser : Bool)
    (hp : q.frameMem.all (fun p => (x.frames p).isNone) = true) :
    Outcome (pdumpfsWriteData x q fromUser) (writeMeets x q fromUser) := by
  obtain ⟨c, frame, hc, hframe⟩ := h.shaped.current_alive
  cases hover : overruns frame q.buffer.length with
  | true => exact h.forced hc hframe hover hp
  | false =>
    have hmeets : writeMeets x q fromUser = (x.frameCurrent = x.frameInit ||
        writes frame q.buffer.length fromUser q.pages q.copies) := by
      simp only [writeMeets, hc, Option.bind_some, hframe, hover, Bool.false_eq_true, if_false]
    have hwrite : pdumpfsFrameWrite x q fromUser =
        pdumpfsFrameWriteLow x q.buffer fromUser q.pages q.copies := by
      simp only [pdumpfsFrameWrite, hc, hframe, hover, Option.bind_eq_bind, Option.bind_some,
        Bool.false_eq_true, if_false]
    rw [pdumpfsWriteData_eq, hmeets, hwrite]
    exact h.writeLow hc hframe q.buffer fromUser q.pages q.copies

theorem Held.frameNew (h : Held x l) (pid number : ℕ) {mem : Option ℕ}
    (hp : mem.all (fun p => (x.frames p).isNone) = true) :
    Outcome ((Pdumpfs.frameNew x pid number mem).map Prod.snd) (mem.isNone || cullMeets x) := by
  cases mem with
  | none => exact .inr ⟨x, l, rfl, h.shaped, h.bound, by simp [h.spans]⟩
  | some p =>
    have hfree : x.frames p = none := by simpa using hp
    by_cases hpos : x.frameStreamOpenCount = 0 ∨ x.streamFPos ≤ x.streamEnd
    · obtain ⟨y, k, hnew, hgrown⟩ := frameNew_spec h.shaped h.spans h.bound hfree hpos pid number
      have hcull : cullMeets x = true := by simpa [cullMeets] using hpos
      exact .inr ⟨y, k, by rw [hnew]; rfl, hgrown.shaped, hgrown.bound,
        by simp [hgrown.spans, hcull]⟩
    · have hcull : cullMeets x = false := by simpa [cullMeets] using hpos
      have hnew := frameNew_none h.shaped h.bound hfree
        ((Spans.within_iff h.spans).not.mpr hpos) pid number
      exact .inl ⟨by rw [hnew]; rfl, by simp [hcull]⟩

theorem skipFrames_spec {s t : ℤ} {p : Option ℕ} (hchain : Linked (nextOf x) p l)
    (halive : ∀ a ∈ l, (x.frames a).isSome = true) (hstart : s ≤ t)
    (hend : t < s + total x l) (hn : l.length ≤ n) : ∃ pre a post frame,
    l = pre ++ a :: post ∧ x.frames a = some frame ∧
    skipFrames x.frames t n s p = some (s + total x pre, frame) ∧
    s + total x pre ≤ t ∧ t < s + total x pre + frame.offset := by
  induction l generalizing s p n with
  | nil =>
    rw [total_nil] at hend
    omega
  | cons a l ih =>
    obtain ⟨frame, hframe⟩ := Option.isSome_iff_exists.mp (halive a List.mem_cons_self)
    have hrest := hchain.2
    rw [nextOf, hframe] at hrest
    rw [total_cons, offsetOf_eq hframe] at hend
    rw [List.length_cons] at hn
    obtain ⟨n, rfl⟩ : ∃ k, n = k + 1 := ⟨n - 1, by omega⟩
    rw [hchain.1]
    by_cases hskip : s + frame.offset ≤ t
    · obtain ⟨pre, b, post, g, hl, hg, hloop, hle, hlt⟩ := ih (s := s + frame.offset) hrest
        (fun b hb => halive b (List.mem_cons_of_mem a hb)) hskip (by omega) (n := n) (by omega)
      have htotal : s + frame.offset + total x pre = s + total x (a :: pre) := by
        rw [total_cons, offsetOf_eq hframe]
        omega
      rw [htotal] at hloop hle hlt
      refine ⟨a :: pre, b, post, g, by rw [hl]; rfl, hg, ?_, hle, hlt⟩
      rw [← hloop]
      simp only [skipFrames, hframe, Option.bind_eq_bind, Option.bind_some, hskip, if_true]
    · refine ⟨[], a, l, frame, rfl, hframe, ?_, ?_, ?_⟩
      · simp [skipFrames, hframe, hskip]
      · simpa using hstart
      · rw [total_nil]
        omega

/-- A read inside the frames is from one page of the frame at its position. -/
theorem Shaped.read_at (h : Shaped x l) {fPos : ℤ} (hstart : x.streamStart ≤ fPos)
    (hbacked : fPos < x.streamStart + total x l) (hend : fPos < x.streamEnd) (size copies : ℕ) :
    ∃ pre a post frame i k, l = pre ++ a :: post ∧ x.frames a = some frame ∧ i < frame.offset ∧
      fPos = x.streamStart + total x pre + i ∧
      k = min (min size (frame.offset - i)) (pageSize - i % pageSize) ∧
      pdumpfsStreamRead x size copies fPos =
        if copies = 0 then some ((efault, [], fPos + efault), x)
        else some ((k, copy (frame.pages (i / pageSize)) (i % pageSize) k, fPos + k),
          { x with streamFPos := x.streamFPos + k }) := by
  have hpos := h.start.1
  obtain ⟨pre, a, post, frame, hl, hframe, hskip, hle, hlt⟩ :=
    skipFrames_spec (s := x.streamStart) (t := fPos) h.listed.chain h.listed.alive hstart (by omega)
      (n := x.frameCount + 1) (by rw [h.count]; omega)
  obtain ⟨i, hi⟩ : ∃ i, i = (fPos - (x.streamStart + total x pre)).toNat := ⟨_, rfl⟩
  obtain ⟨k, hk⟩ : ∃ k, k = min (min size (frame.offset - i)) (pageSize - i % pageSize) := ⟨_, rfl⟩
  have hilt : i < frame.offset := by omega
  have hfits := (h.fits a frame hframe).offset
  have hin : ¬frame.pageCount ≤ i / pageSize := by
    unfold pageSize at *
    omega
  have hnot : ¬(x.streamEnd ≤ 0 ∨ x.streamEnd ≤ fPos) := by omega
  have hnot' : ¬fPos < x.streamStart := by omega
  refine ⟨pre, a, post, frame, i, k, hl, hframe, hilt, by omega, hk, ?_⟩
  unfold pdumpfsStreamRead
  rw [if_neg hnot, if_neg hnot', hskip]
  simp only [Option.bind_eq_bind, Option.bind_some, ← hi, pdumpfsStreamBufferFill, hin, if_false]
  by_cases hcopy : copies = 0
  · rw [if_pos hcopy, if_pos hcopy]
    rfl
  · rw [if_neg hcopy, if_neg hcopy, ← hk, Option.bind_some]
    by_cases hzero : 0 < k
    · rw [if_pos hzero]
    · have hk0 : k = 0 := by omega
      simp [hk0]

theorem Held.read (h : Held x l) (size copies : ℕ) (fPos : ℤ) : ∃ r fPos',
    pdumpfsStreamRead x size copies fPos = some (r, { x with streamFPos := fPos' }) := by
  by_cases hin : x.streamStart ≤ fPos ∧ fPos < x.streamEnd
  · have hspans := h.spans
    unfold Spans at hspans
    obtain ⟨_, _, _, frame, i, k, -, -, -, -, -, hread⟩ :=
      h.shaped.read_at hin.1 (by omega) hin.2 size copies
    rw [hread]
    by_cases hcopy : copies = 0
    · rw [if_pos hcopy]
      exact ⟨_, x.streamFPos, rfl⟩
    · rw [if_neg hcopy]
      exact ⟨_, _, rfl⟩
  · unfold pdumpfsStreamRead
    by_cases hend : x.streamEnd ≤ 0 ∨ x.streamEnd ≤ fPos
    · rw [if_pos hend]
      exact ⟨_, x.streamFPos, rfl⟩
    · rw [if_neg hend, if_pos (by omega)]
      exact ⟨_, x.streamFPos, rfl⟩

theorem Shaped.moveReader (h : Shaped x l) (hopen : x.frameStreamOpenCount ≠ 0)
    (fPos streamFPos : ℤ) : Shaped { x with fPos := fPos, streamFPos := streamFPos } l :=
  ⟨⟨h.listed.chain, h.listed.alive⟩, h.count, h.max, h.init, h.current, h.fits, h.users, h.debugfs,
    h.opened, h.start, fun hzero => absurd hzero hopen⟩

theorem Shaped.frameCountMax (h : Shaped x l) (result : ℕ) :
    Shaped { x with frameCountMax := frameCountMaxOf result } l := by
  refine ⟨⟨h.listed.chain, h.listed.alive⟩, h.count, ?_, h.init, h.current, h.fits, h.users,
    h.debugfs, h.opened, h.start, h.reader⟩
  unfold frameCountMaxOf maxFrameCountHard
  dsimp only
  split <;> omega

theorem Held.frameCountMax (h : Held x l) (result : ℕ) :
    Held { x with frameCountMax := frameCountMaxOf result } l :=
  ⟨h.shaped.frameCountMax result, h.spans, h.bound⟩

theorem Shaped.currentOpen (h : Shaped x l) : Shaped (pdumpfsCurrentOpen x) l := by
  refine ⟨⟨h.listed.chain, h.listed.alive⟩, h.count, h.max, h.init, h.current, h.fits,
    h.users, fun d hd => ?_, fun _ => ?_, h.start, h.reader⟩
  · by_cases hfirst : x.frameCurrentOpenCount = 0
    · obtain ⟨c, frame, hc, hframe⟩ := h.current_alive
      simp only [pdumpfsCurrentOpen, hfirst, if_true, hc, Option.some.injEq] at hd
      refine ⟨frame, hd ▸ hframe, ?_⟩
      have hcurrent := h.current
      rw [hc, hd] at hcurrent
      cases hlast : l.getLast? with
      | none =>
        rw [hlast] at hcurrent
        exact .inr (.inl hcurrent.symm)
      | some a =>
        rw [hlast, Option.some_or, Option.some.injEq] at hcurrent
        rw [hcurrent]
        exact .inl (List.mem_of_getLast? hlast)
    · simp only [pdumpfsCurrentOpen, hfirst, if_false] at hd
      exact h.debugfs d hd
  · by_cases hfirst : x.frameCurrentOpenCount = 0
    · obtain ⟨c, frame, hc, -⟩ := h.current_alive
      simp [pdumpfsCurrentOpen, hfirst, hc]
    · simpa [pdumpfsCurrentOpen, hfirst] using h.opened hfirst

theorem Held.currentOpen (h : Held x l) : Held (pdumpfsCurrentOpen x) l :=
  ⟨h.shaped.currentOpen, h.spans, h.bound⟩

/-- A frame that is kept only for the file of the current frame goes with it. -/
theorem Shaped.currentRelease (h : Shaped x l) (hopen : x.frameCurrentOpenCount ≠ 0) :
    ∃ x', pdumpfsCurrentRelease x = some x' ∧ Shaped x' l ∧ x'.streamStart = x.streamStart ∧
      x'.streamEnd = x.streamEnd ∧ ∀ a ∈ l, x'.frames a = x.frames a := by
  by_cases hlast : x.frameCurrentOpenCount - 1 = 0
  · obtain ⟨d, hd⟩ := Option.isSome_iff_exists.mp (h.opened hopen)
    obtain ⟨frame, hframe, -⟩ := h.debugfs d hd
    by_cases hgone : x.frameCurrentDebugfs ≠ x.frameInit ∧ x.frameCurrentDebugfs ≠ x.frameCurrent ∧
        frame.next.isNone = true
    · obtain ⟨hinit, hcurrent, hnext⟩ := hgone
      -- only the last frame of the list points nowhere
      have hdl : d ∉ l := fun hdl => by
        have hnone : nextOf x d = none := by
          rw [nextOf, hframe]
          exact Option.isNone_iff_eq_none.mp hnext
        have hd' := (h.listed.chain.next_eq_none_iff hdl).mp hnone
        apply hcurrent
        rw [hd, h.current, hd']
        rfl
      obtain ⟨i, hi, hialive, hil⟩ := h.init
      have hid : i ≠ d := fun hid => hinit (by rw [hd, hi, hid])
      have hother (b : ℕ) (hb : b ≠ d) : Function.update x.frames d none b = x.frames b :=
        Function.update_of_ne hb ..
      have hlist (b : ℕ) (hb : b ∈ l) : Function.update x.frames d none b = x.frames b :=
        hother b fun hbd => hdl (hbd ▸ hb)
      let x' : DumpState := { x with
        frameCurrentOpenCount := x.frameCurrentOpenCount - 1
        frames := Function.update x.frames d none
        frameCurrentDebugfs := none }
      have hlisted : Listed x' l := h.listed.congr rfl hlist
      refine ⟨x', ?_, ⟨hlisted, h.count, h.max, ⟨i, hi, ?_, hil⟩, h.current,
        fun p g hp => ?_, h.users, fun e he => ?_, fun hne => absurd hlast hne, h.start,
        h.reader⟩, rfl, rfl, hlist⟩
      · simp only [pdumpfsCurrentRelease, hlast, if_true, hd, Option.bind_eq_bind, Option.bind_some,
          hframe]
        rw [hd] at hinit hcurrent
        rw [if_pos ⟨hinit, hcurrent, hnext⟩]
        simp [frameDestroy, x', hlast]
      · change (Function.update x.frames d none i).isSome = true
        rw [hother i hid]
        exact hialive
      · have hp' : Function.update x.frames d none p = some g := hp
        by_cases hpd : p = d
        · rw [hpd, Function.update_self] at hp'
          cases hp'
        · rw [hother p hpd] at hp'
          exact h.fits p g hp'
      · cases he
    · refine ⟨{ x with
        frameCurrentOpenCount := x.frameCurrentOpenCount - 1
        frameCurrentDebugfs := none }, ?_, ⟨⟨h.listed.chain, h.listed.alive⟩, h.count, h.max,
          h.init, h.current, h.fits, h.users, fun e he => ?_, fun hne => absurd hlast hne,
          h.start, h.reader⟩, rfl, rfl, fun _ _ => rfl⟩
      · simp only [pdumpfsCurrentRelease, hlast, if_true, hd, Option.bind_eq_bind, Option.bind_some,
          hframe]
        rw [hd] at hgone
        rw [if_neg hgone]
      · cases he
  · refine ⟨{ x with frameCurrentOpenCount := x.frameCurrentOpenCount - 1 }, ?_,
      ⟨⟨h.listed.chain, h.listed.alive⟩, h.count, h.max, h.init, h.current, h.fits, h.users,
        h.debugfs, fun _ => h.opened hopen, h.start, h.reader⟩, rfl, rfl, fun _ _ => rfl⟩
    simp [pdumpfsCurrentRelease, hlast]

theorem Held.currentRelease (h : Held x l) (hopen : x.frameCurrentOpenCount ≠ 0) :
    ∃ x', pdumpfsCurrentRelease x = some x' ∧ Held x' l := by
  obtain ⟨x', hx', hshaped, hstart, hend, hframes⟩ := h.shaped.currentRelease hopen
  have hspans : Spans x' l := by
    unfold Spans
    rw [hstart, hend, total_congr hframes]
    exact h.spans
  exact ⟨x', hx', hshaped, hspans, h.bound⟩

theorem Shaped.streamOpen (h : Shaped x l) : Shaped (pdumpfsStreamOpen x).2 l := by
  unfold pdumpfsStreamOpen
  split
  · exact h
  · rename_i hclosed
    refine ⟨⟨h.listed.chain, h.listed.alive⟩, h.count, h.max, h.init, h.current, h.fits,
      ?_, h.debugfs, h.opened, ⟨h.start.1, fun hne => absurd hne (by simp)⟩,
      fun hne => absurd hne (by simp)⟩
    change x.frameStreamOpenCount + 1 ≤ 1
    omega

theorem Held.streamOpen (h : Held x l) : Held (pdumpfsStreamOpen x).2 l := by
  refine ⟨h.shaped.streamOpen, ?_, h.bound⟩
  unfold pdumpfsStreamOpen
  split
  · exact h.spans
  · exact h.spans

theorem Shaped.streamRelease (h : Shaped x l) : pdumpfsStreamRelease x = { x with
    frameStreamOpenCount := 0
    streamEnd := x.streamEnd - x.streamStart
    streamStart := 0
    streamFPos := 0 } ∧ Shaped (pdumpfsStreamRelease x) l := by
  have husers := h.users
  have hlast : x.frameStreamOpenCount - 1 = 0 := by omega
  simp only [pdumpfsStreamRelease, hlast, if_true, true_and]
  exact ⟨⟨h.listed.chain, h.listed.alive⟩, h.count, h.max, h.init, h.current, h.fits,
    Nat.zero_le 1, h.debugfs, h.opened, ⟨Int.le_refl 0, fun _ => rfl⟩, fun _ => rfl⟩

theorem Held.streamRelease (h : Held x l) : Held (pdumpfsStreamRelease x) l := by
  obtain ⟨hrelease, hshaped⟩ := h.shaped.streamRelease
  have hspans := h.spans
  refine ⟨hshaped, ?_, h.bound⟩
  rw [hrelease]
  unfold Spans at *
  change x.streamEnd - x.streamStart - 0 = total x l
  omega

theorem Held.llseek (h : Held x l) (hopen : x.frameStreamOpenCount ≠ 0) (offset : ℤ)
    (whence : Whence) : Held (pdumpfsStreamLlseek x offset whence).2 l := by
  simp only [pdumpfsStreamLlseek]
  split
  · exact ⟨h.shaped.moveReader hopen _ _, h.spans, h.bound⟩
  · exact h

/-- Every call of the next keeps the frames in shape, and the stream spans their bytes exactly if
    the call meets the condition. -/
theorem Held.step (h : Held x l) (hop : proper x op = true) :
    Outcome ((Pdumpfs.step x op).map Prod.snd) (meets x op) := by
  have hheld {r : Reply} {y : DumpState} {k : List ℕ} (hy : Held y k) :
      Outcome ((some (r, y)).map Prod.snd) true :=
    .inr ⟨y, k, rfl, hy.shaped, hy.bound, fun _ => rfl, fun _ => hy.spans⟩
  cases op with
  | frameSet pid frame mem =>
    have hnew := h.frameNew pid frame hop
    simpa [Pdumpfs.step, meets, Option.map_map, Function.comp_def] using hnew
  | writeData q fromUser =>
    have hwrite := h.write fromUser hop
    simpa [Pdumpfs.step, meets, Option.map_map, Function.comp_def] using hwrite
  | writeString q =>
    have hwrite := h.write false hop
    simpa [Pdumpfs.step, meets, Option.map_map, Function.comp_def, pdumpfsWriteString] using hwrite
  | frameCountMaxWrite result => exact hheld (h.frameCountMax result)
  | currentOpen => exact hheld h.currentOpen
  | currentRelease =>
    have hopen : x.frameCurrentOpenCount ≠ 0 := of_decide_eq_true hop
    obtain ⟨y, hy, hheld'⟩ := h.currentRelease hopen
    exact .inr ⟨y, l, by simp [Pdumpfs.step, hy], hheld'.shaped, hheld'.bound, fun _ => rfl,
      fun _ => hheld'.spans⟩
  | streamOpen => exact hheld h.streamOpen
  | streamRelease => exact hheld h.streamRelease
  | llseek offset whence => exact hheld (h.llseek (of_decide_eq_true hop) offset whence)
  | read size copies =>
    obtain ⟨r, fPos', hread⟩ := h.read size copies x.fPos
    refine .inr ⟨{ x with fPos := r.2.2, streamFPos := fPos' }, l, by simp [Pdumpfs.step, hread],
      h.shaped.moveReader (of_decide_eq_true hop) _ _, h.bound, fun _ => rfl, fun _ => h.spans⟩
  | pread size copies pos =>
    obtain ⟨r, fPos', hread⟩ := h.read size copies pos
    refine .inr ⟨{ x with streamFPos := fPos' }, l, by simp [Pdumpfs.step, hread],
      h.shaped.moveReader (of_decide_eq_true hop) x.fPos fPos', h.bound, fun _ => rfl,
      fun _ => h.spans⟩

theorem held_init (p : ℕ) : Held (pdumpfsInit p) [] := by
  have hself : (pdumpfsInit p).frames p = some (newFrame 0 0) := by simp [pdumpfsInit]
  have hmax : 0 < configPvrPdumpInitialMaxFrameCount ∧
      configPvrPdumpInitialMaxFrameCount ≤ maxFrameCountHard := by decide
  refine ⟨⟨⟨rfl, fun a ha => ?_⟩, rfl, hmax, ⟨p, rfl, by rw [hself]; rfl, by simp⟩, rfl,
    fun a frame ha => ?_, Nat.zero_le 1, fun d hd => ?_, fun hne => absurd rfl hne,
    ⟨Int.le_refl 0, fun _ => rfl⟩, fun _ => rfl⟩, rfl, Nat.zero_le _⟩
  · cases ha
  · by_cases hap : a = p
    · rw [hap, hself, Option.some.injEq] at ha
      exact ha ▸ newFrame_fits 0 0
    · have hnone : (pdumpfsInit p).frames a = none := by simp [pdumpfsInit, hap]
      rw [hnone] at ha
      cases ha
  · cases hd

variable {log : List (Op × Reply)}

theorem held_run (hrun : Run step (fun x op => proper x op = true ∧ meets x op = true)
    (pdumpfsInit p) log x) : ∃ l, Held x l :=
  hrun.invariant (fun x => ∃ l, Held x l) ⟨[], held_init p⟩ fun x op reply x' hx hop hs => by
    obtain ⟨l, hl⟩ := hx
    cases hl.step hop.1 with
    | inl hnone =>
      rw [hnone.2] at hop
      cases hop.2
    | inr hsome =>
      obtain ⟨y, k, hy, hshaped, hbound, hiff⟩ := hsome
      rw [hs, Option.map_some, Option.some.injEq] at hy
      have hxy : x' = y := hy
      rw [hxy]
      exact ⟨k, hshaped, hiff.mpr hop.2, hbound⟩

/-- In every run whose calls meet the condition the stream is accounted for, and the next call is
    answered and keeps it so exactly if it meets the condition as well. -/
theorem accounted_over_runs
    (hrun : Run step (fun x op => proper x op = true ∧ meets x op = true) (pdumpfsInit p) log x) :
    Accounted x ∧ ∀ op, proper x op = true →
      ((∃ reply x', step x op = some (reply, x') ∧ Accounted x') ↔ meets x op = true) := by
  obtain ⟨l, hl⟩ := held_run hrun
  refine ⟨hl.shaped.accounted_iff.mpr hl.spans, fun op hop => ?_⟩
  cases hl.step hop with
  | inl hnone =>
    rw [hnone.2]
    refine ⟨fun hsome => ?_, fun hfalse => ?_⟩
    · obtain ⟨reply, x', hstep, -⟩ := hsome
      rw [hstep] at hnone
      cases hnone.1
    · cases hfalse
  | inr hsome =>
    obtain ⟨y, k, hy, hshaped, -, hiff⟩ := hsome
    obtain ⟨⟨reply, x'⟩, hstep, hx'⟩ := Option.map_eq_some_iff.mp hy
    have hxy : x' = y := hx'
    rw [← hiff, ← hshaped.accounted_iff, hstep]
    constructor
    · intro hanswer
      obtain ⟨reply', u, hu, haccounted⟩ := hanswer
      rw [Option.some.injEq, Prod.mk.injEq] at hu
      rw [← hxy, hu.2]
      exact haccounted
    · intro haccounted
      exact ⟨reply, x', rfl, hxy ▸ haccounted⟩

def sampleWrite (buffer : List UInt8) (copies : ℕ) : WriteCall :=
  ⟨buffer, 1, copies, 1, none, 0, [], 0, 0⟩

def framesOps : List Op :=
  [.frameSet 1 1 (some 8192), .writeData (sampleWrite [1, 2, 3] 1) true, .streamOpen,
    .frameSet 1 2 (some 12288), .writeString (sampleWrite [4, 5] 0), .read 8 1, .pread 1 1 4,
    .frameSet 1 3 (some 16384)]

theorem accounted_over_sample : ∃ log x, exec step (pdumpfsInit 4096) framesOps = some (log, x) ∧
    Accounted x ∧ (∃ reply x', step x (.writeString (sampleWrite [6] 0)) = some (reply, x') ∧
      Accounted x') ∧
    ¬∃ reply x', step x (.writeData (sampleWrite [6] 0) true) = some (reply, x') ∧
      Accounted x' := by
  have hsome : (exec step (pdumpfsInit 4096) framesOps).map (fun r =>
      ((proper r.2 (.writeString (sampleWrite [6] 0)),
        meets r.2 (.writeString (sampleWrite [6] 0))),
        proper r.2 (.writeData (sampleWrite [6] 0) true),
        meets r.2 (.writeData (sampleWrite [6] 0) true))) =
      some ((true, true), true, false) := by decide +kernel
  obtain ⟨⟨log, x⟩, hexec, hlook⟩ := Option.map_eq_some_iff.mp hsome
  simp only [Prod.mk.injEq] at hlook
  have hallowed : Allowed step (fun x op => (proper x op && meets x op) = true)
      (pdumpfsInit 4096) framesOps := allowed_of_allows (by decide +kernel)
  have hrun : Run step (fun x op => proper x op = true ∧ meets x op = true) (pdumpfsInit 4096)
      log x := (Run.of_allowed hexec hallowed).mono fun _ _ h => Bool.and_eq_true_iff.mp h
  obtain ⟨haccounted, hall⟩ := accounted_over_runs hrun
  refine ⟨log, x, hexec, haccounted, (hall _ hlook.1.1).mpr hlook.1.2, fun hstop => ?_⟩
  have hmeets := (hall _ hlook.2.1).mp hstop
  rw [hlook.2.2] at hmeets
  cases hmeets

/-- A write whose copy from the process fails takes the end of the stream far behind its frames,
    and the next read goes on behind the last one. -/
theorem read_behind_frames : ¬∀ p log x, Run step (fun x op => proper x op = true)
    (pdumpfsInit p) log x → Accounted x ∧ ∀ op, proper x op = true →
      ∃ reply x', step x op = some (reply, x') := by
  intro hclaim
  have hsome : (exec step (pdumpfsInit 4096) [.frameSet 1 1 (some 8192),
      .writeData (sampleWrite [1, 2, 3] 0) true, .streamOpen]).map (fun r =>
        (r.2.streamEnd, proper r.2 (.read 1 1), (step r.2 (.read 1 1)).isSome)) =
      some (4294967274, true, false) := by decide +kernel
  obtain ⟨⟨log, x⟩, hexec, hlook⟩ := Option.map_eq_some_iff.mp hsome
  simp only [Prod.mk.injEq] at hlook
  have hallowed : Allowed step (fun x op => proper x op = true) (pdumpfsInit 4096)
      [.frameSet 1 1 (some 8192), .writeData (sampleWrite [1, 2, 3] 0) true, .streamOpen] :=
    allowed_of_allows (by decide +kernel)
  obtain ⟨reply, x', hstep⟩ :=
    (hclaim 4096 log x (Run.of_allowed hexec hallowed)).2 (.read 1 1) hlook.2.1
  rw [hstep] at hlook
  cases hlook.2.2

end PvrServices.Pdumpfs
