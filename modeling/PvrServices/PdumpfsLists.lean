import PvrServices.PdumpfsFrames
import PvrServices.PointerList

set_option autoImplicit false

/-!
# The frames of the stream

Frames go on the list at its end and are culled from its start. Culling stops before the last frame
as long as the reader's position is not behind the end of the stream.
-/
namespace PvrServices.Pdumpfs
open PointerList Words
variable {x x' : DumpState} {l l' : List ℕ} {frame f : Frame} {a b c d n p pid number : ℕ}

def nextOf (x : DumpState) (p : ℕ) : Option ℕ := (x.frames p).bind Frame.next

def offsetOf (x : DumpState) (p : ℕ) : ℕ := ((x.frames p).map Frame.offset).getD 0

def total (x : DumpState) (l : List ℕ) : ℕ := l.foldr (fun p n => offsetOf x p + n) 0

/-- The frames that hang from `frame_stream`. -/
structure Listed (x : DumpState) (l : List ℕ) : Prop where
  chain : Linked (nextOf x) x.frameStream l
  alive : ∀ a ∈ l, (x.frames a).isSome = true

/-- The stream goes from its start to its end over the bytes of its frames. -/
def Spans (x : DumpState) (l : List ℕ) : Prop := x.streamEnd - x.streamStart = total x l

/-- The list, the frames in memory and the pointers to them. -/
structure Shaped (x : DumpState) (l : List ℕ) : Prop where
  listed : Listed x l
  count : x.frameCount = l.length
  max : 0 < x.frameCountMax ∧ x.frameCountMax ≤ maxFrameCountHard
  init : ∃ i, x.frameInit = some i ∧ (x.frames i).isSome = true ∧ i ∉ l
  current : x.frameCurrent = l.getLast?.or x.frameInit
  fits : ∀ p frame, x.frames p = some frame → frame.Fits
  users : x.frameStreamOpenCount ≤ 1
  debugfs : ∀ d, x.frameCurrentDebugfs = some d → ∃ frame, x.frames d = some frame ∧
    (d ∈ l ∨ x.frameInit = some d ∨ frame.next = none)
  opened : x.frameCurrentOpenCount ≠ 0 → x.frameCurrentDebugfs.isSome = true
  start : 0 ≤ x.streamStart ∧ (x.frameStreamOpenCount = 0 → x.streamStart = 0)
  reader : x.frameStreamOpenCount = 0 → x.streamFPos = 0

@[simp] theorem total_nil (x : DumpState) : total x [] = 0 := rfl

@[simp] theorem total_cons (x : DumpState) (a : ℕ) (l : List ℕ) :
    total x (a :: l) = offsetOf x a + total x l := rfl

theorem total_append (x : DumpState) (l l' : List ℕ) :
    total x (l ++ l') = total x l + total x l' := by
  induction l with
  | nil => simp
  | cons a l ih =>
    rw [List.cons_append, total_cons, total_cons, ih, Nat.add_assoc]

theorem total_congr (h : ∀ a ∈ l, x'.frames a = x.frames a) : total x' l = total x l := by
  induction l with
  | nil => rfl
  | cons a l ih =>
    rw [total_cons, total_cons, ih fun b hb => h b (List.mem_cons_of_mem a hb), offsetOf, offsetOf,
      h a List.mem_cons_self]

theorem offsetOf_eq (h : x.frames a = some frame) : offsetOf x a = frame.offset := by
  rw [offsetOf, h]
  rfl

theorem Listed.congr (h : Listed x l) (hstream : x'.frameStream = x.frameStream)
    (hframes : ∀ a ∈ l, x'.frames a = x.frames a) : Listed x' l := by
  refine ⟨?_, fun a ha => by rw [hframes a ha]; exact h.alive a ha⟩
  rw [hstream]
  exact h.chain.congr fun a ha => by rw [nextOf, nextOf, hframes a ha]

theorem Listed.first (h : Listed x (a :: l)) : ∃ frame, x.frames a = some frame ∧
    x.frameStream = some a ∧ Linked (nextOf x) frame.next l := by
  obtain ⟨frame, hframe⟩ := Option.isSome_iff_exists.mp (h.alive a List.mem_cons_self)
  have hrest := h.chain.2
  rw [nextOf, hframe] at hrest
  exact ⟨frame, hframe, h.chain.1, hrest⟩

theorem Shaped.current_init (h : Shaped x l) : x.frameCurrent = x.frameInit ↔ l = [] := by
  obtain ⟨i, hi, -, hil⟩ := h.init
  constructor
  · intro hc
    cases hlast : l.getLast? with
    | none => exact List.getLast?_eq_none_iff.mp hlast
    | some a =>
      rw [h.current, hlast, hi, Option.some_or, Option.some.injEq] at hc
      rw [hc] at hlast
      exact absurd (List.mem_of_getLast? hlast) hil
  · intro hnil
    rw [h.current, hnil]
    rfl

theorem Shaped.current_alive (h : Shaped x l) :
    ∃ c frame, x.frameCurrent = some c ∧ x.frames c = some frame := by
  obtain ⟨i, hi, halive, -⟩ := h.init
  cases hlast : l.getLast? with
  | none =>
    obtain ⟨frame, hframe⟩ := Option.isSome_iff_exists.mp halive
    exact ⟨i, frame, by rw [h.current, hlast, hi]; rfl, hframe⟩
  | some a =>
    obtain ⟨frame, hframe⟩ :=
      Option.isSome_iff_exists.mp (h.listed.alive a (List.mem_of_getLast? hlast))
    exact ⟨a, frame, by rw [h.current, hlast]; rfl, hframe⟩

def culled (x : DumpState) (a : ℕ) (frame : Frame) : DumpState :=
  { x with
    frameStream := frame.next
    frameCount := u32Sub x.frameCount 1
    streamStart := if x.frameStreamOpenCount ≠ 0 then x.streamStart + frame.offset
      else x.streamStart
    streamEnd := if x.frameStreamOpenCount ≠ 0 then x.streamEnd else x.streamEnd - frame.offset
    frames := Function.update x.frames a
      (if x.frameCurrentDebugfs ≠ some a then none else some { frame with next := none }) }

theorem frameCullFirst_eq (hstream : x.frameStream = some a) (hframe : x.frames a = some frame) :
    frameCullFirst x = some (culled x a frame) := by
  simp only [frameCullFirst, hstream, hframe, Option.bind_eq_bind, Option.bind_some, culled]
  by_cases hopen : x.frameStreamOpenCount = 0
  · by_cases hdebug : x.frameCurrentDebugfs = some a
    · simp [hopen, hdebug, DumpState.setFrame]
    · simp [hopen, hdebug, DumpState.setFrame, frameDestroy]
  · by_cases hdebug : x.frameCurrentDebugfs = some a
    · simp [hopen, hdebug, DumpState.setFrame]
    · simp [hopen, hdebug, DumpState.setFrame, frameDestroy]

theorem culled_frames (hb : b ≠ a) : (culled x a frame).frames b = x.frames b :=
  Function.update_of_ne hb ..

theorem culled_self : (culled x a frame).frames a =
    if x.frameCurrentDebugfs ≠ some a then none else some { frame with next := none } :=
  Function.update_self ..

theorem Listed.culled (h : Listed x (a :: l)) (hframe : x.frames a = some frame) :
    Listed (Pdumpfs.culled x a frame) l ∧ total (Pdumpfs.culled x a frame) l = total x l := by
  have hnot := (List.nodup_cons.mp h.chain.nodup).1
  have hother (b : ℕ) (hb : b ∈ l) : (Pdumpfs.culled x a frame).frames b = x.frames b :=
    culled_frames fun hba => hnot (hba ▸ hb)
  obtain ⟨frame', hframe', -, hchain⟩ := h.first
  rw [hframe, Option.some.injEq] at hframe'
  rw [← hframe'] at hchain
  refine ⟨⟨hchain.congr fun b hb => ?_, fun b hb => ?_⟩, total_congr hother⟩
  · rw [nextOf, nextOf, hother b hb]
  · rw [hother b hb]
    exact h.alive b (List.mem_cons_of_mem a hb)

theorem Spans.culled (h : Spans x (a :: l)) (hlist : Listed x (a :: l))
    (hframe : x.frames a = some frame) : Spans (Pdumpfs.culled x a frame) l := by
  have htotal := (hlist.culled hframe).2
  unfold Spans at *
  rw [total_cons, offsetOf_eq hframe] at h
  rw [htotal]
  by_cases hopen : x.frameStreamOpenCount = 0
  · simp only [Pdumpfs.culled, hopen, ne_eq, not_true_eq_false, if_false]
    omega
  · simp only [Pdumpfs.culled, ne_eq, hopen, not_false_eq_true, if_true]
    omega

theorem Shaped.culled (h : Shaped x (a :: l)) (hl : l ≠ []) (hframe : x.frames a = some frame) :
    Shaped (Pdumpfs.culled x a frame) l := by
  obtain ⟨i, hi, halive, hil⟩ := h.init
  have hia : i ≠ a := fun hia => hil (hia ▸ List.mem_cons_self)
  have hcount := h.count
  rw [List.length_cons] at hcount
  constructor
  case listed => exact (h.listed.culled hframe).1
  case count =>
    change u32Sub x.frameCount 1 = l.length
    rw [hcount, u32Sub_of_le (by omega)]
    omega
  case max => exact h.max
  case init =>
    refine ⟨i, hi, ?_, fun hmem => hil (List.mem_cons_of_mem a hmem)⟩
    rw [culled_frames hia]
    exact halive
  case current =>
    have hlast : (a :: l).getLast? = l.getLast? := by
      cases l with
      | nil => exact absurd rfl hl
      | cons b l => exact List.getLast?_cons_cons
    rw [← hlast]
    exact h.current
  case fits =>
    intro p g hp
    by_cases hpa : p = a
    · rw [hpa, culled_self] at hp
      by_cases hdebug : x.frameCurrentDebugfs = some a
      · rw [if_neg (by simpa using hdebug), Option.some.injEq] at hp
        have hold := h.fits a frame hframe
        rw [← hp]
        exact ⟨hold.offset, hold.pageCount⟩
      · rw [if_pos hdebug] at hp
        cases hp
    · rw [culled_frames hpa] at hp
      exact h.fits p g hp
  case users => exact h.users
  case debugfs =>
    intro d hd
    have hd' : x.frameCurrentDebugfs = some d := hd
    by_cases hda : d = a
    · refine ⟨{ frame with next := none }, ?_, .inr (.inr rfl)⟩
      rw [hda] at hd' ⊢
      rw [culled_self, if_neg (by simpa using hd')]
    · obtain ⟨g, hg, hcases⟩ := h.debugfs d hd'
      refine ⟨g, by rw [culled_frames hda]; exact hg, ?_⟩
      cases hcases with
      | inl hmem =>
        cases List.mem_cons.mp hmem with
        | inl hda' => exact absurd hda' hda
        | inr hmem => exact .inl hmem
      | inr hrest => exact .inr hrest
  case opened => exact h.opened
  case reader => exact h.reader
  case start =>
    have hstart := h.start
    by_cases hopen : x.frameStreamOpenCount = 0
    · refine ⟨?_, fun _ => ?_⟩
      · simp only [Pdumpfs.culled, hopen, ne_eq, not_true_eq_false, if_false]
        exact hstart.1
      · simp only [Pdumpfs.culled, hopen, ne_eq, not_true_eq_false, if_false]
        exact hstart.2 hopen
    · refine ⟨?_, fun hzero => absurd hzero hopen⟩
      simp only [Pdumpfs.culled, ne_eq, hopen, not_false_eq_true, if_true]
      omega

structure Same (x x' : DumpState) : Prop where
  frameCountMax : x'.frameCountMax = x.frameCountMax
  frameInit : x'.frameInit = x.frameInit
  frameCurrent : x'.frameCurrent = x.frameCurrent
  frameStreamOpenCount : x'.frameStreamOpenCount = x.frameStreamOpenCount
  streamFPos : x'.streamFPos = x.streamFPos
  fPos : x'.fPos = x.fPos

theorem Same.refl (x : DumpState) : Same x x := ⟨rfl, rfl, rfl, rfl, rfl, rfl⟩

theorem Same.trans {y : DumpState} (h : Same x x') (h' : Same x' y) : Same x y :=
  ⟨h'.frameCountMax.trans h.frameCountMax, h'.frameInit.trans h.frameInit,
    h'.frameCurrent.trans h.frameCurrent,
    h'.frameStreamOpenCount.trans h.frameStreamOpenCount, h'.streamFPos.trans h.streamFPos,
    h'.fPos.trans h.fPos⟩

/-- The first frame is culled: too many frames are kept for a reader to come, or the reader that
    there is has passed it, or there are too many frames even for that one. -/
def Passed (x : DumpState) (frame : Frame) : Prop :=
  if x.frameStreamOpenCount = 0 then x.frameCountMax < x.frameCount
  else x.streamStart + frame.offset < x.streamFPos ∨ maxFrameCountHard < x.frameCount

theorem frameCullNext_eq (hstream : x.frameStream = some a) (hframe : x.frames a = some frame) :
    ∃ more, frameCullNext x = some more ∧ (more = true ↔ Passed x frame) := by
  unfold frameCullNext Passed
  by_cases hopen : x.frameStreamOpenCount = 0
  · rw [if_pos hopen, if_pos hopen]
    exact ⟨_, rfl, decide_eq_true_iff⟩
  · rw [if_neg hopen, if_neg hopen, hstream, Option.bind_eq_bind, Option.bind_some, hframe,
      Option.bind_eq_bind, Option.bind_some]
    refine ⟨_, rfl, ?_⟩
    rw [Bool.or_eq_true, decide_eq_true_iff, decide_eq_true_iff]

/-- The reader of the open file is not behind the bytes of the frames. -/
def Within (x : DumpState) (l : List ℕ) : Prop :=
  x.frameStreamOpenCount = 0 ∨ x.streamFPos ≤ x.streamStart + total x l

theorem Spans.within_iff (h : Spans x l) :
    Within x l ↔ x.frameStreamOpenCount = 0 ∨ x.streamFPos ≤ x.streamEnd := by
  unfold Spans at h
  unfold Within
  omega

theorem Shaped.not_passed (h : Shaped x [a]) (hwithin : Within x [a])
    (hframe : x.frames a = some frame) : ¬Passed x frame := by
  have hcount := h.count
  have hmax := h.max
  unfold Within at hwithin
  rw [total_cons, total_nil, offsetOf_eq hframe] at hwithin
  rw [List.length_singleton] at hcount
  unfold Passed maxFrameCountHard at *
  split
  · omega
  · rename_i hopen
    have hle := hwithin.resolve_left hopen
    omega

/-- Frames are culled until there are few enough and the reader has passed none of them. -/
structure Culled (x x' : DumpState) (l l' : List ℕ) : Prop where
  shaped : Shaped x' l'
  spans : Spans x' l'
  same : Same x x'
  suffix : l' <:+ l
  frames : ∀ a ∈ l', x'.frames a = x.frames a
  bound : l'.length ≤ maxFrameCountHard
  stop : x.frameStreamOpenCount ≠ 0 → x'.streamEnd = x.streamEnd
  passed : x.frameStreamOpenCount ≠ 0 → ∀ pre a post, l = pre ++ a :: post → l' <:+ post →
    x.streamStart + total x (pre ++ [a]) < x.streamFPos ∨ maxFrameCountHard < (a :: post).length

theorem frameCullLoop_spec (h : Shaped x l) (hl : l ≠ []) (hspans : Spans x l)
    (hpos : x.frameStreamOpenCount = 0 ∨ x.streamFPos ≤ x.streamEnd) (hn : l.length < n) :
    ∃ x' l', frameCullLoop n x = some x' ∧ Culled x x' l l' ∧ l'.getLast? = l.getLast? := by
  induction n generalizing x l with
  | zero => omega
  | succ n ih =>
    cases l with
    | nil => exact absurd rfl hl
    | cons a l =>
      obtain ⟨frame, hframe, hstream, -⟩ := h.listed.first
      obtain ⟨more, hmore, hpassed⟩ := frameCullNext_eq hstream hframe
      rw [frameCullLoop, hmore, Option.bind_eq_bind, Option.bind_some]
      cases hm : more with
      | false =>
        refine ⟨x, a :: l, rfl, ⟨h, hspans, .refl x, List.suffix_refl _, fun _ _ => rfl, ?_,
          fun _ => rfl, fun _ pre b post hal hsuffix => ?_⟩, rfl⟩
        · have hnot : ¬Passed x frame := fun hp => by
            rw [hpassed.mpr hp] at hm
            cases hm
          have hcount := h.count
          have hmax := h.max
          unfold Passed at hnot
          split at hnot
          · omega
          · omega
        · have hlen := hsuffix.length_le
          rw [hal, List.length_append, List.length_cons] at hlen
          omega
      | true =>
        have hl' : l ≠ [] := fun hnil => by
          rw [hnil] at h hspans
          exact h.not_passed ((Spans.within_iff hspans).mpr hpos) hframe (hpassed.mp hm)
        have hshaped := h.culled hl' hframe
        have hspans' := hspans.culled h.listed hframe
        have hpos' : (culled x a frame).frameStreamOpenCount = 0 ∨
            (culled x a frame).streamFPos ≤ (culled x a frame).streamEnd := by
          by_cases hopen : x.frameStreamOpenCount = 0
          · exact .inl hopen
          · right
            simp only [culled, ne_eq, hopen, not_false_eq_true, if_true]
            exact hpos.resolve_left hopen
        rw [List.length_cons] at hn
        obtain ⟨x', l', hloop, hculled, hlast⟩ := ih hshaped hl' hspans' hpos' (by omega)
        have hnot := (List.nodup_cons.mp h.listed.chain.nodup).1
        refine ⟨x', l', ?_, ⟨hculled.shaped, hculled.spans, ?_, ?_, fun b hb => ?_,
          hculled.bound, fun hopen => ?_, fun hopen pre b post hal hsuffix => ?_⟩, ?_⟩
        · rw [if_pos rfl, frameCullFirst_eq hstream hframe]
          exact hloop
        · exact (⟨rfl, rfl, rfl, rfl, rfl, rfl⟩ : Same x (culled x a frame)).trans hculled.same
        · exact hculled.suffix.trans (List.suffix_cons a l)
        · rw [hculled.frames b hb]
          exact culled_frames fun hba => hnot (hba ▸ hculled.suffix.subset hb)
        · rw [hculled.stop hopen]
          simp [culled, hopen]
        · cases pre with
          | nil =>
            obtain ⟨hab, hlpost⟩ := List.cons.inj hal
            have hpass := hpassed.mp hm
            unfold Passed at hpass
            rw [if_neg hopen, ← offsetOf_eq hframe, h.count, hal] at hpass
            rw [List.nil_append, total_cons, total_nil, ← hab]
            rw [← hab] at hpass
            exact hpass
          | cons e pre =>
            obtain ⟨hae, hl''⟩ := List.cons.inj hal
            have hrest := hculled.passed hopen pre b post hl'' hsuffix
            have hsub (e : ℕ) (he : e ∈ pre ++ [b]) : e ∈ l := by
              rw [hl'']
              cases List.mem_append.mp he with
              | inl he => exact List.mem_append_left _ he
              | inr he =>
                rw [List.mem_singleton.mp he]
                exact List.mem_append_right _ List.mem_cons_self
            have hkept : total (culled x a frame) (pre ++ [b]) = total x (pre ++ [b]) := by
              apply total_congr
              intro e he
              exact culled_frames fun hea => hnot (hea ▸ hsub e he)
            rw [hkept] at hrest
            simp only [culled, ne_eq, hopen, not_false_eq_true, if_true] at hrest
            rw [List.cons_append, total_cons, ← hae, offsetOf_eq hframe]
            omega
        · rw [hlast]
          cases l with
          | nil => exact absurd rfl hl'
          | cons b l => exact List.getLast?_cons_cons.symm

/-- Behind all frames the reader takes the cull past the last one. -/
theorem frameCullLoop_none (h : Listed x l) (hwithin : ¬Within x l) (n : ℕ) :
    frameCullLoop n x = none := by
  have hopen : x.frameStreamOpenCount ≠ 0 := fun hzero => hwithin (.inl hzero)
  induction n generalizing x l with
  | zero => rfl
  | succ n ih =>
    cases l with
    | nil =>
      have hnull : x.frameStream = none := h.chain
      simp [frameCullLoop, frameCullNext, hopen, hnull]
    | cons a l =>
      obtain ⟨frame, hframe, hstream, -⟩ := h.first
      obtain ⟨more, hmore, hpassed⟩ := frameCullNext_eq hstream hframe
      have hpos : x.streamStart + total x (a :: l) < x.streamFPos :=
        Int.not_le.mp fun hle => hwithin (.inr hle)
      rw [total_cons, offsetOf_eq hframe] at hpos
      have hnext : frameCullLoop n (culled x a frame) = none := by
        refine ih (h.culled hframe).1 (fun hin => ?_) hopen
        have hle := hin.resolve_left hopen
        rw [(h.culled hframe).2] at hle
        simp only [culled, ne_eq, hopen, not_false_eq_true, if_true] at hle
        omega
      have hpass : Passed x frame := by
        unfold Passed
        rw [if_neg hopen]
        left
        omega
      rw [frameCullLoop, hmore, Option.bind_eq_bind, Option.bind_some, hpassed.mpr hpass,
        if_pos rfl, frameCullFirst_eq hstream hframe, Option.bind_eq_bind, Option.bind_some, hnext]

theorem Listed.setFrame (h : Listed x l) (hframe : x.frames c = some frame)
    (hnext : f.next = frame.next) : Listed (x.setFrame c f) l := by
  have hsame (b : ℕ) : nextOf (x.setFrame c f) b = nextOf x b := by
    by_cases hb : b = c
    · simp [nextOf, DumpState.setFrame, hb, hframe, hnext]
    · simp [nextOf, DumpState.setFrame, hb]
  refine ⟨h.chain.congr fun b _ => hsame b, fun b hb => ?_⟩
  by_cases hbc : b = c
  · simp [DumpState.setFrame, hbc]
  · simpa [DumpState.setFrame, hbc] using h.alive b hb

theorem Shaped.setFrame (h : Shaped x l) (hframe : x.frames c = some frame)
    (hnext : f.next = frame.next) (hf : f.Fits) : Shaped (x.setFrame c f) l := by
  have halive (b : ℕ) (hb : (x.frames b).isSome = true) :
      ((x.setFrame c f).frames b).isSome = true := by
    by_cases hbc : b = c
    · simp [DumpState.setFrame, hbc]
    · simpa [DumpState.setFrame, hbc] using hb
  obtain ⟨i, hi, hialive, hil⟩ := h.init
  refine ⟨h.listed.setFrame hframe hnext, h.count, h.max, ⟨i, hi, halive i hialive, hil⟩,
    h.current, fun p g hp => ?_, h.users, fun d hd => ?_, h.opened, h.start, h.reader⟩
  · by_cases hpc : p = c
    · simp only [DumpState.setFrame, hpc, Function.update_self, Option.some.injEq] at hp
      exact hp ▸ hf
    · simp only [DumpState.setFrame, ne_eq, hpc, not_false_eq_true, Function.update_of_ne] at hp
      exact h.fits p g hp
  · obtain ⟨g, hg, hcases⟩ := h.debugfs d hd
    by_cases hdc : d = c
    · rw [hdc, hframe, Option.some.injEq] at hg
      refine ⟨f, by simp [DumpState.setFrame, hdc], ?_⟩
      rw [hnext, hg]
      exact hcases
    · exact ⟨g, by simpa [DumpState.setFrame, hdc] using hg, hcases⟩

theorem newFrame_fits (pid number : ℕ) : (newFrame pid number).Fits :=
  ⟨Nat.zero_le _, Nat.zero_le _⟩

theorem Shaped.create (h : Shaped x l) (hp : x.frames p = none) (hf : f.Fits) :
    Shaped (x.setFrame p f) l := by
  have hother {b : ℕ} {g : Frame} (hb : x.frames b = some g) :
      (x.setFrame p f).frames b = some g := by
    have hbp : b ≠ p := fun hbp => by
      rw [hbp, hp] at hb
      cases hb
    rw [← hb]
    exact Function.update_of_ne hbp ..
  have hsame (b : ℕ) (hb : (x.frames b).isSome = true) :
      (x.setFrame p f).frames b = x.frames b := by
    obtain ⟨g, hg⟩ := Option.isSome_iff_exists.mp hb
    rw [hother hg, hg]
  obtain ⟨i, hi, hialive, hil⟩ := h.init
  refine ⟨h.listed.congr rfl fun b hb => hsame b (h.listed.alive b hb), h.count, h.max,
    ⟨i, hi, by rw [hsame i hialive]; exact hialive, hil⟩, h.current, fun q g hq => ?_, h.users,
    fun d hd => ?_, h.opened, h.start, h.reader⟩
  · by_cases hqp : q = p
    · simp only [DumpState.setFrame, hqp, Function.update_self, Option.some.injEq] at hq
      exact hq ▸ hf
    · simp only [DumpState.setFrame, ne_eq, hqp, not_false_eq_true, Function.update_of_ne] at hq
      exact h.fits q g hq
  · obtain ⟨g, hg, hcases⟩ := h.debugfs d hd
    exact ⟨g, hother hg, hcases⟩

def Frame.linkTo (frame : Frame) (o : Option ℕ) : Frame := { frame with next := o }

theorem Frame.linkTo_self (frame : Frame) : frame.linkTo frame.next = frame := rfl

structure Linking (x y : DumpState) (l : List ℕ) : Prop where
  same : Same x { y with frameCurrent := x.frameCurrent }
  streamStart : y.streamStart = x.streamStart
  streamEnd : y.streamEnd = x.streamEnd
  frames : ∀ a ∈ l, ∀ frame, x.frames a = some frame → ∃ o, y.frames a = some (frame.linkTo o)

theorem total_linkTo (h : ∀ a ∈ l, (x.frames a).isSome = true)
    (hframes : ∀ a ∈ l, ∀ frame, x.frames a = some frame → ∃ o, x'.frames a =
      some (frame.linkTo o)) : total x' l = total x l := by
  induction l with
  | nil => rfl
  | cons a l ih =>
    obtain ⟨frame, hframe⟩ := Option.isSome_iff_exists.mp (h a List.mem_cons_self)
    obtain ⟨o, ho⟩ := hframes a List.mem_cons_self frame hframe
    rw [total_cons, total_cons, offsetOf_eq hframe, offsetOf_eq ho,
      ih (fun b hb => h b (List.mem_cons_of_mem a hb)) fun b hb =>
        hframes b (List.mem_cons_of_mem a hb)]
    rfl

theorem linkFrame_nil (h : Shaped x []) (hp : x.frames p = none) (pid number : ℕ) : ∃ y,
    linkFrame (x.setFrame p (newFrame pid number)) p = some y ∧
    Shaped { y with frameCurrent := some p } [p] ∧ Linking x y [] ∧
    y.frames p = some (newFrame pid number) := by
  have hnew := h.create hp (newFrame_fits pid number)
  obtain ⟨i, hi, hialive, -⟩ := h.init
  have hip : i ≠ p := fun hip => by
    rw [hip, hp] at hialive
    cases hialive
  have hself : (x.setFrame p (newFrame pid number)).frames p = some (newFrame pid number) :=
    Function.update_self ..
  have hcurrent : x.frameCurrent = x.frameInit := h.current_init.mpr rfl
  have hcount : x.frameCount = 0 := h.count
  refine ⟨{ x.setFrame p (newFrame pid number) with
    frameStream := some p
    frameCount := u32 (x.frameCount + 1) }, ?_, ⟨⟨⟨rfl, ?_⟩, fun a ha => ?_⟩, ?_, h.max,
      ⟨i, hi, ?_, by simpa using hip⟩, rfl, hnew.fits, h.users, fun d hd => ?_, h.opened, h.start, h.reader⟩,
    ⟨⟨rfl, rfl, rfl, rfl, rfl, rfl⟩, rfl, rfl, fun a ha => ?_⟩, hself⟩
  · simp [linkFrame, DumpState.setFrame, hi, hcurrent]
  · simp [nextOf, DumpState.setFrame, newFrame, Linked]
  · rw [List.mem_singleton.mp ha]
    simp [DumpState.setFrame]
  · rw [hcount]
    exact u32_of_lt (by decide)
  · simpa [DumpState.setFrame, hip] using hialive
  · obtain ⟨g, hg, hcases⟩ := hnew.debugfs d hd
    refine ⟨g, hg, ?_⟩
    cases hcases with
    | inl hmem => cases hmem
    | inr hrest => exact .inr hrest
  · cases ha

theorem linkFrame_snoc (h : Shaped x (l ++ [c])) (hp : x.frames p = none)
    (hlen : l.length < maxFrameCountHard) (pid number : ℕ) : ∃ y,
    linkFrame (x.setFrame p (newFrame pid number)) p = some y ∧
    Shaped { y with frameCurrent := some p } (l ++ [c, p]) ∧ Linking x y (l ++ [c]) ∧
    y.frames p = some (newFrame pid number) := by
  obtain ⟨i, hi, hialive, hil⟩ := h.init
  have hin : c ∈ l ++ [c] := List.mem_append_right l (List.mem_singleton_self c)
  obtain ⟨frame, hframe⟩ := Option.isSome_iff_exists.mp (h.listed.alive c hin)
  have hcp : c ≠ p := fun hcp => by
    rw [hcp, hp] at hframe
    cases hframe
  have hip : i ≠ p := fun hip => by
    rw [hip, hp] at hialive
    cases hialive
  have hic : i ≠ c := fun hic => hil (hic ▸ hin)
  have hframe' : (x.setFrame p (newFrame pid number)).frames c = some frame :=
    (Function.update_of_ne hcp ..).trans hframe
  have hcurrent : x.frameCurrent = some c := by
    rw [h.current, List.getLast?_concat]
    rfl
  have hne : x.frameCurrent ≠ x.frameInit := fun heq => by
    rw [hcurrent, hi, Option.some.injEq] at heq
    exact hic heq.symm
  have hcount : x.frameCount = l.length + 1 := by
    rw [h.count, List.length_append, List.length_singleton]
  let y : DumpState := { (x.setFrame p (newFrame pid number)).setFrame c (frame.linkTo (some p)) with
    frameCount := u32 (x.frameCount + 1) }
  have hyc : y.frames c = some (frame.linkTo (some p)) := Function.update_self ..
  have hyp : y.frames p = some (newFrame pid number) := by
    change Function.update _ c _ p = _
    rw [Function.update_of_ne (Ne.symm hcp)]
    exact Function.update_self ..
  have hother (b : ℕ) (hbc : b ≠ c) (hbp : b ≠ p) : y.frames b = x.frames b := by
    change Function.update _ c _ b = _
    rw [Function.update_of_ne hbc]
    exact Function.update_of_ne hbp ..
  have hlp (b : ℕ) (hb : b ∈ l ++ [c]) : b ≠ p := fun hbp => by
    have halive := h.listed.alive b hb
    rw [hbp, hp] at halive
    cases halive
  have hnotc : c ∉ l := by
    have hnodup := h.listed.chain.nodup
    rw [List.nodup_append] at hnodup
    exact fun hcl => hnodup.2.2 c hcl c (List.mem_singleton_self c) rfl
  have hmem (b : ℕ) (hb : b ∈ l ++ [c, p]) : b ∈ l ++ [c] ∨ b = p := by
    simp only [List.mem_append, List.mem_cons, List.not_mem_nil, or_false] at hb ⊢
    rwa [or_assoc]
  refine ⟨y, ?_, ⟨⟨?_, fun b hb => ?_⟩, ?_, h.max, ⟨i, hi, ?_, fun hmem' => ?_⟩, ?_,
      fun q g hq => ?_, h.users, fun d hd => ?_, h.opened, h.start, h.reader⟩,
    ⟨⟨rfl, rfl, rfl, rfl, rfl, rfl⟩, rfl, rfl, fun b hb g hg => ?_⟩, hyp⟩
  · have hinit : x.frameInit.isNone = false := by rw [hi]; rfl
    have hframe'' : Function.update x.frames p (some (newFrame pid number)) c = some frame := hframe'
    simp only [linkFrame, DumpState.setFrame, hinit, Bool.false_eq_true, if_false, ne_eq, hcurrent,
      Option.bind_eq_bind, Option.bind_some]
    rw [hcurrent] at hne
    rw [if_pos hne]
    simp only [hframe'', Option.bind_some, Frame.linkTo, y, DumpState.setFrame, hcurrent]
  · have hchain : Linked (nextOf x) y.frameStream (l ++ [c]) := h.listed.chain
    apply hchain.snoc
    · rw [nextOf]
      change (y.frames c).bind _ = _
      rw [hyc]
      rfl
    · rw [nextOf]
      change (y.frames p).bind _ = _
      rw [hyp]
      rfl
    · intro b hb
      have hbc : b ≠ c := fun hbc => hnotc (hbc ▸ hb)
      rw [nextOf, nextOf]
      change (y.frames b).bind _ = _
      rw [hother b hbc (hlp b (List.mem_append_left _ hb))]
  · change (y.frames b).isSome = true
    cases hmem b hb with
    | inl hb =>
      by_cases hbc : b = c
      · rw [hbc, hyc]
        rfl
      · rw [hother b hbc (hlp b hb)]
        exact h.listed.alive b hb
    | inr hbp =>
      rw [hbp, hyp]
      rfl
  · change u32 (x.frameCount + 1) = _
    unfold maxFrameCountHard at hlen
    rw [hcount, u32_of_lt (by omega), List.length_append]
    rfl
  · change (y.frames i).isSome = true
    rw [hother i hic hip]
    exact hialive
  · cases hmem i hmem' with
    | inl hb => exact hil hb
    | inr hb => exact hip hb
  · have hl : l ++ [c, p] = (l ++ [c]) ++ [p] := by simp
    rw [hl, List.getLast?_concat]
    rfl
  · have hq' : y.frames q = some g := hq
    by_cases hqc : q = c
    · rw [hqc, hyc, Option.some.injEq] at hq'
      have hold := h.fits c frame hframe
      rw [← hq']
      exact ⟨hold.offset, hold.pageCount⟩
    · by_cases hqp : q = p
      · rw [hqp, hyp, Option.some.injEq] at hq'
        rw [← hq']
        exact newFrame_fits pid number
      · rw [hother q hqc hqp] at hq'
        exact h.fits q g hq'
  · have hd' : x.frameCurrentDebugfs = some d := hd
    obtain ⟨g, hg, hcases⟩ := h.debugfs d hd'
    have hdp : d ≠ p := fun hdp => by
      rw [hdp, hp] at hg
      cases hg
    by_cases hdc : d = c
    · refine ⟨frame.linkTo (some p), hdc ▸ hyc, .inl ?_⟩
      rw [hdc]
      simp
    · refine ⟨g, (hother d hdc hdp).trans hg, ?_⟩
      cases hcases with
      | inl hmem =>
        left
        have hl : l ++ [c, p] = (l ++ [c]) ++ [p] := by simp
        rw [hl]
        exact List.mem_append_left _ hmem
      | inr hrest => exact .inr hrest
  · by_cases hbc : b = c
    · rw [hbc, hframe, Option.some.injEq] at hg
      rw [hbc, ← hg]
      exact ⟨_, hyc⟩
    · refine ⟨g.next, ?_⟩
      rw [hother b hbc (hlp b hb), hg, Frame.linkTo_self]

theorem linkFrame_spec (h : Shaped x l) (hp : x.frames p = none)
    (hlen : l.length ≤ maxFrameCountHard) (pid number : ℕ) : ∃ y,
    linkFrame (x.setFrame p (newFrame pid number)) p = some y ∧
    Shaped { y with frameCurrent := some p } (l ++ [p]) ∧ Linking x y l ∧
    y.frames p = some (newFrame pid number) := by
  cases List.eq_nil_or_concat l with
  | inl hnil =>
    rw [hnil] at h ⊢
    exact linkFrame_nil h hp pid number
  | inr hsnoc =>
    obtain ⟨k, c, hl⟩ := hsnoc
    rw [List.concat_eq_append] at hl
    rw [hl] at h hlen ⊢
    rw [List.length_append, List.length_singleton] at hlen
    obtain ⟨y, hy, hshaped, hlink, hyp⟩ := linkFrame_snoc h hp (by omega) pid number
    refine ⟨y, hy, ?_, hlink, hyp⟩
    rw [List.append_assoc]
    exact hshaped

/-- A new frame is the last of the list, and some of the first ones may be culled. -/
structure Grown (x x' : DumpState) (l l' : List ℕ) (p : ℕ) (f : Frame) : Prop where
  shaped : Shaped x' l'
  spans : Spans x' l'
  bound : l'.length ≤ maxFrameCountHard
  same : Same x { x' with frameCurrent := x.frameCurrent }
  current : x'.frameCurrent = some p
  last : l'.getLast? = some p
  fresh : x'.frames p = some f
  suffix : l' <:+ l ++ [p]
  frames : ∀ a ∈ l, a ∈ l' → ∀ frame, x.frames a = some frame →
    ∃ o, x'.frames a = some (frame.linkTo o)
  stop : x.frameStreamOpenCount ≠ 0 → x'.streamEnd = x.streamEnd
  passed : x.frameStreamOpenCount ≠ 0 → ∀ pre a post, l = pre ++ a :: post → l' <:+ post ++ [p] →
    x.streamStart + total x (pre ++ [a]) < x.streamFPos ∨
      maxFrameCountHard < (a :: post).length + 1

theorem Linking.total {y : DumpState} (hlink : Linking x y l) (h : Listed x l)
    (hyp : y.frames p = some (newFrame pid number)) :
    total { y with frameCurrent := some p } (l ++ [p]) = Pdumpfs.total x l := by
  have hsame : Pdumpfs.total { y with frameCurrent := some p } (l ++ [p]) =
      Pdumpfs.total y (l ++ [p]) := total_congr fun _ _ => rfl
  rw [hsame, total_append, total_cons, total_nil, offsetOf_eq hyp,
    total_linkTo h.alive hlink.frames]
  rfl

theorem Linking.spans {y : DumpState} (hlink : Linking x y l) (h : Listed x l)
    (hyp : y.frames p = some (newFrame pid number)) (hspans : Spans x l) :
    Spans { y with frameCurrent := some p } (l ++ [p]) := by
  unfold Spans at *
  rw [hlink.total h hyp]
  change y.streamEnd - y.streamStart = _
  rw [hlink.streamEnd, hlink.streamStart]
  exact hspans

theorem frameNew_spec (h : Shaped x l) (hspans : Spans x l) (hlen : l.length ≤ maxFrameCountHard)
    (hp : x.frames p = none)
    (hpos : x.frameStreamOpenCount = 0 ∨ x.streamFPos ≤ x.streamEnd) (pid number : ℕ) :
    ∃ x' l', frameNew x pid number (some p) = some (0, x') ∧
      Grown x x' l l' p (newFrame pid number) := by
  obtain ⟨y, hy, hshaped, hlink, hyp⟩ := linkFrame_spec h hp hlen pid number
  have hyspans := hlink.spans h.listed hyp hspans
  have hsame := hlink.same
  have hopen : y.frameStreamOpenCount = x.frameStreamOpenCount := hsame.frameStreamOpenCount
  have hfpos : y.streamFPos = x.streamFPos := hsame.streamFPos
  have hne : l ++ [p] ≠ [] := by simp
  have hypos : y.frameStreamOpenCount = 0 ∨ y.streamFPos ≤ y.streamEnd := by
    rw [hopen, hfpos, hlink.streamEnd]
    exact hpos
  have hcount : (l ++ [p]).length < y.frameCount + 1 := by
    have := hshaped.count
    change y.frameCount = _ at this
    omega
  obtain ⟨x', l', hloop, hculled, hlast⟩ := frameCullLoop_spec hshaped hne hyspans hypos hcount
  rw [List.getLast?_concat] at hlast
  have hplast : p ∈ l' := List.mem_of_getLast? hlast
  refine ⟨x', l', ?_, hculled.shaped, hculled.spans, hculled.bound, ?_, ?_, hlast, ?_,
    hculled.suffix, fun a ha hal frame hframe => ?_, fun ho => ?_, fun ho pre a post hl hsuffix => ?_⟩
  · simp only [frameNew, hy, frameCull, Option.bind_eq_bind, Option.bind_some]
    rw [hloop]
    rfl
  · have hc := hculled.same
    exact ⟨hc.frameCountMax.trans hsame.frameCountMax, hc.frameInit.trans hsame.frameInit, rfl,
      hc.frameStreamOpenCount.trans hopen, hc.streamFPos.trans hfpos, hc.fPos.trans hsame.fPos⟩
  · exact hculled.same.frameCurrent
  · exact (hculled.frames p hplast).trans hyp
  · obtain ⟨o, ho⟩ := hlink.frames a ha frame hframe
    exact ⟨o, (hculled.frames a hal).trans ho⟩
  · exact (hculled.stop (hopen.symm ▸ ho)).trans hlink.streamEnd
  · have hl' : l ++ [p] = pre ++ a :: (post ++ [p]) := by
      rw [hl, List.append_assoc, List.cons_append]
    have hpassed := hculled.passed (hopen.symm ▸ ho) pre a (post ++ [p]) hl' hsuffix
    have hsub (b : ℕ) (hb : b ∈ pre ++ [a]) : b ∈ l := by
      rw [hl]
      simp only [List.mem_append, List.mem_singleton] at hb
      simp only [List.mem_append, List.mem_cons]
      rw [← or_assoc]
      exact .inl hb
    have hkept : total { y with frameCurrent := some p } (pre ++ [a]) = total x (pre ++ [a]) :=
      total_linkTo (fun b hb => h.listed.alive b (hsub b hb)) fun b hb =>
        hlink.frames b (hsub b hb)
    rw [hkept] at hpassed
    change y.streamStart + _ < y.streamFPos ∨ _ at hpassed
    rw [hlink.streamStart, hfpos, List.length_cons, List.length_append, List.length_singleton]
      at hpassed
    rw [List.length_cons]
    omega

theorem Linking.within_iff {y : DumpState} (hlink : Linking x y l) (h : Listed x l)
    (hyp : y.frames p = some (newFrame pid number)) :
    Within { y with frameCurrent := some p } (l ++ [p]) ↔ Within x l := by
  have hopen : y.frameStreamOpenCount = x.frameStreamOpenCount := hlink.same.frameStreamOpenCount
  have hfpos : y.streamFPos = x.streamFPos := hlink.same.streamFPos
  unfold Within
  rw [hlink.total h hyp]
  change y.frameStreamOpenCount = 0 ∨ y.streamFPos ≤ y.streamStart + _ ↔ _
  rw [hopen, hfpos, hlink.streamStart]

theorem frameNew_none (h : Shaped x l) (hlen : l.length ≤ maxFrameCountHard)
    (hp : x.frames p = none) (hwithin : ¬Within x l) (pid number : ℕ) :
    frameNew x pid number (some p) = none := by
  obtain ⟨y, hy, hshaped, hlink, hyp⟩ := linkFrame_spec h hp hlen pid number
  have hloop := frameCullLoop_none hshaped.listed
    ((hlink.within_iff h.listed hyp).not.mpr hwithin) (y.frameCount + 1)
  simp only [frameNew, hy, frameCull, Option.bind_eq_bind, Option.bind_some]
  rw [hloop]
  rfl

end PvrServices.Pdumpfs
