import PvrServices.PdumpfsStream

set_option autoImplicit false

/-!
# The lives of the dumped frames

A frame is made when it becomes the current one. It is destroyed when it is culled, or, if the file
of the current frame shows it then, with the last user of that file.
-/
namespace PvrServices.Pdumpfs
open Memory PointerList Runs Words
variable {x x' y : DumpState} {l l' : List ℕ} {frame f : Frame} {a b c d n p pid number : ℕ}
  {q : WriteCall} {fromUser : Bool}

def pdumpfsFrameReadSingle (frame : Frame) (size copies fPos : ℕ) : Option (ℕ × List UInt8) :=
  if frame.offset ≤ fPos then some (0, [])
  else if frame.pageCount ≤ fPos / pageSize then none
  else
    let size := min (min size (frame.offset - fPos)) (pageSize - fPos % pageSize)
    if copies = 0 then some (efault, [])
    else some (size, copy (frame.pages (fPos / pageSize)) (fPos % pageSize) size)

def pdumpfsCurrentRead (x : DumpState) (size copies fPos : ℕ) : Option (ℕ × List UInt8) := do
  let d ← x.frameCurrentDebugfs
  let frame ← x.frames d
  if frame.offset ≠ 0 then pdumpfsFrameReadSingle frame size copies fPos else some (0, [])

inductive FileOp where
  | call (op : Op)
  | currentRead (size copies fPos : ℕ)

def frameCullFirstGone (x : DumpState) : List ℕ :=
  if x.frameCurrentDebugfs ≠ x.frameStream then x.frameStream.toList else []

def frameCullGone : ℕ → DumpState → List ℕ
  | 0, _ => []
  | n + 1, x =>
    if frameCullNext x = some true then
      frameCullFirstGone x ++ ((frameCullFirst x).map (frameCullGone n)).getD []
    else []

def frameNewGone (x : DumpState) (pid number : ℕ) (mem : Option ℕ) : List ℕ :=
  mem.elim [] fun p => ((linkFrame (x.setFrame p (newFrame pid number)) p).map fun x =>
    frameCullGone (x.frameCount + 1) { x with frameCurrent := some p }).getD []

def forces (x : DumpState) (q : WriteCall) : Bool :=
  (x.frameCurrent.bind x.frames).any fun frame => overruns frame q.buffer.length

def currentReleaseGone (x : DumpState) : List ℕ :=
  if x.frameCurrentOpenCount - 1 = 0 ∧ x.frameCurrentDebugfs ≠ x.frameInit ∧
      x.frameCurrentDebugfs ≠ x.frameCurrent ∧
      (x.frameCurrentDebugfs.bind x.frames).all (fun frame => frame.next.isNone) = true then
    x.frameCurrentDebugfs.toList
  else []

/-- The frames that a call makes and those that it hands to `frame_destroy`. -/
structure Turnover where
  made : List ℕ
  gone : List ℕ
deriving DecidableEq, Repr

def turnover (x : DumpState) : Op → Turnover
  | .frameSet pid frame mem => ⟨mem.toList, frameNewGone x pid frame mem⟩
  | .writeData q _ | .writeString q =>
    if forces x q then ⟨q.frameMem.toList, frameNewGone x q.pid 4294967295 q.frameMem⟩ else ⟨[], []⟩
  | .currentRelease => ⟨[], currentReleaseGone x⟩
  | _ => ⟨[], []⟩

def fileStep (x : DumpState) : FileOp → Option (Turnover × DumpState)
  | .call op => (step x op).map fun r => (turnover x op, r.2)
  | .currentRead size copies fPos => (pdumpfsCurrentRead x size copies fPos).map fun _ =>
    (⟨[], []⟩, x)

def frameDestroyStream : ℕ → DumpState → Option (List ℕ × DumpState)
  | 0, _ => none
  | n + 1, x =>
    match x.frameStream with
    | none => some ([], x)
    | some p => do
      let frame ← x.frames p
      let x := frameDestroy { x with frameStream := frame.next } p
      let r ← frameDestroyStream n { x with frameCount := u32Sub x.frameCount 1 }
      some (p :: r.1, r.2)

def detached (x : DumpState) : Option (Option ℕ) :=
  match x.frameCurrentDebugfs with
  | none => some none
  | some d => do
    let frame ← x.frames d
    some (if some d = x.frameInit ∨ some d = x.frameCurrent ∨ frame.next.isSome = true then none
      else some d)

def frameDestroyAll (x : DumpState) : Option (List ℕ × DumpState) := do
  let kept ← detached x
  let gone := x.frameInit.toList ++ kept.toList
  let x := { gone.foldl frameDestroy x with
    frameCurrent := none
    frameInit := none
    frameCurrentDebugfs := none }
  let r ← frameDestroyStream (x.frameCount + 1) x
  some (gone ++ r.1, { r.2 with streamStart := 0, streamFPos := 0, streamEnd := 0 })

/-- The result of a write is no error, or the current frame is not on the stream. -/
def unfailing (r : ℕ × DumpState) : Bool :=
  r.2.frameCurrent = r.2.frameInit || (r.1 ≠ enomem && r.1 ≠ einval)

/-- Writes to the stream succeed, and a read of it goes on from where the last one ended. -/
def orderly (x : DumpState) : Op → Bool
  | .writeData q fromUser => (pdumpfsFrameWrite x q fromUser).all unfailing
  | .writeString q => (pdumpfsFrameWrite x q false).all unfailing
  | .pread _ _ _ => false
  | _ => true

def admitted (x : DumpState) : FileOp → Bool
  | .call op => proper x op && orderly x op
  | .currentRead _ _ _ => x.frameCurrentOpenCount ≠ 0

/-- The first frame, the current one and the one that the file of the current frame shows are in
    memory, and no frame is but these and those of the stream. -/
structure Sound (x : DumpState) : Prop where
  init : ∃ i, x.frameInit = some i ∧ (x.frames i).isSome = true
  current : ∃ c, x.frameCurrent = some c ∧ (x.frames c).isSome = true
  debugfs : x.frameCurrentOpenCount ≠ 0 →
    ∃ d, x.frameCurrentDebugfs = some d ∧ (x.frames d).isSome = true
  owned : ∀ a, (x.frames a).isSome = true ↔ x.frameInit = some a ∨ a ∈ streamFrames x ∨
    x.frameCurrentOpenCount ≠ 0 ∧ x.frameCurrentDebugfs = some a

/-- A frame that is destroyed was culled by the call and is not shown, or was shown to the last
    user and had been culled. -/
structure Turned (x x' : DumpState) (t : Turnover) : Prop where
  fresh : ∀ a ∈ t.made, x.frames a = none
  made : t.made.Nodup
  gone : t.gone.Nodup
  alive : ∀ a, (x'.frames a).isSome = true ↔
    ((x.frames a).isSome = true ∨ a ∈ t.made) ∧ a ∉ t.gone
  due : ∀ a ∈ t.gone, (x.frames a).isSome = true ∧
    ((a ∈ streamFrames x ∧ a ∉ streamFrames x' ∧ x.frameCurrentDebugfs ≠ some a) ∨
      (a ∉ streamFrames x ∧ x.frameCurrentDebugfs = some a ∧ x.frameCurrentOpenCount = 1))

/-- Frames are culled, and those that are not shown are destroyed. -/
structure Dropped (x x' : DumpState) (l l' gone : List ℕ) : Prop where
  shaped : Shaped x' l'
  within : Within x' l'
  bound : l'.length ≤ maxFrameCountHard
  same : Same x x'
  debugfs : x'.frameCurrentDebugfs = x.frameCurrentDebugfs
  opened : x'.frameCurrentOpenCount = x.frameCurrentOpenCount
  rest : x'.streamEnd - x'.streamStart - total x' l' = x.streamEnd - x.streamStart - total x l
  suffix : l' <:+ l
  last : l'.getLast? = l.getLast?
  kept : ∀ a ∈ l', x'.frames a = x.frames a
  nodup : gone.Nodup
  dead : ∀ a, a ∈ gone ↔ a ∈ l ∧ a ∉ l' ∧ x.frameCurrentDebugfs ≠ some a
  alive : ∀ a, (x'.frames a).isSome = true ↔ (x.frames a).isSome = true ∧ a ∉ gone

theorem Within.culled (h : Within x (a :: l)) (hlist : Listed x (a :: l))
    (hframe : x.frames a = some frame) : Within (Pdumpfs.culled x a frame) l := by
  have htotal := (hlist.culled hframe).2
  unfold Within at *
  rw [total_cons, offsetOf_eq hframe] at h
  rw [htotal]
  by_cases hopen : x.frameStreamOpenCount = 0
  · exact .inl hopen
  · right
    have hle := h.resolve_left hopen
    simp only [Pdumpfs.culled, ne_eq, hopen, not_false_eq_true, if_true]
    omega

theorem culled_rest (hlist : Listed x (a :: l)) (hframe : x.frames a = some frame) :
    (culled x a frame).streamEnd - (culled x a frame).streamStart - total (culled x a frame) l =
      x.streamEnd - x.streamStart - total x (a :: l) := by
  rw [(hlist.culled hframe).2, total_cons, offsetOf_eq hframe]
  by_cases hopen : x.frameStreamOpenCount = 0
  · simp only [culled, hopen, ne_eq, not_true_eq_false, if_false]
    omega
  · simp only [culled, ne_eq, hopen, not_false_eq_true, if_true]
    omega

theorem frameCullFirstGone_eq (hstream : x.frameStream = some a) :
    frameCullFirstGone x = if x.frameCurrentDebugfs ≠ some a then [a] else [] := by
  rw [frameCullFirstGone, hstream]
  rfl

theorem culled_alive (hframe : x.frames a = some frame) (b : ℕ) :
    ((culled x a frame).frames b).isSome = true ↔ (x.frames b).isSome = true ∧
      b ∉ if x.frameCurrentDebugfs ≠ some a then [a] else [] := by
  by_cases hba : b = a
  · rw [hba, culled_self, hframe]
    by_cases hdebug : x.frameCurrentDebugfs = some a
    · simp [hdebug]
    · simp [hdebug]
  · rw [culled_frames hba]
    by_cases hdebug : x.frameCurrentDebugfs = some a
    · simp [hdebug]
    · simp [hdebug, hba]

theorem frameCullGone_stop (h : frameCullNext x = some false) : frameCullGone (n + 1) x = [] := by
  rw [frameCullGone, h, if_neg (by simp)]

theorem frameCullGone_next (h : frameCullNext x = some true) (hstream : x.frameStream = some a)
    (hframe : x.frames a = some frame) : frameCullGone (n + 1) x =
      (if x.frameCurrentDebugfs ≠ some a then [a] else []) ++ frameCullGone n (culled x a frame) := by
  rw [frameCullGone, h, if_pos rfl, frameCullFirstGone_eq hstream,
    frameCullFirst_eq hstream hframe]
  rfl

theorem Dropped.cons {gone : List ℕ} (hframe : x.frames a = some frame) (hnot : a ∉ l)
    (hl : l ≠ []) (hlist : Listed x (a :: l)) (h : Dropped (culled x a frame) x' l l' gone) :
    Dropped x x' (a :: l) l'
      ((if x.frameCurrentDebugfs ≠ some a then [a] else []) ++ gone) := by
  have hsub : l' ⊆ l := h.suffix.subset
  have hnot' : a ∉ l' := fun hal => hnot (hsub hal)
  have hdead (b : ℕ) : b ∈ gone ↔ b ∈ l ∧ b ∉ l' ∧ x.frameCurrentDebugfs ≠ some b := h.dead b
  have hgone : a ∉ gone := fun hag => hnot ((hdead a).mp hag).1
  refine ⟨h.shaped, h.within, h.bound, ?_, h.debugfs, h.opened, ?_, ?_, ?_, fun b hb => ?_, ?_,
    fun b => ?_, fun b => ?_⟩
  · exact (⟨rfl, rfl, rfl, rfl, rfl, rfl⟩ : Same x (culled x a frame)).trans h.same
  · rw [h.rest]
    exact culled_rest hlist hframe
  · exact h.suffix.trans (List.suffix_cons a l)
  · rw [h.last]
    cases l with
    | nil => exact absurd rfl hl
    | cons b l => exact List.getLast?_cons_cons.symm
  · rw [h.kept b hb]
    exact culled_frames fun hba => hnot' (hba ▸ hb)
  · split
    · exact List.nodup_cons.mpr ⟨hgone, h.nodup⟩
    · exact h.nodup
  · rw [List.mem_append, hdead b, List.mem_cons]
    by_cases hba : b = a
    · rw [hba]
      by_cases hdebug : x.frameCurrentDebugfs = some a
      · simp [hdebug]
      · simp [hdebug, hnot']
    · by_cases hdebug : x.frameCurrentDebugfs = some a
      · simp [hdebug, hba]
      · simp [hdebug, hba]
  · rw [h.alive b, culled_alive hframe, List.mem_append, not_or, and_assoc]

theorem frameCull_lives (h : Shaped x l) (hl : l ≠ []) (hwithin : Within x l) (hn : l.length < n) :
    ∃ x' l', frameCullLoop n x = some x' ∧ Dropped x x' l l' (frameCullGone n x) := by
  induction n generalizing x l with
  | zero => omega
  | succ n ih =>
    cases l with
    | nil => exact absurd rfl hl
    | cons a l =>
      obtain ⟨frame, hframe, hstream, -⟩ := h.listed.first
      obtain ⟨more, hmore, hpassed⟩ := frameCullNext_eq hstream hframe
      rw [frameCullLoop, hmore, Option.bind_eq_bind, Option.bind_some]
      cases hm : more with
      | false =>
        rw [hm] at hmore
        rw [frameCullGone_stop hmore]
        refine ⟨x, a :: l, rfl, h, hwithin, ?_, .refl x, rfl, rfl, rfl, List.suffix_refl _, rfl,
          fun _ _ => rfl, List.nodup_nil, fun b => ?_, fun b => ?_⟩
        · have hnot : ¬Passed x frame := fun hp => by
            rw [hpassed.mpr hp] at hm
            cases hm
          have hcount := h.count
          have hmax := h.max
          unfold Passed at hnot
          split at hnot
          · omega
          · omega
        · simp only [List.not_mem_nil, false_iff]
          exact fun hb => hb.2.1 hb.1
        · simp
      | true =>
        have hl' : l ≠ [] := fun hnil => by
          rw [hnil] at h hwithin
          exact h.not_passed hwithin hframe (hpassed.mp hm)
        rw [List.length_cons] at hn
        obtain ⟨x', l', hloop, hdropped⟩ := ih (h.culled hl' hframe) hl'
          (hwithin.culled h.listed hframe) (by omega)
        have hnot := (List.nodup_cons.mp h.listed.chain.nodup).1
        rw [hm] at hmore
        refine ⟨x', l', ?_, ?_⟩
        · rw [if_pos rfl, frameCullFirst_eq hstream hframe]
          exact hloop
        · rw [frameCullGone_next hmore hstream hframe]
          exact hdropped.cons hframe hnot hl' h.listed

theorem setFrame_alive (x : DumpState) (c : ℕ) (f : Frame) (a : ℕ) :
    ((x.setFrame c f).frames a).isSome = true ↔ (x.frames a).isSome = true ∨ a = c := by
  by_cases hac : a = c
  · simp [DumpState.setFrame, hac]
  · simp [DumpState.setFrame, hac]

theorem linkFrame_lives (hy : linkFrame (x.setFrame p f) p = some y) :
    y.frameCurrentDebugfs = x.frameCurrentDebugfs ∧
      y.frameCurrentOpenCount = x.frameCurrentOpenCount ∧
      ∀ a, (y.frames a).isSome = true ↔ (x.frames a).isSome = true ∨ a = p := by
  unfold linkFrame at hy
  by_cases hinit : (x.setFrame p f).frameInit.isNone = true
  · rw [if_pos hinit, Option.some.injEq] at hy
    rw [← hy]
    exact ⟨rfl, rfl, setFrame_alive x p f⟩
  · rw [if_neg hinit] at hy
    by_cases hcurrent : (x.setFrame p f).frameCurrent ≠ (x.setFrame p f).frameInit
    · rw [if_pos hcurrent] at hy
      obtain ⟨c, -, hy⟩ := Option.bind_eq_some_iff.mp hy
      obtain ⟨current, hc, hy⟩ := Option.bind_eq_some_iff.mp hy
      rw [Option.some.injEq] at hy
      rw [← hy]
      refine ⟨rfl, rfl, fun a => ?_⟩
      have hset := setFrame_alive (x.setFrame p f) c { current with next := some p } a
      have hsame : ((x.setFrame p f).frames a).isSome = true ∨ a = c ↔
          ((x.setFrame p f).frames a).isSome = true := by
        apply or_iff_left_of_imp
        intro hac
        rw [hac, hc]
        rfl
      exact hset.trans (hsame.trans (setFrame_alive x p f a))
    · rw [if_neg hcurrent, Option.some.injEq] at hy
      rw [← hy]
      exact ⟨rfl, rfl, setFrame_alive x p f⟩

structure Owned (x : DumpState) (l : List ℕ) : Prop where
  shaped : Shaped x l
  bound : l.length ≤ maxFrameCountHard
  within : Within x l
  covered : x.streamEnd - x.streamStart ≤ total x l
  behind : x.frameStreamOpenCount ≠ 0 → x.streamFPos ≤ x.fPos
  idle : x.frameCurrentOpenCount = 0 → x.frameCurrentDebugfs = none
  owner : ∀ a, (x.frames a).isSome = true →
    x.frameInit = some a ∨ a ∈ l ∨ x.frameCurrentDebugfs = some a

/-- What a call makes and destroys, with the frames of the stream before and after it. -/
structure Turning (x x' : DumpState) (l l' : List ℕ) (t : Turnover) : Prop where
  fresh : ∀ a ∈ t.made, x.frames a = none
  made : t.made.Nodup
  gone : t.gone.Nodup
  alive : ∀ a, (x'.frames a).isSome = true ↔
    ((x.frames a).isSome = true ∨ a ∈ t.made) ∧ a ∉ t.gone
  due : ∀ a ∈ t.gone, (x.frames a).isSome = true ∧
    ((a ∈ l ∧ a ∉ l' ∧ x.frameCurrentDebugfs ≠ some a) ∨
      (a ∉ l ∧ x.frameCurrentDebugfs = some a ∧ x.frameCurrentOpenCount = 1))

/-- A new frame is put at the end of the stream, and then frames are culled. -/
theorem frameNew_dropped (h : Shaped x l) (hlen : l.length ≤ maxFrameCountHard)
    (hwithin : Within x l) (hp : x.frames p = none) (pid number : ℕ) : ∃ y x' l',
    linkFrame (x.setFrame p (newFrame pid number)) p = some y ∧ Linking x y l ∧
      y.frames p = some (newFrame pid number) ∧ frameNew x pid number (some p) = some (0, x') ∧
      Dropped { y with frameCurrent := some p } x' (l ++ [p]) l'
        (frameNewGone x pid number (some p)) := by
  obtain ⟨y, hy, hshaped, hlink, hyp⟩ := linkFrame_spec h hp hlen pid number
  have hcount : (l ++ [p]).length < y.frameCount + 1 := by
    have hy := hshaped.count
    change y.frameCount = _ at hy
    omega
  obtain ⟨x', l', hloop, hd⟩ :=
    frameCull_lives hshaped (by simp) ((hlink.within_iff h.listed hyp).mpr hwithin) hcount
  refine ⟨y, x', l', hy, hlink, hyp, ?_, ?_⟩
  · simp only [frameNew, hy, frameCull, Option.bind_eq_bind, Option.bind_some]
    rw [hloop]
    rfl
  · rw [frameNewGone, Option.elim_some, hy]
    exact hd

theorem frameNew_lives (h : Owned x l) (hp : x.frames p = none) (pid number : ℕ) : ∃ x' l',
    frameNew x pid number (some p) = some (0, x') ∧ Owned x' l' ∧
      Turning x x' l l' ⟨[p], frameNewGone x pid number (some p)⟩ ∧
      x'.frameCurrent = some p ∧ p ∈ l' ∧ x'.frames p = some (newFrame pid number) := by
  obtain ⟨y, x', l', hy, hlink, hyp, hnew, hd⟩ :=
    frameNew_dropped h.shaped h.bound h.within hp pid number
  obtain ⟨hdebug, hopened, halive⟩ := linkFrame_lives hy
  have htotal := hlink.total h.shaped.listed hyp
  have hsame := hlink.same
  have hopen : y.frameStreamOpenCount = x.frameStreamOpenCount := hsame.frameStreamOpenCount
  have hfpos : y.streamFPos = x.streamFPos := hsame.streamFPos
  have hlast := hd.last
  rw [List.getLast?_concat] at hlast
  have hpl' : p ∈ l' := List.mem_of_getLast? hlast
  have hdead (a : ℕ) : a ∈ frameNewGone x pid number (some p) ↔
      a ∈ l ++ [p] ∧ a ∉ l' ∧ x.frameCurrentDebugfs ≠ some a := by
    rw [← hdebug]
    exact hd.dead a
  have hlive (a : ℕ) : (x'.frames a).isSome = true ↔
      ((x.frames a).isSome = true ∨ a ∈ [p]) ∧ a ∉ frameNewGone x pid number (some p) := by
    rw [List.mem_singleton, ← halive a]
    exact hd.alive a
  have hinit : x'.frameInit = x.frameInit := hd.same.frameInit.trans hsame.frameInit
  refine ⟨x', l', hnew, ⟨hd.shaped, hd.bound, hd.within, ?_, ?_, ?_, fun a ha => ?_⟩,
    ⟨fun a ha => ?_, List.nodup_singleton p, hd.nodup, hlive, fun a ha => ?_⟩,
    hd.same.frameCurrent, hpl', (hd.kept p hpl').trans hyp⟩
  · have hrest := hd.rest
    have hcovered := h.covered
    rw [htotal] at hrest
    change _ = y.streamEnd - y.streamStart - _ at hrest
    rw [hlink.streamEnd, hlink.streamStart] at hrest
    omega
  · intro ho
    have ho' : x.frameStreamOpenCount ≠ 0 := by
      rw [← hopen]
      rw [hd.same.frameStreamOpenCount] at ho
      exact ho
    have hf : x'.streamFPos = x.streamFPos := hd.same.streamFPos.trans hfpos
    have hfp : x'.fPos = x.fPos := hd.same.fPos.trans hsame.fPos
    rw [hf, hfp]
    exact h.behind ho'
  · rw [hd.opened, hd.debugfs]
    change y.frameCurrentOpenCount = 0 → y.frameCurrentDebugfs = none
    rw [hopened, hdebug]
    exact h.idle
  · obtain ⟨hold, hnot⟩ := (hlive a).mp ha
    rw [hinit, hd.debugfs]
    change _ ∨ _ ∨ y.frameCurrentDebugfs = some a
    rw [hdebug]
    rw [hdead a] at hnot
    by_cases hal' : a ∈ l'
    · exact .inr (.inl hal')
    · by_cases hshown : x.frameCurrentDebugfs = some a
      · exact .inr (.inr hshown)
      · have hal : a ∉ l ++ [p] := fun hal => hnot ⟨hal, hal', hshown⟩
        rw [List.mem_append, not_or] at hal
        have howner := h.owner a (hold.resolve_right hal.2)
        exact .inl (howner.resolve_right fun hrest => hrest.elim hal.1 hshown)
  · rw [List.mem_singleton.mp ha]
    exact hp
  · obtain ⟨hmem, hnot, hshown⟩ := (hdead a).mp ha
    have hal : a ∈ l := by
      cases List.mem_append.mp hmem with
      | inl hal => exact hal
      | inr hap =>
        rw [List.mem_singleton.mp hap] at hnot
        exact absurd hpl' hnot
    exact ⟨h.shaped.listed.alive a hal, .inl ⟨hal, hnot, hshown⟩⟩

theorem Turning.same (h : ∀ a, (x'.frames a).isSome = true ↔ (x.frames a).isSome = true) :
    Turning x x' l l ⟨[], []⟩ := by
  refine ⟨fun a ha => ?_, List.nodup_nil, List.nodup_nil, fun a => ?_, fun a ha => ?_⟩
  · cases ha
  · simpa using h a
  · cases ha

theorem moved_eq (r : ℕ × DumpState) : moved r = { r.2 with
    streamEnd := r.2.streamEnd + if r.2.frameCurrent = r.2.frameInit then 0 else r.1 } := by
  by_cases hinit : r.2.frameCurrent = r.2.frameInit
  · rw [moved, if_neg fun hne => hne.2 hinit, if_pos hinit]
    change r.2 = { r.2 with streamEnd := r.2.streamEnd + 0 }
    rw [Int.add_zero]
  · rw [if_neg hinit]
    exact moved_stream hinit r.1

/-- The current frame is written, and the end of the stream moves on by no more than that. -/
theorem Owned.put (h : Owned x l) (hc : x.frameCurrent = some c) (hframe : x.frames c = some frame)
    (hnext : f.next = frame.next) (hf : f.Fits) (hle : frame.offset ≤ f.offset) {r : ℕ}
    (hr : x.frameCurrent = x.frameInit ∨ frame.offset + r ≤ f.offset) :
    Owned (moved (r, x.setFrame c f)) l := by
  have hset := h.shaped.setFrame hframe hnext hf
  have hcovered := h.covered
  have htotal : x.streamEnd + (if x.frameCurrent = x.frameInit then 0 else r) - x.streamStart ≤
      total (x.setFrame c f) l ∧ total x l ≤ total (x.setFrame c f) l := by
    by_cases hinit : x.frameCurrent = x.frameInit
    · rw [h.shaped.current_init.mp hinit] at hcovered ⊢
      rw [if_pos hinit]
      exact ⟨by simpa using hcovered, Nat.le_refl _⟩
    · obtain ⟨k, hk⟩ := h.shaped.current_mem hc hinit
      have hmem : c ∈ l := by
        rw [hk]
        exact List.mem_append_right k (List.mem_singleton_self c)
      have hsum := total_setFrame (f := f) h.shaped.listed.chain.nodup hmem hframe
      have hle' := hr.resolve_left hinit
      rw [if_neg hinit]
      omega
  rw [moved_eq]
  refine ⟨⟨⟨hset.listed.chain, hset.listed.alive⟩, hset.count, hset.max, hset.init, hset.current,
    hset.fits, hset.users, hset.debugfs, hset.opened, hset.start, hset.reader⟩, h.bound, ?_, ?_,
    h.behind, h.idle, fun a ha => ?_⟩
  · have hsame : total { x.setFrame c f with streamEnd := (x.setFrame c f).streamEnd +
        if (x.setFrame c f).frameCurrent = (x.setFrame c f).frameInit then 0 else r } l =
        total (x.setFrame c f) l := total_congr fun _ _ => rfl
    unfold Within
    rw [hsame]
    apply h.within.imp_right
    intro hw
    change x.streamFPos ≤ x.streamStart + _
    omega
  · exact htotal.1
  · apply h.owner
    rw [setFrame_alive] at ha
    refine ha.elim id fun hac => ?_
    rw [hac, hframe]
    rfl

theorem Owned.put_alive (hframe : x.frames c = some frame) (r : ℕ) (a : ℕ) :
    ((moved (r, x.setFrame c f)).frames a).isSome = true ↔ (x.frames a).isSome = true := by
  rw [moved_eq, setFrame_alive]
  apply or_iff_left_of_imp
  intro hac
  rw [hac, hframe]
  rfl

theorem frameWriteLow_unfailing (hfits : frame.Fits) {buffer : List UInt8} {pages copies r : ℕ}
    (hlow : frameWriteLow frame buffer fromUser pages copies = (r, f))
    (hok : r ≠ enomem ∧ r ≠ einval) : f.offset = frame.offset + r := by
  obtain ⟨r', f', hlow', -, -, -, hcases⟩ :=
    frameWriteLow_fits hfits buffer fromUser pages copies
  rw [hlow, Prod.mk.injEq] at hlow'
  obtain ⟨hr, hf⟩ := hlow'
  cases hcases with
  | inl hall => rw [hf, hr, hall.2.2, hall.2.1]
  | inr hstop =>
    rw [← hr] at hstop
    exact absurd hok fun hne => hstop.2.elim hne.1 hne.2

theorem unfailing_iff {r : ℕ × DumpState} : unfailing r = true ↔
    r.2.frameCurrent = r.2.frameInit ∨ r.1 ≠ enomem ∧ r.1 ≠ einval := by
  simp [unfailing]

theorem forces_eq (hc : x.frameCurrent = some c) (hframe : x.frames c = some frame) :
    forces x q = overruns frame q.buffer.length := by
  rw [forces, hc, Option.bind_some, hframe, Option.any_some]

theorem Owned.forced (h : Owned x l) (hc : x.frameCurrent = some c)
    (hframe : x.frames c = some frame) (hover : overruns frame q.buffer.length = true)
    (hp : q.frameMem.all (fun p => (x.frames p).isNone) = true)
    (hok : (pdumpfsFrameWrite x q fromUser).all unfailing = true) : ∃ x' l',
    (pdumpfsFrameWrite x q fromUser).map moved = some x' ∧ Owned x' l' ∧
      Turning x x' l l' ⟨q.frameMem.toList, frameNewGone x q.pid 4294967295 q.frameMem⟩ := by
  cases hmem : q.frameMem with
  | none =>
    have hwrite : pdumpfsFrameWrite x q fromUser = some (enomem, x) := by
      simp [pdumpfsFrameWrite, hc, hframe, hover, frameNew, hmem, enomem]
    rw [hwrite, Option.all_some, unfailing_iff] at hok
    have hinit := hok.resolve_right fun hne => hne.1 rfl
    refine ⟨x, l, ?_, h, .same fun _ => .rfl⟩
    rw [hwrite, Option.map_some, moved, if_neg fun hne => hne.2 hinit]
  | some p =>
    have hfree : x.frames p = none := by simpa [hmem] using hp
    obtain ⟨y, k, hnew, howned, hturn, hcurrent, hpk, hfresh⟩ :=
      frameNew_lives h hfree q.pid 4294967295
    have hkept := overrunFrame_kept (newFrame_fits q.pid 4294967295) q
    obtain ⟨r, f, hlow, hnext, hle, hf, -⟩ :=
      frameWriteLow_fits hkept.2.2 q.buffer fromUser q.pages q.copies
    have hwrite : pdumpfsFrameWrite x q fromUser = some (r, y.setFrame p f) := by
      have hcurrent' : (y.setFrame p (overrunFrame (newFrame q.pid 4294967295) q)).frameCurrent =
        some p := hcurrent
      simp only [pdumpfsFrameWrite, hc, hframe, hover, if_true, hmem, hnew, Option.bind_eq_bind,
        Option.bind_some, ne_eq, not_true_eq_false, if_false,
        overrunMessage_eq hcurrent hfresh,
        pdumpfsFrameWriteLow_eq hcurrent' (setFrame_self y p _), hlow, setFrame_setFrame]
    rw [hwrite, Option.all_some, unfailing_iff] at hok
    have hr : y.frameCurrent = y.frameInit ∨ (newFrame q.pid 4294967295).offset + r ≤ f.offset := by
      apply hok.imp_right
      intro hne
      rw [frameWriteLow_unfailing hkept.2.2 hlow hne]
      exact Nat.add_le_add_right hkept.2.1 r
    refine ⟨_, k, by rw [hwrite, Option.map_some], howned.put hcurrent hfresh
      (hnext.trans hkept.1) hf (Nat.zero_le _) hr, hturn.fresh, hturn.made, hturn.gone,
      fun a => ?_, hturn.due⟩
    rw [Owned.put_alive hfresh]
    exact hturn.alive a

theorem Owned.write (h : Owned x l) (hp : q.frameMem.all (fun p => (x.frames p).isNone) = true)
    (hok : (pdumpfsFrameWrite x q fromUser).all unfailing = true) : ∃ x' l',
    pdumpfsWriteData x q fromUser = some x' ∧ Owned x' l' ∧
      Turning x x' l l' (turnover x (.writeData q fromUser)) := by
  obtain ⟨c, frame, hc, hframe⟩ := h.shaped.current_alive
  rw [pdumpfsWriteData_eq]
  change ∃ x' l', _ ∧ _ ∧ Turning x x' l l' (if forces x q = true then
    ⟨q.frameMem.toList, frameNewGone x q.pid 4294967295 q.frameMem⟩ else ⟨[], []⟩)
  rw [forces_eq hc hframe]
  cases hover : overruns frame q.buffer.length with
  | true => exact h.forced hc hframe hover hp hok
  | false =>
    have hfits := h.shaped.fits c frame hframe
    obtain ⟨r, f, hlow, hnext, hle, hf, -⟩ :=
      frameWriteLow_fits hfits q.buffer fromUser q.pages q.copies
    have hwrite : pdumpfsFrameWrite x q fromUser = some (r, x.setFrame c f) := by
      simp only [pdumpfsFrameWrite, hc, hframe, hover, Option.bind_eq_bind, Option.bind_some,
        Bool.false_eq_true, if_false, pdumpfsFrameWriteLow, hlow]
    rw [hwrite, Option.all_some, unfailing_iff] at hok
    have hr : x.frameCurrent = x.frameInit ∨ frame.offset + r ≤ f.offset := by
      apply hok.imp_right
      intro hne
      exact Nat.le_of_eq (frameWriteLow_unfailing hfits hlow hne).symm
    refine ⟨_, l, by rw [hwrite, Option.map_some], h.put hc hframe hnext hf hle hr, ?_⟩
    exact .same (Owned.put_alive hframe r)

end PvrServices.Pdumpfs
