import PvrServices.PdumpfsRuns

set_option autoImplicit false

/-!
# The bytes of the stream

Calls that go well put bytes behind those of the stream, or take whole frames of them from its
start.
-/
namespace PvrServices.Pdumpfs
open Memory PointerList Runs Words
variable {x x' y : DumpState} {l l' : List ℕ} {frame f g : Frame} {buffer : List UInt8}
  {fromUser : Bool} {a b c d n p pages copies : ℕ} {q : WriteCall} {op : Op} {reply : Reply}

def bytesAt (x : DumpState) (p : ℕ) : List UInt8 := ((x.frames p).map Frame.bytes).getD []

def bytesOf (x : DumpState) (l : List ℕ) : List UInt8 := l.flatMap (bytesAt x)

def framesFrom (frames : ℕ → Option Frame) : ℕ → Option ℕ → List ℕ
  | 0, _ => []
  | _ + 1, none => []
  | n + 1, some a => a :: framesFrom frames n ((frames a).bind Frame.next)

def streamFrames (x : DumpState) : List ℕ := framesFrom x.frames x.frameCount x.frameStream

def streamBytes (x : DumpState) : List UInt8 := bytesOf x (streamFrames x)

/-- A write that forces no frame and puts all its bytes where it should. -/
def writeQuiet (x : DumpState) (q : WriteCall) (fromUser : Bool) : Bool :=
  match x.frameCurrent.bind x.frames with
  | none => false
  | some frame => !overruns frame q.buffer.length &&
    writes frame q.buffer.length fromUser q.pages q.copies

/-- A frame change or a write, if the call is one, succeeds and forces no frame. -/
def quiet (x : DumpState) : Op → Bool
  | .frameSet _ _ mem => mem.isSome
  | .writeData q fromUser => writeQuiet x q fromUser
  | .writeString q => writeQuiet x q false
  | _ => true

def written (x : DumpState) : Op → List UInt8
  | .writeData q _ | .writeString q => if x.frameCurrent = x.frameInit then [] else q.buffer
  | _ => []

theorem bytesAt_eq (h : x.frames a = some frame) : bytesAt x a = frame.bytes := by
  rw [bytesAt, h]
  rfl

theorem bytesAt_length (x : DumpState) (a : ℕ) : (bytesAt x a).length = offsetOf x a := by
  unfold bytesAt offsetOf
  cases x.frames a with
  | none => rfl
  | some frame => exact frame.bytes_length

@[simp] theorem bytesOf_nil (x : DumpState) : bytesOf x [] = [] := rfl

@[simp] theorem bytesOf_cons (x : DumpState) (a : ℕ) (l : List ℕ) :
    bytesOf x (a :: l) = bytesAt x a ++ bytesOf x l := rfl

theorem bytesOf_append (x : DumpState) (l l' : List ℕ) :
    bytesOf x (l ++ l') = bytesOf x l ++ bytesOf x l' := List.flatMap_append

theorem bytesOf_length (x : DumpState) (l : List ℕ) : (bytesOf x l).length = total x l := by
  induction l with
  | nil => rfl
  | cons a l ih => rw [bytesOf_cons, List.length_append, bytesAt_length, ih, total_cons]

theorem bytesOf_congr (h : ∀ a ∈ l, bytesAt x' a = bytesAt x a) : bytesOf x' l = bytesOf x l := by
  induction l with
  | nil => rfl
  | cons a l ih =>
    rw [bytesOf_cons, bytesOf_cons, h a List.mem_cons_self,
      ih fun b hb => h b (List.mem_cons_of_mem a hb)]

theorem framesFrom_eq {o : Option ℕ} (h : Linked (nextOf x) o l) :
    framesFrom x.frames l.length o = l := by
  induction l generalizing o with
  | nil => rfl
  | cons a l ih =>
    rw [h.1, List.length_cons, framesFrom]
    congr 1
    exact ih h.2

theorem Shaped.streamFrames (h : Shaped x l) : Pdumpfs.streamFrames x = l := by
  rw [Pdumpfs.streamFrames, h.count]
  exact framesFrom_eq h.listed.chain

theorem Shaped.streamBytes (h : Shaped x l) : Pdumpfs.streamBytes x = bytesOf x l := by
  rw [Pdumpfs.streamBytes, h.streamFrames]

/-- The frames of the stream have full pages, up to their last one. -/
def Full (x : DumpState) (l : List ℕ) : Prop :=
  ∀ a ∈ l, ∀ frame, x.frames a = some frame → frame.Filled

theorem Full.congr (h : Full x l) (hframes : ∀ a ∈ l, x'.frames a = x.frames a) : Full x' l :=
  fun a ha frame hframe => h a ha frame (hframes a ha ▸ hframe)

structure Unread (x x' : DumpState) : Prop where
  users : x'.frameStreamOpenCount = x.frameStreamOpenCount
  streamFPos : x'.streamFPos = x.streamFPos
  fPos : x'.fPos = x.fPos

theorem Shaped.current_mem (h : Shaped x l) (hc : x.frameCurrent = some c)
    (hne : x.frameCurrent ≠ x.frameInit) : ∃ k, l = k ++ [c] := by
  cases List.eq_nil_or_concat l with
  | inl hnil => exact absurd (h.current_init.mpr hnil) hne
  | inr hsnoc =>
    obtain ⟨k, e, hl⟩ := hsnoc
    rw [List.concat_eq_append] at hl
    have hcurrent := h.current
    rw [hl, List.getLast?_concat, hc, Option.some_or, Option.some.injEq] at hcurrent
    exact ⟨k, by rw [hl, hcurrent]⟩

theorem setFrame_other (h : b ≠ c) : (x.setFrame c f).frames b = x.frames b :=
  Function.update_of_ne h ..

/-- A quiet write puts its bytes behind those of the stream, unless the current frame is not on
    it. -/
theorem Held.quietWrite (h : Held x l) (hfull : Full x l) (hq : writeQuiet x q fromUser = true) :
    ∃ x', pdumpfsWriteData x q fromUser = some x' ∧ Held x' l ∧ Full x' l ∧ Unread x x' ∧
      x'.streamStart = x.streamStart ∧ bytesOf x' l = bytesOf x l ++
        if x.frameCurrent = x.frameInit then [] else q.buffer := by
  obtain ⟨c, frame, hc, hframe⟩ := h.shaped.current_alive
  simp only [writeQuiet, hc, Option.bind_some, hframe, Bool.and_eq_true, Bool.not_eq_true'] at hq
  obtain ⟨f, hlow, hnext, hoff, hfits, hfilled⟩ := frameWriteLow_writes hq.2
  have hf : f.Fits := hfits (h.shaped.fits c frame hframe)
  have hwrite : pdumpfsFrameWrite x q fromUser = some (q.buffer.length, x.setFrame c f) := by
    simp [pdumpfsFrameWrite, pdumpfsFrameWriteLow, hc, hframe, hq.1, hlow]
  rw [pdumpfsWriteData_eq, hwrite, Option.map_some]
  have hset := h.shaped.setFrame hframe hnext hf
  by_cases hinit : x.frameCurrent = x.frameInit
  · have hnil := h.shaped.current_init.mp hinit
    have hinit' : (x.setFrame c f).frameCurrent = (x.setFrame c f).frameInit := hinit
    refine ⟨x.setFrame c f, ?_, ⟨hset, ?_, h.bound⟩, ?_, ⟨rfl, rfl, rfl⟩, rfl, ?_⟩
    · simp [moved, hinit']
    · have hold := h.spans
      rw [hnil] at hold ⊢
      exact hold
    · rw [hnil]
      intro a ha
      cases ha
    · rw [if_pos hinit, hnil]
      rfl
  · obtain ⟨k, hl⟩ := h.shaped.current_mem hc hinit
    have hcl : c ∈ l := by rw [hl]; simp
    have hck : c ∉ k := by
      have hnodup := h.shaped.listed.chain.nodup
      rw [hl, List.nodup_append] at hnodup
      exact fun hck => hnodup.2.2 c hck c (List.mem_singleton_self c) rfl
    have hset' : (x.setFrame c f).frameCurrent ≠ (x.setFrame c f).frameInit := hinit
    obtain ⟨hshaped, hspans⟩ := h.shaped.written h.spans hcl hframe hnext hf q.buffer.length
    obtain ⟨hf', hbytes⟩ := hfilled (hfull c hcl frame hframe)
    refine ⟨{ x.setFrame c f with streamEnd := x.streamEnd + q.buffer.length }, ?_,
      ⟨hshaped, hspans.mpr (by omega), h.bound⟩, fun a ha g hg => ?_, ⟨rfl, rfl, rfl⟩, rfl, ?_⟩
    · rw [moved_stream hset']
      rfl
    · have hg' : (x.setFrame c f).frames a = some g := hg
      by_cases hac : a = c
      · rw [hac, setFrame_self, Option.some.injEq] at hg'
        exact hg' ▸ hf'
      · rw [setFrame_other hac] at hg'
        exact hfull a ha g hg'
    · have hself : ({ x.setFrame c f with
          streamEnd := x.streamEnd + q.buffer.length } : DumpState).frames c = some f :=
        setFrame_self x c f
      have hrest : bytesOf { x.setFrame c f with streamEnd := x.streamEnd + q.buffer.length } k =
          bytesOf x k := bytesOf_congr fun a ha => by
        have hac : a ≠ c := fun hac => hck (hac ▸ ha)
        rw [bytesAt, bytesAt]
        congr 2
        exact setFrame_other hac
      rw [if_neg hinit, hl, bytesOf_append, bytesOf_append, hrest, bytesOf_cons, bytesOf_cons,
        bytesAt_eq hself, bytesAt_eq hframe, hbytes]
      simp

theorem Frame.linkTo_bytes (frame : Frame) (o : Option ℕ) : (frame.linkTo o).bytes = frame.bytes :=
  rfl

theorem Frame.linkTo_filled (frame : Frame) (o : Option ℕ) :
    (frame.linkTo o).Filled ↔ frame.Filled := Iff.rfl

theorem newFrame_filled (pid number : ℕ) : (newFrame pid number).Filled := by
  change 0 = pagesUpTo 0
  decide

/-- What is culled when a frame is set: frames from the start of the list, and their bytes from the
    start of the stream. -/
theorem Grown.bytes {number pid : ℕ} (hgrown : Grown x x' l l' p (newFrame pid number))
    (h : Held x l) (hfull : Full x l) : Full x' l' ∧ ∃ gone, l ++ [p] = gone ++ l' ∧
      bytesOf x l = bytesOf x gone ++ bytesOf x' l' := by
  obtain ⟨gone, hl⟩ := hgrown.suffix
  have hpl' : p ∈ l' := List.mem_of_getLast? hgrown.last
  obtain ⟨k, hk⟩ : ∃ k, l' = k ++ [p] := by
    cases List.eq_nil_or_concat l' with
    | inl hnil =>
      rw [hnil] at hpl'
      cases hpl'
    | inr hsnoc =>
      obtain ⟨k, e, hl'⟩ := hsnoc
      have hlast := hgrown.last
      rw [List.concat_eq_append] at hl'
      rw [hl', List.getLast?_concat, Option.some.injEq] at hlast
      exact ⟨k, by rw [hl', hlast]⟩
  have hold : l = gone ++ k := by
    rw [hk, ← List.append_assoc] at hl
    exact (List.append_inj_left' hl rfl).symm
  have hin (a : ℕ) (ha : a ∈ k) : ∃ frame o, x.frames a = some frame ∧
      x'.frames a = some (frame.linkTo o) := by
    have hal : a ∈ l := by rw [hold]; exact List.mem_append_right gone ha
    have hal' : a ∈ l' := by rw [hk]; exact List.mem_append_left [p] ha
    obtain ⟨frame, hframe⟩ := Option.isSome_iff_exists.mp (h.shaped.listed.alive a hal)
    obtain ⟨o, ho⟩ := hgrown.frames a hal hal' frame hframe
    exact ⟨frame, o, hframe, ho⟩
  refine ⟨fun a ha g hg => ?_, gone, hl.symm, ?_⟩
  · rw [hk] at ha
    cases List.mem_append.mp ha with
    | inl ha =>
      obtain ⟨frame, o, hframe, ho⟩ := hin a ha
      rw [ho, Option.some.injEq] at hg
      have hal : a ∈ l := by rw [hold]; exact List.mem_append_right gone ha
      rw [← hg, Frame.linkTo_filled]
      exact hfull a hal frame hframe
    | inr ha =>
      rw [List.mem_singleton.mp ha, hgrown.fresh, Option.some.injEq] at hg
      rw [← hg]
      exact newFrame_filled pid number
  · have hkept : bytesOf x' k = bytesOf x k := bytesOf_congr fun a ha => by
      obtain ⟨frame, o, hframe, ho⟩ := hin a ha
      rw [bytesAt_eq hframe, bytesAt_eq ho, Frame.linkTo_bytes]
    have hnew : bytesAt x' p = [] := bytesAt_eq hgrown.fresh
    rw [hk, hold, bytesOf_append, bytesOf_append, hkept, bytesOf_cons, hnew]
    simp

theorem Frame.bytes_stretch {i k : ℕ} (hin : i + k ≤ frame.offset)
    (hpage : k ≤ pageSize - i % pageSize) :
    copy (frame.pages (i / pageSize)) (i % pageSize) k = (frame.bytes.drop i).take k := by
  apply List.ext_getElem
  · rw [copy_length, List.length_take, List.length_drop, Frame.bytes_length]
    omega
  · intro j hj hj'
    rw [copy_length] at hj
    have hdiv : (i + j) / pageSize = i / pageSize := by
      unfold pageSize at *
      omega
    have hmod : (i + j) % pageSize = i % pageSize + j := by
      unfold pageSize at *
      omega
    simp [copy, Frame.bytes, hdiv, hmod]

theorem bytesOf_stretch {pre post : List ℕ} {i k : ℕ} (hframe : x.frames a = some frame)
    (hin : i + k ≤ frame.offset) :
    (frame.bytes.drop i).take k =
      ((bytesOf x (pre ++ a :: post)).drop (total x pre + i)).take k := by
  have hlen : frame.bytes.length = frame.offset := frame.bytes_length
  rw [bytesOf_append, bytesOf_cons, bytesAt_eq hframe, ← bytesOf_length,
    List.drop_length_add_append, List.drop_append_of_le_length (by omega),
    List.take_append_of_le_length]
  rw [List.length_drop, Frame.bytes_length]
  omega

theorem Held.readStream (h : Held x l) (copies size : ℕ) {fPos : ℤ} (hstart : x.streamStart ≤ fPos)
    (hend : fPos < x.streamEnd) :
    (copies = 0 → pdumpfsStreamRead x size copies fPos = some ((efault, [], fPos + efault), x)) ∧
    (copies ≠ 0 → ∃ k ≤ pageSize, (0 < size → 0 < k) ∧ fPos + k ≤ x.streamEnd ∧
      pdumpfsStreamRead x size copies fPos =
        some ((k, ((bytesOf x l).drop (fPos - x.streamStart).toNat).take k, fPos + k),
          { x with streamFPos := x.streamFPos + k })) := by
  have hspans := h.spans
  unfold Spans at hspans
  obtain ⟨pre, a, post, frame, i, k, hl, hframe, hilt, hi, hk, hread⟩ :=
    h.shaped.read_at hstart (by omega) hend size copies
  rw [hread]
  constructor
  · intro hzero
    rw [if_pos hzero]
  · intro hcopies
    have hlast : total x pre + frame.offset ≤ total x l := by
      rw [hl, total_append, total_cons, offsetOf_eq hframe]
      omega
    have hpage : i % pageSize < pageSize := Nat.mod_lt _ (by decide)
    refine ⟨k, by omega, by omega, by omega, ?_⟩
    have hat : (fPos - x.streamStart).toNat = total x pre + i := by omega
    rw [if_neg hcopies, hat, hl, ← bytesOf_stretch hframe (by omega),
      ← Frame.bytes_stretch (by omega) (by omega)]

end PvrServices.Pdumpfs
