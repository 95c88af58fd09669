import PvrServices.PdumpfsLives

set_option autoImplicit false

/-!
# The lives of the dumped frames over runs

Whatever is done, in any order, each frame is destroyed once: when it is culled, with the last user
of the file that shows it, or with all that are left.
-/
namespace PvrServices.Pdumpfs
open PointerList Runs Words
variable {x x' : DumpState} {l l' : List ℕ} {frame : Frame} {a c d n p : ℕ} {op : Op}
  {t : Turnover} {o : FileOp} {log : List (FileOp × Turnover)}

theorem Owned.moveReader (h : Owned x l) (hopen : x.frameStreamOpenCount ≠ 0) {fPos streamFPos : ℤ}
    (hle : streamFPos ≤ fPos) (hend : streamFPos ≤ x.streamStart + total x l) :
    Owned { x with fPos := fPos, streamFPos := streamFPos } l :=
  ⟨h.shaped.moveReader hopen _ _, h.bound, .inr hend, h.covered, fun _ => hle, h.idle, h.owner⟩

theorem seekPos_le {offset : ℤ} {whence : Whence} (h : 0 ≤ seekPos x offset whence) :
    seekPos x offset whence ≤ x.streamEnd := by
  cases whence with
  | seekSet =>
    simp only [seekPos] at h ⊢
    split at h
    · omega
    · rename_i hin
      rw [if_neg hin]
      omega
  | seekCur =>
    simp only [seekPos] at h ⊢
    split at h
    · omega
    · rename_i hin
      rw [if_neg hin]
      omega
  | seekEnd =>
    simp only [seekPos] at h ⊢
    split at h
    · omega
    · rename_i hin
      rw [if_neg hin]
      omega

theorem Owned.llseek (h : Owned x l) (hopen : x.frameStreamOpenCount ≠ 0) (offset : ℤ)
    (whence : Whence) : Owned (pdumpfsStreamLlseek x offset whence).2 l := by
  simp only [pdumpfsStreamLlseek]
  split
  · rename_i hpos
    have hle := seekPos_le hpos
    have hcovered := h.covered
    exact h.moveReader hopen (Int.le_refl _) (by omega)
  · exact h

/-- A read from where the last one ended does not go behind the frames. -/
theorem Owned.read (h : Owned x l) (hopen : x.frameStreamOpenCount ≠ 0) (size copies : ℕ) :
    ∃ r streamFPos, pdumpfsStreamRead x size copies x.fPos =
      some (r, { x with streamFPos := streamFPos }) ∧ streamFPos ≤ r.2.2 ∧
        streamFPos ≤ x.streamStart + total x l := by
  have hbehind := h.behind hopen
  have hwithin := h.within.resolve_left hopen
  have hgrow (n : ℕ) : x.fPos ≤ if 0 < n then x.fPos + n else x.fPos := by
    split <;> omega
  by_cases hin : x.streamStart ≤ x.fPos ∧ x.fPos < x.streamEnd
  · have hcovered := h.covered
    obtain ⟨pre, a, post, frame, i, k, hl, hframe, hilt, hi, hk, hread⟩ :=
      h.shaped.read_at hin.1 (by omega) hin.2 size copies
    have htotal : total x l = total x pre + (frame.offset + total x post) := by
      rw [hl, total_append, total_cons, offsetOf_eq hframe]
    rw [hread]
    by_cases hcopy : copies = 0
    · rw [if_pos hcopy]
      exact ⟨_, x.streamFPos, rfl, Int.le_trans hbehind (Int.le_add_of_nonneg_right (by omega)),
        hwithin⟩
    · rw [if_neg hcopy]
      refine ⟨_, _, rfl, ?_, by omega⟩
      dsimp only
      omega
  · unfold pdumpfsStreamRead
    by_cases hend : x.streamEnd ≤ 0 ∨ x.streamEnd ≤ x.fPos
    · rw [if_pos hend]
      exact ⟨_, x.streamFPos, rfl, hbehind, hwithin⟩
    · rw [if_neg hend, if_pos (by omega)]
      exact ⟨_, x.streamFPos, rfl, Int.le_trans hbehind (hgrow _), hwithin⟩

theorem Owned.streamOpen (h : Owned x l) : Owned (pdumpfsStreamOpen x).2 l := by
  have hshaped := h.shaped.streamOpen
  unfold pdumpfsStreamOpen at *
  by_cases hopen : x.frameStreamOpenCount ≠ 0
  · rw [if_pos hopen]
    exact h
  · rw [if_neg hopen] at hshaped ⊢
    have hfirst := h.shaped.reader (not_not.mp hopen)
    have hstart := h.shaped.start.1
    refine ⟨hshaped, h.bound, .inr ?_, h.covered, fun _ => ?_, h.idle, h.owner⟩
    · change x.streamFPos ≤ x.streamStart + total x l
      omega
    · exact Int.le_of_eq hfirst

theorem Owned.streamRelease (h : Owned x l) : Owned (pdumpfsStreamRelease x) l := by
  obtain ⟨hrelease, hshaped⟩ := h.shaped.streamRelease
  have hcovered := h.covered
  rw [hrelease] at hshaped ⊢
  refine ⟨hshaped, h.bound, .inl rfl, ?_, fun hne => absurd rfl hne, h.idle, h.owner⟩
  change x.streamEnd - x.streamStart - 0 ≤ total x l
  omega

theorem Owned.frameCountMax (h : Owned x l) (result : ℕ) :
    Owned { x with frameCountMax := frameCountMaxOf result } l :=
  ⟨h.shaped.frameCountMax result, h.bound, h.within, h.covered, h.behind, h.idle, h.owner⟩

theorem Owned.currentOpen (h : Owned x l) : Owned (pdumpfsCurrentOpen x) l := by
  refine ⟨h.shaped.currentOpen, h.bound, h.within, h.covered, h.behind, fun hzero => ?_,
    fun a ha => ?_⟩
  · cases hzero
  · have howner := h.owner a ha
    by_cases hfirst : x.frameCurrentOpenCount = 0
    · rw [h.idle hfirst] at howner
      cases howner with
      | inl hinit => exact .inl hinit
      | inr hrest =>
        cases hrest with
        | inl hal => exact .inr (.inl hal)
        | inr hnone => cases hnone
    · have hsame : (pdumpfsCurrentOpen x).frameCurrentDebugfs = x.frameCurrentDebugfs := by
        simp [pdumpfsCurrentOpen, hfirst]
      rw [hsame]
      exact howner

theorem pdumpfsCurrentRelease_eq (hx : pdumpfsCurrentRelease x = some x') : x' = { x with
    frameCurrentOpenCount := x.frameCurrentOpenCount - 1
    frameCurrentDebugfs := if x.frameCurrentOpenCount - 1 = 0 then none else x.frameCurrentDebugfs
    frames := fun a => if a ∈ currentReleaseGone x then none else x.frames a } := by
  unfold pdumpfsCurrentRelease at hx
  by_cases hlast : x.frameCurrentOpenCount - 1 = 0
  · simp only [hlast, if_true, Option.bind_eq_bind, Option.bind_eq_some_iff] at hx
    obtain ⟨d, hd, frame, hframe, hx⟩ := hx
    rw [Option.some.injEq] at hx
    rw [← hx]
    by_cases hcond : x.frameCurrentDebugfs ≠ x.frameInit ∧
        x.frameCurrentDebugfs ≠ x.frameCurrent ∧ frame.next.isNone = true
    · have hgone : currentReleaseGone x = [d] := by
        rw [currentReleaseGone, if_pos ⟨hlast, hcond.1, hcond.2.1, by simp [hd, hframe, hcond.2.2]⟩,
          hd]
        rfl
      have hframes : (fun a => if a ∈ [d] then none else x.frames a) =
          Function.update x.frames d none := by
        funext a
        by_cases had : a = d
        · simp [had]
        · simp [had]
      rw [if_pos hcond, hgone, hframes]
      simp [frameDestroy, hlast]
    · have hgone : currentReleaseGone x = [] := by
        rw [currentReleaseGone, if_neg fun hall => hcond ⟨hall.2.1, hall.2.2.1, ?_⟩]
        simpa [hd, hframe] using hall.2.2.2
      rw [if_neg hcond, hgone]
      simp [hlast]
  · simp only [hlast, if_false, Option.some.injEq] at hx
    have hgone : currentReleaseGone x = [] := by
      rw [currentReleaseGone, if_neg fun hall => hlast hall.1]
    rw [← hx, hgone]
    simp [hlast]

theorem Owned.shown (h : Owned x l) (hd : x.frameCurrentDebugfs = some d) :
    x.frameCurrentOpenCount ≠ 0 := by
  intro hzero
  rw [h.idle hzero] at hd
  cases hd

theorem mem_currentReleaseGone : a ∈ currentReleaseGone x ↔
    (x.frameCurrentOpenCount - 1 = 0 ∧ x.frameCurrentDebugfs ≠ x.frameInit ∧
      x.frameCurrentDebugfs ≠ x.frameCurrent ∧
      (x.frameCurrentDebugfs.bind x.frames).all (fun frame => frame.next.isNone) = true) ∧
      x.frameCurrentDebugfs = some a := by
  unfold currentReleaseGone
  split
  · rename_i hcond
    rw [Option.mem_toList]
    exact ⟨fun ha => ⟨hcond, ha⟩, fun ha => ha.2⟩
  · rename_i hcond
    exact ⟨fun ha => absurd ha List.not_mem_nil, fun ha => absurd ha.1 hcond⟩

/-- The shown frame has another owner exactly if it does not go with the last user. -/
theorem Shaped.shown_gone (h : Shaped x l) (hlast : x.frameCurrentOpenCount - 1 = 0)
    (ha : x.frameCurrentDebugfs = some a) :
    a ∈ currentReleaseGone x ↔ ¬(x.frameInit = some a ∨ a ∈ l) := by
  obtain ⟨frame, hframe, hcases⟩ := h.debugfs a ha
  have hnext : nextOf x a = frame.next := by rw [nextOf, hframe, Option.bind_some]
  rw [mem_currentReleaseGone, ha, Option.bind_some, hframe, Option.all_some]
  constructor
  · intro hgone
    obtain ⟨⟨-, hinit, hcurrent, hnone⟩, -⟩ := hgone
    rw [Option.isNone_iff_eq_none, ← hnext] at hnone
    rintro (hi | hal)
    · exact hinit hi.symm
    · apply hcurrent
      rw [h.current, (h.listed.chain.next_eq_none_iff hal).mp hnone]
      rfl
  · intro hnot
    rw [not_or] at hnot
    have hnone : frame.next = none :=
      (hcases.resolve_left hnot.2).resolve_left hnot.1
    refine ⟨⟨hlast, fun hi => hnot.1 hi.symm, fun hc => ?_, by rw [hnone]; rfl⟩, rfl⟩
    rw [h.current] at hc
    cases hlist : l.getLast? with
    | none =>
      rw [hlist] at hc
      exact hnot.1 hc.symm
    | some e =>
      rw [hlist, Option.some_or, Option.some.injEq] at hc
      rw [hc] at hnot
      exact hnot.2 (List.mem_of_getLast? hlist)

theorem Owned.currentRelease (h : Owned x l) (hopen : x.frameCurrentOpenCount ≠ 0) : ∃ x',
    pdumpfsCurrentRelease x = some x' ∧ Owned x' l ∧ Turning x x' l l ⟨[], currentReleaseGone x⟩ := by
  obtain ⟨x', hx', hshaped, hstart, hend, hframes⟩ := h.shaped.currentRelease hopen
  have heq := pdumpfsCurrentRelease_eq hx'
  have hcovered := h.covered
  have halive (a : ℕ) : (x'.frames a).isSome = true ↔
      (x.frames a).isSome = true ∧ a ∉ currentReleaseGone x := by
    rw [heq]
    by_cases ha : a ∈ currentReleaseGone x
    · simp [ha]
    · simp [ha]
  have hopen' : x'.frameStreamOpenCount = x.frameStreamOpenCount := by rw [heq]
  have hfpos : x'.streamFPos = x.streamFPos := by rw [heq]
  have hpos : x'.fPos = x.fPos := by rw [heq]
  refine ⟨x', hx', ⟨hshaped, h.bound, ?_, ?_, ?_, fun hzero => ?_, fun a ha => ?_⟩,
    fun a ha => ?_, List.nodup_nil, ?_, fun a => ?_, fun a ha => ?_⟩
  · unfold Within
    rw [hopen', hfpos, hstart, total_congr hframes]
    exact h.within
  · rw [hstart, hend, total_congr hframes]
    exact hcovered
  · rw [hopen', hfpos, hpos]
    exact h.behind
  · rw [heq] at hzero ⊢
    exact if_pos hzero
  · obtain ⟨hold, hnot⟩ := (halive a).mp ha
    have hdebug : x'.frameCurrentDebugfs =
        if x.frameCurrentOpenCount - 1 = 0 then none else x.frameCurrentDebugfs := by rw [heq]
    have hinit : x'.frameInit = x.frameInit := by rw [heq]
    have howner := h.owner a hold
    rw [hdebug, hinit]
    by_cases hlast : x.frameCurrentOpenCount - 1 = 0
    · rw [← or_assoc] at howner ⊢
      left
      by_contra hnone
      have hshown := howner.resolve_left hnone
      exact hnot ((h.shaped.shown_gone hlast hshown).mpr hnone)
    · rw [if_neg hlast]
      exact howner
  · cases ha
  · dsimp only
    unfold currentReleaseGone
    split
    · cases x.frameCurrentDebugfs with
      | none => exact List.nodup_nil
      | some d => exact List.nodup_singleton d
    · exact List.nodup_nil
  · rw [halive a]
    simp
  · obtain ⟨hcond, hshown⟩ := mem_currentReleaseGone.mp ha
    obtain ⟨frame, hframe, -⟩ := h.shaped.debugfs a hshown
    have hnot := (h.shaped.shown_gone hcond.1 hshown).mp ha
    have hone : x.frameCurrentOpenCount = 1 := by
      omega
    refine ⟨by rw [hframe]; rfl, .inr ⟨fun hal => hnot (.inr hal), hshown, hone⟩⟩

theorem Owned.currentRead (h : Owned x l) (hopen : x.frameCurrentOpenCount ≠ 0)
    (size copies fPos : ℕ) : (pdumpfsCurrentRead x size copies fPos).isSome = true := by
  obtain ⟨d, hd⟩ := Option.isSome_iff_exists.mp (h.shaped.opened hopen)
  obtain ⟨frame, hframe, -⟩ := h.shaped.debugfs d hd
  have hfits := (h.shaped.fits d frame hframe).offset
  simp only [pdumpfsCurrentRead, hd, hframe, Option.bind_eq_bind, Option.bind_some]
  by_cases hempty : frame.offset ≠ 0
  · rw [if_pos hempty]
    unfold pdumpfsFrameReadSingle
    by_cases hend : frame.offset ≤ fPos
    · rw [if_pos hend]
      rfl
    · have hin : ¬frame.pageCount ≤ fPos / pageSize := by
        unfold pageSize at *
        omega
      rw [if_neg hend, if_neg hin]
      dsimp only
      split <;> rfl
  · rw [if_neg hempty]
    rfl

theorem Owned.sound (h : Owned x l) : Sound x := by
  obtain ⟨i, hi, hialive, -⟩ := h.shaped.init
  obtain ⟨c, frame, hc, hframe⟩ := h.shaped.current_alive
  have hshown {d : ℕ} (hd : x.frameCurrentDebugfs = some d) : (x.frames d).isSome = true := by
    obtain ⟨g, hg, -⟩ := h.shaped.debugfs d hd
    rw [hg]
    rfl
  refine ⟨⟨i, hi, hialive⟩, ⟨c, hc, by rw [hframe]; rfl⟩, fun hopen => ?_, fun a => ?_⟩
  · obtain ⟨d, hd⟩ := Option.isSome_iff_exists.mp (h.shaped.opened hopen)
    exact ⟨d, hd, hshown hd⟩
  · rw [h.shaped.streamFrames]
    constructor
    · intro ha
      apply (h.owner a ha).imp_right
      intro hrest
      exact hrest.imp_right fun hd => ⟨h.shown hd, hd⟩
    · rintro (hinit | hal | hd)
      · rw [hi, Option.some.injEq] at hinit
        rw [← hinit]
        exact hialive
      · exact h.shaped.listed.alive a hal
      · exact hshown hd.2

theorem Turning.turned (h : Turning x x' l l' t) (hx : Shaped x l) (hx' : Shaped x' l') :
    Turned x x' t := by
  refine ⟨h.fresh, h.made, h.gone, h.alive, ?_⟩
  rw [hx.streamFrames, hx'.streamFrames]
  exact h.due

def Kept (x : DumpState) (l : List ℕ) (t : Turnover) (o : Option DumpState) : Prop :=
  ∃ x' l', o = some x' ∧ Owned x' l' ∧ Turning x x' l l' t

theorem Owned.kept (h : Owned x' l) (hframes : x'.frames = x.frames) :
    Kept x l ⟨[], []⟩ (some x') :=
  ⟨x', l, rfl, h, .same fun a => by rw [hframes]⟩

theorem Owned.step (h : Owned x l) (hop : proper x op = true) (horder : orderly x op = true) :
    Kept x l (turnover x op) ((Pdumpfs.step x op).map Prod.snd) := by
  cases op with
  | frameSet pid number mem =>
    cases mem with
    | none => exact h.kept rfl
    | some p =>
      have hfree : x.frames p = none := by simpa [proper] using hop
      obtain ⟨x', l', hnew, howned, hturn, -⟩ := frameNew_lives h hfree pid number
      exact ⟨x', l', by rw [Pdumpfs.step, hnew]; rfl, howned, hturn⟩
  | writeData q fromUser =>
    obtain ⟨x', l', hwrite, howned, hturn⟩ := h.write hop horder
    exact ⟨x', l', by rw [Pdumpfs.step, hwrite]; rfl, howned, hturn⟩
  | writeString q =>
    obtain ⟨x', l', hwrite, howned, hturn⟩ := h.write hop horder
    exact ⟨x', l', by rw [Pdumpfs.step, pdumpfsWriteString, hwrite]; rfl, howned, hturn⟩
  | frameCountMaxWrite result => exact (h.frameCountMax result).kept rfl
  | currentOpen => exact h.currentOpen.kept rfl
  | currentRelease =>
    obtain ⟨x', hx', howned, hturn⟩ := h.currentRelease (of_decide_eq_true hop)
    exact ⟨x', l, by rw [Pdumpfs.step, hx']; rfl, howned, hturn⟩
  | streamOpen =>
    apply h.streamOpen.kept
    unfold pdumpfsStreamOpen
    split <;> rfl
  | streamRelease =>
    apply h.streamRelease.kept
    rw [h.shaped.streamRelease.1]
  | llseek offset whence =>
    apply (h.llseek (of_decide_eq_true hop) offset whence).kept
    simp only [pdumpfsStreamLlseek]
    split <;> rfl
  | read size copies =>
    have hopen : x.frameStreamOpenCount ≠ 0 := of_decide_eq_true hop
    obtain ⟨r, streamFPos, hread, hle, hend⟩ := h.read hopen size copies
    have hstep : (Pdumpfs.step x (.read size copies)).map Prod.snd =
        some { x with fPos := r.2.2, streamFPos := streamFPos } := by
      rw [Pdumpfs.step, hread]
      rfl
    rw [hstep]
    exact (h.moveReader hopen hle hend).kept rfl
  | pread size copies pos => cases horder

theorem Owned.fileStep (h : Owned x l) (ho : admitted x o = true) : ∃ t x' l',
    Pdumpfs.fileStep x o = some (t, x') ∧ Owned x' l' ∧ Turning x x' l l' t := by
  cases o with
  | call op =>
    obtain ⟨hop, horder⟩ := Bool.and_eq_true_iff.mp ho
    obtain ⟨x', l', hstep, howned, hturn⟩ := h.step hop horder
    obtain ⟨⟨reply, y⟩, hs, hy⟩ := Option.map_eq_some_iff.mp hstep
    refine ⟨turnover x op, x', l', ?_, howned, hturn⟩
    rw [Pdumpfs.fileStep, hs, ← hy]
    rfl
  | currentRead size copies fPos =>
    obtain ⟨r, hr⟩ := Option.isSome_iff_exists.mp
      (h.currentRead (of_decide_eq_true ho) size copies fPos)
    exact ⟨⟨[], []⟩, x, l, by rw [Pdumpfs.fileStep, hr]; rfl, h, .same fun _ => .rfl⟩

theorem frameDestroyStream_spec (hlist : Listed x l) (hn : l.length < n) : ∃ x',
    frameDestroyStream n x = some (l, x') ∧
      ∀ a, x'.frames a = if a ∈ l then none else x.frames a := by
  induction l generalizing x n with
  | nil =>
    obtain ⟨n, rfl⟩ : ∃ k, n = k + 1 := ⟨n - 1, by omega⟩
    have hnone : x.frameStream = none := hlist.chain
    refine ⟨x, ?_, fun a => by simp⟩
    simp only [frameDestroyStream, hnone]
  | cons p l ih =>
    obtain ⟨n, rfl⟩ : ∃ k, n = k + 1 := ⟨n - 1, by omega⟩
    obtain ⟨frame, hframe, hstream, hrest⟩ := hlist.first
    have hnot := (List.nodup_cons.mp hlist.chain.nodup).1
    let y : DumpState := { frameDestroy { x with frameStream := frame.next } p with
      frameCount := u32Sub x.frameCount 1 }
    have hother (b : ℕ) (hb : b ≠ p) : y.frames b = x.frames b := Function.update_of_ne hb ..
    have hself : y.frames p = none := Function.update_self ..
    have hy : Listed y l := by
      refine ⟨hrest.congr fun b hb => ?_, fun b hb => ?_⟩
      · rw [nextOf, nextOf, hother b fun hbp => hnot (hbp ▸ hb)]
      · rw [hother b fun hbp => hnot (hbp ▸ hb)]
        exact hlist.alive b (List.mem_cons_of_mem p hb)
    rw [List.length_cons] at hn
    obtain ⟨x', hloop, hframes⟩ := ih hy (n := n) (by omega)
    refine ⟨x', ?_, fun a => ?_⟩
    · simp only [frameDestroyStream, hstream, hframe, Option.bind_eq_bind, Option.bind_some]
      change (frameDestroyStream n y).bind _ = _
      rw [hloop]
      rfl
    · rw [hframes a]
      by_cases hap : a = p
      · rw [hap, if_neg hnot, if_pos List.mem_cons_self]
        exact hself
      · by_cases hal : a ∈ l
        · rw [if_pos hal, if_pos (List.mem_cons_of_mem p hal)]
        · rw [if_neg hal, if_neg fun hmem => (List.mem_cons.mp hmem).elim hap hal]
          exact hother a hap

theorem foldl_frameDestroy (x : DumpState) (gone : List ℕ) :
    gone.foldl frameDestroy x =
      { x with frames := fun a => if a ∈ gone then none else x.frames a } := by
  induction gone generalizing x with
  | nil => simp
  | cons p gone ih =>
    rw [List.foldl_cons, ih]
    have hframes : (fun a => if a ∈ gone then none else (frameDestroy x p).frames a) =
        fun a => if a ∈ p :: gone then none else x.frames a := by
      funext a
      by_cases hap : a = p
      · simp [frameDestroy, hap]
      · simp [frameDestroy, hap]
    rw [hframes]
    rfl

theorem Owned.detached (h : Owned x l) : ∃ kept, Pdumpfs.detached x = some kept ∧
    ∀ a, kept = some a ↔ x.frameCurrentDebugfs = some a ∧ ¬(x.frameInit = some a ∨ a ∈ l) := by
  cases hd : x.frameCurrentDebugfs with
  | none =>
    refine ⟨none, by rw [Pdumpfs.detached, hd], fun a => ?_⟩
    simp
  | some d =>
    obtain ⟨frame, hframe, hcases⟩ := h.shaped.debugfs d hd
    have hnext : nextOf x d = frame.next := by rw [nextOf, hframe, Option.bind_some]
    by_cases howned : x.frameInit = some d ∨ d ∈ l
    · refine ⟨none, ?_, fun a => ?_⟩
      · have hcond : some d = x.frameInit ∨ some d = x.frameCurrent ∨ frame.next.isSome = true := by
          refine howned.imp (fun hinit => hinit.symm) fun hdl => ?_
          cases hnone : frame.next with
          | some e => exact .inr rfl
          | none =>
            left
            rw [hnone] at hnext
            rw [h.shaped.current, (h.shaped.listed.chain.next_eq_none_iff hdl).mp hnext]
            rfl
        simp only [Pdumpfs.detached, hd, hframe, Option.bind_eq_bind, Option.bind_some]
        rw [if_pos hcond]
      · constructor
        · intro hnone
          cases hnone
        · intro hboth
          rw [Option.some.injEq] at hboth
          rw [← hboth.1] at hboth
          exact absurd howned hboth.2
    · refine ⟨some d, ?_, fun a => ?_⟩
      · have hcond : ¬(some d = x.frameInit ∨ some d = x.frameCurrent ∨
            frame.next.isSome = true) := by
          rw [not_or] at howned
          rintro (hinit | hcurrent | hsome)
          · exact howned.1 hinit.symm
          · rw [h.shaped.current] at hcurrent
            cases hlast : l.getLast? with
            | none =>
              rw [hlast] at hcurrent
              exact howned.1 hcurrent.symm
            | some e =>
              rw [hlast, Option.some_or, Option.some.injEq] at hcurrent
              rw [hcurrent] at howned
              exact howned.2 (List.mem_of_getLast? hlast)
          · have hnone := (hcases.resolve_left howned.2).resolve_left howned.1
            rw [hnone] at hsome
            cases hsome
        simp only [Pdumpfs.detached, hd, hframe, Option.bind_eq_bind, Option.bind_some]
        rw [if_neg hcond]
      · constructor
        · intro hda
          rw [Option.some.injEq] at hda
          exact ⟨congrArg some hda, hda ▸ howned⟩
        · intro hboth
          exact hboth.1

theorem Owned.frameDestroyAll (h : Owned x l) : ∃ gone x',
    Pdumpfs.frameDestroyAll x = some (gone, x') ∧ gone.Nodup ∧
      (∀ a, a ∈ gone ↔ (x.frames a).isSome = true) ∧ ∀ a, x'.frames a = none := by
  obtain ⟨i, hi, hialive, hil⟩ := h.shaped.init
  obtain ⟨kept, hkept, hkeptiff⟩ := h.detached
  have hmem (a : ℕ) : a ∈ x.frameInit.toList ++ kept.toList ↔
      x.frameInit = some a ∨ kept = some a := by
    rw [List.mem_append, Option.mem_toList, Option.mem_toList]
  let y : DumpState := { (x.frameInit.toList ++ kept.toList).foldl frameDestroy x with
    frameCurrent := none
    frameInit := none
    frameCurrentDebugfs := none }
  have hy : y.frames = fun a => if a ∈ x.frameInit.toList ++ kept.toList then none
      else x.frames a := by
    change ((x.frameInit.toList ++ kept.toList).foldl frameDestroy x).frames = _
    rw [foldl_frameDestroy]
  have hcount : y.frameCount = x.frameCount := by
    change ((x.frameInit.toList ++ kept.toList).foldl frameDestroy x).frameCount = _
    rw [foldl_frameDestroy]
  have hstream : y.frameStream = x.frameStream := by
    change ((x.frameInit.toList ++ kept.toList).foldl frameDestroy x).frameStream = _
    rw [foldl_frameDestroy]
  have hapart (a : ℕ) (ha : a ∈ l) : a ∉ x.frameInit.toList ++ kept.toList := by
    rw [hmem, not_or]
    refine ⟨fun hinit => ?_, fun hka => ((hkeptiff a).mp hka).2 (.inr ha)⟩
    rw [hi, Option.some.injEq] at hinit
    rw [hinit] at hil
    exact hil ha
  have hlist : Listed y l := by
    apply h.shaped.listed.congr hstream
    intro a ha
    rw [hy]
    exact if_neg (hapart a ha)
  obtain ⟨z, hloop, hframes⟩ := frameDestroyStream_spec hlist (n := y.frameCount + 1)
    (by rw [hcount, h.shaped.count]; omega)
  have howned (a : ℕ) : a ∈ x.frameInit.toList ++ kept.toList ++ l ↔
      (x.frames a).isSome = true := by
    rw [List.mem_append, hmem, h.sound.owned a, h.shaped.streamFrames, or_assoc]
    constructor
    · rintro (hinit | hka | hal)
      · exact .inl hinit
      · exact .inr (.inr ⟨h.shown ((hkeptiff a).mp hka).1, ((hkeptiff a).mp hka).1⟩)
      · exact .inr (.inl hal)
    · rintro (hinit | hal | hd)
      · exact .inl hinit
      · exact .inr (.inr hal)
      · by_cases hother : x.frameInit = some a ∨ a ∈ l
        · exact hother.imp_right .inr
        · exact .inr (.inl ((hkeptiff a).mpr ⟨hd.2, hother⟩))
  refine ⟨x.frameInit.toList ++ kept.toList ++ l,
    { z with streamStart := 0, streamFPos := 0, streamEnd := 0 }, ?_, ?_, howned, fun a => ?_⟩
  · simp only [Pdumpfs.frameDestroyAll, hkept, Option.bind_eq_bind, Option.bind_some]
    change (frameDestroyStream (y.frameCount + 1) y).bind _ = _
    rw [hloop]
    rfl
  · rw [List.nodup_append]
    refine ⟨?_, h.shaped.listed.chain.nodup, fun a ha b hb hab => ?_⟩
    · rw [hi]
      cases hk : kept with
      | none => exact List.nodup_singleton i
      | some d =>
        have hdi : i ≠ d := fun hid => ((hkeptiff d).mp hk).2 (.inl (hid ▸ hi))
        simpa using hdi
    · rw [hab] at ha
      exact hapart b hb ha
  · change z.frames a = none
    rw [hframes a]
    by_cases hal : a ∈ l
    · exact if_pos hal
    · rw [if_neg hal, hy]
      by_cases hgone : a ∈ x.frameInit.toList ++ kept.toList
      · exact if_pos hgone
      · have hnone : (x.frames a).isSome ≠ true := fun halive =>
          (List.mem_append.mp ((howned a).mpr halive)).elim hgone hal
        simp only [hgone, if_false]
        simpa using hnone

theorem owned_init (p : ℕ) : Owned (pdumpfsInit p) [] := by
  have hheld := held_init p
  refine ⟨hheld.shaped, hheld.bound, .inl rfl, Int.le_refl 0, fun _ => Int.le_refl 0, fun _ => rfl,
    fun a ha => .inl ?_⟩
  by_cases hap : a = p
  · rw [hap]
    rfl
  · simp [pdumpfsInit, hap] at ha

def madeIn (log : List (FileOp × Turnover)) : List ℕ := log.flatMap fun e => e.2.made

def goneIn (log : List (FileOp × Turnover)) : List ℕ := log.flatMap fun e => e.2.gone

def isLive (x : DumpState) (a : ℕ) : ℕ := if (x.frames a).isSome then 1 else 0

theorem Turning.count (h : Turning x x' l l' t) (a : ℕ) :
    isLive x' a + t.gone.count a = isLive x a + t.made.count a := by
  have halive := h.alive a
  rw [h.gone.count, h.made.count]
  unfold isLive
  by_cases hgone : a ∈ t.gone
  · have hx := (h.due a hgone).1
    have hmade : a ∉ t.made := fun hmade => by
      rw [h.fresh a hmade] at hx
      cases hx
    have hx' : ¬(x'.frames a).isSome = true := fun hx' => (halive.mp hx').2 hgone
    rw [if_neg hx', if_pos hgone, if_pos hx, if_neg hmade]
  · by_cases hmade : a ∈ t.made
    · have hx : ¬(x.frames a).isSome = true := by
        rw [h.fresh a hmade]
        simp
      rw [if_pos (halive.mpr ⟨.inr hmade, hgone⟩), if_neg hgone, if_neg hx, if_pos hmade]
    · by_cases hx : (x.frames a).isSome = true
      · rw [if_pos (halive.mpr ⟨.inl hx, hgone⟩), if_neg hgone, if_pos hx, if_neg hmade]
      · have hx' : ¬(x'.frames a).isSome = true := fun hx' =>
          (halive.mp hx').1.elim hx hmade
        rw [if_neg hx', if_neg hgone, if_neg hx, if_neg hmade]

theorem owned_run (hrun : Run fileStep (fun x o => admitted x o = true) (pdumpfsInit p) log x) :
    (∃ l, Owned x l) ∧
      ∀ a, (p :: madeIn log).count a = (goneIn log).count a + isLive x a := by
  induction hrun with
  | refl =>
    refine ⟨⟨[], owned_init p⟩, fun a => ?_⟩
    by_cases hap : a = p
    · simp [madeIn, goneIn, isLive, pdumpfsInit, hap]
    · have hpa : p ≠ a := fun hpa => hap hpa.symm
      simp [madeIn, goneIn, isLive, pdumpfsInit, hap, hpa]
  | snoc _ ho hs ih =>
    obtain ⟨⟨l, hl⟩, hcount⟩ := ih
    obtain ⟨t, x', l', hstep, howned, hturn⟩ := hl.fileStep ho
    rw [hs, Option.some.injEq, Prod.mk.injEq] at hstep
    rw [hstep.1, hstep.2]
    refine ⟨⟨l', howned⟩, fun a => ?_⟩
    have hold := hcount a
    have hturn' := hturn.count a
    have hmade (m : List (FileOp × Turnover)) (o : FileOp) :
        (madeIn (m ++ [(o, t)])).count a = (madeIn m).count a + t.made.count a := by
      simp [madeIn]
    have hgone (m : List (FileOp × Turnover)) (o : FileOp) :
        (goneIn (m ++ [(o, t)])).count a = (goneIn m).count a + t.gone.count a := by
      simp [goneIn]
    rw [List.count_cons] at hold ⊢
    rw [hmade, hgone]
    omega

/-- In every run the frames that are pointed to are there; each frame that was made was destroyed
    once, unless it still has an owner; each call is answered and destroys what it culls and
    nobody is shown, or what was culled and its last user leaves; and in the end all that are left
    are destroyed once. -/
theorem lived_over_runs
    (hrun : Run fileStep (fun x o => admitted x o = true) (pdumpfsInit p) log x) :
    Sound x ∧ (∀ a, (p :: madeIn log).count a = (goneIn log).count a + isLive x a) ∧
      (∀ o, admitted x o = true → ∃ t x', fileStep x o = some (t, x') ∧ Turned x x' t) ∧
      ∃ gone x', frameDestroyAll x = some (gone, x') ∧ gone.Nodup ∧
        (∀ a, a ∈ gone ↔ (x.frames a).isSome = true) ∧ ∀ a, x'.frames a = none := by
  obtain ⟨⟨l, hl⟩, hcount⟩ := owned_run hrun
  refine ⟨hl.sound, hcount, fun o ho => ?_, hl.frameDestroyAll⟩
  obtain ⟨t, x', l', hstep, howned, hturn⟩ := hl.fileStep ho
  exact ⟨t, x', hstep, hturn.turned hl.shaped howned.shaped⟩

def livesOps : List FileOp :=
  [.call (.frameCountMaxWrite 1), .call (.frameSet 1 1 (some 8192)),
    .call (.writeData (sampleWrite [1, 2, 3] 1) true), .call .currentOpen,
    .call (.frameSet 1 2 (some 12288)), .call .currentOpen, .currentRead 2 1 1,
    .call .streamOpen, .call (.llseek 0 .seekEnd), .call (.frameSet 1 3 (some 16384)),
    .call .currentRelease]

theorem lived_over_sample : ∃ log x, exec fileStep (pdumpfsInit 4096) livesOps = some (log, x) ∧
    Sound x ∧ (∀ a, (4096 :: madeIn log).count a = (goneIn log).count a + isLive x a) ∧
    ∃ t x', fileStep x (.call .currentRelease) = some (t, x') ∧ t.gone = [8192] ∧
      Turned x x' t := by
  have hsome : (exec fileStep (pdumpfsInit 4096) livesOps).map (fun r =>
      (admitted r.2 (.call .currentRelease),
        (fileStep r.2 (.call .currentRelease)).map fun u => u.1.gone)) =
      some (true, some [8192]) := by decide +kernel
  obtain ⟨⟨log, x⟩, hexec, hlook⟩ := Option.map_eq_some_iff.mp hsome
  simp only [Prod.mk.injEq] at hlook
  have hallowed : Allowed fileStep (fun x o => admitted x o = true) (pdumpfsInit 4096) livesOps :=
    allowed_of_allows (by decide +kernel)
  obtain ⟨hsound, hcount, hall, -⟩ := lived_over_runs (Run.of_allowed hexec hallowed)
  obtain ⟨t, x', hstep, hturned⟩ := hall _ hlook.1
  have hgone := hlook.2
  rw [hstep, Option.map_some, Option.some.injEq] at hgone
  exact ⟨log, x, hexec, hsound, hcount, t, x', hstep, hgone, hturned⟩

end PvrServices.Pdumpfs
