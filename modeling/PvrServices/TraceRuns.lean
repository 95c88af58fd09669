import PvrServices.TraceFrames

set_option autoImplicit false

/-!
# The trace buffer over its runs

What `pvr_trcmd_alloc` leaves in the buffer, call after call, for buffers of every configured
size.
-/
namespace PvrServices.Trace
open Words Memory CircularBuffer Runs
variable {N size : ℕ} {t t' : TrcmdBuf} {fs gs : List (List UInt8)} {f : List UInt8}

theorem Framed.pad (h8 : 8 ∣ N) (v : Framed N t fs) (hword : N - t.writeIdx < 65536)
    (hfree : fs.flatten.length + (N - t.writeIdx) < N) {data : ℕ → UInt8}
    (hdata : data = store (store t.data t.writeIdx (fieldBytes 2 (N - t.writeIdx)))
      (t.writeIdx + 2) (fieldBytes 2 pvrTrcmdPad)) :
    ∃ p, frameType p = pvrTrcmdPad ∧ Framed N ⟨t.readIdx, 0, data⟩ (fs ++ [p]) := by
  have hlt := v.write_lt
  have hwa := v.write_aligned
  have hroom : 8 ≤ N - t.writeIdx := Nat.le_of_dvd (by omega) (Nat.dvd_sub h8 hwa)
  have hsize : copy data t.writeIdx 2 = fieldBytes 2 (N - t.writeIdx) := by
    rw [hdata, copy_store_out _ (by omega), copy_field]
  have htype : copy data (t.writeIdx + 2) 2 = fieldBytes 2 pvrTrcmdPad := by
    rw [hdata, copy_field]
  have hpl : (copy data t.writeIdx (N - t.writeIdx)).length = N - t.writeIdx := copy_length
  have hp : WellFormed (copy data t.writeIdx (N - t.writeIdx)) :=
    { header := by omega
      aligned := by rw [hpl]; exact Nat.dvd_sub h8 hwa
      size := by
        unfold frameSize
        rw [copy_take _ _ (by omega), hsize, fieldValue_fieldBytes, hpl]
        exact Nat.mod_eq_of_lt hword }
  have hend : t.writeIdx + (N - t.writeIdx) = N := by omega
  have h := v.append h8 hp (by omega) (by omega) data (by rw [hpl])
    (by
      intro j hj
      rw [hdata, store_out (by simp; omega), store_out (by simp; omega)])
  rw [hpl, hend, Nat.mod_self] at h
  apply Exists.intro _
  apply And.intro _ h
  unfold frameType
  rw [copy_drop _ _ (by omega), copy_take _ _ (by omega), htype, fieldValue_fieldBytes]
  rfl

/-- The loop ends, and what it drops are the oldest frames and its own padding. -/
theorem getSpaceLoop_spec (h8 : 8 ∣ N) (hpos : 0 < size) (hfit : size + frameHeader ≤ N)
    (hword : size < 65536) (fuel : ℕ) (v : Framed N t fs)
    (hfuel : fs.length + (if N - t.writeIdx < size then 2 else 0) < fuel) :
    ∃ t' gs, getSpaceLoop N size fuel t =
        some (t'.writeIdx, { t' with writeIdx := (t'.writeIdx + size) % N }) ∧
      Framed N t' gs ∧ t'.writeIdx + size ≤ N ∧ gs.flatten.length + size < N ∧
      recorded gs <:+ recorded fs := by
  induction fuel generalizing t fs with
  | zero => omega
  | succ fuel ih =>
    have hused := v.used_lt
    unfold getSpaceLoop
    rw [v.free]
    by_cases hfull : N - 1 - fs.flatten.length < size
    · rw [if_pos hfull]
      cases fs with
      | nil =>
        have : N - 1 < size := by simpa using hfull
        unfold frameHeader at hfit
        omega
      | cons f fs =>
        have hlen : (f :: fs).length = fs.length + 1 := rfl
        obtain ⟨t', gs, hrun, v', hroom, hgs, hsuf⟩ := ih (v.discard h8) (by dsimp only; omega)
        have hdrop : recorded fs <:+ recorded (f :: fs) :=
          (List.suffix_cons f fs).filter _
        exact ⟨t', gs, hrun, v', hroom, hgs, hsuf.trans hdrop⟩
    · rw [if_neg hfull]
      by_cases htail : N - t.writeIdx < size
      · rw [if_pos htail]
        rw [if_pos htail] at hfuel
        have hlt := v.write_lt
        have hwrap := v.wrap
        obtain ⟨p, hpad, v'⟩ := v.pad h8 (by omega) (by omega) rfl
        have hzero : ¬ N - 0 < size := by omega
        have hlen : (fs ++ [p]).length = fs.length + 1 := by simp
        obtain ⟨t', gs, hrun, v', hroom, hgs, hsuf⟩ := ih v' (by
          dsimp only
          rw [if_neg hzero]
          omega)
        have hsame : recorded (fs ++ [p]) = recorded fs := by
          rw [recorded_append]
          simp [recorded, hpad]
        rw [hsame] at hsuf
        exact ⟨t', gs, hrun, v', hroom, hgs, hsuf⟩
      · rw [if_neg htail, tbufIdxAdd_nat]
        have hlt := v.write_lt
        exact ⟨t, fs, rfl, v, by omega, by omega, List.suffix_rfl⟩

/-- The frame holds what the call was made with; what the caller did not store is left over. -/
structure Records (x : Call) (f : List UInt8) : Prop where
  length : f.length = totalSize x.size
  type : frameType f = x.type % 65536
  pid : framePid f = x.pid % 4294967296
  time : frameTime f = x.time % 18446744073709551616
  pname : framePname f = (x.pname.takeWhile (· ≠ 0)).take 15
  payload : x.fill <+: framePayload f

def written (x : Call) (w : ℕ) (data : ℕ → UInt8) : ℕ → UInt8 :=
  let data := store data w (fieldBytes 2 (totalSize x.size))
  let data := store data (w + 2) (fieldBytes 2 x.type)
  let data := store data (w + 4) (fieldBytes 4 x.pid)
  let data := store data (w + 8) (fieldBytes 8 x.time)
  let data := store data (w + 16) (strlcpyBytes x.pname)
  store data (w + frameHeader) x.fill

theorem strlcpyBytes_length (s : List UInt8) : (strlcpyBytes s).length ≤ 16 := by
  simp only [strlcpyBytes, List.length_append, List.length_take, List.length_singleton]
  omega

theorem written_out (x : Call) (w : ℕ) (data : ℕ → UInt8) {j : ℕ}
    (h : j < w ∨ w + totalSize x.size ≤ j) : written x w data j = data j := by
  have hfits := x.fits
  have hname := strlcpyBytes_length x.pname
  unfold frameHeader at hfits
  unfold written frameHeader
  rw [store_out (by omega), store_out (by omega), store_out (by simp; omega),
    store_out (by simp; omega), store_out (by simp; omega), store_out (by simp; omega)]

theorem written_size (x : Call) (w : ℕ) (data : ℕ → UInt8) :
    frameSize (copy (written x w data) w (totalSize x.size)) = totalSize x.size % 65536 := by
  have hfits := x.fits
  unfold frameHeader at hfits
  unfold frameSize
  rw [copy_take _ _ (by omega)]
  unfold written frameHeader
  simp only
  rw [copy_store_out _ (by omega), copy_store_out _ (by omega), copy_store_out _ (by omega),
    copy_store_out _ (by omega), copy_store_out _ (by omega), copy_field, fieldValue_fieldBytes]
  rfl

theorem written_records (x : Call) (w : ℕ) (data : ℕ → UInt8) :
    Records x (copy (written x w data) w (totalSize x.size)) := by
  have hfits := x.fits
  have hname := strlcpyBytes_length x.pname
  unfold frameHeader at hfits
  constructor
  case length => exact copy_length
  case type =>
    unfold frameType
    rw [copy_drop _ _ (by omega), copy_take _ _ (by omega)]
    unfold written frameHeader
    simp only
    rw [copy_store_out _ (by omega), copy_store_out _ (by omega), copy_store_out _ (by omega),
      copy_store_out _ (by omega), copy_field, fieldValue_fieldBytes]
    rfl
  case pid =>
    unfold framePid
    rw [copy_drop _ _ (by omega), copy_take _ _ (by omega)]
    unfold written frameHeader
    simp only
    rw [copy_store_out _ (by omega), copy_store_out _ (by omega), copy_store_out _ (by omega),
      copy_field, fieldValue_fieldBytes]
    rfl
  case time =>
    unfold frameTime
    rw [copy_drop _ _ (by omega), copy_take _ _ (by omega)]
    unfold written frameHeader
    simp only
    rw [copy_store_out _ (by omega), copy_store_out _ (by omega), copy_field,
      fieldValue_fieldBytes]
    rfl
  case pname =>
    unfold framePname
    rw [copy_drop _ _ (by omega), copy_take _ _ (by omega)]
    unfold written frameHeader
    simp only
    have hlen : 16 = (strlcpyBytes x.pname).length + (16 - (strlcpyBytes x.pname).length) := by
      omega
    rw [copy_store_out _ (by omega), hlen, copy_add, ← hlen, copy_store]
    unfold strlcpyBytes
    rw [List.append_assoc, List.takeWhile_append_of_pos]
    · simp
    · intro b hb
      exact List.mem_takeWhile_imp (p := fun b => decide (b ≠ 0)) (List.mem_of_mem_take hb)
  case payload =>
    unfold framePayload
    unfold frameHeader
    rw [copy_drop _ _ (by omega)]
    have hlen : totalSize x.size - 32 =
        x.fill.length + (totalSize x.size - 32 - x.fill.length) := by omega
    rw [hlen, copy_add]
    unfold written frameHeader
    simp only
    rw [copy_store]
    exact List.prefix_append _ _

theorem totalSize_aligned (n : ℕ) : 8 ∣ totalSize n := by
  unfold totalSize alignSize frameHeader
  rw [u32_eq_mod]
  omega

/-- Every step returns, and its frame is the last one in the buffer. -/
theorem step_spec (h8 : 8 ∣ N) (v : Framed N t fs) (x : Call)
    (hfit : totalSize x.size + frameHeader ≤ N) (hword : totalSize x.size < 65536) :
    ∃ w f t' gs, step N t x = some ((w + frameHeader, f), t') ∧ Framed N t' (gs ++ [f]) ∧
      recorded gs <:+ recorded fs ∧ Records x f ∧ w + f.length ≤ N ∧
      copy t'.data w f.length = f ∧ (t'.readIdx + gs.flatten.length) % N = w := by
  have hfits := x.fits
  have hcount := v.count
  have hused := v.used_lt
  unfold frameHeader at hfits hfit
  have hfuel : fs.length + (if N - t.writeIdx < totalSize x.size then 2 else 0) < N := by
    split <;> omega
  obtain ⟨s, gs, hrun, vs, hroom, hfree, hsuf⟩ :=
    getSpaceLoop_spec h8 (by omega) hfit hword N v hfuel
  have hlen : (copy (written x s.writeIdx s.data) s.writeIdx (totalSize x.size)).length =
      totalSize x.size := copy_length
  have hf : WellFormed (copy (written x s.writeIdx s.data) s.writeIdx (totalSize x.size)) :=
    { header := by omega
      aligned := by rw [hlen]; exact totalSize_aligned _
      size := by rw [written_size, hlen, Nat.mod_eq_of_lt hword] }
  have vf := vs.append h8 hf (by omega) (by omega) (written x s.writeIdx s.data)
    (by rw [hlen]) (fun j hj => written_out x s.writeIdx s.data (by omega))
  rw [hlen] at vf
  have hstep : step N t x = some ((s.writeIdx + frameHeader,
      copy (written x s.writeIdx s.data) s.writeIdx (totalSize x.size)),
      ⟨s.readIdx, (s.writeIdx + totalSize x.size) % N, written x s.writeIdx s.data⟩) := by
    unfold step pvrTrcmdAlloc tbufGetSpace
    rw [hrun]
    rfl
  exact ⟨_, _, _, gs, hstep, vf, hsuf, written_records x _ _, by omega, by rw [hlen],
    vs.write_eq⟩

/-- What is known of the buffer `t` after a call that returned the payload behind the header of
    `f`, at `w`; `log` are the frames of all calls so far. -/
structure Retains (N : ℕ) (log : List (List UInt8)) (w : ℕ) (f : List UInt8) (t : TrcmdBuf)
    (gs : List (List UInt8)) : Prop where
  snapshot : createSnapshot N t = (gs ++ [f]).flatten
  wellFormed : ∀ g ∈ gs ++ [f], WellFormed g
  suffix : recorded (gs ++ [f]) <:+ recorded log
  contiguous : w + f.length ≤ N ∧ copy t.data w f.length = f
  write : t.writeIdx = (w + f.length) % N
  apart : ∀ j, j < gs.flatten.length →
    (t.readIdx + j) % N < w ∨ w + f.length ≤ (t.readIdx + j) % N

theorem exec_framed (h8 : 8 ∣ N) (v : Framed N t fs) (calls : List Call)
    (hfit : ∀ x ∈ calls, totalSize x.size + frameHeader ≤ N)
    (hword : ∀ x ∈ calls, totalSize x.size < 65536) :
    ∃ l t' gs, exec (step N) t calls = some (l, t') ∧ Framed N t' gs ∧
      recorded gs <:+ recorded (fs ++ l.map fun r => r.2.2) ∧ ∀ r ∈ l, Records r.1 r.2.2 := by
  induction calls generalizing t fs with
  | nil =>
    exact ⟨[], t, fs, rfl, v, by simp, by simp⟩
  | cons x calls ih =>
    obtain ⟨w, f, s, hs, hstep, vs, hsuf, hrec, -, -, -⟩ :=
      step_spec h8 v x (hfit x (by simp)) (hword x (by simp))
    obtain ⟨l, t', gs, hrun, v', hsuf', hall⟩ :=
      ih vs (fun y hy => hfit y (by simp [hy])) (fun y hy => hword y (by simp [hy]))
    refine ⟨_, t', gs, exec_cons hstep hrun, v', hsuf'.trans ?_, ?_⟩
    · rw [recorded_append, recorded_append, List.map_cons, List.append_cons, recorded_append,
        recorded_append, List.append_assoc, List.append_assoc]
      obtain ⟨old, hold⟩ := hsuf
      exact ⟨old, by rw [← List.append_assoc, hold]⟩
    · intro r hr
      rcases List.mem_cons.mp hr with rfl | hr
      · exact hrec
      · exact hall r hr

theorem pvrTbufSize_aligned (bufShift : ℕ) : 8 ∣ pvrTbufSize bufShift := by
  unfold pvrTbufSize
  rw [Nat.one_shiftLeft, Nat.pow_add]
  exact Nat.dvd_mul_left_of_dvd (by decide) _

/-- In a buffer of any size, as long as the frames' sizes fit their 16 bits. -/
theorem trace_framed_over_runs (bufShift : ℕ) (calls : List Call) (x : Call)
    (hfit : ∀ y ∈ calls ++ [x], totalSize y.size ≤ pvrTbufSize bufShift - frameHeader)
    (hword : ∀ y ∈ calls ++ [x], totalSize y.size < 65536) :
    ∃ l t w f u gs, exec (step (pvrTbufSize bufShift)) tbuf calls = some (l, t) ∧
      step (pvrTbufSize bufShift) t x = some ((w + frameHeader, f), u) ∧
      Retains (pvrTbufSize bufShift) ((l.map fun r => r.2.2) ++ [f]) w f u gs ∧
      ∀ r ∈ l ++ [(x, (w + frameHeader, f))], Records r.1 r.2.2 := by
  have h8 := pvrTbufSize_aligned bufShift
  have hlarge : frameHeader ≤ pvrTbufSize bufShift := by
    unfold pvrTbufSize frameHeader
    rw [Nat.one_shiftLeft, Nat.pow_add]
    have := Nat.one_le_two_pow (n := bufShift)
    omega
  generalize pvrTbufSize bufShift = N at *
  have hN : 0 < N := Nat.lt_of_lt_of_le (by decide) hlarge
  have hfit' (y : Call) (hy : y ∈ calls ++ [x]) : totalSize y.size + frameHeader ≤ N := by
    have := hfit y hy
    omega
  obtain ⟨l, t, fs, hrun, v, hsuf, hall⟩ := exec_framed h8 (framed_tbuf hN) calls
    (fun y hy => hfit' y (by simp [hy])) (fun y hy => hword y (by simp [hy]))
  obtain ⟨w, f, u, gs, hstep, v', hsuf', hrec, hroom, hcopy, hw⟩ :=
    step_spec h8 v x (hfit' x (by simp)) (hword x (by simp))
  have hlen : (gs ++ [f]).flatten.length = gs.flatten.length + f.length := by simp
  have hused := v'.used_lt
  have hretains : Retains N ((l.map fun r => r.2.2) ++ [f]) w f u gs :=
    { snapshot := v'.snapshot
      wellFormed := v'.wellFormed
      suffix := by
        obtain ⟨old, hold⟩ := hsuf'.trans hsuf
        rw [List.nil_append] at hold
        rw [recorded_append, recorded_append]
        exact ⟨old, by rw [← List.append_assoc, hold]⟩
      contiguous := ⟨hroom, hcopy⟩
      write := by
        rw [← v'.write_eq, hlen, ← Nat.add_assoc, ← Nat.mod_add_mod, hw]
      apart := by
        intro j hj
        by_contra hin
        have hoff : (u.readIdx + j) % N = w + ((u.readIdx + j) % N - w) := by omega
        exact window_apart hw hroom (by omega) hj (by omega) hoff }
  refine ⟨l, t, w, f, u, gs, hrun, hstep, hretains, ?_⟩
  intro r hr
  rcases List.mem_append.mp hr with hr | hr
  · exact hall r hr
  · rw [List.mem_singleton.mp hr]
    exact hrec

def eventCall (type size : ℕ) (h : frameHeader ≤ totalSize size) : Call :=
  ⟨type, 1, [112, 118, 114], size, 0, [], h⟩

theorem eventCall_fits : frameHeader ≤ totalSize 0 := by decide +kernel

theorem trace_framed_over_sample : ∃ l t w f u gs,
    exec (step (pvrTbufSize 3)) tbuf [eventCall 9 0 eventCall_fits] = some (l, t) ∧
      step (pvrTbufSize 3) t (eventCall 10 0 eventCall_fits) = some ((w + frameHeader, f), u) ∧
      Retains (pvrTbufSize 3) ((l.map fun r => r.2.2) ++ [f]) w f u gs ∧
      ∀ r ∈ l ++ [(eventCall 10 0 eventCall_fits, (w + frameHeader, f))], Records r.1 r.2.2 :=
  trace_framed_over_runs 3 [eventCall 9 0 eventCall_fits] (eventCall 10 0 eventCall_fits)
    (by decide +kernel) (by decide +kernel)

theorem hugeCall_fits : frameHeader ≤ totalSize 65504 := by decide +kernel

/-- A frame of 64 KiB has the size 0 in its header, and no walk over the buffer passes it. -/
theorem huge_frame_not_framed :
    totalSize (eventCall 1 65504 hugeCall_fits).size ≤ pvrTbufSize 5 - frameHeader ∧
    ∃ r t, step (pvrTbufSize 5) tbuf (eventCall 1 65504 hugeCall_fits) = some (r, t) ∧
      ¬ ∃ gs : List (List UInt8), createSnapshot (pvrTbufSize 5) t = gs.flatten ∧
        ∀ g ∈ gs, WellFormed g := by
  have hrun : (step (pvrTbufSize 5) tbuf (eventCall 1 65504 hugeCall_fits)).map
      (fun r => (r.2.readIdx, r.2.writeIdx, r.2.data 0, r.2.data 1)) = some (0, 65536, 0, 0) := by
    decide +kernel
  obtain ⟨⟨r, t⟩, h, he⟩ := Option.map_eq_some_iff.mp hrun
  simp only [Prod.mk.injEq] at he
  obtain ⟨hread, hwrite, h0, h1⟩ := he
  refine ⟨by decide +kernel, r, t, h, ?_⟩
  rintro ⟨gs, hsnap, hgs⟩
  have hsize : tbufIdxAdd (pvrTbufSize 5) (65536 : ℕ) (-(0 : ℕ)) = 65536 := by decide +kernel
  have htail : min 65536 (pvrTbufSize 5 - 0) = 65536 := by decide +kernel
  have hbytes : gs.flatten = copy t.data 0 2 ++ copy t.data 2 65534 := by
    rw [← hsnap]
    unfold createSnapshot
    rw [hread, hwrite, hsize]
    dsimp only
    rw [htail, Nat.sub_self, show copy t.data 0 0 = [] from rfl,
      List.append_nil]
    exact copy_add t.data 0 2 65534
  cases gs with
  | nil =>
    have := congrArg List.length hbytes
    simp at this
  | cons g gs =>
    have hg := hgs g (by simp)
    have hhead : g.take 2 = copy t.data 0 2 := by
      have := congrArg (List.take 2) hbytes
      rwa [List.flatten_cons, List.take_append_of_le_length (by have := hg.header; omega),
        List.take_left' copy_length] at this
    have hzero : frameSize g = 0 := by
      unfold frameSize
      rw [hhead]
      simp [copy, List.range_succ, fieldValue, h0, h1]
    have := hg.header
    have := hg.size
    omega

end PvrServices.Trace
