import PvrServices.TracePrintRuns
import PvrServices.TraceRuns

set_option autoImplicit false

/-!
# What the trace file shows

A snapshot of the trace buffer is a row of frames whatever was traced before it, so reads of the
trace file show the text of all of them.
-/
namespace PvrServices.Trace
open Memory CircularBuffer Printf Runs
variable {N : ℕ} {mem : ℕ → UInt8} {ofs : ℕ} {gs log : List (List UInt8)}

theorem framesAt_flatten (hmem : copy mem ofs gs.flatten.length = gs.flatten)
    (hgs : ∀ g ∈ gs, WellFormed g ∧ frameType g < trcmdDescCount) :
    FramesAt mem ofs (gs.map List.length) := by
  induction gs generalizing ofs with
  | nil => trivial
  | cons g gs ih =>
    obtain ⟨hg, htype⟩ := hgs g List.mem_cons_self
    have hlen := hg.header
    rw [List.flatten_cons, List.length_append, copy_add] at hmem
    obtain ⟨hhead, hrest⟩ := List.append_inj hmem copy_length
    have hfour : copy mem ofs 4 = g.take 4 := by rw [← hhead, copy_take _ _ hlen]
    have hsize : frameSize (copy mem ofs 4) = g.length := by
      rw [hfour, ← hg.size]
      unfold frameSize
      rw [List.take_take]
      rfl
    have hkind : frameType (copy mem ofs 4) = frameType g := by
      rw [hfour]
      unfold frameType
      rw [List.drop_take, List.take_take]
      rfl
    exact ⟨hsize, hlen, hkind ▸ htype, ih hrest fun f hf => hgs f (List.mem_cons_of_mem _ hf)⟩

theorem shownOf_flatten (groups : List (List (ℕ × List UInt8))) :
    (groups.map shownOf).flatten = shownOf groups.flatten := by
  induction groups with
  | nil => rfl
  | cons qs groups ih =>
    rw [List.map_cons, List.flatten_cons, List.flatten_cons, shownOf_append, ih]

/-- The frames that are left are padding or were recorded by calls with types that there are. -/
theorem types_of_suffix (hsuf : recorded gs <:+ recorded log)
    (hlog : ∀ f ∈ log, frameType f < trcmdDescCount) : ∀ g ∈ gs, frameType g < trcmdDescCount := by
  intro g hg
  by_cases hpad : frameType g = pvrTrcmdPad
  · rw [hpad]
    decide
  · have hmem : g ∈ recorded gs := List.mem_filter.mpr ⟨hg, by simpa using hpad⟩
    exact hlog g (List.mem_filter.mp (hsuf.subset hmem)).1

/-- Whatever was traced, as many reads as there are frames show the text of every frame of the
    snapshot, once and in order, and these are the last ones that were traced. -/
theorem trace_shown_over_runs (bufShift : ℕ) (traced : List Call)
    (hfit : ∀ y ∈ traced, totalSize y.size ≤ pvrTbufSize bufShift - frameHeader)
    (hword : ∀ y ∈ traced, totalSize y.size < 65536)
    (htype : ∀ y ∈ traced, y.type < trcmdDescCount) : ∃ l t gs,
    exec (step (pvrTbufSize bufShift)) tbuf traced = some (l, t) ∧
      createSnapshot (pvrTbufSize bufShift) t = gs.flatten ∧ (∀ g ∈ gs, WellFormed g) ∧
      recorded gs <:+ recorded (l.map fun r => r.2.2) ∧
      ∀ (s : Snapshot) (calls : List (ℕ × Buffer)),
        copy s.mem 0 s.size = createSnapshot (pvrTbufSize bufShift) t →
        (∀ c ∈ calls, longest (framesOf s.mem 0 (gs.map List.length)) + 2 ≤ c.1) →
        gs.length ≤ calls.length → ∃ r, exec (printStep s) 0 calls = some (r, s.size) ∧
          (r.map fun e => e.2.2).flatten = shownOf (framesOf s.mem 0 (gs.map List.length)) := by
  have hN : 0 < pvrTbufSize bufShift := by
    unfold pvrTbufSize
    rw [Nat.one_shiftLeft]
    exact Nat.two_pow_pos _
  obtain ⟨l, t, gs, hrun, v, hsuf, hrec⟩ := exec_framed (pvrTbufSize_aligned bufShift)
    (framed_tbuf hN) traced (fun y hy => by have := hfit y hy; have := y.fits; omega) hword
  rw [List.nil_append] at hsuf
  have hlog : ∀ f ∈ l.map fun r => r.2.2, frameType f < trcmdDescCount := by
    intro f hf
    obtain ⟨r, hr, rfl⟩ := List.mem_map.mp hf
    have hcall : r.1 ∈ traced := by
      rw [exec_zip hrun] at hr
      exact (List.of_mem_zip hr).1
    rw [(hrec r hr).type]
    exact Nat.lt_of_le_of_lt (Nat.mod_le _ _) (htype _ hcall)
  refine ⟨l, t, gs, hrun, v.snapshot, v.wellFormed, hsuf, fun s calls hmem hroom hmany => ?_⟩
  have hsize : (gs.map List.length).sum = s.size := by
    rw [← List.length_flatten, ← v.snapshot, ← hmem, copy_length]
  rw [v.snapshot, ← hsize, ← List.length_flatten] at hmem
  have hframes := framesAt_flatten hmem fun g hg => ⟨v.wellFormed g hg, types_of_suffix hsuf hlog g hg⟩
  obtain ⟨r, groups, ms, hexec, hsplit, -, hsum, htexts, hleft⟩ :=
    hframes.calls (by rw [Nat.zero_add, hsize]) calls hroom
  have hnil : ms = [] := by
    rw [List.length_map] at hleft
    exact List.eq_nil_of_length_eq_zero (by omega)
  rw [hnil, List.sum_nil] at hsum
  rw [hnil] at hsplit
  refine ⟨r, by rw [hexec, ← hsum]; rfl, ?_⟩
  rw [htexts, hsplit, shownOf_flatten]
  exact congrArg shownOf (List.append_nil groups.flatten).symm

theorem trace_shown_of_two_events : ∃ l t gs,
    exec (step (pvrTbufSize 3)) tbuf
      [eventCall 9 0 eventCall_fits, eventCall 10 0 eventCall_fits] = some (l, t) ∧
      createSnapshot (pvrTbufSize 3) t = gs.flatten ∧ (∀ g ∈ gs, WellFormed g) ∧
      recorded gs <:+ recorded (l.map fun r => r.2.2) := by
  obtain ⟨l, t, gs, hexec, hsnap, hwell, hsuf, -⟩ := trace_shown_over_runs 3
    [eventCall 9 0 eventCall_fits, eventCall 10 0 eventCall_fits]
    (by decide +kernel) (by decide +kernel) (by decide +kernel)
  exact ⟨l, t, gs, hexec, hsnap, hwell, hsuf⟩

end PvrServices.Trace
