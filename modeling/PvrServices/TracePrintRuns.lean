import PvrServices.Runs
import PvrServices.TracePrint

set_option autoImplicit false

/-!
# Reading the trace

Printing calls that share an offset, and the read of the trace file, which prints into a page.
-/
namespace PvrServices.Trace
open Memory Printf Runs
variable {mem : ℕ → UInt8} {rest ofs dstSize dstLen n count : ℕ} {x : Buffer} {s : Snapshot}
  {ns : List ℕ} {ps qs us : List (ℕ × List UInt8)}

theorem shownOf_append (ps qs : List (ℕ × List UInt8)) :
    shownOf (ps ++ qs) = shownOf ps ++ shownOf qs := List.flatMap_append

theorem sizeOf_append (ps qs : List (ℕ × List UInt8)) :
    sizeOf (ps ++ qs) = sizeOf ps + sizeOf qs := by
  simp [sizeOf]

theorem fitting_begins (dstSize dstLen : ℕ) (ps : List (ℕ × List UInt8)) :
    fitting dstSize dstLen ps <+: ps := by
  induction ps generalizing dstLen with
  | nil => exact List.nil_prefix
  | cons p ps ih =>
    rw [fitting]
    split
    · exact List.nil_prefix
    · exact (List.prefix_cons_inj p).mpr (ih _)

theorem fitting_room (dstLen : ℕ) (ps : List (ℕ × List UInt8)) (h : dstLen + 1 < dstSize) :
    dstLen + (shownOf (fitting dstSize dstLen ps)).length + 1 < dstSize := by
  induction ps generalizing dstLen with
  | nil => exact h
  | cons p ps ih =>
    rw [fitting]
    split
    · exact h
    · rename_i hroom
      have hrest := ih (dstLen + p.2.length) (by omega)
      rw [shownOf_cons_length]
      omega

theorem fitting_most (h : us <+: ps) (hroom : dstLen + (shownOf us).length + 1 < dstSize) :
    us <+: fitting dstSize dstLen ps := by
  induction ps generalizing dstLen us with
  | nil =>
    rw [List.prefix_nil.mp h]
    exact List.nil_prefix
  | cons p ps ih =>
    cases us with
    | nil => exact List.nil_prefix
    | cons u us =>
      obtain ⟨hup, hus⟩ := List.cons_prefix_cons.mp h
      rw [hup] at hroom ⊢
      rw [shownOf_cons_length] at hroom
      rw [fitting, if_neg (by omega)]
      exact (List.prefix_cons_inj p).mpr (ih hus (by omega))

theorem fitting_cut (h : fitting dstSize dstLen ps ≠ ps) :
    dstSize ≤ dstLen + (shownOf ps).length + 1 := by
  by_contra hroom
  apply h
  exact List.IsPrefix.eq_of_length_le (fitting_begins _ _ _)
    (fitting_most (List.prefix_refl ps) (by omega)).length_le

theorem shownOf_le (h : us <+: ps) : (shownOf us).length ≤ (shownOf ps).length := by
  obtain ⟨vs, hvs⟩ := h
  rw [← hvs, shownOf_append, List.length_append]
  omega

theorem pvrTrcmdPrint_printed (s : Snapshot) (ofs : ℕ) (x : Buffer) (h : 1 < dstSize) :
    Printed dstSize 0 ofs x (pending s.mem (s.size - ofs) ofs)
      (fitting dstSize 0 (pending s.mem (s.size - ofs) ofs)) (pvrTrcmdPrint dstSize s ofs x) := by
  unfold pvrTrcmdPrint
  by_cases hend : s.size ≤ ofs
  · have hnone : pending s.mem (s.size - ofs) ofs = [] := by
      have hnot : ¬walks s.mem (s.size - ofs) ofs = true := by
        rw [walks_iff]
        omega
      rw [pending, dif_neg hnot]
    rw [if_pos hend, hnone]
    exact ⟨rfl, rfl, rfl, Nat.le_refl _, Nat.le_max_left _ _, fun hne => absurd rfl hne,
      fun _ => Nat.le_max_left _ _, fun hpos => absurd hpos (Nat.lt_irrefl 0)⟩
  · rw [if_neg hend]
    exact printLoop_printed s.mem _ 0 ofs x h

/-- Frames of these sizes, each of a type that there is, stand one behind the other. -/
def FramesAt (mem : ℕ → UInt8) : ℕ → List ℕ → Prop
  | _, [] => True
  | ofs, n :: ns => frameSize (copy mem ofs 4) = n ∧ 4 ≤ n ∧
      frameType (copy mem ofs 4) < trcmdDescCount ∧ FramesAt mem (ofs + n) ns

instance (mem : ℕ → UInt8) (ofs : ℕ) (ns : List ℕ) : Decidable (FramesAt mem ofs ns) :=
  match ns with
  | [] => inferInstanceAs (Decidable True)
  | n :: ns =>
    have : Decidable (FramesAt mem (ofs + n) ns) := instDecidableFramesAt mem (ofs + n) ns
    inferInstanceAs (Decidable (_ ∧ _ ∧ _ ∧ _))

def framesOf (mem : ℕ → UInt8) : ℕ → List ℕ → List (ℕ × List UInt8)
  | _, [] => []
  | ofs, n :: ns => (n, shown mem ofs) :: framesOf mem (ofs + n) ns

structure Complete (s : Snapshot) (ns : List ℕ) : Prop where
  frames : FramesAt s.mem 0 ns
  size : ns.sum = s.size

def longest (ps : List (ℕ × List UInt8)) : ℕ := (ps.map fun p => p.2.length).foldr max 0

/-- A call with a destination of a size: what it returns and prints, and the offset. -/
def printStep (s : Snapshot) (ofs : ℕ) (c : ℕ × Buffer) : Option ((ℕ × List UInt8) × ℕ) :=
  let r := pvrTrcmdPrint c.1 s ofs c.2
  some ((r.1.1, copy r.2.bytes 0 r.1.1), r.1.2)

theorem le_longest {p : ℕ × List UInt8} (h : p ∈ ps) : p.2.length ≤ longest ps := by
  induction ps with
  | nil => cases h
  | cons q ps ih =>
    unfold longest
    rw [List.map_cons, List.foldr_cons]
    cases List.mem_cons.mp h with
    | inl heq =>
      rw [heq]
      exact Nat.le_max_left _ _
    | inr hin => exact Nat.le_trans (ih hin) (Nat.le_max_right _ _)

theorem framesOf_length (mem : ℕ → UInt8) (ofs : ℕ) (ns : List ℕ) :
    (framesOf mem ofs ns).length = ns.length := by
  induction ns generalizing ofs with
  | nil => rfl
  | cons n ns ih => rw [framesOf, List.length_cons, List.length_cons, ih]

theorem FramesAt.pending_eq (h : FramesAt mem ofs ns) :
    pending mem ns.sum ofs = framesOf mem ofs ns := by
  induction ns generalizing ofs with
  | nil =>
    rw [pending, dif_neg (by rw [walks_iff]; simp)]
    rfl
  | cons n ns ih =>
    obtain ⟨hsize, hfour, htype, hrest⟩ := h
    have hwalks : walks mem (n :: ns).sum ofs = true := by
      rw [walks_iff, List.sum_cons]
      omega
    rw [pending, dif_pos hwalks, hsize, List.sum_cons, Nat.add_sub_cancel_left, ih hrest]
    rfl

theorem FramesAt.split (h : FramesAt mem ofs ns) (hqs : framesOf mem ofs ns = qs ++ us) :
    ∃ ms, FramesAt mem (ofs + sizeOf qs) ms ∧ us = framesOf mem (ofs + sizeOf qs) ms ∧
      ns.sum = sizeOf qs + ms.sum := by
  induction qs generalizing ofs ns with
  | nil =>
    exact ⟨ns, h, hqs.symm, (Nat.zero_add _).symm⟩
  | cons q qs ih =>
    cases ns with
    | nil => cases hqs
    | cons n ns =>
      rw [framesOf, List.cons_append, List.cons.injEq] at hqs
      obtain ⟨ms, hms, hus, hsum⟩ := ih h.2.2.2 hqs.2
      have hadd : sizeOf (q :: qs) = n + sizeOf qs := by
        rw [← hqs.1]
        rfl
      rw [hadd, ← Nat.add_assoc, List.sum_cons]
      exact ⟨ms, hms, hus, by omega⟩

/-- One call prints some of the frames, and all that shows nothing or is left to the end if it
    returns 0. -/
theorem FramesAt.call (h : FramesAt s.mem ofs ns) (hsize : ofs + ns.sum = s.size)
    (hroom : longest (framesOf s.mem ofs ns) + 2 ≤ dstSize) (x : Buffer) :
    ∃ qs ms, framesOf s.mem ofs ns = qs ++ framesOf s.mem (ofs + sizeOf qs) ms ∧
      FramesAt s.mem (ofs + sizeOf qs) ms ∧ ofs + sizeOf qs + ms.sum = s.size ∧
      printStep s ofs (dstSize, x) =
        some (((shownOf qs).length, shownOf qs), ofs + sizeOf qs) ∧
      (ns ≠ [] → qs ≠ []) ∧ (shownOf qs = [] → ms = []) := by
  have hpending : pending s.mem (s.size - ofs) ofs = framesOf s.mem ofs ns := by
    rw [← hsize, Nat.add_sub_cancel_left, h.pending_eq]
  have hprinted := pvrTrcmdPrint_printed s ofs x (show 1 < dstSize by omega)
  rw [hpending] at hprinted
  obtain ⟨us, hus⟩ := fitting_begins dstSize 0 (framesOf s.mem ofs ns)
  generalize hqs : fitting dstSize 0 (framesOf s.mem ofs ns) = qs at hprinted hus
  obtain ⟨ms, hms, hrest, hsum⟩ := h.split hus.symm
  have hlength := hprinted.length
  have hbytes := hprinted.bytes
  rw [Nat.zero_add] at hlength
  refine ⟨qs, ms, ?_, hms, by omega, ?_, fun hne hnil => ?_, fun hnone => ?_⟩
  · rw [← hus, hrest]
  · have hempty : copy x.bytes 0 0 = [] := rfl
    unfold printStep
    dsimp only
    rw [hbytes, hprinted.offset, hlength, hempty, List.nil_append]
  · -- the first frame always fits
    cases ns with
    | nil => exact hne rfl
    | cons n ns =>
      have hfirst : (shown s.mem ofs).length ≤ longest (framesOf s.mem ofs (n :: ns)) :=
        le_longest (p := (n, shown s.mem ofs)) List.mem_cons_self
      rw [framesOf, fitting, if_neg (by dsimp only; omega), hnil] at hqs
      cases hqs
  · -- and so does the first one behind frames that show nothing
    cases hms' : ms with
    | nil => rfl
    | cons m ms' =>
      exfalso
      rw [hms', framesOf] at hrest
      have hmem : (m, shown s.mem (ofs + sizeOf qs)) ∈ framesOf s.mem ofs ns := by
        rw [← hus, hrest]
        exact List.mem_append_right _ List.mem_cons_self
      have hnext := le_longest hmem
      dsimp only at hnext
      have hmore : qs ++ [(m, shown s.mem (ofs + sizeOf qs))] <+:
          fitting dstSize 0 (framesOf s.mem ofs ns) := by
        apply fitting_most
        · rw [← hus, hrest]
          exact (List.prefix_append_right_inj _).mpr (by simp)
        · rw [shownOf_append, hnone, List.nil_append]
          simp only [shownOf, List.flatMap_cons, List.flatMap_nil, List.append_nil]
          omega
      rw [hqs] at hmore
      have hlen := hmore.length_le
      rw [List.length_append, List.length_singleton] at hlen
      omega

theorem longest_append_le (ps qs : List (ℕ × List UInt8)) : longest qs ≤ longest (ps ++ qs) := by
  induction ps with
  | nil => exact Nat.le_refl _
  | cons p ps ih =>
    unfold longest at ih ⊢
    rw [List.cons_append, List.map_cons, List.foldr_cons]
    omega

theorem FramesAt.calls (h : FramesAt s.mem ofs ns) (hsize : ofs + ns.sum = s.size)
    (calls : List (ℕ × Buffer))
    (hroom : ∀ c ∈ calls, longest (framesOf s.mem ofs ns) + 2 ≤ c.1) :
    ∃ (l : _) (groups : List (List (ℕ × List UInt8))) (ms : List ℕ),
      exec (printStep s) ofs calls = some (l, ofs + sizeOf groups.flatten) ∧
      framesOf s.mem ofs ns = groups.flatten ++ framesOf s.mem (ofs + sizeOf groups.flatten) ms ∧
      FramesAt s.mem (ofs + sizeOf groups.flatten) ms ∧
      ofs + sizeOf groups.flatten + ms.sum = s.size ∧
      l.map (fun e => e.2.2) = groups.map shownOf ∧ ms.length ≤ ns.length - calls.length := by
  induction calls generalizing ofs ns with
  | nil =>
    exact ⟨[], [], ns, rfl, rfl, h, hsize, rfl, Nat.le_refl _⟩
  | cons c calls ih =>
    obtain ⟨qs, ms, hframes, hms, hsum, hstep, hsome, -⟩ :=
      h.call hsize (hroom c List.mem_cons_self) c.2
    have hless : ms.length ≤ ns.length - 1 := by
      have hlen := congrArg List.length hframes
      rw [framesOf_length, List.length_append, framesOf_length] at hlen
      cases ns with
      | nil =>
        rw [List.length_nil] at hlen ⊢
        omega
      | cons n ns =>
        have hpos := List.length_pos_iff.mpr (hsome (List.cons_ne_nil n ns))
        omega
    obtain ⟨l, groups, ks, hexec, hrest, hks, hend, htexts, hleft⟩ := ih hms hsum fun c' hc' => by
      have hle := longest_append_le qs (framesOf s.mem (ofs + sizeOf qs) ms)
      rw [← hframes] at hle
      have hc := hroom c' (List.mem_cons_of_mem _ hc')
      omega
    have hoffset : ofs + sizeOf (qs :: groups).flatten = ofs + sizeOf qs + sizeOf groups.flatten := by
      rw [List.flatten_cons, sizeOf_append, Nat.add_assoc]
    refine ⟨(c, ((shownOf qs).length, shownOf qs)) :: l, qs :: groups, ks, ?_, ?_, ?_, ?_, ?_, ?_⟩
    · rw [hoffset]
      exact exec_cons hstep hexec
    · rw [hoffset, List.flatten_cons, List.append_assoc, ← hrest]
      exact hframes
    · rw [hoffset]
      exact hks
    · rw [hoffset]
      exact hend
    · rw [List.map_cons, List.map_cons, htexts]
    · rw [List.length_cons]
      omega

/-- Calls with room for the longest text print the frames whole, once and in order, all of them if
    there are enough calls. A call that returns 0 leaves nothing, and then all return 0. -/
theorem frames_printed_once (h : Complete s ns) (calls : List (ℕ × Buffer))
    (hroom : ∀ c ∈ calls, longest (framesOf s.mem 0 ns) + 2 ≤ c.1) :
    ∃ (l : _) (ofs : ℕ) (groups : List (List (ℕ × List UInt8))) (left : List (ℕ × List UInt8)),
      exec (printStep s) 0 calls = some (l, ofs) ∧
      framesOf s.mem 0 ns = groups.flatten ++ left ∧ ofs = sizeOf groups.flatten ∧
      l.map (fun e => e.2.2) = groups.map shownOf ∧
      (ns.length ≤ calls.length → left = [] ∧ ofs = s.size) ∧
      ∀ c, longest (framesOf s.mem 0 ns) + 2 ≤ c.1 → ∃ bytes ofs',
        printStep s ofs c = some ((bytes.length, bytes), ofs') ∧
        (bytes.length = 0 → ofs' = s.size) ∧ (ofs = s.size → bytes = [] ∧ ofs' = s.size) := by
  obtain ⟨l, groups, ms, hexec, hframes, hms, hsum, htexts, hleft⟩ :=
    h.frames.calls (by rw [Nat.zero_add, h.size]) calls hroom
  rw [Nat.zero_add] at hexec hframes hms hsum
  refine ⟨l, sizeOf groups.flatten, groups, _, hexec, hframes, rfl, htexts, fun hmany => ?_,
    fun c hc => ?_⟩
  · have hnil : ms = [] := List.eq_nil_of_length_eq_zero (by omega)
    rw [hnil] at hsum ⊢
    exact ⟨rfl, by simpa using hsum⟩
  · have hle := longest_append_le groups.flatten (framesOf s.mem (sizeOf groups.flatten) ms)
    rw [← hframes] at hle
    obtain ⟨qs, ks, hnext, hks, hend, hstep, -, hnone⟩ :=
      hms.call hsum (Nat.le_trans (Nat.add_le_add_right hle 2) hc) c.2
    refine ⟨shownOf qs, _, hstep, fun hzero => ?_, fun hall => ?_⟩
    · rw [hnone (List.eq_nil_of_length_eq_zero hzero)] at hend
      simpa using hend
    · -- frames of size 0 there are none
      have hzero : ms.sum = 0 := by omega
      have hempty : ms = [] := by
        cases hms' : ms with
        | nil => rfl
        | cons m ms' =>
          rw [hms'] at hms hzero
          have hfour := hms.2.1
          rw [List.sum_cons] at hzero
          omega
      rw [hempty] at hnext
      have hqs : qs = [] := (List.append_eq_nil_iff.mp hnext.symm).1
      rw [hqs]
      exact ⟨rfl, hall⟩

def sampleSnapshot : Snapshot :=
  ⟨fun i => ([32, 0, 6, 0, 7, 0, 0, 0, 0, 0, 0, 0, 0, 0, 0, 0, 97, 98, 0, 0, 0, 0, 0, 0, 0, 0, 0, 0,
    0, 0, 0, 0, 8, 0, 0, 0, 0, 0, 0, 0, 32, 0, 7, 0, 255, 255, 255, 255] : List UInt8).getD i 0, 72⟩

theorem frames_printed_sample : ∃ l,
    exec (printStep sampleSnapshot) 0
      [(40, ⟨fun _ => 170, 0⟩), (64, ⟨fun _ => 170, 0⟩), (40, ⟨fun _ => 170, 0⟩)] = some (l, 72) ∧
    l.map (fun e => e.2.2) = [text "[    0.000000] ab[7]: sgx_qblt_flip\n",
      text "[    0.000000] [-1]: sgx_qblt_update\n", []] := by
  have hcomplete : Complete sampleSnapshot [32, 8, 32] := ⟨by decide +kernel, rfl⟩
  obtain ⟨l, ofs, groups, left, hexec, -, -, -, hall, -⟩ :=
    frames_printed_once hcomplete
      [(40, ⟨fun _ => 170, 0⟩), (64, ⟨fun _ => 170, 0⟩), (40, ⟨fun _ => 170, 0⟩)] (by decide +kernel)
  have hofs : ofs = 72 := (hall (by decide)).2
  have htexts : (exec (printStep sampleSnapshot) 0
      [(40, ⟨fun _ => 170, 0⟩), (64, ⟨fun _ => 170, 0⟩), (40, ⟨fun _ => 170, 0⟩)]).map
        (fun r => r.1.map fun e => e.2.2) =
      some [text "[    0.000000] ab[7]: sgx_qblt_flip\n",
        text "[    0.000000] [-1]: sgx_qblt_update\n", []] := by
    decide +kernel
  rw [hexec, Option.map_some, Option.some.injEq] at htexts
  rw [hofs] at hexec
  exact ⟨l, hexec, htexts⟩

def strBufSize : ℕ := 4096

/-- The end of `pvr_dbg_trcmd_read`: what it returns, the number of bytes that `copy_to_user` is asked
    for, the position and `trcmd_str_buf`. -/
structure TrcmdRead where
  ret : ℤ
  copied : ℕ
  ppos : ℕ
  strBuf : Buffer

def pvrDbgTrcmdRead (s : Snapshot) (faults : Bool) (count ppos : ℕ) (strBuf : Buffer) : TrcmdRead :=
  let r := pvrTrcmdPrint (max strBufSize count) s ppos strBuf
  ⟨if faults then -14 else r.1.1, r.1.1, r.1.2, r.2⟩

/-- What was written is inside `trcmd_str_buf`, and what is copied inside the user's buffer. -/
structure ReadSafe (count : ℕ) (r : TrcmdRead) : Prop where
  printed : r.strBuf.written ≤ strBufSize
  copied : r.copied ≤ count

/-- Up to a page is asked for, and the frames that fit into a page fit into it; or all frames that are
    left fit into a page. -/
def ReadFits (count : ℕ) (ps : List (ℕ × List UInt8)) : Prop :=
  if count ≤ strBufSize then
    ∀ qs, qs <+: ps → (shownOf qs).length + 1 < strBufSize → (shownOf qs).length ≤ count
  else (shownOf ps).length < strBufSize

/-- A read is safe exactly when the frames that are left from its position on fit. -/
theorem trcmd_read_safe_iff (s : Snapshot) (faults : Bool) (count ppos : ℕ) (bytes : ℕ → UInt8) :
    ReadSafe count (pvrDbgTrcmdRead s faults count ppos ⟨bytes, 0⟩) ↔
      ReadFits count (pending s.mem (s.size - ppos) ppos) := by
  have hone : 1 < max strBufSize count := by
    unfold strBufSize
    omega
  have hprinted := pvrTrcmdPrint_printed s ppos ⟨bytes, 0⟩ hone
  generalize pending s.mem (s.size - ppos) ppos = ps at hprinted
  have hroom := fitting_room 0 ps (by omega : 0 + 1 < max strBufSize count)
  have hcopied : (pvrDbgTrcmdRead s faults count ppos ⟨bytes, 0⟩).copied =
      (shownOf (fitting (max strBufSize count) 0 ps)).length := by
    have hlength := hprinted.length
    rw [Nat.zero_add] at hlength
    exact hlength
  have hbounded := hprinted.bounded
  have hsafe : ReadSafe count (pvrDbgTrcmdRead s faults count ppos ⟨bytes, 0⟩) ↔
      (pvrTrcmdPrint (max strBufSize count) s ppos ⟨bytes, 0⟩).2.written ≤ strBufSize ∧
      (shownOf (fitting (max strBufSize count) 0 ps)).length ≤ count := by
    constructor
    · intro h
      rw [← hcopied]
      exact ⟨h.printed, h.copied⟩
    · intro h
      rw [← hcopied] at h
      exact ⟨h.1, h.2⟩
  rw [hsafe, ReadFits]
  generalize pvrTrcmdPrint (max strBufSize count) s ppos ⟨bytes, 0⟩ = r at hprinted hbounded
  dsimp only at hbounded
  by_cases hcount : count ≤ strBufSize
  · have hsize : max strBufSize count = strBufSize := Nat.max_eq_left hcount
    rw [hsize] at hbounded hroom ⊢
    rw [if_pos hcount]
    constructor
    · intro h qs hqs hfits
      have hmost := fitting_most hqs (show 0 + (shownOf qs).length + 1 < strBufSize by omega)
      exact Nat.le_trans (shownOf_le hmost) h.2
    · intro h
      exact ⟨by omega, h _ (fitting_begins _ _ _) (by omega)⟩
  · have hsize : max strBufSize count = count := Nat.max_eq_right (by omega)
    rw [hsize] at hprinted hbounded hroom ⊢
    rw [if_neg hcount]
    by_cases hall : fitting count 0 ps = ps
    · have hwhole := hprinted.whole hall
      have hfilled := hprinted.filled
      rw [hall] at hfilled hroom ⊢
      dsimp only at hwhole
      unfold strBufSize at *
      omega
    · have hcut := hprinted.cut hall
      have hlong := fitting_cut hall
      omega

/-- The trace has one line of 34 characters and a byte is asked for. -/
theorem trcmd_read_copies_line : ¬ReadSafe 1 (pvrDbgTrcmdRead
    ⟨fun i => ([32, 0, 6, 0] : List UInt8).getD i 0, 32⟩ false 1 0 ⟨fun _ => 0, 0⟩) := by
  intro hsafe
  have hcopied : (pvrDbgTrcmdRead ⟨fun i => ([32, 0, 6, 0] : List UInt8).getD i 0, 32⟩ false 1 0
      ⟨fun _ => 0, 0⟩).copied = 34 := by
    decide +kernel
  have hle := hsafe.copied
  rw [hcopied] at hle
  omega

end PvrServices.Trace
