import PvrServices.Printf
import PvrServices.TraceBuffer

set_option autoImplicit false

/-!
# Printing the trace

`pvr_trcmd_print` prints the frames of a snapshot into a buffer as far as they fit. The next call
goes on with the first frame that did not.
-/
namespace PvrServices.Trace
open Memory Printf

structure TrcmdSyn where
  rdPend : UInt32
  rdComp : UInt32
  wrPend : UInt32
  wrComp : UInt32
  addr : UInt32

structure TrcmdSgxkick where
  tatqSyn : TrcmdSyn
  tdtqSyn : TrcmdSyn
  srcSyn : ℕ → TrcmdSyn
  dstSyn : TrcmdSyn
  ta3dSyn : TrcmdSyn
  ctx : UInt32

structure TrcmdSgxtransfer where
  taSyn : TrcmdSyn
  tdSyn : TrcmdSyn
  srcSyn : TrcmdSyn
  dstSyn : TrcmdSyn
  ctx : UInt32

def sgxMaxSrcSyncs : ℕ := 4

def synAt (mem : ℕ → UInt8) (a : ℕ) : TrcmdSyn :=
  ⟨word mem a, word mem (a + 4), word mem (a + 8), word mem (a + 12), word mem (a + 16)⟩

def sgxkickAt (mem : ℕ → UInt8) (a : ℕ) : TrcmdSgxkick where
  tatqSyn := synAt mem a
  tdtqSyn := synAt mem (a + 20)
  srcSyn i := synAt mem (a + 40 + 20 * i)
  dstSyn := synAt mem (a + 40 + 20 * sgxMaxSrcSyncs)
  ta3dSyn := synAt mem (a + 60 + 20 * sgxMaxSrcSyncs)
  ctx := word mem (a + 80 + 20 * sgxMaxSrcSyncs)

def sgxtransferAt (mem : ℕ → UInt8) (a : ℕ) : TrcmdSgxtransfer :=
  ⟨synAt mem a, synAt mem (a + 20), synAt mem (a + 40), synAt mem (a + 60), word mem (a + 80)⟩

def indent : List UInt8 := field space 3 []

def prnSyn (name : List UInt8) (ts : TrcmdSyn) : Printer :=
  if ts.addr = 0 then fun _ _ x => (0, x)
  else
    andThen (andThen (scnprintf (indent ++ name))
        (scnprintf (text " addr:" ++ field zero 8 (digits 16 ts.addr.toNat))))
      (scnprintf (text " rop/c:" ++ field space 8 (digits 10 ts.rdPend.toNat) ++ text "/" ++
        field space 8 (digits 10 ts.rdComp.toNat) ++ text " wop/c:" ++
        field space 8 (digits 10 ts.wrPend.toNat) ++ text "/" ++
        field space 8 (digits 10 ts.wrComp.toNat) ++ text "\n"))

def trcmdPrnSyn (ts : TrcmdSyn) : Printer := prnSyn (text "syn     ") ts

def srcName (i : ℕ) : List UInt8 := (text "src_syn" ++ digits 10 i).take 9

def prnCtx (ctx : UInt32) : Printer :=
  scnprintf (indent ++ text "ctx  " ++ field zero 8 (digits 16 ctx.toNat) ++ text "\n")

def trcmdPrnSgxkick (d : TrcmdSgxkick) : Printer :=
  let queues := andThen (prnSyn (text "tatq_syn") d.tatqSyn) (prnSyn (text "3dtq_syn") d.tdtqSyn)
  let srcs := (List.range sgxMaxSrcSyncs).foldl
    (fun p i => andThen p (prnSyn (srcName i) (d.srcSyn i))) queues
  andThen (andThen (andThen srcs (prnSyn (text "dst_syn ") d.dstSyn))
    (prnSyn (text "ta3d_syn") d.ta3dSyn)) (prnCtx d.ctx)

def trcmdPrnSgxtfer (d : TrcmdSgxtransfer) : Printer :=
  andThen (andThen (andThen (andThen (prnSyn (text "ta_syn  ") d.taSyn)
    (prnSyn (text "3d_syn  ") d.tdSyn)) (prnSyn (text "src_syn ") d.srcSyn))
    (prnSyn (text "dst_syn ") d.dstSyn)) (prnCtx d.ctx)

structure TrcmdDesc where
  name : List UInt8
  print : Option ((ℕ → UInt8) → ℕ → Printer)

/-- In the order of `enum pvr_trcmd_type`; there is nothing for padding. -/
def trcmdDescTable : List TrcmdDesc :=
  [⟨[], none⟩,
   ⟨text "sgx_first_kick", some fun mem a => trcmdPrnSgxkick (sgxkickAt mem a)⟩,
   ⟨text "sgx_kick", some fun mem a => trcmdPrnSgxkick (sgxkickAt mem a)⟩,
   ⟨text "sgx_tfer_kick", some fun mem a => trcmdPrnSgxtfer (sgxtransferAt mem a)⟩,
   ⟨text "sgx_qblt_synreq", some fun mem a => trcmdPrnSyn (synAt mem a)⟩,
   ⟨text "sgx_qblt_synchk", some fun mem a => trcmdPrnSyn (synAt mem a)⟩,
   ⟨text "sgx_qblt_flip", none⟩,
   ⟨text "sgx_qblt_update", none⟩,
   ⟨text "sgx_qblt_syn_comp", some fun mem a => trcmdPrnSyn (synAt mem a)⟩,
   ⟨text "sgx_qblt_flip_comp", none⟩,
   ⟨text "sgx_qblt_update_comp", none⟩]

def trcmdDesc (type : ℕ) : TrcmdDesc := trcmdDescTable.getD type ⟨[], none⟩

/-- The first line of the frame at an address. The name is a string in a memory of `2^32` bytes. -/
def frameLine (mem : ℕ → UInt8) (a : ℕ) : List UInt8 :=
  let f := copy mem a 16
  let sec := frameTime f / 1000000000
  let usecFrac := frameTime f % 1000000000 / 1000
  text "[" ++ field space 5 (digits 10 sec) ++ text "." ++ field zero 6 (digits 10 usecFrac) ++
    text "] " ++ cString mem 4294967296 (a + 16) ++ text "[" ++
    signedDigits (Int.bmod (framePid f) 4294967296) ++ text "]: " ++
    (trcmdDesc (frameType f)).name ++ text "\n"

def prnFrame (mem : ℕ → UInt8) (a : ℕ) : Printer :=
  match (trcmdDesc (frameType (copy mem a 16))).print with
  | none => scnprintf (frameLine mem a)
  | some print => andThen (scnprintf (frameLine mem a)) (print mem (a + frameHeader))

/-- The snapshot begins at address 0; what is behind it is in the memory too. -/
structure Snapshot where
  mem : ℕ → UInt8
  size : ℕ

/-- The frame at `ofs` with `rest` bytes left passes the checks of the loop. -/
def walks (mem : ℕ → UInt8) (rest ofs : ℕ) : Bool :=
  decide (4 ≤ rest) && decide (frameSize (copy mem ofs 4) ≠ 0) &&
    decide (frameSize (copy mem ofs 4) ≤ rest) &&
    decide (frameType (copy mem ofs 4) < trcmdDescCount)

theorem walks_iff {mem : ℕ → UInt8} {rest ofs : ℕ} : walks mem rest ofs = true ↔
    4 ≤ rest ∧ frameSize (copy mem ofs 4) ≠ 0 ∧ frameSize (copy mem ofs 4) ≤ rest ∧
      frameType (copy mem ofs 4) < trcmdDescCount := by
  simp only [walks, Bool.and_eq_true, decide_eq_true_eq, and_assoc]

def printLoop (mem : ℕ → UInt8) (dstSize rest dstLen ofs : ℕ) (x : Buffer) :
    (ℕ × ℕ) × Buffer :=
  if _h : walks mem rest ofs = true then
    let r := if frameType (copy mem ofs 4) ≠ pvrTrcmdPad then
        prnFrame mem ofs dstLen (dstSize - dstLen) x
      else (0, x)
    if dstLen + r.1 + 1 = dstSize then
      -- the frame that was printed last is dropped
      ((dstLen, ofs), ⟨store r.2.bytes dstLen [0], max r.2.written (dstLen + 1)⟩)
    else
      printLoop mem dstSize (rest - frameSize (copy mem ofs 4)) (dstLen + r.1)
        (ofs + frameSize (copy mem ofs 4)) r.2
  else ((dstLen, ofs), x)
termination_by rest
decreasing_by
  have hwalks := walks_iff.mp _h
  omega

/-- The length that it returns, `*snapshot_ofs` and the destination. -/
def pvrTrcmdPrint (dstSize : ℕ) (s : Snapshot) (ofs : ℕ) (x : Buffer) : (ℕ × ℕ) × Buffer :=
  if s.size ≤ ofs then ((0, ofs), x) else printLoop s.mem dstSize (s.size - ofs) 0 ofs x

variable {mem : ℕ → UInt8} {ts : TrcmdSyn} {name : List UInt8} {a rest ofs dstSize dstLen : ℕ}
  {x : Buffer}

def synText (name : List UInt8) (ts : TrcmdSyn) : List UInt8 :=
  if ts.addr = 0 then []
  else
    indent ++ name ++ (text " addr:" ++ field zero 8 (digits 16 ts.addr.toNat)) ++
      (text " rop/c:" ++ field space 8 (digits 10 ts.rdPend.toNat) ++ text "/" ++
        field space 8 (digits 10 ts.rdComp.toNat) ++ text " wop/c:" ++
        field space 8 (digits 10 ts.wrPend.toNat) ++ text "/" ++
        field space 8 (digits 10 ts.wrComp.toNat) ++ text "\n")

def ctxText (ctx : UInt32) : List UInt8 :=
  indent ++ text "ctx  " ++ field zero 8 (digits 16 ctx.toNat) ++ text "\n"

def sgxkickText (d : TrcmdSgxkick) : List UInt8 :=
  synText (text "tatq_syn") d.tatqSyn ++ synText (text "3dtq_syn") d.tdtqSyn ++
    (List.range sgxMaxSrcSyncs).flatMap (fun i => synText (srcName i) (d.srcSyn i)) ++
    synText (text "dst_syn ") d.dstSyn ++ synText (text "ta3d_syn") d.ta3dSyn ++ ctxText d.ctx

def sgxtferText (d : TrcmdSgxtransfer) : List UInt8 :=
  synText (text "ta_syn  ") d.taSyn ++ synText (text "3d_syn  ") d.tdSyn ++
    synText (text "src_syn ") d.srcSyn ++ synText (text "dst_syn ") d.dstSyn ++ ctxText d.ctx

def payloadText (mem : ℕ → UInt8) (type a : ℕ) : List UInt8 :=
  if type = 1 ∨ type = 2 then sgxkickText (sgxkickAt mem a)
  else if type = 3 then sgxtferText (sgxtransferAt mem a)
  else if type = 4 ∨ type = 5 ∨ type = 8 then synText (text "syn     ") (synAt mem a)
  else []

def frameText (mem : ℕ → UInt8) (a : ℕ) : List UInt8 :=
  frameLine mem a ++ payloadText mem (frameType (copy mem a 16)) (a + frameHeader)

theorem prints_syn (name : List UInt8) (ts : TrcmdSyn) :
    Prints (prnSyn name ts) (synText name ts) := by
  unfold prnSyn synText
  split
  · exact prints_nil
  · exact ((prints_scnprintf _).andThen (prints_scnprintf _)).andThen (prints_scnprintf _)

theorem prints_sgxkick (d : TrcmdSgxkick) : Prints (trcmdPrnSgxkick d) (sgxkickText d) := by
  have hqueues := (prints_syn (text "tatq_syn") d.tatqSyn).andThen
    (prints_syn (text "3dtq_syn") d.tdtqSyn)
  have hsrcs := hqueues.foldl (fun i => prints_syn (srcName i) (d.srcSyn i))
    (List.range sgxMaxSrcSyncs)
  exact ((hsrcs.andThen (prints_syn _ d.dstSyn)).andThen (prints_syn _ d.ta3dSyn)).andThen
    (prints_scnprintf _)

theorem prints_sgxtfer (d : TrcmdSgxtransfer) : Prints (trcmdPrnSgxtfer d) (sgxtferText d) :=
  ((((prints_syn _ d.taSyn).andThen (prints_syn _ d.tdSyn)).andThen
    (prints_syn _ d.srcSyn)).andThen (prints_syn _ d.dstSyn)).andThen (prints_scnprintf _)

theorem prints_payload (mem : ℕ → UInt8) (a : ℕ) {type : ℕ} (h : type < trcmdDescCount) :
    match (trcmdDesc type).print with
    | none => payloadText mem type a = []
    | some print => Prints (print mem a) (payloadText mem type a) := by
  unfold trcmdDescCount at h
  match type, h with
  | 0, _ => rfl
  | 1, _ => exact prints_sgxkick _
  | 2, _ => exact prints_sgxkick _
  | 3, _ => exact prints_sgxtfer _
  | 4, _ => exact prints_syn _ _
  | 5, _ => exact prints_syn _ _
  | 6, _ => rfl
  | 7, _ => rfl
  | 8, _ => exact prints_syn _ _
  | 9, _ => rfl
  | 10, _ => rfl

theorem prnFrame_eq (htype : frameType (copy mem a 16) < trcmdDescCount) {pos size : ℕ}
    (hsize : 0 < size) : prnFrame mem a pos size x = scnprintf (frameText mem a) pos size x := by
  have hpayload := prints_payload mem (a + frameHeader) htype
  unfold prnFrame frameText
  cases hprint : (trcmdDesc (frameType (copy mem a 16))).print with
  | none =>
    rw [hprint] at hpayload
    dsimp only at hpayload ⊢
    rw [hpayload, List.append_nil]
  | some print =>
    rw [hprint] at hpayload
    exact andThen_eq hsize rfl hpayload

theorem frameText_pos (mem : ℕ → UInt8) (a : ℕ) : 0 < (frameText mem a).length := by
  unfold frameText frameLine
  simp only [List.length_append]
  have hbracket : (text "[").length = 1 := by decide
  omega

theorem frameType_copy (mem : ℕ → UInt8) (a : ℕ) :
    frameType (copy mem a 16) = frameType (copy mem a 4) := by
  unfold frameType
  rw [copy_drop _ _ (by decide), copy_drop _ _ (by decide), copy_take _ _ (by decide),
    copy_take _ _ (by decide)]

def shown (mem : ℕ → UInt8) (a : ℕ) : List UInt8 :=
  if frameType (copy mem a 4) ≠ pvrTrcmdPad then frameText mem a else []

/-- The frames from `ofs` on up to the end or to one that fails a check, each with its size and what
    is shown of it. -/
def pending (mem : ℕ → UInt8) (rest ofs : ℕ) : List (ℕ × List UInt8) :=
  if _h : walks mem rest ofs = true then
    (frameSize (copy mem ofs 4), shown mem ofs) ::
      pending mem (rest - frameSize (copy mem ofs 4)) (ofs + frameSize (copy mem ofs 4))
  else []
termination_by rest
decreasing_by
  have hwalks := walks_iff.mp _h
  omega

def shownOf (ps : List (ℕ × List UInt8)) : List UInt8 := ps.flatMap Prod.snd

def sizeOf (ps : List (ℕ × List UInt8)) : ℕ := (ps.map Prod.fst).sum

/-- The frames that are printed behind `dstLen` bytes: those before the first one that does not
    leave a byte of the room. -/
def fitting (dstSize : ℕ) : ℕ → List (ℕ × List UInt8) → List (ℕ × List UInt8)
  | _, [] => []
  | dstLen, p :: ps =>
    if dstSize ≤ dstLen + p.2.length + 1 then []
    else p :: fitting dstSize (dstLen + p.2.length) ps

/-- How the loop ends, where `ps` are the frames that were left and `qs` those that it printed. -/
structure Printed (dstSize dstLen ofs : ℕ) (x : Buffer) (ps qs : List (ℕ × List UInt8))
    (r : (ℕ × ℕ) × Buffer) : Prop where
  length : r.1.1 = dstLen + (shownOf qs).length
  offset : r.1.2 = ofs + sizeOf qs
  bytes : copy r.2.bytes 0 r.1.1 = copy x.bytes 0 dstLen ++ shownOf qs
  grows : x.written ≤ r.2.written
  bounded : r.2.written ≤ max x.written dstSize
  cut : qs ≠ ps → dstSize ≤ r.2.written
  whole : qs = ps → r.2.written ≤ max x.written (dstLen + (shownOf ps).length + 1)
  filled : 0 < (shownOf qs).length → dstLen + (shownOf qs).length < r.2.written

theorem printed_frame (hwalks : walks mem rest ofs = true) (hroom : dstLen + 1 < dstSize) :
    (if frameType (copy mem ofs 4) ≠ pvrTrcmdPad then
      prnFrame mem ofs dstLen (dstSize - dstLen) x else (0, x)) =
    if frameType (copy mem ofs 4) ≠ pvrTrcmdPad then
      scnprintf (shown mem ofs) dstLen (dstSize - dstLen) x else (0, x) := by
  have htype := (walks_iff.mp hwalks).2.2.2
  unfold shown
  by_cases hpad : frameType (copy mem ofs 4) ≠ pvrTrcmdPad
  · rw [if_pos hpad, if_pos hpad, if_pos hpad]
    exact prnFrame_eq (by rw [frameType_copy]; exact htype) (by omega)
  · rw [if_neg hpad, if_neg hpad]

/-- One frame: its text if it leaves room, else the rest of the room is used up. -/
structure Round (dstSize dstLen : ℕ) (x : Buffer) (s : List UInt8) (r : ℕ × Buffer) : Prop where
  length : r.1 = min s.length (dstSize - dstLen - 1)
  bytes : copy r.2.bytes 0 (dstLen + r.1) = copy x.bytes 0 dstLen ++ s.take (dstSize - dstLen - 1)
  written : r.2.written = if s = [] then x.written else max x.written (dstLen + r.1 + 1)

theorem round_frame (mem : ℕ → UInt8) (ofs : ℕ) (x : Buffer) (hroom : dstLen + 1 < dstSize) :
    Round dstSize dstLen x (shown mem ofs)
    (if frameType (copy mem ofs 4) ≠ pvrTrcmdPad then
      scnprintf (shown mem ofs) dstLen (dstSize - dstLen) x else (0, x)) := by
  have hpos : 0 < dstSize - dstLen := by omega
  by_cases hpad : frameType (copy mem ofs 4) ≠ pvrTrcmdPad
  · have hsome : shown mem ofs ≠ [] := by
      unfold shown
      rw [if_pos hpad]
      exact List.length_pos_iff.mp (frameText_pos mem ofs)
    rw [if_pos hpad]
    refine ⟨rfl, ?_, ?_⟩
    · rw [copy_add, scnprintf_before (Nat.le_refl _), Nat.zero_add, scnprintf_copy hpos]
    · rw [if_neg hsome]
      unfold scnprintf
      dsimp only
      rw [vsnprintf_pos hpos]
  · have hnone : shown mem ofs = [] := if_neg hpad
    rw [if_neg hpad, hnone]
    refine ⟨?_, ?_, ?_⟩
    · rw [List.length_nil, Nat.zero_min]
    · rw [List.take_nil, List.append_nil, Nat.add_zero]
    · rw [if_pos rfl]

theorem shownOf_cons_length (p : ℕ × List UInt8) (ps : List (ℕ × List UInt8)) :
    (shownOf (p :: ps)).length = p.2.length + (shownOf ps).length := by
  simp [shownOf]

/-- A frame that does not fit ends the loop, and its text is dropped. -/
theorem Round.dropped {s : List UInt8} {r : ℕ × Buffer} (h : Round dstSize dstLen x s r)
    (hroom : dstLen + 1 < dstSize) (hfull : dstSize ≤ dstLen + s.length + 1)
    (p : ℕ × List UInt8) (ps : List (ℕ × List UInt8)) :
    Printed dstSize dstLen ofs x (p :: ps) []
      ((dstLen, ofs), ⟨store r.2.bytes dstLen [0], max r.2.written (dstLen + 1)⟩) := by
  obtain ⟨hlength, hbytes, hwritten⟩ := h
  have hsome : s ≠ [] := by
    intro hnil
    rw [hnil, List.length_nil] at hfull
    omega
  rw [if_neg hsome] at hwritten
  refine ⟨rfl, rfl, ?_, ?_, ?_, fun _ => ?_, fun hnil => by simp at hnil, fun hpos => ?_⟩
  · dsimp only
    rw [copy_store_out _ (.inl (by omega))]
    have hless := congrArg (List.take dstLen) hbytes
    rw [copy_take _ _ (by omega), List.take_left' copy_length] at hless
    rw [hless]
    exact (List.append_nil _).symm
  · dsimp only
    omega
  · dsimp only
    omega
  · dsimp only
    omega
  · exact absurd hpos (Nat.lt_irrefl 0)

theorem Round.cons {s : List UInt8} {r : ℕ × Buffer} (h : Round dstSize dstLen x s r)
    (hfits : ¬dstSize ≤ dstLen + s.length + 1) {n : ℕ} {ps qs : List (ℕ × List UInt8)}
    {t : (ℕ × ℕ) × Buffer} (hrest : Printed dstSize (dstLen + s.length) (ofs + n) r.2 ps qs t) :
    Printed dstSize dstLen ofs x ((n, s) :: ps) ((n, s) :: qs) t := by
  obtain ⟨hlength, hbytes, hwritten⟩ := h
  have hall : r.1 = s.length := by omega
  have htake : s.take (dstSize - dstLen - 1) = s := List.take_of_length_le (by omega)
  rw [hall, htake] at hbytes
  rw [hall] at hwritten
  have hbounded := hrest.bounded
  have hfilled := hrest.filled
  have hgrows := hrest.grows
  have hgrown : x.written ≤ r.2.written := by
    split at hwritten <;> omega
  refine ⟨?_, ?_, ?_, Nat.le_trans hgrown hgrows, ?_, fun hne => ?_, fun heq => ?_,
    fun hpos => ?_⟩
  · rw [hrest.length, shownOf_cons_length]
    exact Nat.add_assoc _ _ _
  · rw [hrest.offset]
    simp [sizeOf]
    omega
  · rw [hrest.bytes, hbytes, List.append_assoc]
    rfl
  · split at hwritten <;> omega
  · exact hrest.cut fun heq => hne (by rw [heq])
  · have hwhole := hrest.whole (List.tail_eq_of_cons_eq heq)
    rw [shownOf_cons_length]
    dsimp only
    split at hwritten <;> omega
  · rw [shownOf_cons_length] at hpos ⊢
    dsimp only at hpos ⊢
    by_cases hnil : s = []
    · rw [hnil, List.length_nil] at hfilled hpos ⊢
      omega
    · rw [if_neg hnil] at hwritten
      omega

theorem printLoop_printed (mem : ℕ → UInt8) (rest dstLen ofs : ℕ) (x : Buffer)
    (hroom : dstLen + 1 < dstSize) :
    Printed dstSize dstLen ofs x (pending mem rest ofs)
      (fitting dstSize dstLen (pending mem rest ofs))
      (printLoop mem dstSize rest dstLen ofs x) := by
  induction rest using Nat.strong_induction_on generalizing ofs dstLen x with
  | _ rest ih =>
    rw [printLoop, pending]
    by_cases hwalks : walks mem rest ofs = true
    · rw [dif_pos hwalks, dif_pos hwalks, fitting]
      have hround := round_frame mem ofs x hroom
      rw [← printed_frame hwalks hroom] at hround
      generalize (if frameType (copy mem ofs 4) ≠ pvrTrcmdPad then
        prnFrame mem ofs dstLen (dstSize - dstLen) x else (0, x)) = r at hround
      have hlength := hround.length
      dsimp only
      by_cases hfull : dstSize ≤ dstLen + (shown mem ofs).length + 1
      · have hr : dstLen + r.1 + 1 = dstSize := by omega
        rw [if_pos hr, if_pos hfull]
        exact hround.dropped hroom hfull _ _
      · have hall : r.1 = (shown mem ofs).length := by omega
        have hr : dstLen + r.1 + 1 ≠ dstSize := by omega
        have hsize := walks_iff.mp hwalks
        rw [if_neg hr, if_neg hfull, hall]
        exact hround.cons hfull (ih (rest - frameSize (copy mem ofs 4)) (by omega)
          (dstLen + (shown mem ofs).length) (ofs + frameSize (copy mem ofs 4)) r.2 (by omega))
    · rw [dif_neg hwalks, dif_neg hwalks]
      refine ⟨rfl, rfl, ?_, Nat.le_refl _, Nat.le_max_left _ _, fun hne => absurd rfl hne,
        fun _ => Nat.le_max_left _ _, fun hpos => absurd hpos (Nat.lt_irrefl 0)⟩
      exact (List.append_nil _).symm

end PvrServices.Trace
