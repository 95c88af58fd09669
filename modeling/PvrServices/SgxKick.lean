import Mathlib.Data.List.Dedup
import PvrServices.SgxKickBase

set_option autoImplicit false

/-!
# What a kick leaves in the pending counters

Filling a command counts up the sync objects that it takes; of these only some are counted back
when the command could not be submitted.
-/
namespace PvrServices.SgxKick
open Tally

variable {s : SgxServices} {k : SgxCcbKick} {t : TransferSgxKick} {p : PendingOps}
variable {scheduled : PvrsrvError}

def readEntriesOf (l : List DeviceSyncObject) (d : ℕ) : ℕ :=
  l.countP fun e => e.sReadOpsCompleteDevVAddr = .readOpsComplete d

def writeEntriesOf (l : List DeviceSyncObject) (d : ℕ) : ℕ :=
  l.countP fun e => e.sWriteOpsCompleteDevVAddr = .writeOpsComplete d

/-- The source, TA-TQ and 3D-TQ entries of a kick for `d`. -/
def CmdTaShared.readEntries (c : CmdTaShared) (d : ℕ) : ℕ :=
  readEntriesOf c.taTqSync.toList d + readEntriesOf c.threeDTqSync.toList d +
    readEntriesOf c.asSrcSyncs d

/-- The destination entries of a kick for `d`, with its TA/3D entry if that is a dependency. -/
def CmdTaShared.writeEntries (dependency : Bool) (c : CmdTaShared) (d : ℕ) : ℕ :=
  (if dependency then c.sTA3DDependency.toList.countP
    fun e => e.sWriteOpsCompleteDevVAddr = .writeOpsComplete d else 0) +
    writeEntriesOf (c.hwDeviceSyncList.bind HwDeviceSyncList.asSyncData).toList d

def TransfercmdShared.readEntries (c : TransfercmdShared) (d : ℕ) : ℕ :=
  readEntriesOf c.src.toList d

/-- The TA, 3D and destination entries of a transfer for `d`. -/
def TransfercmdShared.writeEntries (c : TransfercmdShared) (d : ℕ) : ℕ :=
  writeEntriesOf c.taSync.toList d + writeEntriesOf c.threeDSync.toList d +
    writeEntriesOf c.dst.toList d

/-- After an error every counter is as it was. After a success each has grown by the entries that
    the submitted command has for it. -/
def Settled {C : Type} (before : PendingOps) (reads writes : C → ℕ → ℕ) (r : KickResult C) :
    Prop :=
  (r.eError ≠ .ok → r.services.pending = before) ∧
    (r.eError = .ok → ∃ c, r.command = some c ∧ ∀ d,
      r.services.pending.ui32ReadOpsPending d =
        before.ui32ReadOpsPending d + BitVec.ofNat 32 (reads c d) ∧
      r.services.pending.ui32WriteOpsPending d =
        before.ui32WriteOpsPending d + BitVec.ofNat 32 (writes c d))

def PendingOps.taken (p : PendingOps) (reads writes : List ℕ) : PendingOps where
  ui32WriteOpsPending := countAllUp p.ui32WriteOpsPending writes
  ui32ReadOpsPending := countAllUp p.ui32ReadOpsPending reads

theorem taken_taken (p : PendingOps) (reads writes reads' writes' : List ℕ) :
    (p.taken reads writes).taken reads' writes' =
      p.taken (reads ++ reads') (writes ++ writes') := by
  unfold PendingOps.taken
  rw [countAllUp_append, countAllUp_append]

theorem taken_eq_self {reads writes : List ℕ} (hr : reads.length < 2 ^ 32)
    (hw : writes.length < 2 ^ 32) : p.taken reads writes = p ↔ reads = [] ∧ writes = [] := by
  rw [← countAllUp_eq_self (f := p.ui32ReadOpsPending) hr,
    ← countAllUp_eq_self (f := p.ui32WriteOpsPending) hw]
  constructor
  · intro h
    exact ⟨congrArg PendingOps.ui32ReadOpsPending h, congrArg PendingOps.ui32WriteOpsPending h⟩
  · intro h
    unfold PendingOps.taken
    rw [h.1, h.2]

def given (s : SgxServices) (h : ℕ) : List ℕ :=
  if h = 0 then [] else [(s.syncInfos h).psSyncData]

theorem given_length (s : SgxServices) (h : ℕ) : (given s h).length ≤ 1 := by
  unfold given
  split <;> simp

theorem given_eq_nil {h : ℕ} : given s h = [] ↔ h = 0 := by
  unfold given
  split <;> simp [*]

theorem readEntriesOf_cons (p : PendingOps) (i : KernelSyncInfo) (l : List DeviceSyncObject)
    (d : ℕ) : readEntriesOf (deviceSyncObject p i :: l) d =
      [i.psSyncData].count d + readEntriesOf l d := by
  unfold readEntriesOf
  rw [List.countP_cons, List.count_singleton, Nat.add_comm]
  simp [deviceSyncObject, KernelSyncInfo.sReadOpsCompleteDevVAddr]

theorem writeEntriesOf_cons (p : PendingOps) (i : KernelSyncInfo) (l : List DeviceSyncObject)
    (d : ℕ) : writeEntriesOf (deviceSyncObject p i :: l) d =
      [i.psSyncData].count d + writeEntriesOf l d := by
  unfold writeEntriesOf
  rw [List.countP_cons, List.count_singleton, Nat.add_comm]
  simp [deviceSyncObject, KernelSyncInfo.sWriteOpsCompleteDevVAddr]

theorem fillRead_pending (s : SgxServices) (h : ℕ) (p : PendingOps) :
    (fillRead s h p).2 = p.taken (given s h) [] := by
  unfold fillRead given
  split <;> rfl

theorem fillRead_entries (s : SgxServices) (h : ℕ) (p : PendingOps) (d : ℕ) :
    readEntriesOf (fillRead s h p).1.toList d = (given s h).count d := by
  unfold fillRead given
  split
  · rfl
  · exact readEntriesOf_cons p _ [] d

theorem fillWrite_pending (s : SgxServices) (h : ℕ) (p : PendingOps) :
    (fillWrite s h p).2 = p.taken [] (given s h) := by
  unfold fillWrite given
  split <;> rfl

theorem fillWrite_entries (s : SgxServices) (h : ℕ) (p : PendingOps) (d : ℕ) :
    writeEntriesOf (fillWrite s h p).1.toList d = (given s h).count d := by
  unfold fillWrite given
  split
  · rfl
  · exact writeEntriesOf_cons p _ [] d

def ta3dWrites (s : SgxServices) (k : SgxCcbKick) : List ℕ :=
  if k.bTADependency then given s k.hTA3DSyncInfo else []

theorem fillTa3d_pending (s : SgxServices) (k : SgxCcbKick) (p : PendingOps) :
    (fillTa3d s k.hTA3DSyncInfo k.bTADependency p).2 = p.taken [] (ta3dWrites s k) := by
  unfold fillTa3d ta3dWrites given
  cases k.bTADependency <;> split <;> rfl

theorem fillTa3d_entries (s : SgxServices) (k : SgxCcbKick) (p : PendingOps) (d : ℕ) :
    (if k.bTADependency then
      (fillTa3d s k.hTA3DSyncInfo k.bTADependency p).1.toList.countP
        fun e => e.sWriteOpsCompleteDevVAddr = .writeOpsComplete d else 0) =
      (ta3dWrites s k).count d := by
  unfold fillTa3d ta3dWrites given
  cases k.bTADependency with
  | false => rfl
  | true =>
    by_cases h0 : k.hTA3DSyncInfo = 0
    · simp [h0]
    · simp [h0, KernelSyncInfo.sWriteOpsCompleteDevVAddr, List.countP_cons, List.count_singleton]

def syncDataOf (s : SgxServices) (hs : List ℕ) : List ℕ :=
  hs.map fun h => (s.syncInfos h).psSyncData

def keptSrc (s : SgxServices) : List ℕ → List ℕ → List ℕ
  | _, [] => []
  | before, h :: hs =>
    if (s.syncInfos h).psSyncData ∈ syncDataOf s before then keptSrc s (before ++ [h]) hs
    else (s.syncInfos h).psSyncData :: keptSrc s (before ++ [h]) hs

theorem any_before (s : SgxServices) (before : List ℕ) (h : ℕ) :
    (before.any fun tmp => (s.syncInfos tmp).psSyncData = (s.syncInfos h).psSyncData) = true ↔
      (s.syncInfos h).psSyncData ∈ syncDataOf s before := by
  unfold syncDataOf
  simp [List.mem_map]

theorem fillSrcSyncs_pending (s : SgxServices) (before hs : List ℕ) (p : PendingOps) :
    (fillSrcSyncs s before hs p).2 = p.taken (keptSrc s before hs) [] := by
  induction hs generalizing before p with
  | nil => rfl
  | cons h hs ih =>
    unfold fillSrcSyncs keptSrc
    by_cases hin : (s.syncInfos h).psSyncData ∈ syncDataOf s before
    · rw [if_pos ((any_before s before h).mpr hin), if_pos hin]
      exact ih _ _
    · rw [if_neg (fun h' => hin ((any_before s before h).mp h')), if_neg hin]
      exact ih _ _

theorem fillSrcSyncs_entries (s : SgxServices) (before hs : List ℕ) (p : PendingOps) (d : ℕ) :
    readEntriesOf (fillSrcSyncs s before hs p).1 d = (keptSrc s before hs).count d := by
  induction hs generalizing before p with
  | nil => rfl
  | cons h hs ih =>
    unfold fillSrcSyncs keptSrc
    by_cases hin : (s.syncInfos h).psSyncData ∈ syncDataOf s before
    · rw [if_pos ((any_before s before h).mpr hin), if_pos hin]
      exact ih _ _
    · rw [if_neg (fun h' => hin ((any_before s before h).mp h')), if_neg hin]
      change readEntriesOf (deviceSyncObject p _ :: _) d = _
      rw [readEntriesOf_cons, ih, List.count_singleton, List.count_cons, Nat.add_comm]

/-- Each sync object is kept once, unless one before the list had it. -/
theorem keptSrc_count (s : SgxServices) (before hs : List ℕ) (d : ℕ) :
    (keptSrc s before hs).count d =
      if d ∈ syncDataOf s before then 0 else if d ∈ syncDataOf s hs then 1 else 0 := by
  induction hs generalizing before with
  | nil => simp [keptSrc, syncDataOf]
  | cons h hs ih =>
    have hmem : d ∈ syncDataOf s (before ++ [h]) ↔
        d ∈ syncDataOf s before ∨ d = (s.syncInfos h).psSyncData := by simp [syncDataOf]
    have hcons : d ∈ syncDataOf s (h :: hs) ↔
        d = (s.syncInfos h).psSyncData ∨ d ∈ syncDataOf s hs := by simp [syncDataOf]
    unfold keptSrc
    by_cases hin : (s.syncInfos h).psSyncData ∈ syncDataOf s before
    · rw [if_pos hin, ih]
      by_cases hd : d = (s.syncInfos h).psSyncData
      · rw [if_pos (hmem.mpr (.inr hd)), if_pos (hd ▸ hin)]
      · simp only [hmem, hcons, hd, or_false, false_or]
    · rw [if_neg hin, List.count_cons, ih]
      by_cases hd : d = (s.syncInfos h).psSyncData
      · have hnot : d ∉ syncDataOf s before := by rwa [hd]
        rw [if_pos (hmem.mpr (.inr hd)), if_neg hnot, if_pos (hcons.mpr (.inl hd))]
        simp [hd]
      · simp only [hmem, hcons, hd, or_false, false_or]
        simp [Ne.symm hd]

theorem keptSrc_perm (s : SgxServices) (hs : List ℕ) :
    (keptSrc s [] hs).Perm (syncDataOf s hs).dedup := by
  rw [List.perm_iff_count]
  intro d
  rw [keptSrc_count, List.count_dedup]
  exact if_neg List.not_mem_nil

theorem keptSrc_length (s : SgxServices) (hs : List ℕ) : (keptSrc s [] hs).length ≤ hs.length := by
  have hle := (List.dedup_sublist (syncDataOf s hs)).length_le
  rw [(keptSrc_perm s hs).length_eq]
  unfold syncDataOf at hle ⊢
  rwa [List.length_map] at hle

theorem keptSrc_eq_nil {hs : List ℕ} (h : keptSrc s [] hs = []) : hs = [] := by
  cases hs with
  | nil => rfl
  | cons h' hs => simp [keptSrc, syncDataOf] at h

theorem keptSrc_kickCounters (s : SgxServices) (k : SgxCcbKick) (before hs : List ℕ) :
    keptSrc (kickCounters s k) before hs = keptSrc s before hs := by
  induction hs generalizing before with
  | nil => rfl
  | cons h hs ih =>
    unfold keptSrc
    rw [ih]
    rfl

def kickSrc (k : SgxCcbKick) : List ℕ := firstEntries k.ui32NumSrcSyncs k.ahSrcKernelSyncInfo

def kickDst (s : SgxServices) (k : SgxCcbKick) : List ℕ :=
  if k.bFirstKickOrResume && 0 < k.ui32NumDstSyncObjects then given s k.sDstSyncHandle else []

def kickReads (s : SgxServices) (k : SgxCcbKick) : List ℕ :=
  given s k.hTASyncInfo ++ given s k.h3DSyncInfo ++ keptSrc s [] (kickSrc k)

def kickWrites (s : SgxServices) (k : SgxCcbKick) : List ℕ := ta3dWrites s k ++ kickDst s k

theorem kickReads_kickCounters (s : SgxServices) (k : SgxCcbKick) :
    kickReads (kickCounters s k) k = kickReads s k := by
  unfold kickReads
  rw [keptSrc_kickCounters]
  rfl

theorem fillDst_pending (s : SgxServices) (k : SgxCcbKick) (p : PendingOps) :
    (fillDst s k p).2 = p.taken [] (kickDst s k) := by
  unfold fillDst kickDst
  split
  · exact fillWrite_pending s k.sDstSyncHandle p
  · rfl

theorem fillDst_entries (s : SgxServices) (k : SgxCcbKick) (p : PendingOps) (d : ℕ) :
    writeEntriesOf ((fillDst s k p).1.bind HwDeviceSyncList.asSyncData).toList d =
      (kickDst s k).count d := by
  unfold fillDst kickDst
  split
  · exact fillWrite_entries s k.sDstSyncHandle p d
  · rfl

theorem fill_src (hnum : k.ui32NumSrcSyncs ≤ sgxMaxSrcSyncs) :
    firstEntries (min sgxMaxSrcSyncs k.ui32NumSrcSyncs) k.ahSrcKernelSyncInfo = kickSrc k := by
  rw [Nat.min_eq_right hnum]
  rfl

theorem sgxDoKickFill_pending (s : SgxServices) (hnum : k.ui32NumSrcSyncs ≤ sgxMaxSrcSyncs) :
    (sgxDoKickFill s k).2 = s.pending.taken (kickReads s k) (kickWrites s k) := by
  change (fillDst s k _).2 = _
  rw [fillDst_pending, fillSrcSyncs_pending, fillRead_pending, fillRead_pending,
    fillTa3d_pending, fill_src hnum]
  simp only [taken_taken, List.nil_append, List.append_nil]
  rfl

theorem sgxDoKickFill_reads (s : SgxServices) (hnum : k.ui32NumSrcSyncs ≤ sgxMaxSrcSyncs)
    (d : ℕ) : (sgxDoKickFill s k).1.readEntries d = (kickReads s k).count d := by
  unfold kickReads
  rw [List.count_append, List.count_append, ← fill_src hnum]
  unfold CmdTaShared.readEntries sgxDoKickFill
  rw [fillRead_entries, fillRead_entries, fillSrcSyncs_entries]

theorem sgxDoKickFill_writes (s : SgxServices) (k : SgxCcbKick) (d : ℕ) :
    (sgxDoKickFill s k).1.writeEntries k.bTADependency d = (kickWrites s k).count d := by
  unfold kickWrites
  rw [List.count_append]
  unfold CmdTaShared.writeEntries sgxDoKickFill
  rw [fillTa3d_entries, fillDst_entries]

theorem sgxDoKickUndo_eq (s : SgxServices) (k : SgxCcbKick) (p : PendingOps) :
    sgxDoKickUndo s k p =
      ⟨countAllBack p.ui32WriteOpsPending (kickDst s k),
        countAllBack p.ui32ReadOpsPending (syncDataOf s (kickSrc k))⟩ := by
  unfold sgxDoKickUndo kickDst given
  cases hfirst : k.bFirstKickOrResume && decide (0 < k.ui32NumDstSyncObjects) with
  | false => rfl
  | true => by_cases h0 : k.sDstSyncHandle = 0 <;> simp [h0, countAllBack, syncDataOf, kickSrc]

theorem kickSrc_length (k : SgxCcbKick) : (kickSrc k).length = k.ui32NumSrcSyncs := by
  simp [kickSrc, firstEntries]

theorem kickDst_length (s : SgxServices) (k : SgxCcbKick) : (kickDst s k).length ≤ 1 := by
  unfold kickDst
  split
  · exact given_length s _
  · simp

theorem kickReads_length (s : SgxServices) (hnum : k.ui32NumSrcSyncs ≤ sgxMaxSrcSyncs) :
    (kickReads s k).length < 2 ^ 32 := by
  have hkept := keptSrc_length s (kickSrc k)
  have hta := given_length s k.hTASyncInfo
  have h3d := given_length s k.h3DSyncInfo
  unfold sgxMaxSrcSyncs at hnum
  rw [kickSrc_length] at hkept
  unfold kickReads
  rw [List.length_append, List.length_append]
  omega

theorem kickWrites_length (s : SgxServices) (k : SgxCcbKick) :
    (kickWrites s k).length < 2 ^ 32 := by
  have hdst := kickDst_length s k
  have hta3d : (ta3dWrites s k).length ≤ 1 := by
    unfold ta3dWrites
    split
    · exact given_length s _
    · simp
  unfold kickWrites
  rw [List.length_append]
  omega

def DependsOnTa3d (k : SgxCcbKick) : Prop := k.bTADependency = true ∧ k.hTA3DSyncInfo ≠ 0

/-- What the caller names as a source again and again is just what TA-TQ and 3D-TQ take. -/
def RetryBalances (s : SgxServices) (k : SgxCcbKick) : Prop :=
  ¬DependsOnTa3d k ∧
    (given s k.hTASyncInfo ++ given s k.h3DSyncInfo ++
      (syncDataOf s (kickSrc k)).dedup).Perm (syncDataOf s (kickSrc k))

def TakesNothing (k : SgxCcbKick) : Prop :=
  ¬DependsOnTa3d k ∧ k.hTASyncInfo = 0 ∧ k.h3DSyncInfo = 0 ∧ k.ui32NumSrcSyncs = 0 ∧
    ¬(k.bFirstKickOrResume = true ∧ 0 < k.ui32NumDstSyncObjects ∧ k.sDstSyncHandle ≠ 0)

theorem ta3dWrites_eq_nil : ta3dWrites s k = [] ↔ ¬DependsOnTa3d k := by
  unfold ta3dWrites DependsOnTa3d
  split <;> simp [given_eq_nil, *]

theorem kickDst_eq_nil : kickDst s k = [] ↔
    ¬(k.bFirstKickOrResume = true ∧ 0 < k.ui32NumDstSyncObjects ∧ k.sDstSyncHandle ≠ 0) := by
  unfold kickDst
  cases hfirst : k.bFirstKickOrResume with
  | false => simp
  | true => by_cases hnum : 0 < k.ui32NumDstSyncObjects <;> simp [hnum, given_eq_nil]

theorem takesNothing_iff : kickReads s k = [] ∧ kickWrites s k = [] ↔ TakesNothing k := by
  have hkept : keptSrc s [] (kickSrc k) = [] ↔ k.ui32NumSrcSyncs = 0 := by
    rw [← kickSrc_length, List.length_eq_zero_iff]
    constructor
    · exact keptSrc_eq_nil
    · intro h
      rw [h]
      rfl
  unfold kickReads kickWrites TakesNothing
  simp only [List.append_eq_nil_iff, given_eq_nil, ta3dWrites_eq_nil, kickDst_eq_nil, hkept]
  constructor
  · intro h
    exact ⟨h.2.1, h.1.1.1, h.1.1.2, h.1.2, h.2.2⟩
  · intro h
    exact ⟨⟨⟨h.2.1, h.2.2.1⟩, h.2.2.2.1⟩, h.1, h.2.2.2.2⟩

/-- Taking back what a retry takes back undoes the kick exactly if the lists balance. -/
theorem undo_taken_iff (hnum : k.ui32NumSrcSyncs ≤ sgxMaxSrcSyncs) (p : PendingOps) :
    sgxDoKickUndo s k (p.taken (kickReads s k) (kickWrites s k)) = p ↔ RetryBalances s k := by
  have hsrc : (syncDataOf s (kickSrc k)).length < 2 ^ 32 := by
    unfold syncDataOf sgxMaxSrcSyncs at *
    rw [List.length_map, kickSrc_length]
    omega
  have hdst : (kickDst s k).length < 2 ^ 32 := by
    have h := kickDst_length s k
    omega
  have hwrites : (kickWrites s k).Perm (kickDst s k) ↔ ¬DependsOnTa3d k := by
    rw [← ta3dWrites_eq_nil (s := s)]
    unfold kickWrites
    constructor
    · intro h
      have hlen := h.length_eq
      rw [List.length_append] at hlen
      exact List.length_eq_zero_iff.mp (by omega)
    · intro h
      rw [h, List.nil_append]
  have hreads : (kickReads s k).Perm (syncDataOf s (kickSrc k)) ↔
      (given s k.hTASyncInfo ++ given s k.h3DSyncInfo ++
        (syncDataOf s (kickSrc k)).dedup).Perm (syncDataOf s (kickSrc k)) :=
    ((keptSrc_perm s (kickSrc k)).append_left _).congr_left _
  rw [sgxDoKickUndo_eq]
  unfold RetryBalances
  rw [← hwrites, ← hreads,
    ← countAllBack_countAllUp (f := p.ui32WriteOpsPending) (kickWrites_length s k) hdst,
    ← countAllBack_countAllUp (f := p.ui32ReadOpsPending) (kickReads_length s hnum) hsrc]
  constructor
  · intro h
    exact ⟨congrArg PendingOps.ui32WriteOpsPending h, congrArg PendingOps.ui32ReadOpsPending h⟩
  · intro h
    change PendingOps.mk (countAllBack (countAllUp _ _) _) (countAllBack (countAllUp _ _) _) = p
    rw [h.1, h.2]

theorem settled_of_ok {C : Type} {reads writes : C → ℕ → ℕ} {r : KickResult C} {c : C}
    {rs ws : List ℕ} (hok : r.eError = .ok) (hc : r.command = some c)
    (hp : r.services.pending = p.taken rs ws) (hr : ∀ d, reads c d = rs.count d)
    (hw : ∀ d, writes c d = ws.count d) : Settled p reads writes r := by
  constructor
  · intro h
    exact absurd hok h
  · intro _
    refine ⟨c, hc, fun d => ⟨?_, ?_⟩⟩
    · rw [hp, hr]
      exact countAllUp_apply _ _ d
    · rw [hp, hw]
      exact countAllUp_apply _ _ d

theorem settled_of_error {C : Type} {reads writes : C → ℕ → ℕ} {r : KickResult C}
    (he : r.eError ≠ .ok) : Settled p reads writes r ↔ r.services.pending = p := by
  constructor
  · intro h
    exact h.1 he
  · intro h
    exact ⟨fun _ => h, fun hok => absurd hok he⟩

/-- The kick comes to the call of `SGXScheduleCCBCommandKM`. -/
def SgxCcbKick.offsetValid (s : SgxServices) (k : SgxCcbKick) : Bool :=
  ccbOffsetIsValid sizeofCmdTaShared (s.ui32AllocSize k.hCCBKernelMemInfo) k.ui32CCBOffset

theorem sgxDoKickKM_invalid (hvalid : k.offsetValid s = false) :
    sgxDoKickKM s k scheduled = ⟨kickCounters s k, none, .errorInvalidParams⟩ := by
  unfold sgxDoKickKM
  change (if !k.offsetValid s then _ else _) = _
  rw [hvalid]
  rfl

theorem sgxDoKickKM_retry (hvalid : k.offsetValid s = true) :
    sgxDoKickKM s k .errorRetry =
      ⟨(kickCounters s k).setPending
        (sgxDoKickUndo s k (sgxDoKickFill (kickCounters s k) k).2),
        some (sgxDoKickFill (kickCounters s k) k).1, .errorRetry⟩ := by
  unfold sgxDoKickKM
  change (if !k.offsetValid s then _ else _) = _
  rw [hvalid]
  rfl

theorem sgxDoKickKM_other (hvalid : k.offsetValid s = true) (hne : scheduled ≠ .errorRetry) :
    sgxDoKickKM s k scheduled =
      ⟨(kickCounters s k).setPending (sgxDoKickFill (kickCounters s k) k).2,
        some (sgxDoKickFill (kickCounters s k) k).1, scheduled⟩ := by
  unfold sgxDoKickKM
  change (if !k.offsetValid s then _ else _) = _
  rw [hvalid]
  exact if_neg hne

theorem RetryBalances.of_nothing (h : TakesNothing k) : RetryBalances s k := by
  have hsrc : kickSrc k = [] := by
    rw [← List.length_eq_zero_iff, kickSrc_length]
    exact h.2.2.2.1
  refine ⟨h.1, ?_⟩
  rw [given_eq_nil.mpr h.2.1, given_eq_nil.mpr h.2.2.1, hsrc]
  exact List.Perm.refl _

theorem sgxDoKickKM_settled (s : SgxServices) (scheduled : PvrsrvError)
    (hnum : k.ui32NumSrcSyncs ≤ sgxMaxSrcSyncs) :
    Settled s.pending CmdTaShared.readEntries (CmdTaShared.writeEntries k.bTADependency)
      (sgxDoKickKM s k scheduled) ↔
    (k.offsetValid s = true → scheduled = .ok ∨ (scheduled = .errorRetry ∧ RetryBalances s k) ∨
      TakesNothing k) := by
  have hfill : (sgxDoKickFill (kickCounters s k) k).2 =
      s.pending.taken (kickReads s k) (kickWrites s k) := by
    rw [sgxDoKickFill_pending _ hnum, kickReads_kickCounters]
    rfl
  cases hvalid : k.offsetValid s with
  | false =>
    rw [sgxDoKickKM_invalid hvalid, settled_of_error (by simp)]
    simp [kickCounters]
  | true =>
    simp only [forall_const]
    by_cases hok : scheduled = .ok
    · subst hok
      rw [sgxDoKickKM_other hvalid (by decide)]
      constructor
      · intro _
        exact .inl rfl
      · intro _
        have hreads := sgxDoKickFill_reads (kickCounters s k) hnum
        rw [kickReads_kickCounters] at hreads
        exact settled_of_ok rfl rfl hfill hreads (sgxDoKickFill_writes (kickCounters s k) k)
    · by_cases hretry : scheduled = .errorRetry
      · subst hretry
        rw [sgxDoKickKM_retry hvalid, settled_of_error (by simp), hfill]
        change sgxDoKickUndo s k _ = s.pending ↔ _
        rw [undo_taken_iff hnum]
        constructor
        · intro h
          exact .inr (.inl ⟨rfl, h⟩)
        · intro h
          cases h with
          | inl h => cases h
          | inr h => exact h.elim And.right RetryBalances.of_nothing
      · rw [sgxDoKickKM_other hvalid hretry, settled_of_error hok, hfill]
        change s.pending.taken _ _ = s.pending ↔ _
        rw [taken_eq_self (kickReads_length s hnum) (kickWrites_length s k), takesNothing_iff]
        simp [hok, hretry]

def TransferSgxKick.offsetValid (s : SgxServices) (t : TransferSgxKick) : Bool :=
  ccbOffsetIsValid sizeofTransfercmdShared (s.ui32AllocSize t.hCCBMemInfo)
    t.ui32SharedCmdCCBOffset

/-- The first of the sync objects, unless the transfer leaves the counters alone. -/
def firstOf (s : SgxServices) (t : TransferSgxKick) (n : ℕ) (a : ℕ → ℕ) : List ℕ :=
  if t.keepsPending then [] else if 0 < n then [(s.syncInfos (a 0)).psSyncData] else []

def transferReads (s : SgxServices) (t : TransferSgxKick) : List ℕ :=
  firstOf s t t.ui32NumSrcSync t.ahSrcSyncInfo

def transferWrites (s : SgxServices) (t : TransferSgxKick) : List ℕ :=
  given s t.hTASyncInfo ++ given s t.h3DSyncInfo ++ firstOf s t t.ui32NumDstSync t.ahDstSyncInfo

theorem firstOf_length (s : SgxServices) (t : TransferSgxKick) (n : ℕ) (a : ℕ → ℕ) :
    (firstOf s t n a).length ≤ 1 := by
  unfold firstOf
  split_ifs <;> simp

theorem firstOf_eq_nil {n : ℕ} {a : ℕ → ℕ} :
    firstOf s t n a = [] ↔ t.keepsPending = true ∨ n = 0 := by
  unfold firstOf
  cases t.keepsPending with
  | true => simp
  | false => by_cases hn : n = 0 <;> simp [hn, Nat.pos_iff_ne_zero]

theorem fillSrcDst_pending (s : SgxServices) (t : TransferSgxKick) (p : PendingOps) :
    (fillSrcDst s t p).2.2 = p.taken (firstOf s t t.ui32NumSrcSync t.ahSrcSyncInfo)
      (firstOf s t t.ui32NumDstSync t.ahDstSyncInfo) := by
  unfold fillSrcDst firstOf
  cases t.keepsPending with
  | true => rfl
  | false =>
    by_cases hsrc : 0 < t.ui32NumSrcSync <;> by_cases hdst : 0 < t.ui32NumDstSync <;>
      simp only [hsrc, hdst, if_true, if_false, Bool.false_eq_true] <;> rfl

theorem fillSrcDst_reads (s : SgxServices) (t : TransferSgxKick) (p : PendingOps) (d : ℕ) :
    readEntriesOf (fillSrcDst s t p).1.toList d =
      (firstOf s t t.ui32NumSrcSync t.ahSrcSyncInfo).count d := by
  unfold fillSrcDst firstOf
  cases t.keepsPending with
  | true => rfl
  | false =>
    by_cases hsrc : 0 < t.ui32NumSrcSync
    · simp only [hsrc, if_true, if_false, Bool.false_eq_true]
      exact readEntriesOf_cons p _ [] d
    · simp only [hsrc, if_false, Bool.false_eq_true]
      rfl

theorem fillSrcDst_writes (s : SgxServices) (t : TransferSgxKick) (p : PendingOps) (d : ℕ) :
    writeEntriesOf (fillSrcDst s t p).2.1.toList d =
      (firstOf s t t.ui32NumDstSync t.ahDstSyncInfo).count d := by
  unfold fillSrcDst firstOf
  cases t.keepsPending with
  | true => rfl
  | false =>
    by_cases hdst : 0 < t.ui32NumDstSync
    · simp only [hdst, if_true, if_false, Bool.false_eq_true]
      exact writeEntriesOf_cons p _ [] d
    · simp only [hdst, if_false, Bool.false_eq_true]
      rfl

theorem sgxSubmitTransferFill_pending (s : SgxServices) (t : TransferSgxKick) :
    (sgxSubmitTransferFill s t).2 = s.pending.taken (transferReads s t) (transferWrites s t) := by
  change (fillSrcDst s t _).2.2 = _
  rw [fillSrcDst_pending, fillWrite_pending, fillWrite_pending]
  simp only [taken_taken, List.nil_append]
  rfl

theorem sgxSubmitTransferFill_writes (s : SgxServices) (t : TransferSgxKick) (d : ℕ) :
    (sgxSubmitTransferFill s t).1.writeEntries d = (transferWrites s t).count d := by
  unfold transferWrites
  rw [List.count_append, List.count_append]
  unfold TransfercmdShared.writeEntries sgxSubmitTransferFill
  rw [fillWrite_entries, fillWrite_entries, fillSrcDst_writes]

/-- The transfer has no sync object that would be read or written. -/
def TransfersNothing (t : TransferSgxKick) : Prop :=
  t.hTASyncInfo = 0 ∧ t.h3DSyncInfo = 0 ∧
    (t.keepsPending = true ∨ t.ui32NumSrcSync = 0 ∧ t.ui32NumDstSync = 0)

theorem transfersNothing_iff :
    transferReads s t = [] ∧ transferWrites s t = [] ↔ TransfersNothing t := by
  unfold transferReads transferWrites TransfersNothing
  simp only [List.append_eq_nil_iff, given_eq_nil, firstOf_eq_nil]
  cases t.keepsPending with
  | true => simp
  | false =>
    simp only [Bool.false_eq_true, false_or]
    constructor
    · intro h
      exact ⟨h.2.1.1, h.2.1.2, h.1, h.2.2⟩
    · intro h
      exact ⟨h.2.2.1, ⟨h.1, h.2.1⟩, h.2.2.2⟩

theorem sgxSubmitTransferKM_settled (s : SgxServices) (t : TransferSgxKick) :
    Settled s.pending TransfercmdShared.readEntries TransfercmdShared.writeEntries
      (sgxSubmitTransferKM s t scheduled) ↔
    (t.offsetValid s = true → scheduled = .ok ∨ TransfersNothing t) := by
  have hfill := sgxSubmitTransferFill_pending s t
  have hreads : (transferReads s t).length < 2 ^ 32 := by
    have h := firstOf_length s t t.ui32NumSrcSync t.ahSrcSyncInfo
    unfold transferReads
    omega
  have hwrites : (transferWrites s t).length < 2 ^ 32 := by
    have hta := given_length s t.hTASyncInfo
    have h3d := given_length s t.h3DSyncInfo
    have hdst := firstOf_length s t t.ui32NumDstSync t.ahDstSyncInfo
    unfold transferWrites
    rw [List.length_append, List.length_append]
    omega
  unfold sgxSubmitTransferKM
  change Settled _ _ _ (if !t.offsetValid s then _ else _) ↔ _
  cases t.offsetValid s with
  | false =>
    rw [Bool.not_false, if_pos rfl, settled_of_error (by simp)]
    simp
  | true =>
    rw [Bool.not_true, if_neg (by decide)]
    simp only [forall_const]
    by_cases hok : scheduled = .ok
    · subst hok
      constructor
      · intro _
        exact .inl rfl
      · intro _
        exact settled_of_ok rfl rfl hfill (fillSrcDst_reads s t _)
          (sgxSubmitTransferFill_writes s t)
    · rw [settled_of_error hok]
      change (sgxSubmitTransferFill s t).2 = s.pending ↔ _
      rw [hfill, taken_eq_self hreads hwrites, transfersNothing_iff]
      simp [hok]

theorem bind_eq_ok {α β : Type} {x : Except PvrsrvError α} {f : α → Except PvrsrvError β} {y : β}
    (h : (x >>= f) = .ok y) : ∃ a, x = .ok a ∧ f a = .ok y := by
  cases x with
  | error e => cases h
  | ok a => exact ⟨a, rfl, h⟩

theorem lookupKick_bound {b : Handles.HandleBase} {psDoKickIN : BridgeInDoKick}
    (h : lookupKick b psDoKickIN = .ok k) :
    k.ui32NumSrcSyncs ≤ sgxMaxSrcSyncs ∧ k.bTADependency = psDoKickIN.sCCBKick.bTADependency := by
  unfold lookupKick at h
  obtain ⟨cookie, -, h⟩ := bind_eq_ok h
  obtain ⟨ccb, -, h⟩ := bind_eq_ok h
  obtain ⟨ta3d, -, h⟩ := bind_eq_ok h
  obtain ⟨ta, -, h⟩ := bind_eq_ok h
  obtain ⟨threeD, -, h⟩ := bind_eq_ok h
  obtain ⟨src, hsrc, h⟩ := bind_eq_ok h
  obtain ⟨taStatus, -, h⟩ := bind_eq_ok h
  obtain ⟨status3d, -, h⟩ := bind_eq_ok h
  obtain ⟨dst, -, h⟩ := bind_eq_ok h
  cases h
  refine ⟨?_, rfl⟩
  unfold lookupArray at hsrc
  by_contra hlt
  rw [if_pos (Nat.lt_of_not_le hlt)] at hsrc
  cases hsrc

/-- The kick is accepted and comes to the call of `SGXScheduleCCBCommandKM`. -/
def KickSubmitted (s : SgxServices) (b : Handles.HandleBase) (psDoKickIN : BridgeInDoKick)
    (k : SgxCcbKick) : Prop :=
  lookupKick b psDoKickIN = .ok k ∧ k.offsetValid s = true

def TransferSubmitted (s : SgxServices) (b : Handles.HandleBase)
    (psSubmitTransferIN : BridgeInSubmitTransfer) (t : TransferSgxKick) : Prop :=
  lookupTransfer b psSubmitTransferIN = .ok t ∧ t.offsetValid s = true

theorem settled_unchanged {C : Type} (reads writes : C → ℕ → ℕ) (s : SgxServices)
    {e : PvrsrvError} (he : e ≠ .ok) :
    Settled s.pending reads writes (⟨s, none, e⟩ : KickResult C) :=
  (settled_of_error he).mpr rfl

def NamesError {α : Type} (x : Except PvrsrvError α) : Prop := ∀ e, x = .error e → e ≠ .ok

theorem NamesError.of_ok {α : Type} (a : α) : NamesError (.ok a) := by
  intro e h
  cases h

theorem NamesError.bind {α β : Type} {x : Except PvrsrvError α} {f : α → Except PvrsrvError β}
    (hx : NamesError x) (hf : ∀ a, NamesError (f a)) : NamesError (x >>= f) := by
  cases x with
  | error e =>
    intro e' h
    cases h
    exact hx e rfl
  | ok a => exact hf a

theorem namesError_lookupHandle (b : Handles.HandleBase) (h : ℕ) (type : Handles.HandleType) :
    NamesError (Handles.pvrsrvLookupHandle b h type) := by
  have hstructure : NamesError (Handles.getHandleStructure b h type) := by
    intro e he hok
    subst hok
    unfold Handles.getHandleStructure at he
    simp only at he
    split_ifs at he <;> cases he
  intro e he
  unfold Handles.pvrsrvLookupHandle at he
  cases hget : Handles.getHandleStructure b h type with
  | error e' =>
    rw [hget] at he
    cases he
    exact hstructure e hget
  | ok i =>
    rw [hget] at he
    cases he

theorem namesError_lookupOptional (b : Handles.HandleBase) (h : ℕ) :
    NamesError (lookupOptional b h) := by
  unfold lookupOptional
  split
  · exact .of_ok 0
  · exact namesError_lookupHandle b h .syncInfo

theorem namesError_lookupArray (b : Handles.HandleBase) (bound n : ℕ) (a : ℕ → ℕ) :
    NamesError (lookupArray b bound n a) := by
  have hentries : NamesError (lookupEntries b n a) := by
    induction n with
    | zero => exact .of_ok a
    | succ n ih =>
      apply ih.bind
      intro a
      apply (namesError_lookupHandle b (a n) .syncInfo).bind
      intro p
      exact .of_ok _
  unfold lookupArray
  split
  · intro e h
    cases h
    simp
  · exact hentries

theorem namesError_lookupDst (b : Handles.HandleBase) (k : SgxCcbKick) :
    NamesError (lookupDst b k) := by
  unfold lookupDst
  split
  · exact .of_ok _
  · apply (namesError_lookupHandle b _ .memInfo).bind
    intro list
    apply (namesError_lookupHandle b _ .syncInfo).bind
    intro dst
    exact .of_ok _

theorem namesError_lookupKick (b : Handles.HandleBase) (psDoKickIN : BridgeInDoKick) :
    NamesError (lookupKick b psDoKickIN) := by
  unfold lookupKick
  apply (namesError_lookupHandle b _ .devNode).bind
  intro cookie
  apply (namesError_lookupHandle b _ .memInfo).bind
  intro ccb
  apply (namesError_lookupOptional b _).bind
  intro ta3d
  apply (namesError_lookupOptional b _).bind
  intro ta
  apply (namesError_lookupOptional b _).bind
  intro threeD
  apply (namesError_lookupArray b _ _ _).bind
  intro src
  apply (namesError_lookupArray b _ _ _).bind
  intro taStatus
  apply (namesError_lookupArray b _ _ _).bind
  intro status3d
  apply (namesError_lookupDst b _).bind
  intro dst
  exact .of_ok _

theorem namesError_lookupTransfer (b : Handles.HandleBase)
    (psSubmitTransferIN : BridgeInSubmitTransfer) :
    NamesError (lookupTransfer b psSubmitTransferIN) := by
  unfold lookupTransfer
  apply (namesError_lookupHandle b _ .devNode).bind
  intro cookie
  apply (namesError_lookupHandle b _ .memInfo).bind
  intro ccb
  apply (namesError_lookupOptional b _).bind
  intro ta
  apply (namesError_lookupOptional b _).bind
  intro threeD
  apply (namesError_lookupArray b _ _ _).bind
  intro src
  apply (namesError_lookupArray b _ _ _).bind
  intro dst
  exact .of_ok _

/-- A kick settles the counters, whatever becomes of the command. -/
def KickSettles (s : SgxServices) (b : Handles.HandleBase) (psDoKickIN : BridgeInDoKick)
    (scheduled : PvrsrvError) : Prop :=
  Settled s.pending CmdTaShared.readEntries
    (CmdTaShared.writeEntries psDoKickIN.sCCBKick.bTADependency)
    (sgxDoKickBW s b psDoKickIN scheduled)

def TransferSettles (s : SgxServices) (b : Handles.HandleBase)
    (psSubmitTransferIN : BridgeInSubmitTransfer) (scheduled : PvrsrvError) : Prop :=
  Settled s.pending TransfercmdShared.readEntries TransfercmdShared.writeEntries
    (sgxSubmitTransferBW s b psSubmitTransferIN scheduled)

theorem sgxDoKickBW_settles (s : SgxServices) (b : Handles.HandleBase)
    (psDoKickIN : BridgeInDoKick) (scheduled : PvrsrvError) :
    KickSettles s b psDoKickIN scheduled ↔
    ∀ k, KickSubmitted s b psDoKickIN k →
      scheduled = .ok ∨ (scheduled = .errorRetry ∧ RetryBalances s k) ∨ TakesNothing k := by
  unfold KickSettles sgxDoKickBW KickSubmitted
  cases hlookup : lookupKick b psDoKickIN with
  | error e =>
    have hset := settled_unchanged CmdTaShared.readEntries
      (CmdTaShared.writeEntries psDoKickIN.sCCBKick.bTADependency) s
      (namesError_lookupKick b psDoKickIN e hlookup)
    simp [hset]
  | ok k =>
    have hk := lookupKick_bound hlookup
    have hset := sgxDoKickKM_settled s scheduled hk.1
    rw [hk.2] at hset
    simp only [Except.ok.injEq, and_imp, forall_eq']
    exact hset

theorem sgxSubmitTransferBW_settles (s : SgxServices) (b : Handles.HandleBase)
    (psSubmitTransferIN : BridgeInSubmitTransfer) (scheduled : PvrsrvError) :
    TransferSettles s b psSubmitTransferIN scheduled ↔
    ∀ t, TransferSubmitted s b psSubmitTransferIN t → scheduled = .ok ∨ TransfersNothing t := by
  unfold TransferSettles sgxSubmitTransferBW TransferSubmitted
  cases hlookup : lookupTransfer b psSubmitTransferIN with
  | error e =>
    have hset := settled_unchanged TransfercmdShared.readEntries TransfercmdShared.writeEntries s
      (namesError_lookupTransfer b psSubmitTransferIN e hlookup)
    simp [hset]
  | ok t =>
    simp only [Except.ok.injEq, and_imp, forall_eq']
    exact sgxSubmitTransferKM_settled s t

/-- After a kick and after a transfer the counters are settled exactly if the command was
    scheduled, nothing was taken, or what a retry of a kick takes back is what was taken. -/
theorem counters_settled (s : SgxServices) (b : Handles.HandleBase)
    (psDoKickIN : BridgeInDoKick) (psSubmitTransferIN : BridgeInSubmitTransfer)
    (scheduled : PvrsrvError) :
    (KickSettles s b psDoKickIN scheduled ↔
      ∀ k, KickSubmitted s b psDoKickIN k →
        scheduled = .ok ∨ (scheduled = .errorRetry ∧ RetryBalances s k) ∨ TakesNothing k) ∧
    (TransferSettles s b psSubmitTransferIN scheduled ↔
      ∀ t, TransferSubmitted s b psSubmitTransferIN t →
        scheduled = .ok ∨ TransfersNothing t) := by
  constructor
  · exact sgxDoKickBW_settles s b psDoKickIN scheduled
  · exact sgxSubmitTransferBW_settles s b psSubmitTransferIN scheduled

def sampleBase : Handles.HandleBase where
  blockSize := 12288
  handleArray := fun i =>
    ⟨if i = 0 then .devNode else if i = 1 then .memInfo else .syncInfo, 64 + i, 0,
      ⟨false, false⟩, ⟨false, false, false⟩, i, ⟨i, i, 0⟩, ⟨i, i, 0⟩⟩
  hashTab := ⟨fun _ => [], 32, 0, 32⟩
  freeHandCount := 253
  firstFreeIndex := 3
  maxIndexPlusOne := Handles.defaultMaxIndexPlusOne
  totalHandCount := 256
  lastFreeIndexPlusOne := 0
  handBatchSize := 0
  totalHandCountPreBatch := 0
  firstBatchIndexPlusOne := 0
  batchHandAllocFailures := 0
  purgingEnabled := false
  os := ⟨fun _ => true, 0⟩

def sampleServices : SgxServices where
  syncInfos := fun p => ⟨p⟩
  ui32AllocSize := fun _ => 4096
  pending := ⟨fun _ => 0, fun _ => 0⟩
  ui32KickTACounter := 0
  ui32KickTARenderCounter := 0

def sampleKick : BridgeInDoKick where
  hDevCookie := 1
  sCCBKick := {
    hCCBKernelMemInfo := 2
    ui32NumDstSyncObjects := 0
    hKernelHWSyncListMemInfo := 0
    sDstSyncHandle := 0
    ui32NumTAStatusVals := 0
    ui32Num3DStatusVals := 0
    ahTAStatusSyncInfo := fun _ => 0
    ah3DStatusSyncInfo := fun _ => 0
    bFirstKickOrResume := true
    bKickRender := false
    ui32CCBOffset := 0
    ui32NumSrcSyncs := 0
    ahSrcKernelSyncInfo := fun _ => 0
    bTADependency := false
    hTA3DSyncInfo := 0
    hTASyncInfo := 3
    h3DSyncInfo := 0 }

/-- The kernel CCB stays full, the kick fails and the read that it announced stays pending. -/
theorem timeout_keeps_read_pending :
    (sgxDoKickBW sampleServices sampleBase sampleKick .errorTimeout).eError = .errorTimeout ∧
    (sgxDoKickBW sampleServices sampleBase sampleKick
      .errorTimeout).services.pending.ui32ReadOpsPending 66 = 1 ∧
    ¬KickSettles sampleServices sampleBase sampleKick .errorTimeout := by
  have herror :
      (sgxDoKickBW sampleServices sampleBase sampleKick .errorTimeout).eError = .errorTimeout := by
    decide +kernel
  have hread : (sgxDoKickBW sampleServices sampleBase sampleKick
      .errorTimeout).services.pending.ui32ReadOpsPending 66 = 1 := by decide +kernel
  refine ⟨herror, hread, fun h => ?_⟩
  have hsame := h.1 (by rw [herror]; decide)
  rw [hsame] at hread
  exact absurd hread (by decide)

end PvrServices.SgxKick
