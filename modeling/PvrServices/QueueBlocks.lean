import PvrServices.BlockSizes
import PvrServices.CommandQueue
import PvrServices.MapMemoryBase

set_option autoImplicit false

/-!
# The blocks of command queues

`PVRSRVCreateCommandQueueKM` and `PVRSRVDestroyCommandQueueKM` of `queue.c`: the buffer of a queue
has room for a command behind its end, and is freed with the size of the queue alone.
-/
namespace PvrServices.QueueBlocks
open Words BlockHeap MapMemory Queues

def queueInfoSize : ℕ := 44

/-- The buffer of a `struct PVRSRV_QUEUE_INFO` and its size. -/
structure QueueBlock where
  pvLinQueueKM : ℕ
  queueSize : ℕ
deriving DecidableEq, Repr

inductive Content where
  | info (q : QueueBlock)
  | buffer (queueSize : ℕ)
deriving DecidableEq, Repr

def Content.size : Content → ℕ
  | .info _ => queueInfoSize
  | .buffer queueSize => u32 (queueSize + pvrsrvMaxCmdSize)

structure Queues where
  heap : Heap Content
  queueList : List ℕ

def queuesInit : Queues := ⟨emptyHeap Content, []⟩

def Content.asInfo : Content → Option QueueBlock
  | .info q => some q
  | _ => none

def infoAt (h : Heap Content) (q : ℕ) : Option QueueBlock :=
  (h.blocks q).bind fun b => b.content.asInfo

def createExit (s : Queues) (q : ℕ) : Option (Except PvrsrvError ℕ × Queues) := do
  let i ← infoAt s.heap q
  let h ← (if i.pvLinQueueKM = 0 then some s.heap else s.heap.free i.pvLinQueueKM i.queueSize)
  let h ← h.free q queueInfoSize
  some (.error .errorGeneric, { s with heap := h })

def createBuffer (s : Queues) (q queueSize : ℕ) (buffer : Option ℕ) :
    Option (Except PvrsrvError ℕ × Queues) := do
  let (p, h) ← s.heap.alloc (u32 (queueSize + pvrsrvMaxCmdSize)) (fun _ => .buffer queueSize) buffer
  if p = 0 then createExit { s with heap := h } q
  else do
    let h ← h.write q (.info ⟨p, queueSize⟩)
    some (.ok q, ⟨h, q :: s.queueList⟩)

def createCommandQueueKM (s : Queues) (queueSize : UInt32) (info buffer : Option ℕ) :
    Option (Except PvrsrvError ℕ × Queues) := do
  let (q, h) ← s.heap.alloc queueInfoSize (fun _ => .info ⟨0, 0⟩) info
  if q = 0 then some (.error .errorGeneric, { s with heap := h })
  else createBuffer { s with heap := h } q (nearestPower2 queueSize.toNat) buffer

def destroyFree (s : Queues) (q : ℕ) (i : QueueBlock) :
    Option (Except PvrsrvError ℕ × Queues) := do
  let h ← s.heap.free i.pvLinQueueKM i.queueSize
  let h ← h.free q queueInfoSize
  some (.ok q, ⟨h, s.queueList.erase q⟩)

def destroyCommandQueueKM (s : Queues) (q : ℕ) (drained : Bool) :
    Option (Except PvrsrvError ℕ × Queues) := do
  let i ← infoAt s.heap q
  if drained = false then some (.error .errorCannotFlushQueue, s)
  else if q ∈ s.queueList then destroyFree s q i
  else some (.error .errorInvalidParams, s)

inductive QueueOp where
  | create (queueSize : UInt32) (info buffer : Option ℕ)
  | destroy (q : ℕ) (drained : Bool)

def queueStep (s : Queues) : QueueOp → Option (Except PvrsrvError ℕ × Queues)
  | .create queueSize info buffer => createCommandQueueKM s queueSize info buffer
  | .destroy q drained => destroyCommandQueueKM s q drained

def PowerOrNone (n : ℕ) : Prop := n = 0 ∨ ∃ k ≤ 31, n = 2 ^ k

def bufferAt (h : Heap Content) (p n : ℕ) : Prop := ∃ z, h.blocks p = some ⟨z, .buffer n⟩

structure Buffered (s : Queues) : Prop where
  null : s.heap.blocks 0 = none
  nodup : s.queueList.Nodup
  buffers : ∀ q ∈ s.queueList, ∃ i, infoAt s.heap q = some i ∧
    bufferAt s.heap i.pvLinQueueKM i.queueSize ∧ PowerOrNone i.queueSize
  apart : ∀ q q' i i', q ∈ s.queueList → q' ∈ s.queueList → infoAt s.heap q = some i →
    infoAt s.heap q' = some i' → i.pvLinQueueKM = i'.pvLinQueueKM → q = q'

/-- No queue is freed whose buffer is on the other side of its size. -/
def SideKept (s : Queues) : QueueOp → Prop
  | .create _ _ _ => True
  | .destroy q drained => drained = true → q ∈ s.queueList →
      ∀ i, infoAt s.heap q = some i → i.queueSize ≠ 4096

variable {s t : Queues} {h h' : Heap Content} {q p n : ℕ} {i : QueueBlock}
  {r : Except PvrsrvError ℕ × Queues}

theorem powerOrNone_shift (hn : PowerOrNone n) : PowerOrNone (u32 (n <<< 1)) := by
  rw [Nat.shiftLeft_eq, Nat.pow_one]
  cases hn with
  | inl h0 =>
    rw [h0]
    exact .inl (u32_of_lt (by decide))
  | inr hpow =>
    obtain ⟨k, hk, hn⟩ := hpow
    by_cases hlast : k = 31
    · left
      rw [hn, hlast, u32_eq_mod]
      rfl
    · refine .inr ⟨k + 1, by omega, ?_⟩
      have hlt : 2 ^ (k + 1) ≤ 2 ^ 31 := Nat.pow_le_pow_right (by decide) (by omega)
      rw [hn, ← Nat.pow_succ, u32_of_lt (by omega)]

theorem powerOrNone_loop (fuel : ℕ) {temp : ℕ} (hn : PowerOrNone n) :
    PowerOrNone (nearestPower2Loop fuel n temp) := by
  induction fuel generalizing n temp with
  | zero => exact hn
  | succ fuel ih =>
    unfold nearestPower2Loop
    split
    · exact hn
    · exact ih (powerOrNone_shift hn)

theorem powerOrNone_nearestPower2 (value : ℕ) : PowerOrNone (nearestPower2 value) := by
  unfold nearestPower2
  split
  · exact .inl rfl
  · exact powerOrNone_loop 32 (.inr ⟨0, by decide, rfl⟩)

theorem usesVmalloc_queue (hn : PowerOrNone n) :
    usesVmalloc n = usesVmalloc (u32 (n + pvrsrvMaxCmdSize)) ↔ n ≠ 4096 := by
  have hle : n ≤ 2 ^ 31 := by
    cases hn with
    | inl h0 => omega
    | inr hpow =>
      obtain ⟨k, hk, hn⟩ := hpow
      rw [hn]
      exact Nat.pow_le_pow_right (by decide) hk
  have hside : n ≤ 2048 ∨ n = 4096 ∨ 8192 ≤ n := by
    cases hn with
    | inl h0 => omega
    | inr hpow =>
      obtain ⟨k, -, hn⟩ := hpow
      rw [hn]
      by_cases hlow : k ≤ 11
      · exact .inl (Nat.pow_le_pow_right (by decide) hlow : 2 ^ k ≤ 2 ^ 11)
      · by_cases hhigh : 13 ≤ k
        · exact .inr (.inr (Nat.pow_le_pow_right (by decide) hhigh : 2 ^ 13 ≤ 2 ^ k))
        · have hk : k = 12 := by omega
          rw [hk]
          exact .inr (.inl rfl)
  unfold usesVmalloc linuxKmallocLimit pvrsrvMaxCmdSize
  rw [u32_of_lt (by omega), decide_eq_decide]
  omega

theorem infoAt_eq_some : infoAt h q = some i ↔ ∃ z, h.blocks q = some ⟨z, .info i⟩ := by
  unfold infoAt
  constructor
  · intro hq
    obtain ⟨b, hb, hi⟩ := Option.bind_eq_some_iff.mp hq
    cases b with
    | mk z x =>
      cases x with
      | info j =>
        rw [← Option.some.inj hi]
        exact ⟨z, hb⟩
      | buffer _ => cases hi
  · rintro ⟨z, hz⟩
    rw [hz]
    rfl

theorem infoAt_congr (hq : h'.blocks q = h.blocks q) : infoAt h' q = infoAt h q := by
  unfold infoAt
  rw [hq]

theorem buffered_init : Buffered queuesInit := by
  refine ⟨rfl, List.nodup_nil, fun q hq => ?_, fun q q' i i' hq => ?_⟩
  · cases hq
  · cases hq

theorem Buffered.of_keeps (hb : Buffered s) (h0 : h'.blocks 0 = none)
    (hkeep : ∀ q b, s.heap.blocks q = some b → h'.blocks q = some b) :
    Buffered { s with heap := h' } := by
  have hback (q : ℕ) (i : QueueBlock) (hq : q ∈ s.queueList) (hi : infoAt h' q = some i) :
      infoAt s.heap q = some i := by
    obtain ⟨j, hj, -⟩ := hb.buffers q hq
    obtain ⟨z, hz⟩ := infoAt_eq_some.mp hj
    rw [← Option.some.inj ((infoAt_eq_some.mpr ⟨z, hkeep q _ hz⟩).symm.trans hi)]
    exact hj
  refine ⟨h0, hb.nodup, fun q hq => ?_, fun q q' i i' hq hq' hi hi' => ?_⟩
  · obtain ⟨i, hi, hbuffer, hpow⟩ := hb.buffers q hq
    obtain ⟨z, hz⟩ := infoAt_eq_some.mp hi
    obtain ⟨y, hy⟩ := hbuffer
    exact ⟨i, infoAt_eq_some.mpr ⟨z, hkeep q _ hz⟩, ⟨y, hkeep _ _ hy⟩, hpow⟩
  · exact hb.apart q q' i i' hq hq' (hback q i hq hi) (hback q' i' hq' hi')

/-- A call that keeps the queues, and whose frees are of the right class exactly if `good`. -/
structure Fair (good : Prop) (s t : Queues) : Prop where
  between : Between usesVmalloc Content.size s.heap t.heap good
  buffered : Buffered t

theorem createExit_fair {h₀ : Heap Content} (hs : s.heap = h')
    (ha : Allocates h₀ h' q queueInfoSize (.info ⟨0, 0⟩)) (hb₀ : Buffered { s with heap := h₀ })
    (hr : createExit s q = some r) : Fair True s r.2 := by
  unfold createExit at hr
  obtain ⟨i, hi, hr⟩ := Option.bind_eq_some_iff.mp hr
  have hnew : s.heap.blocks q = some ⟨queueInfoSize, .info ⟨0, 0⟩⟩ := by
    rw [hs]
    exact ha.new
  have hblank : i = ⟨0, 0⟩ :=
    (Option.some.inj ((infoAt_eq_some.mpr ⟨_, hnew⟩).symm.trans hi)).symm
  rw [if_pos (by rw [hblank])] at hr
  obtain ⟨h₁, hfirst, hr⟩ := Option.bind_eq_some_iff.mp hr
  obtain ⟨h₂, hfree, hr⟩ := Option.bind_eq_some_iff.mp hr
  rw [← Option.some.inj hfirst] at hfree
  rw [← Option.some.inj hr]
  refine ⟨Heap.free_between_of_content hfree hnew rfl, ?_⟩
  have hspec := Heap.free_spec hfree
  have hback : h₂.blocks = h₀.blocks := by
    funext k
    by_cases hk : k = q
    · rw [hk, hspec.gone, ha.fresh]
    · rw [hspec.others k hk, hs, ha.others k hk]
  have hnull := hb₀.null
  refine hb₀.of_keeps (by rw [hback]; exact hnull) fun k b hk => ?_
  rw [hback]
  exact hk

theorem createCommandQueueKM_fair {queueSize : UInt32} {info buffer : Option ℕ} (hb : Buffered s)
    (hr : createCommandQueueKM s queueSize info buffer = some r) : Fair True s r.2 := by
  unfold createCommandQueueKM at hr
  obtain ⟨⟨q, h₁⟩, hq, hr⟩ := Option.bind_eq_some_iff.mp hr
  dsimp only at hr
  have hfirst : Between usesVmalloc Content.size s.heap h₁ True := Heap.alloc_between hq rfl
  cases Heap.alloc_spec hq with
  | inl hnone =>
    rw [if_pos hnone.2.1] at hr
    rw [← Option.some.inj hr, hnone.2.2]
    exact ⟨.refl, hb⟩
  | inr hnew =>
    obtain ⟨-, hnew⟩ := hnew
    rw [if_neg hnew.pos] at hr
    unfold createBuffer at hr
    obtain ⟨⟨p, h₂⟩, hp, hr⟩ := Option.bind_eq_some_iff.mp hr
    dsimp only at hr hp
    have hsecond : Between usesVmalloc Content.size h₁ h₂ True := Heap.alloc_between hp rfl
    cases Heap.alloc_spec hp with
    | inl hnone =>
      rw [if_pos hnone.2.1, hnone.2.2] at hr
      have hexit := createExit_fair (s := { s with heap := h₁ }) rfl hnew hb hr
      exact ⟨hexit.between.after hfirst, hexit.buffered⟩
    | inr hnew' =>
      obtain ⟨-, hnew'⟩ := hnew'
      rw [if_neg hnew'.pos] at hr
      obtain ⟨h₃, hw, hr⟩ := Option.bind_eq_some_iff.mp hr
      rw [← Option.some.inj hr]
      obtain ⟨b, hbq, hat, hothers, -⟩ := Heap.write_spec hw
      have hqp : q ≠ p := by
        intro hqp
        have hfresh := hnew'.fresh
        rw [← hqp, hnew.new] at hfresh
        cases hfresh
      have hbq' := hnew'.keeps hnew.new
      have hthird : Between usesVmalloc Content.size h₂ h₃ True := by
        refine Heap.write_between hw fun c hc => ?_
        rw [← Option.some.inj (hbq'.symm.trans hc)]
        rfl
      have hkeep (k : ℕ) (c : Block Content) (hk : s.heap.blocks k = some c) :
          h₃.blocks k = some c := by
        have hkq : k ≠ q := by
          intro hkq
          rw [hkq, hnew.fresh] at hk
          cases hk
        rw [hothers k hkq]
        exact hnew'.keeps (hnew.keeps hk)
      have hnull : h₃.blocks 0 = none := by
        rw [hothers 0 hnew.pos.symm, hnew'.others 0 hnew'.pos.symm, hnew.others 0 hnew.pos.symm]
        exact hb.null
      have hold := hb.of_keeps hnull hkeep
      have hinfo : infoAt h₃ q = some ⟨p, nearestPower2 queueSize.toNat⟩ :=
        infoAt_eq_some.mpr ⟨_, hat⟩
      have hpnew (k : ℕ) (i : QueueBlock) (hk : k ∈ s.queueList) (hi : infoAt h₃ k = some i) :
          i.pvLinQueueKM ≠ p := by
        intro heq
        obtain ⟨j, hj, hbuffer, -⟩ := hb.buffers k hk
        obtain ⟨z, hz⟩ := infoAt_eq_some.mp hj
        have hij := Option.some.inj ((infoAt_eq_some.mpr ⟨z, hkeep k _ hz⟩).symm.trans hi)
        obtain ⟨y, hy⟩ := hbuffer
        have hfresh := hnew'.fresh
        rw [← heq, ← hij, hnew.keeps hy] at hfresh
        cases hfresh
      have hqnew : q ∉ s.queueList := by
        intro hmem
        obtain ⟨j, hj, -⟩ := hb.buffers q hmem
        obtain ⟨z, hz⟩ := infoAt_eq_some.mp hj
        rw [hnew.fresh] at hz
        cases hz
      refine ⟨(hthird.after hsecond).after hfirst, hnull, ?_, fun k hk => ?_,
        fun k k' i i' hk hk' hi hi' heq => ?_⟩
      · exact List.nodup_cons.mpr ⟨hqnew, hb.nodup⟩
      · cases List.mem_cons.mp hk with
        | inl hkq =>
          rw [hkq]
          exact ⟨_, hinfo, ⟨_, (hothers p hqp.symm).trans hnew'.new⟩, powerOrNone_nearestPower2 _⟩
        | inr hk => exact hold.buffers k hk
      · cases List.mem_cons.mp hk with
        | inl hkq =>
          cases List.mem_cons.mp hk' with
          | inl hkq' => rw [hkq, hkq']
          | inr hk' =>
            rw [hkq] at hi
            rw [← Option.some.inj (hinfo.symm.trans hi)] at heq
            exact absurd heq.symm (hpnew k' i' hk' hi')
        | inr hk =>
          cases List.mem_cons.mp hk' with
          | inl hkq' =>
            rw [hkq'] at hi'
            rw [← Option.some.inj (hinfo.symm.trans hi')] at heq
            exact absurd heq (hpnew k i hk hi)
          | inr hk' => exact hold.apart k k' i i' hk hk' hi hi' heq

theorem destroyFree_fair (hb : Buffered s) (hq : q ∈ s.queueList) (hi : infoAt s.heap q = some i)
    (hr : destroyFree s q i = some r) : Fair (i.queueSize ≠ 4096) s r.2 := by
  unfold destroyFree at hr
  obtain ⟨h₁, hbuffer, hr⟩ := Option.bind_eq_some_iff.mp hr
  obtain ⟨h₂, hinfo, hr⟩ := Option.bind_eq_some_iff.mp hr
  rw [← Option.some.inj hr]
  obtain ⟨i', hi', ⟨y, hy⟩, hpow⟩ := hb.buffers q hq
  obtain rfl : i = i' := Option.some.inj (hi.symm.trans hi')
  obtain ⟨z, hz⟩ := infoAt_eq_some.mp hi
  have hspec := Heap.free_spec hbuffer
  have hspec' := Heap.free_spec hinfo
  have hfirst : Between usesVmalloc Content.size s.heap h₁ (i.queueSize ≠ 4096) := by
    refine (Heap.free_between hbuffer).congr ⟨fun hall => ?_, fun hne b hb' => ?_⟩
    · exact (usesVmalloc_queue hpow).mp (hall _ hy)
    · rw [← Option.some.inj (hy.symm.trans hb')]
      exact (usesVmalloc_queue hpow).mpr hne
  have hother (k : ℕ) (j : QueueBlock) (hk : infoAt s.heap k = some j) :
      k ≠ i.pvLinQueueKM := by
    intro heq
    obtain ⟨x, hx⟩ := infoAt_eq_some.mp hk
    rw [heq, hy] at hx
    cases hx
  have hsecond : Between usesVmalloc Content.size h₁ h₂ True := by
    refine Heap.free_between_of_content hinfo (b := ⟨z, .info i⟩) ?_ rfl
    rw [hspec.others q (hother q i hi)]
    exact hz
  have hback (k : ℕ) (j : QueueBlock) (hkq : k ≠ q) (hk : infoAt s.heap k = some j) :
      infoAt h₂ k = some j := by
    rw [infoAt_congr ((hspec'.others k hkq).trans (hspec.others k (hother k j hk)))]
    exact hk
  have hmem (k : ℕ) (hk : k ∈ s.queueList.erase q) : k ≠ q ∧ k ∈ s.queueList :=
    (hb.nodup.mem_erase_iff).mp hk
  refine ⟨hfirst.before hsecond, hspec'.gone_of_none (hspec.gone_of_none hb.null),
    hb.nodup.erase q, fun k hk => ?_, fun k k' j j' hk hk' hj hj' heq => ?_⟩
  · obtain ⟨hkq, hk⟩ := hmem k hk
    obtain ⟨j, hj, ⟨x, hx⟩, hpow'⟩ := hb.buffers k hk
    refine ⟨j, hback k j hkq hj, ⟨x, ?_⟩, hpow'⟩
    have hne : j.pvLinQueueKM ≠ i.pvLinQueueKM := fun heq => hkq (hb.apart k q j i hk hq hj hi heq)
    have hne' : j.pvLinQueueKM ≠ q := by
      intro heq
      rw [heq, hz] at hx
      cases hx
    change h₂.blocks _ = _
    rw [hspec'.others _ hne', hspec.others _ hne]
    exact hx
  · obtain ⟨hkq, hk⟩ := hmem k hk
    obtain ⟨hkq', hk'⟩ := hmem k' hk'
    obtain ⟨m, hm, -⟩ := hb.buffers k hk
    obtain ⟨m', hm', -⟩ := hb.buffers k' hk'
    rw [← Option.some.inj ((hback k m hkq hm).symm.trans hj),
      ← Option.some.inj ((hback k' m' hkq' hm').symm.trans hj')] at heq
    exact hb.apart k k' m m' hk hk' hm hm' heq

/-- Every call keeps the queues with their buffers, and frees on the right side exactly as it
    should. -/
theorem queueStep_fair {op : QueueOp} (hb : Buffered s) (hr : queueStep s op = some r) :
    Fair (SideKept s op) s r.2 := by
  cases op with
  | create queueSize info buffer => exact createCommandQueueKM_fair hb hr
  | destroy q drained =>
    unfold queueStep destroyCommandQueueKM at hr
    dsimp only at hr
    obtain ⟨i, hi, hr⟩ := Option.bind_eq_some_iff.mp hr
    split at hr
    · rename_i hdrained
      rw [← Option.some.inj hr]
      refine ⟨Between.refl.congr ⟨fun _ htrue => ?_, fun _ => trivial⟩, hb⟩
      rw [hdrained] at htrue
      cases htrue
    · rename_i hdrained
      split at hr
      · rename_i hq
        obtain ⟨hbetween, hbuffered⟩ := destroyFree_fair hb hq hi hr
        refine ⟨hbetween.congr ⟨fun hne _ _ j hj => ?_, fun hall => ?_⟩, hbuffered⟩
        · rw [← Option.some.inj (hi.symm.trans hj)]
          exact hne
        · exact hall (by simpa using hdrained) hq i hi
      · rename_i hq
        rw [← Option.some.inj hr]
        exact ⟨Between.refl.congr ⟨fun _ _ hmem => absurd hmem hq, fun _ => trivial⟩, hb⟩

end PvrServices.QueueBlocks
