import PvrServices.CommandQueueOrderRuns

set_option autoImplicit false

/-!
# Commands that are flushed

In flush mode a command may also run when the completed counters of its sync objects have gone past
the copies it took. `SYNCOPS_STALE` compares the counters as numbers, `sync_cnt_after_eq` of
`sgxutils.c` as positions on the ring of the words.
-/
namespace PvrServices.Queues
open Words Memory Runs
variable {s : SysData} {c : Command} {syncs : Syncs} {flush : Bool}

def syncCntAfterEq (c1 c2 : UInt32) : Bool := 0 ≤ (c1 - c2).toBitVec.toInt

/-- A completed counter and the copy of the pending one that a command waits for. -/
structure CounterPair where
  complete : UInt32
  pending : UInt32
deriving DecidableEq, Repr

/-- The counters that `PVRSRVProcessCommand` compares for a sync object. -/
def counterPairs (syncs : Syncs) (o : SyncObject) : List CounterPair :=
  let d := syncs o.kernelSyncInfo
  [⟨d.writeOpsComplete, o.writeOpsPending⟩, ⟨d.readOpsComplete, o.readOpsPending⟩]

def commandPairs (syncs : Syncs) (c : Command) : List CounterPair :=
  (c.dstSync ++ c.srcSync).flatMap (counterPairs syncs)

/-- The command is turned away for its dependencies: whatever the slots of the devices hold. -/
def RefusedForSyncs (s : SysData) (c : Command) (flush : Bool) : Prop :=
  ∀ slots accepts, (processCommand { s with cmdCompleteData := slots } c flush accepts).1 =
    .errorFailedDependencies

/-- The completed counter has not come up to the copy, on the ring of the words. -/
def CounterPair.Ahead (p : CounterPair) : Prop := syncCntAfterEq p.complete p.pending = false

instance (p : CounterPair) : Decidable p.Ahead := inferInstanceAs (Decidable (_ = _))

def CounterPair.Below (p : CounterPair) : Prop := p.complete < p.pending

instance (p : CounterPair) : Decidable p.Below := inferInstanceAs (Decidable (_ < _))

/-- A counter has come round between the copy and the completed operations: as numbers they are
    half the range apart. -/
def CounterPair.Wrapped (p : CounterPair) : Prop :=
  p.pending.toNat + 2147483648 ≤ p.complete.toNat ∨
    p.complete.toNat + 2147483648 < p.pending.toNat

instance (p : CounterPair) : Decidable p.Wrapped := inferInstanceAs (Decidable (_ ∨ _))

structure FlushesRight (s : SysData) (c : Command) : Prop where
  refused : RefusedForSyncs s c true ↔ ∃ p ∈ commandPairs s.syncs c, p.Ahead
  accepted : ¬RefusedForSyncs s c false → ¬RefusedForSyncs s c true

/-- No counter of the command has come round, or there is one on which both orders agree that the
    command has to wait, or the counters that have come round fall on both sides. -/
def OrdersAgree (syncs : Syncs) (c : Command) : Prop :=
  (∀ p ∈ commandPairs syncs c, ¬p.Wrapped) ∨
  (∃ p ∈ commandPairs syncs c, ¬p.Wrapped ∧ p.Below) ∨
  (∃ p ∈ commandPairs syncs c, p.Wrapped ∧ p.Below) ∧
    ∃ p ∈ commandPairs syncs c, p.Wrapped ∧ ¬p.Below

theorem syncCntAfterEq_iff (c1 c2 : UInt32) :
    syncCntAfterEq c1 c2 = true ↔ (c1 - c2).toNat < 2147483648 := by
  unfold syncCntAfterEq
  rw [decide_eq_true_eq, BitVec.toInt_eq_toNat_cond]
  have hlt := (c1 - c2).toBitVec.isLt
  change _ ↔ (c1 - c2).toBitVec.toNat < 2147483648
  split <;> omega

/-- The orders differ exactly on the counters that have come round. -/
theorem ahead_iff (p : CounterPair) : p.Ahead ↔ ¬(p.Wrapped ↔ p.Below) := by
  have hc := p.complete.toNat_lt
  have hp := p.pending.toNat_lt
  have hsub : (p.complete - p.pending).toNat =
      (4294967296 - p.pending.toNat + p.complete.toNat) % 4294967296 := UInt32.toNat_sub _ _
  unfold CounterPair.Ahead
  rw [← Bool.not_eq_true, syncCntAfterEq_iff, hsub]
  unfold CounterPair.Wrapped CounterPair.Below
  rw [UInt32.lt_iff_toNat_lt]
  omega

theorem syncPasses_flush (syncs : Syncs) (o : SyncObject) :
    syncPasses syncs true o = true ↔ ∀ p ∈ counterPairs syncs o, ¬p.Below := by
  unfold syncPasses counterPairs CounterPair.Below syncopsStale
  simp only [Bool.true_and, Bool.or_eq_true, Bool.and_eq_true, decide_eq_true_eq, List.mem_cons,
    List.not_mem_nil, or_false, forall_eq_or_imp, forall_eq, UInt32.not_lt]
  constructor
  · rintro (hequal | hstale)
    · rw [hequal.1, hequal.2]
      exact ⟨UInt32.le_refl _, UInt32.le_refl _⟩
    · exact hstale
  · exact Or.inr

theorem syncPasses_mono {o : SyncObject} (h : syncPasses syncs false o = true) :
    syncPasses syncs true o = true := by
  unfold syncPasses at h ⊢
  simp only [Bool.false_and, Bool.or_false] at h
  simp only [h, Bool.true_or]

theorem refusedForSyncs_iff :
    RefusedForSyncs s c flush ↔ ∃ o ∈ c.dstSync ++ c.srcSync, syncPasses s.syncs flush o = false := by
  unfold RefusedForSyncs
  constructor
  · intro hall
    by_contra hnone
    have hpass : ∀ o ∈ c.dstSync ++ c.srcSync, syncPasses s.syncs flush o = true := by
      intro o ho
      by_contra hfail
      exact hnone ⟨o, ho, Bool.not_eq_true _ ▸ hfail⟩
    have hdst : c.dstSync.all (syncPasses s.syncs flush) = true :=
      List.all_eq_true.mpr fun o ho => hpass o (List.mem_append_left _ ho)
    have hsrc : c.srcSync.all (syncPasses s.syncs flush) = true :=
      List.all_eq_true.mpr fun o ho => hpass o (List.mem_append_right _ ho)
    have hfree := hall (fun _ _ => ⟨false, [], []⟩) true
    unfold processCommand at hfree
    simp only [hdst, hsrc, Bool.true_eq_false, if_false, Bool.false_eq_true] at hfree
    split at hfree <;> cases hfree
  · rintro ⟨o, ho, hfail⟩ slots accepts
    unfold processCommand
    have hall {l : List SyncObject} (hin : o ∈ l) : l.all (syncPasses s.syncs flush) = false := by
      rw [List.all_eq_false]
      exact ⟨o, hin, by rw [hfail]; exact Bool.false_ne_true⟩
    cases List.mem_append.mp ho with
    | inl hdst => rw [if_pos (hall hdst)]
    | inr hsrc =>
      split
      · rfl
      · rw [if_pos (hall hsrc)]

theorem refused_flush_iff :
    RefusedForSyncs s c true ↔ ∃ p ∈ commandPairs s.syncs c, p.Below := by
  rw [refusedForSyncs_iff]
  unfold commandPairs
  constructor
  · rintro ⟨o, ho, hfail⟩
    have hnot := mt (syncPasses_flush s.syncs o).mpr (by rw [hfail]; exact Bool.false_ne_true)
    push Not at hnot
    obtain ⟨p, hp, hbelow⟩ := hnot
    exact ⟨p, List.mem_flatMap.mpr ⟨o, ho, hp⟩, hbelow⟩
  · rintro ⟨p, hp, hbelow⟩
    obtain ⟨o, ho, hpo⟩ := List.mem_flatMap.mp hp
    refine ⟨o, ho, ?_⟩
    rw [← Bool.not_eq_true, syncPasses_flush]
    exact fun hnone => hnone p hpo hbelow

/-- For every command and every value of the counters. -/
theorem flushes_right_iff (s : SysData) (c : Command) :
    FlushesRight s c ↔ OrdersAgree s.syncs c := by
  have hmono : ¬RefusedForSyncs s c false → ¬RefusedForSyncs s c true := by
    intro hpass hrefused
    apply hpass
    obtain ⟨o, ho, hfail⟩ := refusedForSyncs_iff.mp hrefused
    refine refusedForSyncs_iff.mpr ⟨o, ho, ?_⟩
    by_contra hfalse
    rw [syncPasses_mono (Bool.not_eq_false _ ▸ hfalse)] at hfail
    cases hfail
  have hsame : FlushesRight s c ↔
      ((∃ p ∈ commandPairs s.syncs c, p.Below) ↔ ∃ p ∈ commandPairs s.syncs c, p.Ahead) :=
    ⟨fun h => refused_flush_iff.symm.trans h.refused, fun h => ⟨refused_flush_iff.trans h, hmono⟩⟩
  rw [hsame]
  unfold OrdersAgree
  simp only [ahead_iff]
  constructor
  · intro hiff
    by_cases hnone : ∀ p ∈ commandPairs s.syncs c, ¬p.Wrapped
    · exact .inl hnone
    · push Not at hnone
      obtain ⟨p, hp, hw⟩ := hnone
      by_cases hb : p.Below
      · obtain ⟨q, hq, hne⟩ := hiff.mp ⟨p, hp, hb⟩
        by_cases hqb : q.Below
        · exact .inr (.inl ⟨q, hq, fun hqw => hne ⟨fun _ => hqb, fun _ => hqw⟩, hqb⟩)
        · refine .inr (.inr ⟨⟨p, hp, hw, hb⟩, q, hq, ?_, hqb⟩)
          by_contra hqw
          exact hne ⟨fun h => absurd h hqw, fun h => absurd h hqb⟩
      · obtain ⟨q, hq, hqb⟩ := hiff.mpr ⟨p, hp, fun h => hb (h.mp hw)⟩
        by_cases hqw : q.Wrapped
        · exact .inr (.inr ⟨⟨q, hq, hqw, hqb⟩, p, hp, hw, hb⟩)
        · exact .inr (.inl ⟨q, hq, hqw, hqb⟩)
  · rintro (hnone | ⟨q, hq, hqw, hqb⟩ | ⟨⟨p, hp, hpw, hpb⟩, q, hq, hqw, hqb⟩)
    · constructor
      · rintro ⟨p, hp, hb⟩
        exact ⟨p, hp, fun h => hnone p hp (h.mpr hb)⟩
      · rintro ⟨p, hp, hne⟩
        refine ⟨p, hp, ?_⟩
        by_contra hb
        exact hne ⟨fun h => absurd h (hnone p hp), fun h => absurd h hb⟩
    · exact ⟨fun _ => ⟨q, hq, fun h => hqw (h.mpr hqb)⟩, fun _ => ⟨q, hq, hqb⟩⟩
    · exact ⟨fun _ => ⟨q, hq, fun h => hqb (h.mp hqw)⟩, fun _ => ⟨p, hp, hpb⟩⟩

def flushOps : List SysOp :=
  [.insert 0 ⟨1, 0, 3, [4096], [], 0, []⟩, .submit 0, .process 0 fun _ => true,
    .insert 1 ⟨2, 0, 4, [4096], [], 0, []⟩, .submit 1]

theorem flush_overtakes : ∃ l s t c, exec sysStep sampleSystem flushOps = some (l, s) ∧
    s.queues[1]? = some t ∧ headCommand t.queue = some c ∧
    (processCommand s c true true).1 = .ok ∧ ¬FlushesRight s c := by
  have hrun : ((exec sysStep sampleSystem flushOps).bind fun r => r.2.queues[1]?.bind fun t =>
      (headCommand t.queue).map fun c => (decide ((processCommand r.2 c true true).1 = .ok),
        decide (∃ p ∈ commandPairs r.2.syncs c, p.Ahead))) = some (true, true) := by decide +kernel
  obtain ⟨⟨l, s⟩, hexec, hrest⟩ := Option.bind_eq_some_iff.mp hrun
  obtain ⟨t, ht, hhead⟩ := Option.bind_eq_some_iff.mp hrest
  obtain ⟨c, hc, heq⟩ := Option.map_eq_some_iff.mp hhead
  simp only [Prod.mk.injEq, decide_eq_true_eq] at heq
  refine ⟨l, s, t, c, hexec, ht, hc, heq.1, fun hright => ?_⟩
  have hrefused := hright.refused.mpr heq.2 s.cmdCompleteData true
  rw [heq.1] at hrefused
  cases hrefused

end PvrServices.Queues
