import PvrServices.CommandQueueSync

set_option autoImplicit false

/-!
# Histories of commands

The commands in the order of their insertion, each with how far it has come, and the operations
on a sync object that a history has asked for and completed.
-/
namespace PvrServices.Queues
open Words Memory Runs

inductive Status where
  | waiting
  | dispatched
  | completed
deriving DecidableEq, Repr

structure Entry where
  queue : ℕ
  command : Command
  status : Status

variable {h pre post : List Entry} {e : Entry} {o : UInt32}

def syncInfos (os : List SyncObject) : List UInt32 := os.map SyncObject.kernelSyncInfo

def Shares (c d : Command) : Prop :=
  ∃ o, (o ∈ syncInfos c.dstSync ∨ o ∈ syncInfos c.srcSync) ∧
    (o ∈ syncInfos d.dstSync ∨ o ∈ syncInfos d.srcSync)

/-- The first entry that passes a test comes to the status `st`. -/
def setFirst (test : Entry → Bool) (st : Status) : List Entry → List Entry
  | [] => []
  | e :: h => if test e then { e with status := st } :: h else e :: setFirst test st h

def Entry.waitsIn (i : ℕ) (e : Entry) : Bool := e.queue = i && e.status = .waiting

def Entry.runsIn (dev type : ℕ) (e : Entry) : Bool :=
  e.status = .dispatched && e.command.devIndex.toNat = dev && e.command.commandType.toNat = type

def Entry.done (e : Entry) : Bool := e.status = .completed

def record (h : List Entry) : SysOp × SysAnswer → List Entry
  | (.insert i _, .inserted (.ok c)) => h ++ [⟨i, c, .waiting⟩]
  | (.process i _, .taken (some _)) => setFirst (Entry.waitsIn i) .dispatched h
  | (.complete dev type, .completed) => setFirst (Entry.runsIn dev type) .completed h
  | _ => h

theorem setFirst_split {test : Entry → Bool} (st : Status) (hex : ∃ e ∈ h, test e = true) :
    ∃ pre e post, h = pre ++ e :: post ∧ test e = true ∧ (∀ f ∈ pre, test f = false) ∧
      setFirst test st h = pre ++ { e with status := st } :: post := by
  induction h with
  | nil => simp at hex
  | cons f h ih =>
    unfold setFirst
    by_cases hf : test f = true
    · rw [if_pos hf]
      exact ⟨[], f, h, rfl, hf, by simp, rfl⟩
    · rw [if_neg hf]
      have hrest : ∃ e ∈ h, test e = true := by
        obtain ⟨e, he, ht⟩ := hex
        rcases List.mem_cons.mp he with rfl | he
        · exact absurd ht hf
        · exact ⟨e, he, ht⟩
      obtain ⟨pre, e, post, rfl, ht, hpre, hset⟩ := ih hrest
      refine ⟨f :: pre, e, post, rfl, ht, ?_, by rw [hset]; rfl⟩
      intro g hg
      rcases List.mem_cons.mp hg with rfl | hg
      · exact Bool.not_eq_true _ ▸ hf
      · exact hpre g hg

theorem setFirst_map_command (test : Entry → Bool) (st : Status) (h : List Entry) :
    (setFirst test st h).map Entry.command = h.map Entry.command := by
  induction h with
  | nil => rfl
  | cons e h ih =>
    unfold setFirst
    split
    · rfl
    · rw [List.map_cons, List.map_cons, ih]

/-- The operations on `o` through the sync objects that `side` selects. -/
def ops (side : Command → List SyncObject) (h : List Entry) (o : UInt32) : ℕ :=
  (h.map fun e => (syncInfos (side e.command)).count o).sum

variable {side : Command → List SyncObject}

@[simp] theorem ops_nil (side : Command → List SyncObject) (o : UInt32) : ops side [] o = 0 := rfl

@[simp] theorem ops_cons (side : Command → List SyncObject) (e : Entry) (h : List Entry)
    (o : UInt32) : ops side (e :: h) o = (syncInfos (side e.command)).count o + ops side h o := rfl

@[simp] theorem ops_append (side : Command → List SyncObject) (h g : List Entry) (o : UInt32) :
    ops side (h ++ g) o = ops side h o + ops side g o := by
  simp [ops]

theorem ops_congr {g : List Entry} (side : Command → List SyncObject) (o : UInt32)
    (hmap : g.map Entry.command = h.map Entry.command) : ops side g o = ops side h o := by
  have hops (k : List Entry) : ops side k o =
      ((k.map Entry.command).map fun c => (syncInfos (side c)).count o).sum := by
    rw [List.map_map]
    rfl
  rw [hops, hops, hmap]

theorem ops_done_le (side : Command → List SyncObject) (h : List Entry) (o : UInt32) :
    ops side (h.filter Entry.done) o ≤ ops side h o := by
  induction h with
  | nil => exact le_rfl
  | cons e h ih =>
    rw [List.filter_cons]
    split
    · rw [ops_cons, ops_cons]
      omega
    · rw [ops_cons]
      omega

theorem done_of_ops_eq (heq : ops side (h.filter Entry.done) o = ops side h o) (he : e ∈ h)
    (ho : o ∈ syncInfos (side e.command)) : e.done = true := by
  induction h with
  | nil => simp at he
  | cons f h ih =>
    rw [List.filter_cons] at heq
    have hle := ops_done_le side h o
    by_cases hf : f.done = true
    · rw [if_pos hf, ops_cons, ops_cons] at heq
      rcases List.mem_cons.mp he with rfl | he
      · exact hf
      · exact ih (by omega) he
    · rw [if_neg hf, ops_cons] at heq
      rcases List.mem_cons.mp he with rfl | he
      · have := List.count_pos_iff.mpr ho
        omega
      · exact ih (by omega) he

theorem ops_eq_zero (hnone : ∀ e ∈ h, o ∉ syncInfos (side e.command)) : ops side h o = 0 := by
  induction h with
  | nil => rfl
  | cons e h ih =>
    rw [ops_cons, List.count_eq_zero.mpr (hnone e (by simp)),
      ih fun f hf => hnone f (by simp [hf])]

theorem eq_of_ofNat_eq {m n : ℕ} (h : UInt32.ofNat m = UInt32.ofNat n) (hle : m ≤ n)
    (hclose : n < m + 4294967296) : m = n := by
  have hmod : m % 4294967296 = n % 4294967296 := by
    have := congrArg UInt32.toNat h
    simpa using this
  omega

theorem setSync_apply (syncs : Syncs) (o p : UInt32) (d : SyncData) :
    setSync syncs o d p = if p = o then d else syncs p := rfl

theorem ofNat_count_cons (o p : UInt32) (os : List UInt32) :
    UInt32.ofNat ((p :: os).count o) =
      (if o = p then 1 else 0) + UInt32.ofNat (os.count o) := by
  rw [List.count_cons]
  by_cases hop : o = p
  · subst hop
    simp [UInt32.ofNat_add, UInt32.add_comm]
  · have : ¬ p = o := fun h => hop h.symm
    simp [hop, this]

theorem takeSyncs_cons (isReadOp : Bool) (syncs : Syncs) (p : UInt32) (os : List UInt32) :
    let d := syncs p
    let syncs' := setSync syncs p (if isReadOp then
      { d with readOpsPending := d.readOpsPending + 1 }
      else { d with writeOpsPending := d.writeOpsPending + 1 })
    takeSyncs isReadOp syncs (p :: os) =
      (⟨p, d.writeOpsPending, d.readOpsPending⟩ :: (takeSyncs isReadOp syncs' os).1,
        (takeSyncs isReadOp syncs' os).2) := by
  cases isReadOp
  · have hself : (setSync syncs p { syncs p with
        writeOpsPending := (syncs p).writeOpsPending + 1 } p).readOpsPending =
        (syncs p).readOpsPending := by simp [setSync_apply]
    simp [takeSyncs, getWriteOpsPending, getReadOpsPending, hself]
  · simp [takeSyncs, getWriteOpsPending, getReadOpsPending]

/-- What the loops of the insertion do to the counters, and the copies that they take. -/
theorem takeSyncs_spec (isReadOp : Bool) (syncs : Syncs) (os : List UInt32) :
    syncInfos (takeSyncs isReadOp syncs os).1 = os ∧
    (∀ o, (takeSyncs isReadOp syncs os).2 o = if isReadOp then
        { syncs o with
          readOpsPending := (syncs o).readOpsPending + UInt32.ofNat (os.count o) }
      else
        { syncs o with
          writeOpsPending := (syncs o).writeOpsPending + UInt32.ofNat (os.count o) }) ∧
    ∀ o ∈ os, ⟨o, (syncs o).writeOpsPending, (syncs o).readOpsPending⟩ ∈
      (takeSyncs isReadOp syncs os).1 := by
  induction os generalizing syncs with
  | nil =>
    refine ⟨rfl, fun o => ?_, by simp⟩
    cases isReadOp <;> simp [takeSyncs]
  | cons p os ih =>
    rw [takeSyncs_cons]
    dsimp only
    obtain ⟨hids, hsyncs, hobjs⟩ := ih (setSync syncs p (if isReadOp then
      { syncs p with readOpsPending := (syncs p).readOpsPending + 1 }
      else { syncs p with writeOpsPending := (syncs p).writeOpsPending + 1 }))
    refine ⟨?_, fun o => ?_, fun o ho => ?_⟩
    · rw [syncInfos, List.map_cons, ← syncInfos, hids]
    · rw [hsyncs o, setSync_apply, ofNat_count_cons]
      by_cases hop : o = p
      · cases isReadOp <;> simp [hop, UInt32.add_assoc]
      · simp [hop]
    · by_cases hop : o = p
      · rw [hop]
        exact List.mem_cons_self
      · have := hobjs o (by simpa [hop] using ho)
        rw [setSync_apply, if_neg hop] at this
        exact List.mem_cons_of_mem _ this

theorem insertion_length (x : InsertCall) (syncs : Syncs) :
    (x.insertion syncs).1.dstSync.length = x.dstSync.length ∧
      (x.insertion syncs).1.srcSync.length = x.srcSync.length := by
  have hdst := congrArg List.length (takeSyncs_spec false syncs x.dstSync).1
  have hsrc := congrArg List.length
    (takeSyncs_spec true (takeSyncs false syncs x.dstSync).2 x.srcSync).1
  unfold syncInfos at hdst hsrc
  rw [List.length_map] at hdst hsrc
  exact ⟨hdst, hsrc⟩

theorem completeWrites_spec (syncs : Syncs) (objects : List SyncObject) (o : UInt32) :
    completeWrites syncs objects o = { syncs o with
      writeOpsComplete := (syncs o).writeOpsComplete +
        UInt32.ofNat ((syncInfos objects).count o) } := by
  induction objects generalizing syncs with
  | nil => simp [completeWrites, syncInfos]
  | cons x objects ih =>
    have hcons : syncInfos (x :: objects) = x.kernelSyncInfo :: syncInfos objects := rfl
    unfold completeWrites
    rw [ih, setSync_apply, hcons, ofNat_count_cons]
    by_cases hop : o = x.kernelSyncInfo
    · simp [hop, UInt32.add_assoc]
    · simp [hop]

theorem completeReads_spec (syncs : Syncs) (objects : List SyncObject) (o : UInt32) :
    completeReads syncs objects o = { syncs o with
      readOpsComplete := (syncs o).readOpsComplete +
        UInt32.ofNat ((syncInfos objects).count o) } := by
  induction objects generalizing syncs with
  | nil => simp [completeReads, syncInfos]
  | cons x objects ih =>
    have hcons : syncInfos (x :: objects) = x.kernelSyncInfo :: syncInfos objects := rfl
    unfold completeReads
    rw [ih, setSync_apply, hcons, ofNat_count_cons]
    by_cases hop : o = x.kernelSyncInfo
    · simp [hop, UInt32.add_assoc]
    · simp [hop]

end PvrServices.Queues
