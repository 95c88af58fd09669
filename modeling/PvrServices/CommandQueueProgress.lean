import Mathlib.Data.List.Nodup
import PvrServices.CommandQueueOrderRuns

set_option autoImplicit false

/-!
# The queues come to rest

The oldest command that waits finds its turn as soon as nothing is running, unless it names a sync
object twice or a device that there is not. So `PVRSRVProcessQueues` never passes over all queues
in vain, and the queues can always be emptied.
-/
namespace PvrServices.Queues
open Words Memory Runs
variable {start : Syncs} {s s' : SysData} {h g pre post : List Entry} {e : Entry} {c : Command}
  {i n : ℕ} {accepts : ℕ → Command → Bool}

def Servable (c : Command) : Prop :=
  (syncInfos c.dstSync ++ syncInfos c.srcSync).Nodup ∧ c.devIndex.toNat < sysDeviceCount

instance (c : Command) : Decidable (Servable c) := inferInstanceAs (Decidable (_ ∧ _))

/-- Nothing is pending for any sync object. -/
def Settled (syncs : Syncs) : Prop :=
  ∀ o, (syncs o).writeOpsComplete = (syncs o).writeOpsPending ∧
    (syncs o).readOpsComplete = (syncs o).readOpsPending

/-- All commands are submitted, and those that wait can be served. -/
structure Pending (start : Syncs) (s : SysData) (h : List Entry) : Prop where
  settled : Settled start
  agrees : Agrees start s h
  bounded : Bounded h
  queued : ∀ q ∈ h.map Entry.queue, q < s.queues.length
  submitted : ∀ t ∈ s.queues, t.command = none
  servable : ∀ e ∈ h, e.status = .waiting → Servable e.command

def Idle (s : SysData) : Prop := ∀ dev type, (s.cmdCompleteData dev type).inUse = false

/-- The steps that are left: two for a command that waits, one for a command that is running. -/
def Status.left : Status → ℕ
  | .waiting => 2
  | .dispatched => 1
  | .completed => 0

def remaining (h : List Entry) : ℕ := (h.map fun e => e.status.left).sum

def Legal (t : SysData × List Entry) (op : SysOp) : Prop := Bounded t.2 ∧ Disciplined t.1 op

/-- The history after a pass of `PVRSRVProcessQueues` over `n` queues from the queue `i` on. -/
def passHistory (accepts : ℕ → Command → Bool) : ℕ → ℕ → SysData → List Entry → List Entry
  | _, 0, _, h => h
  | i, n + 1, s, h =>
    let r := processQueue s i (accepts i)
    passHistory accepts (i + 1) n r.2 (record h (.process i (accepts i), .taken r.1))

/-- The calls of a driver whose devices accept and complete everything. -/
def SysOp.serves : SysOp → Prop
  | .process _ accepts => ∀ c, accepts c = true
  | .complete _ _ => True
  | .insert _ _ | .submit _ => False

theorem remaining_split (pre post : List Entry) (e : Entry) :
    remaining (pre ++ e :: post) = remaining pre + (e.status.left + remaining post) := by
  simp [remaining]

theorem remaining_eq_zero : remaining h = 0 ↔ ∀ e ∈ h, e.status = .completed := by
  induction h with
  | nil => simp [remaining]
  | cons e h ih =>
    have hcons : remaining (e :: h) = e.status.left + remaining h := rfl
    rw [hcons, Nat.add_eq_zero_iff, ih, List.forall_mem_cons]
    cases e.status <;> simp [Status.left]

theorem record_commands {op : SysOp} (hop : op.serves) (r : SysAnswer) :
    (record h (op, r)).map Entry.command = h.map Entry.command := by
  unfold record
  split
  · rename_i hcall
    cases hcall
    exact hop.elim
  · exact setFirst_map_command ..
  · exact setFirst_map_command ..
  · rfl

theorem bounded_further {st : Status} (hb : Bounded (pre ++ e :: post)) (he : e.done = false) :
    Bounded (pre ++ { e with status := st } :: post) := by
  have hops (side : Command → List SyncObject) (o : UInt32) :
      ops side (pre ++ { e with status := st } :: post) o = ops side (pre ++ e :: post) o :=
    ops_congr side o (by simp)
  have hle (side : Command → List SyncObject) (o : UInt32) :
      ops side ((pre ++ e :: post).filter Entry.done) o ≤
        ops side ((pre ++ { e with status := st } :: post).filter Entry.done) o := by
    simp only [List.filter_append, List.filter_cons, he, Bool.false_eq_true, if_false, ops_append]
    split
    · rw [ops_cons]
      omega
    · exact le_rfl
  intro o
  have hd := hle Command.dstSync o
  have hs := hle Command.srcSync o
  rw [hops, hops]
  have := hb o
  omega

theorem sysStep_length {op : SysOp} {r : SysAnswer} (hs : sysStep s op = some (r, s')) :
    s'.queues.length = s.queues.length := by
  cases op with
  | insert i x =>
    rcases insert_cases hs with ⟨_, -, rfl⟩ | ⟨_, _, -, -, -, rfl⟩
    · rfl
    · exact List.length_set
  | submit i =>
    simp only [sysStep, onQueue] at hs
    split at hs
    · rename_i hq
      split at hq
      · cases hq
      · split at hq
        · cases hq
        · cases hq
          cases hs
          exact List.length_set
    · cases hs
  | process i accepts =>
    cases hq : processQueue s i accepts with
    | mk taken s₁ =>
      simp only [sysStep, hq, Option.some.injEq, Prod.mk.injEq] at hs
      rw [← hs.2]
      cases taken with
      | none => rw [(processQueue_none hq).1]
      | some c =>
        obtain ⟨t, -, -, -, -, -, rfl⟩ := processQueue_taken hq
        exact List.length_set
  | complete dev type =>
    cases hs
    rfl

theorem setFirst_map_queue (test : Entry → Bool) (st : Status) :
    (setFirst test st h).map Entry.queue = h.map Entry.queue := by
  induction h with
  | nil => rfl
  | cons e h ih =>
    unfold setFirst
    split
    · rfl
    · rw [List.map_cons, List.map_cons, ih]

theorem queued_step {op : SysOp} {r : SysAnswer}
    (hq : ∀ q ∈ h.map Entry.queue, q < s.queues.length) (hs : sysStep s op = some (r, s')) :
    ∀ q ∈ (record h (op, r)).map Entry.queue, q < s'.queues.length := by
  rw [sysStep_length hs]
  unfold record
  split
  · rename_i hcall
    cases hcall
    obtain ⟨t, -, ht, -⟩ := insert_ok hs
    rw [List.map_append, List.forall_mem_append]
    exact ⟨hq, by simpa using (List.getElem?_eq_some_iff.mp ht).1⟩
  · rw [setFirst_map_queue]
    exact hq
  · rw [setFirst_map_queue]
    exact hq
  · exact hq

/-- Where all commands before it are completed, the copies of a command are the counters. -/
theorem Agrees.passes (v : Agrees start s (pre ++ e :: post))
    (hstart : Settled start) (he : e.status = .waiting) (hpre : ∀ f ∈ pre, f.status = .completed)
    (hn : (syncInfos e.command.dstSync ++ syncInfos e.command.srcSync).Nodup) :
    (∀ x ∈ e.command.dstSync, syncPasses s.syncs false x = true) ∧
      ∀ x ∈ e.command.srcSync, syncPasses s.syncs false x = true := by
  obtain ⟨hnd, hns, hdisj⟩ := List.nodup_append.mp hn
  have hall : pre.filter Entry.done = pre :=
    List.filter_eq_self.mpr fun f hf => by simp [Entry.done, hpre f hf]
  have hlater : ∀ f ∈ post, Shares e.command f.command → f.done = false := by
    intro f hf hshare
    have hpair := List.pairwise_cons.mp (List.pairwise_append.mp v.order).2.1
    rcases hpair.1 f hf hshare with hw | hc
    · simp [Entry.done, hw]
    · rw [he] at hc
      cases hc
  have hsum {o : UInt32} (side : Command → List SyncObject)
      (hside : ∀ f : Entry, o ∈ syncInfos (side f.command) → Shares e.command f.command) :
      ops side ((pre ++ e :: post).filter Entry.done) o = ops side pre o := by
    have hzero : ops side (post.filter Entry.done) o = 0 := by
      apply ops_eq_zero
      intro f hf ho
      obtain ⟨hf, hd⟩ := List.mem_filter.mp hf
      rw [hlater f hf (hside f ho)] at hd
      cases hd
    have hopen : e.done = false := by simp [Entry.done, he]
    simp only [List.filter_append, List.filter_cons, hopen, Bool.false_eq_true, if_false,
      ops_append, hall, hzero, Nat.add_zero]
  have hpass {o : UInt32}
      (ho : o ∈ syncInfos e.command.dstSync ∨ o ∈ syncInfos e.command.srcSync) :
      syncPasses s.syncs false
        ⟨o, (start o).writeOpsPending + UInt32.ofNat (ops Command.dstSync pre o),
          (start o).readOpsPending + UInt32.ofNat (ops Command.srcSync pre o)⟩ = true := by
    have hw := hsum (o := o) Command.dstSync fun f hf => ⟨o, ho, .inl hf⟩
    have hr := hsum (o := o) Command.srcSync fun f hf => ⟨o, ho, .inr hf⟩
    unfold syncPasses
    rw [v.counters]
    dsimp only [counted]
    rw [hw, hr, (hstart o).1, (hstart o).2]
    simp
  constructor
  · intro x hx
    have hmem : x.kernelSyncInfo ∈ syncInfos e.command.dstSync := List.mem_map_of_mem hx
    rw [List.inj_on_of_nodup_map hnd hx ((v.copied pre e post rfl _).1 hmem) rfl]
    exact hpass (.inl hmem)
  · intro x hx
    have hmem : x.kernelSyncInfo ∈ syncInfos e.command.srcSync := List.mem_map_of_mem hx
    have hnot : x.kernelSyncInfo ∉ syncInfos e.command.dstSync := fun hd => hdisj _ hd _ hmem rfl
    rw [List.inj_on_of_nodup_map hns hx ((v.copied pre e post rfl _).2 hmem hnot) rfl]
    exact hpass (.inr hmem)

/-- While nothing is running every command is waiting or completed. -/
theorem Agrees.not_dispatched (v : Agrees start s h) (hidle : Idle s) (he : e ∈ h) :
    e.status ≠ .dispatched := by
  intro hst
  have hnone := v.idle _ _ (hidle e.command.devIndex.toNat e.command.commandType.toNat)
  have hmem : e ∈ runningIn h e.command.devIndex.toNat e.command.commandType.toNat :=
    List.mem_filter.mpr ⟨he, runsIn_iff.mpr ⟨⟨hst, rfl⟩, rfl⟩⟩
  rw [hnone] at hmem
  cases hmem

theorem Agrees.idle_of_done (v : Agrees start s h) (hd : ∀ e ∈ h, e.status ≠ .dispatched) :
    Idle s := by
  intro dev type
  rw [Bool.eq_false_iff]
  intro huse
  obtain ⟨e, he, -⟩ := v.busy dev type huse
  have hmem : e ∈ runningIn h dev type := by simp [he]
  obtain ⟨heh, hrun⟩ := List.mem_filter.mp hmem
  exact hd e heh (runsIn_iff.mp hrun).1.1

/-- The oldest command that waits is at the read offset of its queue, and is taken. -/
theorem Pending.takes_oldest (p : Pending start s (pre ++ e :: post))
    (hidle : Idle s) (he : e.status = .waiting) (hpre : ∀ f ∈ pre, f.status = .completed)
    (answers : Command → Bool) (hacc : answers e.command = true) :
    (processQueue s e.queue answers).1 = some e.command := by
  have hmem : e ∈ pre ++ e :: post := by simp
  obtain ⟨hn, hdev⟩ := p.servable e hmem he
  obtain ⟨hdst, hsrc⟩ := p.agrees.passes p.settled he hpre hn
  have hi := p.queued _ (List.mem_map_of_mem hmem)
  have ht : s.queues[e.queue]? = some s.queues[e.queue] := List.getElem?_eq_getElem hi
  obtain ⟨cs, vt, hwait⟩ := p.agrees.queues _ _ ht
  have hfirst : waitingIn pre e.queue = [] := by
    simp only [waitingIn, List.map_eq_nil_iff, List.filter_eq_nil_iff]
    intro f hf
    simp [Entry.waitsIn, hpre f hf]
  rw [waitingIn_split, hfirst, if_pos (waitsIn_iff.mpr ⟨rfl, he⟩),
    p.submitted _ (List.getElem_mem hi)] at hwait
  simp only [List.nil_append, List.cons_append, Option.map_none, Option.toList_none,
    List.append_nil] at hwait
  have hhead : headCommand s.queues[e.queue].queue = some e.command := by
    rw [head_of_ready vt, ← hwait]
    rfl
  have hproc : (processCommand s e.command false true).1 = .ok := by
    unfold processCommand
    rw [if_neg (by simpa using hdst), if_neg (by simpa using hsrc), if_neg (by omega)]
    dsimp only
    rw [if_neg (by simp [hidle _ _])]
    rfl
  simp [processQueue, ht, hhead, hacc, hproc, takeCommand]

theorem waiting_of (hd : e.status ≠ .dispatched) (hc : e.status ≠ .completed) :
    e.status = .waiting := by
  cases hes : e.status with
  | waiting => rfl
  | dispatched => exact absurd hes hd
  | completed => exact absurd hes hc

/-- The first entry that is not completed. -/
theorem oldest_split (hopen : ∃ e ∈ h, e.status ≠ .completed) : ∃ pre e post,
    h = pre ++ e :: post ∧ e.status ≠ .completed ∧ ∀ f ∈ pre, f.status = .completed := by
  obtain ⟨pre, e, post, hh, he, hpre, -⟩ :=
    @setFirst_split h (fun e => decide (e.status ≠ .completed)) .completed (by simpa using hopen)
  exact ⟨pre, e, post, hh, by simpa using he, fun f hf => by simpa using hpre f hf⟩

theorem Pending.record (p : Pending start s h) {op : SysOp} {r : SysAnswer}
    (hop : Disciplined s op) (hs : sysStep s op = some (r, s')) {st : Status}
    (hrec : record h (op, r) = pre ++ { e with status := st } :: post)
    (hh : h = pre ++ e :: post) (he : e.done = false) (hst : st ≠ .waiting)
    (hsub : ∀ t ∈ s'.queues, t.command = none) : Pending start s' (record h (op, r)) where
  settled := p.settled
  agrees := p.agrees.step p.bounded p.settled hop hs
  bounded := by
    rw [hrec]
    exact bounded_further (hh ▸ p.bounded) he
  queued := queued_step p.queued hs
  submitted := hsub
  servable := by
    rw [hrec]
    intro f hf hw
    rcases List.mem_append.mp hf with hf | hf
    · exact p.servable f (by simp [hh, hf]) hw
    · rcases List.mem_cons.mp hf with rfl | hf
      · exact absurd hw hst
      · exact p.servable f (by simp [hh, hf]) hw

theorem Pending.taken (p : Pending start s h) {answers : Command → Bool}
    (hq : processQueue s i answers = (some c, s')) :
    Pending start s' (Queues.record h (.process i answers, .taken (some c))) ∧
      remaining h = remaining (Queues.record h (.process i answers, .taken (some c))) + 1 ∧
      ∃ e ∈ Queues.record h (.process i answers, .taken (some c)), e.status = .dispatched := by
  obtain ⟨pre, e, post, d, hset, -⟩ := p.agrees.dispatchable p.bounded p.settled hq
  have hrec : Queues.record h (.process i answers, .taken (some c)) =
      pre ++ { e with status := .dispatched } :: post := hset
  have hs : sysStep s (.process i answers) = some (.taken (some c), s') := by
    simp only [sysStep, hq]
  obtain ⟨t, ht, -, -, -, -, rfl⟩ := processQueue_taken hq
  refine ⟨p.record trivial hs hrec d.split (by simp [Entry.done, d.waiting]) (by decide) ?_,
    ?_, ?_⟩
  · intro u hu
    rcases List.mem_or_eq_of_mem_set hu with hu | rfl
    · exact p.submitted u hu
    · exact p.submitted t (List.mem_of_getElem? ht)
  · rw [hrec, d.split, remaining_split, remaining_split, d.waiting]
    simp only [Status.left]
    omega
  · rw [hrec]
    exact ⟨_, List.mem_append_right _ List.mem_cons_self, rfl⟩

theorem Pending.completed (p : Pending start s h) {dev type : ℕ}
    (huse : (s.cmdCompleteData dev type).inUse = true) :
    Pending start (commandComplete s dev type) (Queues.record h (.complete dev type, .completed)) ∧
      remaining h = remaining (Queues.record h (.complete dev type, .completed)) + 1 := by
  obtain ⟨r, hr, -⟩ := p.agrees.busy dev type huse
  have hmem : r ∈ runningIn h dev type := by simp [hr]
  obtain ⟨hrh, hrr⟩ := List.mem_filter.mp hmem
  obtain ⟨pre, e, post, hh, hrun, -, hset⟩ := setFirst_split .completed ⟨r, hrh, hrr⟩
  have hrec : Queues.record h (.complete dev type, .completed) =
      pre ++ { e with status := .completed } :: post := hset
  have hst := (runsIn_iff.mp hrun).1.1
  refine ⟨p.record huse rfl hrec hh (by simp [Entry.done, hst]) (by decide) p.submitted, ?_⟩
  rw [hrec, hh, remaining_split, remaining_split, hst]
  simp only [Status.left]
  omega

/-- While a command is not completed, one can be completed or dispatched. -/
theorem Pending.next (p : Pending start s h)
    (hopen : ∃ e ∈ h, e.status ≠ .completed) : ∃ op r s', op.serves ∧ Disciplined s op ∧
      sysStep s op = some (r, s') ∧ Pending start s' (Queues.record h (op, r)) ∧
      remaining h = remaining (Queues.record h (op, r)) + 1 := by
  by_cases hidle : Idle s
  · obtain ⟨pre, e, post, rfl, he, hpre⟩ := oldest_split hopen
    have hst := waiting_of (p.agrees.not_dispatched hidle (e := e) (by simp)) he
    obtain ⟨⟨taken, s'⟩, hq⟩ : ∃ q, processQueue s e.queue (fun _ => true) = q := ⟨_, rfl⟩
    have htaken := p.takes_oldest hidle hst hpre (fun _ => true) rfl
    rw [hq] at htaken
    obtain rfl : taken = some e.command := htaken
    obtain ⟨p', hleft, -⟩ := p.taken hq
    exact ⟨.process e.queue fun _ => true, _, s', fun _ => rfl, trivial,
      by simp only [sysStep, hq], p', hleft⟩
  · simp only [Idle, not_forall, Bool.not_eq_false] at hidle
    obtain ⟨dev, type, huse⟩ := hidle
    obtain ⟨p', hleft⟩ := p.completed huse
    exact ⟨.complete dev type, .completed, _, trivial, huse, rfl, p', hleft⟩

/-- A run that serves and completes, until nothing is left. -/
theorem Pending.drains (p : Pending start s h) : ∃ m s' h',
    Run tracedStep (fun t op => Legal t op ∧ op.serves) (s, h) m (s', h') ∧
      m.length = remaining h ∧ Pending start s' h' ∧
      h'.map Entry.command = h.map Entry.command ∧ ∀ e ∈ h', e.status = .completed := by
  induction hk : remaining h generalizing s h with
  | zero => exact ⟨[], s, h, .refl, rfl, p, rfl, remaining_eq_zero.mp hk⟩
  | succ k ih =>
    have hopen : ∃ e ∈ h, e.status ≠ .completed := by
      by_contra hnone
      rw [remaining_eq_zero.mpr fun e he => by_contra fun hne => hnone ⟨e, he, hne⟩] at hk
      cases hk
    obtain ⟨op, r, s₁, hserves, hop, hs, p₁, hleft⟩ := p.next hopen
    obtain ⟨m, s', h', run, hlen, p', hmap, hdone⟩ := ih p₁ (by omega)
    have hone : Run tracedStep (fun t op => Legal t op ∧ op.serves) (s, h)
        ([] ++ [(op, r)]) (s₁, Queues.record h (op, r)) :=
      .snoc .refl ⟨⟨p.bounded, hop⟩, hserves⟩ (by simp [tracedStep, hs])
    refine ⟨_, s', h', hone.trans run, ?_, p', hmap.trans (record_commands hserves r), hdone⟩
    simp [hlen]

theorem agrees_of_run {s₀ : SysData} (h₀ : Initial s₀) {l : List (SysOp × SysAnswer)}
    (run : Run tracedStep Legal (s₀, []) l (s, h)) :
    Agrees s₀.syncs s h ∧ ∀ q ∈ h.map Entry.queue, q < s.queues.length := by
  apply run.invariant fun t =>
    Agrees s₀.syncs t.1 t.2 ∧ ∀ q ∈ t.2.map Entry.queue, q < t.1.queues.length
  · exact ⟨h₀.agrees, by simp⟩
  · intro t op r u vt hop hs
    obtain ⟨⟨a, s₁⟩, hstep, he⟩ := Option.map_eq_some_iff.mp hs
    cases he
    exact ⟨vt.1.step hop.1 h₀.counters hop.2 hstep, queued_step vt.2 hstep⟩

/-- From every state that a run comes to, the commands that are left can be completed: each is
    dispatched once and completed once, and then the queues are empty and nothing is pending. -/
theorem queues_drain_over_runs {s₀ : SysData} (h₀ : Initial s₀) {l : List (SysOp × SysAnswer)}
    (run : Run tracedStep Legal (s₀, []) l (s, h))
    (hb : Bounded h) (hsub : ∀ t ∈ s.queues, t.command = none)
    (hserv : ∀ e ∈ h, e.status = .waiting → Servable e.command) : ∃ m s' h',
    Run tracedStep (fun t op => Legal t op ∧ op.serves) (s, h) m (s', h') ∧
      m.length = remaining h ∧ h'.map Entry.command = h.map Entry.command ∧
      (∀ e ∈ h', e.status = .completed) ∧ Idle s' ∧
      (∀ t ∈ s'.queues, t.queue.readOffset = t.queue.writeOffset) ∧ Settled s'.syncs := by
  have v := agrees_of_run h₀ run
  have p : Pending s₀.syncs s h := ⟨h₀.counters, v.1, hb, v.2, hsub, hserv⟩
  obtain ⟨m, s', h', run', hlen, p', hmap, hdone⟩ := p.drains
  have hall : h'.filter Entry.done = h' :=
    List.filter_eq_self.mpr fun e he => by simp [Entry.done, hdone e he]
  refine ⟨m, s', h', run', hlen, hmap, hdone, ?_, fun t ht => ?_, fun o => ?_⟩
  · exact p'.agrees.idle_of_done fun e he => by simp [hdone e he]
  · obtain ⟨i, hi, rfl⟩ := List.getElem_of_mem ht
    obtain ⟨cs, vt, hwait⟩ := p'.agrees.queues i _ (List.getElem?_eq_getElem hi)
    have hnone : waitingIn h' i = [] := by
      simp only [waitingIn, List.map_eq_nil_iff, List.filter_eq_nil_iff]
      intro e he
      simp [Entry.waitsIn, hdone e he]
    rw [hnone] at hwait
    exact vt.empty_iff.mpr (List.append_eq_nil_iff.mp hwait.symm).1
  · rw [p'.agrees.counters]
    dsimp only [counted]
    rw [hall, (h₀.counters o).1, (h₀.counters o).2]
    exact ⟨rfl, rfl⟩

theorem mem_setFirst {test : Entry → Bool} {st : Status} (he : e ∈ h) (ht : test e = false) :
    e ∈ setFirst test st h := by
  induction h with
  | nil => cases he
  | cons f h ih =>
    unfold setFirst
    split
    · rename_i hf
      rcases List.mem_cons.mp he with rfl | he
      · rw [ht] at hf
        cases hf
      · exact List.mem_cons_of_mem _ he
    · rcases List.mem_cons.mp he with rfl | he
      · exact List.mem_cons_self
      · exact List.mem_cons_of_mem _ (ih he)

theorem dispatched_stays (hd : ∃ e ∈ h, e.status = .dispatched) (i : ℕ) (answers : Command → Bool)
    (taken : Option Command) :
    ∃ e ∈ record h (.process i answers, .taken taken), e.status = .dispatched := by
  obtain ⟨e, he, hst⟩ := hd
  cases taken with
  | none => exact ⟨e, he, hst⟩
  | some c => exact ⟨e, mem_setFirst he (not_waitsIn_of_status (by simp [hst]) i), hst⟩

theorem Agrees.round (v : Agrees start s h) (hb : Bounded h)
    (hstart : Settled start) (i : ℕ) (answers : Command → Bool) :
    Agrees start (processQueue s i answers).2
        (record h (.process i answers, .taken (processQueue s i answers).1)) ∧
      Bounded (record h (.process i answers, .taken (processQueue s i answers).1)) := by
  have hok : Disciplined s (.process i answers) := trivial
  refine ⟨v.step hb hstart hok rfl, ?_⟩
  obtain ⟨⟨taken, s'⟩, hq⟩ : ∃ q, processQueue s i answers = q := ⟨_, rfl⟩
  rw [hq]
  cases taken with
  | none => exact hb
  | some c =>
    obtain ⟨pre, e, post, d, hset, -⟩ := v.dispatchable hb hstart hq
    change Bounded (setFirst _ _ h)
    rw [hset]
    exact bounded_further (d.split ▸ hb) (by simp [Entry.done, d.waiting])

/-- A pass is a run of rounds. -/
theorem Agrees.pass (v : Agrees start s h) (hb : Bounded h)
    (hstart : Settled start) (accepts : ℕ → Command → Bool)
    (i n : ℕ) : ∃ m, Run tracedStep Legal (s, h) m
        (processQueuesFrom s accepts i n, passHistory accepts i n s h) ∧
      m.map Prod.fst = (List.range' i n).map (fun j => SysOp.process j (accepts j)) ∧
      Agrees start (processQueuesFrom s accepts i n) (passHistory accepts i n s h) := by
  induction n generalizing s h i with
  | zero => exact ⟨[], .refl, rfl, v⟩
  | succ n ih =>
    obtain ⟨v', hb'⟩ := v.round hb hstart i (accepts i)
    obtain ⟨m, run, hops, vn⟩ := ih v' hb' (i + 1)
    have hok : Disciplined s (.process i (accepts i)) := trivial
    have hone : Run tracedStep Legal (s, h) ([] ++ [_]) _ :=
      .snoc .refl ⟨hb, hok⟩ rfl
    exact ⟨_, hone.trans run, by simp [List.range'_succ, hops], vn⟩

theorem passHistory_dispatched (hd : ∃ e ∈ h, e.status = .dispatched) (i n : ℕ) :
    ∃ e ∈ passHistory accepts i n s h, e.status = .dispatched := by
  induction n generalizing s h i with
  | zero => exact hd
  | succ n ih => exact ih (dispatched_stays hd i _ _) _

/-- While nothing is running, a pass that comes to the queue of the oldest command dispatches. -/
theorem Pending.pass (p : Pending start s (pre ++ e :: post)) (hidle : Idle s)
    (he : e.status = .waiting) (hpre : ∀ f ∈ pre, f.status = .completed)
    (hacc : ∀ c, accepts e.queue c = true) (hi : i ≤ e.queue) (hn : e.queue < i + n) :
    ∃ f ∈ passHistory accepts i n s (pre ++ e :: post), f.status = .dispatched := by
  induction n generalizing s i with
  | zero => omega
  | succ n ih =>
    obtain ⟨⟨taken, s'⟩, hq⟩ : ∃ q, processQueue s i (accepts i) = q := ⟨_, rfl⟩
    unfold passHistory
    rw [hq]
    cases taken with
    | none =>
      have hne : i ≠ e.queue := by
        rintro rfl
        have htaken := p.takes_oldest hidle he hpre _ (hacc e.command)
        rw [hq] at htaken
        cases htaken
      obtain ⟨hqueues, -, hslots⟩ := processQueue_none hq
      have v' := (p.agrees.round p.bounded p.settled i (accepts i)).1
      rw [hq] at v'
      have p' : Pending start s' (pre ++ e :: post) :=
        ⟨p.settled, v', p.bounded, hqueues ▸ p.queued, hqueues ▸ p.submitted, p.servable⟩
      exact ih p' (fun dev type => (hslots dev type).1.trans (hidle dev type)) (by omega) (by omega)
    | some c =>
      obtain ⟨-, -, hd⟩ := p.taken hq
      exact passHistory_dispatched hd _ _

/-- A pass of `PVRSRVProcessQueues` keeps the order of the commands, and is not in vain where
    nothing is running and a command waits. -/
theorem pass_over_runs {s₀ : SysData} (h₀ : Initial s₀) {l : List (SysOp × SysAnswer)}
    (run : Run tracedStep Legal (s₀, []) l (s, h))
    (hb : Bounded h) (accepts : ℕ → Command → Bool) : ∃ m h',
    Run tracedStep Legal (s, h) m
        (processQueues s accepts, h') ∧
      m.map Prod.fst = (List.range s.queues.length).map (fun i => SysOp.process i (accepts i)) ∧
      Coherent s₀.syncs (processQueues s accepts) h' ∧
      ((∀ t ∈ s.queues, t.command = none) →
        (∀ e ∈ h, e.status = .waiting → Servable e.command) →
        (∀ e ∈ h, e.status ≠ .dispatched) → (∃ e ∈ h, e.status = .waiting) →
        (∀ i c, accepts i c = true) → ∃ e ∈ h', e.status = .dispatched) := by
  have v := agrees_of_run h₀ run
  obtain ⟨m, run', hops, v'⟩ := v.1.pass hb h₀.counters accepts 0 s.queues.length
  refine ⟨m, _, run', by rw [hops, List.range_eq_range'], v'.coherent h₀.counters, ?_⟩
  rintro hsub hserv hrest ⟨f, hf, hw⟩ hacc
  obtain ⟨pre, e, post, rfl, he, hpre⟩ := oldest_split ⟨f, hf, by simp [hw]⟩
  have hst := waiting_of (hrest e (by simp)) he
  have p : Pending s₀.syncs s (pre ++ e :: post) := ⟨h₀.counters, v.1, hb, v.2, hsub, hserv⟩
  exact p.pass (v.1.idle_of_done hrest) hst hpre (hacc e.queue) (Nat.zero_le _)
    (by simpa using v.2 e.queue (by simp))

/-- The first command of the samples is completed and the second one waits. -/
theorem sampleSystem_waits : ∃ l s h, exec tracedStep (sampleSystem, []) sampleSystemOps =
      some (l, (s, h)) ∧
    Run tracedStep Legal (sampleSystem, []) l (s, h) ∧
    Bounded h ∧ (∀ t ∈ s.queues, t.command = none) ∧
    (∀ e ∈ h, e.status = .waiting → Servable e.command) ∧ remaining h = 2 := by
  have hrun : (exec tracedStep (sampleSystem, []) sampleSystemOps).map (fun r =>
      (decide ((r.2.2.map fun e => e.command.syncCount).sum < 4294967296),
        decide (∀ t ∈ r.2.1.queues, t.command = none),
        decide (∀ e ∈ r.2.2, e.status = .waiting → Servable e.command), remaining r.2.2)) =
      some (true, true, true, 2) := by decide +kernel
  obtain ⟨⟨l, s, h⟩, hexec, he⟩ := Option.map_eq_some_iff.mp hrun
  simp only [Prod.mk.injEq, decide_eq_true_eq] at he
  have hrun' : Run tracedStep (fun t op =>
      (t.2.map fun e => e.command.syncCount).sum < 4294967296 ∧ Disciplined t.1 op)
      (sampleSystem, []) l (s, h) := Run.of_allowed hexec (by decide +kernel)
  exact ⟨l, s, h, hexec, hrun'.mono fun _ _ hok => ⟨bounded_of_few hok.1, hok.2⟩,
    bounded_of_few he.1, he.2.1, he.2.2.1, he.2.2.2⟩

theorem queues_drain_over_sample : ∃ l s h, exec tracedStep (sampleSystem, []) sampleSystemOps =
      some (l, (s, h)) ∧ ∃ m s' h',
    Run tracedStep (fun t op => Legal t op ∧ op.serves) (s, h) m (s', h') ∧
      m.length = 2 ∧ ∀ t ∈ s'.queues, t.queue.readOffset = t.queue.writeOffset := by
  obtain ⟨l, s, h, hexec, run, hb, hsub, hserv, hleft⟩ := sampleSystem_waits
  obtain ⟨m, s', h', run', hlen, -, -, -, hempty, -⟩ :=
    queues_drain_over_runs sampleSystem_initial run hb hsub hserv
  exact ⟨l, s, h, hexec, m, s', h', run', hlen.trans hleft, hempty⟩

theorem pass_over_sample : ∃ l s h, exec tracedStep (sampleSystem, []) sampleSystemOps =
      some (l, (s, h)) ∧ ∃ m h',
    Run tracedStep Legal (s, h) m
        (processQueues s fun _ _ => true, h') ∧
      Coherent sampleSystem.syncs (processQueues s fun _ _ => true) h' := by
  obtain ⟨l, s, h, hexec, run, hb, -⟩ := sampleSystem_waits
  obtain ⟨m, h', run', -, hc, -⟩ := pass_over_runs sampleSystem_initial run hb fun _ _ => true
  exact ⟨l, s, h, hexec, m, h', run', hc⟩

end PvrServices.Queues
