import PvrServices.CommandQueueOrder

set_option autoImplicit false

/-!
# The order of commands over runs

Dispatching and completing, and what holds over every run of the calls on any number of queues.
-/
namespace PvrServices.Queues
open Words Memory Runs
variable {start : Syncs} {s s' : SysData} {h g pre post : List Entry} {e : Entry} {o : UInt32}
  {c : Command} {i : ℕ}

theorem waitingIn_split (pre post : List Entry) (e : Entry) (i : ℕ) :
    waitingIn (pre ++ e :: post) i =
      waitingIn pre i ++ ((if e.waitsIn i then [e.command] else []) ++ waitingIn post i) := by
  simp only [waitingIn, List.filter_append, List.filter_cons, List.map_append]
  split <;> rfl

theorem runningIn_split (pre post : List Entry) (e : Entry) (dev type : ℕ) :
    runningIn (pre ++ e :: post) dev type =
      runningIn pre dev type ++ ((if e.runsIn dev type then [e] else []) ++
        runningIn post dev type) := by
  simp only [runningIn, List.filter_append, List.filter_cons]
  split <;> rfl

theorem waitsIn_iff : e.waitsIn i = true ↔ e.queue = i ∧ e.status = .waiting := by
  simp [Entry.waitsIn]

theorem runsIn_iff {dev type : ℕ} : e.runsIn dev type = true ↔
    (e.status = .dispatched ∧ e.command.devIndex.toNat = dev) ∧
      e.command.commandType.toNat = type := by
  simp [Entry.runsIn]

theorem not_waitsIn_of_status (hst : e.status ≠ .waiting) (i : ℕ) : e.waitsIn i = false := by
  simp [Entry.waitsIn, hst]

theorem not_runsIn_of_status (hst : e.status ≠ .dispatched) (dev type : ℕ) :
    e.runsIn dev type = false := by
  simp [Entry.runsIn, hst]

theorem not_runsIn_of_slot {dev type : ℕ}
    (hslot : ¬(dev = e.command.devIndex.toNat ∧ type = e.command.commandType.toNat)) :
    e.runsIn dev type = false := by
  rw [Bool.eq_false_iff]
  intro hr
  obtain ⟨⟨-, hd⟩, ht⟩ := runsIn_iff.mp hr
  exact hslot ⟨hd.symm, ht.symm⟩

/-- The entry that a dispatch from the queue `i` is about: the first one that waits there. -/
structure Dispatchable (h : List Entry) (i : ℕ) (c : Command) (pre : List Entry) (e : Entry)
    (post : List Entry) : Prop where
  split : h = pre ++ e :: post
  queue : e.queue = i
  command : e.command = c
  waiting : e.status = .waiting
  before : ∀ f ∈ pre, Shares f.command c → f.status = .completed
  after : ∀ f ∈ post, Shares c f.command → f.status = .waiting
  alone : runningIn h c.devIndex.toNat c.commandType.toNat = []

theorem Agrees.dispatchable (v : Agrees start s h) (hb : Bounded h)
    (hstart : ∀ o, (start o).writeOpsComplete = (start o).writeOpsPending ∧
      (start o).readOpsComplete = (start o).readOpsPending) {accepts : Command → Bool}
    (hs : processQueue s i accepts = (some c, s')) : ∃ pre e post, Dispatchable h i c pre e post ∧
      setFirst (Entry.waitsIn i) .dispatched h =
        pre ++ { e with status := .dispatched } :: post ∧
      ∃ t ds, s.queues[i]? = some t ∧ Ready ⟨updateQueueRoff t.queue c.cmdSize.toNat, t.command⟩ ds ∧
        waitingIn pre i = [] ∧
        waitingIn post i = ds ++ (t.command.map (commandAt t.queue.linQueue)).toList := by
  obtain ⟨t, ht, htake, hdst, hsrc, huse, -⟩ := processQueue_taken hs
  obtain ⟨cs, vt, hwait⟩ := v.queues i t ht
  rcases vt.process fun _ => true with hnone | ⟨d, ds, rfl, -, hsome, vt'⟩
  · rw [hnone] at htake
    cases htake
  · rw [hsome] at htake
    obtain rfl : d = c := by simpa using congrArg Prod.fst htake
    have hex : ∃ e ∈ h, e.waitsIn i = true := by
      have hmem : d ∈ waitingIn h i := by
        rw [hwait]
        simp
      obtain ⟨e, he, -⟩ := List.mem_map.mp hmem
      obtain ⟨heh, hew⟩ := List.mem_filter.mp he
      exact ⟨e, heh, hew⟩
    obtain ⟨pre, e, post, rfl, hew, hpre, hset⟩ := setFirst_split .dispatched hex
    have hfirst : waitingIn pre i = [] := by
      simp only [waitingIn, List.map_eq_nil_iff, List.filter_eq_nil_iff]
      intro f hf
      rw [hpre f hf]
      decide
    rw [waitingIn_split, hfirst, if_pos hew] at hwait
    simp only [List.nil_append, List.cons_append, List.cons.injEq] at hwait
    obtain ⟨rfl, hrest⟩ := hwait
    obtain ⟨hqueue, hst⟩ := waitsIn_iff.mp hew
    obtain ⟨hbefore, hafter⟩ := v.before_done hb hstart hst hdst hsrc
    exact ⟨pre, e, post, ⟨rfl, hqueue, rfl, hst, hbefore, hafter, v.idle _ _ huse⟩, hset,
      t, ds, ht, vt', hfirst, hrest⟩

theorem Agrees.dispatch (v : Agrees start s h) (hb : Bounded h)
    (hstart : ∀ o, (start o).writeOpsComplete = (start o).writeOpsPending ∧
      (start o).readOpsComplete = (start o).readOpsPending) {accepts : Command → Bool}
    (hs : processQueue s i accepts = (some c, s')) :
    Agrees start s' (setFirst (Entry.waitsIn i) .dispatched h) := by
  obtain ⟨pre, e, post, d, hset, t, ds, ht, vt', hfirst, hrest⟩ := v.dispatchable hb hstart hs
  obtain ⟨t', ht', -, -, -, huse, rfl⟩ := processQueue_taken hs
  obtain rfl : t = t' := by
    rw [ht] at ht'
    exact Option.some.inj ht'
  have hmap := setFirst_map_command (Entry.waitsIn i) .dispatched h
  obtain ⟨rfl, rfl, rfl, hst, hbefore, hafter, halone⟩ := d
  have hi : e.queue < s.queues.length := (List.getElem?_eq_some_iff.mp ht).1
  have hne : ({ e with status := .dispatched } : Entry).status ≠ .waiting := nofun
  have hnot : e.status ≠ .dispatched := by
    rw [hst]
    decide
  rw [hset]
  rw [hset] at hmap
  rw [runningIn_split, not_runsIn_of_status hnot] at halone
  simp only [Bool.false_eq_true, if_false, List.nil_append, List.append_eq_nil_iff] at halone
  exact
    { queues := by
        intro j u hu
        rw [waitingIn_split, not_waitsIn_of_status hne]
        simp only [Bool.false_eq_true, if_false, List.nil_append]
        by_cases hj : j = e.queue
        · subst hj
          rw [List.getElem?_set_self hi] at hu
          cases hu
          refine ⟨ds, vt', ?_⟩
          rw [hfirst, hrest]
          rfl
        · rw [List.getElem?_set_ne (fun h => hj h.symm)] at hu
          obtain ⟨cs, vu, hwait⟩ := v.queues j u hu
          refine ⟨cs, vu, ?_⟩
          have hnj : e.waitsIn j = false := by
            have : ¬ e.queue = j := fun h => hj h.symm
            simp [Entry.waitsIn, this]
          rw [waitingIn_split, hnj] at hwait
          simpa using hwait
      counters := by
        rw [counted_dispatch (by simp [Entry.done, hst])]
        exact v.counters
      idle := by
        intro dev type hidle
        dsimp only [setSlot] at hidle
        by_cases hslot : dev = e.command.devIndex.toNat ∧ type = e.command.commandType.toNat
        · rw [if_pos hslot] at hidle
          cases hidle
        · rw [if_neg hslot] at hidle
          have hold := v.idle dev type hidle
          have hnew : Entry.runsIn dev type { e with status := .dispatched } = false :=
            not_runsIn_of_slot hslot
          rw [runningIn_split, not_runsIn_of_status hnot] at hold
          rw [runningIn_split, hnew]
          exact hold
      busy := by
        intro dev type hbusy
        dsimp only [setSlot] at hbusy ⊢
        by_cases hslot : dev = e.command.devIndex.toNat ∧ type = e.command.commandType.toNat
        · rw [if_pos hslot]
          obtain ⟨rfl, rfl⟩ := hslot
          refine ⟨{ e with status := .dispatched }, ?_, rfl, rfl⟩
          have hnew : Entry.runsIn e.command.devIndex.toNat e.command.commandType.toNat
              { e with status := .dispatched } = true := runsIn_iff.mpr ⟨⟨rfl, rfl⟩, rfl⟩
          rw [runningIn_split, hnew, halone.1, halone.2]
          rfl
        · rw [if_neg hslot] at hbusy ⊢
          obtain ⟨f, hf, hslots⟩ := v.busy dev type hbusy
          have hnew : Entry.runsIn dev type { e with status := .dispatched } = false :=
            not_runsIn_of_slot hslot
          rw [runningIn_split, not_runsIn_of_status hnot] at hf
          refine ⟨f, ?_, hslots⟩
          rw [runningIn_split, hnew]
          exact hf
      copied := copied_of_map_eq hmap v.copied
      order := by
        have hpair := List.pairwise_append.mp v.order
        have htail := List.pairwise_cons.mp hpair.2.1
        refine List.pairwise_append.mpr ⟨hpair.1, List.pairwise_cons.mpr ⟨?_, htail.2⟩, ?_⟩
        · intro f hf hshare
          exact Or.inl (hafter f hf hshare)
        · intro f hf g hg hshare
          rcases List.mem_cons.mp hg with rfl | hg
          · exact Or.inr (hbefore f hf hshare)
          · exact hpair.2.2 f hf g (List.mem_cons_of_mem _ hg) hshare }

theorem Agrees.complete (v : Agrees start s h) {dev type : ℕ}
    (huse : (s.cmdCompleteData dev type).inUse = true) :
    Agrees start (commandComplete s dev type) (setFirst (Entry.runsIn dev type) .completed h) := by
  obtain ⟨r, hr, hrd, hrs⟩ := v.busy dev type huse
  have hex : ∃ e ∈ h, e.runsIn dev type = true := by
    have hmem : r ∈ runningIn h dev type := by
      rw [hr]
      simp
    obtain ⟨hrh, hrr⟩ := List.mem_filter.mp hmem
    exact ⟨r, hrh, hrr⟩
  have hmap := setFirst_map_command (Entry.runsIn dev type) .completed h
  obtain ⟨pre, e, post, rfl, hrun, -, hset⟩ := setFirst_split .completed hex
  obtain ⟨⟨hst, hdev⟩, htype⟩ := runsIn_iff.mp hrun
  have hone : runningIn pre dev type = [] ∧ e = r ∧ runningIn post dev type = [] := by
    rw [runningIn_split, if_pos hrun, List.singleton_append] at hr
    cases hp : runningIn pre dev type with
    | nil =>
      rw [hp] at hr
      simpa using hr
    | cons x xs =>
      rw [hp] at hr
      simp at hr
  obtain ⟨hpre, rfl, hpost⟩ := hone
  have hwait : e.status ≠ .waiting := by
    rw [hst]
    decide
  have hnewWait : ({ e with status := .completed } : Entry).status ≠ .waiting := nofun
  have hnewRun : ({ e with status := .completed } : Entry).status ≠ .dispatched := nofun
  rw [hset]
  rw [hset] at hmap
  exact
    { queues := by
        intro j u hu
        obtain ⟨cs, vu, hw⟩ := v.queues j u hu
        refine ⟨cs, vu, ?_⟩
        rw [waitingIn_split, not_waitsIn_of_status hwait] at hw
        rw [waitingIn_split, not_waitsIn_of_status hnewWait]
        exact hw
      counters := by
        rw [counted_complete (by simp [Entry.done, hst]), ← hrd, ← hrs, ← v.counters]
        rfl
      idle := by
        intro d ty hidle
        rw [runningIn_split, not_runsIn_of_status hnewRun]
        dsimp only [commandComplete, setSlot] at hidle
        by_cases hslot : d = dev ∧ ty = type
        · rw [hslot.1, hslot.2, hpre, hpost]
          rfl
        · rw [if_neg hslot] at hidle
          have hold := v.idle d ty hidle
          have hother : e.runsIn d ty = false := not_runsIn_of_slot (by rwa [hdev, htype])
          rw [runningIn_split, hother] at hold
          exact hold
      busy := by
        intro d ty hbusy
        dsimp only [commandComplete, setSlot] at hbusy ⊢
        by_cases hslot : d = dev ∧ ty = type
        · rw [if_pos hslot] at hbusy
          cases hbusy
        · rw [if_neg hslot] at hbusy ⊢
          obtain ⟨f, hf, hslots⟩ := v.busy d ty hbusy
          have hother : e.runsIn d ty = false := not_runsIn_of_slot (by rwa [hdev, htype])
          rw [runningIn_split, hother] at hf
          refine ⟨f, ?_, hslots⟩
          rw [runningIn_split, not_runsIn_of_status hnewRun]
          exact hf
      copied := copied_of_map_eq hmap v.copied
      order := by
        have hpair := List.pairwise_append.mp v.order
        have htail := List.pairwise_cons.mp hpair.2.1
        refine List.pairwise_append.mpr ⟨hpair.1, List.pairwise_cons.mpr ⟨?_, htail.2⟩, ?_⟩
        · intro f _ _
          exact Or.inr rfl
        · intro f hf g hg hshare
          rcases List.mem_cons.mp hg with rfl | hg
          · exact Or.inr ((hpair.2.2 f hf e (by simp) hshare).resolve_left hwait)
          · exact hpair.2.2 f hf g (List.mem_cons_of_mem _ hg) hshare }

def tracedStep (t : SysData × List Entry) (op : SysOp) :
    Option (SysAnswer × (SysData × List Entry)) :=
  (sysStep t.1 op).map fun r => (r.1, (r.2, record t.2 (op, r.1)))

/-- How the calls are made: queues are used in order, and only what is dispatched is completed. -/
def Disciplined (s : SysData) : SysOp → Prop
  | .insert i x => ∀ t ∈ s.queues[i]?, Ordered t (.insert (x.insertion s.syncs).1 x.data)
  | .complete dev type => (s.cmdCompleteData dev type).inUse = true
  | .submit _ | .process _ _ => True

instance (s : SysData) (op : SysOp) : Decidable (Disciplined s op) :=
  match op with
  | .insert i x => inferInstanceAs
      (Decidable (∀ t ∈ s.queues[i]?, Ordered t (.insert (x.insertion s.syncs).1 x.data)))
  | .complete _ _ => inferInstanceAs (Decidable (_ = _))
  | .submit _ | .process _ _ => inferInstanceAs (Decidable True)

/-- A system before the first call: empty queues, no operation pending, no slot in use. -/
structure Initial (s : SysData) : Prop where
  queues : ∀ t ∈ s.queues, t.command = none ∧ ∃ os os' mem n, 1 ≤ n ∧ n ≤ 2147483648 ∧
    createCommandQueue os mem n = (.ok t.queue, os')
  counters : ∀ o, (s.syncs o).writeOpsComplete = (s.syncs o).writeOpsPending ∧
    (s.syncs o).readOpsComplete = (s.syncs o).readOpsPending
  idle : ∀ dev type, (s.cmdCompleteData dev type).inUse = false

theorem Initial.agrees (v : Initial s) : Agrees s.syncs s [] where
  queues := by
    intro i t ht
    obtain ⟨hnone, os, os', mem, n, hn, hmax, hq⟩ := v.queues t (List.mem_of_getElem? ht)
    obtain ⟨q, cmd⟩ := t
    dsimp only at hnone hq
    subst hnone
    exact ⟨[], (ready_created hn hmax hq).1, rfl⟩
  counters := by
    funext o
    simp [counted]
  idle := fun _ _ _ => rfl
  busy := by
    intro dev type hbusy
    rw [v.idle dev type] at hbusy
    cases hbusy
  copied := by simp
  order := List.Pairwise.nil

theorem Agrees.step (v : Agrees start s h) (hb : Bounded h)
    (hstart : ∀ o, (start o).writeOpsComplete = (start o).writeOpsPending ∧
      (start o).readOpsComplete = (start o).readOpsPending) {op : SysOp} {r : SysAnswer}
    (hop : Disciplined s op) (hs : sysStep s op = some (r, s')) :
    Agrees start s' (record h (op, r)) := by
  cases op with
  | insert i x =>
    obtain ⟨answer, rfl⟩ := insert_answer hs
    cases answer with
    | error err =>
      rw [insert_error hs]
      exact v
    | ok c => exact v.insert hop hs
  | submit i =>
    simp only [sysStep] at hs
    split at hs
    · rename_i c s₁ hq
      cases hs
      exact v.submit (i := i) (c := c) (by simp only [sysStep, hq])
    · cases hs
  | process i accepts =>
    cases hq : processQueue s i accepts with
    | mk taken s₁ =>
      simp only [sysStep, hq, Option.some.injEq, Prod.mk.injEq] at hs
      obtain ⟨rfl, rfl⟩ := hs
      cases taken with
      | none =>
        obtain ⟨hqueues, hsync, hslots⟩ := processQueue_none hq
        exact v.same hsync hslots (by rw [hqueues]; exact v.queues)
      | some c => exact v.dispatch hb hstart hq
  | complete dev type =>
    cases hs
    exact v.complete hop

/-- What is claimed of a system that started with the counters `start`. -/
structure Coherent (start : Syncs) (s : SysData) (h : List Entry) : Prop where
  /-- A command that has been dispatched has only completed ones before it that share with it. -/
  order : h.Pairwise fun f e => Shares f.command e.command → e.status ≠ .waiting →
    f.status = .completed
  alone : h.Pairwise fun f e => f.status = .dispatched → e.status = .dispatched →
    ¬ Shares f.command e.command
  slots : ∀ dev type, (runningIn h dev type).length ≤ 1
  writes : ∀ o, ∃ pending complete, complete ≤ pending ∧
    pending = ops Command.dstSync h o ∧
    complete = ops Command.dstSync (h.filter Entry.done) o ∧
    (s.syncs o).writeOpsPending = (start o).writeOpsPending + UInt32.ofNat pending ∧
    (s.syncs o).writeOpsComplete = (start o).writeOpsPending + UInt32.ofNat complete
  reads : ∀ o, ∃ pending complete, complete ≤ pending ∧
    pending = ops Command.srcSync h o ∧
    complete = ops Command.srcSync (h.filter Entry.done) o ∧
    (s.syncs o).readOpsPending = (start o).readOpsPending + UInt32.ofNat pending ∧
    (s.syncs o).readOpsComplete = (start o).readOpsPending + UInt32.ofNat complete

theorem Agrees.coherent (v : Agrees start s h)
    (hstart : ∀ o, (start o).writeOpsComplete = (start o).writeOpsPending ∧
      (start o).readOpsComplete = (start o).readOpsPending) : Coherent start s h where
  order := v.order.imp fun hbefore hshare hst => (hbefore hshare).resolve_left hst
  alone := by
    apply v.order.imp
    intro f e hbefore hf he hshare
    rcases hbefore hshare with h | h
    · rw [he] at h
      cases h
    · rw [hf] at h
      cases h
  slots := by
    intro dev type
    cases huse : (s.cmdCompleteData dev type).inUse with
    | false =>
      rw [v.idle dev type huse]
      exact Nat.zero_le 1
    | true =>
      obtain ⟨e, he, -⟩ := v.busy dev type huse
      rw [he]
      exact le_rfl
  writes := by
    intro o
    have hval : s.syncs o = counted start h o := congrFun v.counters o
    refine ⟨_, _, ops_done_le Command.dstSync h o, rfl, rfl, ?_, ?_⟩
    · rw [hval]
      rfl
    · rw [hval, ← (hstart o).1]
      rfl
  reads := by
    intro o
    have hval : s.syncs o = counted start h o := congrFun v.counters o
    refine ⟨_, _, ops_done_le Command.srcSync h o, rfl, rfl, ?_, ?_⟩
    · rw [hval]
      rfl
    · rw [hval, ← (hstart o).2]
      rfl

/-- Any number of queues, and any order of the calls. -/
theorem commands_ordered_over_runs {s₀ : SysData} (h₀ : Initial s₀) {l : List (SysOp × SysAnswer)}
    (run : Run tracedStep (fun t op => Bounded t.2 ∧ Disciplined t.1 op) (s₀, []) l (s, h)) :
    Coherent s₀.syncs s h ∧
    ∀ i accepts c s', Bounded h → sysStep s (.process i accepts) = some (.taken (some c), s') →
      ∃ pre e post, Dispatchable h i c pre e post ∧
        record h (.process i accepts, .taken (some c)) =
          pre ++ { e with status := .dispatched } :: post := by
  have v : Agrees s₀.syncs (s, h).1 (s, h).2 := by
    apply run.invariant (fun t => Agrees s₀.syncs t.1 t.2) h₀.agrees
    intro t op r u vt hop hs
    obtain ⟨⟨a, s₁⟩, hstep, he⟩ := Option.map_eq_some_iff.mp hs
    cases he
    exact vt.step hop.1 h₀.counters hop.2 hstep
  refine ⟨v.coherent h₀.counters, ?_⟩
  intro i accepts c s' hb hs
  have hq : processQueue s i accepts = (some c, s') := by
    simp only [sysStep, Option.some.injEq, Prod.mk.injEq, SysAnswer.taken.injEq] at hs
    exact Prod.ext hs.1 hs.2
  obtain ⟨pre, e, post, hd, hset, -⟩ := v.dispatchable hb h₀.counters hq
  exact ⟨pre, e, post, hd, hset⟩

theorem bounded_of_few (hfew : (h.map fun e => e.command.syncCount).sum < 4294967296) :
    Bounded h := by
  have hle (side : Command → List SyncObject) (hside : ∀ c, (side c).length ≤ c.syncCount)
      (o : UInt32) : ops side h o ≤ (h.map fun e => e.command.syncCount).sum := by
    clear hfew
    induction h with
    | nil => exact le_rfl
    | cons e h ih =>
      have hcount : (syncInfos (side e.command)).count o ≤ (syncInfos (side e.command)).length :=
        List.count_le_length
      have hlen : (syncInfos (side e.command)).length = (side e.command).length :=
        List.length_map _
      have := hside e.command
      rw [ops_cons, List.map_cons, List.sum_cons]
      omega
  intro o
  have hd := hle Command.dstSync (fun c => by unfold Command.syncCount; omega) o
  have hs := hle Command.srcSync (fun c => by unfold Command.syncCount; omega) o
  omega

def sampleSystem : SysData where
  queues := [⟨sampleQueue, none⟩, ⟨sampleQueue, none⟩]
  syncs := fun _ => ⟨4294967295, 0, 4294967295, 0⟩
  cmdCompleteData := fun _ _ => ⟨false, [], []⟩

theorem sampleSystem_initial : Initial sampleSystem where
  queues := by
    intro t ht
    have htq : t = ⟨sampleQueue, none⟩ := by simpa [sampleSystem] using ht
    rw [htq]
    exact ⟨rfl, _, _, _, 100, by decide, by decide, sampleQueue_created⟩
  counters := fun _ => ⟨rfl, rfl⟩
  idle := fun _ _ => rfl

def sampleSystemOps : List SysOp :=
  [.insert 0 ⟨1, 0, 3, [4096], [8192], 4, [1, 2, 3, 4]⟩, .insert 1 ⟨2, 0, 3, [], [4096], 0, []⟩,
    .submit 1, .process 1 fun _ => true, .submit 0, .process 0 fun _ => true, .complete 0 3]

def takes : SysAnswer → Bool
  | .taken (some _) => true
  | _ => false

theorem commands_ordered_over_sample : ∃ l s h,
    exec tracedStep (sampleSystem, []) sampleSystemOps = some (l, (s, h)) ∧
    Coherent sampleSystem.syncs s h ∧
    ∃ c s', sysStep s (.process 1 fun _ => true) = some (.taken (some c), s') ∧
      ∃ pre e post, Dispatchable h 1 c pre e post ∧
        record h (.process 1 fun _ => true, .taken (some c)) =
          pre ++ { e with status := .dispatched } :: post := by
  have hrun : (exec tracedStep (sampleSystem, []) sampleSystemOps).map (fun r =>
      ((sysStep r.2.1 (.process 1 fun _ => true)).map fun q => takes q.1, decide ((r.2.2.map fun e => e.command.syncCount).sum < 4294967296))) =
      some (some true, true) := by decide +kernel
  obtain ⟨⟨l, s, h⟩, hexec, he⟩ := Option.map_eq_some_iff.mp hrun
  simp only [Prod.mk.injEq, decide_eq_true_eq] at he
  obtain ⟨⟨a, s'⟩, hproc, ha⟩ := Option.map_eq_some_iff.mp he.1
  have hrun' : Run tracedStep (fun t op =>
      (t.2.map fun e => e.command.syncCount).sum < 4294967296 ∧ Disciplined t.1 op)
      (sampleSystem, []) l (s, h) := Run.of_allowed hexec (by decide +kernel)
  obtain ⟨hcoherent, hdispatch⟩ := commands_ordered_over_runs sampleSystem_initial
    (hrun'.mono fun _ _ hok => ⟨bounded_of_few hok.1, hok.2⟩)
  refine ⟨l, s, h, hexec, hcoherent, ?_⟩
  cases a with
  | taken c =>
    cases c with
    | none => cases ha
    | some c =>
      exact ⟨c, s', hproc, hdispatch 1 (fun _ => true) c s' (bounded_of_few he.2) hproc⟩
  | inserted _ => cases ha
  | submitted _ => cases ha
  | completed => cases ha

end PvrServices.Queues
