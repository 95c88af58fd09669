import PvrServices.CommandQueueHistory

set_option autoImplicit false

/-!
# The order of commands

Commands that share a sync object run one at a time in the order of their insertion, whatever
queues they are in, as long as the counters do not come round.
-/
namespace PvrServices.Queues
open Words Memory Runs
variable {start : Syncs} {s s' : SysData} {h g pre post : List Entry} {e : Entry} {o : UInt32}
  {c : Command} {i : ℕ}

/-- Of two commands with a sync object in common, the later one waits until the first is
    completed. -/
def Before (f e : Entry) : Prop :=
  Shares f.command e.command → e.status = .waiting ∨ f.status = .completed

/-- The copies of the pending counters that a command took behind the commands `pre`; a source
    that is a destination, too, counts the command's own write. -/
def Copied (start : Syncs) (pre : List Entry) (c : Command) : Prop :=
  ∀ o, (o ∈ syncInfos c.dstSync →
      ⟨o, (start o).writeOpsPending + UInt32.ofNat (ops Command.dstSync pre o),
        (start o).readOpsPending + UInt32.ofNat (ops Command.srcSync pre o)⟩ ∈ c.dstSync) ∧
    (o ∈ syncInfos c.srcSync → o ∉ syncInfos c.dstSync →
      ⟨o, (start o).writeOpsPending + UInt32.ofNat (ops Command.dstSync pre o),
        (start o).readOpsPending + UInt32.ofNat (ops Command.srcSync pre o)⟩ ∈ c.srcSync)

/-- The counters of a sync object after the history `h`. -/
def counted (start : Syncs) (h : List Entry) (o : UInt32) : SyncData where
  writeOpsPending := (start o).writeOpsPending + UInt32.ofNat (ops Command.dstSync h o)
  readOpsPending := (start o).readOpsPending + UInt32.ofNat (ops Command.srcSync h o)
  writeOpsComplete :=
    (start o).writeOpsComplete + UInt32.ofNat (ops Command.dstSync (h.filter Entry.done) o)
  readOpsComplete :=
    (start o).readOpsComplete + UInt32.ofNat (ops Command.srcSync (h.filter Entry.done) o)

/-- The commands of the queue `i` that have not been dispatched. -/
def waitingIn (h : List Entry) (i : ℕ) : List Command :=
  (h.filter (Entry.waitsIn i)).map Entry.command

def runningIn (h : List Entry) (dev type : ℕ) : List Entry := h.filter (Entry.runsIn dev type)

structure Agrees (start : Syncs) (s : SysData) (h : List Entry) : Prop where
  queues : ∀ i t, s.queues[i]? = some t → ∃ cs, Ready t cs ∧
    waitingIn h i = cs ++ (t.command.map (commandAt t.queue.linQueue)).toList
  counters : s.syncs = counted start h
  idle : ∀ dev type, (s.cmdCompleteData dev type).inUse = false → runningIn h dev type = []
  busy : ∀ dev type, (s.cmdCompleteData dev type).inUse = true → ∃ e,
    runningIn h dev type = [e] ∧ (s.cmdCompleteData dev type).dstSync = e.command.dstSync ∧
      (s.cmdCompleteData dev type).srcSync = e.command.srcSync
  copied : ∀ pre e post, h = pre ++ e :: post → Copied start pre e.command
  order : h.Pairwise Before

/-- Fewer than `2^32` operations of a kind are outstanding on each sync object. -/
def Bounded (h : List Entry) : Prop :=
  ∀ o, ops Command.dstSync h o < ops Command.dstSync (h.filter Entry.done) o + 4294967296 ∧
    ops Command.srcSync h o < ops Command.srcSync (h.filter Entry.done) o + 4294967296

theorem copied_of_map_eq (hmap : g.map Entry.command = h.map Entry.command)
    (hc : ∀ pre e post, h = pre ++ e :: post → Copied start pre e.command) :
    ∀ pre e post, g = pre ++ e :: post → Copied start pre e.command := by
  intro pre e post hg
  rw [hg, List.map_append, List.map_cons] at hmap
  obtain ⟨pre', rest, rfl, hpre, hrest⟩ := List.map_eq_append_iff.mp hmap.symm
  obtain ⟨e', post', rfl, he, -⟩ := List.map_eq_cons_iff.mp hrest
  have := hc pre' e' post' rfl
  unfold Copied at this ⊢
  simpa only [ops_congr _ _ hpre, he] using this

theorem counted_dispatch (he : e.done = false) :
    counted start (pre ++ { e with status := .dispatched } :: post) =
      counted start (pre ++ e :: post) := by
  funext o
  have hnew : Entry.done { e with status := .dispatched } = false := rfl
  simp [counted, he, hnew]

theorem counted_complete (he : e.done = false) :
    counted start (pre ++ { e with status := .completed } :: post) =
      completeReads (completeWrites (counted start (pre ++ e :: post)) e.command.dstSync)
        e.command.srcSync := by
  funext o
  have hnew : Entry.done { e with status := .completed } = true := rfl
  rw [completeReads_spec, completeWrites_spec]
  simp only [counted, List.filter_append, List.filter_cons, he, hnew, Bool.false_eq_true, if_true,
    if_false, ops_append, ops_cons, UInt32.ofNat_add, SyncData.mk.injEq, true_and]
  constructor
  · ac_rfl
  · ac_rfl

theorem all_done {side : Command → List SyncObject} {a b : UInt32}
    (hpass : a + UInt32.ofNat (ops side ((pre ++ e :: post).filter Entry.done) o) =
      b + UInt32.ofNat (ops side pre o)) (hab : a = b)
    (hclose : ops side (pre ++ e :: post) o <
      ops side ((pre ++ e :: post).filter Entry.done) o + 4294967296)
    (he : e.done = false) (hpost : ∀ f ∈ post, o ∈ syncInfos (side f.command) → f.done = false) :
    ∀ f ∈ pre, o ∈ syncInfos (side f.command) → f.done = true := by
  subst hab
  have hzero : ops side (post.filter Entry.done) o = 0 := by
    apply ops_eq_zero
    intro f hf ho
    obtain ⟨hf, hd⟩ := List.mem_filter.mp hf
    rw [hpost f hf ho] at hd
    cases hd
  have hle := ops_done_le side pre o
  simp only [List.filter_append, List.filter_cons, he, Bool.false_eq_true, if_false, ops_append,
    ops_cons, hzero, Nat.add_zero] at hpass hclose
  have heq := eq_of_ofNat_eq ((UInt32.add_right_inj a).mp hpass) hle (by omega)
  intro f hf ho
  exact done_of_ops_eq heq hf ho

/-- Every command before `e` that shares a sync object with it is completed, once the counters
    of the sync objects of `e` have come up to its copies. -/
theorem Agrees.before_done (v : Agrees start s (pre ++ e :: post)) (hb : Bounded (pre ++ e :: post))
    (hstart : ∀ o, (start o).writeOpsComplete = (start o).writeOpsPending ∧
      (start o).readOpsComplete = (start o).readOpsPending)
    (he : e.status = .waiting) (hdst : ∀ x ∈ e.command.dstSync, syncPasses s.syncs false x = true)
    (hsrc : ∀ x ∈ e.command.srcSync, syncPasses s.syncs false x = true) :
    (∀ f ∈ pre, Shares f.command e.command → f.status = .completed) ∧
    ∀ f ∈ post, Shares e.command f.command → f.status = .waiting := by
  have hpair := List.pairwise_append.mp v.order
  have hlater : ∀ f ∈ post, Shares e.command f.command → f.status = .waiting := by
    intro f hf hshare
    rcases (List.pairwise_cons.mp hpair.2.1).1 f hf hshare with h | h
    · exact h
    · rw [he] at h
      cases h
  refine ⟨?_, hlater⟩
  have hdone : e.done = false := by
    unfold Entry.done
    rw [he]
    rfl
  intro f hf ⟨o, hof, hoe⟩
  have hcopy : ⟨o, (start o).writeOpsPending + UInt32.ofNat (ops Command.dstSync pre o),
      (start o).readOpsPending + UInt32.ofNat (ops Command.srcSync pre o)⟩ ∈ e.command.dstSync ∨
      ⟨o, (start o).writeOpsPending + UInt32.ofNat (ops Command.dstSync pre o),
      (start o).readOpsPending + UInt32.ofNat (ops Command.srcSync pre o)⟩ ∈
        e.command.srcSync := by
    have hc := v.copied pre e post rfl o
    by_cases hod : o ∈ syncInfos e.command.dstSync
    · exact Or.inl (hc.1 hod)
    · exact Or.inr (hc.2 (hoe.resolve_left hod) hod)
  have hpass : syncPasses s.syncs false
      ⟨o, (start o).writeOpsPending + UInt32.ofNat (ops Command.dstSync pre o),
        (start o).readOpsPending + UInt32.ofNat (ops Command.srcSync pre o)⟩ = true :=
    hcopy.elim (hdst _) (hsrc _)
  unfold syncPasses at hpass
  rw [v.counters] at hpass
  simp only [counted, Bool.false_and, Bool.or_false, Bool.and_eq_true] at hpass
  have hnot (k : Entry) (hk : k ∈ post)
      (hok : o ∈ syncInfos k.command.dstSync ∨ o ∈ syncInfos k.command.srcSync) :
      k.done = false := by
    unfold Entry.done
    rw [hlater k hk ⟨o, hoe, hok⟩]
    rfl
  have hcomplete : f.done = true := by
    rcases hof with hof | hof
    · exact all_done (of_decide_eq_true hpass.1) (hstart o).1 (hb o).1 hdone
        (fun k hk hok => hnot k hk (Or.inl hok)) f hf hof
    · exact all_done (of_decide_eq_true hpass.2) (hstart o).2 (hb o).2 hdone
        (fun k hk hok => hnot k hk (Or.inr hok)) f hf hof
  simpa [Entry.done] using hcomplete

theorem waitingIn_append (h g : List Entry) (i : ℕ) :
    waitingIn (h ++ g) i = waitingIn h i ++ waitingIn g i := by
  simp [waitingIn]

theorem runningIn_append (h g : List Entry) (dev type : ℕ) :
    runningIn (h ++ g) dev type = runningIn h dev type ++ runningIn g dev type :=
  List.filter_append ..

theorem set_same {α : Type} {l : List α} {i : ℕ} {a : α} (h : l[i]? = some a) : l.set i a = l := by
  obtain ⟨hi, rfl⟩ := List.getElem?_eq_some_iff.mp h
  exact List.set_getElem_self hi

/-- An insertion fails and changes nothing, or it puts its command at the free place. -/
theorem insert_cases {x : InsertCall} {r : SysAnswer}
    (hs : sysStep s (.insert i x) = some (r, s')) :
    (∃ err, r = .inserted (.error err) ∧ s' = s) ∨ ∃ t p, s.queues[i]? = some t ∧
      getQueueSpace t.queue (commandSize (x.insertion s.syncs).1.dstSync.length
        (x.insertion s.syncs).1.srcSync.length (x.insertion s.syncs).1.dataByteSize) = .ok p ∧
      r = .inserted (.ok (commandAt (inserted t.queue.linQueue p (x.insertion s.syncs).1 x.data)
        p)) ∧
      s' = ⟨s.queues.set i ⟨{ t.queue with
        linQueue := inserted t.queue.linQueue p (x.insertion s.syncs).1 x.data }, some p⟩,
        (x.insertion s.syncs).2, s.cmdCompleteData⟩ := by
  cases ht : s.queues[i]? with
  | none => simp [sysStep, onQueue, ht] at hs
  | some t =>
    have hi : i < s.queues.length := (List.getElem?_eq_some_iff.mp ht).1
    cases hspace : getQueueSpace t.queue (commandSize (x.insertion s.syncs).1.dstSync.length
        (x.insertion s.syncs).1.srcSync.length (x.insertion s.syncs).1.dataByteSize) with
    | error e =>
      simp only [sysStep, onQueue, ht, step, insertCommand, hspace, Option.some.injEq,
        Prod.mk.injEq] at hs
      exact .inl ⟨e, hs.1.symm, by rw [← hs.2, set_same ht]⟩
    | ok p =>
      simp only [sysStep, onQueue, ht, step, insertCommand, hspace, List.getElem?_set_self hi,
        Option.some.injEq, Prod.mk.injEq] at hs
      exact .inr ⟨t, p, rfl, hspace, hs.1.symm, hs.2.symm⟩

theorem insert_ok {x : InsertCall} (hs : sysStep s (.insert i x) = some (.inserted (.ok c), s')) :
    ∃ t p, s.queues[i]? = some t ∧
      getQueueSpace t.queue (commandSize (x.insertion s.syncs).1.dstSync.length
        (x.insertion s.syncs).1.srcSync.length (x.insertion s.syncs).1.dataByteSize) = .ok p ∧
      c = commandAt (inserted t.queue.linQueue p (x.insertion s.syncs).1 x.data) p ∧
      s' = ⟨s.queues.set i ⟨{ t.queue with
        linQueue := inserted t.queue.linQueue p (x.insertion s.syncs).1 x.data }, some p⟩,
        (x.insertion s.syncs).2, s.cmdCompleteData⟩ := by
  cases insert_cases hs with
  | inl hfail =>
    obtain ⟨err, hr, -⟩ := hfail
    cases hr
  | inr hdone =>
    obtain ⟨t, p, ht, hspace, hr, hs'⟩ := hdone
    exact ⟨t, p, ht, hspace, by simpa using hr, hs'⟩

theorem insert_answer {x : InsertCall} {r : SysAnswer}
    (hs : sysStep s (.insert i x) = some (r, s')) : ∃ answer, r = .inserted answer := by
  cases insert_cases hs with
  | inl hfail => exact ⟨_, hfail.choose_spec.1⟩
  | inr hdone =>
    obtain ⟨_, _, -, -, hr, -⟩ := hdone
    exact ⟨_, hr⟩

theorem insert_error {x : InsertCall} {err : PvrsrvError}
    (hs : sysStep s (.insert i x) = some (.inserted (.error err), s')) : s' = s := by
  cases insert_cases hs with
  | inl hfail => exact hfail.choose_spec.2
  | inr hdone =>
    obtain ⟨_, _, -, -, hr, -⟩ := hdone
    cases hr

/-- A command is processed and takes its slot, or all but a slot that is not in use is as it was. -/
theorem processCommand_cases {accepts : Bool} {err : PvrsrvError}
    (hp : processCommand s c false accepts = (err, s')) :
    (err = .ok ∧ (∀ x ∈ c.dstSync, syncPasses s.syncs false x = true) ∧
      (∀ x ∈ c.srcSync, syncPasses s.syncs false x = true) ∧
      (s.cmdCompleteData c.devIndex.toNat c.commandType.toNat).inUse = false ∧
      s' = ⟨s.queues, s.syncs, setSlot s.cmdCompleteData c.devIndex.toNat c.commandType.toNat
        ⟨true, c.dstSync, c.srcSync⟩⟩) ∨
    (err ≠ .ok ∧ s'.queues = s.queues ∧ s'.syncs = s.syncs ∧ ∀ dev type,
      (s'.cmdCompleteData dev type).inUse = (s.cmdCompleteData dev type).inUse ∧
      ((s.cmdCompleteData dev type).inUse = true →
        s'.cmdCompleteData dev type = s.cmdCompleteData dev type)) := by
  unfold processCommand at hp
  by_cases hdst : c.dstSync.all (syncPasses s.syncs false) = false
  · rw [if_pos hdst] at hp
    cases hp
    exact .inr ⟨nofun, rfl, rfl, fun _ _ => ⟨rfl, fun _ => rfl⟩⟩
  · rw [if_neg hdst] at hp
    by_cases hsrc : c.srcSync.all (syncPasses s.syncs false) = false
    · rw [if_pos hsrc] at hp
      cases hp
      exact .inr ⟨nofun, rfl, rfl, fun _ _ => ⟨rfl, fun _ => rfl⟩⟩
    · rw [if_neg hsrc] at hp
      by_cases hdev : sysDeviceCount ≤ c.devIndex.toNat
      · rw [if_pos hdev] at hp
        cases hp
        exact .inr ⟨nofun, rfl, rfl, fun _ _ => ⟨rfl, fun _ => rfl⟩⟩
      · rw [if_neg hdev] at hp
        dsimp only at hp
        by_cases huse : (s.cmdCompleteData c.devIndex.toNat c.commandType.toNat).inUse = true
        · rw [if_pos huse] at hp
          cases hp
          exact .inr ⟨nofun, rfl, rfl, fun _ _ => ⟨rfl, fun _ => rfl⟩⟩
        · rw [if_neg huse] at hp
          cases accepts with
          | true =>
            simp only [Bool.not_eq_false, List.all_eq_true] at hdst hsrc
            cases hp
            exact .inl ⟨rfl, hdst, hsrc, by simpa using huse, rfl⟩
          | false =>
            cases hp
            refine .inr ⟨nofun, rfl, rfl, fun dev type => ?_⟩
            unfold setSlot
            dsimp only
            by_cases hslot : dev = c.devIndex.toNat ∧ type = c.commandType.toNat
            · rw [if_pos hslot, hslot.1, hslot.2]
              exact ⟨by simpa using huse, fun h => absurd h huse⟩
            · rw [if_neg hslot]
              exact ⟨rfl, fun _ => rfl⟩

theorem processQueue_taken {accepts : Command → Bool}
    (hs : processQueue s i accepts = (some c, s')) :
    ∃ t, s.queues[i]? = some t ∧ takeCommand t.queue (fun _ => true) =
        (some c, updateQueueRoff t.queue c.cmdSize.toNat) ∧
      (∀ x ∈ c.dstSync, syncPasses s.syncs false x = true) ∧
      (∀ x ∈ c.srcSync, syncPasses s.syncs false x = true) ∧
      (s.cmdCompleteData c.devIndex.toNat c.commandType.toNat).inUse = false ∧
      s' = ⟨s.queues.set i ⟨updateQueueRoff t.queue c.cmdSize.toNat, t.command⟩, s.syncs,
        setSlot s.cmdCompleteData c.devIndex.toNat c.commandType.toNat
          ⟨true, c.dstSync, c.srcSync⟩⟩ := by
  cases ht : s.queues[i]? with
  | none => simp [processQueue, ht] at hs
  | some t =>
    cases hh : headCommand t.queue with
    | none => simp [processQueue, ht, hh] at hs
    | some d =>
      obtain ⟨⟨err, s₁⟩, hp⟩ : ∃ r, processCommand s d false (accepts d) = r := ⟨_, rfl⟩
      by_cases herr : err = .ok
      · subst herr
        simp only [processQueue, ht, hh, hp, takeCommand, decide_true, if_true,
          Prod.mk.injEq, Option.some.injEq] at hs
        obtain ⟨rfl, rfl⟩ := hs
        obtain ⟨-, hdst, hsrc, huse, rfl⟩ := (processCommand_cases hp).resolve_right fun h => h.1 rfl
        exact ⟨t, rfl, by simp [takeCommand, hh], hdst, hsrc, huse, rfl⟩
      · simp [processQueue, ht, hh, hp, takeCommand, herr] at hs

theorem processQueue_none {accepts : Command → Bool}
    (hs : processQueue s i accepts = (none, s')) :
    s'.queues = s.queues ∧ s'.syncs = s.syncs ∧ ∀ dev type,
      (s'.cmdCompleteData dev type).inUse = (s.cmdCompleteData dev type).inUse ∧
      ((s.cmdCompleteData dev type).inUse = true →
        s'.cmdCompleteData dev type = s.cmdCompleteData dev type) := by
  cases ht : s.queues[i]? with
  | none =>
    simp only [processQueue, ht, Prod.mk.injEq, true_and] at hs
    subst hs
    exact ⟨rfl, rfl, fun _ _ => ⟨rfl, fun _ => rfl⟩⟩
  | some t =>
    cases hh : headCommand t.queue with
    | none =>
      simp only [processQueue, ht, hh, Prod.mk.injEq, true_and] at hs
      subst hs
      exact ⟨rfl, rfl, fun _ _ => ⟨rfl, fun _ => rfl⟩⟩
    | some d =>
      obtain ⟨⟨err, s₁⟩, hp⟩ : ∃ r, processCommand s d false (accepts d) = r := ⟨_, rfl⟩
      by_cases herr : err = .ok
      · simp [processQueue, ht, hh, hp, takeCommand, herr] at hs
      · obtain ⟨-, hq, hsync, hslots⟩ := (processCommand_cases hp).resolve_left fun h => herr h.1
        simp only [processQueue, ht, hh, hp, takeCommand, herr, decide_false, Bool.false_eq_true,
          if_false, Prod.mk.injEq, true_and] at hs
        subst hs
        exact ⟨by dsimp only; rw [hq, set_same ht], hsync, hslots⟩

theorem split_snoc {α : Type} {l pre post : List α} {a x : α} (h : l ++ [x] = pre ++ a :: post) :
    (pre = l ∧ a = x ∧ post = []) ∨ ∃ post', post = post' ++ [x] ∧ l = pre ++ a :: post' := by
  rcases List.eq_nil_or_concat post with rfl | ⟨post', y, rfl⟩
  · have := List.append_inj' h rfl
    exact Or.inl ⟨this.1.symm, by simpa using this.2.symm, rfl⟩
  · rw [List.concat_eq_append, ← List.cons_append, ← List.append_assoc] at h
    have := List.append_inj' h rfl
    refine Or.inr ⟨post', ?_, this.1⟩
    rw [List.concat_eq_append, this.2]

/-- Steps that leave the history alone: the queues keep their commands. -/
theorem Agrees.same (v : Agrees start s h) (hsync : s'.syncs = s.syncs)
    (hslots : ∀ dev type, (s'.cmdCompleteData dev type).inUse =
      (s.cmdCompleteData dev type).inUse ∧ ((s.cmdCompleteData dev type).inUse = true →
        s'.cmdCompleteData dev type = s.cmdCompleteData dev type))
    (hqueues : ∀ i t, s'.queues[i]? = some t → ∃ cs, Ready t cs ∧
      waitingIn h i = cs ++ (t.command.map (commandAt t.queue.linQueue)).toList) :
    Agrees start s' h where
  queues := hqueues
  counters := hsync.trans v.counters
  idle := fun dev type hi => v.idle dev type ((hslots dev type).1 ▸ hi)
  busy := by
    intro dev type hb
    have huse : (s.cmdCompleteData dev type).inUse = true := (hslots dev type).1 ▸ hb
    rw [(hslots dev type).2 huse]
    exact v.busy dev type huse
  copied := v.copied
  order := v.order

theorem Agrees.submit (v : Agrees start s h)
    (hs : sysStep s (.submit i) = some (.submitted c, s')) : Agrees start s' h := by
  cases ht : s.queues[i]? with
  | none => simp [sysStep, onQueue, ht] at hs
  | some t =>
    have hi : i < s.queues.length := (List.getElem?_eq_some_iff.mp ht).1
    cases hc : t.command with
    | none => simp [sysStep, onQueue, ht, step, hc] at hs
    | some p =>
      simp only [sysStep, onQueue, ht, step, hc, Option.some.injEq, Prod.mk.injEq] at hs
      obtain ⟨-, rfl⟩ := hs
      refine v.same ?_ (fun _ _ => ⟨?_, fun _ => ?_⟩) ?_
      · rfl
      · rfl
      · rfl
      intro j u hu
      by_cases hj : j = i
      · subst hj
        rw [List.getElem?_set_self hi] at hu
        cases hu
        obtain ⟨cs, vt, hwait⟩ := v.queues j t ht
        obtain ⟨d, -, hread, hmem, vt'⟩ := vt.submit hc
        refine ⟨cs ++ [d], vt', ?_⟩
        rw [hwait, hc, ← hread, hmem]
        simp
      · rw [List.getElem?_set_ne (fun h => hj h.symm)] at hu
        exact v.queues j u hu

theorem Agrees.insert (v : Agrees start s h) {x : InsertCall}
    (hord : ∀ t, s.queues[i]? = some t → Ordered t (.insert (x.insertion s.syncs).1 x.data))
    (hs : sysStep s (.insert i x) = some (.inserted (.ok c), s')) :
    Agrees start s' (h ++ [⟨i, c, .waiting⟩]) := by
  obtain ⟨t, p, ht, hspace, hc, rfl⟩ := insert_ok hs
  have hi : i < s.queues.length := (List.getElem?_eq_some_iff.mp ht).1
  obtain ⟨hnone, hsized, hdata⟩ := hord t ht
  obtain ⟨cs, vt, hwait⟩ := v.queues i t ht
  obtain ⟨vt', hread, -⟩ := vt.insert hsized hdata hspace
  obtain ⟨hdst, hwrites, hdstCopy⟩ := takeSyncs_spec false s.syncs x.dstSync
  obtain ⟨hsrc, hreads, hsrcCopy⟩ :=
    takeSyncs_spec true (takeSyncs false s.syncs x.dstSync).2 x.srcSync
  have hcd : c.dstSync = (takeSyncs false s.syncs x.dstSync).1 := by
    rw [hc, hread]
    rfl
  have hcs : c.srcSync = (takeSyncs true (takeSyncs false s.syncs x.dstSync).2 x.srcSync).1 := by
    rw [hc, hread]
    rfl
  exact
    { queues := by
        intro j u hu
        rw [waitingIn_append]
        by_cases hj : j = i
        · subst hj
          rw [List.getElem?_set_self hi] at hu
          cases hu
          refine ⟨cs, vt', ?_⟩
          rw [hwait, hnone]
          simp [waitingIn, Entry.waitsIn, hc]
        · rw [List.getElem?_set_ne (fun h => hj h.symm)] at hu
          have hother : waitingIn [⟨i, c, .waiting⟩] j = [] := by
            have : ¬ i = j := fun h => hj h.symm
            simp [waitingIn, Entry.waitsIn, this]
          rw [hother, List.append_nil]
          exact v.queues j u hu
      counters := by
        funext o
        change (takeSyncs true (takeSyncs false s.syncs x.dstSync).2 x.srcSync).2 o = _
        rw [hreads o, hwrites o, v.counters]
        have hopen : Entry.done ⟨i, c, .waiting⟩ = false := rfl
        simp only [counted, if_true, Bool.false_eq_true, if_false, List.filter_append,
          List.filter_cons, hopen, List.filter_nil, List.append_nil, ops_append, ops_cons,
          ops_nil, Nat.add_zero, UInt32.ofNat_add, hcd, hcs, hdst, hsrc, UInt32.add_assoc]
      idle := by
        intro dev type hidle
        rw [runningIn_append, v.idle dev type hidle]
        rfl
      busy := by
        intro dev type hbusy
        obtain ⟨e, he, hslot⟩ := v.busy dev type hbusy
        refine ⟨e, ?_, hslot⟩
        rw [runningIn_append, he]
        rfl
      copied := by
        intro pre e post hsplit
        rcases split_snoc hsplit with ⟨rfl, rfl, -⟩ | ⟨post', -, hold⟩
        · intro o
          dsimp only
          rw [hcd, hcs, hdst, hsrc]
          have hval : s.syncs o = counted start pre o := congrFun v.counters o
          refine ⟨fun ho => ?_, fun ho hod => ?_⟩
          · have hcopy := hdstCopy o ho
            rw [hval] at hcopy
            exact hcopy
          · have hcopy := hsrcCopy o ho
            rw [hwrites o, hval, List.count_eq_zero.mpr hod] at hcopy
            simpa [counted] using hcopy
        · exact v.copied pre e post' hold
      order := by
        rw [List.pairwise_append]
        refine ⟨v.order, List.pairwise_singleton _ _, ?_⟩
        intro f _ g hg _
        rw [List.mem_singleton.mp hg]
        exact Or.inl rfl }

end PvrServices.Queues
