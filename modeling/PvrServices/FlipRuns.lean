import Mathlib.Data.List.Nodup
import PvrServices.FlipBase

set_option autoImplicit false

/-!
# Flips over runs

As long as no flip carries clip rectangles, each one is dispatched as soon as the flips before it
that share a buffer are completed, and the queues run empty.
-/
namespace PvrServices.Flips
open Words Memory Runs Queues
variable {d : OmaplfbDevice} {start : Syncs} {s s' : SysData} {h pre post : List Entry} {e : Entry}
  {o : UInt32} {c : Command} {i : ℕ} {t : Client} {cs : List Command}

/-- The commands that have not been dispatched, whatever queue they are in. -/
def waiting (h : List Entry) : List Entry := h.filter fun e => e.status = .waiting

theorem waiting_append (h g : List Entry) : waiting (h ++ g) = waiting h ++ waiting g :=
  List.filter_append ..

theorem countP_le_add {α : Type} {p q r : α → Bool}
    (hpqr : ∀ a, p a = true → q a = true ∨ r a = true) (l : List α) :
    l.countP p ≤ l.countP q + l.countP r := by
  induction l with
  | nil => exact Nat.zero_le _
  | cons a l ih =>
    have ha := hpqr a
    rw [List.countP_cons, List.countP_cons, List.countP_cons]
    cases hp : p a with
    | false =>
      rw [if_neg Bool.false_ne_true]
      omega
    | true =>
      rw [if_pos rfl]
      cases ha hp with
      | inl hq =>
        rw [if_pos hq]
        omega
      | inr hr =>
        rw [if_pos hr]
        omega

def waitingBelow (n : ℕ) (h : List Entry) : ℕ :=
  h.countP fun e => e.status = .waiting && decide (e.queue < n)

theorem waitingBelow_le {k : ℕ} (hk : ∀ i, (waitingIn h i).length ≤ k) (n : ℕ) :
    waitingBelow n h ≤ k * n := by
  induction n with
  | zero =>
    have hnone : waitingBelow 0 h = 0 := by
      unfold waitingBelow
      rw [List.countP_eq_zero]
      intro e _
      simp
    rw [hnone]
    exact Nat.zero_le _
  | succ n ih =>
    have hstep : waitingBelow (n + 1) h ≤ waitingBelow n h + h.countP (Entry.waitsIn n) := by
      apply countP_le_add
      intro e he
      rw [Bool.and_eq_true] at he
      have hlt : e.queue < n + 1 := of_decide_eq_true he.2
      by_cases hn : e.queue = n
      · exact .inr (waitsIn_iff.mpr ⟨hn, of_decide_eq_true he.1⟩)
      · rw [Bool.and_eq_true]
        exact .inl ⟨he.1, decide_eq_true (by omega)⟩
    have hlast := hk n
    unfold waitingIn at hlast
    rw [List.length_map, ← List.countP_eq_length_filter] at hlast
    rw [Nat.mul_succ]
    omega

structure Plain (d : DisplayclassInfo) (c : Command) : Prop where
  dst : c.dstSync = []
  distinct : (syncInfos c.srcSync).Nodup
  device : c.devIndex = d.ui32DeviceID
  type : c.commandType = dcFlipCommand.toUInt32
  size : c.dataSize.toNat = sizeofFlipCommand

structure Steady (d : OmaplfbDevice) (start : Syncs) (s : SysData) (h : List Entry) : Prop where
  agrees : Agrees start s h
  started : ∀ o, (start o).writeOpsComplete = (start o).writeOpsPending ∧
    (start o).readOpsComplete = (start o).readOpsPending
  count : s.queues.length = d.swapChainCount
  clients : ∀ t ∈ s.queues, t.command = none ∧ t.queue.queueSize = 1024
  placed : ∀ e ∈ h, e.queue < d.swapChainCount
  plain : ∀ e ∈ h, Plain d.toDisplayclassInfo e.command
  settled : ∀ e ∈ h, e.status ≠ .dispatched

theorem Steady.unread (v : Steady d start s h) (ht : s.queues[i]? = some t) :
    Ready t (waitingIn h i) := by
  obtain ⟨cs, vt, hwait⟩ := v.agrees.queues i t ht
  rw [(v.clients t (List.mem_of_getElem? ht)).1] at hwait
  simp only [Option.map_none, Option.toList_none, List.append_nil] at hwait
  rwa [hwait]

theorem Steady.free (v : Steady d start s h) (dev type : ℕ) :
    (s.cmdCompleteData dev type).inUse = false := by
  cases huse : (s.cmdCompleteData dev type).inUse with
  | false => rfl
  | true =>
    obtain ⟨e, he, -⟩ := v.agrees.busy dev type huse
    have hmem : e ∈ runningIn h dev type := by
      rw [he]
      exact List.mem_singleton_self e
    obtain ⟨heh, hruns⟩ := List.mem_filter.mp hmem
    exact absurd (runsIn_iff.mp hruns).1.1 (v.settled e heh)

theorem Steady.waiting_few (v : Steady d start s h) :
    (waiting h).length ≤ 25 * d.swapChainCount := by
  have heach (i : ℕ) : (waitingIn h i).length ≤ 25 := by
    cases ht : s.queues[i]? with
    | some t =>
      have hlt := unread_length (v.unread ht)
      rw [(v.clients t (List.mem_of_getElem? ht)).2] at hlt
      unfold commandHeader at hlt
      omega
    | none =>
      have hge := List.getElem?_eq_none_iff.mp ht
      have hnil : waitingIn h i = [] := by
        unfold waitingIn
        rw [List.map_eq_nil_iff, List.filter_eq_nil_iff]
        intro e he
        have hlt := v.placed e he
        rw [waitsIn_iff]
        have := v.count
        omega
      rw [hnil]
      exact Nat.zero_le _
  have hall : (waiting h).length = waitingBelow d.swapChainCount h := by
    unfold waiting waitingBelow
    rw [← List.countP_eq_length_filter]
    apply List.countP_congr
    intro e he
    rw [Bool.and_eq_true]
    constructor
    · intro hw
      exact ⟨hw, decide_eq_true (v.placed e he)⟩
    · intro hw
      exact hw.1
  rw [hall]
  exact waitingBelow_le heach d.swapChainCount

theorem ops_le_done (hplain : ∀ e ∈ h, (syncInfos e.command.srcSync).Nodup)
    (hsettled : ∀ e ∈ h, e.status ≠ .dispatched) (o : UInt32) :
    ops Command.srcSync h o ≤
      ops Command.srcSync (h.filter Entry.done) o + (waiting h).length := by
  induction h with
  | nil => exact Nat.zero_le _
  | cons e h ih =>
    have hrest := ih (fun f hf => hplain f (List.mem_cons_of_mem _ hf))
      fun f hf => hsettled f (List.mem_cons_of_mem _ hf)
    have hone : (syncInfos e.command.srcSync).count o ≤ 1 :=
      List.nodup_iff_count_le_one.mp (hplain e List.mem_cons_self) o
    have hst := hsettled e List.mem_cons_self
    cases he : e.status with
    | waiting =>
      have hdone : e.done = false := by simp [Entry.done, he]
      simp only [waiting, List.filter_cons, hdone, he, ops_cons, decide_true, if_true,
        Bool.false_eq_true, if_false, List.length_cons] at hrest ⊢
      omega
    | dispatched => exact absurd he hst
    | completed =>
      have hdone : e.done = true := by simp [Entry.done, he]
      have hne : decide (Status.completed = Status.waiting) = false := rfl
      simp only [waiting, List.filter_cons, hdone, he, ops_cons, hne, if_true,
        Bool.false_eq_true, if_false] at hrest ⊢
      omega

theorem Steady.bounded (v : Steady d start s h) : Bounded h := by
  have hfew := v.waiting_few
  have hfits := d.fits
  intro o
  have hdst : ops Command.dstSync h o = 0 := by
    apply ops_eq_zero
    intro e he
    rw [(v.plain e he).dst]
    exact List.not_mem_nil
  have hsrc := ops_le_done (fun e he => (v.plain e he).distinct) v.settled o
  omega

theorem shares_of_src {f : Command} (ho : o ∈ syncInfos c.srcSync)
    (hf : o ∈ syncInfos f.srcSync) : Shares f c :=
  ⟨o, .inr hf, .inr ho⟩

theorem eq_of_syncInfo {l : List SyncObject} (hl : (syncInfos l).Nodup) {x y : SyncObject}
    (hx : x ∈ l) (hy : y ∈ l) (hxy : x.kernelSyncInfo = y.kernelSyncInfo) : x = y :=
  List.inj_on_of_nodup_map hl hx hy hxy

/-- A copy of the counters is reached when the commands before it that share are completed. -/
theorem Steady.passes (v : Steady d start s (pre ++ e :: post)) (he : e.status = .waiting)
    (hbefore : ∀ f ∈ pre, Shares f.command e.command → f.status = .completed) {x : SyncObject}
    (hx : x ∈ e.command.srcSync) : syncPasses s.syncs false x = true := by
  have hplain : Plain d.toDisplayclassInfo e.command := v.plain e (by simp)
  have ho : x.kernelSyncInfo ∈ syncInfos e.command.srcSync := List.mem_map_of_mem hx
  have hcopy := (v.agrees.copied pre e post rfl x.kernelSyncInfo).2 ho (by
    rw [hplain.dst]
    exact List.not_mem_nil)
  -- distinct sync objects: the copy that was taken is this one
  have hxeq := eq_of_syncInfo hplain.distinct hx hcopy rfl
  have hnodst (g : List Entry) (hg : ∀ f ∈ g, f ∈ pre ++ e :: post) :
      ops Command.dstSync g x.kernelSyncInfo = 0 := by
    apply ops_eq_zero
    intro f hf
    rw [(v.plain f (hg f hf)).dst]
    exact List.not_mem_nil
  have hlater : ∀ f ∈ post, Shares e.command f.command → f.status = .waiting := by
    intro f hf hshare
    have hpair := (List.pairwise_cons.mp (List.pairwise_append.mp v.agrees.order).2.1).1 f hf
    cases hpair hshare with
    | inl h => exact h
    | inr h =>
      rw [he] at h
      cases h
  have hdone : e.done = false := by simp [Entry.done, he]
  have hpost : ops Command.srcSync (post.filter Entry.done) x.kernelSyncInfo = 0 := by
    apply ops_eq_zero
    intro f hf hof
    obtain ⟨hfp, hfd⟩ := List.mem_filter.mp hf
    have hw := hlater f hfp ⟨x.kernelSyncInfo, .inr ho, .inr hof⟩
    simp [Entry.done, hw] at hfd
  have hpre : ops Command.srcSync (pre.filter Entry.done) x.kernelSyncInfo =
      ops Command.srcSync pre x.kernelSyncInfo := by
    clear hlater hcopy hxeq hnodst v
    induction pre with
    | nil => rfl
    | cons f pre ih =>
      have hrest := ih fun g hg => hbefore g (List.mem_cons_of_mem _ hg)
      rw [List.filter_cons, ops_cons]
      by_cases hof : x.kernelSyncInfo ∈ syncInfos f.command.srcSync
      · have hc : f.done = true := by
          unfold Entry.done
          rw [hbefore f List.mem_cons_self (shares_of_src ho hof)]
          rfl
        rw [if_pos hc, ops_cons, hrest]
      · rw [List.count_eq_zero.mpr hof]
        split
        · rw [ops_cons, List.count_eq_zero.mpr hof, hrest]
        · rw [hrest, Nat.zero_add]
  have hsrc : ops Command.srcSync ((pre ++ e :: post).filter Entry.done) x.kernelSyncInfo =
      ops Command.srcSync pre x.kernelSyncInfo := by
    rw [List.filter_append, List.filter_cons, hdone, if_neg Bool.false_ne_true, ops_append, hpre,
      hpost, Nat.add_zero]
  have hdst : ops Command.dstSync ((pre ++ e :: post).filter Entry.done) x.kernelSyncInfo =
      ops Command.dstSync pre x.kernelSyncInfo := by
    rw [hnodst _ fun f hf => (List.mem_filter.mp hf).1,
      hnodst pre fun f hf => List.mem_append_left _ hf]
  have hval : s.syncs x.kernelSyncInfo = counted start (pre ++ e :: post) x.kernelSyncInfo :=
    congrFun v.agrees.counters _
  unfold syncPasses
  rw [hval]
  simp only [counted, hsrc, hdst, (v.started x.kernelSyncInfo).1, (v.started x.kernelSyncInfo).2]
  rw [hxeq]
  simp

theorem Steady.accepted (v : Steady d start s (pre ++ e :: post)) (he : e.status = .waiting)
    (hbefore : ∀ f ∈ pre, Shares f.command e.command → f.status = .completed) :
    (processCommand s e.command false (processFlip e.command)).1 = .ok := by
  have hplain : Plain d.toDisplayclassInfo e.command := v.plain e (by simp)
  have hsrc : e.command.srcSync.all (syncPasses s.syncs false) = true := by
    rw [List.all_eq_true]
    intro x hx
    exact v.passes he hbefore hx
  have hdev : ¬sysDeviceCount ≤ e.command.devIndex.toNat := by
    rw [hplain.device]
    exact Nat.not_le_of_lt d.registered
  have haccepts : processFlip e.command = true := decide_eq_true hplain.size
  unfold processCommand
  rw [hplain.dst, hsrc, haccepts, if_neg (by simp), if_neg (by simp), if_neg hdev]
  simp [v.free]

theorem not_accepted (hsize : c.dataSize.toNat ≠ sizeofFlipCommand) (s : SysData) (flush : Bool) :
    (processCommand s c flush (processFlip c)).1 ≠ .ok := by
  have hrefuses : processFlip c = false := decide_eq_false hsize
  intro hok
  unfold processCommand at hok
  rw [hrefuses] at hok
  simp only [Bool.false_eq_true, if_false] at hok
  split_ifs at hok

theorem setFirst_append {test : Entry → Bool} (st : Status) (hpre : ∀ f ∈ pre, test f = false)
    (g : List Entry) : setFirst test st (pre ++ g) = pre ++ setFirst test st g := by
  induction pre with
  | nil => rfl
  | cons f pre ih =>
    have hf := hpre f List.mem_cons_self
    rw [List.cons_append, setFirst, hf, if_neg Bool.false_ne_true,
      ih fun k hk => hpre k (List.mem_cons_of_mem _ hk)]
    rfl

theorem Steady.round_history (v : Steady d start s h) (i : ℕ) :
    ((flipRound s i).1.foldl record h = h ∧ (processQueue s i processFlip).1 = none) ∨
    ∃ pre e post, h = pre ++ e :: post ∧ e.queue = i ∧ e.status = .waiting ∧
      (flipRound s i).1.foldl record h = pre ++ { e with status := .completed } :: post := by
  unfold flipRound
  cases hq : processQueue s i processFlip with
  | mk taken s' =>
    cases taken with
    | none => exact .inl ⟨rfl, rfl⟩
    | some c =>
      obtain ⟨pre, e, post, hd, hset, -⟩ := v.agrees.dispatchable v.bounded v.started hq
      refine .inr ⟨pre, e, post, hd.split, hd.queue, hd.waiting, ?_⟩
      change setFirst (Entry.runsIn c.devIndex.toNat c.commandType.toNat) .completed
        (setFirst (Entry.waitsIn i) .dispatched h) = _
      have hpre : ∀ f ∈ pre,
          Entry.runsIn c.devIndex.toNat c.commandType.toNat f = false := by
        intro f hf
        apply not_runsIn_of_status
        apply v.settled
        rw [hd.split]
        exact List.mem_append_left _ hf
      have hself : Entry.runsIn c.devIndex.toNat c.commandType.toNat
          { e with status := .dispatched } = true := by
        rw [runsIn_iff]
        exact ⟨⟨rfl, congrArg _ (congrArg _ hd.command)⟩, congrArg _ (congrArg _ hd.command)⟩
      rw [hset, setFirst_append .completed hpre, setFirst, if_pos hself]

theorem Steady.round_agrees (v : Steady d start s h) (i : ℕ) :
    Agrees start (flipRound s i).2 ((flipRound s i).1.foldl record h) ∧
    (flipRound s i).2.queues.length = s.queues.length ∧
    ∀ t ∈ (flipRound s i).2.queues, t.command = none ∧ t.queue.queueSize = 1024 := by
  unfold flipRound
  cases hq : processQueue s i processFlip with
  | mk taken s' =>
    cases taken with
    | none =>
      obtain ⟨hqueues, hsync, hslots⟩ := processQueue_none hq
      have hsame : Agrees start s' h :=
        v.agrees.same hsync hslots (by rw [hqueues]; exact v.agrees.queues)
      refine ⟨hsame, congrArg List.length hqueues, ?_⟩
      intro t ht
      exact v.clients t (hqueues ▸ ht)
    | some c =>
      have hdispatched := v.agrees.dispatch v.bounded v.started hq
      obtain ⟨t, ht, -, -, -, -, hs'⟩ := processQueue_taken hq
      have huse : (s'.cmdCompleteData c.devIndex.toNat c.commandType.toNat).inUse = true := by
        rw [hs']
        simp [setSlot]
      have hqueues : s'.queues =
          s.queues.set i ⟨updateQueueRoff t.queue c.cmdSize.toNat, t.command⟩ := by rw [hs']
      refine ⟨hdispatched.complete huse, ?_, ?_⟩
      · change s'.queues.length = _
        rw [hqueues, List.length_set]
      · intro u hu
        change u ∈ s'.queues at hu
        rw [hqueues] at hu
        cases List.mem_or_eq_of_mem_set hu with
        | inl h => exact v.clients u h
        | inr h =>
          rw [h]
          exact v.clients t (List.mem_of_getElem? ht)

theorem Steady.round (v : Steady d start s h) (i : ℕ) :
    Steady d start (flipRound s i).2 ((flipRound s i).1.foldl record h) := by
  obtain ⟨hagrees, hlength, hclients⟩ := v.round_agrees i
  have hentries : ∀ f ∈ (flipRound s i).1.foldl record h,
      f.status ≠ .dispatched ∧ ∃ e ∈ h, f.queue = e.queue ∧ f.command = e.command := by
    intro f hf
    cases v.round_history i with
    | inl hsame =>
      rw [hsame.1] at hf
      exact ⟨v.settled f hf, f, hf, rfl, rfl⟩
    | inr hmoved =>
      obtain ⟨pre, e, post, hsplit, -, -, hnew⟩ := hmoved
      rw [hnew] at hf
      cases List.mem_append.mp hf with
      | inl hpre =>
        have hfh : f ∈ h := hsplit ▸ List.mem_append_left _ hpre
        exact ⟨v.settled f hfh, f, hfh, rfl, rfl⟩
      | inr hrest =>
        cases List.mem_cons.mp hrest with
        | inl hself =>
          rw [hself]
          exact ⟨by simp, e, by rw [hsplit]; simp, rfl, rfl⟩
        | inr hpost =>
          have hfh : f ∈ h := hsplit ▸ List.mem_append_right _ (List.mem_cons_of_mem _ hpost)
          exact ⟨v.settled f hfh, f, hfh, rfl, rfl⟩
  exact
    { agrees := hagrees
      started := v.started
      count := hlength.trans v.count
      clients := hclients
      placed := by
        intro f hf
        obtain ⟨-, e, he, hqueue, -⟩ := hentries f hf
        rw [hqueue]
        exact v.placed e he
      plain := by
        intro f hf
        obtain ⟨-, e, he, -, hcommand⟩ := hentries f hf
        rw [hcommand]
        exact v.plain e he
      settled := fun f hf => (hentries f hf).1 }

theorem Steady.roundsFrom (v : Steady d start s h) (i n : ℕ) :
    Steady d start (flipRoundsFrom s i n).2 ((flipRoundsFrom s i n).1.foldl record h) := by
  induction n generalizing s h i with
  | zero => exact v
  | succ n ih =>
    have hrest := ih (v.round i) (i + 1)
    rw [← List.foldl_append] at hrest
    exact hrest

theorem Steady.queues (v : Steady d start s h) :
    Steady d start (flipQueues s).2 ((flipQueues s).1.foldl record h) :=
  v.roundsFrom 0 s.queues.length

theorem waiting_cons_waiting (he : e.status = .waiting) (h : List Entry) :
    waiting (e :: h) = e :: waiting h := by
  unfold waiting
  exact List.filter_cons_of_pos (decide_eq_true he)

theorem waiting_cons_other (he : e.status ≠ .waiting) (h : List Entry) :
    waiting (e :: h) = waiting h := by
  unfold waiting
  exact List.filter_cons_of_neg (by simpa using he)

theorem Steady.round_waiting (v : Steady d start s h) (i : ℕ) :
    (waiting ((flipRound s i).1.foldl record h)).length +
      (if (processQueue s i processFlip).1 = none then 0 else 1) ≤ (waiting h).length := by
  cases v.round_history i with
  | inl hsame =>
    rw [hsame.1, hsame.2]
    exact le_rfl
  | inr hmoved =>
    obtain ⟨pre, e, post, hsplit, -, hst, hnew⟩ := hmoved
    rw [hnew, hsplit, waiting_append, waiting_append, waiting_cons_waiting hst,
      waiting_cons_other (by simp), List.length_append, List.length_append, List.length_cons]
    split <;> omega

/-- The flip that has waited longest is in the queue `i`. -/
def FirstWaits (h : List Entry) (i : ℕ) : Prop :=
  ∃ e, h.find? (fun e => e.status = .waiting) = some e ∧ e.queue = i

theorem exists_firstWaits (hne : waiting h ≠ []) : ∃ e ∈ h, FirstWaits h e.queue := by
  cases hfind : h.find? (fun e => e.status = .waiting) with
  | some e => exact ⟨e, List.mem_of_find?_eq_some hfind, e, hfind, rfl⟩
  | none =>
    have hnil : waiting h = [] := by
      unfold waiting
      rw [List.filter_eq_nil_iff]
      exact List.find?_eq_none.mp hfind
    exact absurd hnil hne

theorem processQueue_of_ok {accepts : Command → Bool} (ht : s.queues[i]? = some t)
    (hhead : headCommand t.queue = some c)
    (hok : (processCommand s c false (accepts c)).1 = .ok) :
    (processQueue s i accepts).1 = some c := by
  unfold processQueue
  rw [ht]
  dsimp only
  rw [hhead]
  dsimp only
  rw [hok]
  unfold takeCommand
  rw [hhead]
  rfl

theorem Steady.first_taken (v : Steady d start s h) (hfirst : FirstWaits h i) :
    (waiting ((flipRound s i).1.foldl record h)).length < (waiting h).length := by
  have hround := v.round_waiting i
  obtain ⟨e, hfind, hqueue⟩ := hfirst
  obtain ⟨hst, pre, post, hsplit, hpre⟩ := List.find?_eq_some_iff_append.mp hfind
  have hst : e.status = .waiting := of_decide_eq_true hst
  have hnone : ∀ f ∈ pre, f.status ≠ .waiting := by
    intro f hf
    simpa using hpre f hf
  rw [hsplit] at v
  have hbefore : ∀ f ∈ pre, Shares f.command e.command → f.status = .completed := by
    intro f hf _
    have hset := v.settled f (List.mem_append_left _ hf)
    have hwait := hnone f hf
    cases hfst : f.status with
    | waiting => exact absurd hfst hwait
    | dispatched => exact absurd hfst hset
    | completed => rfl
  have hlt : i < s.queues.length := by
    rw [v.count, ← hqueue]
    exact v.placed e (by simp)
  have ht : s.queues[i]? = some s.queues[i] := List.getElem?_eq_getElem hlt
  have hhead : headCommand (s.queues[i]).queue = some e.command := by
    have hfirstIn : waitingIn pre i = [] := by
      unfold waitingIn
      rw [List.map_eq_nil_iff, List.filter_eq_nil_iff]
      intro f hf
      rw [waitsIn_iff]
      exact fun hw => hnone f hf hw.2
    rw [head_of_ready (v.unread ht), waitingIn_split, hfirstIn,
      if_pos (waitsIn_iff.mpr ⟨hqueue, hst⟩)]
    rfl
  have htaken := processQueue_of_ok ht hhead (v.accepted hst hbefore)
  rw [htaken, if_neg (by simp)] at hround
  omega

theorem Steady.first_kept (v : Steady d start s h) (hfirst : FirstWaits h i) {j : ℕ}
    (hij : j ≠ i) : FirstWaits ((flipRound s j).1.foldl record h) i := by
  cases v.round_history j with
  | inl hsame =>
    rw [hsame.1]
    exact hfirst
  | inr hmoved =>
    obtain ⟨pre, f, post, hsplit, hqueue, hst, hnew⟩ := hmoved
    obtain ⟨e, hfind, he⟩ := hfirst
    rw [hsplit, List.find?_append] at hfind
    cases hpre : pre.find? (fun e => e.status = .waiting) with
    | none =>
      simp only [hpre, Option.none_or, List.find?_cons, hst, decide_true,
        Option.some.injEq] at hfind
      rw [hfind, he] at hqueue
      exact absurd hqueue.symm hij
    | some g =>
      rw [hpre, Option.some_or] at hfind
      refine ⟨e, ?_, he⟩
      rw [hnew, List.find?_append, hpre, Option.some_or]
      exact hfind

theorem Steady.rounds_waiting (v : Steady d start s h) (k n : ℕ) :
    (waiting ((flipRoundsFrom s k n).1.foldl record h)).length ≤ (waiting h).length := by
  induction n generalizing s h k with
  | zero => exact le_rfl
  | succ n ih =>
    have hfirst := v.round_waiting k
    have hrest := ih (v.round k) (k + 1)
    rw [← List.foldl_append] at hrest
    change (waiting (((flipRound s k).1 ++ _).foldl record h)).length ≤ _
    omega

theorem Steady.rounds_first (v : Steady d start s h) (hfirst : FirstWaits h i) {k n : ℕ}
    (hk : k ≤ i) (hi : i < k + n) :
    (waiting ((flipRoundsFrom s k n).1.foldl record h)).length < (waiting h).length := by
  induction n generalizing s h k with
  | zero => omega
  | succ n ih =>
    change (waiting (((flipRound s k).1 ++ _).foldl record h)).length < _
    rw [List.foldl_append]
    by_cases hki : k = i
    · rw [hki]
      exact Nat.lt_of_le_of_lt ((v.round i).rounds_waiting (i + 1) n) (v.first_taken hfirst)
    · have hrest := ih (v.round k) (v.first_kept hfirst hki) (k := k + 1) (by omega) (by omega)
      have hround := v.round_waiting k
      omega

theorem Steady.queues_waiting (v : Steady d start s h) :
    (waiting ((flipQueues s).1.foldl record h)).length ≤ (waiting h).length - 1 := by
  by_cases hnil : waiting h = []
  · have hle := v.rounds_waiting 0 s.queues.length
    rw [hnil] at hle ⊢
    exact hle
  · obtain ⟨e, he, hfirst⟩ := exists_firstWaits hnil
    have hlt := v.placed e he
    have hrounds := v.rounds_first hfirst (Nat.zero_le _)
      (show e.queue < 0 + s.queues.length by rw [v.count]; omega)
    change (waiting ((flipRoundsFrom s 0 s.queues.length).1.foldl record h)).length ≤ _
    omega

def flipQueuesTimes : ℕ → SysData → SysData
  | 0, s => s
  | n + 1, s => flipQueuesTimes n (flipQueues s).2

theorem Steady.times (v : Steady d start s h) (n : ℕ) :
    ∃ g, Steady d start (flipQueuesTimes n s) g ∧
      (waiting g).length ≤ (waiting h).length - n := by
  induction n generalizing s h with
  | zero => exact ⟨h, v, le_rfl⟩
  | succ n ih =>
    obtain ⟨g, vg, hg⟩ := ih v.queues
    have hone := v.queues_waiting
    exact ⟨g, vg, by omega⟩

theorem Steady.drains (v : Steady d start s h) {n : ℕ} (hn : (waiting h).length ≤ n) :
    ∀ t ∈ (flipQueuesTimes n s).queues, headCommand t.queue = none := by
  obtain ⟨g, vg, hg⟩ := v.times n
  have hnil : waiting g = [] := List.length_eq_zero_iff.mp (by omega)
  intro t ht
  obtain ⟨i, hi, rfl⟩ := List.getElem_of_mem ht
  have hin : waitingIn g i = [] := by
    unfold waitingIn
    rw [List.map_eq_nil_iff, List.filter_eq_nil_iff]
    intro e he
    rw [waitsIn_iff]
    intro hw
    have hmem : e ∈ waiting g := List.mem_filter.mpr ⟨he, decide_eq_true hw.2⟩
    rw [hnil] at hmem
    cases hmem
  rw [head_of_ready (vg.unread (List.getElem?_eq_getElem hi)), hin]
  rfl

theorem insertFlip_cases {x : InsertCall} {a : FlipAnswer} (hs : insertFlip s i x = some (a, s')) :
    (s' = s ∧ ∀ h, a.calls.foldl record h = h) ∨
    ∃ c s₁ c', sysStep s (.insert i x) = some (.inserted (.ok c), s₁) ∧
      sysStep s₁ (.submit i) = some (.submitted c', s') ∧
      ∀ h, a.calls.foldl record h = h ++ [⟨i, c, .waiting⟩] := by
  unfold insertFlip at hs
  cases hins : sysStep s (.insert i x) with
  | none => simp [hins] at hs
  | some r =>
    obtain ⟨r, s₁⟩ := r
    obtain ⟨answer, rfl⟩ := insert_answer hins
    rw [hins] at hs
    cases answer with
    | error err =>
      cases hs
      exact .inl ⟨insert_error hins, fun _ => rfl⟩
    | ok c =>
      cases hsub : sysStep s₁ (.submit i) with
      | none => simp [hsub] at hs
      | some q =>
        obtain ⟨q, s₂⟩ := q
        have hanswer : ∃ c', q = .submitted c' := by
          simp only [sysStep] at hsub
          split at hsub
          · cases hsub
            exact ⟨_, rfl⟩
          · cases hsub
        obtain ⟨c', rfl⟩ := hanswer
        simp only [hsub, Option.some.injEq, Prod.mk.injEq] at hs
        obtain ⟨rfl, rfl⟩ := hs
        exact .inr ⟨c, s₁, c', rfl, hsub, fun _ => rfl⟩

theorem insert_command {x : InsertCall} (v : Agrees start s h)
    (hord : ∀ t, s.queues[i]? = some t → Ordered t (.insert (x.insertion s.syncs).1 x.data))
    (hs : sysStep s (.insert i x) = some (.inserted (.ok c), s')) :
    syncInfos c.dstSync = x.dstSync ∧ syncInfos c.srcSync = x.srcSync ∧
      c.devIndex = x.devIndex ∧ c.commandType = x.commandType.toUInt32 ∧
      c.dataSize = UInt32.ofNat (roundToWord x.dataByteSize) := by
  obtain ⟨t, p, ht, hspace, hc, -⟩ := insert_ok hs
  obtain ⟨-, hsized, hdata⟩ := hord t ht
  obtain ⟨cs, vt, -⟩ := v.queues i t ht
  obtain ⟨-, hread, -⟩ := vt.insert hsized hdata hspace
  rw [hc, hread]
  exact ⟨(takeSyncs_spec false s.syncs x.dstSync).1,
    (takeSyncs_spec true (takeSyncs false s.syncs x.dstSync).2 x.srcSync).1, rfl, rfl, rfl⟩

structure PlainInsert (d : DisplayclassInfo) (x : InsertCall) : Prop where
  dst : x.dstSync = []
  distinct : x.srcSync.Nodup
  few : x.srcSync.length ≤ 2
  device : x.devIndex = d.ui32DeviceID
  type : x.commandType = dcFlipCommand
  size : x.dataByteSize = sizeofFlipCommand
  data : x.data.length ≤ sizeofFlipCommand

theorem roundToWord_flip : roundToWord sizeofFlipCommand = sizeofFlipCommand := by
  unfold roundToWord
  rw [u32_of_lt (by decide)]
  rfl

theorem Steady.ordered (v : Steady d start s h) {x : InsertCall}
    (hx : PlainInsert d.toDisplayclassInfo x) (ht : s.queues[i]? = some t) :
    Ordered t (.insert (x.insertion s.syncs).1 x.data) := by
  refine ⟨(v.clients t (List.mem_of_getElem? ht)).1, ?_, ?_⟩
  · obtain ⟨hdst, hsrc⟩ := insertion_length x s.syncs
    have hfew := hx.few
    have hbytes : (x.insertion s.syncs).1.dataByteSize = sizeofFlipCommand := hx.size
    unfold Insertion.Sized
    rw [hdst, hsrc, hbytes, hx.dst]
    unfold commandHeader syncObjectSize sizeofFlipCommand
    simp only [List.length_nil]
    omega
  · change x.data.length ≤ roundToWord x.dataByteSize
    rw [hx.size, roundToWord_flip]
    exact hx.data

theorem Steady.insertFlip (v : Steady d start s h) (hi : i < d.swapChainCount) {x : InsertCall}
    (hx : PlainInsert d.toDisplayclassInfo x) {a : FlipAnswer}
    (hs : insertFlip s i x = some (a, s')) :
    Steady d start s' (a.calls.foldl record h) := by
  cases insertFlip_cases hs with
  | inl hsame =>
    rw [hsame.1, hsame.2]
    exact v
  | inr hnew =>
    obtain ⟨c, s₁, c', hins, hsub, hrecord⟩ := hnew
    have hord : ∀ t, s.queues[i]? = some t →
        Ordered t (.insert (x.insertion s.syncs).1 x.data) := fun t ht => v.ordered hx ht
    obtain ⟨hdst, hsrc, hdev, htype, hsize⟩ := insert_command v.agrees hord hins
    have hagrees := (v.agrees.insert hord hins).submit hsub
    obtain ⟨t, p, ht, -, -, hs₁⟩ := insert_ok hins
    have hlt : i < s.queues.length := (List.getElem?_eq_some_iff.mp ht).1
    have hqueues : ∃ u : Client, s'.queues = s.queues.set i u ∧ u.command = none ∧
        u.queue.queueSize = t.queue.queueSize := by
      rw [hs₁] at hsub
      simp only [sysStep, onQueue, List.getElem?_set_self hlt, step, Option.some.injEq,
        Prod.mk.injEq] at hsub
      obtain ⟨-, hs'⟩ := hsub
      rw [← hs']
      exact ⟨_, List.set_set _, rfl, rfl⟩
    obtain ⟨u, hset, hnone, hqsize⟩ := hqueues
    have hplain : Plain d.toDisplayclassInfo c :=
      { dst := by
          rw [hx.dst] at hdst
          exact List.map_eq_nil_iff.mp hdst
        distinct := hsrc ▸ hx.distinct
        device := hdev.trans hx.device
        type := htype.trans (congrArg _ hx.type)
        size := by
          rw [hsize, hx.size, roundToWord_flip]
          rfl }
    rw [hrecord]
    exact
      { agrees := hagrees
        started := v.started
        count := by
          rw [hset, List.length_set]
          exact v.count
        clients := by
          intro w hw
          rw [hset] at hw
          cases List.mem_or_eq_of_mem_set hw with
          | inl h => exact v.clients w h
          | inr h =>
            rw [h]
            exact ⟨hnone, hqsize.trans (v.clients t (List.mem_of_getElem? ht)).2⟩
        placed := by
          intro e he
          cases List.mem_append.mp he with
          | inl h => exact v.placed e h
          | inr h =>
            rw [List.mem_singleton.mp h]
            exact hi
        plain := by
          intro e he
          cases List.mem_append.mp he with
          | inl h => exact v.plain e h
          | inr h =>
            rw [List.mem_singleton.mp h]
            exact hplain
        settled := by
          intro e he
          cases List.mem_append.mp he with
          | inl h => exact v.settled e h
          | inr h =>
            rw [List.mem_singleton.mp h]
            simp }

theorem bufferSyncs_spec {target : DcBufferPtr} {last : Option DcBufferPtr} (d : OmaplfbDevice)
    (htarget : d.Valid target) (hlast : ∀ p, last = some p → d.Valid p) :
    (bufferSyncs d.toDisplayclassInfo last target).Nodup ∧
      (bufferSyncs d.toDisplayclassInfo last target).length ≤ 2 := by
  cases last with
  | none => simp [bufferSyncs]
  | some p =>
    by_cases hp : target = p
    · simp [bufferSyncs, hp]
    · have hne : d.syncOf target ≠ d.syncOf p := fun h =>
        hp (d.apart target p htarget (hlast p rfl) h)
      simp [bufferSyncs, hp, hne]

theorem systemSyncs_spec (last : Option DcBufferPtr) (d : DisplayclassInfo) :
    (systemSyncs d last).Nodup ∧ (systemSyncs d last).length ≤ 2 := by
  cases last with
  | none => simp [systemSyncs]
  | some p =>
    by_cases hp : d.syncOf .systemBuffer = d.syncOf p
    · simp [systemSyncs, hp]
    · simp [systemSyncs, hp]

def LookedUp (d : DisplayclassInfo) : FlipOp → Prop
  | .swapToDCBuffer a => d.Valid (.asBuffer a.i a.j)
  | .swapToDCSystem _ i => i < d.swapChainCount
  | .processQueues => True

def swapSize (d : DisplayclassInfo) (s : FlipSystem) (a : SwapCall) : ℕ :=
  commandSize 0 (bufferSyncs d (s.psLastFlipBuffer a.i) (.asBuffer a.i a.j)).length
    (flipDataSize a.ui32ClipRectCount.toNat)

/-- A swap to a buffer has no clip rectangles, or there is no space for its command. -/
def Clipless (d : DisplayclassInfo) (s : FlipSystem) : FlipOp → Prop
  | .swapToDCBuffer a => a.ui32ClipRectCount = 0 ∨
      ∀ t, s.sys.queues[a.i]? = some t → ∀ p, getQueueSpace t.queue (swapSize d s a) ≠ .ok p
  | .swapToDCSystem _ _ | .processQueues => True

/-- The flips of the system are in order, and the last buffers are buffers. -/
structure Swaps (d : OmaplfbDevice) (start : Syncs) (s : FlipSystem) (h : List Entry) : Prop where
  steady : Steady d start s.sys h
  last : ∀ i p, s.psLastFlipBuffer i = some p → d.Valid p

theorem flipDataSize_zero : flipDataSize 0 = sizeofFlipCommand := by
  unfold flipDataSize
  rw [Nat.mul_zero, u32_of_lt (n := 0) (by decide), u32_of_lt (by decide), Nat.add_zero]

theorem Swaps.buffer_plain {f : FlipSystem} (v : Swaps d start f h) {a : SwapCall}
    (hvalid : d.Valid (.asBuffer a.i a.j)) (hclip : a.ui32ClipRectCount = 0) (q : QueueInfo) :
    PlainInsert d.toDisplayclassInfo (bufferInsert d.toDisplayclassInfo f a q) := by
  have hsyncs := bufferSyncs_spec d hvalid (v.last a.i)
  exact
    { dst := rfl
      distinct := hsyncs.1
      few := hsyncs.2
      device := rfl
      type := rfl
      size := by
        change flipDataSize a.ui32ClipRectCount.toNat = _
        rw [hclip]
        exact flipDataSize_zero
      data := by
        change (bufferFlipData _ _ _).length ≤ _
        unfold bufferFlipData
        rw [hclip, wordBytes_length]
        exact le_rfl }

theorem Swaps.system_plain (f : FlipSystem) (processId : UInt32) (i : ℕ) (q : QueueInfo)
    (d : DisplayclassInfo) : PlainInsert d (systemInsert d f processId i q) := by
  have hsyncs := systemSyncs_spec (f.psLastFlipBuffer i) d
  exact
    { dst := rfl
      distinct := hsyncs.1
      few := hsyncs.2
      device := rfl
      type := rfl
      size := rfl
      data := by
        change (systemFlipData _ _ _ _).length ≤ _
        unfold systemFlipData
        rw [List.length_append, List.length_append, copy_length, wordBytes_length,
          wordBytes_length]
        exact le_rfl }

def flipHistory (l : List (FlipOp × FlipAnswer)) : List Entry :=
  (l.flatMap fun r => r.2.calls).foldl record []

theorem Swaps.finish {f : FlipSystem} (v : Swaps d start f h) (target : DcBufferPtr)
    (htarget : d.Valid target) {a : FlipAnswer} (hnew : Steady d start s (a.calls.foldl record h)) :
    Swaps d start (finishSwap f i target a s).2
      ((finishSwap f i target a s).1.calls.foldl record h) where
  steady := by
    change Steady d start (flipQueues s).2 ((a.calls ++ (flipQueues s).1).foldl record h)
    rw [List.foldl_append]
    exact hnew.queues
  last := by
    intro j p hp
    change Function.update f.psLastFlipBuffer i (some target) j = some p at hp
    by_cases hj : j = i
    · rw [hj, Function.update_self, Option.some.injEq] at hp
      exact hp ▸ htarget
    · rw [Function.update_of_ne hj] at hp
      exact v.last j p hp

theorem Swaps.step {f f' : FlipSystem} (v : Swaps d start f h) {op : FlipOp} {a : FlipAnswer}
    (hlook : LookedUp d.toDisplayclassInfo op) (hclip : Clipless d.toDisplayclassInfo f op)
    (hs : flipStep d.toDisplayclassInfo f op = some (a, f')) :
    Swaps d start f' (a.calls.foldl record h) := by
  cases op with
  | processQueues =>
    cases hs
    exact ⟨v.steady.queues, v.last⟩
  | swapToDCSystem processId i =>
    unfold flipStep pvrsrvSwapToDCSystemKM at hs
    cases ht : f.sys.queues[i]? with
    | none => simp [ht] at hs
    | some t =>
      cases hins : insertFlip f.sys i
          (systemInsert d.toDisplayclassInfo f processId i t.queue) with
      | none => simp [ht, hins] at hs
      | some r =>
        obtain ⟨r, s⟩ := r
        have hnew := v.steady.insertFlip hlook (Swaps.system_plain f processId i t.queue _) hins
        simp only [ht, hins] at hs
        split at hs
        · cases hs
          exact ⟨hnew, v.last⟩
        · cases hs
          exact v.finish .systemBuffer trivial hnew
  | swapToDCBuffer b =>
    unfold flipStep pvrsrvSwapToDCBufferKM at hs
    cases ht : f.sys.queues[b.i]? with
    | none => simp [ht] at hs
    | some t =>
      cases hins : insertFlip f.sys b.i (bufferInsert d.toDisplayclassInfo f b t.queue) with
      | none => simp [ht, hins] at hs
      | some r =>
        obtain ⟨r, s⟩ := r
        have hnew : Steady d start s (r.calls.foldl record h) := by
          cases hclip with
          | inl hzero => exact v.steady.insertFlip hlook.1 (v.buffer_plain hlook hzero t.queue) hins
          | inr hspace =>
            cases insertFlip_cases hins with
            | inl hsame =>
              rw [hsame.1, hsame.2]
              exact v.steady
            | inr hok =>
              obtain ⟨c, s₁, c', hinserted, -⟩ := hok
              obtain ⟨u, p, hu, hp, -⟩ := insert_ok hinserted
              obtain ⟨hdst, hsrc⟩ := insertion_length
                (bufferInsert d.toDisplayclassInfo f b t.queue) f.sys.syncs
              rw [hdst, hsrc] at hp
              exact absurd hp (hspace u hu p)
        simp only [ht, hins] at hs
        split at hs
        · cases hs
          exact ⟨hnew, v.last⟩
        · split at hs
          · cases hs
          · cases hs
            exact v.finish (.asBuffer b.i b.j) hlook hnew

/-- The device has been opened and its swap chains created; nothing has been flipped. -/
structure Created (d : DisplayclassInfo) (s : FlipSystem) : Prop where
  count : s.sys.queues.length = d.swapChainCount
  queues : ∀ t ∈ s.sys.queues, t.command = none ∧
    ∃ os os' mem, createCommandQueue os mem 1024 = (.ok t.queue, os')
  counters : ∀ o, (s.sys.syncs o).writeOpsComplete = (s.sys.syncs o).writeOpsPending ∧
    (s.sys.syncs o).readOpsComplete = (s.sys.syncs o).readOpsPending
  idle : ∀ dev type, (s.sys.cmdCompleteData dev type).inUse = false
  last : ∀ i, s.psLastFlipBuffer i = none

theorem createCommandQueue_size {os os' : Os} {mem : ℕ → UInt8} {q : QueueInfo}
    (hq : createCommandQueue os mem 1024 = (.ok q, os')) : q.queueSize = 1024 := by
  have hsize : nearestPower2 1024 = 1024 := by decide +kernel
  unfold createCommandQueue at hq
  dsimp only at hq
  split at hq
  · cases hq
  · split at hq
    · cases hq
    · cases hq
      exact hsize

theorem Created.swaps {f : FlipSystem} (v : Created d.toDisplayclassInfo f) :
    Swaps d f.sys.syncs f [] where
  steady :=
    { agrees := Initial.agrees
        { queues := by
            intro t ht
            obtain ⟨hnone, os, os', mem, hq⟩ := v.queues t ht
            exact ⟨hnone, os, os', mem, 1024, by decide, by decide, hq⟩
          counters := v.counters
          idle := v.idle }
      started := v.counters
      count := v.count
      clients := by
        intro t ht
        obtain ⟨hnone, os, os', mem, hq⟩ := v.queues t ht
        exact ⟨hnone, createCommandQueue_size hq⟩
      placed := by simp
      plain := by simp
      settled := by simp }
  last := by
    intro i p hp
    rw [v.last i] at hp
    cases hp

structure NeverBlocked (s : SysData) (h : List Entry) : Prop where
  distinct : ∀ e ∈ h, (syncInfos e.command.dstSync ++ syncInfos e.command.srcSync).Nodup
  accepted : ∀ pre e post, h = pre ++ e :: post → e.status = .waiting →
    (∀ f ∈ pre, Shares f.command e.command → f.status = .completed) →
    (s.cmdCompleteData e.command.devIndex.toNat e.command.commandType.toNat).inUse = false →
    (processCommand s e.command false (processFlip e.command)).1 = .ok
  head : ∀ i t, s.queues[i]? = some t → headCommand t.queue = (waitingIn h i).head?
  drains : ∀ n, (waiting h).length ≤ n →
    ∀ t ∈ (flipQueuesTimes n s).queues, headCommand t.queue = none

theorem Steady.neverBlocked (v : Steady d start s h) : NeverBlocked s h where
  distinct := by
    intro e he
    rw [(v.plain e he).dst]
    exact (v.plain e he).distinct
  accepted := by
    intro pre e post hsplit hst hbefore _
    rw [hsplit] at v
    exact v.accepted hst hbefore
  head := fun _ _ ht => head_of_ready (v.unread ht)
  drains := fun _ hn => v.drains hn

/-- Any order of swaps to buffers and to the system buffer, on any of the swap chains. -/
theorem flips_over_runs (d : OmaplfbDevice) {s₀ s : FlipSystem}
    (h₀ : Created d.toDisplayclassInfo s₀) {l : List (FlipOp × FlipAnswer)}
    (run : Run (flipStep d.toDisplayclassInfo)
      (fun s op => LookedUp d.toDisplayclassInfo op ∧ Clipless d.toDisplayclassInfo s op) s₀ l s) :
    NeverBlocked s.sys (flipHistory l) := by
  have hledger : Swaps d s₀.sys.syncs s
      (l.foldl (fun h r => r.2.calls.foldl record h) []) := by
    apply run.ledger (fun s h => Swaps d s₀.sys.syncs s h) _ [] h₀.swaps
    intro f h op a f' v hop hs
    exact v.step hop.1 hop.2 hs
  have hhistory : flipHistory l = l.foldl (fun h r => r.2.calls.foldl record h) [] := by
    unfold flipHistory
    rw [List.foldl_flatMap]
  rw [hhistory]
  exact hledger.steady.neverBlocked

def sampleInfo : DisplayclassInfo where
  ui32DeviceID := 1
  hExtDevice := 16
  sSystemBuffer := ⟨64, 80⟩
  swapChainCount := 1
  swapChains := fun _ => ⟨32, 2, fun j => if j = 0 then ⟨128, 144⟩ else ⟨192, 208⟩⟩

theorem sampleInfo_valid {p : DcBufferPtr} (hp : sampleInfo.Valid p) :
    p = .systemBuffer ∨ p = .asBuffer 0 0 ∨ p = .asBuffer 0 1 := by
  cases p with
  | systemBuffer => exact .inl rfl
  | asBuffer i j =>
    have hi : i < 1 := hp.1
    have hj : j < 2 := hp.2
    obtain rfl : i = 0 := by omega
    have hcases : j = 0 ∨ j = 1 := by omega
    cases hcases with
    | inl h => exact .inr (.inl (by rw [h]))
    | inr h => exact .inr (.inr (by rw [h]))

theorem sampleInfo_apart (p q : DcBufferPtr) (hp : sampleInfo.Valid p) (hq : sampleInfo.Valid q)
    (h : sampleInfo.syncOf p = sampleInfo.syncOf q) : p = q := by
  rcases sampleInfo_valid hp with rfl | rfl | rfl <;>
    rcases sampleInfo_valid hq with rfl | rfl | rfl <;>
    first | rfl | exact absurd h (by decide)

def sampleDevice : OmaplfbDevice where
  toDisplayclassInfo := sampleInfo
  registered := by decide
  fits := by decide
  apart := sampleInfo_apart

def sampleFlipSystem : FlipSystem where
  sys := ⟨[⟨⟨fun _ => 0, 0, 0, 1024⟩, none⟩], fun _ => ⟨0, 4294967295, 0, 4294967295⟩,
    fun _ _ => ⟨false, [], []⟩⟩
  psLastFlipBuffer := fun _ => none

theorem sampleFlipSystem_created : Created sampleInfo sampleFlipSystem where
  count := rfl
  queues := by
    intro t ht
    have htq : t = ⟨⟨fun _ => 0, 0, 0, 1024⟩, none⟩ := by simpa [sampleFlipSystem] using ht
    have hq : createCommandQueue ⟨fun _ => true, 0⟩ (fun _ => 0) 1024 =
        (.ok ⟨fun _ => 0, 0, 0, 1024⟩, ⟨fun _ => true, 2⟩) := by
      have h : nearestPower2 1024 = 1024 := by decide +kernel
      unfold createCommandQueue
      rw [h]
      rfl
    rw [htq]
    exact ⟨rfl, _, _, _, hq⟩
  counters := fun _ => ⟨rfl, rfl⟩
  idle := fun _ _ => rfl
  last := fun _ => rfl

def sampleSwap (j : ℕ) (clipRectCount : UInt32) : FlipOp :=
  .swapToDCBuffer ⟨7, 0, j, 1, 0, clipRectCount, fun _ => ⟨0, 0, 8, 8⟩⟩

def sampleFlipOps : List FlipOp :=
  [sampleSwap 0 0, sampleSwap 1 0, .swapToDCSystem 7 0, .processQueues, sampleSwap 0 0]

theorem flips_over_sample : ∃ l s, exec (flipStep sampleInfo) sampleFlipSystem sampleFlipOps =
    some (l, s) ∧ l.map (fun r => r.2.eError) = [.ok, .ok, .ok, .ok, .ok] ∧
      NeverBlocked s.sys (flipHistory l) := by
  have hrun : (exec (flipStep sampleInfo) sampleFlipSystem sampleFlipOps).map
      (fun r => r.1.map fun a => a.2.eError) = some [.ok, .ok, .ok, .ok, .ok] := by decide +kernel
  obtain ⟨⟨l, s⟩, hexec, hanswers⟩ := Option.map_eq_some_iff.mp hrun
  refine ⟨l, s, hexec, hanswers, ?_⟩
  apply flips_over_runs sampleDevice sampleFlipSystem_created
  apply Run.of_exec hexec
  intro op hop f
  simp only [sampleFlipOps, List.mem_cons, List.not_mem_nil, or_false] at hop
  rcases hop with rfl | rfl | rfl | rfl | rfl
  · exact ⟨⟨by decide, by decide⟩, .inl rfl⟩
  · exact ⟨⟨by decide, by decide⟩, .inl rfl⟩
  · exact ⟨Nat.one_pos, trivial⟩
  · exact ⟨trivial, trivial⟩
  · exact ⟨⟨by decide, by decide⟩, .inl rfl⟩

/-- A swap with one clip rectangle succeeds, and its queue is blocked. -/
theorem clip_rect_blocks_queue : ∃ l s, exec (flipStep sampleInfo) sampleFlipSystem
    [sampleSwap 0 1] = some (l, s) ∧ l.map (fun r => r.2.eError) = [.ok] ∧
      ¬NeverBlocked s.sys (flipHistory l) := by
  have hrun : (exec (flipStep sampleInfo) sampleFlipSystem [sampleSwap 0 1]).map
      (fun r => (r.1.map fun a => a.2.eError, (flipHistory r.1).map fun e =>
        (e.status, e.command.dataSize.toNat, (r.2.sys.cmdCompleteData e.command.devIndex.toNat
          e.command.commandType.toNat).inUse))) =
      some ([.ok], [(.waiting, 44, false)]) := by decide +kernel
  obtain ⟨⟨l, s⟩, hexec, heq⟩ := Option.map_eq_some_iff.mp hrun
  obtain ⟨hanswers, hhistory⟩ := Prod.mk.inj heq
  refine ⟨l, s, hexec, hanswers, ?_⟩
  obtain ⟨e, he, hentry⟩ := List.map_eq_singleton_iff.mp hhistory
  simp only [Prod.mk.injEq] at hentry
  intro h
  have hok := h.accepted [] e [] he hentry.1 (by simp) hentry.2.2
  refine not_accepted ?_ s.sys false hok
  rw [hentry.2.1]
  decide

end PvrServices.Flips
