import PvrServices.Runs
import PvrServices.Services

set_option autoImplicit false

/-!
# A wait and its signals

One thread waits for an event object again and again while it is signalled. The steps of
`LinuxEventObjectWait` between which a signal can come are steps of the machine, and so are the two
halves of `LinuxEventObjectSignal`.
-/
namespace PvrServices.EventWaits
open Runs

/-- Where the thread is in `LinuxEventObjectWait`, with `ui32TimeOutJiffies` and, once it is read,
    `ui32TimeStamp`. -/
inductive Place where
  | outside
  | prepare (timeOutJiffies : ℕ)
  | read (timeOutJiffies : ℕ)
  | compare (timeOutJiffies : ℕ) (timeStamp : UInt32)
  | sleep (timeOutJiffies : ℕ) (timeStamp : UInt32)
  | woken (timeOutJiffies : ℕ) (timeStamp : UInt32)
  | finish (timeOutJiffies : ℕ) (timeStamp : UInt32)
  deriving DecidableEq

/-- The event object, whether the thread is on its wait queue and may run, the number of signals
    that are counted and have still to wake, `pvr_is_disabled`, and the place of the thread. -/
structure WaitState where
  sTimeStamp : UInt32
  timeStampPrevious : UInt32
  queued : Bool
  runnable : Bool
  wakes : ℕ
  disabled : Bool
  place : Place
  deriving DecidableEq

def eventObjectInit : WaitState := ⟨0, 0, false, true, 0, false, .outside⟩

inductive Answer where
  | done
  | stamped
  | sleeps
  | returned (r : PvrsrvError)
  deriving DecidableEq

/-- The next step of `LinuxEventObjectWait`; a thread that sleeps takes none. -/
def eventObjectWait (x : WaitState) : Option (Answer × WaitState) :=
  match x.place with
  | .outside => none
  | .prepare jiffies =>
    -- `prepare_to_wait`
    some (.done, { x with queued := true, runnable := false, place := .read jiffies })
  | .read jiffies => some (.stamped, { x with place := .compare jiffies x.sTimeStamp })
  | .compare jiffies timeStamp =>
    if x.timeStampPrevious ≠ timeStamp then
      some (.done, { x with place := .finish jiffies timeStamp })
    else some (.sleeps, { x with place := .sleep jiffies timeStamp })
  | .sleep _ _ => none
  | .woken jiffies timeStamp =>
    if x.disabled then some (.done, { x with place := .finish 1 timeStamp })
    else if jiffies ≠ 0 then some (.done, { x with place := .prepare jiffies })
    else some (.done, { x with place := .finish jiffies timeStamp })
  | .finish jiffies timeStamp =>
    some (.returned (if jiffies ≠ 0 then .ok else .errorTimeout), { x with
      queued := false
      runnable := true
      timeStampPrevious := timeStamp
      place := .outside })

/-- `schedule_timeout` returns with so many jiffies left, because the thread may run or its time is
    over. -/
def scheduleTimeoutEnds (x : WaitState) (left : ℕ) : Option WaitState :=
  match x.place with
  | .sleep jiffies timeStamp =>
    if left ≤ jiffies ∧ (x.runnable = true ∨ left = 0) then
      some { x with runnable := true, place := .woken left timeStamp }
    else none
  | _ => none

def wakeUpInterruptible (x : WaitState) : Option WaitState :=
  if x.wakes = 0 then none
  else if x.queued then
    some { x with queued := false, runnable := true, wakes := x.wakes - 1 }
  else some { x with wakes := x.wakes - 1 }

inductive Op where
  | wait (msTimeout : ℕ)
  | waitStep
  | sleepEnds (left : ℕ)
  /-- `atomic_inc` of a signal. -/
  | signalCounts
  | signalWakes
  /-- A signal to the process, which ends an interruptible sleep. -/
  | interrupt
  | disable (disabled : Bool)
  deriving DecidableEq

def step (msecsToJiffies : ℕ → ℕ) (x : WaitState) : Op → Option (Answer × WaitState)
  | .wait msTimeout =>
    if x.place = .outside then some (.done, { x with place := .prepare (msecsToJiffies msTimeout) })
    else none
  | .waitStep => eventObjectWait x
  | .sleepEnds left => (scheduleTimeoutEnds x left).map fun y => (.done, y)
  | .signalCounts => some (.done, { x with sTimeStamp := x.sTimeStamp + 1, wakes := x.wakes + 1 })
  | .signalWakes => (wakeUpInterruptible x).map fun y => (.done, y)
  | .interrupt => some (.done, { x with runnable := true })
  | .disable disabled => some (.done, { x with disabled := disabled })

def Proper (_ : WaitState) : Op → Prop
  | .wait msTimeout => msTimeout ≠ 0
  | _ => True

instance (x : WaitState) (op : Op) : Decidable (Proper x op) :=
  match op with
  | .wait _ => inferInstanceAs (Decidable (_ ≠ _))
  | .waitStep | .sleepEnds _ | .signalCounts | .signalWakes | .interrupt | .disable _ =>
    inferInstanceAs (Decidable True)

/-- A wait that has returned: the signals from the last time stamp that was read before it to the
    first one that it read, whether it slept, its number of steps, and its result. -/
structure WaitRecord where
  before : ℕ
  slept : Bool
  steps : ℕ
  result : PvrsrvError
  deriving DecidableEq

/-- Of the wait that is going on the signals before its first time stamp, whether it slept and its
    steps so far. -/
structure Going where
  before : Option ℕ
  slept : Bool
  steps : ℕ
  deriving DecidableEq

/-- The signals since a time stamp was read last, the wait that is going on, and the waits that have
    returned. -/
structure Log where
  signals : ℕ
  going : Going
  returned : List WaitRecord
  deriving DecidableEq

def Log.before (g : Log) : ℕ := g.going.before.getD g.signals

def Log.record (g : Log) : Op × Answer → Log
  | (.wait _, _) => { g with going := ⟨none, false, 0⟩ }
  | (.signalCounts, _) => { g with signals := g.signals + 1 }
  | (.waitStep, .stamped) => { g with
      signals := 0
      going := ⟨some g.before, g.going.slept, g.going.steps + 1⟩ }
  | (.waitStep, .sleeps) => { g with going := ⟨g.going.before, true, g.going.steps + 1⟩ }
  | (.waitStep, .returned r) => { g with
      returned := ⟨g.before, g.going.slept, g.going.steps + 1, r⟩ :: g.returned }
  | (.waitStep, .done) => { g with going := ⟨g.going.before, g.going.slept, g.going.steps + 1⟩ }
  | _ => g

def logInit : Log := ⟨0, ⟨none, false, 0⟩, []⟩

def log (l : List (Op × Answer)) : Log := l.foldl Log.record logInit

variable {msecsToJiffies : ℕ → ℕ} {x y : WaitState} {g : Log} {op : Op} {r : Answer}
  {l : List (Op × Answer)} {jiffies n : ℕ} {timeStamp : UInt32}

def WaitState.stamp (x : WaitState) : UInt32 :=
  match x.place with
  | .outside | .prepare _ | .read _ => x.timeStampPrevious
  | .compare _ timeStamp | .sleep _ timeStamp | .woken _ timeStamp | .finish _ timeStamp => timeStamp

structure First (n : ℕ) (w : Going) : Prop where
  before : w.before = none
  slept : w.slept = false
  steps : w.steps = n

structure Stamped (n : ℕ) (previous timeStamp : UInt32) (w : Going) : Prop where
  slept : w.slept = false
  steps : w.steps = n
  before : ∃ b, w.before = some b ∧ timeStamp = previous + UInt32.ofNat b

/-- The wait has slept: the first time stamp that it read was the previous one. -/
structure Later (w : Going) : Prop where
  slept : w.slept = true
  before : ∃ b, w.before = some b ∧ UInt32.ofNat b = 0

def Phase (place : Place) (previous : UInt32) (w : Going) : Prop :=
  match place with
  | .outside => True
  | .prepare jiffies => jiffies ≠ 0 ∧ (First 0 w ∨ Later w)
  | .read jiffies => jiffies ≠ 0 ∧ (First 1 w ∨ Later w)
  | .compare jiffies timeStamp => jiffies ≠ 0 ∧ (Stamped 2 previous timeStamp w ∨ Later w)
  | .sleep _ timeStamp | .woken _ timeStamp => timeStamp = previous ∧ Later w
  | .finish jiffies timeStamp => timeStamp = previous ∧ Later w ∨
      timeStamp ≠ previous ∧ jiffies ≠ 0 ∧ (Stamped 3 previous timeStamp w ∨ Later w)

def Place.watches : Place → Bool
  | .read _ | .compare _ _ | .sleep _ _ => true
  | _ => false

def Place.counts : Place → Bool
  | .compare _ _ | .sleep _ _ => true
  | _ => false

/-- A wait before which there were signals returned `PVRSRV_OK` without sleeping. -/
def WaitRecord.Right (w : WaitRecord) : Prop :=
  0 < w.before → w.before < 4294967296 → w.result = .ok ∧ w.slept = false

structure Agrees (x : WaitState) (g : Log) : Prop where
  stamp : x.sTimeStamp = x.stamp + UInt32.ofNat g.signals
  phase : Phase x.place x.timeStampPrevious g.going
  /-- A thread that is not to run is on the queue. -/
  queued : x.place.watches = true → x.runnable = false → x.queued = true
  /-- All signals since its time stamp have still to wake it. -/
  wakes : x.place.counts = true → x.runnable = false → g.signals ≤ x.wakes
  returned : ∀ w ∈ g.returned, w.Right

theorem ofNat_ne_zero (hpos : 0 < n) (hlt : n < 4294967296) : UInt32.ofNat n ≠ 0 := by
  intro hzero
  have hnat := congrArg UInt32.toNat hzero
  rw [UInt32.toNat_ofNat_of_lt' hlt] at hnat
  exact Nat.ne_of_gt hpos hnat

theorem Later.excludes (h : Later g.going) (hpos : 0 < g.before) (hlt : g.before < 4294967296) :
    False := by
  obtain ⟨b, hb, hzero⟩ := h.before
  have hbefore : g.before = b := by
    unfold Log.before
    rw [hb, Option.getD_some]
  rw [hbefore] at hpos hlt
  exact ofNat_ne_zero hpos hlt hzero

theorem Later.next {w : Going} (h : Later w) (n : ℕ) : Later ⟨w.before, w.slept, n⟩ :=
  ⟨h.slept, h.before⟩

theorem Stamped.next {previous : UInt32} {w : Going} (h : Stamped n previous timeStamp w) :
    Stamped (n + 1) previous timeStamp ⟨w.before, w.slept, w.steps + 1⟩ :=
  ⟨h.slept, congrArg (· + 1) h.steps, h.before⟩

theorem agrees_init : Agrees eventObjectInit logInit :=
  ⟨rfl, trivial, nofun, nofun, nofun⟩

theorem Agrees.prepare (h : Agrees x g) (hplace : x.place = .prepare jiffies) :
    Agrees { x with queued := true, runnable := false, place := .read jiffies }
      { g with going := ⟨g.going.before, g.going.slept, g.going.steps + 1⟩ } := by
  have hstamp := h.stamp
  have hphase := h.phase
  simp only [WaitState.stamp, hplace] at hstamp
  rw [hplace] at hphase
  refine ⟨hstamp, ⟨hphase.1, ?_⟩, fun _ _ => rfl, nofun, h.returned⟩
  cases hphase.2 with
  | inl hfirst => exact .inl ⟨hfirst.before, hfirst.slept, congrArg (· + 1) hfirst.steps⟩
  | inr hlater => exact .inr (hlater.next _)

theorem Agrees.read (h : Agrees x g) (hplace : x.place = .read jiffies) :
    Agrees { x with place := .compare jiffies x.sTimeStamp } { g with
      signals := 0
      going := ⟨some g.before, g.going.slept, g.going.steps + 1⟩ } := by
  have hstamp := h.stamp
  have hphase := h.phase
  have hqueued := h.queued
  simp only [WaitState.stamp, hplace] at hstamp
  rw [hplace] at hphase hqueued
  refine ⟨(UInt32.add_zero _).symm, ⟨hphase.1, ?_⟩, fun _ => hqueued rfl,
    fun _ _ => Nat.zero_le _, h.returned⟩
  unfold Log.before
  cases hphase.2 with
  | inl hfirst =>
    rw [hfirst.before, Option.getD_none]
    exact .inl ⟨hfirst.slept, congrArg (· + 1) hfirst.steps, g.signals, rfl, hstamp⟩
  | inr hlater =>
    obtain ⟨b, hb, hzero⟩ := hlater.before
    rw [hb, Option.getD_some]
    exact .inr ⟨hlater.slept, b, rfl, hzero⟩

theorem Agrees.breaks (h : Agrees x g) (hplace : x.place = .compare jiffies timeStamp)
    (hne : x.timeStampPrevious ≠ timeStamp) :
    Agrees { x with place := .finish jiffies timeStamp }
      { g with going := ⟨g.going.before, g.going.slept, g.going.steps + 1⟩ } := by
  have hstamp := h.stamp
  have hphase := h.phase
  simp only [WaitState.stamp, hplace] at hstamp
  rw [hplace] at hphase
  refine ⟨hstamp, .inr ⟨hne.symm, hphase.1, hphase.2.imp Stamped.next fun hlater => hlater.next _⟩,
    nofun, nofun, h.returned⟩

theorem Agrees.sleeps (h : Agrees x g) (hplace : x.place = .compare jiffies timeStamp)
    (heq : x.timeStampPrevious = timeStamp) :
    Agrees { x with place := .sleep jiffies timeStamp }
      { g with going := ⟨g.going.before, true, g.going.steps + 1⟩ } := by
  have hstamp := h.stamp
  have hphase := h.phase
  have hqueued := h.queued
  have hwakes := h.wakes
  simp only [WaitState.stamp, hplace] at hstamp
  rw [hplace] at hphase hqueued hwakes
  refine ⟨hstamp, ⟨heq.symm, rfl, ?_⟩, fun _ => hqueued rfl, fun _ => hwakes rfl, h.returned⟩
  cases hphase.2 with
  | inl hfirst =>
    obtain ⟨b, hb, hsum⟩ := hfirst.before
    rw [← heq] at hsum
    exact ⟨b, hb, by simpa using hsum⟩
  | inr hlater => exact hlater.before

theorem Agrees.woken (h : Agrees x g) (hplace : x.place = .woken jiffies timeStamp)
    {place : Place} (hnext : place = .finish 1 timeStamp ∨ place = .finish jiffies timeStamp ∨
      place = .prepare jiffies ∧ jiffies ≠ 0) :
    Agrees { x with place }
      { g with going := ⟨g.going.before, g.going.slept, g.going.steps + 1⟩ } := by
  have hstamp := h.stamp
  have hphase := h.phase
  simp only [WaitState.stamp, hplace] at hstamp
  rw [hplace] at hphase
  have hlater := hphase.2.next (g.going.steps + 1)
  have hsame := hphase.1
  obtain rfl | rfl | ⟨rfl, hjiffies⟩ := hnext
  · exact ⟨hstamp, .inl ⟨hsame, hlater⟩, nofun, nofun, h.returned⟩
  · exact ⟨hstamp, .inl ⟨hsame, hlater⟩, nofun, nofun, h.returned⟩
  · rw [hsame] at hstamp
    exact ⟨hstamp, ⟨hjiffies, .inr hlater⟩, nofun, nofun, h.returned⟩

def waitResult (jiffies : ℕ) : PvrsrvError := if jiffies ≠ 0 then .ok else .errorTimeout

theorem Agrees.finish (h : Agrees x g) (hplace : x.place = .finish jiffies timeStamp) :
    Agrees { x with
        queued := false
        runnable := true
        timeStampPrevious := timeStamp
        place := .outside }
      { g with returned :=
        ⟨g.before, g.going.slept, g.going.steps + 1, waitResult jiffies⟩ :: g.returned } := by
  have hstamp := h.stamp
  have hphase := h.phase
  simp only [WaitState.stamp, hplace] at hstamp
  rw [hplace] at hphase
  refine ⟨hstamp, trivial, nofun, nofun, fun w hw => ?_⟩
  cases List.mem_cons.mp hw with
  | inr hold => exact h.returned w hold
  | inl hnew =>
    rw [hnew]
    intro hpos hlt
    cases hphase with
    | inl hsame => exact (hsame.2.excludes hpos hlt).elim
    | inr hother =>
      cases hother.2.2 with
      | inl hfirst => exact ⟨if_pos hother.2.1, hfirst.slept⟩
      | inr hlater => exact (hlater.excludes hpos hlt).elim

theorem Agrees.waitStep (h : Agrees x g) (hs : eventObjectWait x = some (r, y)) :
    Agrees y (g.record (.waitStep, r)) := by
  unfold eventObjectWait at hs
  cases hplace : x.place with
  | outside =>
    rw [hplace] at hs
    cases hs
  | prepare jiffies =>
    rw [hplace] at hs
    cases hs
    exact h.prepare hplace
  | read jiffies =>
    rw [hplace] at hs
    cases hs
    exact h.read hplace
  | compare jiffies timeStamp =>
    rw [hplace] at hs
    dsimp only at hs
    by_cases hne : x.timeStampPrevious ≠ timeStamp
    · rw [if_pos hne] at hs
      cases hs
      exact h.breaks hplace hne
    · rw [if_neg hne] at hs
      cases hs
      exact h.sleeps hplace (not_not.mp hne)
  | sleep jiffies timeStamp =>
    rw [hplace] at hs
    cases hs
  | woken jiffies timeStamp =>
    rw [hplace] at hs
    dsimp only at hs
    by_cases hdisabled : x.disabled = true
    · rw [if_pos hdisabled] at hs
      cases hs
      exact h.woken hplace (.inl rfl)
    · rw [if_neg hdisabled] at hs
      by_cases hjiffies : jiffies ≠ 0
      · rw [if_pos hjiffies] at hs
        cases hs
        exact h.woken hplace (.inr (.inr ⟨rfl, hjiffies⟩))
      · rw [if_neg hjiffies] at hs
        cases hs
        exact h.woken hplace (.inr (.inl rfl))
  | finish jiffies timeStamp =>
    rw [hplace] at hs
    cases hs
    exact h.finish hplace

theorem Agrees.wait (h : Agrees x g) (hplace : x.place = .outside) (hjiffies : jiffies ≠ 0) :
    Agrees { x with place := .prepare jiffies } { g with going := ⟨none, false, 0⟩ } := by
  have hstamp := h.stamp
  simp only [WaitState.stamp, hplace] at hstamp
  exact ⟨hstamp, ⟨hjiffies, .inl ⟨rfl, rfl, rfl⟩⟩, nofun, nofun, h.returned⟩

theorem Agrees.sleepEnds {left : ℕ} (h : Agrees x g) (hs : scheduleTimeoutEnds x left = some y) :
    Agrees y g := by
  unfold scheduleTimeoutEnds at hs
  cases hplace : x.place with
  | sleep jiffies timeStamp =>
    rw [hplace] at hs
    dsimp only at hs
    split at hs
    · cases hs
      have hstamp := h.stamp
      have hphase := h.phase
      simp only [WaitState.stamp, hplace] at hstamp
      rw [hplace] at hphase
      exact ⟨hstamp, hphase, nofun, nofun, h.returned⟩
    · cases hs
  | _ =>
    rw [hplace] at hs
    cases hs

theorem Agrees.signalCounts (h : Agrees x g) :
    Agrees { x with sTimeStamp := x.sTimeStamp + 1, wakes := x.wakes + 1 }
      { g with signals := g.signals + 1 } := by
  refine ⟨?_, h.phase, h.queued, fun hcounts hrun => Nat.add_le_add_right (h.wakes hcounts hrun) 1,
    h.returned⟩
  have hstamp := h.stamp
  dsimp only
  rw [hstamp, UInt32.ofNat_add, UInt32.add_assoc]
  rfl

theorem Agrees.signalWakes (h : Agrees x g) (hs : wakeUpInterruptible x = some y) :
    Agrees y g := by
  unfold wakeUpInterruptible at hs
  by_cases hzero : x.wakes = 0
  · rw [if_pos hzero] at hs
    cases hs
  · rw [if_neg hzero] at hs
    by_cases hqueued : x.queued = true
    · rw [if_pos hqueued] at hs
      cases hs
      exact ⟨h.stamp, h.phase, (fun _ hrun => nomatch hrun), (fun _ hrun => nomatch hrun), h.returned⟩
    · -- a thread that is not on the queue is running already
      rw [if_neg hqueued] at hs
      cases hs
      refine ⟨h.stamp, h.phase, h.queued, fun hcounts hrun => absurd (h.queued ?_ hrun) hqueued,
        h.returned⟩
      dsimp only at hcounts
      cases hplace : x.place with
      | compare jiffies timeStamp => rfl
      | sleep jiffies timeStamp => rfl
      | _ =>
        rw [hplace] at hcounts
        cases hcounts

theorem Agrees.interrupt (h : Agrees x g) : Agrees { x with runnable := true } g :=
  ⟨h.stamp, h.phase, (fun _ hrun => nomatch hrun), (fun _ hrun => nomatch hrun), h.returned⟩

theorem Agrees.disable (h : Agrees x g) (disabled : Bool) : Agrees { x with disabled } g :=
  ⟨h.stamp, h.phase, h.queued, h.wakes, h.returned⟩

theorem Agrees.step (hj : ∀ ms, ms ≠ 0 → msecsToJiffies ms ≠ 0) (h : Agrees x g)
    (hop : Proper x op) (hs : step msecsToJiffies x op = some (r, y)) :
    Agrees y (g.record (op, r)) := by
  cases op with
  | wait msTimeout =>
    unfold EventWaits.step at hs
    dsimp only at hs
    split at hs
    · cases hs
      exact h.wait (by assumption) (hj _ hop)
    · cases hs
  | waitStep => exact h.waitStep hs
  | sleepEnds left =>
    obtain ⟨z, hz, he⟩ := Option.map_eq_some_iff.mp hs
    cases he
    exact h.sleepEnds hz
  | signalCounts =>
    cases hs
    exact h.signalCounts
  | signalWakes =>
    obtain ⟨z, hz, he⟩ := Option.map_eq_some_iff.mp hs
    cases he
    exact h.signalWakes hz
  | interrupt =>
    cases hs
    exact h.interrupt
  | disable disabled =>
    cases hs
    exact h.disable disabled

theorem agrees_run (hj : ∀ ms, ms ≠ 0 → msecsToJiffies ms ≠ 0)
    (h : Run (step msecsToJiffies) Proper eventObjectInit l x) : Agrees x (log l) :=
  h.ledger Agrees Log.record logInit agrees_init fun _ _ _ _ _ hagrees hop hs =>
    hagrees.step hj hop hs

/-- Only the end of a wait that returns `PVRSRV_OK` takes the previous time stamp to another one. -/
theorem Agrees.advances (h : Agrees x g) (hs : EventWaits.step msecsToJiffies x op = some (r, y))
    (hne : y.timeStampPrevious ≠ x.timeStampPrevious) : r = .returned .ok := by
  cases op with
  | wait msTimeout =>
    unfold EventWaits.step at hs
    dsimp only at hs
    split at hs
    · cases hs
      exact absurd rfl hne
    · cases hs
  | waitStep =>
    change eventObjectWait x = some (r, y) at hs
    unfold eventObjectWait at hs
    cases hplace : x.place with
    | finish jiffies timeStamp =>
      rw [hplace] at hs
      cases hs
      have hphase := h.phase
      rw [hplace] at hphase
      cases hphase with
      | inl hsame => exact absurd hsame.1 hne
      | inr hother => rw [if_pos hother.2.1]
    | compare jiffies timeStamp =>
      rw [hplace] at hs
      dsimp only at hs
      split_ifs at hs <;> cases hs <;> exact absurd rfl hne
    | woken jiffies timeStamp =>
      rw [hplace] at hs
      dsimp only at hs
      split_ifs at hs <;> cases hs <;> exact absurd rfl hne
    | _ =>
      rw [hplace] at hs
      cases hs <;> exact absurd rfl hne
  | sleepEnds left =>
    obtain ⟨z, hz, he⟩ := Option.map_eq_some_iff.mp hs
    cases he
    unfold scheduleTimeoutEnds at hz
    split at hz
    · split at hz
      · cases hz
        exact absurd rfl hne
      · cases hz
    · cases hz
  | signalCounts =>
    cases hs
    exact absurd rfl hne
  | signalWakes =>
    obtain ⟨z, hz, he⟩ := Option.map_eq_some_iff.mp hs
    cases he
    unfold wakeUpInterruptible at hz
    split_ifs at hz
    · cases hz
      exact absurd rfl hne
    · cases hz
      exact absurd rfl hne
  | interrupt =>
    cases hs
    exact absurd rfl hne
  | disable disabled =>
    cases hs
    exact absurd rfl hne

theorem eventObjectWait_open (hplace : x.place ≠ .outside)
    (hawake : ∀ jiffies timeStamp, x.place ≠ .sleep jiffies timeStamp) :
    ∃ r y, eventObjectWait x = some (r, y) := by
  unfold eventObjectWait
  cases hat : x.place with
  | outside => exact absurd hat hplace
  | sleep jiffies timeStamp => exact absurd hat (hawake jiffies timeStamp)
  | compare jiffies timeStamp =>
    dsimp only
    split_ifs <;> exact ⟨_, _, rfl⟩
  | woken jiffies timeStamp =>
    dsimp only
    split_ifs <;> exact ⟨_, _, rfl⟩
  | _ => exact ⟨_, _, rfl⟩

/-- A wait that has not slept is at one of its first four steps, and not asleep. -/
theorem Phase.awake {place : Place} {previous : UInt32} {w : Going} (h : Phase place previous w)
    (hplace : place ≠ .outside) (hnot : ¬Later w) :
    w.slept = false ∧ w.steps < 4 ∧ ∀ jiffies timeStamp, place ≠ .sleep jiffies timeStamp := by
  cases place with
  | outside => exact absurd rfl hplace
  | prepare jiffies =>
    have hfirst := h.2.resolve_right hnot
    have hsteps := hfirst.steps
    exact ⟨hfirst.slept, by omega, fun _ _ => Place.noConfusion⟩
  | read jiffies =>
    have hfirst := h.2.resolve_right hnot
    have hsteps := hfirst.steps
    exact ⟨hfirst.slept, by omega, fun _ _ => Place.noConfusion⟩
  | compare jiffies timeStamp =>
    have hstamped := h.2.resolve_right hnot
    have hsteps := hstamped.steps
    exact ⟨hstamped.slept, by omega, fun _ _ => Place.noConfusion⟩
  | sleep jiffies timeStamp => exact absurd h.2 hnot
  | woken jiffies timeStamp => exact absurd h.2 hnot
  | finish jiffies timeStamp =>
    have hother := h.resolve_left fun hsame => hnot hsame.2
    have hstamped := hother.2.2.resolve_right hnot
    have hsteps := hstamped.steps
    exact ⟨hstamped.slept, by omega, fun _ _ => Place.noConfusion⟩

/-- A wait that has signals before it is at one of its first four steps, and the next one is open to
    it. -/
theorem Agrees.goesOn (h : Agrees x g) (hplace : x.place ≠ .outside) (hpos : 0 < g.before)
    (hlt : g.before < 4294967296) :
    g.going.slept = false ∧ g.going.steps < 4 ∧ ∃ r y, eventObjectWait x = some (r, y) := by
  have hnot : ¬Later g.going := fun hlater => hlater.excludes hpos hlt
  obtain ⟨hslept, hsteps, hawake⟩ := h.phase.awake hplace hnot
  exact ⟨hslept, hsteps, eventObjectWait_open hplace hawake⟩

/-- In every run the previous time stamp changes only where a wait returns `PVRSRV_OK`; a wait that
    has signals between the time stamp read last before it and its own first one returns
    `PVRSRV_OK` and does not sleep, and nothing holds it up before its fourth step; and a thread
    sleeps on only while the signals since its time stamp have still to wake it. -/
theorem signals_not_lost (hj : ∀ ms, ms ≠ 0 → msecsToJiffies ms ≠ 0)
    (h : Run (step msecsToJiffies) Proper eventObjectInit l x) :
    (∀ op r y, step msecsToJiffies x op = some (r, y) →
      y.timeStampPrevious ≠ x.timeStampPrevious → r = .returned .ok) ∧
    (∀ w ∈ (log l).returned, 0 < w.before → w.before < 4294967296 →
      w.result = .ok ∧ w.slept = false) ∧
    (x.place ≠ .outside → 0 < (log l).before → (log l).before < 4294967296 →
      (log l).going.slept = false ∧ (log l).going.steps < 4 ∧
        ∃ r y, step msecsToJiffies x .waitStep = some (r, y)) ∧
    ∀ jiffies timeStamp, x.place = .sleep jiffies timeStamp → x.runnable = false →
      (log l).signals ≤ x.wakes := by
  have hagrees := agrees_run hj h
  refine ⟨fun op r y hs hne => hagrees.advances hs hne, hagrees.returned, hagrees.goesOn,
    fun jiffies timeStamp hplace => hagrees.wakes ?_⟩
  rw [hplace]
  rfl

def sampleJiffies (ms : ℕ) : ℕ := (ms + 9) / 10

def sampleRun : List Op :=
  [.wait 100, .waitStep, .waitStep, .waitStep, .signalCounts, .signalWakes, .sleepEnds 4, .waitStep,
    .waitStep, .waitStep, .signalCounts, .waitStep, .waitStep, .wait 50, .waitStep, .waitStep]

theorem signals_not_lost_sample : ∃ l x,
    exec (step sampleJiffies) eventObjectInit sampleRun = some (l, x) ∧
    (∀ w ∈ (log l).returned, 0 < w.before → w.before < 4294967296 →
      w.result = .ok ∧ w.slept = false) ∧
    (log l).before = 1 ∧ (log l).going.slept = false ∧ (log l).going.steps < 4 := by
  have hallowed : Allowed (step sampleJiffies) Proper eventObjectInit sampleRun := by
    decide +kernel
  have hsome : (exec (step sampleJiffies) eventObjectInit sampleRun).map
      (fun r => (r.2.place, (log r.1).before)) = some (.compare 5 2, 1) := by
    decide +kernel
  have hjiffies (ms : ℕ) (hms : ms ≠ 0) : sampleJiffies ms ≠ 0 := by
    unfold sampleJiffies
    omega
  obtain ⟨⟨l, x⟩, hexec, he⟩ := Option.map_eq_some_iff.mp hsome
  simp only [Prod.mk.injEq] at he
  obtain ⟨hplace, hbefore⟩ := he
  obtain ⟨-, hreturned, hgoing, -⟩ :=
    signals_not_lost hjiffies (Run.of_allowed hexec hallowed)
  have hinside : x.place ≠ .outside := by
    rw [hplace]
    exact Place.noConfusion
  rw [hbefore] at hgoing
  have hgo := hgoing hinside (by decide) (by decide)
  exact ⟨l, x, hexec, hreturned, hbefore, hgo.1, hgo.2.1⟩

end PvrServices.EventWaits
