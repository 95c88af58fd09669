import PvrServices.KernelCcbRuns

set_option autoImplicit false

/-!
# Requests for cache invalidation

A request is owed to the firmware until a command that is submitted, or the flags of a clean-up,
carry it. A call takes the pending bits into its command before it looks at the type; with a type
that it knows the command is submitted, with another one the bits are gone.
-/
namespace PvrServices.KernelCcb
open Runs Words
variable {s t u : SgxDevInfo} {call : ScheduleCall} {op : CcbOp} {r : CcbReply}
  {data cmd : SgxmkifCommand} {g : CcbLedger} {owed : ℕ}

def without (a b : ℕ) : ℕ := a ^^^ (a &&& b)

@[simp] theorem testBit_without (a b i : ℕ) :
    (without a b).testBit i = (a.testBit i && !b.testBit i) := by
  unfold without
  rw [Nat.testBit_xor, Nat.testBit_and]
  cases a.testBit i <;> cases b.testBit i <;> rfl

theorem without_self (a : ℕ) : without a a = 0 := by
  unfold without
  rw [Nat.and_self, Nat.xor_self]

def SgxmkifCommand.cacheControl (cmd : SgxmkifCommand) : ℕ := cmd.ui32Data.get ⟨2, cacheWord⟩

def cleanedBits (flags : ℕ) : ℕ :=
  (if flags &&& resmanCleanupInvalpd ≠ 0 then sgxBifInvalidatePdcache else 0) |||
    (if flags &&& resmanCleanupInvalpt ≠ 0 then sgxBifInvalidatePtcache else 0)

def recordOwed (owed : ℕ) : CcbOp × CcbReply → ℕ
  | (.invalidateDirectoryCache, _) => owed ||| sgxBifInvalidatePdcache
  | (.invalidatePageTableCache, _) => owed ||| sgxBifInvalidatePtcache
  | (.host _, .returned (.ok cmd)) => without owed cmd.cacheControl
  | (.cleanupRequest _ _, .cleaned flags) => without owed (cleanedBits flags)
  | _ => owed

/-- The word for the caches of a command that is going to be submitted. -/
def ScheduleCall.onTheWay (call : ScheduleCall) (s : SgxDevInfo) : ℕ :=
  match call.phase with
  | .cleared _ => if (serviceAddress s call.eCommandType).isSome then
      call.psCommandData.cacheControl else 0
  | .copied _ => if (serviceAddress s call.eCommandType).isSome then
      call.psCommandData.cacheControl else 0
  | .addressed cmd => cmd.cacheControl
  | .published cmd => cmd.cacheControl
  | .kicked cmd => cmd.cacheControl
  | _ => 0

def SgxDevInfo.onTheWay (s : SgxDevInfo) : ℕ :=
  (s.call.map fun call => call.onTheWay s).getD 0

def Pending (s : SgxDevInfo) (owed : ℕ) : Prop :=
  ∀ i, owed.testBit i = true → (s.ui32CacheControl ||| s.onTheWay).testBit i = true

/-- A call with a type that it does not know takes no pending bits. -/
def spares (s : SgxDevInfo) : CcbOp → Bool
  | .host _ => s.call.all fun call => match call.phase with
    | .conveyed _ => (serviceAddress s call.eCommandType).isSome || s.ui32CacheControl = 0
    | _ => true
  | _ => true

def ScheduleCall.Owes (call : ScheduleCall) (s : SgxDevInfo) (owed : ℕ) : Prop :=
  match call.phase with
  | .checking _ => owed = s.ui32CacheControl
  | .clocking _ => owed = s.ui32CacheControl
  | .acquired _ => owed = s.ui32CacheControl
  | .conveyed _ => owed = s.ui32CacheControl ∧
    call.psCommandData.cacheControl = s.ui32CacheControl
  | .cleared _ => s.ui32CacheControl = 0 ∧ owed = call.psCommandData.cacheControl ∧
    (serviceAddress s call.eCommandType = none → owed = 0)
  | .copied _ => s.ui32CacheControl = 0 ∧ owed = call.psCommandData.cacheControl ∧
    (serviceAddress s call.eCommandType = none → owed = 0)
  | .addressed cmd => s.ui32CacheControl = 0 ∧ owed = cmd.cacheControl
  | .published cmd => s.ui32CacheControl = 0 ∧ owed = cmd.cacheControl
  | .kicked cmd => s.ui32CacheControl = 0 ∧ owed = cmd.cacheControl

structure Owing (s : SgxDevInfo) (owed : ℕ) : Prop where
  idle : s.call = none → owed = s.ui32CacheControl
  busy : ∀ call, s.call = some call → call.Owes s owed

theorem owing_of_none (hcall : s.call = none) (h : owed = s.ui32CacheControl) : Owing s owed where
  idle := fun _ => h
  busy := by
    intro call hc
    rw [hcall] at hc
    cases hc

theorem owing_of_some (hcall : s.call = some call) (h : call.Owes s owed) : Owing s owed where
  idle := by
    intro hc
    rw [hcall] at hc
    cases hc
  busy := by
    intro c hc
    rw [hcall, Option.some.injEq] at hc
    exact hc ▸ h

theorem Owing.pending (h : Owing s owed) : Pending s owed := by
  intro i hi
  rw [Nat.testBit_or, Bool.or_eq_true]
  cases hcall : s.call with
  | none => exact .inl (h.idle hcall ▸ hi)
  | some call =>
    have howes := h.busy call hcall
    unfold SgxDevInfo.onTheWay
    rw [hcall, Option.map_some, Option.getD_some]
    obtain ⟨ty, data, phase⟩ := call
    cases phase with
    | checking loop => exact .inl (howes ▸ hi)
    | clocking loop => exact .inl (howes ▸ hi)
    | acquired slot => exact .inl (howes ▸ hi)
    | conveyed slot => exact .inl (howes.1 ▸ hi)
    | cleared slot =>
      obtain ⟨-, howed, hunknown⟩ := howes
      cases haddr : serviceAddress s ty with
      | none =>
        rw [hunknown haddr, Nat.zero_testBit] at hi
        cases hi
      | some a =>
        right
        rw [howed] at hi
        simpa [ScheduleCall.onTheWay, haddr] using hi
    | copied slot =>
      obtain ⟨-, howed, hunknown⟩ := howes
      cases haddr : serviceAddress s ty with
      | none =>
        rw [hunknown haddr, Nat.zero_testBit] at hi
        cases hi
      | some a =>
        right
        rw [howed] at hi
        simpa [ScheduleCall.onTheWay, haddr] using hi
    | addressed cmd =>
      rw [howes.2] at hi
      exact .inr hi
    | published cmd =>
      rw [howes.2] at hi
      exact .inr hi
    | kicked cmd =>
      rw [howes.2] at hi
      exact .inr hi

theorem Owing.host (h : Owing s owed) (hr : Ringed s g) (hcall : s.call = some call) {now : ℕ}
    (hspares : spares s (.host now) = true) :
    Owing (sgxScheduleCCBCommand s call now).2
      (recordOwed owed (.host now, (sgxScheduleCCBCommand s call now).1)) := by
  have howes := h.busy call hcall
  have hslot := hr.slotted call hcall
  obtain ⟨ty, data, phase⟩ := call
  cases phase with
  | checking loop =>
    by_cases hfree : s.psKernelCCBInfo.hasSlot = true
    · rw [schedule_hasSlot hfree]
      exact owing_of_some rfl howes
    · rw [schedule_full hfree]
      exact owing_of_some rfl howes
  | clocking loop =>
    by_cases hmore : (loop.next now).goesOn = true
    · rw [schedule_goesOn hmore]
      exact owing_of_some rfl howes
    · rw [schedule_timeout hmore]
      exact owing_of_none rfl howes
  | acquired slot =>
    refine owing_of_some rfl ⟨howes, ?_⟩
    change (data.ui32Data.set 2 s.ui32CacheControl cacheWord)[2] = s.ui32CacheControl
    simp
  | conveyed slot =>
    obtain ⟨howed, hdata⟩ := howes
    refine owing_of_some rfl ⟨rfl, ?_, fun hunknown => ?_⟩
    · exact howed.trans hdata.symm
    · have hzero : s.ui32CacheControl = 0 := by
        have haddr : serviceAddress s ty = none := hunknown
        simpa [spares, hcall, haddr] using hspares
      exact howed.trans hzero
  | cleared slot => exact owing_of_some rfl howes
  | copied slot =>
    obtain ⟨hzero, howed, hunknown⟩ := howes
    obtain ⟨-, -, hfilled⟩ := hslot
    cases haddr : serviceAddress s ty with
    | none =>
      rw [schedule_unknown haddr]
      exact owing_of_none rfl ((hunknown haddr).trans hzero.symm)
    | some a =>
      rw [schedule_known haddr hfilled]
      exact owing_of_some rfl ⟨hzero, howed⟩
  | addressed cmd => exact owing_of_some rfl howes
  | published cmd => exact owing_of_some rfl howes
  | kicked cmd =>
    obtain ⟨hzero, howed⟩ := howes
    refine owing_of_none rfl ?_
    change without owed cmd.cacheControl = s.ui32CacheControl
    rw [howed, without_self, hzero]

theorem and_two_pow_ne_zero (a n : ℕ) : a &&& 2 ^ n ≠ 0 ↔ a.testBit n = true := by
  rw [Nat.and_two_pow]
  cases a.testBit n <;> simp

theorem moveToResMan_testBit (s : SgxDevInfo) (n m i : ℕ) :
    (moveToResMan s (2 ^ n) (2 ^ m)).ui32CacheControl.testBit i =
        (s.ui32CacheControl.testBit i && !decide (n = i)) ∧
      (moveToResMan s (2 ^ n) (2 ^ m)).ui32ResManFlags.testBit i =
        (s.ui32ResManFlags.testBit i || (s.ui32CacheControl.testBit n && decide (m = i))) := by
  unfold moveToResMan
  by_cases hbit : s.ui32CacheControl.testBit n = true
  · rw [if_pos ((and_two_pow_ne_zero _ n).mpr hbit)]
    simp only [Nat.testBit_xor, Nat.testBit_or, Nat.testBit_two_pow, hbit, Bool.true_and]
    by_cases hni : n = i
    · rw [← hni, hbit]
      simp
    · simp [hni]
  · rw [if_neg fun h => hbit ((and_two_pow_ne_zero _ n).mp h)]
    have hclear : s.ui32CacheControl.testBit n = false := by simpa using hbit
    by_cases hni : n = i
    · rw [← hni, hclear]
      simp
    · simp [hni, hclear]

theorem testBit_cleanedBits (flags i : ℕ) : (cleanedBits flags).testBit i =
    (flags.testBit 5 && decide (1 = i) || flags.testBit 6 && decide (0 = i)) := by
  have hpd : flags &&& resmanCleanupInvalpd ≠ 0 ↔ flags.testBit 5 = true :=
    and_two_pow_ne_zero flags 5
  have hpt : flags &&& resmanCleanupInvalpt ≠ 0 ↔ flags.testBit 6 = true :=
    and_two_pow_ne_zero flags 6
  have hone : sgxBifInvalidatePdcache.testBit i = decide (1 = i) := Nat.testBit_two_pow (n := 1)
  have hzero : sgxBifInvalidatePtcache.testBit i = decide (0 = i) := Nat.testBit_two_pow (n := 0)
  unfold cleanedBits
  rw [Nat.testBit_or]
  congr 1
  · by_cases h : flags.testBit 5 = true
    · rw [if_pos (hpd.mpr h), hone, h, Bool.true_and]
    · rw [if_neg fun hne => h (hpd.mp hne)]
      simp [h]
  · by_cases h : flags.testBit 6 = true
    · rw [if_pos (hpt.mpr h), hzero, h, Bool.true_and]
    · rw [if_neg fun hne => h (hpt.mp hne)]
      simp [h]

theorem Owing.cleanup (h : Owing s owed) (hcall : s.call = none) (hwData : Option ℕ) (flag : ℕ) :
    Owing (sgxCleanupRequest s hwData flag).2
      (recordOwed owed (.cleanupRequest hwData flag, (sgxCleanupRequest s hwData flag).1)) := by
  have howed := h.idle hcall
  have hcall' := (sgxCleanupRequest_aside s hwData flag).2.1
  refine owing_of_none (hcall'.trans hcall) ?_
  by_cases hidle : s.ui32PowerStatus &&& powmanNoWork ≠ 0
  · have hstep : sgxCleanupRequest s hwData flag = (.done, s) := if_pos hidle
    rw [hstep]
    exact howed
  · let s₁ := moveToResMan s (2 ^ 1) (2 ^ 5)
    let s₂ := moveToResMan s₁ (2 ^ 0) (2 ^ 6)
    have hstep : sgxCleanupRequest s hwData flag = (.cleaned (s₂.ui32ResManFlags ||| flag),
        { s₂ with sResManCleanupData := hwData.getD 0
                  ui32ResManFlags := s₂.ui32ResManFlags ||| flag }) := if_neg hidle
    rw [hstep]
    change without owed (cleanedBits (s₂.ui32ResManFlags ||| flag)) = s₂.ui32CacheControl
    apply Nat.eq_of_testBit_eq
    intro i
    have hcache₁ := (moveToResMan_testBit s 1 5 i).1
    have hcache₂ := (moveToResMan_testBit s₁ 0 6 i).1
    have hfirst := (moveToResMan_testBit s 1 5 5).2
    have hpd := (moveToResMan_testBit s₁ 0 6 5).2
    have hpt := (moveToResMan_testBit s₁ 0 6 6).2
    have hkept := (moveToResMan_testBit s 1 5 0).1
    rw [testBit_without, testBit_cleanedBits, Nat.testBit_or, Nat.testBit_or, howed, hcache₂,
      hcache₁, hpd, hpt, hfirst, hkept]
    by_cases h₁ : 1 = i
    · rw [← h₁]
      cases s.ui32CacheControl.testBit 1 <;> simp
    · by_cases h₀ : 0 = i
      · rw [← h₀]
        cases s.ui32CacheControl.testBit 0 <;> simp
      · simp [h₀, h₁]

theorem owes_congr (hcache : t.ui32CacheControl = s.ui32CacheControl)
    (haddr : serviceAddress t = serviceAddress s) (h : call.Owes s owed) : call.Owes t owed := by
  unfold ScheduleCall.Owes at h ⊢
  rw [hcache, haddr]
  exact h

/-- A step that leaves the call, the pending bits and the addresses alone. -/
theorem Owing.aside (h : Owing s owed) (hcall : t.call = s.call)
    (hcache : t.ui32CacheControl = s.ui32CacheControl)
    (haddr : serviceAddress t = serviceAddress s) : Owing t owed where
  idle := by
    intro hc
    rw [hcache]
    exact h.idle (hcall ▸ hc)
  busy := fun call hc => owes_congr hcache haddr (h.busy call (hcall ▸ hc))

theorem Owing.step (h : Owing s owed) (hr : Ringed s g) (hop : proper s op = true)
    (hspares : spares s op = true) (hstep : ccbStep s op = some (r, t)) :
    Owing t (recordOwed owed (op, r)) := by
  cases op with
  | schedule ty data now =>
    obtain ⟨rfl, rfl⟩ : CcbReply.done = r ∧ _ = t := by simpa [ccbStep] using hstep
    exact owing_of_some rfl (h.idle (Option.isNone_iff_eq_none.mp hop))
  | host now =>
    obtain ⟨call, hcall, hpair⟩ := host_step hstep
    have hnext := h.host hr hcall hspares
    rw [hpair] at hnext
    exact hnext
  | firmware =>
    obtain ⟨rfl, rfl⟩ : _ = r ∧ _ = t := by simpa [ccbStep, firmwareRead] using hstep
    exact h.aside rfl rfl rfl
  | invalidateDirectoryCache | invalidatePageTableCache =>
    obtain ⟨rfl, rfl⟩ : CcbReply.done = r ∧ _ = t := by simpa [ccbStep] using hstep
    have hnone : s.call = none := Option.isNone_iff_eq_none.mp hop
    refine owing_of_none hnone ?_
    rw [recordOwed, h.idle hnone]
    rfl
  | cleanupRequest hwData flag =>
    have hpair : sgxCleanupRequest s hwData flag = (r, t) := by simpa [ccbStep] using hstep
    have hnext := h.cleanup (Option.isNone_iff_eq_none.mp hop) hwData flag
    rw [hpair] at hnext
    exact hnext
  | cleanupComplete flag | setHostCtl status flags =>
    obtain ⟨rfl, rfl⟩ : CcbReply.done = r ∧ _ = t := by simpa [ccbStep] using hstep
    exact h.aside rfl rfl rfl

/-- With a type that it does not know the call clears bits that nothing conveys. -/
theorem Owing.lost (h : Owing s owed) {now : ℕ} (hspares : spares s (.host now) = false)
    (hstep : ccbStep s (.host now) = some (r, t)) : ¬Pending t (recordOwed owed (.host now, r)) := by
  obtain ⟨call, hcall, hpair⟩ := host_step hstep
  have howes := h.busy call hcall
  obtain ⟨ty, data, phase⟩ := call
  cases phase with
  | conveyed slot =>
    have hboth : serviceAddress s ty = none ∧ s.ui32CacheControl ≠ 0 := by
      simpa [spares, hcall] using hspares
    obtain ⟨haddr, hne⟩ := hboth
    have hdone : sgxScheduleCCBCommand s ⟨ty, data, .conveyed slot⟩ now =
      (.done, { s with ui32CacheControl := 0 }.goTo ⟨ty, data, .conveyed slot⟩
        (.cleared slot)) := rfl
    rw [hdone, Prod.mk.injEq] at hpair
    rw [← hpair.1, ← hpair.2]
    intro hpending
    apply hne
    rw [← howes.1]
    apply Nat.zero_of_testBit_eq_false
    intro i
    rw [Bool.eq_false_iff]
    intro hi
    have hbit := hpending i hi
    have haddr' : serviceAddress ({ s with ui32CacheControl := 0 }.goTo
        ⟨ty, data, .conveyed slot⟩ (.cleared slot)) ty = none := haddr
    have hzero : ({ s with ui32CacheControl := 0 }.goTo ⟨ty, data, .conveyed slot⟩
        (.cleared slot)).onTheWay = 0 := by
      change ScheduleCall.onTheWay ⟨ty, data, .cleared slot⟩ _ = 0
      unfold ScheduleCall.onTheWay
      rw [haddr']
      rfl
    rw [hzero] at hbit
    simp [SgxDevInfo.goTo] at hbit
  | _ => simp [spares, hcall] at hspares

section Runs
variable {psCommands : ℕ → SgxmkifCommand} {hostKick getMiscInfo c : ℕ}
  {l : List (CcbOp × CcbReply)}

theorem owing_of_run (h : Run ccbStep (fun s op => proper s op = true ∧ spares s op = true)
    (ccbInit psCommands hostKick getMiscInfo c) l s) : Owing s (l.foldl recordOwed c) := by
  have hringed := ringed_init psCommands hostKick getMiscInfo c
  induction h with
  | refl => exact owing_of_none rfl rfl
  | snoc run hop hstep ih =>
    rw [List.foldl_append]
    exact ih.step (hringed.run (run.mono fun _ _ ha => ha.1)) hop.1 hop.2 hstep

/-- In a run every request for invalidation stays pending until a submitted command or the flags
    of a clean-up carry it, if and only if no call with an unknown type takes pending bits. -/
theorem invalidations_conveyed_over_runs
    (h : CcbRun (ccbInit psCommands hostKick getMiscInfo c) l s) :
    ((∀ m, m <+: l → ∀ u, CcbRun (ccbInit psCommands hostKick getMiscInfo c) m u →
        Pending u (m.foldl recordOwed c)) ∧
      ∀ m now cmd, m ++ [(.host now, .returned (.ok cmd))] <+: l → ∀ i,
        (m.foldl recordOwed c).testBit i = true → cmd.cacheControl.testBit i = true) ↔
    Run ccbStep (fun s op => proper s op = true ∧ spares s op = true)
      (ccbInit psCommands hostKick getMiscInfo c) l s := by
  constructor
  · intro hall
    induction h with
    | refl => exact .refl
    | @snoc l u t a r run hop hstep ih =>
      have hbefore (m : List (CcbOp × CcbReply)) (hm : m <+: l) : m <+: l ++ [(a, r)] :=
        hm.trans (List.prefix_append ..)
      have hgood := ih ⟨fun m hm => hall.1 m (hbefore m hm),
        fun m now cmd hm => hall.2 m now cmd (hbefore _ hm)⟩
      refine .snoc hgood ⟨hop, ?_⟩ hstep
      rw [← Bool.not_eq_false]
      intro hspares
      have hend := hall.1 _ (List.prefix_refl _) t (.snoc run hop hstep)
      rw [List.foldl_append] at hend
      cases a with
      | host now => exact (owing_of_run hgood).lost hspares hstep hend
      | _ => cases hspares
  · intro hgood
    refine ⟨?_, ?_⟩
    · intro m hm u hu
      obtain ⟨v, hv⟩ := hgood.of_prefix hm
      have hvu : v = u := (hv.mono fun _ _ ha => ha.1).unique hu
      exact hvu ▸ (owing_of_run hv).pending
    · intro m now cmd hm i hi
      obtain ⟨v, hv⟩ := hgood.of_prefix hm
      obtain ⟨w, hw, -, hstep⟩ := hv.last
      obtain ⟨call, hcall, hphase⟩ := kicked_of_ok hstep
      have howes := (owing_of_run hw).busy call hcall
      unfold ScheduleCall.Owes at howes
      rw [hphase] at howes
      rw [howes.2] at hi
      exact hi

end Runs

def sampleRequest : List CcbOp := .invalidatePageTableCache :: sampleCall

theorem invalidations_conveyed_over_sample : ∃ l s, exec ccbStep sampleInit sampleRequest =
      some (l, s) ∧
    ((∀ m, m <+: l → ∀ u, CcbRun sampleInit m u → Pending u (m.foldl recordOwed 1)) ∧
      ∀ m now cmd, m ++ [(.host now, .returned (.ok cmd))] <+: l → ∀ i,
        (m.foldl recordOwed 1).testBit i = true → cmd.cacheControl.testBit i = true) ∧
    s.ui32CacheControl = 0 ∧ s.unread = [⟨4096, #v[3, 0, 1]⟩] := by
  have hsome : (exec ccbStep sampleInit sampleRequest).map (fun r =>
      (r.2.ui32CacheControl, r.2.unread)) = some (0, [⟨4096, #v[3, 0, 1]⟩]) := by decide +kernel
  obtain ⟨⟨l, s⟩, hexec, hlook⟩ := Option.map_eq_some_iff.mp hsome
  rw [Prod.mk.injEq] at hlook
  have hallowed : Allowed ccbStep (fun s op => (proper s op && spares s op) = true) sampleInit
      sampleRequest := allowed_of_allows (by decide +kernel)
  have hrun : Run ccbStep (fun s op => proper s op = true ∧ spares s op = true) sampleInit l s :=
    (Run.of_allowed hexec hallowed).mono fun _ _ h => (Bool.and_eq_true ..).mp h
  exact ⟨l, s, hexec,
    (invalidations_conveyed_over_runs (hrun.mono fun _ _ h => h.1)).mpr hrun, hlook⟩

/-- A kick of an unknown type leaves the request neither pending nor in the ring. -/
theorem invalidation_lost_by_unknown_type :
    ¬∀ l s, CcbRun sampleInit l s → Pending s (l.foldl recordOwed 1) := by
  intro hclaim
  let ops : List CcbOp := .invalidateDirectoryCache ::
    .schedule .videoKick sampleCommand 0 :: List.replicate 5 (.host 0)
  have hsome : (exec ccbStep sampleInit ops).map (fun r => [r.2.ui32CacheControl, r.2.onTheWay,
      r.1.foldl recordOwed 1]) = some [0, 0, 3] := by decide +kernel
  obtain ⟨⟨l, s⟩, hexec, hlook⟩ := Option.map_eq_some_iff.mp hsome
  rw [List.cons.injEq, List.cons.injEq, List.cons.injEq] at hlook
  have hallowed : Allowed ccbStep (fun s op => proper s op = true) sampleInit ops :=
    allowed_of_allows (by decide +kernel)
  have hpending := hclaim l s (.of_allowed hexec hallowed) 1
  dsimp only at hlook
  rw [hlook.1, hlook.2.1, hlook.2.2.1] at hpending
  have hbit := hpending (by decide)
  revert hbit
  decide

end PvrServices.KernelCcb
