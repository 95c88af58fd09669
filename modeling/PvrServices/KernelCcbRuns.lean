import PvrServices.KernelCcbRing

set_option autoImplicit false

/-!
# The kernel command buffer over whole runs

In every interleaving of calls with the firmware, commands are read once and in order, unread
slots are left alone, a failed call leaves the ring as it was, and a call that gives up found the
ring full at every check.
-/
namespace PvrServices.KernelCcb
open CircularBuffer Runs Words
variable {s t u v : SgxDevInfo} {call : ScheduleCall} {op : CcbOp} {r : CcbReply}
  {data cmd : SgxmkifCommand} {g : CcbLedger} {e : PvrsrvError}

abbrev CcbRun (s : SgxDevInfo) (l : List (CcbOp × CcbReply)) (t : SgxDevInfo) : Prop :=
  Run ccbStep (fun s op => proper s op = true) s l t

def SgxDevInfo.outstanding (s : SgxDevInfo) : ℕ := s.psKernelCCBInfo.outstanding

def SgxDevInfo.unread (s : SgxDevInfo) : List SgxmkifCommand := s.psKernelCCBInfo.unread

theorem Ringed.run (h : Ringed s g) {l : List (CcbOp × CcbReply)} (hrun : CcbRun s l t) :
    Ringed t (l.foldl record g) :=
  hrun.ledger Ringed record g h fun _ _ _ _ _ hs hop hstep => hs.step hop hstep

theorem host_step {now : ℕ} (h : ccbStep s (.host now) = some (r, t)) :
    ∃ call, s.call = some call ∧ sgxScheduleCCBCommand s call now = (r, t) := by
  cases hcall : s.call with
  | none => simp [ccbStep, hcall] at h
  | some call => exact ⟨call, rfl, by simpa [ccbStep, hcall] using h⟩

def ScheduleCall.unpublished (call : ScheduleCall) : Bool :=
  match call.phase with
  | .published _ => false
  | .kicked _ => false
  | _ => true

/-- Up to the publication a step at most fills the free slot, and from then on the call does not
    fail. -/
theorem Ringed.host_cases (h : Ringed s g) (hcall : s.call = some call) {now : ℕ}
    (hstep : sgxScheduleCCBCommand s call now = (r, t)) :
    (call.unpublished = true ∧
      (t.psKernelCCBInfo = s.psKernelCCBInfo ∨
        ∃ cmd, t.psKernelCCBInfo = s.psKernelCCBInfo.store cmd) ∧
      (∀ c, t.call = some c → c.unpublished = true) ∧ ∀ cmd, r ≠ .returned (.ok cmd)) ∨
    ((∀ c, t.call = some c → c.unpublished = false) ∧
      (t.psKernelCCBInfo = s.psKernelCCBInfo ∨
        t.psKernelCCBInfo = s.psKernelCCBInfo.publish) ∧
      ∀ e, r ≠ .returned (.error e)) := by
  have hslot := h.slotted call hcall
  obtain ⟨ty, data, phase⟩ := call
  have hr : r = (sgxScheduleCCBCommand s ⟨ty, data, phase⟩ now).1 := by rw [hstep]
  have ht : t = (sgxScheduleCCBCommand s ⟨ty, data, phase⟩ now).2 := by rw [hstep]
  cases phase with
  | checking loop =>
    left
    by_cases hfree : s.psKernelCCBInfo.hasSlot = true
    · simp [hr, ht, sgxScheduleCCBCommand, hfree, SgxDevInfo.goTo, ScheduleCall.unpublished]
    · simp [hr, ht, sgxScheduleCCBCommand, hfree, SgxDevInfo.goTo, ScheduleCall.unpublished]
  | clocking loop =>
    left
    by_cases hmore : (loop.next now).goesOn = true
    · simp [hr, ht, sgxScheduleCCBCommand, hmore, SgxDevInfo.goTo, ScheduleCall.unpublished]
    · simp [hr, ht, sgxScheduleCCBCommand, hmore, ScheduleCall.unpublished]
  | acquired slot =>
    left
    simp [hr, ht, sgxScheduleCCBCommand, SgxDevInfo.goTo, ScheduleCall.unpublished]
  | conveyed slot =>
    left
    simp [hr, ht, sgxScheduleCCBCommand, SgxDevInfo.goTo, ScheduleCall.unpublished]
  | cleared slot =>
    left
    have hw : slot = s.psKernelCCBInfo.writeOffset := hslot.1
    refine ⟨rfl, .inr ⟨data, ?_⟩, ?_, ?_⟩
    · rw [ht, hw]
      rfl
    · intro c hc
      rw [ht] at hc
      exact Option.some.inj hc ▸ rfl
    · intro cmd
      simp [hr, sgxScheduleCCBCommand]
  | copied slot =>
    left
    have hw : slot = s.psKernelCCBInfo.writeOffset := hslot.1
    cases haddr : serviceAddress s ty with
    | none =>
      simp [hr, ht, sgxScheduleCCBCommand, haddr, ScheduleCall.unpublished]
    | some a =>
      refine ⟨rfl, .inr ⟨⟨a, (s.psKernelCCBInfo.psCommands slot).ui32Data⟩, ?_⟩, ?_, ?_⟩
      · simp [ht, sgxScheduleCCBCommand, haddr, hw, SgxDevInfo.goTo, SgxDevInfo.setCommand,
          SgxCcbInfo.store]
      · intro c hc
        simp only [ht, sgxScheduleCCBCommand, haddr, SgxDevInfo.goTo, Option.some.injEq] at hc
        exact hc ▸ rfl
      · intro cmd
        simp [hr, sgxScheduleCCBCommand, haddr]
  | addressed cmd =>
    right
    refine ⟨?_, .inr (ht ▸ rfl), ?_⟩
    · intro c hc
      rw [ht] at hc
      exact Option.some.inj hc ▸ rfl
    · intro e
      simp [hr, sgxScheduleCCBCommand]
  | published cmd =>
    right
    simp [hr, ht, sgxScheduleCCBCommand, SgxDevInfo.goTo, ScheduleCall.unpublished]
  | kicked cmd =>
    right
    simp [hr, ht, sgxScheduleCCBCommand]

def CcbOp.schedules : CcbOp → Bool
  | .schedule _ _ _ => true
  | _ => false

/-- A step of the others leaves the commands and the write offset alone, and the call that is on
    its way. -/
theorem other_effect (hop : ∀ now, op ≠ .host now) (hstep : ccbStep s op = some (r, t)) :
    (t.psKernelCCBInfo = s.psKernelCCBInfo ∨
      op = .firmware ∧ t.psKernelCCBInfo = s.psKernelCCBInfo.pass) ∧
      (op.schedules = false → t.call = s.call) := by
  cases op with
  | schedule ty data now =>
    obtain ⟨-, rfl⟩ : CcbReply.done = r ∧ _ = t := by simpa [ccbStep] using hstep
    exact ⟨.inl rfl, fun hnot => Bool.noConfusion hnot⟩
  | host now => exact absurd rfl (hop now)
  | firmware =>
    obtain ⟨-, rfl⟩ : _ = r ∧ _ = t := by simpa [ccbStep, firmwareRead] using hstep
    exact ⟨.inr ⟨rfl, rfl⟩, fun _ => rfl⟩
  | invalidateDirectoryCache | invalidatePageTableCache =>
    obtain ⟨-, rfl⟩ : CcbReply.done = r ∧ _ = t := by simpa [ccbStep] using hstep
    exact ⟨.inl rfl, fun _ => rfl⟩
  | cleanupRequest hwData flag =>
    obtain ⟨hccb, hcall, -⟩ := sgxCleanupRequest_aside s hwData flag
    have hpair : sgxCleanupRequest s hwData flag = (r, t) := by simpa [ccbStep] using hstep
    rw [hpair] at hccb hcall
    exact ⟨.inl hccb, fun _ => hcall⟩
  | cleanupComplete flag | setHostCtl status flags =>
    obtain ⟨-, rfl⟩ : CcbReply.done = r ∧ _ = t := by simpa [ccbStep] using hstep
    exact ⟨.inl rfl, fun _ => rfl⟩

theorem Ringed.untouched (h : Ringed s g) (hstep : ccbStep s op = some (r, t)) {j : ℕ}
    (hj : j < s.outstanding) :
    t.psKernelCCBInfo.psCommands ((s.psKernelCCBInfo.readOffset + j) % 256) =
      s.psKernelCCBInfo.psCommands ((s.psKernelCCBInfo.readOffset + j) % 256) := by
  by_cases hop : ∃ now, op = .host now
  · obtain ⟨now, hnow⟩ := hop
    rw [hnow] at hstep
    obtain ⟨call, hcall, hhost⟩ := host_step hstep
    cases h.host_cases hcall hhost with
    | inl hbefore =>
      cases hbefore.2.1 with
      | inl hsame => rw [hsame]
      | inr hstore =>
        obtain ⟨cmd, hstore⟩ := hstore
        rw [hstore]
        exact Function.update_of_ne (h.within.apart hj) ..
    | inr hafter =>
      cases hafter.2.1 with
      | inl hsame => rw [hsame]
      | inr hpublish =>
        rw [hpublish]
        rfl
  · cases (other_effect (fun now hnow => hop ⟨now, hnow⟩) hstep).1 with
    | inl hsame => rw [hsame]
    | inr hpass =>
      rw [hpass.2]
      rfl

/-- As long as a call has not published its command, the ring is as it was, up to what the
    firmware read. -/
def Begun (s t : SgxDevInfo) : Prop :=
  ∀ c, t.call = some c → c.unpublished = true →
    t.psKernelCCBInfo.writeOffset = s.psKernelCCBInfo.writeOffset ∧ t.unread <:+ s.unread

theorem Ringed.unread_suffix (h : Ringed s g) (hop : proper s op = true)
    (hhost : ∀ now, op ≠ .host now) (hstep : ccbStep s op = some (r, t)) :
    t.psKernelCCBInfo.writeOffset = s.psKernelCCBInfo.writeOffset ∧ t.unread <:+ s.unread ∧
      t.outstanding ≤ s.outstanding := by
  cases (other_effect hhost hstep).1 with
  | inl hsame =>
    unfold SgxDevInfo.unread SgxDevInfo.outstanding
    rw [hsame]
    exact ⟨rfl, List.suffix_refl _, Nat.le_refl _⟩
  | inr hpass =>
    rw [hpass.1] at hop
    have hne : s.psKernelCCBInfo.readOffset ≠ s.psKernelCCBInfo.writeOffset :=
      of_decide_eq_true hop
    have hless := h.within.outstanding_pass hne
    unfold SgxDevInfo.unread SgxDevInfo.outstanding
    rw [hpass.2, h.within.unread_pass hne]
    exact ⟨rfl, List.suffix_cons .., by omega⟩

theorem Begun.step (h : Ringed t g) (hbegun : Begun s t) (hop : proper t op = true)
    (hsched : op.schedules = false) (hstep : ccbStep t op = some (r, u)) : Begun s u := by
  intro c hc hun
  by_cases hhost : ∃ now, op = .host now
  · obtain ⟨now, hnow⟩ := hhost
    rw [hnow] at hstep
    obtain ⟨call, hcall, hpair⟩ := host_step hstep
    cases h.host_cases hcall hpair with
    | inl hbefore =>
      obtain ⟨hw, hunread⟩ := hbegun call hcall hbefore.1
      cases hbefore.2.1 with
      | inl hsame =>
        unfold SgxDevInfo.unread
        rw [hsame]
        exact ⟨hw, hunread⟩
      | inr hstore =>
        obtain ⟨cmd, hstore⟩ := hstore
        unfold SgxDevInfo.unread
        rw [hstore, h.within.unread_store]
        exact ⟨hw, hunread⟩
    | inr hafter =>
      rw [hafter.1 c hc] at hun
      cases hun
  · have hother (now : ℕ) : op ≠ .host now := fun hnow => hhost ⟨now, hnow⟩
    have hcall := (other_effect hother hstep).2 hsched
    obtain ⟨hw, hunread⟩ := hbegun c (hcall ▸ hc) hun
    obtain ⟨hw', hunread', -⟩ := h.unread_suffix hop hother hstep
    exact ⟨hw'.trans hw, hunread'.trans hunread⟩

/-- A call that fails leaves the write offset and the unread slots as they were. -/
theorem Ringed.failed (h : Ringed s g) {ty : CommandType} {now now' : ℕ}
    {k : List (CcbOp × CcbReply)}
    (hrun : CcbRun s ((.schedule ty data now, .done) :: k) t)
    (hsched : ∀ x ∈ k, x.1.schedules = false)
    (hstep : ccbStep t (.host now') = some (.returned (.error e), u)) :
    u.psKernelCCBInfo.writeOffset = s.psKernelCCBInfo.writeOffset ∧ u.unread <:+ s.unread := by
  obtain ⟨m, hop, hfirst, hrest⟩ := hrun.first
  have hm : m = { s with call := some ⟨ty, data, .checking (.start now)⟩ } := by
    simpa [ccbStep] using hfirst.symm
  have hbegun : Begun s m := by
    intro c hc hun
    rw [hm]
    exact ⟨rfl, List.suffix_refl _⟩
  have hringed := h.step hop hfirst
  have hall : Begun s t ∧ ∃ g, Ringed t g := by
    apply (hrest.restrict (P := fun op => op.schedules = false) hsched).invariant fun x => Begun s x ∧ ∃ g, Ringed x g
    case h₀ => exact ⟨hbegun, _, hringed⟩
    case hstep =>
      intro x op q y hx hok hxy
      obtain ⟨hbx, gx, hgx⟩ := hx
      exact ⟨Begun.step hgx hbx hok.1 hok.2 hxy, _, hgx.step hok.1 hxy⟩
  obtain ⟨hbegun', gt, hgt⟩ := hall
  obtain ⟨call, hcall, hpair⟩ := host_step hstep
  cases hgt.host_cases hcall hpair with
  | inl hbefore =>
    obtain ⟨hw, hunread⟩ := hbegun' call hcall hbefore.1
    cases hbefore.2.1 with
    | inl hsame =>
      unfold SgxDevInfo.unread
      rw [hsame]
      exact ⟨hw, hunread⟩
    | inr hstore =>
      obtain ⟨cmd, hstore⟩ := hstore
      unfold SgxDevInfo.unread
      rw [hstore, hgt.within.unread_store]
      exact ⟨hw, hunread⟩
  | inr hafter => exact absurd rfl (hafter.2.2 e)

def SgxDevInfo.waiting (s : SgxDevInfo) : Bool :=
  s.call.any fun call => match call.phase with
    | .checking _ => true
    | .clocking _ => true
    | _ => false

def SgxDevInfo.checks (s : SgxDevInfo) : Bool :=
  s.call.any fun call => match call.phase with
    | .checking _ => true
    | _ => false

def SgxDevInfo.clocks (s : SgxDevInfo) : Bool :=
  s.call.any fun call => match call.phase with
    | .clocking _ => true
    | _ => false

/-- A call that waits after a step waited before, and has checked in vain or has read the clock. -/
theorem host_waits (hcall : s.call = some call) {now : ℕ}
    (hstep : sgxScheduleCCBCommand s call now = (r, t)) (ht : t.waiting = true) :
    s.waiting = true ∧ t.psKernelCCBInfo = s.psKernelCCBInfo ∧ r = .done ∧
      (t.clocks = true → s.checks = true ∧ s.psKernelCCBInfo.hasSlot = false) := by
  obtain ⟨ty, data, phase⟩ := call
  have hr : r = (sgxScheduleCCBCommand s ⟨ty, data, phase⟩ now).1 := by rw [hstep]
  have htt : t = (sgxScheduleCCBCommand s ⟨ty, data, phase⟩ now).2 := by rw [hstep]
  rw [htt] at ht ⊢
  rw [hr]
  cases phase with
  | checking loop =>
    by_cases hfree : s.psKernelCCBInfo.hasSlot = true
    · simp [sgxScheduleCCBCommand, hfree, SgxDevInfo.goTo, SgxDevInfo.waiting] at ht
    · simp [sgxScheduleCCBCommand, hfree, SgxDevInfo.goTo, SgxDevInfo.waiting, SgxDevInfo.checks,
        hcall]
  | clocking loop =>
    by_cases hmore : (loop.next now).goesOn = true
    · simp [sgxScheduleCCBCommand, hmore, SgxDevInfo.goTo, SgxDevInfo.waiting, SgxDevInfo.clocks,
        hcall]
    · simp [sgxScheduleCCBCommand, hmore, SgxDevInfo.waiting] at ht
  | copied slot =>
    cases haddr : serviceAddress s ty with
    | none => simp [sgxScheduleCCBCommand, haddr, SgxDevInfo.waiting] at ht
    | some a => simp [sgxScheduleCCBCommand, haddr, SgxDevInfo.goTo, SgxDevInfo.waiting] at ht
  | _ => simp [sgxScheduleCCBCommand, SgxDevInfo.goTo, SgxDevInfo.waiting] at ht

/-- A call returns with its command behind the kick, and with an error while it waits or when its
    command has no address. -/
theorem returned_cases {now : ℕ} {x : Except PvrsrvError SgxmkifCommand}
    (hstep : ccbStep s (.host now) = some (.returned x, t)) :
    ∃ call, s.call = some call ∧
      ((∃ loop, call.phase = .clocking loop ∧ x = .error .errorTimeout) ∨
        (∃ slot, call.phase = .copied slot ∧ x = .error .errorGeneric) ∨
        ∃ cmd, call.phase = .kicked cmd ∧ x = .ok cmd) := by
  obtain ⟨call, hcall, hpair⟩ := host_step hstep
  obtain ⟨ty, data, phase⟩ := call
  have hr : (sgxScheduleCCBCommand s ⟨ty, data, phase⟩ now).1 = .returned x := by rw [hpair]
  refine ⟨_, hcall, ?_⟩
  cases phase with
  | checking loop =>
    by_cases hfree : s.psKernelCCBInfo.hasSlot = true <;> simp [sgxScheduleCCBCommand, hfree] at hr
  | clocking loop =>
    by_cases hmore : (loop.next now).goesOn = true
    · simp [sgxScheduleCCBCommand, hmore] at hr
    · simp only [sgxScheduleCCBCommand, hmore] at hr
      exact .inl ⟨loop, rfl, (CcbReply.returned.inj hr).symm⟩
  | copied slot =>
    cases haddr : serviceAddress s ty with
    | none =>
      simp only [sgxScheduleCCBCommand, haddr] at hr
      exact .inr (.inl ⟨slot, rfl, (CcbReply.returned.inj hr).symm⟩)
    | some address => simp [sgxScheduleCCBCommand, haddr] at hr
  | kicked cmd => exact .inr (.inr ⟨cmd, rfl, (CcbReply.returned.inj hr).symm⟩)
  | _ => simp [sgxScheduleCCBCommand] at hr

theorem timeout_clocks {now : ℕ}
    (hstep : ccbStep s (.host now) = some (.returned (.error .errorTimeout), t)) :
    s.clocks = true := by
  obtain ⟨call, hcall, ⟨loop, hphase, -⟩ | ⟨slot, -, hx⟩ | ⟨cmd, -, hx⟩⟩ := returned_cases hstep
  · simp [SgxDevInfo.clocks, hcall, hphase]
  · cases hx
  · cases hx

theorem waiting_of_clocks (h : s.clocks = true) : s.waiting = true ∧ s.checks = false := by
  obtain ⟨call, hcall, hphase⟩ := (Option.any_eq_true ..).mp h
  unfold SgxDevInfo.waiting SgxDevInfo.checks
  rw [hcall]
  cases hp : call.phase <;> simp_all

theorem Ringed.waits (h : Ringed s g) (hop : proper s op = true) (hsched : op.schedules = false)
    (hstep : ccbStep s op = some (r, t)) (ht : t.waiting = true) :
    s.waiting = true ∧ t.outstanding ≤ s.outstanding := by
  by_cases hhost : ∃ now, op = .host now
  · obtain ⟨now, hnow⟩ := hhost
    rw [hnow] at hstep
    obtain ⟨call, hcall, hpair⟩ := host_step hstep
    obtain ⟨hs, hccb, -, -⟩ := host_waits hcall hpair ht
    unfold SgxDevInfo.outstanding
    rw [hccb]
    exact ⟨hs, Nat.le_refl _⟩
  · have hother (now : ℕ) : op ≠ .host now := fun hnow => hhost ⟨now, hnow⟩
    have hcall := (other_effect hother hstep).2 hsched
    obtain ⟨-, -, hle⟩ := h.unread_suffix hop hother hstep
    refine ⟨?_, hle⟩
    unfold SgxDevInfo.waiting at ht ⊢
    rw [← hcall]
    exact ht

theorem Ringed.waits_run (h : Ringed s g) {k : List (CcbOp × CcbReply)} (hrun : CcbRun s k t)
    (hsched : ∀ x ∈ k, x.1.schedules = false) (ht : t.waiting = true) :
    ∀ m, m <+: k → ∀ x, CcbRun s m x → x.waiting = true ∧ t.outstanding ≤ x.outstanding := by
  induction hrun with
  | refl =>
    intro m hm x hx
    rw [List.prefix_nil.mp hm] at hx
    rw [← hx.of_nil]
    exact ⟨ht, Nat.le_refl _⟩
  | @snoc k u t b q run hb hs ih =>
    intro m hm x hx
    have hb' : b.schedules = false :=
      hsched (b, q) (List.mem_append_right _ (List.mem_singleton_self _))
    obtain ⟨hu, hle⟩ := (h.run run).waits hb hb' hs ht
    cases List.prefix_concat_iff.mp hm with
    | inl hm =>
      rw [hm] at hx
      have hxt : x = t := hx.unique (.snoc run hb hs)
      rw [hxt]
      exact ⟨ht, Nat.le_refl _⟩
    | inr hm =>
      obtain ⟨hwait, hle'⟩ := ih (fun y hy => hsched y (List.mem_append_left _ hy)) hu m hm x hx
      exact ⟨hwait, hle.trans hle'⟩

/-- A call that gives up found the ring full at its last check, and full it had been since the
    first. -/
theorem Ringed.gaveUp (h : Ringed s g) (hs : s.checks = true) {k : List (CcbOp × CcbReply)}
    (hrun : CcbRun s k t) (hsched : ∀ x ∈ k, x.1.schedules = false) (ht : t.clocks = true) :
    ∃ l₁ now l₂, k = l₁ ++ (.host now, .done) :: l₂ ∧ (∀ x ∈ l₂, ∀ now, x.1 ≠ .host now) ∧
      ∀ m, m <+: l₁ → ∀ x, CcbRun s m x → x.outstanding = 255 := by
  induction hrun with
  | refl =>
    rw [(waiting_of_clocks ht).2] at hs
    cases hs
  | @snoc k u t b q run hb hstep ih =>
    have hk : ∀ x ∈ k, x.1.schedules = false := fun y hy => hsched y (List.mem_append_left _ hy)
    have hb' : b.schedules = false :=
      hsched (b, q) (List.mem_append_right _ (List.mem_singleton_self _))
    have hu := h.run run
    by_cases hhost : ∃ now, b = .host now
    · obtain ⟨now, hnow⟩ := hhost
      rw [hnow] at hstep
      obtain ⟨call, hcall, hpair⟩ := host_step hstep
      obtain ⟨hwait, -, hq, hcheck⟩ := host_waits hcall hpair (waiting_of_clocks ht).1
      have hfull := (hcheck ht).2
      refine ⟨k, now, [], by rw [hnow, hq], ?_, ?_⟩
      · intro x hx
        cases hx
      · intro m hm x hx
        have hle := (h.waits_run run hk hwait m hm x hx).2
        have hnot : ¬u.psKernelCCBInfo.outstanding < 255 := fun hlt => by
          rw [hu.within.hasSlot_iff.mpr hlt] at hfull
          cases hfull
        have hlt := x.psKernelCCBInfo.outstanding_lt
        unfold SgxDevInfo.outstanding at hle ⊢
        omega
    · have hother (now : ℕ) : b ≠ .host now := fun hnow => hhost ⟨now, hnow⟩
      have hcall := (other_effect hother hstep).2 hb'
      have hut : u.clocks = true := by
        unfold SgxDevInfo.clocks at ht ⊢
        rw [← hcall]
        exact ht
      obtain ⟨l₁, now, l₂, hkl, hl₂, hfull⟩ := ih hk hut
      refine ⟨l₁, now, l₂ ++ [(b, q)], ?_, ?_, hfull⟩
      · rw [hkl, List.append_assoc]
        rfl
      · intro x hx
        cases List.mem_append.mp hx with
        | inl hx => exact hl₂ x hx
        | inr hx =>
          rw [List.mem_singleton.mp hx]
          exact hother

theorem kicked_of_ok {now : ℕ} (h : ccbStep s (.host now) = some (.returned (.ok cmd), t)) :
    ∃ call, s.call = some call ∧ call.phase = .kicked cmd := by
  obtain ⟨call, hcall, ⟨loop, -, hx⟩ | ⟨slot, -, hx⟩ | ⟨cmd', hphase, hx⟩⟩ := returned_cases h
  · cases hx
  · cases hx
  · exact ⟨call, hcall, Except.ok.inj hx ▸ hphase⟩

/-- What holds in every state of a run, with the ledger of the run so far. -/
structure CcbLaws (s : SgxDevInfo) (g : CcbLedger) : Prop where
  /-- What the firmware read and what is unread is what was accepted, in this order. -/
  once : g.consumed ++ s.unread = g.accepted ++ s.unreported
  /-- What is accepted is the command of the caller, with its address and the word for the
      caches. -/
  whole : ∀ now cmd t, ccbStep s (.host now) = some (.returned (.ok cmd), t) →
    ∃ ty data a c, g.current = some (ty, data) ∧ serviceAddress s ty = some a ∧
      cmd = ⟨a, data.ui32Data.set 2 c cacheWord⟩
  /-- Slots are not rewritten before the firmware has passed them. -/
  untouched : ∀ op r t, proper s op = true → ccbStep s op = some (r, t) → ∀ j < s.outstanding,
    t.psKernelCCBInfo.psCommands ((s.psKernelCCBInfo.readOffset + j) % 256) =
      s.psKernelCCBInfo.psCommands ((s.psKernelCCBInfo.readOffset + j) % 256)
  /-- A call that fails leaves the write offset and what is unread. -/
  failed : ∀ ty data now k t now' e u, CcbRun s ((.schedule ty data now, .done) :: k) t →
    (∀ x ∈ k, x.1.schedules = false) →
    ccbStep t (.host now') = some (.returned (.error e), u) →
    u.psKernelCCBInfo.writeOffset = s.psKernelCCBInfo.writeOffset ∧ u.unread <:+ s.unread
  /-- From the first to the last check of a call that gives up the ring stays full. -/
  gaveUp : s.checks = true → ∀ k t now u, CcbRun s k t → (∀ x ∈ k, x.1.schedules = false) →
    ccbStep t (.host now) = some (.returned (.error .errorTimeout), u) →
    ∃ l₁ now' l₂, k = l₁ ++ (.host now', .done) :: l₂ ∧ (∀ x ∈ l₂, ∀ now, x.1 ≠ .host now) ∧
      ∀ m, m <+: l₁ → ∀ x, CcbRun s m x → x.outstanding = 255

theorem ccb_laws_over_runs {psCommands : ℕ → SgxmkifCommand} {hostKick getMiscInfo c : ℕ}
    {l : List (CcbOp × CcbReply)} (h : CcbRun (ccbInit psCommands hostKick getMiscInfo c) l s) :
    CcbLaws s (l.foldl record ⟨none, [], []⟩) := by
  have hs := (ringed_init psCommands hostKick getMiscInfo c).run h
  constructor
  case once => exact hs.content
  case whole =>
    intro now cmd t hstep
    obtain ⟨call, hcall, hphase⟩ := kicked_of_ok hstep
    obtain ⟨data, hcur, hcarries⟩ := hs.carries call hcall
    unfold ScheduleCall.Carries at hcarries
    rw [hphase] at hcarries
    obtain ⟨a, c, ha, hc⟩ := hcarries
    exact ⟨call.eCommandType, data, a, c, hcur, ha, hc⟩
  case untouched => exact fun op r t _ hstep j hj => hs.untouched hstep hj
  case failed => exact fun _ _ _ _ _ _ _ _ hrun hsched hstep => hs.failed hrun hsched hstep
  case gaveUp =>
    intro hcheck k t now u hrun hsched hstep
    exact hs.gaveUp hcheck hrun hsched (timeout_clocks hstep)

def sampleCommand : SgxmkifCommand := ⟨0, #v[3, 0, 0]⟩

def sampleCall : List CcbOp :=
  .schedule .edmKick sampleCommand 0 :: List.replicate 8 (.host 0)

def sampleInit : SgxDevInfo := ccbInit (fun _ => ⟨0, #v[0, 0, 0]⟩) 4096 8192 1

theorem ccb_laws_over_sample : ∃ l s, exec ccbStep sampleInit
      (sampleCall ++ [.firmware] ++ sampleCall) = some (l, s) ∧
    CcbLaws s (l.foldl record ⟨none, [], []⟩) ∧ s.outstanding = 1 := by
  have hsome : (exec ccbStep sampleInit (sampleCall ++ [.firmware] ++ sampleCall)).map
      (fun r => r.2.outstanding) = some 1 := by decide +kernel
  obtain ⟨⟨l, s⟩, hexec, hlook⟩ := Option.map_eq_some_iff.mp hsome
  have hallowed : Allowed ccbStep (fun s op => proper s op = true) sampleInit
      (sampleCall ++ [.firmware] ++ sampleCall) := by decide +kernel
  exact ⟨l, s, hexec, ccb_laws_over_runs (.of_allowed hexec hallowed), hlook⟩

def sampleWait : List CcbOp :=
  (List.replicate 255 sampleCall).flatten ++
    [.schedule .edmKick sampleCommand 0, .host 0] ++ List.replicate 255 .firmware

def CcbReply.error? : CcbReply → Option PvrsrvError
  | .returned (.error e) => some e
  | _ => none

theorem CcbReply.of_error? {e : PvrsrvError} (h : r.error? = some e) :
    r = .returned (.error e) := by
  unfold CcbReply.error? at h
  split at h
  · rw [Option.some.inj h]
  · cases h

/-- When it has read the clock the call gives up though the ring is empty. -/
theorem gave_up_on_empty_ring :
    ¬∀ l s now t, CcbRun sampleInit l s →
      ccbStep s (.host now) = some (.returned (.error .errorTimeout), t) →
      s.outstanding = 255 := by
  intro hclaim
  have hsome : (exec ccbStep sampleInit sampleWait).map (fun r =>
      (r.2.outstanding, (ccbStep r.2 (.host 500001)).bind fun q => q.1.error?)) =
      some (0, some .errorTimeout) := by decide +kernel
  obtain ⟨⟨l, s⟩, hexec, hlook⟩ := Option.map_eq_some_iff.mp hsome
  rw [Prod.mk.injEq] at hlook
  have hallowed : Allowed ccbStep (fun s op => proper s op = true) sampleInit sampleWait :=
    allowed_of_allows (by decide +kernel)
  obtain ⟨⟨r, t⟩, hstep, herror⟩ := Option.bind_eq_some_iff.mp hlook.2
  have hr : r = .returned (.error .errorTimeout) := CcbReply.of_error? herror
  rw [hr] at hstep
  have hfull := hclaim l s 500001 t (.of_allowed hexec hallowed) hstep
  rw [hlook.1] at hfull
  cases hfull

end PvrServices.KernelCcb
