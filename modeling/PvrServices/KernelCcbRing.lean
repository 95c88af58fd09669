import PvrServices.CircularBuffer
import PvrServices.KernelCcbBase
import PvrServices.Runs

set_option autoImplicit false

/-!
# The ring of commands

What is between the offsets is what was submitted and not yet read, in the order of submission. A
call fills only the free slot at the write offset, and the offset moves when the slot is filled.
-/
namespace PvrServices.KernelCcb
open CircularBuffer Runs Words
variable {s t u : SgxDevInfo} {call : ScheduleCall} {op : CcbOp} {r : CcbReply}
  {data cmd : SgxmkifCommand}

theorem and_255 (n : ℕ) : n &&& 255 = n % 256 := Nat.and_two_pow_sub_one_eq_mod n 8

def SgxCcbInfo.outstanding (ccb : SgxCcbInfo) : ℕ := (ccb.writeOffset + 256 - ccb.readOffset) % 256

def SgxCcbInfo.unread (ccb : SgxCcbInfo) : List SgxmkifCommand :=
  window 256 ccb.psCommands ccb.readOffset ccb.outstanding

def SgxCcbInfo.Within (ccb : SgxCcbInfo) : Prop := ccb.writeOffset < 256 ∧ ccb.readOffset < 256

variable {ccb : SgxCcbInfo}

theorem SgxCcbInfo.outstanding_lt (ccb : SgxCcbInfo) : ccb.outstanding < 256 := by
  unfold SgxCcbInfo.outstanding
  omega

theorem SgxCcbInfo.Within.hasSlot_iff (h : ccb.Within) :
    ccb.hasSlot = true ↔ ccb.outstanding < 255 := by
  obtain ⟨hw, hr⟩ := h
  unfold SgxCcbInfo.hasSlot SgxCcbInfo.outstanding
  rw [and_255, decide_eq_true_eq]
  omega

theorem SgxCcbInfo.Within.end_eq (h : ccb.Within) :
    (ccb.readOffset + ccb.outstanding) % 256 = ccb.writeOffset := by
  obtain ⟨hw, hr⟩ := h
  unfold SgxCcbInfo.outstanding
  omega

theorem SgxCcbInfo.Within.apart (h : ccb.Within) {j : ℕ} (hj : j < ccb.outstanding) :
    (ccb.readOffset + j) % 256 ≠ ccb.writeOffset := by
  have hlt := ccb.outstanding_lt
  exact window_apart (m := 1) (k := 0) h.end_eq h.1 hlt hj Nat.zero_lt_one

def SgxCcbInfo.store (ccb : SgxCcbInfo) (cmd : SgxmkifCommand) : SgxCcbInfo :=
  { ccb with psCommands := Function.update ccb.psCommands ccb.writeOffset cmd }

theorem SgxCcbInfo.Within.unread_store (h : ccb.Within) (cmd : SgxmkifCommand) :
    (ccb.store cmd).unread = ccb.unread := by
  apply List.map_congr_left
  intro j hj
  exact Function.update_of_ne (h.apart (List.mem_range.mp hj)) ..

def SgxCcbInfo.publish (ccb : SgxCcbInfo) : SgxCcbInfo :=
  { ccb with writeOffset := (ccb.writeOffset + 1) &&& 255 }

theorem SgxCcbInfo.Within.publish (h : ccb.Within) : ccb.publish.Within := by
  refine ⟨?_, h.2⟩
  change (ccb.writeOffset + 1) &&& 255 < 256
  rw [and_255]
  exact Nat.mod_lt _ (by decide)

theorem SgxCcbInfo.Within.outstanding_publish (h : ccb.Within) (hfree : ccb.outstanding < 255) :
    ccb.publish.outstanding = ccb.outstanding + 1 := by
  obtain ⟨hw, hr⟩ := h
  unfold SgxCcbInfo.outstanding at hfree ⊢
  unfold SgxCcbInfo.publish
  dsimp only
  rw [and_255]
  omega

theorem SgxCcbInfo.Within.unread_publish (h : ccb.Within) (hfree : ccb.outstanding < 255) :
    ccb.publish.unread = ccb.unread ++ [ccb.psCommands ccb.writeOffset] := by
  unfold SgxCcbInfo.unread
  rw [h.outstanding_publish hfree, window_add]
  have hlast : window 256 ccb.psCommands (ccb.readOffset + ccb.outstanding) 1 =
      [ccb.psCommands ccb.writeOffset] := by
    rw [← window_mod, h.end_eq]
    simp [window, Nat.mod_eq_of_lt h.1]
  change _ ++ window 256 ccb.psCommands (ccb.readOffset + ccb.outstanding) 1 = _
  rw [hlast]
  rfl

def SgxCcbInfo.pass (ccb : SgxCcbInfo) : SgxCcbInfo :=
  { ccb with readOffset := (ccb.readOffset + 1) &&& 255 }

theorem SgxCcbInfo.Within.pass (h : ccb.Within) : ccb.pass.Within := by
  refine ⟨h.1, ?_⟩
  change (ccb.readOffset + 1) &&& 255 < 256
  rw [and_255]
  exact Nat.mod_lt _ (by decide)

theorem SgxCcbInfo.Within.outstanding_pass (h : ccb.Within)
    (hne : ccb.readOffset ≠ ccb.writeOffset) :
    ccb.outstanding = 1 + ccb.pass.outstanding := by
  obtain ⟨hw, hr⟩ := h
  unfold SgxCcbInfo.outstanding SgxCcbInfo.pass
  dsimp only
  rw [and_255]
  omega

theorem SgxCcbInfo.Within.unread_pass (h : ccb.Within) (hne : ccb.readOffset ≠ ccb.writeOffset) :
    ccb.unread = ccb.psCommands ccb.readOffset :: ccb.pass.unread := by
  unfold SgxCcbInfo.unread
  rw [h.outstanding_pass hne, window_add]
  have hfirst : window 256 ccb.psCommands ccb.readOffset 1 = [ccb.psCommands ccb.readOffset] := by
    simp [window, Nat.mod_eq_of_lt h.2]
  have hrest : window 256 ccb.psCommands (ccb.readOffset + 1) ccb.pass.outstanding =
      window 256 ccb.psCommands ccb.pass.readOffset ccb.pass.outstanding := by
    rw [← window_mod, ← and_255]
    rfl
  rw [hfirst, hrest]
  rfl

def ScheduleCall.unreported (call : ScheduleCall) : List SgxmkifCommand :=
  match call.phase with
  | .published cmd => [cmd]
  | .kicked cmd => [cmd]
  | _ => []

def SgxDevInfo.unreported (s : SgxDevInfo) : List SgxmkifCommand :=
  (s.call.map ScheduleCall.unreported).getD []

def ScheduleCall.Slotted (call : ScheduleCall) (ccb : SgxCcbInfo) : Prop :=
  match call.phase with
  | .acquired slot => slot = ccb.writeOffset ∧ ccb.outstanding < 255
  | .conveyed slot => slot = ccb.writeOffset ∧ ccb.outstanding < 255
  | .cleared slot => slot = ccb.writeOffset ∧ ccb.outstanding < 255
  | .copied slot => slot = ccb.writeOffset ∧ ccb.outstanding < 255 ∧
    ccb.psCommands slot = call.psCommandData
  | .addressed cmd => ccb.outstanding < 255 ∧ ccb.psCommands ccb.writeOffset = cmd
  | _ => True

/-- What a caller passed, with the word for the caches that the driver sets. -/
def SgxmkifCommand.withCacheControl (data : SgxmkifCommand) (c : ℕ) : SgxmkifCommand :=
  { data with ui32Data := data.ui32Data.set 2 c cacheWord }

def ScheduleCall.Carries (call : ScheduleCall) (s : SgxDevInfo) (data : SgxmkifCommand) : Prop :=
  match call.phase with
  | .checking _ => call.psCommandData = data
  | .clocking _ => call.psCommandData = data
  | .acquired _ => call.psCommandData = data
  | .conveyed _ => ∃ c, call.psCommandData = data.withCacheControl c
  | .cleared _ => ∃ c, call.psCommandData = data.withCacheControl c
  | .copied _ => ∃ c, call.psCommandData = data.withCacheControl c
  | .addressed cmd => ∃ a c, serviceAddress s call.eCommandType = some a ∧
    cmd = ⟨a, data.ui32Data.set 2 c cacheWord⟩
  | .published cmd => ∃ a c, serviceAddress s call.eCommandType = some a ∧
    cmd = ⟨a, data.ui32Data.set 2 c cacheWord⟩
  | .kicked cmd => ∃ a c, serviceAddress s call.eCommandType = some a ∧
    cmd = ⟨a, data.ui32Data.set 2 c cacheWord⟩

/-- The last call, the commands that were answered with `PVRSRV_OK`, and those that the firmware
    read, each in the order of time. -/
structure CcbLedger where
  current : Option (CommandType × SgxmkifCommand)
  accepted : List SgxmkifCommand
  consumed : List SgxmkifCommand

def record (g : CcbLedger) : CcbOp × CcbReply → CcbLedger
  | (.schedule ty data _, _) => { g with current := some (ty, data) }
  | (.host _, .returned (.ok cmd)) => { g with accepted := g.accepted ++ [cmd] }
  | (.firmware, .consumed cmd) => { g with consumed := g.consumed ++ [cmd] }
  | _ => g

variable {g : CcbLedger}

structure Ringed (s : SgxDevInfo) (g : CcbLedger) : Prop where
  within : s.psKernelCCBInfo.Within
  content : g.consumed ++ s.psKernelCCBInfo.unread = g.accepted ++ s.unreported
  slotted : ∀ call, s.call = some call → call.Slotted s.psKernelCCBInfo
  carries : ∀ call, s.call = some call →
    ∃ data, g.current = some (call.eCommandType, data) ∧ call.Carries s data

theorem ringed_init (psCommands : ℕ → SgxmkifCommand) (hostKick getMiscInfo cacheControl : ℕ) :
    Ringed (ccbInit psCommands hostKick getMiscInfo cacheControl) ⟨none, [], []⟩ where
  within := ⟨Nat.zero_lt_succ 255, Nat.zero_lt_succ 255⟩
  content := by
    have hnone : (ccbInit psCommands hostKick getMiscInfo cacheControl).psKernelCCBInfo.outstanding =
        0 := by simp [SgxCcbInfo.outstanding, ccbInit]
    unfold SgxCcbInfo.unread
    rw [hnone]
    rfl
  slotted := by
    intro call h
    cases h
  carries := by
    intro call h
    cases h

theorem Ringed.firmware (h : Ringed s g)
    (hne : s.psKernelCCBInfo.readOffset ≠ s.psKernelCCBInfo.writeOffset) :
    Ringed (firmwareRead s).2
      { g with consumed := g.consumed ++
        [s.psKernelCCBInfo.psCommands s.psKernelCCBInfo.readOffset] } := by
  have hless := h.within.outstanding_pass hne
  constructor
  case within => exact h.within.pass
  case content =>
    have hcontent := h.content
    rw [h.within.unread_pass hne] at hcontent
    rw [List.append_assoc]
    exact hcontent
  case slotted =>
    intro call hcall
    have hslot := h.slotted call hcall
    change call.Slotted s.psKernelCCBInfo.pass
    unfold ScheduleCall.Slotted at hslot ⊢
    cases hphase : call.phase with
    | checking loop => trivial
    | clocking loop => trivial
    | acquired slot =>
      rw [hphase] at hslot
      exact ⟨hslot.1, by omega⟩
    | conveyed slot =>
      rw [hphase] at hslot
      exact ⟨hslot.1, by omega⟩
    | cleared slot =>
      rw [hphase] at hslot
      exact ⟨hslot.1, by omega⟩
    | copied slot =>
      rw [hphase] at hslot
      exact ⟨hslot.1, by omega, hslot.2.2⟩
    | addressed cmd =>
      rw [hphase] at hslot
      exact ⟨by omega, hslot.2⟩
    | published cmd => trivial
    | kicked cmd => trivial
  case carries => exact h.carries

theorem Ringed.aside (h : Ringed s g) (hccb : t.psKernelCCBInfo = s.psKernelCCBInfo)
    (hcall : t.call = s.call) (haddr : serviceAddress t = serviceAddress s) : Ringed t g where
  within := hccb ▸ h.within
  content := by
    rw [hccb, SgxDevInfo.unreported, hcall]
    exact h.content
  slotted := by
    intro call hc
    rw [hccb]
    exact h.slotted call (hcall ▸ hc)
  carries := by
    intro call hc
    obtain ⟨data, hcur, hcarries⟩ := h.carries call (hcall ▸ hc)
    refine ⟨data, hcur, ?_⟩
    unfold ScheduleCall.Carries at hcarries ⊢
    rw [haddr]
    exact hcarries

theorem ringed_of_phase {c : ScheduleCall}
    (hccb : t.psKernelCCBInfo.Within) (hcall : t.call = some c)
    (hcontent : g.consumed ++ t.psKernelCCBInfo.unread = g.accepted ++ c.unreported)
    (hslot : c.Slotted t.psKernelCCBInfo)
    (hcarries : ∃ data, g.current = some (c.eCommandType, data) ∧ c.Carries t data) :
    Ringed t g where
  within := hccb
  content := by
    rw [SgxDevInfo.unreported, hcall]
    exact hcontent
  slotted := by
    intro call hc
    rw [hcall, Option.some.injEq] at hc
    exact hc ▸ hslot
  carries := by
    intro call hc
    rw [hcall, Option.some.injEq] at hc
    exact hc ▸ hcarries

theorem ringed_of_none (hccb : t.psKernelCCBInfo.Within) (hcall : t.call = none)
    (hcontent : g.consumed ++ t.psKernelCCBInfo.unread = g.accepted) : Ringed t g where
  within := hccb
  content := by
    rw [SgxDevInfo.unreported, hcall]
    exact hcontent.trans (List.append_nil _).symm
  slotted := by
    intro call hc
    rw [hcall] at hc
    cases hc
  carries := by
    intro call hc
    rw [hcall] at hc
    cases hc

section
variable {ty : CommandType} {data : SgxmkifCommand} {loop : TimeoutLoop} {now slot a : ℕ}

theorem schedule_hasSlot (hfree : s.psKernelCCBInfo.hasSlot = true) :
    sgxScheduleCCBCommand s ⟨ty, data, .checking loop⟩ now = (.done, s.goTo
      ⟨ty, data, .checking loop⟩ (.acquired s.psKernelCCBInfo.writeOffset)) := if_pos hfree

theorem schedule_full (hfull : ¬s.psKernelCCBInfo.hasSlot = true) :
    sgxScheduleCCBCommand s ⟨ty, data, .checking loop⟩ now = (.done, s.goTo
      ⟨ty, data, .checking loop⟩ (.clocking loop)) := if_neg hfull

theorem schedule_goesOn (hmore : (loop.next now).goesOn = true) :
    sgxScheduleCCBCommand s ⟨ty, data, .clocking loop⟩ now = (.done, s.goTo
      ⟨ty, data, .clocking loop⟩ (.checking (loop.next now))) := if_pos hmore

theorem schedule_timeout (hmore : ¬(loop.next now).goesOn = true) :
    sgxScheduleCCBCommand s ⟨ty, data, .clocking loop⟩ now =
      (.returned (.error .errorTimeout), { s with call := none }) := if_neg hmore

theorem schedule_unknown (haddr : serviceAddress s ty = none) :
    sgxScheduleCCBCommand s ⟨ty, data, .copied slot⟩ now =
      (.returned (.error .errorGeneric), { s with call := none }) := by
  simp [sgxScheduleCCBCommand, haddr]

theorem schedule_known (haddr : serviceAddress s ty = some a)
    (hfilled : s.psKernelCCBInfo.psCommands slot = data) :
    sgxScheduleCCBCommand s ⟨ty, data, .copied slot⟩ now =
      (.done, (s.setCommand slot { data with ui32ServiceAddress := a }).goTo
        ⟨ty, data, .copied slot⟩ (.addressed { data with ui32ServiceAddress := a })) := by
  simp [sgxScheduleCCBCommand, haddr, hfilled]

end

theorem Ringed.host (h : Ringed s g) (hcall : s.call = some call) (now : ℕ) :
    Ringed (sgxScheduleCCBCommand s call now).2
      (record g (.host now, (sgxScheduleCCBCommand s call now).1)) := by
  have hslot := h.slotted call hcall
  obtain ⟨orig, hcur, hcarries⟩ := h.carries call hcall
  have hcontent := h.content
  rw [SgxDevInfo.unreported, hcall] at hcontent
  obtain ⟨ty, data, phase⟩ := call
  cases phase with
  | checking loop =>
    by_cases hfree : s.psKernelCCBInfo.hasSlot = true
    · rw [schedule_hasSlot hfree]
      exact ringed_of_phase h.within rfl hcontent ⟨rfl, h.within.hasSlot_iff.mp hfree⟩
        ⟨orig, hcur, hcarries⟩
    · rw [schedule_full hfree]
      exact ringed_of_phase h.within rfl hcontent trivial ⟨orig, hcur, hcarries⟩
  | clocking loop =>
    by_cases hmore : (loop.next now).goesOn = true
    · rw [schedule_goesOn hmore]
      exact ringed_of_phase h.within rfl hcontent trivial ⟨orig, hcur, hcarries⟩
    · rw [schedule_timeout hmore]
      exact ringed_of_none h.within rfl (hcontent.trans (List.append_nil _))
  | acquired slot =>
    have hdata : data = orig := hcarries
    refine ringed_of_phase h.within rfl hcontent hslot ⟨orig, hcur, s.ui32CacheControl, ?_⟩
    rw [hdata]
    rfl
  | conveyed slot => exact ringed_of_phase h.within rfl hcontent hslot ⟨orig, hcur, hcarries⟩
  | cleared slot =>
    obtain ⟨hw, hfree⟩ := hslot
    have hstore : ((s.setCommand slot data).goTo ⟨ty, data, .cleared slot⟩
        (.copied slot)).psKernelCCBInfo = s.psKernelCCBInfo.store data := by
      rw [hw]
      rfl
    refine ringed_of_phase (c := ⟨ty, data, .copied slot⟩) ?_ rfl ?_ ?_ ⟨orig, hcur, hcarries⟩
    · exact hstore ▸ h.within
    · change _ ++ ((s.setCommand slot data).goTo ⟨ty, data, .cleared slot⟩
        (.copied slot)).psKernelCCBInfo.unread = _
      rw [hstore, h.within.unread_store]
      exact hcontent
    · exact ⟨hw, hfree, Function.update_self ..⟩
  | copied slot =>
    obtain ⟨hw, hfree, hfilled⟩ := hslot
    obtain ⟨c, hdata⟩ := hcarries
    cases haddr : serviceAddress s ty with
    | none =>
      rw [schedule_unknown haddr]
      exact ringed_of_none h.within rfl (hcontent.trans (List.append_nil _))
    | some a =>
      let cmd : SgxmkifCommand := { data with ui32ServiceAddress := a }
      have hstore : (s.setCommand slot cmd).psKernelCCBInfo = s.psKernelCCBInfo.store cmd := by
        rw [hw]
        rfl
      rw [schedule_known haddr hfilled]
      refine ringed_of_phase (c := ⟨ty, data, .addressed cmd⟩) ?_ rfl ?_ ?_ ?_
      · exact hstore ▸ h.within
      · change _ ++ (s.setCommand slot cmd).psKernelCCBInfo.unread = _
        rw [hstore, h.within.unread_store]
        exact hcontent
      · change ScheduleCall.Slotted _ (s.setCommand slot cmd).psKernelCCBInfo
        rw [hstore]
        exact ⟨hfree, Function.update_self ..⟩
      · refine ⟨orig, hcur, a, c, haddr, ?_⟩
        dsimp only at hdata
        change (⟨a, data.ui32Data⟩ : SgxmkifCommand) = _
        rw [hdata]
        rfl
  | addressed cmd =>
    obtain ⟨hfree, hfilled⟩ := hslot
    refine ringed_of_phase (c := ⟨ty, data, .published cmd⟩) h.within.publish rfl ?_ trivial
      ⟨orig, hcur, hcarries⟩
    change g.consumed ++ s.psKernelCCBInfo.publish.unread = g.accepted ++ [cmd]
    have hbefore : g.consumed ++ s.psKernelCCBInfo.unread = g.accepted :=
      hcontent.trans (List.append_nil _)
    rw [h.within.unread_publish hfree, hfilled, ← List.append_assoc, hbefore]
  | published cmd =>
    exact ringed_of_phase (c := ⟨ty, data, .kicked cmd⟩) h.within rfl hcontent trivial
      ⟨orig, hcur, hcarries⟩
  | kicked cmd => exact ringed_of_none h.within rfl hcontent

theorem moveToResMan_aside (s : SgxDevInfo) (bit flag : ℕ) :
    (moveToResMan s bit flag).psKernelCCBInfo = s.psKernelCCBInfo ∧
      (moveToResMan s bit flag).call = s.call ∧
      serviceAddress (moveToResMan s bit flag) = serviceAddress s := by
  unfold moveToResMan
  split
  · exact ⟨rfl, rfl, rfl⟩
  · exact ⟨rfl, rfl, rfl⟩

theorem sgxCleanupRequest_aside (s : SgxDevInfo) (hwData : Option ℕ) (flag : ℕ) :
    (sgxCleanupRequest s hwData flag).2.psKernelCCBInfo = s.psKernelCCBInfo ∧
      (sgxCleanupRequest s hwData flag).2.call = s.call ∧
      serviceAddress (sgxCleanupRequest s hwData flag).2 = serviceAddress s := by
  obtain ⟨hccb, hcall, haddr⟩ := moveToResMan_aside s sgxBifInvalidatePdcache resmanCleanupInvalpd
  obtain ⟨hccb', hcall', haddr'⟩ := moveToResMan_aside
    (moveToResMan s sgxBifInvalidatePdcache resmanCleanupInvalpd)
    sgxBifInvalidatePtcache resmanCleanupInvalpt
  unfold sgxCleanupRequest
  split
  · exact ⟨rfl, rfl, rfl⟩
  · exact ⟨hccb'.trans hccb, hcall'.trans hcall, haddr'.trans haddr⟩

theorem Ringed.step (h : Ringed s g) (hop : proper s op = true) (hstep : ccbStep s op = some (r, t)) :
    Ringed t (record g (op, r)) := by
  cases op with
  | schedule ty data now =>
    obtain ⟨rfl, rfl⟩ : CcbReply.done = r ∧ _ = t := by simpa [ccbStep] using hstep
    have hnone : s.call = none := Option.isNone_iff_eq_none.mp hop
    have hcontent := h.content
    rw [SgxDevInfo.unreported, hnone] at hcontent
    exact ringed_of_phase h.within rfl hcontent trivial ⟨data, rfl, rfl⟩
  | host now =>
    obtain ⟨call, hcall⟩ := Option.isSome_iff_exists.mp hop
    have hpair : sgxScheduleCCBCommand s call now = (r, t) := by simpa [ccbStep, hcall] using hstep
    have hnext := h.host hcall now
    rw [hpair] at hnext
    exact hnext
  | firmware =>
    have hne : s.psKernelCCBInfo.readOffset ≠ s.psKernelCCBInfo.writeOffset :=
      of_decide_eq_true hop
    obtain ⟨rfl, rfl⟩ : _ = r ∧ _ = t := by simpa [ccbStep, firmwareRead] using hstep
    exact h.firmware hne
  | invalidateDirectoryCache | invalidatePageTableCache =>
    obtain ⟨rfl, rfl⟩ : CcbReply.done = r ∧ _ = t := by simpa [ccbStep] using hstep
    exact h.aside rfl rfl rfl
  | cleanupRequest hwData flag =>
    obtain ⟨hccb, hcall, haddr⟩ := sgxCleanupRequest_aside s hwData flag
    have hpair : sgxCleanupRequest s hwData flag = (r, t) := by simpa [ccbStep] using hstep
    rw [hpair] at hccb hcall haddr
    exact h.aside hccb hcall haddr
  | cleanupComplete flag | setHostCtl status flags =>
    obtain ⟨rfl, rfl⟩ : CcbReply.done = r ∧ _ = t := by simpa [ccbStep] using hstep
    exact h.aside rfl rfl rfl

end PvrServices.KernelCcb
