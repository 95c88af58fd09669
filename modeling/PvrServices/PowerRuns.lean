import Mathlib.Data.List.Nodup
import PvrServices.PowerBase

set_option autoImplicit false

/-!
# Power transitions over runs

A pass calls back device after device as far as it gets. A transition that succeeds has called every
device that changes before and after; one that fails is completed by the same request later. A
request is a transition of the system and those that the command-complete callbacks make after it.
-/
namespace PvrServices.Power
open Runs
variable {s t : SysData} {o : Hooks} {index : Option ℕ} {new : PowerState} {d : PowerDev}
  {ds : List PowerDev} {l : List (PowerOp × PowerReply)} {q : Request} {ns : List DeviceNode}

def preEvents (index : Option ℕ) (new : PowerState) (d : PowerDev) : List PowerEvent :=
  if changes index new d && d.pfnPrePower then
    [.pre d.addr (newDevicePowerState new d) d.eCurrentPowerState] else []

def postEvents (index : Option ℕ) (new : PowerState) (d : PowerDev) : List PowerEvent :=
  if changes index new d && d.pfnPostPower then
    [.post d.addr (newDevicePowerState new d) d.eCurrentPowerState] else []

def moved (index : Option ℕ) (new : PowerState) (d : PowerDev) : PowerDev :=
  if selects index d then { d with eCurrentPowerState := newDevicePowerState new d } else d

theorem moved_of_not_changes (h : changes index new d = false) : moved index new d = d := by
  unfold moved
  by_cases hsel : selects index d = true
  · rw [if_pos hsel]
    have hsame : d.eCurrentPowerState = newDevicePowerState new d := by
      simpa [changes, hsel] using h
    rw [← hsame]
  · rw [if_neg hsel]

theorem moved_moved (index : Option ℕ) (new : PowerState) (d : PowerDev) :
    moved index new (moved index new d) = moved index new d := by
  unfold moved
  by_cases hsel : selects index d = true
  · have hsel' : selects index { d with eCurrentPowerState := newDevicePowerState new d } = true :=
      hsel
    rw [if_pos hsel, if_pos hsel']
    rfl
  · rw [if_neg hsel, if_neg hsel]

theorem pre_pass (o : Hooks) (index : Option ℕ) (new : PowerState) (ds : List PowerDev) :
    ∃ k, (pvrsrvDevicePrePowerStateKM o index new ds).2 = (ds.take k).flatMap (preEvents index new) ∧
      ((pvrsrvDevicePrePowerStateKM o index new ds).1 = .ok → ds.length ≤ k) := by
  induction ds with
  | nil => exact ⟨0, rfl, fun _ => Nat.le_refl 0⟩
  | cons d rest ih =>
    obtain ⟨k, htrace, hfull⟩ := ih
    by_cases hch : changes index new d = true
    · have hcall : (if d.pfnPrePower then
          [PowerEvent.pre d.addr (newDevicePowerState new d) d.eCurrentPowerState] else []) =
          preEvents index new d := by
        simp [preEvents, hch]
      unfold pvrsrvDevicePrePowerStateKM
      rw [if_pos hch, hcall]
      dsimp only
      by_cases herror : (if d.pfnPrePower then o.pfnPrePower d.addr else .ok) ≠ PvrsrvError.ok
      · rw [if_pos herror]
        exact ⟨1, by simp, fun hok => absurd hok herror⟩
      · rw [if_neg herror]
        by_cases hsys : o.sysDevicePrePowerState d.addr ≠ .ok
        · rw [if_pos hsys]
          exact ⟨1, by simp, fun hok => absurd hok hsys⟩
        · rw [if_neg hsys]
          refine ⟨k + 1, ?_, fun hok => Nat.succ_le_succ (hfull hok)⟩
          rw [List.take_succ_cons, List.flatMap_cons, htrace]
    · have hnone : preEvents index new d = [] := by simp [preEvents, hch]
      unfold pvrsrvDevicePrePowerStateKM
      rw [if_neg hch]
      refine ⟨k + 1, ?_, fun hok => Nat.succ_le_succ (hfull hok)⟩
      rw [List.take_succ_cons, List.flatMap_cons, hnone, htrace]
      rfl

/-- The pass that records the states; where it fails the last device called back is not recorded. -/
theorem post_pass (o : Hooks) (index : Option ℕ) (new : PowerState) (ds : List PowerDev) :
    ∃ k j, (pvrsrvDevicePostPowerStateKM o index new ds).2.1 =
        (ds.take k).flatMap (postEvents index new) ∧
      (pvrsrvDevicePostPowerStateKM o index new ds).2.2 =
        (ds.take j).map (moved index new) ++ ds.drop j ∧
      ((pvrsrvDevicePostPowerStateKM o index new ds).1 = .ok → ds.length ≤ k ∧ ds.length ≤ j) := by
  induction ds with
  | nil => exact ⟨0, 0, rfl, rfl, fun _ => ⟨Nat.le_refl 0, Nat.le_refl 0⟩⟩
  | cons d rest ih =>
    obtain ⟨k, j, htrace, hdevices, hfull⟩ := ih
    by_cases hch : changes index new d = true
    · have hsel : selects index d = true := ((Bool.and_eq_true ..).mp hch).1
      have hcall : (if d.pfnPostPower then
          [PowerEvent.post d.addr (newDevicePowerState new d) d.eCurrentPowerState] else []) =
          postEvents index new d := by
        simp [postEvents, hch]
      have hmoved : { d with eCurrentPowerState := newDevicePowerState new d } =
          moved index new d := (if_pos hsel).symm
      unfold pvrsrvDevicePostPowerStateKM
      rw [if_pos hch, hcall, hmoved]
      dsimp only
      by_cases hsys : o.sysDevicePostPowerState d.addr ≠ .ok
      · rw [if_pos hsys]
        exact ⟨0, 0, rfl, rfl, fun hok => absurd hok hsys⟩
      · rw [if_neg hsys]
        by_cases herror : (if d.pfnPostPower then o.pfnPostPower d.addr else .ok) ≠ PvrsrvError.ok
        · rw [if_pos herror]
          exact ⟨1, 0, by simp, rfl, fun hok => absurd hok herror⟩
        · rw [if_neg herror]
          refine ⟨k + 1, j + 1, ?_, ?_, fun hok => ?_⟩
          · rw [List.take_succ_cons, List.flatMap_cons, htrace]
          · rw [List.take_succ_cons, List.map_cons, List.drop_succ_cons, hdevices]
            rfl
          · exact ⟨Nat.succ_le_succ (hfull hok).1, Nat.succ_le_succ (hfull hok).2⟩
    · have hnone : postEvents index new d = [] := by simp [postEvents, hch]
      have hsame : moved index new d = d := moved_of_not_changes (by simpa using hch)
      unfold pvrsrvDevicePostPowerStateKM
      rw [if_neg hch]
      dsimp only
      refine ⟨k + 1, j + 1, ?_, ?_, fun hok => ?_⟩
      · rw [List.take_succ_cons, List.flatMap_cons, hnone, htrace]
        rfl
      · rw [List.take_succ_cons, List.map_cons, List.drop_succ_cons, hdevices, hsame]
        rfl
      · exact ⟨Nat.succ_le_succ (hfull hok).1, Nat.succ_le_succ (hfull hok).2⟩

def Hooks.Succeed (o : Hooks) : Prop :=
  (∀ a, o.pfnPrePower a = .ok) ∧ (∀ a, o.sysDevicePrePowerState a = .ok) ∧
    o.sysSystemPrePowerState = .ok ∧ o.sysSystemPostPowerState = .ok ∧
    (∀ a, o.sysDevicePostPowerState a = .ok) ∧ ∀ a, o.pfnPostPower a = .ok

theorem Hooks.Succeed.pre (h : o.Succeed) (index : Option ℕ) (new : PowerState)
    (ds : List PowerDev) : (pvrsrvDevicePrePowerStateKM o index new ds).1 = .ok := by
  obtain ⟨hpre, hsys, -⟩ := h
  induction ds with
  | nil => rfl
  | cons d rest ih =>
    unfold pvrsrvDevicePrePowerStateKM
    by_cases hch : changes index new d = true
    · have herror : ¬(if d.pfnPrePower then o.pfnPrePower d.addr else .ok) ≠ PvrsrvError.ok := by
        simp [hpre]
      rw [if_pos hch]
      dsimp only
      rw [if_neg herror, if_neg (not_not.mpr (hsys d.addr))]
      exact ih
    · rw [if_neg hch]
      exact ih

theorem Hooks.Succeed.post (h : o.Succeed) (index : Option ℕ) (new : PowerState)
    (ds : List PowerDev) : (pvrsrvDevicePostPowerStateKM o index new ds).1 = .ok := by
  obtain ⟨-, -, -, -, hsys, hpost⟩ := h
  induction ds with
  | nil => rfl
  | cons d rest ih =>
    unfold pvrsrvDevicePostPowerStateKM
    by_cases hch : changes index new d = true
    · have herror : ¬(if d.pfnPostPower then o.pfnPostPower d.addr else .ok) ≠ PvrsrvError.ok := by
        simp [hpost]
      rw [if_pos hch, if_neg (not_not.mpr (hsys d.addr))]
      dsimp only
      rw [if_neg herror]
      exact ih
    · rw [if_neg hch]
      exact ih

theorem post_devices (hok : (pvrsrvDevicePostPowerStateKM o index new ds).1 = .ok) :
    (pvrsrvDevicePostPowerStateKM o index new ds).2.2 = ds.map (moved index new) := by
  obtain ⟨k, j, -, hdevices, hfull⟩ := post_pass o index new ds
  rw [hdevices, List.take_of_length_le (hfull hok).2, List.drop_of_length_le (hfull hok).2,
    List.append_nil]

theorem post_devices_again (o : Hooks) (index : Option ℕ) (new : PowerState) (ds : List PowerDev) :
    (pvrsrvDevicePostPowerStateKM o index new ds).2.2.map (moved index new) =
      ds.map (moved index new) := by
  obtain ⟨k, j, -, hdevices, -⟩ := post_pass o index new ds
  have htwice : moved index new ∘ moved index new = moved index new :=
    funext (moved_moved index new)
  rw [hdevices, List.map_append, List.map_map, htwice, ← List.map_append, List.take_append_drop]

def prePass (s : SysData) (o : Hooks) (new : PowerState) : PvrsrvError × List PowerEvent :=
  if takesDevices s new then
    pvrsrvDevicePrePowerStateKM o none (devicePowerState new) s.psPowerDeviceList
  else (.ok, [])

def postPass (s : SysData) (o : Hooks) (new : PowerState) :
    PvrsrvError × List PowerEvent × List PowerDev :=
  if takesDevices s new then
    pvrsrvDevicePostPowerStateKM o none (devicePowerState new) s.psPowerDeviceList
  else (.ok, [], s.psPowerDeviceList)

theorem systemPre_eq (s : SysData) (o : Hooks) (new : PowerState) :
    pvrsrvSystemPrePowerStateKM s o new =
      if (prePass s o new).1 ≠ .ok then
        ((prePass s o new).1, (prePass s o new).2, { s with eFailedPowerState := new })
      else if new ≠ s.eCurrentPowerState ∧ o.sysSystemPrePowerState ≠ .ok then
        (o.sysSystemPrePowerState, (prePass s o new).2, { s with eFailedPowerState := new })
      else (.ok, (prePass s o new).2, s) :=
  rfl

/-- A request without the callbacks at its end. -/
def systemTransition (s : SysData) (o : Hooks) (new : PowerState) :
    PvrsrvError × List PowerEvent × SysData :=
  let r := pvrsrvSystemPrePowerStateKM s o new
  if r.1 ≠ .ok then (r.1, r.2.1, { r.2.2 with eFailedPowerState := new })
  else
    let p := systemPostPowerState r.2.2 o new
    if p.1 ≠ .ok then (p.1, r.2.1 ++ p.2.1, { p.2.2 with eFailedPowerState := new })
    else (.ok, r.2.1 ++ p.2.1, { p.2.2 with eFailedPowerState := .unspecified })

/-- How a transition of the system ends: before the second pass, in it, or well. -/
theorem systemTransition_cases (s : SysData) (o : Hooks) (new : PowerState) :
    ((systemTransition s o new).1 ≠ .ok ∧
      (systemTransition s o new).2 = ((prePass s o new).2, { s with eFailedPowerState := new })) ∨
    ((systemTransition s o new).1 ≠ .ok ∧ (prePass s o new).1 = .ok ∧
      (systemTransition s o new).2 = ((prePass s o new).2 ++ (postPass s o new).2.1,
        { s with psPowerDeviceList := (postPass s o new).2.2
                 eFailedPowerState := new })) ∨
    ((systemTransition s o new).1 = .ok ∧ (prePass s o new).1 = .ok ∧
      (postPass s o new).1 = .ok ∧
      (systemTransition s o new).2 = ((prePass s o new).2 ++ (postPass s o new).2.1,
        { s with psPowerDeviceList := (postPass s o new).2.2
                 eCurrentPowerState := new
                 eFailedPowerState := .unspecified })) := by
  have hpostEq : systemPostPowerState s o new =
      if new ≠ s.eCurrentPowerState ∧ o.sysSystemPostPowerState ≠ .ok then
        (o.sysSystemPostPowerState, [], s)
      else if (postPass s o new).1 ≠ .ok then ((postPass s o new).1, (postPass s o new).2.1,
        { s with psPowerDeviceList := (postPass s o new).2.2 })
      else (.ok, (postPass s o new).2.1,
        { s with psPowerDeviceList := (postPass s o new).2.2
                 eCurrentPowerState := new }) := rfl
  unfold systemTransition
  rw [systemPre_eq]
  by_cases hpre : (prePass s o new).1 ≠ .ok
  · rw [if_pos hpre]
    dsimp only
    rw [if_pos hpre]
    exact .inl ⟨hpre, rfl⟩
  · rw [if_neg hpre]
    by_cases hsys : new ≠ s.eCurrentPowerState ∧ o.sysSystemPrePowerState ≠ .ok
    · rw [if_pos hsys]
      dsimp only
      rw [if_pos hsys.2]
      exact .inl ⟨hsys.2, rfl⟩
    · rw [if_neg hsys]
      dsimp only
      rw [if_neg (not_not.mpr rfl), hpostEq]
      have hok := not_not.mp hpre
      by_cases hsys' : new ≠ s.eCurrentPowerState ∧ o.sysSystemPostPowerState ≠ .ok
      · rw [if_pos hsys']
        dsimp only
        rw [if_pos hsys'.2, List.append_nil]
        exact .inl ⟨hsys'.2, rfl⟩
      · rw [if_neg hsys']
        by_cases hpost : (postPass s o new).1 ≠ .ok
        · rw [if_pos hpost]
          dsimp only
          rw [if_pos hpost]
          exact .inr (.inl ⟨hpost, hok, rfl⟩)
        · rw [if_neg hpost]
          exact .inr (.inr ⟨rfl, hok, not_not.mp hpost, rfl⟩)

/-- What a transition calls back: devices from the first on, each before it is called back after,
    and those called after only when all were called before. -/
def Traced (ds : List PowerDev) (r : Transition) : Prop :=
  ∃ index new k j, r.trace = (ds.take k).flatMap (preEvents index new) ++
      (ds.take j).flatMap (postEvents index new) ∧
    (0 < j → ds.length ≤ k) ∧ (r.answer = .ok → r.trace = [] ∨ ds.length ≤ k ∧ ds.length ≤ j)

theorem traced_nil (e : PvrsrvError) : Traced ds ⟨e, []⟩ :=
  ⟨none, .unspecified, 0, 0, rfl, fun h => absurd h (Nat.lt_irrefl 0), fun _ => .inl rfl⟩

theorem traced_pre {e : PvrsrvError} (he : e ≠ .ok) (o : Hooks) (index : Option ℕ)
    (new : PowerState) (ds : List PowerDev) :
    Traced ds ⟨e, (pvrsrvDevicePrePowerStateKM o index new ds).2⟩ := by
  obtain ⟨k, htrace, -⟩ := pre_pass o index new ds
  exact ⟨index, new, k, 0, htrace.trans (List.append_nil _).symm,
    fun h => absurd h (Nat.lt_irrefl 0), fun hok => absurd hok he⟩

theorem traced_both {e : PvrsrvError}
    (hpre : (pvrsrvDevicePrePowerStateKM o index new ds).1 = .ok)
    (he : e = .ok → (pvrsrvDevicePostPowerStateKM o index new ds).1 = .ok) :
    Traced ds ⟨e, (pvrsrvDevicePrePowerStateKM o index new ds).2 ++
      (pvrsrvDevicePostPowerStateKM o index new ds).2.1⟩ := by
  obtain ⟨k, htrace, hfull⟩ := pre_pass o index new ds
  obtain ⟨i, j, htrace', -, hfull'⟩ := post_pass o index new ds
  refine ⟨index, new, k, i, ?_, fun _ => hfull hpre, fun hok => .inr ⟨hfull hpre, ?_⟩⟩
  · dsimp only
    rw [htrace, htrace']
  · exact (hfull' (he hok)).1

inductive Move where
  | system (o : Hooks) (new : PowerState)
  | device (o : Hooks) (index : ℕ) (new : PowerState)

def transit (s : SysData) : Move → Option (Transition × SysData)
  | .system o new =>
    let r := systemTransition s o new
    some (⟨r.1, r.2.1⟩, r.2.2)
  | .device o index new =>
    let r := pvrsrvSetDevicePowerStateKM s o index new
    some (⟨r.1, r.2.1⟩, r.2.2)

theorem transit_traced {m : Move} {r : Transition} (h : transit s m = some (r, t)) :
    Traced s.psPowerDeviceList r := by
  cases m with
  | system o new =>
    have hr : r = ⟨(systemTransition s o new).1, (systemTransition s o new).2.1⟩ := by
      simpa [transit] using (congrArg (Option.map Prod.fst) h).symm
    rw [hr]
    by_cases htakes : takesDevices s new = true
    · have hpreEq : prePass s o new = pvrsrvDevicePrePowerStateKM o none (devicePowerState new)
          s.psPowerDeviceList := if_pos htakes
      have hpostEq : postPass s o new = pvrsrvDevicePostPowerStateKM o none (devicePowerState new)
          s.psPowerDeviceList := if_pos htakes
      cases systemTransition_cases s o new with
      | inl hfail =>
        rw [hfail.2, hpreEq]
        exact traced_pre hfail.1 o none (devicePowerState new) s.psPowerDeviceList
      | inr hlater =>
        cases hlater with
        | inl hfail =>
          obtain ⟨herror, hpre, hrest⟩ := hfail
          rw [hrest, hpreEq, hpostEq]
          exact traced_both (hpreEq ▸ hpre) fun hok => absurd hok herror
        | inr hwell =>
          obtain ⟨-, hpre, hpost, hrest⟩ := hwell
          rw [hrest, hpreEq, hpostEq]
          exact traced_both (hpreEq ▸ hpre) fun _ => hpostEq ▸ hpost
    · have hpreEq : prePass s o new = (.ok, []) := if_neg htakes
      have hpostEq : postPass s o new = (.ok, [], s.psPowerDeviceList) := if_neg htakes
      have hnil : (systemTransition s o new).2.1 = [] := by
        cases systemTransition_cases s o new with
        | inl hfail => rw [hfail.2, hpreEq]
        | inr hlater =>
          cases hlater with
          | inl hfail =>
            rw [hfail.2.2, hpreEq, hpostEq]
            rfl
          | inr hwell =>
            rw [hwell.2.2.2, hpreEq, hpostEq]
            rfl
      rw [hnil]
      exact traced_nil _
  | device o index new =>
    have hr : r = ⟨(pvrsrvSetDevicePowerStateKM s o index new).1,
        (pvrsrvSetDevicePowerStateKM s o index new).2.1⟩ := by
      simpa [transit] using (congrArg (Option.map Prod.fst) h).symm
    rw [hr]
    unfold pvrsrvSetDevicePowerStateKM
    by_cases hpre : (pvrsrvDevicePrePowerStateKM o (some index) new s.psPowerDeviceList).1 ≠ .ok
    · dsimp only
      rw [if_pos hpre]
      exact traced_pre hpre o (some index) new s.psPowerDeviceList
    · dsimp only
      rw [if_neg hpre]
      exact traced_both (not_not.mp hpre) fun hok => hok

def PowerEvent.addr : PowerEvent → ℕ
  | .pre a _ _ => a
  | .post a _ _ => a

def ofDevice (a : ℕ) (l : List PowerEvent) : List PowerEvent := l.filter fun e => e.addr = a

/-- Each call before is followed by the call after of the same transition. -/
inductive Whole : List PowerEvent → Prop where
  | nil : Whole []
  | pair (a : ℕ) (new current : PowerState) {l : List PowerEvent} (h : Whole l) :
    Whole (.pre a new current :: .post a new current :: l)

/-- Calls before and after take turns, and the last call after may be missing. -/
inductive Alternates : List PowerEvent → Prop where
  | nil : Alternates []
  | half (a : ℕ) (new current : PowerState) : Alternates [.pre a new current]
  | pair (a : ℕ) (new current : PowerState) {l : List PowerEvent} (h : Alternates l) :
    Alternates (.pre a new current :: .post a new current :: l)

theorem Whole.append {l m : List PowerEvent} (hl : Whole l) (hm : Alternates m) :
    Alternates (l ++ m) := by
  induction hl with
  | nil => exact hm
  | pair a new current _ ih => exact .pair a new current ih

theorem Whole.alternates {l : List PowerEvent} (hl : Whole l) : Alternates l :=
  List.append_nil l ▸ hl.append .nil

theorem ofDevice_flatMap_nil {a : ℕ} {f : PowerDev → List PowerEvent}
    (hf : ∀ d, ∀ e ∈ f d, e.addr = d.addr) (hno : ∀ d ∈ ds, d.addr ≠ a) :
    ofDevice a (ds.flatMap f) = [] := by
  unfold ofDevice
  rw [List.filter_eq_nil_iff]
  intro e he
  obtain ⟨d, hd, hed⟩ := List.mem_flatMap.mp he
  rw [hf d e hed]
  simpa using hno d hd

theorem ofDevice_flatMap {f : PowerDev → List PowerEvent}
    (hf : ∀ d, ∀ e ∈ f d, e.addr = d.addr) (hnodup : (ds.map PowerDev.addr).Nodup) (hd : d ∈ ds) :
    ofDevice d.addr (ds.flatMap f) = f d := by
  obtain ⟨before, after, hds⟩ := List.append_of_mem hd
  rw [hds, List.map_append, List.map_cons, List.nodup_middle, List.nodup_cons] at hnodup
  have hother (c : PowerDev) (hc : c ∈ before ++ after) : c.addr ≠ d.addr := fun heq => by
    apply hnodup.1
    rw [← heq, ← List.map_append]
    exact List.mem_map_of_mem hc
  have hmine : ofDevice d.addr (f d) = f d :=
    List.filter_eq_self.mpr fun e he => by simpa using hf d e he
  rw [hds, List.flatMap_append, List.flatMap_cons]
  unfold ofDevice
  rw [List.filter_append, List.filter_append]
  change ofDevice d.addr _ ++ (ofDevice d.addr _ ++ ofDevice d.addr _) = _
  rw [ofDevice_flatMap_nil hf fun c hc => hother c (List.mem_append_left _ hc), hmine,
    ofDevice_flatMap_nil hf fun c hc => hother c (List.mem_append_right _ hc), List.append_nil]
  rfl

theorem preEvents_addr (index : Option ℕ) (new : PowerState) (d : PowerDev) :
    ∀ e ∈ preEvents index new d, e.addr = d.addr := by
  intro e he
  unfold preEvents at he
  split at he
  · rw [List.mem_singleton.mp he]
    rfl
  · cases he

theorem postEvents_addr (index : Option ℕ) (new : PowerState) (d : PowerDev) :
    ∀ e ∈ postEvents index new d, e.addr = d.addr := by
  intro e he
  unfold postEvents at he
  split at he
  · rw [List.mem_singleton.mp he]
    rfl
  · cases he

theorem ofDevice_take {f : PowerDev → List PowerEvent} (hf : ∀ d, ∀ e ∈ f d, e.addr = d.addr)
    (hnodup : (ds.map PowerDev.addr).Nodup) (hd : d ∈ ds) (k : ℕ) :
    ofDevice d.addr ((ds.take k).flatMap f) = if d ∈ ds.take k then f d else [] := by
  by_cases hk : d ∈ ds.take k
  · rw [if_pos hk]
    exact ofDevice_flatMap hf (hnodup.sublist ((List.take_sublist k ds).map _)) hk
  · rw [if_neg hk]
    apply ofDevice_flatMap_nil hf
    intro c hc heq
    have hcd : c = d := List.inj_on_of_nodup_map hnodup (List.mem_of_mem_take hc) hd heq
    exact hk (hcd ▸ hc)

theorem Traced.device {r : Transition} (h : Traced ds r) (hnodup : (ds.map PowerDev.addr).Nodup)
    (hd : d ∈ ds) (hpre : d.pfnPrePower = true) (hpost : d.pfnPostPower = true) :
    Alternates (ofDevice d.addr r.trace) ∧
      (r.answer = .ok → Whole (ofDevice d.addr r.trace)) := by
  obtain ⟨index, new, k, j, htrace, hfirst, hok⟩ := h
  have hmine : ofDevice d.addr r.trace =
      (if d ∈ ds.take k then preEvents index new d else []) ++
        if d ∈ ds.take j then postEvents index new d else [] := by
    rw [htrace, ← ofDevice_take (preEvents_addr index new) hnodup hd,
      ← ofDevice_take (postEvents_addr index new) hnodup hd]
    exact List.filter_append ..
  have hboth : Whole (preEvents index new d ++ postEvents index new d) := by
    unfold preEvents postEvents
    rw [hpre, hpost, Bool.and_true]
    by_cases hch : changes index new d = true
    · rw [if_pos hch, if_pos hch]
      exact .pair _ _ _ .nil
    · rw [if_neg hch, if_neg hch]
      exact .nil
  by_cases hj : d ∈ ds.take j
  · have hpos : 0 < j := by
      rw [Nat.pos_iff_ne_zero]
      intro hzero
      rw [hzero] at hj
      cases hj
    have hk : d ∈ ds.take k := by
      rw [List.take_of_length_le (hfirst hpos)]
      exact hd
    rw [hmine, if_pos hj, if_pos hk]
    exact ⟨hboth.alternates, fun _ => hboth⟩
  · rw [hmine, if_neg hj, List.append_nil]
    refine ⟨?_, fun h => ?_⟩
    · unfold preEvents
      split
      · split
        · exact .half _ _ _
        · exact .nil
      · exact .nil
    · cases hok h with
      | inl hnil =>
        rw [hnil] at hmine
        rw [if_neg hj, List.append_nil] at hmine
        rw [← hmine]
        exact .nil
      | inr hfull =>
        rw [List.take_of_length_le hfull.2] at hj
        exact absurd hd hj

def PowerDev.key (d : PowerDev) : ℕ × Bool × Bool := (d.addr, d.pfnPrePower, d.pfnPostPower)

theorem moved_key (index : Option ℕ) (new : PowerState) (d : PowerDev) :
    (moved index new d).key = d.key := by
  unfold moved
  split
  · rfl
  · rfl

theorem post_keys (o : Hooks) (index : Option ℕ) (new : PowerState) (ds : List PowerDev) :
    (pvrsrvDevicePostPowerStateKM o index new ds).2.2.map PowerDev.key = ds.map PowerDev.key := by
  have hagain := congrArg (List.map PowerDev.key) (post_devices_again o index new ds)
  have hkey : PowerDev.key ∘ moved index new = PowerDev.key := funext (moved_key index new)
  rw [List.map_map, List.map_map, hkey] at hagain
  exact hagain

theorem postPass_keys (s : SysData) (o : Hooks) (new : PowerState) :
    (postPass s o new).2.2.map PowerDev.key = s.psPowerDeviceList.map PowerDev.key := by
  unfold postPass
  split
  · exact post_keys ..
  · rfl

theorem transit_keys {m : Move} {r : Transition} (h : transit s m = some (r, t)) :
    t.psPowerDeviceList.map PowerDev.key = s.psPowerDeviceList.map PowerDev.key := by
  cases m with
  | system o new =>
    have ht : t = (systemTransition s o new).2.2 := by
      simpa [transit] using (congrArg (Option.map Prod.snd) h).symm
    rw [ht]
    cases systemTransition_cases s o new with
    | inl hfail => rw [hfail.2]
    | inr hlater =>
      cases hlater with
      | inl hfail =>
        rw [hfail.2.2]
        exact postPass_keys s o new
      | inr hwell =>
        rw [hwell.2.2.2]
        exact postPass_keys s o new
  | device o index new =>
    have ht : t = (pvrsrvSetDevicePowerStateKM s o index new).2.2 := by
      simpa [transit] using (congrArg (Option.map Prod.snd) h).symm
    rw [ht]
    unfold pvrsrvSetDevicePowerStateKM
    dsimp only
    split
    · rfl
    · exact post_keys ..

abbrev Moves (s : SysData) (l : List (Move × Transition)) (t : SysData) : Prop :=
  Run transit (fun _ _ => True) s l t

def Registered (s : SysData) : Prop := (s.psPowerDeviceList.map PowerDev.addr).Nodup

instance (s : SysData) : Decidable (Registered s) :=
  inferInstanceAs (Decidable (s.psPowerDeviceList.map PowerDev.addr).Nodup)

theorem addr_of_key {ds ds' : List PowerDev} (h : ds'.map PowerDev.key = ds.map PowerDev.key) :
    ds'.map PowerDev.addr = ds.map PowerDev.addr := by
  have hfst := congrArg (List.map Prod.fst) h
  rw [List.map_map, List.map_map] at hfst
  exact hfst

def SysData.callsBack (s : SysData) (a : ℕ) : Prop :=
  (a, true, true) ∈ s.psPowerDeviceList.map PowerDev.key

/-- When transitions but the last succeed the callbacks of a device alternate. -/
theorem alternates_of_moves {a : ℕ} {l : List (Move × Transition)} (hs : Registered s)
    (ha : s.callsBack a) (h : Moves s l t) (hok : ∀ x ∈ l.dropLast, x.2.answer = .ok) :
    Alternates (ofDevice a (l.flatMap fun x => x.2.trace)) := by
  induction l generalizing s with
  | nil => exact .nil
  | cons x rest ih =>
    obtain ⟨op, r⟩ := x
    obtain ⟨u, -, hstep, hrest⟩ := h.first
    obtain ⟨d, hd, hkey⟩ := List.mem_map.mp ha
    unfold PowerDev.key at hkey
    rw [Prod.mk.injEq, Prod.mk.injEq] at hkey
    obtain ⟨haddr, hpre, hpost⟩ := hkey
    obtain ⟨hhalf, hwhole⟩ := (transit_traced hstep).device hs hd hpre hpost
    rw [haddr] at hhalf hwhole
    rw [List.flatMap_cons]
    cases hlist : rest with
    | nil =>
      rw [List.flatMap_nil, List.append_nil]
      exact hhalf
    | cons y rest' =>
      have hkeys := transit_keys hstep
      have hcall : r.answer = .ok := hok (op, r) (by rw [hlist]; exact List.mem_cons_self)
      have hlater := ih (s := u) (by rw [Registered, addr_of_key hkeys]; exact hs)
        (by rw [SysData.callsBack, hkeys]; exact ha) hrest fun y hy =>
          hok y (by rw [hlist] at hy ⊢; exact List.mem_cons_of_mem _ hy)
      rw [← hlist]
      have hall := (hwhole hcall).append hlater
      rw [ofDevice, ofDevice, ← List.filter_append] at hall
      exact hall

def recorded (s : SysData) (new : PowerState) : List PowerDev :=
  if takesDevices s new then s.psPowerDeviceList.map (moved none (devicePowerState new))
  else s.psPowerDeviceList

theorem postPass_devices (hok : (postPass s o new).1 = .ok) :
    (postPass s o new).2.2 = recorded s new := by
  unfold postPass recorded at *
  by_cases htakes : takesDevices s new = true
  · rw [if_pos htakes] at hok ⊢
    rw [if_pos htakes]
    exact post_devices hok
  · rw [if_neg htakes, if_neg htakes]

theorem systemTransition_ok (hok : (systemTransition s o new).1 = .ok) :
    (systemTransition s o new).2.2 = { s with
      psPowerDeviceList := recorded s new
      eCurrentPowerState := new
      eFailedPowerState := .unspecified } := by
  cases systemTransition_cases s o new with
  | inl hfail => exact absurd hok hfail.1
  | inr hlater =>
    cases hlater with
    | inl hfail => exact absurd hok hfail.1
    | inr hwell =>
      obtain ⟨-, -, hpost, hrest⟩ := hwell
      rw [hrest, postPass_devices hpost]

theorem systemTransition_failed (hfail : (systemTransition s o new).1 ≠ .ok) :
    (systemTransition s o new).2.2.eCurrentPowerState = s.eCurrentPowerState ∧
      recorded (systemTransition s o new).2.2 new = recorded s new := by
  cases systemTransition_cases s o new with
  | inl hearly =>
    rw [hearly.2]
    exact ⟨rfl, rfl⟩
  | inr hlater =>
    cases hlater with
    | inl hlate =>
      obtain ⟨-, -, hrest⟩ := hlate
      rw [hrest]
      refine ⟨rfl, ?_⟩
      have hsame : takesDevices { s with psPowerDeviceList := (postPass s o new).2.2
                                         eFailedPowerState := new } new = takesDevices s new := rfl
      unfold recorded
      rw [hsame]
      by_cases htakes : takesDevices s new = true
      · rw [if_pos htakes, if_pos htakes]
        unfold postPass
        rw [if_pos htakes]
        exact post_devices_again ..
      · rw [if_neg htakes, if_neg htakes]
        unfold postPass
        rw [if_neg htakes]
    | inr hwell => exact absurd hwell.1 hfail

theorem Hooks.Succeed.transition (h : o.Succeed) (s : SysData) (new : PowerState) :
    (systemTransition s o new).1 = .ok := by
  have hpre : (prePass s o new).1 = .ok := by
    unfold prePass
    split
    · exact h.pre ..
    · rfl
  have hpost : (postPass s o new).1 = .ok := by
    unfold postPass
    split
    · exact h.post ..
    · rfl
  obtain ⟨-, -, hsys, hsys', -, -⟩ := h
  have hfirst : pvrsrvSystemPrePowerStateKM s o new = (.ok, (prePass s o new).2, s) := by
    unfold pvrsrvSystemPrePowerStateKM
    change (if (prePass s o new).1 ≠ .ok then _ else _) = _
    rw [if_neg (not_not.mpr hpre), if_neg fun hne => hne.2 hsys]
    rfl
  have hsecond : (systemPostPowerState s o new).1 = .ok := by
    unfold systemPostPowerState
    rw [if_neg fun hne => hne.2 hsys']
    change (if (postPass s o new).1 ≠ .ok then _ else _ : PvrsrvError × _ × SysData).1 = _
    rw [if_neg (not_not.mpr hpost)]
  unfold systemTransition
  rw [hfirst]
  dsimp only
  rw [if_neg (not_not.mpr rfl), if_neg (not_not.mpr hsecond)]

theorem callbacks_failed (q : Request) (ns : List DeviceNode) (s : SysData) (e : PowerState) :
    pvrsrvCommandCompleteCallbacks q ns { s with eFailedPowerState := e } =
      ((pvrsrvCommandCompleteCallbacks q ns s).1,
        { (pvrsrvCommandCompleteCallbacks q ns s).2 with eFailedPowerState := e }) := by
  induction ns generalizing s with
  | nil => rfl
  | cons n rest ih =>
    have hone : sgxScheduleProcessQueues { s with eFailedPowerState := e } n
        (q.commandComplete n.addr) =
        ((sgxScheduleProcessQueues s n (q.commandComplete n.addr)).1,
          { (sgxScheduleProcessQueues s n (q.commandComplete n.addr)).2 with
            eFailedPowerState := e }) := by
      cases q.commandComplete n.addr with
      | none => rfl
      | some o =>
        unfold sgxScheduleProcessQueues pvrsrvSetDevicePowerStateKM
        dsimp only
        split
        · rfl
        · rfl
    unfold pvrsrvCommandCompleteCallbacks
    dsimp only
    rw [hone, ih]

theorem systemPre_state (hok : (pvrsrvSystemPrePowerStateKM s o new).1 = .ok) :
    (pvrsrvSystemPrePowerStateKM s o new).2.2 = s := by
  rw [systemPre_eq] at hok ⊢
  split at hok
  · rename_i herror
    exact absurd hok herror
  · rename_i hpass
    split at hok
    · rename_i herror
      exact absurd hok herror.2
    · rename_i hsys
      rw [if_neg hpass, if_neg hsys]

/-- The nodes whose callbacks a request calls, which are none if it does not get to the end. -/
def called (s : SysData) (q : Request) (new : PowerState) : List DeviceNode :=
  if (pvrsrvSystemPrePowerStateKM s q.hooks new).1 ≠ .ok then [] else exitNodes s q new

/-- A request is the transition of the system with those of the callbacks behind it. -/
theorem setPowerState_eq (s : SysData) (q : Request) (new : PowerState) :
    pvrsrvSetPowerStateKM s q new = ((systemTransition s q.hooks new).1,
      (systemTransition s q.hooks new).2.1,
      pvrsrvCommandCompleteCallbacks q (called s q new) (systemTransition s q.hooks new).2.2) := by
  unfold pvrsrvSetPowerStateKM systemTransition called
  dsimp only
  by_cases hpre : (pvrsrvSystemPrePowerStateKM s q.hooks new).1 ≠ .ok
  · rw [if_pos hpre, if_pos hpre, if_pos hpre]
    rfl
  · have hstate : (pvrsrvSystemPrePowerStateKM s q.hooks new).2.2 = s :=
      systemPre_state (not_not.mp hpre)
    rw [if_neg hpre, if_neg hpre, if_neg hpre, hstate]
    unfold pvrsrvSystemPostPowerStateKM
    dsimp only
    by_cases hpost : (systemPostPowerState s q.hooks new).1 ≠ .ok
    · rw [if_pos hpost, if_pos hpost, callbacks_failed q (exitNodes s q new)
        (systemPostPowerState s q.hooks new).2.2 new]
    · rw [if_neg hpost, if_neg hpost, callbacks_failed q (exitNodes s q new)
        (systemPostPowerState s q.hooks new).2.2 .unspecified]

theorem callbacks_moves (q : Request) (ns : List DeviceNode) (s : SysData) :
    ∃ m, Moves s m (pvrsrvCommandCompleteCallbacks q ns s).2 ∧
      m.map Prod.snd = (pvrsrvCommandCompleteCallbacks q ns s).1 := by
  induction ns generalizing s with
  | nil => exact ⟨[], .refl, rfl⟩
  | cons n rest ih =>
    obtain ⟨m, hm, htrace⟩ := ih (sgxScheduleProcessQueues s n (q.commandComplete n.addr)).2
    unfold pvrsrvCommandCompleteCallbacks
    cases hwork : q.commandComplete n.addr with
    | none =>
      rw [hwork] at hm htrace
      exact ⟨m, hm, htrace⟩
    | some o =>
      rw [hwork] at hm htrace
      have hone : Moves s ([] ++ [(.device o n.ui32DeviceIndex .d0, _)])
          (sgxScheduleProcessQueues s n (some o)).2 := .snoc .refl trivial rfl
      refine ⟨_, hone.trans hm, ?_⟩
      rw [List.map_append, htrace]
      rfl

abbrev PowerRun (s : SysData) (l : List (PowerOp × PowerReply)) (t : SysData) : Prop :=
  Run powerStep (fun _ _ => True) s l t

theorem powerStep_moves {op : PowerOp} {r : PowerReply} (h : powerStep s op = some (r, t)) :
    ∃ m, Moves s m t ∧ m.map Prod.snd = r.transitions := by
  cases op with
  | setPowerState q new =>
    rw [powerStep, setPowerState_eq, Option.some.injEq, Prod.mk.injEq] at h
    obtain ⟨m, hm, htrace⟩ := callbacks_moves q (called s q new)
      (systemTransition s q.hooks new).2.2
    have hone : Moves s ([] ++ [(.system q.hooks new, _)]) (systemTransition s q.hooks new).2.2 :=
      .snoc .refl trivial rfl
    rw [← h.1, ← h.2]
    refine ⟨_, hone.trans hm, ?_⟩
    rw [List.map_append, htrace]
    rfl
  | setDevicePowerState o index new =>
    rw [powerStep, Option.some.injEq, Prod.mk.injEq] at h
    rw [← h.1, ← h.2]
    exact ⟨[] ++ [(.device o index new, _)], .snoc .refl trivial rfl, rfl⟩

theorem powerRun_moves (h : PowerRun s l t) :
    ∃ m, Moves s m t ∧ m.map Prod.snd = l.flatMap fun x => x.2.transitions := by
  induction h with
  | refl => exact ⟨[], .refl, rfl⟩
  | @snoc l u t op r run _ hs ih =>
    obtain ⟨m, hm, htrace⟩ := ih
    obtain ⟨m', hm', htrace'⟩ := powerStep_moves hs
    refine ⟨m ++ m', hm.trans hm', ?_⟩
    rw [List.map_append, htrace, htrace', List.flatMap_append, List.flatMap_singleton]

/-- The same device, which may have been powered up by a transition of its own. -/
def PoweredIn (P : ℕ → Prop) (d d' : PowerDev) : Prop :=
  d' = d ∨ (P d.ui32DeviceIndex ∧ d' = { d with eCurrentPowerState := .d0 })

theorem poweredIn_refl (P : ℕ → Prop) (ds : List PowerDev) : List.Forall₂ (PoweredIn P) ds ds :=
  List.forall₂_same.mpr fun _ _ => .inl rfl

theorem poweredIn_trans {P : ℕ → Prop} {ds ds' ds'' : List PowerDev}
    (h : List.Forall₂ (PoweredIn P) ds ds') (h' : List.Forall₂ (PoweredIn P) ds' ds'') :
    List.Forall₂ (PoweredIn P) ds ds'' := by
  induction h generalizing ds'' with
  | nil => exact h'
  | @cons d d' ds ds' hd _ ih =>
    obtain ⟨d'', rest, hd', hrest, rfl⟩ := List.forall₂_cons_left_iff.mp h'
    refine .cons ?_ (ih hrest)
    cases hd' with
    | inl hsame => exact hsame ▸ hd
    | inr hup =>
      cases hd with
      | inl hsame => exact .inr (hsame ▸ hup)
      | inr hup' =>
        refine .inr ⟨hup'.1, ?_⟩
        rw [hup.2, hup'.2]

theorem schedule_devices (n : DeviceNode) (g : Option Hooks) :
    List.Forall₂ (PoweredIn fun i => n.ui32DeviceIndex = i ∧ g.isSome) s.psPowerDeviceList
      (sgxScheduleProcessQueues s n g).2.psPowerDeviceList := by
  cases g with
  | none => exact poweredIn_refl _ _
  | some o =>
    unfold sgxScheduleProcessQueues pvrsrvSetDevicePowerStateKM
    dsimp only
    split
    · exact poweredIn_refl _ _
    · obtain ⟨k, j, -, hdevices, -⟩ :=
        post_pass o (some n.ui32DeviceIndex) .d0 s.psPowerDeviceList
      dsimp only
      rw [hdevices]
      nth_rewrite 1 [← List.take_append_drop j s.psPowerDeviceList]
      refine List.rel_append ?_ (poweredIn_refl _ _)
      rw [List.forall₂_map_right_iff, List.forall₂_same]
      intro d _
      unfold moved
      split
      · rename_i hsel
        have hindex : n.ui32DeviceIndex = d.ui32DeviceIndex := by simpa [selects] using hsel
        exact .inr ⟨⟨hindex, rfl⟩, rfl⟩
      · exact .inl rfl

def Works (q : Request) (ns : List DeviceNode) (i : ℕ) : Prop :=
  ∃ n ∈ ns, n.ui32DeviceIndex = i ∧ (q.commandComplete n.addr).isSome

theorem callbacks_devices (q : Request) (ns : List DeviceNode) (s : SysData) :
    List.Forall₂ (PoweredIn (Works q ns)) s.psPowerDeviceList
      (pvrsrvCommandCompleteCallbacks q ns s).2.psPowerDeviceList := by
  induction ns generalizing s with
  | nil => exact poweredIn_refl _ _
  | cons n rest ih =>
    have hfirst := schedule_devices (s := s) n (q.commandComplete n.addr)
    have hrest := ih (sgxScheduleProcessQueues s n (q.commandComplete n.addr)).2
    refine poweredIn_trans (hfirst.imp ?_) (hrest.imp ?_)
    · exact fun d d' hd => hd.imp_right fun hup =>
        ⟨⟨n, List.mem_cons_self, hup.1⟩, hup.2⟩
    · rintro d d' hd
      refine hd.imp_right fun hup => ⟨?_, hup.2⟩
      obtain ⟨c, hc, hworks⟩ := hup.1
      exact ⟨c, List.mem_cons_of_mem n hc, hworks⟩

theorem callbacks_rest (q : Request) (ns : List DeviceNode) (s : SysData) :
    (pvrsrvCommandCompleteCallbacks q ns s).2 =
      { s with psPowerDeviceList :=
          (pvrsrvCommandCompleteCallbacks q ns s).2.psPowerDeviceList } := by
  induction ns generalizing s with
  | nil => rfl
  | cons n rest ih =>
    have hone : (sgxScheduleProcessQueues s n (q.commandComplete n.addr)).2 = { s with
        psPowerDeviceList :=
          (sgxScheduleProcessQueues s n (q.commandComplete n.addr)).2.psPowerDeviceList } := by
      cases q.commandComplete n.addr with
      | none => rfl
      | some o =>
        unfold sgxScheduleProcessQueues pvrsrvSetDevicePowerStateKM
        dsimp only
        split
        · rfl
        · rfl
    unfold pvrsrvCommandCompleteCallbacks
    dsimp only
    rw [ih, hone]

/-- What a request asks of a device. -/
def asked (s : SysData) (new : PowerState) (d : PowerDev) : PowerState :=
  if takesDevices s new then newDevicePowerState (devicePowerState new) d
  else d.eCurrentPowerState

/-- The recorded states of a request that has succeeded: each device is in the state it was asked
    for, or in `D0` where the system is powered and its command-complete callback has work. -/
structure Done (s : SysData) (q : Request) (new : PowerState) (t : SysData) : Prop where
  system : t.eCurrentPowerState = new
  devices : List.Forall₂ (fun d d' => d' = { d with eCurrentPowerState := asked s new d } ∨
    (Works q (exitNodes s q new) d.ui32DeviceIndex ∧ d' = { d with eCurrentPowerState := .d0 }))
      s.psPowerDeviceList t.psPowerDeviceList

theorem recorded_eq (s : SysData) (new : PowerState) : recorded s new =
    s.psPowerDeviceList.map fun d => { d with eCurrentPowerState := asked s new d } := by
  unfold recorded asked
  split
  · rfl
  · exact (List.map_id' s.psPowerDeviceList).symm

theorem called_works {i : ℕ} (h : Works q (called s q new) i) : Works q (exitNodes s q new) i := by
  unfold called at h
  split at h
  · obtain ⟨n, hn, -⟩ := h
    cases hn
  · exact h

theorem done_of_ok (hok : (pvrsrvSetPowerStateKM s q new).1 = .ok) :
    Done s q new (pvrsrvSetPowerStateKM s q new).2.2.2 := by
  rw [setPowerState_eq] at hok ⊢
  have hsystem := systemTransition_ok hok
  have hdevices := callbacks_devices q (called s q new) (systemTransition s q.hooks new).2.2
  dsimp only
  rw [hsystem] at hdevices ⊢
  constructor
  · rw [callbacks_rest]
  · dsimp only at hdevices
    rw [recorded_eq, List.forall₂_map_left_iff] at hdevices
    rw [recorded_eq]
    refine hdevices.imp fun d d' hd => ?_
    exact hd.imp id fun hup => ⟨called_works hup.1, hup.2⟩

/-- Of a request that failed nothing is left but in the states of devices, which a request that
    takes the devices asks for anew. -/
theorem failed_state (hfail : (pvrsrvSetPowerStateKM s q new).1 ≠ .ok) :
    (pvrsrvSetPowerStateKM s q new).2.2.2.eCurrentPowerState = s.eCurrentPowerState ∧
      (pvrsrvSetPowerStateKM s q new).2.2.2.psDeviceNodeList = s.psDeviceNodeList ∧
      (takesDevices s new = true →
        recorded (pvrsrvSetPowerStateKM s q new).2.2.2 new = recorded s new) := by
  rw [setPowerState_eq] at hfail ⊢
  obtain ⟨hsystem, hsame⟩ := systemTransition_failed hfail
  have hnodes : (systemTransition s q.hooks new).2.2.psDeviceNodeList = s.psDeviceNodeList := by
    cases systemTransition_cases s q.hooks new with
    | inl hearly => rw [hearly.2]
    | inr hlater => exact hlater.elim (fun h => by rw [h.2.2]) fun h => by rw [h.2.2.2]
  have hdevices := callbacks_devices q (called s q new) (systemTransition s q.hooks new).2.2
  have hrest := callbacks_rest q (called s q new) (systemTransition s q.hooks new).2.2
  dsimp only
  refine ⟨by rw [hrest]; exact hsystem, by rw [hrest]; exact hnodes, fun htakes => ?_⟩
  rw [← hsame]
  have htakes' : takesDevices (systemTransition s q.hooks new).2.2 new = true := by
    unfold takesDevices
    rw [hsystem]
    exact htakes
  have htakes'' : takesDevices (pvrsrvCommandCompleteCallbacks q (called s q new)
      (systemTransition s q.hooks new).2.2).2 new = true := by
    rw [hrest]
    exact htakes'
  unfold recorded
  rw [if_pos htakes', if_pos htakes'']
  have hmoved : List.Forall₂ (fun d d' => moved none (devicePowerState new) d =
      moved none (devicePowerState new) d') (systemTransition s q.hooks new).2.2.psPowerDeviceList
        (pvrsrvCommandCompleteCallbacks q (called s q new)
          (systemTransition s q.hooks new).2.2).2.psPowerDeviceList := by
    refine hdevices.imp fun d d' hd => ?_
    cases hd with
    | inl heq => rw [heq]
    | inr hup =>
      rw [hup.2]
      rfl
  rw [← List.forall₂_map_right_iff, ← List.forall₂_map_left_iff, List.forall₂_eq_eq_eq] at hmoved
  exact hmoved.symm

theorem Hooks.Succeed.exits (h : q.hooks.Succeed) (s : SysData) (new : PowerState) :
    called s q new = exitNodes s q new := by
  have hok : (pvrsrvSystemPrePowerStateKM s q.hooks new).1 = .ok := by
    have hpass := h.transition s new
    unfold systemTransition at hpass
    by_contra hpre
    rw [if_pos hpre] at hpass
    exact hpre hpass
  exact if_neg (not_not.mpr hok)

/-- In every run a request that succeeds records what was asked for, the callbacks of a device
    alternate as long as no transition but the last fails, and the request that failed succeeds when
    it is repeated and nothing fails, with the states of a request that did not fail before where it
    takes the devices. -/
theorem power_transitions_over_runs {s₀ : SysData} (hs₀ : Registered s₀) (h : PowerRun s₀ l s) :
    (∀ q new r t, powerStep s (.setPowerState q new) = some (r, t) → r.answer = .ok →
      Done s q new t) ∧
    (∀ l₁ l₂ l₃, (l.flatMap fun x => x.2.transitions) = l₁ ++ l₂ ++ l₃ →
      (∀ x ∈ l₂.dropLast, x.answer = .ok) → ∀ d ∈ s₀.psPowerDeviceList, d.pfnPrePower = true →
      d.pfnPostPower = true → Alternates (ofDevice d.addr (l₂.flatMap Transition.trace))) ∧
    (∀ q new r t, powerStep s (.setPowerState q new) = some (r, t) → r.answer ≠ .ok →
      ∀ q' : Request, q'.hooks.Succeed → ∃ r' u,
        powerStep t (.setPowerState q' new) = some (r', u) ∧ r'.answer = .ok ∧ Done t q' new u ∧
        (takesDevices s new = true → ∃ r'', powerStep s (.setPowerState q' new) = some (r'', u))) := by
  refine ⟨?_, ?_, ?_⟩
  · intro q new r t hstep hok
    rw [powerStep, Option.some.injEq, Prod.mk.injEq] at hstep
    rw [← hstep.1] at hok
    rw [← hstep.2]
    exact done_of_ok hok
  · intro l₁ l₂ l₃ hl hok d hd hpre hpost
    obtain ⟨m, hm, htrace⟩ := powerRun_moves h
    rw [hl] at htrace
    obtain ⟨m₁₂, m₃, rfl, h₁₂, -⟩ := List.map_eq_append_iff.mp htrace
    obtain ⟨m₁, m₂, rfl, -, h₂⟩ := List.map_eq_append_iff.mp h₁₂
    obtain ⟨v, hfront, -⟩ := hm.split
    obtain ⟨u, hbefore, hmid⟩ := hfront.split
    have hkeys : u.psPowerDeviceList.map PowerDev.key = s₀.psPowerDeviceList.map PowerDev.key := by
      apply hbefore.invariant fun x =>
        x.psPowerDeviceList.map PowerDev.key = s₀.psPowerDeviceList.map PowerDev.key
      case h₀ => rfl
      case hstep => exact fun x op r y hx _ hxy => (transit_keys hxy).trans hx
    have hthere : u.callsBack d.addr := by
      rw [SysData.callsBack, hkeys]
      refine List.mem_map.mpr ⟨d, hd, ?_⟩
      rw [PowerDev.key, hpre, hpost]
    rw [← h₂] at hok ⊢
    rw [List.flatMap_map]
    refine alternates_of_moves (by rw [Registered, addr_of_key hkeys]; exact hs₀) hthere hmid ?_
    intro x hx
    apply hok
    rw [← List.map_dropLast]
    exact List.mem_map_of_mem hx
  · intro q new r t hstep hfail q' hq'
    rw [powerStep, Option.some.injEq, Prod.mk.injEq] at hstep
    rw [← hstep.1] at hfail
    obtain ⟨hsystem, hnodes, hsame⟩ := failed_state hfail
    rw [hstep.2] at hsystem hnodes hsame
    have hok (x : SysData) : (pvrsrvSetPowerStateKM x q' new).1 = .ok := by
      rw [setPowerState_eq]
      exact hq'.transition x new
    refine ⟨_, _, rfl, hok t, done_of_ok (hok t), fun htakes => ?_⟩
    have hstart : (systemTransition t q'.hooks new).2.2 = (systemTransition s q'.hooks new).2.2 := by
      rw [systemTransition_ok (hq'.transition t new), systemTransition_ok (hq'.transition s new),
        hsame htakes, hnodes]
    have hexit : exitNodes t q' new = exitNodes s q' new := by
      unfold exitNodes
      rw [hnodes]
    have hend : (pvrsrvSetPowerStateKM t q' new).2.2.2 = (pvrsrvSetPowerStateKM s q' new).2.2.2 := by
      rw [setPowerState_eq, setPowerState_eq, hstart, hq'.exits, hq'.exits, hexit]
    rw [hend]
    exact ⟨_, rfl⟩

def allOk : Hooks := ⟨fun _ => .ok, fun _ => .ok, .ok, .ok, fun _ => .ok, fun _ => .ok⟩

def sampleDevices : SysData where
  psPowerDeviceList := [⟨4096, true, true, 0, .d0, .d3⟩, ⟨8192, true, true, 1, .d3, .d3⟩]
  psDeviceNodeList := [⟨64, 1⟩]
  eCurrentPowerState := .d3
  eFailedPowerState := .unspecified

/-- The second device has work when the system has been powered up. -/
def sampleOps : List PowerOp :=
  [.setPowerState ⟨{ allOk with pfnPostPower := fun _ => .errorGeneric }, true, fun _ => none⟩ .d0,
    .setPowerState ⟨allOk, true, fun _ => some allOk⟩ .d0]

theorem power_transitions_over_sample : ∃ l s, PowerRun sampleDevices l s ∧
    (∀ q new r t, powerStep s (.setPowerState q new) = some (r, t) → r.answer = .ok →
      Done s q new t) ∧
    (∀ d ∈ sampleDevices.psPowerDeviceList, d.pfnPrePower = true → d.pfnPostPower = true →
      Alternates (ofDevice d.addr ((l.flatMap fun x => x.2.transitions).drop 1
        |>.flatMap Transition.trace))) ∧
    s.eCurrentPowerState = .d0 ∧ s.psPowerDeviceList.map PowerDev.eCurrentPowerState = [.d0, .d0] := by
  have hsome : (exec powerStep sampleDevices sampleOps).map (fun r =>
      (r.2.eCurrentPowerState, r.2.psPowerDeviceList.map PowerDev.eCurrentPowerState,
        (r.1.flatMap fun x => x.2.transitions).map Transition.answer)) =
      some (.d0, [.d0, .d0], [.errorGeneric, .ok, .ok]) := by decide
  obtain ⟨⟨l, s⟩, hexec, hlook⟩ := Option.map_eq_some_iff.mp hsome
  have hrun : PowerRun sampleDevices l s := .of_exec hexec fun _ _ _ => trivial
  have hreg : Registered sampleDevices := by decide
  obtain ⟨hdone, hturns, -⟩ := power_transitions_over_runs hreg hrun
  rw [Prod.mk.injEq, Prod.mk.injEq] at hlook
  obtain ⟨hsystem, hdevices, hanswers⟩ := hlook
  refine ⟨l, s, hrun, hdone, fun d hd hpre hpost => ?_, hsystem, hdevices⟩
  refine hturns ((l.flatMap fun x => x.2.transitions).take 1) _ [] ?_ ?_ d hd hpre hpost
  · rw [List.append_nil, List.take_append_drop]
  · intro x hx
    have hlater : x.answer ∈ _ := List.mem_map_of_mem (List.dropLast_subset _ hx)
    rw [List.map_drop, hanswers] at hlater
    simpa using hlater

/-- The second device is off when the request for `D0` has succeeded, and a device is called back
    twice before a transition that another one made fail. -/
theorem device_left_and_called_twice :
    (¬∀ s q new r t, Registered s → powerStep s (.setPowerState q new) = some (r, t) →
      r.answer = .ok → ∀ d ∈ t.psPowerDeviceList, d.eCurrentPowerState = new) ∧
    ¬∀ s l t, Registered s → PowerRun s l t → ∀ d ∈ s.psPowerDeviceList,
      d.pfnPrePower = true → d.pfnPostPower = true → Alternates (ofDevice d.addr
        ((l.flatMap fun x => x.2.transitions).flatMap Transition.trace)) := by
  have hreg : Registered sampleDevices := by decide
  refine ⟨fun hclaim => ?_, fun hclaim => ?_⟩
  · have hstate := hclaim sampleDevices ⟨allOk, false, fun _ => none⟩ .d0 _ _ hreg rfl (by decide)
      ⟨8192, true, true, 1, .d3, .d3⟩ (by decide)
    cases hstate
  · let fails : Hooks := { allOk with pfnPrePower := fun a => if a = 8192 then .errorGeneric else .ok }
    let s : SysData := ⟨[⟨4096, true, true, 0, .d0, .d0⟩, ⟨8192, true, true, 1, .d0, .d0⟩], [], .d0,
      .unspecified⟩
    have htrace : (exec powerStep s [.setPowerState ⟨fails, true, fun _ => none⟩ .d3,
        .setPowerState ⟨allOk, true, fun _ => none⟩ .d3]).map (fun r =>
          ofDevice 4096 ((r.1.flatMap fun x => x.2.transitions).flatMap Transition.trace)) =
        some [.pre 4096 .d3 .d0, .pre 4096 .d3 .d0, .post 4096 .d3 .d0] := by decide
    obtain ⟨⟨l, t⟩, hexec, hlook⟩ := Option.map_eq_some_iff.mp htrace
    have hturns := hclaim s l t (by decide) (.of_exec hexec fun _ _ _ => trivial)
      ⟨4096, true, true, 0, .d0, .d0⟩ (by decide) rfl rfl
    dsimp only at hlook hturns
    rw [hlook] at hturns
    cases hturns

end PvrServices.Power
