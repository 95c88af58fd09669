import PvrServices.DisplayClassBase
import PvrServices.KeyedList

set_option autoImplicit false

/-!
# Devices open and closed over runs

Contexts open and close devices and end. As long as every first open finds the module of its
driver, a device counts the infos that are live and holds its resources while there is one.
-/
namespace PvrServices.DisplayClass
open KeyedList Resman Runs Words

structure Opened where
  per : ℕ
  context : ℕ
  device : ℕ
  registered : Bool
deriving DecidableEq, Repr

variable {s s' : DisplayState} {x x' : DisplaySys} {reg : Registry} {opens opens' : List Opened}
  {c d m p y : ℕ} {i : DisplayClassInfo} {o : Opened} {call : OpenCall} {op : DisplayOp}
  {r : DisplayReply}

def Opened.registration (o : Opened) : Registration :=
  ⟨o.context, .displayclassDevice, o.per, 0, pfnCloseDCDeviceCallBack⟩

def opensOf (opens : List Opened) (d : ℕ) : ℕ := opens.countP fun o => o.device = d

/-- The opens that are live. An open whose registration found no memory outlives its process. -/
def record (opens : List Opened) : DisplayOp × DisplayReply → List Opened
  | (.openDevice c call, .opened (.ok m)) =>
    ⟨m, c, call.ui32DeviceID, call.resItem.isSome⟩ :: opens
  | (.close m, _) => dropKey Opened.per opens m
  | (.exit c, _) => opens.filter fun o => !(o.context = c && o.registered)
  | _ => opens

/-- Memory that is handed out is not in use, contexts are used while they are connected, and only
    infos that there are are closed. -/
def proper (x : DisplaySys) : DisplayOp → Bool
  | .connect _ mem => mem.all fun c => (x.res.contexts c).isNone
  | .openDevice c call => (x.res.contexts c).isSome &&
    (call.perContext.all fun m => (x.dc.perContext m).isNone && 0 < m && m < 4294967296) &&
    (call.syncInfo.toOption.all fun y => !x.dc.syncInfos y) &&
    call.resItem.all fun p => (x.res.items p).isNone
  | .close m => (x.dc.perContext m).isSome
  | .exit c => (x.res.contexts c).isSome

def available (x : DisplaySys) : DisplayOp → Bool
  | .openDevice _ call => call.moduleGot || !call.phDeviceKM || call.hDevCookie.isNone ||
    call.perContext.isNone || !(x.dc.dcInfos call.ui32DeviceID).any fun i => i.ui32RefCount = 0
  | _ => true

structure Held (s : DisplayState) (reg : Registry) (opens : List Opened) : Prop where
  live : ∀ m, (s.perContext m).isSome = true → ∃ o ∈ opens, o.per = m
  held : ∀ o ∈ opens, ∃ item, s.perContext o.per = some ⟨some o.device, item⟩ ∧
    (s.dcInfos o.device).isSome = true ∧ item.isSome = o.registered ∧
    ∀ p, item = some p → reg p = some o.registration
  registered : ∀ p g, reg p = some g → ∃ o ∈ opens, g = o.registration ∧
    s.perContext o.per = some ⟨some o.device, some p⟩
  nodup : (opens.map Opened.per).Nodup
  placed : ∀ m, (s.perContext m).isSome = true → 0 < m ∧ m < 4294967296

/-- Every device counts its opens, and holds its resources while there are some; the sync infos
    that are live are those of the devices that are open. -/
structure Counted (s : DisplayState) (opens : List Opened) : Prop where
  count : ∀ d i, s.dcInfos d = some i → i.ui32RefCount = opensOf opens d
  idle : ∀ d, opensOf opens d = 0 → s.moduleRefs d = 0 ∧ s.extOpens d = 0
  busy : ∀ d i, s.dcInfos d = some i → 0 < opensOf opens d →
    s.moduleRefs d = 1 ∧ s.extOpens d = 1 ∧ i.hExtDevice.isSome = true ∧
      ∃ y, i.psKernelSyncInfo = some y ∧ s.syncInfos y = true
  syncs : ∀ y, s.syncInfos y = true →
    ∃ d i, s.dcInfos d = some i ∧ 0 < opensOf opens d ∧ i.psKernelSyncInfo = some y
  apart : ∀ d e i j y, s.dcInfos d = some i → s.dcInfos e = some j → 0 < opensOf opens d →
    0 < opensOf opens e → i.psKernelSyncInfo = some y → j.psKernelSyncInfo = some y → d = e

structure Good (x : DisplaySys) (reg : Registry) (opens : List Opened) : Prop where
  tracks : Tracks x.res reg
  held : Held x.dc reg opens
  counted : Counted x.dc opens

theorem opensOf_cons (o : Opened) (opens : List Opened) (d : ℕ) :
    opensOf (o :: opens) d = opensOf opens d + if o.device = d then 1 else 0 := by
  simp [opensOf, List.countP_cons]

theorem opensOf_drop (hnodup : (opens.map Opened.per).Nodup) (ho : o ∈ opens) (d : ℕ) :
    opensOf opens d = opensOf (dropKey Opened.per opens o.per) d + if o.device = d then 1 else 0 := by
  have hcount := countP_dropKey hnodup ho fun o => o.device = d
  simp only [decide_eq_true_eq] at hcount
  exact hcount

theorem Held.length (h : Held s reg opens) (hm : s.perContext m = none) (hpos : 0 < m)
    (hlt : m < 4294967296) : opens.length + 1 < 4294967296 := by
  have haddr (o : Opened) (ho : o ∈ opens) : (s.perContext o.per).isSome = true := by
    obtain ⟨item, hper, -⟩ := h.held o ho
    rw [hper]
    rfl
  have hnew : m ∉ opens.map Opened.per := fun hmem => by
    obtain ⟨o, ho, hom⟩ := List.mem_map.mp hmem
    have hsome := haddr o ho
    rw [hom, hm] at hsome
    cases hsome
  have hlen := length_lt_of_addresses (List.nodup_cons.mpr ⟨hnew, h.nodup⟩) fun n hn => by
    cases List.mem_cons.mp hn with
    | inl hn => exact hn ▸ ⟨hpos, hlt⟩
    | inr hn =>
      obtain ⟨o, ho, hon⟩ := List.mem_map.mp hn
      exact hon ▸ h.placed _ (haddr o ho)
  simpa using hlen

theorem opensOf_lt (h : opens.length < 4294967296) (d : ℕ) : opensOf opens d < 4294967296 :=
  Nat.lt_of_le_of_lt List.countP_le_length h

theorem Counted.recount (hc : Counted s opens) (hi : s.dcInfos d = some i)
    (hbusy : 0 < opensOf opens d) (hbusy' : 0 < opensOf opens' d)
    (hother : ∀ e, e ≠ d → opensOf opens' e = opensOf opens e)
    (hinfos : s'.dcInfos = Function.update s.dcInfos d
      (some { i with ui32RefCount := opensOf opens' d }))
    (hmod : s'.moduleRefs = s.moduleRefs) (hext : s'.extOpens = s.extOpens)
    (hsync : s'.syncInfos = s.syncInfos) : Counted s' opens' := by
  have hopen (e : ℕ) : 0 < opensOf opens' e ↔ 0 < opensOf opens e := by
    by_cases hed : e = d
    · rw [hed]
      exact iff_of_true hbusy' hbusy
    · rw [hother e hed]
  have hback (e : ℕ) (j : DisplayClassInfo) (he : s'.dcInfos e = some j) : ∃ k,
      s.dcInfos e = some k ∧ j = { k with ui32RefCount := opensOf opens' e } := by
    rw [hinfos] at he
    by_cases hed : e = d
    · rw [hed, Function.update_self, Option.some.injEq] at he
      rw [hed]
      exact ⟨i, hi, he.symm⟩
    · rw [Function.update_of_ne hed] at he
      rw [hother e hed, ← hc.count e j he]
      exact ⟨j, he, rfl⟩
  constructor
  case count =>
    intro e j he
    obtain ⟨k, -, hj⟩ := hback e j he
    rw [hj]
  case idle =>
    intro e he
    have hzero : opensOf opens e = 0 := by
      have := hopen e
      omega
    rw [hmod, hext]
    exact hc.idle e hzero
  case busy =>
    intro e j he hpos
    obtain ⟨k, hk, hj⟩ := hback e j he
    rw [hmod, hext, hsync, hj]
    exact hc.busy e k hk ((hopen e).mp hpos)
  case syncs =>
    intro z hz
    rw [hsync] at hz
    obtain ⟨e, k, hk, hpos, hkz⟩ := hc.syncs z hz
    by_cases hed : e = d
    · rw [hed, hi, Option.some.injEq] at hk
      refine ⟨d, { i with ui32RefCount := opensOf opens' d }, ?_, hbusy', ?_⟩
      · rw [hinfos]
        exact Function.update_self ..
      · rw [← hk] at hkz
        exact hkz
    · refine ⟨e, k, ?_, (hopen e).mpr hpos, hkz⟩
      rw [hinfos, Function.update_of_ne hed]
      exact hk
  case apart =>
    intro e f j k z he hf hepos hfpos hj hk
    obtain ⟨j₀, hj₀, hjj⟩ := hback e j he
    obtain ⟨k₀, hk₀, hkk⟩ := hback f k hf
    rw [hjj] at hj
    rw [hkk] at hk
    exact hc.apart e f j₀ k₀ z hj₀ hk₀ ((hopen e).mp hepos) ((hopen f).mp hfpos) hj hk

/-- The callback ends an open, and the last one of its device gives back what the first took. -/
theorem Counted.close (hc : Counted s opens) (hh : Held s reg opens) (ho : o ∈ opens) :
    ∃ s', closeDCDeviceCallBack s o.per = some s' ∧
      Counted s' (dropKey Opened.per opens o.per) ∧
      s'.perContext = Function.update s.perContext o.per none ∧
      ∀ d, (s'.dcInfos d).isSome = (s.dcInfos d).isSome := by
  obtain ⟨item, hper, hdev, -⟩ := hh.held o ho
  obtain ⟨i, hi⟩ := Option.isSome_iff_exists.mp hdev
  have hcount := hc.count o.device i hi
  have hdrop := opensOf_drop hh.nodup ho
  have hmine := hdrop o.device
  rw [if_pos rfl] at hmine
  have hother (d : ℕ) (hd : d ≠ o.device) :
      opensOf (dropKey Opened.per opens o.per) d = opensOf opens d := by
    have hd' := hdrop d
    rw [if_neg (Ne.symm hd)] at hd'
    exact hd'.symm
  have hpos : 0 < opensOf opens o.device := by omega
  have hsub : u32Sub i.ui32RefCount 1 = opensOf (dropKey Opened.per opens o.per) o.device := by
    rw [u32Sub_of_le (by omega)]
    omega
  let j : DisplayClassInfo := { i with ui32RefCount := u32Sub i.ui32RefCount 1 }
  by_cases hlast : opensOf (dropKey Opened.per opens o.per) o.device = 0
  · obtain ⟨hmod, hext, -, y, hy, hlive⟩ := hc.busy o.device i hi hpos
    let k : DisplayClassInfo := { j with hDevMemContext := none, hExtDevice := none }
    let s' : DisplayState := ⟨Function.update s.dcInfos o.device (some k),
      Function.update s.moduleRefs o.device 0, Function.update s.extOpens o.device 0,
      Function.update s.perContext o.per none, Function.update s.syncInfos y false⟩
    have hstep : closeDCDeviceCallBack s o.per = some s' := by
      simp [closeDCDeviceCallBack, hper, hi, hsub, hlast, pfnCloseDCDevice, DisplayState.setInfo, hext,
        pvrsrvFreeSyncInfoKM, hy, hlive, modulePut, hmod, DisplayState.freePer, s', k, j]
    have hinfo (d : ℕ) (hd : d ≠ o.device) : s'.dcInfos d = s.dcInfos d :=
      Function.update_of_ne hd ..
    have hself : s'.dcInfos o.device = some k := Function.update_self ..
    have hne (d : ℕ) (hd : 0 < opensOf (dropKey Opened.per opens o.per) d) : d ≠ o.device := by
      intro hde
      rw [hde, hlast] at hd
      exact Nat.lt_irrefl 0 hd
    -- a live sync info of another device is another one
    have hapart (d : ℕ) (i' : DisplayClassInfo) (hd : d ≠ o.device) (hi' : s.dcInfos d = some i')
        (hdpos : 0 < opensOf opens d) (z : ℕ) (hz : i'.psKernelSyncInfo = some z) : z ≠ y :=
      fun hzy => hd (hc.apart d o.device i' i y hi' hi hdpos hpos (hzy ▸ hz) hy)
    refine ⟨s', hstep, ?_, rfl, ?_⟩
    · constructor
      case count =>
        intro d i' hd
        by_cases hde : d = o.device
        · rw [hde, hself, Option.some.injEq] at hd
          rw [hde, ← hd]
          exact hsub
        · rw [hinfo d hde] at hd
          rw [hother d hde]
          exact hc.count d i' hd
      case idle =>
        intro d hd
        by_cases hde : d = o.device
        · rw [hde]
          exact ⟨Function.update_self .., Function.update_self ..⟩
        · rw [hother d hde] at hd
          have hidle := hc.idle d hd
          exact ⟨(Function.update_of_ne hde ..).trans hidle.1,
            (Function.update_of_ne hde ..).trans hidle.2⟩
      case busy =>
        intro d i' hd hdpos
        have hde := hne d hdpos
        rw [hinfo d hde] at hd
        rw [hother d hde] at hdpos
        obtain ⟨hmod', hext', hsome, z, hz, hzlive⟩ := hc.busy d i' hd hdpos
        have hzy := hapart d i' hde hd hdpos z hz
        exact ⟨(Function.update_of_ne hde ..).trans hmod',
          (Function.update_of_ne hde ..).trans hext', hsome, z, hz,
          (Function.update_of_ne hzy ..).trans hzlive⟩
      case syncs =>
        intro z hz
        have hzy : z ≠ y := fun hzy => by
          rw [hzy] at hz
          simp [s'] at hz
        have hz' : s.syncInfos z = true := by simpa [s', hzy] using hz
        obtain ⟨d, i', hd, hdpos, hdz⟩ := hc.syncs z hz'
        have hde : d ≠ o.device := fun hde => by
          rw [hde, hi, Option.some.injEq] at hd
          rw [← hd, hy, Option.some.injEq] at hdz
          exact hzy hdz.symm
        exact ⟨d, i', (hinfo d hde).trans hd, by rw [hother d hde]; exact hdpos, hdz⟩
      case apart =>
        intro d e i' j' z hd he hdpos hepos hdz hez
        have hde := hne d hdpos
        have hee := hne e hepos
        rw [hinfo d hde] at hd
        rw [hinfo e hee] at he
        rw [hother d hde] at hdpos
        rw [hother e hee] at hepos
        exact hc.apart d e i' j' z hd he hdpos hepos hdz hez
    · intro d
      by_cases hde : d = o.device
      · rw [hde, hself, hi]
        rfl
      · rw [hinfo d hde]
  · let s' : DisplayState := { s with
      dcInfos := Function.update s.dcInfos o.device (some j)
      perContext := Function.update s.perContext o.per none }
    have hstep : closeDCDeviceCallBack s o.per = some s' := by
      simp [closeDCDeviceCallBack, hper, hi, hsub, hlast, DisplayState.setInfo,
        DisplayState.freePer, s', j]
    have hinfo (d : ℕ) (hd : d ≠ o.device) : s'.dcInfos d = s.dcInfos d :=
      Function.update_of_ne hd ..
    have hself : s'.dcInfos o.device = some j := Function.update_self ..
    refine ⟨s', hstep, hc.recount hi hpos (by omega) hother ?_ rfl rfl rfl, rfl, ?_⟩
    · simp [s', j, hsub]
    · intro d
      by_cases hde : d = o.device
      · rw [hde, hself, hi]
        rfl
      · rw [hinfo d hde]

theorem Held.close (hh : Held s reg opens) (ho : o ∈ opens) (hp : reg p = some o.registration)
    (hper : s'.perContext = Function.update s.perContext o.per none)
    (hinfos : ∀ d, (s'.dcInfos d).isSome = (s.dcInfos d).isSome) :
    Held s' (Function.update reg p none) (dropKey Opened.per opens o.per) := by
  have hself : s'.perContext o.per = none := by
    rw [hper]
    exact Function.update_self ..
  have hother (m : ℕ) (hm : m ≠ o.per) : s'.perContext m = s.perContext m := by
    rw [hper]
    exact Function.update_of_ne hm ..
  have hback (m : ℕ) (hm : (s'.perContext m).isSome = true) :
      m ≠ o.per ∧ (s.perContext m).isSome = true := by
    have hne : m ≠ o.per := fun hmo => by
      rw [hmo, hself] at hm
      cases hm
    rw [hother m hne] at hm
    exact ⟨hne, hm⟩
  constructor
  case live =>
    intro m hm
    obtain ⟨hne, hold⟩ := hback m hm
    obtain ⟨v, hv, hvm⟩ := hh.live m hold
    exact ⟨v, mem_dropKey.mpr ⟨hv, hvm ▸ hne⟩, hvm⟩
  case held =>
    intro v hv
    obtain ⟨hvin, hne⟩ := mem_dropKey.mp hv
    obtain ⟨item, hitem, hdev, hreg, hall⟩ := hh.held v hvin
    refine ⟨item, (hother v.per hne).trans hitem, by rw [hinfos]; exact hdev, hreg, ?_⟩
    intro q hq
    have hregq := hall q hq
    have hqp : q ≠ p := fun hqp => by
      rw [hqp, hp, Option.some.injEq] at hregq
      exact hne (congrArg Registration.pvParam hregq).symm
    rw [Function.update_of_ne hqp]
    exact hregq
  case registered =>
    intro q g hq
    have hqp : q ≠ p := fun hqp => by
      rw [hqp, Function.update_self] at hq
      cases hq
    rw [Function.update_of_ne hqp] at hq
    obtain ⟨v, hv, hvg, hvp⟩ := hh.registered q g hq
    have hne : v.per ≠ o.per := fun hvo => by
      have hvo' : v = o := List.inj_on_of_nodup_map hh.nodup hv ho hvo
      obtain ⟨w, hw, hwo, hwp⟩ := hh.registered p _ hp
      have hwper : w.per = o.per := congrArg Registration.pvParam hwo.symm
      have hwo' : w = o := List.inj_on_of_nodup_map hh.nodup hw ho hwper
      rw [hwo'] at hwp
      rw [hvo', hwp, Option.some.injEq, PerContextInfo.mk.injEq] at hvp
      exact hqp (Option.some.inj hvp.2).symm
    exact ⟨v, mem_dropKey.mpr ⟨hv, hne⟩, hvg, (hother v.per hne).trans hvp⟩
  case nodup => exact dropKey_nodup hh.nodup _
  case placed => exact fun m hm => hh.placed m (hback m hm).2

theorem Held.callBack (hh : Held s reg opens) (hc : Counted s opens) (ho : o ∈ opens)
    (hp : reg p = some o.registration) : ∃ s',
      displayCallBack (o.registration.call p) s = some s' ∧
      Held s' (Function.update reg p none) (dropKey Opened.per opens o.per) ∧
      Counted s' (dropKey Opened.per opens o.per) := by
  obtain ⟨s', hs', hcounted, hper, hinfos⟩ := hc.close hh ho
  exact ⟨s', hs', hh.close ho hp hper hinfos, hcounted⟩

theorem Good.close (h : Good x reg opens) (hstep : pvrsrvCloseDCDeviceKM x m = some x') :
    ∃ reg', Good x' reg' (dropKey Opened.per opens m) := by
  cases hper : x.dc.perContext m with
  | none => simp [pvrsrvCloseDCDeviceKM, hper] at hstep
  | some per =>
    cases hitem : per.hResItem with
    | none => simp [pvrsrvCloseDCDeviceKM, hper, hitem] at hstep
    | some p =>
      obtain ⟨o, ho, hom⟩ := h.held.live m (by rw [hper]; rfl)
      obtain ⟨item, hitem', -, -, hall⟩ := h.held.held o ho
      rw [hom, hper, Option.some.injEq] at hitem'
      rw [hitem'] at hitem hper
      have hsome : item = some p := hitem
      have hp := hall p hsome
      obtain ⟨s', hcall, hheld, hcounted⟩ := h.held.callBack h.counted ho hp
      obtain ⟨res, hfree, htracks⟩ := h.tracks.freeHosted hp hcall
      have hx' : x' = ⟨res, s'⟩ := by
        simp [pvrsrvCloseDCDeviceKM, hper, hsome, hfree] at hstep
        exact hstep.symm
      rw [hx', ← hom]
      exact ⟨_, htracks, hheld, hcounted⟩

/-- At the end of a process its opens that are registered are closed. -/
theorem Good.exit (h : Good x reg opens) (hc : (x.res.contexts c).isSome = true) :
    ∃ x' reg', displayDisconnect x c = some x' ∧
      Good x' reg' (opens.filter fun o => !(o.context = c && o.registered)) := by
  have htypes (p : ℕ) (g : Registration) (hp : reg p = some g) (_ : g.context = c) :
      g.resType ≠ .sharedMemInfo := by
    obtain ⟨o, -, ho, -⟩ := h.held.registered p g hp
    rw [ho]
    exact ResmanType.noConfusion
  let stays (o : Opened) : Bool := !(o.context = c && o.registered)
  obtain ⟨res, dc, hs', htracks, left, hheld, hcounted, hleft⟩ := h.tracks.disconnectHosted hc htypes
    (fun r s => ∃ left, Held s r left ∧ Counted s left ∧ left.filter stays = opens.filter stays)
    ⟨opens, h.held, h.counted, rfl⟩ fun r p g s hI hp hgc _ => by
      obtain ⟨left, hheld, hcounted, hleft⟩ := hI
      obtain ⟨o, ho, hog, hper⟩ := hheld.registered p g hp
      rw [hog] at hp hgc ⊢
      obtain ⟨s', hcall, hheld', hcounted'⟩ := hheld.callBack hcounted ho hp
      refine ⟨s', hcall, _, hheld', hcounted', ?_⟩
      rw [← hleft, dropKey, List.filter_filter]
      apply List.filter_congr
      intro v hv
      by_cases hvo : v.per = o.per
      · have hveq : v = o := List.inj_on_of_nodup_map hheld.nodup hv ho hvo
        obtain ⟨item, hitem, -, hreg, -⟩ := hheld.held o ho
        rw [hper, Option.some.injEq, PerContextInfo.mk.injEq] at hitem
        rw [← hitem.2] at hreg
        have hregistered : o.registered = true := hreg.symm
        have hgc' : o.context = c := hgc
        simp [stays, hveq, hgc', hregistered]
      · simp [hvo]
  have hgone (o : Opened) (ho : o ∈ left) : stays o = true := by
    obtain ⟨item, -, -, hreg, hall⟩ := hheld.held o ho
    cases hitem : item with
    | none =>
      rw [hitem] at hreg
      have hnot : o.registered = false := hreg.symm
      simp [stays, hnot]
    | some p =>
      have hp := hall p hitem
      simp only [Option.filter_eq_some_iff, decide_eq_true_eq] at hp
      have hne : o.context ≠ c := hp.2
      simp [stays, hne]
  have hall : left = opens.filter stays := by
    rw [← hleft, List.filter_eq_self.mpr hgone]
  refine ⟨⟨res, dc⟩, _, by simp [displayDisconnect, hs'], htracks, ?_, ?_⟩
  · rw [← hall]
    exact hheld
  · rw [← hall]
    exact hcounted

structure Unchanged (s s' : DisplayState) : Prop where
  count : ∀ d, (s'.dcInfos d).map DisplayClassInfo.ui32RefCount =
    (s.dcInfos d).map DisplayClassInfo.ui32RefCount
  moduleRefs : s'.moduleRefs = s.moduleRefs
  extOpens : s'.extOpens = s.extOpens
  syncInfos : s'.syncInfos = s.syncInfos
  perContext : s'.perContext = s.perContext

theorem Unchanged.refl (s : DisplayState) : Unchanged s s := ⟨fun _ => rfl, rfl, rfl, rfl, rfl⟩

theorem Unchanged.isSome (h : Unchanged s s') (d : ℕ) :
    (s'.dcInfos d).isSome = (s.dcInfos d).isSome := by
  have hsome := congrArg Option.isSome (h.count d)
  rwa [Option.isSome_map, Option.isSome_map] at hsome

theorem Unchanged.held (h : Unchanged s s') (hh : Held s reg opens) : Held s' reg opens where
  live := h.perContext ▸ hh.live
  held := by
    intro o ho
    rw [h.perContext, h.isSome]
    exact hh.held o ho
  registered := h.perContext ▸ hh.registered
  nodup := hh.nodup
  placed := h.perContext ▸ hh.placed

/-- An open that fails may have written to the info of an idle device. -/
theorem Unchanged.counted (h : Unchanged s s') (hc : Counted s opens)
    (hidle : opensOf opens d = 0) (hother : ∀ e, e ≠ d → s'.dcInfos e = s.dcInfos e) :
    Counted s' opens := by
  have hne (e : ℕ) (he : 0 < opensOf opens e) : s'.dcInfos e = s.dcInfos e :=
    hother e fun hed => by
      rw [hed, hidle] at he
      exact Nat.lt_irrefl 0 he
  constructor
  case count =>
    intro e j he
    have hmap := h.count e
    rw [he] at hmap
    cases hold : s.dcInfos e with
    | none =>
      rw [hold] at hmap
      cases hmap
    | some i =>
      rw [hold] at hmap
      exact (Option.some.inj hmap).trans (hc.count e i hold)
  case idle =>
    rw [h.moduleRefs, h.extOpens]
    exact hc.idle
  case busy =>
    intro e j he hpos
    rw [hne e hpos] at he
    rw [h.moduleRefs, h.extOpens, h.syncInfos]
    exact hc.busy e j he hpos
  case syncs =>
    intro z hz
    rw [h.syncInfos] at hz
    obtain ⟨e, j, he, hpos, hj⟩ := hc.syncs z hz
    exact ⟨e, j, (hne e hpos).trans he, hpos, hj⟩
  case apart =>
    intro e f j k z he hf hepos hfpos hj hk
    rw [hne e hepos] at he
    rw [hne f hfpos] at hf
    exact hc.apart e f j k z he hf hepos hfpos hj hk

theorem Held.opened (hh : Held s reg opens) {reg' : Registry} {item : Option ℕ}
    (hper : s'.perContext = Function.update s.perContext m (some ⟨some d, item⟩))
    (hinfos : ∀ d, (s'.dcInfos d).isSome = (s.dcInfos d).isSome)
    (hd : (s.dcInfos d).isSome = true) (hm : s.perContext m = none)
    (hpos : 0 < m ∧ m < 4294967296) (ho : o = ⟨m, c, d, item.isSome⟩)
    (hmine : ∀ p, item = some p → reg' p = some o.registration ∧ reg p = none)
    (hothers : ∀ p, item ≠ some p → reg' p = reg p) :
    Held s' reg' (o :: opens) := by
  have hself : s'.perContext m = some ⟨some d, item⟩ := by
    rw [hper]
    exact Function.update_self ..
  have hother (n : ℕ) (hn : n ≠ m) : s'.perContext n = s.perContext n := by
    rw [hper]
    exact Function.update_of_ne hn ..
  have hne (v : Opened) (hv : v ∈ opens) : v.per ≠ m := fun hvm => by
    obtain ⟨j, hj, -⟩ := hh.held v hv
    rw [hvm, hm] at hj
    cases hj
  constructor
  case live =>
    intro n hn
    by_cases hnm : n = m
    · exact ⟨o, List.mem_cons_self, by rw [ho, hnm]⟩
    · rw [hother n hnm] at hn
      obtain ⟨v, hv, hvn⟩ := hh.live n hn
      exact ⟨v, List.mem_cons_of_mem o hv, hvn⟩
  case held =>
    intro v hv
    cases List.mem_cons.mp hv with
    | inl hv =>
      rw [hv, ho]
      refine ⟨item, hself, by rw [hinfos]; exact hd, rfl, fun p hp => ?_⟩
      rw [(hmine p hp).1, ho]
    | inr hv =>
      obtain ⟨j, hj, hdev, hregd, hall⟩ := hh.held v hv
      refine ⟨j, (hother v.per (hne v hv)).trans hj, by rw [hinfos]; exact hdev, hregd, ?_⟩
      intro p hp
      have hold := hall p hp
      have hnot : item ≠ some p := fun hip => by
        rw [(hmine p hip).2] at hold
        cases hold
      rw [hothers p hnot]
      exact hold
  case registered =>
    intro p g hp
    by_cases hip : item = some p
    · rw [(hmine p hip).1, Option.some.injEq] at hp
      refine ⟨o, List.mem_cons_self, hp.symm, ?_⟩
      rw [ho, ← hip]
      exact hself
    · rw [hothers p hip] at hp
      obtain ⟨v, hv, hvg, hvp⟩ := hh.registered p g hp
      exact ⟨v, List.mem_cons_of_mem o hv, hvg, (hother v.per (hne v hv)).trans hvp⟩
  case nodup =>
    rw [List.map_cons, List.nodup_cons]
    refine ⟨fun hmem => ?_, hh.nodup⟩
    obtain ⟨v, hv, hvo⟩ := List.mem_map.mp hmem
    rw [ho] at hvo
    exact hne v hv hvo
  case placed =>
    intro n hn
    by_cases hnm : n = m
    · exact hnm ▸ hpos
    · rw [hother n hnm] at hn
      exact hh.placed n hn

theorem Counted.again (hc : Counted s opens) (hi : s.dcInfos d = some i)
    (hbusy : 0 < opensOf opens d) (ho : o.device = d)
    (hinfos : s'.dcInfos = Function.update s.dcInfos d
      (some { i with ui32RefCount := opensOf opens d + 1 }))
    (hmod : s'.moduleRefs = s.moduleRefs) (hext : s'.extOpens = s.extOpens)
    (hsync : s'.syncInfos = s.syncInfos) : Counted s' (o :: opens) := by
  have hmine : opensOf (o :: opens) d = opensOf opens d + 1 := by rw [opensOf_cons, if_pos ho]
  apply hc.recount hi hbusy (by omega) ?_ (by rw [hinfos, hmine]) hmod hext hsync
  intro e he
  rw [opensOf_cons, ho, if_neg (Ne.symm he), Nat.add_zero]

theorem Counted.first (hc : Counted s opens) (hidle : opensOf opens d = 0) (ho : o.device = d)
    (hy : s.syncInfos y = false) {j : DisplayClassInfo} (hcount : j.ui32RefCount = 1)
    (hjy : j.psKernelSyncInfo = some y) (hjext : j.hExtDevice.isSome = true)
    (hinfos : s'.dcInfos = Function.update s.dcInfos d (some j))
    (hmod : s'.moduleRefs = Function.update s.moduleRefs d (s.moduleRefs d + 1))
    (hext : s'.extOpens = Function.update s.extOpens d (s.extOpens d + 1))
    (hsync : s'.syncInfos = Function.update s.syncInfos y true) : Counted s' (o :: opens) := by
  have hmine : opensOf (o :: opens) d = 1 := by
    rw [opensOf_cons, if_pos ho, hidle]
  have hother (e : ℕ) (he : e ≠ d) : opensOf (o :: opens) e = opensOf opens e := by
    rw [opensOf_cons, ho, if_neg (Ne.symm he), Nat.add_zero]
  have hself : s'.dcInfos d = some j := by
    rw [hinfos]
    exact Function.update_self ..
  have hinfo (e : ℕ) (he : e ≠ d) : s'.dcInfos e = s.dcInfos e := by
    rw [hinfos]
    exact Function.update_of_ne he ..
  have hne (e : ℕ) (k : DisplayClassInfo) (z : ℕ) (hk : s.dcInfos e = some k)
      (hpos : 0 < opensOf opens e) (hz : k.psKernelSyncInfo = some z) : z ≠ y := fun hzy => by
    obtain ⟨-, -, -, w, hw, hlive⟩ := hc.busy e k hk hpos
    rw [hz, Option.some.injEq] at hw
    rw [← hw, hzy, hy] at hlive
    cases hlive
  constructor
  case count =>
    intro e k he
    by_cases hed : e = d
    · rw [hed, hself, Option.some.injEq] at he
      rw [hed, hmine, ← he, hcount]
    · rw [hinfo e hed] at he
      rw [hother e hed]
      exact hc.count e k he
  case idle =>
    intro e he
    have hed : e ≠ d := fun hed => by
      rw [hed, hmine] at he
      cases he
    rw [hother e hed] at he
    rw [hmod, hext, Function.update_of_ne hed, Function.update_of_ne hed]
    exact hc.idle e he
  case busy =>
    intro e k he hpos
    by_cases hed : e = d
    · rw [hed, hself, Option.some.injEq] at he
      obtain ⟨hm, hx⟩ := hc.idle d hidle
      rw [hed, hmod, hext, hsync, Function.update_self, Function.update_self, hm, hx, ← he]
      exact ⟨rfl, rfl, hjext, y, hjy, Function.update_self ..⟩
    · rw [hinfo e hed] at he
      rw [hother e hed] at hpos
      obtain ⟨hm, hx, hsome, z, hz, hlive⟩ := hc.busy e k he hpos
      rw [hmod, hext, hsync, Function.update_of_ne hed, Function.update_of_ne hed]
      refine ⟨hm, hx, hsome, z, hz, ?_⟩
      rw [Function.update_of_ne (hne e k z he hpos hz)]
      exact hlive
  case syncs =>
    intro z hz
    rw [hsync] at hz
    by_cases hzy : z = y
    · exact ⟨d, j, hself, by rw [hmine]; exact Nat.zero_lt_one, hzy ▸ hjy⟩
    · rw [Function.update_of_ne hzy] at hz
      obtain ⟨e, k, hk, hpos, hkz⟩ := hc.syncs z hz
      have hed : e ≠ d := fun hed => by
        rw [hed, hidle] at hpos
        exact Nat.lt_irrefl 0 hpos
      exact ⟨e, k, (hinfo e hed).trans hk, by rw [hother e hed]; exact hpos, hkz⟩
  case apart =>
    intro e f k k' z he hf hepos hfpos hk hk'
    by_cases hed : e = d
    · by_cases hfd : f = d
      · rw [hed, hfd]
      · rw [hed, hself, Option.some.injEq] at he
        rw [← he, hjy, Option.some.injEq] at hk
        rw [hinfo f hfd] at hf
        rw [hother f hfd] at hfpos
        exact absurd hk.symm (hne f k' z hf hfpos hk')
    · rw [hinfo e hed] at he
      rw [hother e hed] at hepos
      by_cases hfd : f = d
      · rw [hfd, hself, Option.some.injEq] at hf
        rw [← hf, hjy, Option.some.injEq] at hk'
        exact absurd hk'.symm (hne e k z he hepos hk)
      · rw [hinfo f hfd] at hf
        rw [hother f hfd] at hfpos
        exact hc.apart e f k k' z he hf hepos hfpos hk hk'

/-- The first open gets its resources, or fails and gives back what it got. -/
theorem acquireDevice_got (hgot : call.moduleGot = true) (hi : i.ui32RefCount = 1)
    (hy : ∀ y, call.syncInfo = .ok y → s.syncInfos y = false)
    (cookie : ℕ) :
    (∃ e s', acquireDevice s call cookie d i = some (.error e, s') ∧
      s'.dcInfos = Function.update s.dcInfos d (s'.dcInfos d) ∧
      (s'.dcInfos d).map DisplayClassInfo.ui32RefCount = some 0 ∧
      s'.moduleRefs = s.moduleRefs ∧ s'.extOpens = s.extOpens ∧ s'.syncInfos = s.syncInfos ∧
      s'.perContext = s.perContext) ∨
    ∃ y j s', acquireDevice s call cookie d i = some (.ok (), s') ∧ s.syncInfos y = false ∧
      j.ui32RefCount = 1 ∧ j.psKernelSyncInfo = some y ∧ j.hExtDevice.isSome = true ∧
      s'.dcInfos = Function.update s.dcInfos d (some j) ∧
      s'.moduleRefs = Function.update s.moduleRefs d (s.moduleRefs d + 1) ∧
      s'.extOpens = Function.update s.extOpens d (s.extOpens d + 1) ∧
      s'.syncInfos = Function.update s.syncInfos y true ∧ s'.perContext = s.perContext := by
  have hback : u32Sub i.ui32RefCount 1 = 0 := by rw [hi, u32Sub_of_le (Nat.le_refl 1)]
  cases hsync : call.syncInfo with
  | error e =>
    left
    let j : DisplayClassInfo := { i with hDevMemContext := some cookie, ui32RefCount := 0 }
    refine ⟨e, { s with dcInfos := Function.update s.dcInfos d (some j) }, ?_, ?_, ?_, rfl, rfl,
      rfl, rfl⟩
    · simp [acquireDevice, hgot, hsync, tryModuleGet, modulePut, DisplayState.setInfo, hback,
        j]
    · simp
    · simp [j]
  | ok y =>
    have hfree := hy y hsync
    cases hext : call.extDevice with
    | error e =>
      left
      let j : DisplayClassInfo := ⟨0, some cookie, some y, i.hExtDevice⟩
      refine ⟨e, { s with dcInfos := Function.update s.dcInfos d (some j) }, ?_, ?_, ?_, rfl, rfl,
        rfl, rfl⟩
      · have hsyncs : Function.update s.syncInfos y false = s.syncInfos := by
          rw [← hfree, Function.update_eq_self]
        simp [acquireDevice, hgot, hsync, hext, tryModuleGet, modulePut, pvrsrvFreeSyncInfoKM,
          DisplayState.setInfo, hback, hsyncs, j]
      · simp
      · simp [j]
    | ok hExt =>
      right
      let j : DisplayClassInfo := ⟨1, some cookie, some y, some hExt⟩
      refine ⟨y, j, ⟨Function.update s.dcInfos d (some j),
        Function.update s.moduleRefs d (s.moduleRefs d + 1),
        Function.update s.extOpens d (s.extOpens d + 1), s.perContext,
        Function.update s.syncInfos y true⟩, ?_, hfree, rfl, rfl, rfl, rfl, rfl, rfl, rfl, rfl⟩
      simp [acquireDevice, hgot, hsync, hext, tryModuleGet, openExternal, DisplayState.setInfo, hi, j]

def DisplayState.counted (s : DisplayState) (m d : ℕ) (i : DisplayClassInfo) : DisplayState :=
  (s.setPer m ⟨none, none⟩).setInfo d { i with ui32RefCount := u32 (i.ui32RefCount + 1) }

theorem open_eq {cookie : ℕ} (hcookie : call.hDevCookie = some cookie)
    (hout : call.phDeviceKM = true) (hi : x.dc.dcInfos call.ui32DeviceID = some i)
    (hm : call.perContext = some m) : pvrsrvOpenDCDeviceKM x c call =
      (if i.ui32RefCount = 0 then acquireDevice (x.dc.counted m call.ui32DeviceID i) call cookie
          call.ui32DeviceID { i with ui32RefCount := u32 (i.ui32RefCount + 1) }
        else some (.ok (), x.dc.counted m call.ui32DeviceID i)).bind (finishOpen x c m call) := by
  simp only [pvrsrvOpenDCDeviceKM, hcookie, hout, hi, hm]
  rfl

theorem finishOpen_error (e : PvrsrvError) (hm : x.dc.perContext m = none) (hper : s.perContext =
    Function.update x.dc.perContext m (some ⟨none, none⟩)) : finishOpen x c m call (.error e, s) =
      some (.error e, { x with dc := { s with perContext := x.dc.perContext } }) := by
  have hback : Function.update x.dc.perContext m none = x.dc.perContext := by
    rw [← hm, Function.update_eq_self]
  simp [finishOpen, DisplayState.freePer, hper, hback]

/-- An open that gets through has a new info, which is registered if there was memory for that. -/
theorem Good.finishOpen_ok (h : Good x reg opens) (hop : proper x (.openDevice c call) = true)
    (hm : call.perContext = some m) (hd : (x.dc.dcInfos call.ui32DeviceID).isSome = true)
    (hinfos : ∀ e, (s.dcInfos e).isSome = (x.dc.dcInfos e).isSome)
    (hper : s.perContext = Function.update x.dc.perContext m (some ⟨none, none⟩))
    (hcounted : ∀ per, Counted { s with perContext := per }
      (⟨m, c, call.ui32DeviceID, call.resItem.isSome⟩ :: opens)) : ∃ x' reg',
    finishOpen x c m call (.ok (), s) = some (.ok m, x') ∧
      Good x' reg' (⟨m, c, call.ui32DeviceID, call.resItem.isSome⟩ :: opens) := by
  simp only [proper, hm, Bool.and_eq_true, Option.all_some, decide_eq_true_eq,
    Option.isNone_iff_eq_none] at hop
  obtain ⟨⟨⟨hc, ⟨hfree, hpos⟩, hlt⟩, -⟩, hres⟩ := hop
  let o : Opened := ⟨m, c, call.ui32DeviceID, call.resItem.isSome⟩
  let s' : DisplayState := s.setPer m ⟨some call.ui32DeviceID, call.resItem⟩
  have hper' : s'.perContext =
      Function.update x.dc.perContext m (some ⟨some call.ui32DeviceID, call.resItem⟩) := by
    simp [s', DisplayState.setPer, hper]
  have hstart (reg' : Registry) (res : ResList) (hreg : resManRegisterRes x.res c
      .displayclassDevice m 0 pfnCloseDCDeviceCallBack call.resItem = some (call.resItem, res))
      (htracks : Tracks res reg')
      (hmine : ∀ p, call.resItem = some p → reg' p = some o.registration ∧ reg p = none)
      (hothers : ∀ p, call.resItem ≠ some p → reg' p = reg p) : ∃ x' reg',
      finishOpen x c m call (.ok (), s) = some (.ok m, x') ∧ Good x' reg' (o :: opens) := by
    have hstep : finishOpen x c m call (.ok (), s) = some (.ok m, ⟨res, s'⟩) := by
      simp [finishOpen, hreg, s']
    exact ⟨⟨res, s'⟩, reg', hstep, htracks,
      h.held.opened hper' hinfos hd hfree ⟨hpos, hlt⟩ rfl hmine hothers, hcounted _⟩
  change ∃ x' reg', finishOpen x c m call (.ok (), s) = some (.ok m, x') ∧ Good x' reg' (o :: opens)
  cases hitem : call.resItem with
  | none =>
    rw [hitem] at hstart
    exact hstart reg x.res rfl h.tracks (by simp) (by simp)
  | some p =>
    have hp : x.res.items p = none := by simpa [hitem] using hres
    obtain ⟨res, hreg, htracks⟩ := h.tracks.register (g := o.registration) hc hp
    rw [hitem] at hstart
    refine hstart _ res hreg htracks (fun q hq => ?_) (fun q hq => ?_)
    · rw [← Option.some.inj hq]
      exact ⟨Function.update_self .., h.tracks.fresh hp⟩
    · exact Function.update_of_ne (fun hqp => hq (by rw [hqp])) ..

def Settled (x : DisplaySys) (opens : List Opened) (c : ℕ) (call : OpenCall)
    (r : Except PvrsrvError ℕ) (x' : DisplaySys) : Prop :=
  if available x (.openDevice c call) then
    (∃ reg, Good x' reg (record opens (.openDevice c call, .opened r))) ∧
      ∀ e, r = .error e → Unchanged x.dc x'.dc
  else r = .error .errorInvalidDevice ∧ opensOf opens call.ui32DeviceID = 0 ∧
    (x'.dc.dcInfos call.ui32DeviceID).map DisplayClassInfo.ui32RefCount = some 1

theorem Good.open_device (h : Good x reg opens) (hop : proper x (.openDevice c call) = true)
    {cookie : ℕ} (hcookie : call.hDevCookie = some cookie) (hout : call.phDeviceKM = true)
    (hi : x.dc.dcInfos call.ui32DeviceID = some i) (hm : call.perContext = some m) :
    ∃ r x', pvrsrvOpenDCDeviceKM x c call = some (r, x') ∧ Settled x opens c call r x' := by
  have hfresh := hop
  simp only [proper, hm, Bool.and_eq_true, Option.all_some, decide_eq_true_eq,
    Option.isNone_iff_eq_none] at hfresh
  obtain ⟨⟨⟨-, ⟨hfree, hpos⟩, hlt⟩, hsyncs⟩, -⟩ := hfresh
  have hcount := h.counted.count _ i hi
  have hlen := h.held.length hfree hpos hlt
  have hopens := opensOf_lt (Nat.lt_of_succ_lt hlen) call.ui32DeviceID
  have hplus : u32 (i.ui32RefCount + 1) = opensOf opens call.ui32DeviceID + 1 := by
    rw [hcount, u32_of_lt]
    have hle : opensOf opens call.ui32DeviceID ≤ opens.length := List.countP_le_length
    omega
  let s := x.dc.counted m call.ui32DeviceID i
  have hper : s.perContext = Function.update x.dc.perContext m (some ⟨none, none⟩) := rfl
  have hinfos (e : ℕ) : (s.dcInfos e).isSome = (x.dc.dcInfos e).isSome := by
    by_cases he : e = call.ui32DeviceID
    · simp [s, DisplayState.counted, DisplayState.setInfo, he, hi]
    · simp [s, DisplayState.counted, DisplayState.setInfo, DisplayState.setPer, he]
  rw [open_eq hcookie hout hi hm]
  by_cases hfirst : i.ui32RefCount = 0
  · have hidle : opensOf opens call.ui32DeviceID = 0 := hcount.symm.trans hfirst
    have hpath : available x (.openDevice c call) = call.moduleGot := by
      simp [available, hout, hcookie, hm, hi, hfirst]
    rw [if_pos hfirst]
    cases hgot : call.moduleGot with
    | false =>
      have hacquire : acquireDevice s call cookie call.ui32DeviceID
          { i with ui32RefCount := u32 (i.ui32RefCount + 1) } =
          some (.error .errorInvalidDevice, s) := by
        simp [acquireDevice, hgot]
      rw [hacquire, Option.bind_some, finishOpen_error _ hfree hper]
      refine ⟨_, _, rfl, ?_⟩
      rw [Settled, hpath, hgot, if_neg Bool.false_ne_true]
      refine ⟨rfl, hidle, ?_⟩
      simp [s, DisplayState.counted, DisplayState.setInfo, hplus, hidle]
    | true =>
      have hone : u32 (i.ui32RefCount + 1) = 1 := by rw [hplus, hidle]
      have hsync (y : ℕ) (hy : call.syncInfo = .ok y) : s.syncInfos y = false := by
        have hlive : x.dc.syncInfos y = false := by simpa [hy, Except.toOption] using hsyncs
        exact hlive
      cases acquireDevice_got (i := { i with ui32RefCount := u32 (i.ui32RefCount + 1) }) hgot hone
        hsync cookie with
      | inl hfail =>
        obtain ⟨e, s', hacquire, hothers, hzero, hmod, hext, hlive, hpers⟩ := hfail
        rw [hacquire, Option.bind_some, finishOpen_error _ hfree (hpers.trans hper)]
        refine ⟨_, _, rfl, ?_⟩
        rw [Settled, hpath, hgot, if_pos rfl]
        have hother (e : ℕ) (he : e ≠ call.ui32DeviceID) : s'.dcInfos e = x.dc.dcInfos e := by
          rw [hothers, Function.update_of_ne he]
          exact Function.update_of_ne he ..
        have hunchanged : Unchanged x.dc { s' with perContext := x.dc.perContext } := by
          refine ⟨fun e => ?_, hmod, hext, hlive, rfl⟩
          by_cases he : e = call.ui32DeviceID
          · rw [he, hzero, hi, Option.map_some, hfirst]
          · rw [hother e he]
        exact ⟨⟨reg, h.tracks, hunchanged.held h.held, hunchanged.counted h.counted hidle hother⟩,
          fun _ _ => hunchanged⟩
      | inr hdone =>
        obtain ⟨y, j, s', hacquire, hy, hj, hjy, hjext, hset, hmod, hext, hlive, hpers⟩ := hdone
        rw [hacquire, Option.bind_some]
        have hset' : s'.dcInfos = Function.update x.dc.dcInfos call.ui32DeviceID (some j) := by
          rw [hset]
          exact Function.update_idem ..
        have hinfos' (e : ℕ) : (s'.dcInfos e).isSome = (x.dc.dcInfos e).isSome := by
          by_cases he : e = call.ui32DeviceID
          · rw [he, hset', Function.update_self, hi]
            rfl
          · rw [hset', Function.update_of_ne he]
        obtain ⟨x', reg', hx', hgood⟩ := h.finishOpen_ok hop hm (by rw [hi]; rfl) hinfos'
          (hpers.trans hper) fun _ => h.counted.first hidle rfl hy hj hjy hjext hset' hmod hext hlive
        refine ⟨_, x', hx', ?_⟩
        rw [Settled, hpath, hgot, if_pos rfl]
        exact ⟨⟨reg', hgood⟩, fun _ he => by cases he⟩
  · have hpath : available x (.openDevice c call) = true := by
      simp [available, hi, hfirst]
    have hset : s.dcInfos = Function.update x.dc.dcInfos call.ui32DeviceID
        (some { i with ui32RefCount := opensOf opens call.ui32DeviceID + 1 }) := by
      simp [s, DisplayState.counted, DisplayState.setInfo, DisplayState.setPer, hplus]
    rw [if_neg hfirst, Option.bind_some]
    obtain ⟨x', reg', hx', hgood⟩ := h.finishOpen_ok hop hm (by rw [hi]; rfl) hinfos hper
      fun _ => h.counted.again hi (by omega) rfl hset rfl rfl rfl
    refine ⟨_, x', hx', ?_⟩
    rw [Settled, hpath, if_pos rfl]
    exact ⟨⟨reg', hgood⟩, fun _ he => by cases he⟩

theorem Good.open (h : Good x reg opens) (hop : proper x (.openDevice c call) = true) :
    ∃ r x', pvrsrvOpenDCDeviceKM x c call = some (r, x') ∧ Settled x opens c call r x' := by
  have hsame (e : PvrsrvError) (hpath : available x (.openDevice c call) = true)
      (hstep : pvrsrvOpenDCDeviceKM x c call = some (.error e, x)) :
      ∃ r x', pvrsrvOpenDCDeviceKM x c call = some (r, x') ∧ Settled x opens c call r x' := by
    refine ⟨.error e, x, hstep, ?_⟩
    rw [Settled, if_pos hpath]
    exact ⟨⟨reg, h⟩, fun _ _ => .refl x.dc⟩
  cases hcookie : call.hDevCookie with
  | none =>
    exact hsame .errorGeneric (by simp [available, hcookie]) (by simp [pvrsrvOpenDCDeviceKM, hcookie])
  | some cookie =>
    cases hout : call.phDeviceKM with
    | false =>
      exact hsame .errorGeneric (by simp [available, hout])
        (by simp [pvrsrvOpenDCDeviceKM, hcookie, hout])
    | true =>
      cases hi : x.dc.dcInfos call.ui32DeviceID with
      | none =>
        exact hsame .errorGeneric (by simp [available, hi])
          (by simp [pvrsrvOpenDCDeviceKM, hcookie, hout, hi])
      | some i =>
        cases hm : call.perContext with
        | none =>
          exact hsame .errorOutOfMemory (by simp [available, hm])
            (by simp [pvrsrvOpenDCDeviceKM, hcookie, hout, hi, hm])
        | some m => exact h.open_device hop hcookie hout hi hm

/-- The live infos are those of the opens, each device counts its own and holds its module, a sync
    info of its own and its external device exactly while that count is not zero. -/
structure OpensCounted (s : DisplayState) (opens : List Opened) : Prop where
  live : ∀ m, (s.perContext m).isSome = true ↔ m ∈ opens.map Opened.per
  device : ∀ o ∈ opens, (s.perContext o.per).bind PerContextInfo.psDCInfo = some o.device
  nodup : (opens.map Opened.per).Nodup
  counted : Counted s opens

theorem Held.opensCounted (hh : Held s reg opens) (hc : Counted s opens) :
    OpensCounted s opens := by
  have hdevice (o : Opened) (ho : o ∈ opens) :
      (s.perContext o.per).bind PerContextInfo.psDCInfo = some o.device := by
    obtain ⟨item, hper, -⟩ := hh.held o ho
    rw [hper]
    rfl
  refine ⟨fun m => ⟨fun hm => ?_, fun hm => ?_⟩, hdevice, hh.nodup, hc⟩
  · obtain ⟨o, ho, hom⟩ := hh.live m hm
    exact hom ▸ List.mem_map_of_mem ho
  · obtain ⟨o, ho, hom⟩ := List.mem_map.mp hm
    cases hper : s.perContext m with
    | none =>
      have hdev := hdevice o ho
      rw [hom, hper] at hdev
      cases hdev
    | some per => rfl

theorem good_init (devices : ℕ → Bool) : Good (displayInit devices) (fun _ => none) [] := by
  refine ⟨tracks_init, ⟨?_, ?_, ?_, List.nodup_nil, ?_⟩, ?_⟩
  · intro m hm
    cases hm
  · intro o ho
    cases ho
  · intro p g hp
    cases hp
  · intro m hm
    cases hm
  · constructor
    case count =>
      intro d i hi
      have hinfo : (if devices d then some ⟨0, none, none, none⟩ else none) = some i := hi
      cases hd : devices d with
      | false => simp [hd] at hinfo
      | true =>
        rw [hd, if_pos rfl, Option.some.injEq] at hinfo
        rw [← hinfo]
        rfl
    case idle => exact fun _ _ => ⟨rfl, rfl⟩
    case busy => exact fun d i _ hd => absurd hd (Nat.lt_irrefl 0)
    case syncs =>
      intro y hy
      cases hy
    case apart => exact fun d _ _ _ _ _ _ hd => absurd hd (Nat.lt_irrefl 0)

/-- A step keeps the counts if no module is missing, and an open without its module breaks them. -/
theorem Good.step (h : Good x reg opens) (hop : proper x op = true)
    (hs : displayStep x op = some (r, x')) :
    (available x op = true ∧ (∃ reg', Good x' reg' (record opens (op, r))) ∧
        ∀ c call e, op = .openDevice c call → r = .opened (.error e) → Unchanged x.dc x'.dc) ∨
      available x op = false ∧ ¬OpensCounted x'.dc (record opens (op, r)) := by
  cases op with
  | connect perProc mem =>
    refine .inl ⟨rfl, ?_, fun _ _ _ hop => by cases hop⟩
    cases mem with
    | none =>
      simp only [displayStep, pvrsrvResManConnect, Option.map_some, Option.some.injEq,
        Prod.mk.injEq] at hs
      rw [← hs.1, ← hs.2]
      exact ⟨reg, h⟩
    | some c =>
      have hc : x.res.contexts c = none := by simpa [proper] using hop
      obtain ⟨res, hres, htracks⟩ := h.tracks.connect hc perProc
      simp only [displayStep, hres, Option.map_some, Option.some.injEq, Prod.mk.injEq] at hs
      rw [← hs.1, ← hs.2]
      exact ⟨reg, htracks, h.held, h.counted⟩
  | openDevice c call =>
    obtain ⟨a, u, hu, hsettled⟩ := h.open hop
    simp only [displayStep, hu, Option.map_some, Option.some.injEq, Prod.mk.injEq] at hs
    rw [← hs.1, ← hs.2]
    rw [Settled] at hsettled
    cases hpath : available x (.openDevice c call) with
    | true =>
      rw [hpath, if_pos rfl] at hsettled
      refine .inl ⟨rfl, hsettled.1, fun _ _ e _ ha => hsettled.2 e ?_⟩
      exact DisplayReply.opened.inj ha
    | false =>
      rw [hpath, if_neg Bool.false_ne_true] at hsettled
      obtain ⟨ha, hidle, hone⟩ := hsettled
      refine .inr ⟨rfl, fun hcounted => ?_⟩
      rw [ha] at hcounted
      obtain ⟨i, hi, hcount⟩ := Option.map_eq_some_iff.mp hone
      have hzero := hcounted.counted.count _ i hi
      have hopens : record opens (.openDevice c call, .opened (.error .errorInvalidDevice)) =
          opens := rfl
      rw [hopens, hidle, hcount] at hzero
      cases hzero
  | close m =>
    obtain ⟨u, hu, hux⟩ := Option.map_eq_some_iff.mp hs
    rw [Prod.mk.injEq] at hux
    rw [hux.2] at hu
    rw [← hux.1]
    exact .inl ⟨rfl, h.close hu, fun _ _ _ hop => by cases hop⟩
  | exit c =>
    obtain ⟨u, reg', hu, hgood⟩ := h.exit hop
    simp only [displayStep, hu, Option.map_some, Option.some.injEq, Prod.mk.injEq] at hs
    rw [← hs.1, ← hs.2]
    exact .inl ⟨rfl, ⟨reg', hgood⟩, fun _ _ _ hop => by cases hop⟩

variable {l : List (DisplayOp × DisplayReply)} {devices : ℕ → Bool}

theorem good_run (hrun : Run displayStep (fun x op => proper x op = true ∧ available x op = true)
    (displayInit devices) l x) : ∃ reg, Good x reg (l.foldl record []) :=
  hrun.ledger (fun x opens => ∃ reg, Good x reg opens) record [] ⟨_, good_init devices⟩
    fun x opens op r x' hgood hop hs => by
      obtain ⟨reg, h⟩ := hgood
      cases h.step hop.1 hs with
      | inl hkept => exact hkept.2.1
      | inr hbroken =>
        rw [hop.2] at hbroken
        cases hbroken.1

/-- In every state of a run the devices count their live infos and hold their resources while
    there are some, and an open that fails changes none of that, exactly if every first open that
    asked for its module got it. -/
theorem opens_counted_over_runs
    (hrun : Run displayStep (fun x op => proper x op = true) (displayInit devices) l x) :
    ((∀ k u, k <+: l → Run displayStep (fun x op => proper x op = true) (displayInit devices) k u →
        OpensCounted u.dc (k.foldl record [])) ∧
      ∀ k c call e u v, k ++ [(.openDevice c call, .opened (.error e))] <+: l →
        Run displayStep (fun x op => proper x op = true) (displayInit devices) k u →
        displayStep u (.openDevice c call) = some (.opened (.error e), v) →
        Unchanged u.dc v.dc) ↔
    Run displayStep (fun x op => proper x op = true ∧ available x op = true)
      (displayInit devices) l x := by
  constructor
  · intro hall
    have hcounts := hall.1
    clear hall
    induction hrun with
    | refl => exact .refl
    | snoc run hop hs ih =>
      have hsound := ih fun k u hk hu => hcounts k u (hk.trans (List.prefix_append _ _)) hu
      have hlast := hcounts _ _ (List.prefix_refl _) (run.snoc hop hs)
      obtain ⟨reg, h⟩ := good_run hsound
      cases h.step hop hs with
      | inl hkept => exact hsound.snoc ⟨hop, hkept.1⟩ hs
      | inr hbroken =>
        rw [List.foldl_append, List.foldl_cons, List.foldl_nil] at hlast
        exact absurd hlast hbroken.2
  · intro hgood
    refine ⟨fun k u hk hu => ?_, fun k c call e u v hk hu hs => ?_⟩
    · obtain ⟨v, hv⟩ := hgood.of_prefix hk
      rw [hu.unique hv]
      obtain ⟨reg, h⟩ := good_run hv
      exact h.held.opensCounted h.counted
    · obtain ⟨w, hw⟩ := hgood.of_prefix hk
      obtain ⟨t, ht, hop, -⟩ := hw.last
      rw [hu.unique ht] at hs ⊢
      obtain ⟨reg, h⟩ := good_run ht
      cases h.step hop.1 hs with
      | inl hkept => exact hkept.2.2 c call e rfl rfl
      | inr hbroken =>
        rw [hop.2] at hbroken
        cases hbroken.1

def sampleOpen (m y p : ℕ) : OpenCall := ⟨0, some 64, true, some m, true, .ok y, .ok 7, some p⟩

def sampleOps : List DisplayOp :=
  [.connect 1 (some 4096), .connect 2 (some 4112),
    .openDevice 4096 { sampleOpen 8192 12288 16384 with extDevice := .error .errorGeneric },
    .openDevice 4096 (sampleOpen 8192 12288 16384), .openDevice 4112 (sampleOpen 8200 12296 16400),
    .close 8192]

theorem opens_counted_over_sample : ∃ l x,
    exec displayStep (displayInit fun _ => true) sampleOps = some (l, x) ∧
    (∀ k u, k <+: l → Run displayStep (fun x op => proper x op = true)
      (displayInit fun _ => true) k u → OpensCounted u.dc (k.foldl record [])) ∧
    x.dc.moduleRefs 0 = 1 ∧ (x.dc.dcInfos 0).map DisplayClassInfo.ui32RefCount = some 1 := by
  have hsome : (exec displayStep (displayInit fun _ => true) sampleOps).map (fun r =>
      (r.2.dc.moduleRefs 0, (r.2.dc.dcInfos 0).map DisplayClassInfo.ui32RefCount)) =
      some (1, some 1) := by decide +kernel
  obtain ⟨⟨l, x⟩, hexec, hlook⟩ := Option.map_eq_some_iff.mp hsome
  have hallowed : Allowed displayStep (fun x op => proper x op = true ∧ available x op = true)
      (displayInit fun _ => true) sampleOps := by decide +kernel
  have hgood := Run.of_allowed hexec hallowed
  have hall := (opens_counted_over_runs (hgood.mono fun _ _ h => h.1)).mpr hgood
  rw [Prod.mk.injEq] at hlook
  exact ⟨l, x, hexec, hall.1, hlook⟩

/-- An open that finds no module leaves its count behind. -/
theorem open_counted_without_module : ¬∀ devices l x,
    Run displayStep (fun x op => proper x op = true) (displayInit devices) l x →
      OpensCounted x.dc (l.foldl record []) := by
  intro hclaim
  let ops : List DisplayOp := [.connect 1 (some 4096),
    .openDevice 4096 { sampleOpen 8192 12288 16384 with moduleGot := false }]
  have hsome : (exec displayStep (displayInit fun _ => true) ops).map (fun r =>
      (r.1.foldl record [], (r.2.dc.dcInfos 0).map DisplayClassInfo.ui32RefCount)) =
      some ([], some 1) := by decide +kernel
  obtain ⟨⟨l, x⟩, hexec, hlook⟩ := Option.map_eq_some_iff.mp hsome
  rw [Prod.mk.injEq] at hlook
  have hallowed : Allowed displayStep (fun x op => proper x op = true) (displayInit fun _ => true)
      ops := by decide +kernel
  obtain ⟨i, hi, hcount⟩ := Option.map_eq_some_iff.mp hlook.2
  have hcounted := (hclaim _ l x (Run.of_allowed hexec hallowed)).counted.count 0 i hi
  rw [hlook.1, hcount] at hcounted
  cases hcounted

end PvrServices.DisplayClass
