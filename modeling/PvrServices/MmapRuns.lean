import PvrServices.MmapCalls
import PvrServices.Runs

set_option autoImplicit false

/-!
# The lifetimes over runs

Each entry into the module keeps the structures coherent, so every run does.
-/
namespace PvrServices.Mmaps
open Ownership Runs Words
variable {s s' : MmapData} {p q a : ℕ} {o o' : KvOffsetStruct} {area : LinuxMemArea} {t : Task}

theorem Coherent.map (h : Coherent s) (ho : s.offsetStructs p = some o) (o' : KvOffsetStruct)
    (harea : o'.linuxMemArea = o.linuxMemArea) (hflag : o'.onMMapList = false)
    (hmapped : o'.mapped = u32 (o.mapped + 1)) {v : Vma} (hv : v.privateData = p)
    (hfresh : s.freshVma v.ptr) :
    Coherent ⟨Function.update s.offsetStructs p (some o'), s.areas,
      s.mmapOffsetStructList.erase p, s.mmapAreaList, s.vmas ++ [v], s.memmapCache⟩ := by
  have hplaced : Placed (s.vmas ++ [v]) :=
    h.placed.append ⟨hfresh.1, hfresh.2.1⟩ hfresh.2.2
  have hcount : mappings (s.vmas ++ [v]) p = o.mapped + 1 := by
    rw [mappings_append, if_pos hv, h.mapped p o ho]
  have hword : o'.mapped = o.mapped + 1 := by
    have hlt := hplaced.mappings_lt p
    rw [hmapped]
    exact u32_of_lt (by omega)
  have hlinked : Linked ⟨Function.update s.offsetStructs p (some o'), s.areas,
      s.mmapOffsetStructList.erase p, s.mmapAreaList, s.vmas ++ [v], s.memmapCache⟩ := by
    apply h.toLinked.change ho o' harea
    case hglobal =>
      intro q
      rw [h.globalNodup.mem_erase_iff]
      by_cases hq : q = p
      · simp [hq, hflag]
      · simp [hq]
    case hnodup => exact h.globalNodup.erase p
    case hmapped =>
      intro q
      by_cases hq : q = p
      · rw [if_pos hq, hq, hcount, hword]
      · rw [if_neg hq, mappings_append, hv, if_neg (Ne.symm hq), Nat.add_zero]
    case hwaiting =>
      rw [hflag]
      nofun
    case hheld =>
      intro w hw
      cases List.mem_append.mp hw with
      | inl hw => exact .inr hw
      | inr hw =>
        rw [List.mem_singleton.mp hw]
        exact .inl hv
    case hplaced => exact hplaced
  refine ⟨hlinked, fun q x hx => ?_⟩
  cases update_some_cases hx with
  | inl hq =>
    rw [hq.2, hword]
    exact .inr (by omega)
  | inr hq => exact h.alive q x hq.2

theorem Coherent.failMMap (h : Coherent s) (ho : s.offsetStructs p = some o)
    (hm : o.mapped = 0) (e : Errno) : ∃ s', failMMap s p e = some (.error e, s') ∧ Coherent s' := by
  obtain ⟨s', hs, hcoherent, -⟩ := h.destroyed ho hm
  exact ⟨s', by rw [Mmaps.failMMap, hs]; rfl, hcoherent⟩

theorem Coherent.pvrMMap (h : Coherent s) {v : MmapCall} (hfresh : s.freshVma v.ptr) :
    ∃ r s', pvrMMap s t v = some (r, s') ∧ Coherent s' := by
  obtain ⟨-, heq⟩ | ⟨pre, p, post, o, area, hl, ho, -, -, -, hout⟩ := h.pvrMMap_cases (t := t) v
  · exact ⟨_, _, heq, h⟩
  · obtain ⟨x, hx, hflag⟩ := (h.global p).mp (by rw [hl]; simp)
    rw [ho, Option.some.injEq] at hx
    rw [← hx] at hflag
    have hm := h.waiting p o ho hflag
    cases hout with
    | inl hfail =>
      obtain ⟨-, e, heq⟩ := hfail
      obtain ⟨s', hs, hcoherent⟩ := h.failMMap ho hm e
      exact ⟨_, s', heq.trans hs, hcoherent⟩
    | inr hmap =>
      obtain ⟨-, pages, -, heq⟩ := hmap
      exact ⟨_, _, heq, h.map (v := ⟨v.ptr, v.vmStart, v.vmPgoff, p, pages⟩) ho
        { o with onMMapList := false, userVAddr := v.vmStart, mapped := u32 (o.mapped + 1) }
        rfl rfl rfl rfl hfresh⟩

theorem Coherent.not_listed (h : Coherent s) {v : Vma} (hv : v ∈ s.vmas) :
    ∃ o, s.offsetStructs v.privateData = some o ∧ o.onMMapList = false ∧
      o.mapped = mappings s.vmas v.privateData ∧ v.privateData ∉ s.mmapOffsetStructList := by
  obtain ⟨o, ho⟩ := h.held v hv
  have hmapped := h.mapped _ o ho
  have hpos := mappings_pos hv
  have hflag : o.onMMapList = false := by
    cases hflag : o.onMMapList with
    | false => rfl
    | true =>
      have := h.waiting _ o ho hflag
      omega
  refine ⟨o, ho, hflag, hmapped, ?_⟩
  rw [h.global]
  simp [ho, hflag]

theorem Coherent.vmaOpen (h : Coherent s) {v : Vma} {ptr : ℕ} (hv : v ∈ s.vmas)
    (hfresh : s.freshVma ptr) :
    ∃ s', mmapVOpenNoLock s { v with ptr := ptr } = some s' ∧ Coherent s' := by
  obtain ⟨o, ho, hflag, -, hnot⟩ := h.not_listed hv
  have hmap := h.map (v := { v with ptr := ptr }) ho { o with mapped := u32 (o.mapped + 1) }
    rfl hflag rfl rfl hfresh
  rw [List.erase_of_not_mem hnot] at hmap
  refine ⟨_, ?_, hmap⟩
  simp [mmapVOpenNoLock, ho, MmapData.setStruct]

/-- The last mapping takes its structure with it, whatever the reference count. -/
theorem Coherent.vmaClose (h : Coherent s) {v : Vma} (hv : v ∈ s.vmas) :
    ∃ s', mmapVCloseNoLock s v = some s' ∧ Coherent s' := by
  obtain ⟨o, ho, hflag, hmapped, hnot⟩ := h.not_listed hv
  have hcount (q : ℕ) := mappings_erase hv q
  have hself := hcount v.privateData
  rw [if_pos rfl] at hself
  have hlast : u32Sub o.mapped 1 = mappings (s.vmas.erase v) v.privateData := by
    rw [u32Sub_of_le (by omega)]
    omega
  have hlinked : Linked { s.setStruct v.privateData { o with mapped := u32Sub o.mapped 1 } with
      vmas := s.vmas.erase v } := by
    apply h.toLinked.change ho { o with mapped := u32Sub o.mapped 1 } rfl
    case hglobal =>
      intro q
      by_cases hq : q = v.privateData
      · simp [hq, hflag, hnot]
      · simp [hq]
    case hnodup => exact h.globalNodup
    case hmapped =>
      intro q
      by_cases hq : q = v.privateData
      · rw [if_pos hq, hq, hlast]
      · have := hcount q
        rw [if_neg (Ne.symm hq)] at this
        rw [if_neg hq]
        omega
    case hwaiting => exact fun hf => absurd (hflag.symm.trans hf) (by decide)
    case hheld => exact fun w hw => .inr (List.mem_of_mem_erase hw)
    case hplaced => exact h.placed.erase v
  have hstruct : (s.setStruct v.privateData { o with mapped := u32Sub o.mapped 1 }).offsetStructs
      v.privateData = some { o with mapped := u32Sub o.mapped 1 } := Function.update_self ..
  unfold mmapVCloseNoLock
  simp only [ho, Option.bind_eq_bind, Option.bind_some]
  have hothers (q : ℕ) (hq : q ≠ v.privateData) (x : KvOffsetStruct)
      (hx : (s.setStruct v.privateData { o with mapped := u32Sub o.mapped 1 }).offsetStructs q =
        some x) : x.onMMapList = true ∨ x.mapped ≠ 0 := by
    cases update_some_cases hx with
    | inl hq' => exact absurd hq'.1 hq
    | inr hq' => exact h.alive q x hq'.2
  by_cases hzero : u32Sub o.mapped 1 = 0
  · rw [if_pos hzero]
    obtain ⟨s', hs, hcoherent, -⟩ := hlinked.destroyed hstruct hzero hothers
    exact ⟨s', hs, hcoherent⟩
  · rw [if_neg hzero]
    refine ⟨_, rfl, hlinked, fun q x hx => ?_⟩
    cases update_some_cases hx with
    | inl hq =>
      rw [hq.2]
      exact .inr hzero
    | inr hq => exact h.alive q x hq.2

/-- A new or freed area, or one whose registration changes, while it has no structures. -/
theorem Coherent.setArea (h : Coherent s) {x : Option LinuxMemArea} {areas : List ℕ}
    (hempty : ∀ p o, s.offsetStructs p = some o → o.linuxMemArea ≠ a)
    (hx : ∀ area, x = some area → area.mmapOffsetStructList = [])
    (hlist : ∀ b, b ∈ areas ↔
      if b = a then x.any (fun area => area.mmapRegistered) = true else b ∈ s.mmapAreaList)
    (hnodup : areas.Nodup) :
    Coherent { s with areas := Function.update s.areas a x, mmapAreaList := areas } := by
  have hregistered (b : ℕ) : ({ s with areas := Function.update s.areas a x } : MmapData).registered
      b = if b = a then x.any (fun area => area.mmapRegistered) else s.registered b := by
    unfold MmapData.registered
    by_cases hb : b = a
    · simp [hb]
    · simp [hb]
  constructor
  case alive => exact h.alive
  constructor
  case areaList =>
    intro b
    refine (hlist b).trans ?_
    refine Iff.trans ?_ (by rw [← hregistered b]; rfl :
      (if b = a then x.any (fun area => area.mmapRegistered) else s.registered b) = true ↔ _)
    by_cases hb : b = a
    · simp [hb]
    · simp [hb, h.areaList b]
  case areasNodup => exact hnodup
  case items =>
    intro b y hy q
    by_cases hb : b = a
    · rw [hb] at hy ⊢
      have hy : x = some y := (Function.update_self a x s.areas).symm.trans hy
      rw [hx y hy]
      exact ⟨nofun, fun ⟨o, ho, hoa⟩ => absurd hoa (hempty q o ho)⟩
    · exact h.items b y ((Function.update_of_ne hb x s.areas).symm.trans hy) q
  case itemsNodup =>
    intro b y hy
    by_cases hb : b = a
    · rw [hb] at hy
      have hy : x = some y := (Function.update_self a x s.areas).symm.trans hy
      rw [hx y hy]
      exact List.nodup_nil
    · exact h.itemsNodup b y ((Function.update_of_ne hb x s.areas).symm.trans hy)
  case owned =>
    intro q o ho
    refine (hregistered _).trans ?_
    rw [if_neg (hempty q o ho)]
    exact h.owned q o ho
  case global => exact h.global
  case globalNodup => exact h.globalNodup
  case mapped => exact h.mapped
  case waiting => exact h.waiting
  case held => exact h.held
  case placed => exact h.placed
  case cache => exact h.cache

theorem Coherent.empty_of_not_registered (h : Coherent s) (hreg : s.registered a = false) :
    ∀ p o, s.offsetStructs p = some o → o.linuxMemArea ≠ a := by
  intro p o ho hoa
  have howned := h.owned p o ho
  rw [hoa, hreg] at howned
  cases howned

theorem Coherent.items_nil (h : Coherent s) (ha : s.areas a = some area)
    (hempty : ∀ p o, s.offsetStructs p = some o → o.linuxMemArea ≠ a) :
    area.mmapOffsetStructList = [] := by
  apply List.eq_nil_iff_forall_not_mem.mpr
  intro p hp
  obtain ⟨o, ho, hoa⟩ := (h.items a area ha p).mp hp
  exact hempty p o ho hoa

theorem Coherent.registerArea (h : Coherent s) (ha : (s.areas a).isSome = true) :
    ∃ e s', pvrMMapRegisterArea s a = some (e, s') ∧ Coherent s' := by
  obtain ⟨area, ha⟩ := Option.isSome_iff_exists.mp ha
  unfold pvrMMapRegisterArea
  simp only [ha, Option.bind_eq_bind, Option.bind_some]
  cases hreg : area.mmapRegistered with
  | true => exact ⟨_, _, rfl, h⟩
  | false =>
    have hnot : s.registered a = false := by
      simp [MmapData.registered, ha, hreg]
    have hempty := h.empty_of_not_registered hnot
    have hnew : a ∉ s.mmapAreaList := by
      rw [h.areaList a, hnot]
      decide
    have hnil : area.mmapOffsetStructList = [] := h.items_nil ha hempty
    refine ⟨_, _, rfl, h.setArea (a := a) hempty ?_ ?_ ?_⟩
    · intro x hx
      rw [← Option.some.inj hx]
      exact hnil
    · intro b
      by_cases hb : b = a
      · simp [hb]
      · simp [hb]
    · exact nodup_snoc h.areasNodup hnew

theorem Coherent.removeStructs (h : Coherent s) (ha : s.areas a = some area) {l : List ℕ}
    (hl : area.mmapOffsetStructList = l) :
    ∃ e s' area', removeStructs s l = some (e, s') ∧ Coherent s' ∧
      s'.areas a = some area' ∧ area'.mmapRegistered = area.mmapRegistered ∧
      (e = .ok → area'.mmapOffsetStructList = []) := by
  induction l generalizing s area with
  | nil => exact ⟨_, _, _, rfl, h, ha, rfl, fun _ => hl⟩
  | cons p l ih =>
    obtain ⟨o, ho, hoa⟩ := (h.items a area ha p).mp (by rw [hl]; exact List.mem_cons_self)
    by_cases hm : o.mapped = 0
    · obtain ⟨u, hu, hcoherent, hd⟩ := h.destroyed ho hm
      have hua : u.areas a = some { area with mmapOffsetStructList := l } := by
        rw [hd.areas a, ha, Option.map_some, hl, List.erase_cons_head]
      obtain ⟨e, s', area', hs, hs', ha', hreg, hnil⟩ := ih hcoherent hua rfl
      exact ⟨e, s', area', by simp [Mmaps.removeStructs, ho, hm, hu, hs], hs', ha', hreg, hnil⟩
    · exact ⟨.errorGeneric, s, area, by simp [Mmaps.removeStructs, ho, hm], h, ha, rfl, nofun⟩

theorem Coherent.removeArea (h : Coherent s) (hreg : s.registered a = true) :
    ∃ e s', pvrMMapRemoveRegisteredArea s a = some (e, s') ∧ Coherent s' := by
  obtain ⟨area, ha, hr⟩ := registered_iff.mp hreg
  obtain ⟨e, u, area', hu, hcoherent, hua, hr', hnil⟩ := h.removeStructs ha rfl
  unfold pvrMMapRemoveRegisteredArea
  simp only [ha, hu, Option.bind_eq_bind, Option.bind_some]
  by_cases he : e = .ok
  · have hlisted : a ∈ u.mmapAreaList :=
      (hcoherent.areaList a).mpr (registered_iff.mpr ⟨area', hua, hr'.trans hr⟩)
    have hempty : ∀ p o, u.offsetStructs p = some o → o.linuxMemArea ≠ a := by
      intro p o ho hoa
      have hp := (hcoherent.items a area' hua p).mpr ⟨o, ho, hoa⟩
      rw [hnil he] at hp
      cases hp
    simp only [he, ne_eq, not_true_eq_false, if_false, listDel_of_mem hlisted, hua,
      Option.bind_some]
    refine ⟨_, _, rfl, hcoherent.setArea (a := a) hempty ?_ ?_ ?_⟩
    · intro x hx
      rw [← Option.some.inj hx]
      exact hnil he
    · intro b
      rw [hcoherent.areasNodup.mem_erase_iff]
      by_cases hb : b = a
      · simp [hb]
      · simp [hb]
    · exact hcoherent.areasNodup.erase a
  · simp only [ne_eq, he, not_false_eq_true, if_true]
    exact ⟨_, _, rfl, hcoherent⟩

theorem Coherent.disconnectStructs (h : Coherent s) (pid : ℕ) {l : List ℕ} (hnodup : l.Nodup)
    (hl : ∀ p ∈ l, p ∈ s.mmapOffsetStructList) :
    ∃ s', disconnectStructs s pid l = some s' ∧ Coherent s' := by
  induction l generalizing s with
  | nil => exact ⟨s, rfl, h⟩
  | cons p l ih =>
    obtain ⟨o, ho, hflag⟩ := (h.global p).mp (hl p List.mem_cons_self)
    have hrest := List.nodup_cons.mp hnodup
    by_cases hpid : o.pid = pid
    · obtain ⟨u, hu, hcoherent, hd⟩ := h.destroyed ho (h.waiting p o ho hflag)
      obtain ⟨s', hs, hs'⟩ := ih hcoherent hrest.2 fun q hq => by
        rw [hd.global, h.globalNodup.mem_erase_iff]
        exact ⟨fun hqp => hrest.1 (hqp ▸ hq), hl q (List.mem_cons_of_mem _ hq)⟩
      exact ⟨s', by simp [Mmaps.disconnectStructs, ho, hpid, hu, hs], hs'⟩
    · obtain ⟨s', hs, hs'⟩ := ih h hrest.2 fun q hq => hl q (List.mem_cons_of_mem _ hq)
      exact ⟨s', by simp [Mmaps.disconnectStructs, ho, hpid, hs], hs'⟩

/-- No entry into the module follows the address of a structure that is gone. -/
theorem coherent_step (h : Coherent s) {op : MmapOp} (hop : Proper s op) :
    ∃ r s', mmapStep s op = some (r, s') ∧ Coherent s' := by
  cases op with
  | createArea a data byteSize cacheType =>
    have hnot : s.registered a = false := by
      have ha : s.areas a = none := hop
      simp [MmapData.registered, ha]
    have hnew : a ∉ s.mmapAreaList := by
      rw [h.areaList a, hnot]
      decide
    refine ⟨_, _, rfl, h.setArea (a := a) (h.empty_of_not_registered hnot) ?_ ?_ h.areasNodup⟩
    · intro x hx
      rw [← Option.some.inj hx]
    · intro b
      by_cases hb : b = a
      · simp [hb, hnew]
      · simp [hb]
  | registerArea a =>
    obtain ⟨e, s', hs, hs'⟩ := h.registerArea hop
    exact ⟨_, s', by rw [mmapStep, hs]; rfl, hs'⟩
  | removeArea a =>
    obtain ⟨e, s', hs, hs'⟩ := h.removeArea hop
    exact ⟨_, s', by rw [mmapStep, hs]; rfl, hs'⟩
  | freeArea a =>
    have hnot : s.registered a = false := Bool.eq_false_iff.mpr hop.2
    have hnew : a ∉ s.mmapAreaList := by
      rw [h.areaList a, hnot]
      decide
    refine ⟨_, _, rfl, h.setArea (a := a) (h.empty_of_not_registered hnot)
      (fun _ hx => by cases hx) ?_ h.areasNodup⟩
    intro b
    by_cases hb : b = a
    · simp [hb, hnew]
    · simp [hb]
  | toMMapData t handle lookup cache =>
    obtain ⟨r, s', hs, hs'⟩ := h.toMMapData t.pid t handle hop.1 hop.2
    exact ⟨_, s', by rw [mmapStep, hs]; rfl, hs'⟩
  | release t lookup =>
    obtain ⟨r, s', hs, hs'⟩ := h.release (t := t) hop
    exact ⟨_, s', by rw [mmapStep, hs]; rfl, hs'⟩
  | mmap t v =>
    obtain ⟨r, s', hs, hs'⟩ := h.pvrMMap (t := t) hop
    exact ⟨_, s', by rw [mmapStep, hs]; rfl, hs'⟩
  | vmaOpen v ptr =>
    obtain ⟨s', hs, hs'⟩ := h.vmaOpen hop.1 hop.2
    exact ⟨_, s', by rw [mmapStep, hs]; rfl, hs'⟩
  | vmaClose v =>
    obtain ⟨s', hs, hs'⟩ := h.vmaClose hop
    exact ⟨_, s', by rw [mmapStep, hs]; rfl, hs'⟩
  | disconnect t =>
    obtain ⟨s', hs, hs'⟩ := h.disconnectStructs t.pid h.globalNodup fun p hp => hp
    have hs : linuxMMapPerProcessDisconnect s t = some s' := hs
    exact ⟨_, s', by rw [mmapStep, hs]; rfl, hs'⟩

theorem coherent_run {l : List (MmapOp × MmapReply)} (hrun : Run mmapStep Proper mmapInit l s) :
    Coherent s :=
  hrun.invariant Coherent coherent_init fun s op r u h hop hs => by
    obtain ⟨r', u', hu, hcoherent⟩ := coherent_step h hop
    rw [hs, Option.some.injEq, Prod.mk.injEq] at hu
    rw [hu.2]
    exact hcoherent

/-- A structure lives as long as it waits on the global list or is mapped, and dies once. -/
theorem lifetimes_over_runs {l : List (MmapOp × MmapReply)}
    (hrun : Run mmapStep Proper mmapInit l s) :
    (∀ p, p ∈ s.mmapOffsetStructList ↔
      ∃ o, s.offsetStructs p = some o ∧ o.onMMapList = true) ∧
    (∀ p o, s.offsetStructs p = some o →
      (o.onMMapList = true → o.mapped = 0) ∧
      (∃! a, ∃ area, s.areas a = some area ∧ p ∈ area.mmapOffsetStructList) ∧
      (∀ a area, s.areas a = some area → p ∈ area.mmapOffsetStructList →
        area.mmapRegistered = true ∧ area.mmapOffsetStructList.count p = 1) ∧
      o.mapped = mappings s.vmas p ∧
      (o.onMMapList = true ∨ 0 < o.mapped)) ∧
    (∀ p, s.memmapCache.count (.alloc p) =
      s.memmapCache.count (.free p) + if (s.offsetStructs p).isSome then 1 else 0) ∧
    ∀ op, Proper s op → ∃ r s', mmapStep s op = some (r, s') ∧
      ∀ p, s'.offsetStructs p = none → mappings s'.vmas p = 0 := by
  have h := coherent_run hrun
  refine ⟨h.global, fun p o ho => ⟨h.waiting p o ho, ?_, ?_, h.mapped p o ho, ?_⟩, h.cache, ?_⟩
  · obtain ⟨area, ha, -⟩ := registered_iff.mp (h.owned p o ho)
    refine ⟨o.linuxMemArea, ⟨area, ha, (h.items _ area ha p).mpr ⟨o, ho, rfl⟩⟩, ?_⟩
    intro b hb
    obtain ⟨y, hy, hp⟩ := hb
    obtain ⟨x, hx, hxb⟩ := (h.items b y hy p).mp hp
    rw [ho, Option.some.injEq] at hx
    rw [hx, hxb]
  · intro b y hy hp
    obtain ⟨x, hx, hxb⟩ := (h.items b y hy p).mp hp
    obtain ⟨z, hz, hreg⟩ := registered_iff.mp (h.owned p x hx)
    rw [hxb, hy, Option.some.injEq] at hz
    rw [← hz] at hreg
    exact ⟨hreg, List.count_eq_one_of_mem (h.itemsNodup b y hy) hp⟩
  · exact (h.alive p o ho).imp_right Nat.pos_of_ne_zero
  · intro op hop
    obtain ⟨r, s', hs, hs'⟩ := coherent_step h hop
    refine ⟨r, s', hs, fun p hp => mappings_eq_zero.mpr fun v hv hvp => ?_⟩
    obtain ⟨x, hx⟩ := hs'.held v hv
    rw [hvp, hp] at hx
    cases hx

instance (s : MmapData) (ptr : ℕ) : Decidable (s.freshVma ptr) :=
  inferInstanceAs (Decidable (_ ∧ _))

instance (s : MmapData) (lookup : Except PvrsrvError ℕ) :
    Decidable (∀ a, lookup = .ok a → s.registered a = true) :=
  match lookup with
  | .error _ => .isTrue fun _ h => by cases h
  | .ok a => decidable_of_iff (s.registered a = true)
      ⟨fun h b hb => by rw [← Except.ok.inj hb]; exact h, fun h => h a rfl⟩

instance (s : MmapData) (cache : Option ℕ) :
    Decidable (∀ p, cache = some p → s.offsetStructs p = none) :=
  match cache with
  | none => .isTrue fun _ h => by cases h
  | some p => decidable_of_iff ((s.offsetStructs p).isNone = true)
      ⟨fun h b hb => by rw [← Option.some.inj hb]; exact Option.isNone_iff_eq_none.mp h,
        fun h => Option.isNone_iff_eq_none.mpr (h p rfl)⟩

instance (s : MmapData) (op : MmapOp) : Decidable (Proper s op) :=
  match op with
  | .createArea a _ _ _ => decidable_of_iff ((s.areas a).isNone = true) Option.isNone_iff_eq_none
  | .registerArea _ => inferInstanceAs (Decidable (_ = _))
  | .removeArea _ => inferInstanceAs (Decidable (_ = _))
  | .freeArea _ => inferInstanceAs (Decidable (_ ∧ _))
  | .toMMapData _ _ _ _ => inferInstanceAs (Decidable (_ ∧ _))
  | .release _ lookup => inferInstanceAs (Decidable (∀ a, lookup = .ok a → s.registered a = true))
  | .mmap _ _ => inferInstanceAs (Decidable (MmapData.freshVma _ _))
  | .vmaOpen _ _ => inferInstanceAs (Decidable (_ ∧ _))
  | .vmaClose _ => inferInstanceAs (Decidable (_ ∈ _))
  | .disconnect _ => inferInstanceAs (Decidable True)

def sampleTask : Task := ⟨7, 7⟩

def sampleCall : MmapCall :=
  ⟨16384, 1073741824, 1073745920, 2147483657, true, true, ⟨true, fun _ => true, fun _ => true⟩⟩

def sampleOps : List MmapOp :=
  [.createArea 4096 (.allocPages [40960]) 4096 .cached, .registerArea 4096,
    .toMMapData sampleTask 9 (.ok 4096) (some 8192), .mmap sampleTask sampleCall]

theorem lifetimes_over_sample : ∃ l s, exec mmapStep mmapInit sampleOps = some (l, s) ∧
    (∀ p o, s.offsetStructs p = some o → o.mapped = mappings s.vmas p) ∧
    (s.offsetStructs 8192).map (fun o => o.mapped) = some 1 := by
  have hsome : ((exec mmapStep mmapInit sampleOps).bind fun r =>
      (r.2.offsetStructs 8192).map fun o => o.mapped) = some 1 := by decide +kernel
  obtain ⟨⟨l, s⟩, hexec, hmapped⟩ := Option.bind_eq_some_iff.mp hsome
  have hrun : Run mmapStep Proper mmapInit l s := Run.of_allowed hexec (by decide +kernel)
  obtain ⟨-, hstructs, -, -⟩ := lifetimes_over_runs hrun
  exact ⟨l, s, hexec, fun p o ho => (hstructs p o ho).2.2.2.1, hmapped⟩

def sampleVma : Vma := ⟨16384, 1073741824, 2147483657, 8192, [10]⟩

/-- A structure with a user reference is destroyed with its last mapping. -/
theorem referenced_struct_destroyed :
    ¬∀ l s op r s', Run mmapStep Proper mmapInit l s → Proper s op →
      mmapStep s op = some (r, s') →
      ∀ p o, s.offsetStructs p = some o → s'.offsetStructs p = none → o.refCount = 0 := by
  intro hclaim
  have hsome : ((exec mmapStep mmapInit sampleOps).bind fun r =>
      (mmapStep r.2 (.vmaClose sampleVma)).map fun q =>
        ((r.2.offsetStructs 8192).map fun o => o.refCount, (q.2.offsetStructs 8192).isNone,
          decide (Proper r.2 (.vmaClose sampleVma)))) = some (some 1, true, true) := by
    decide +kernel
  obtain ⟨⟨l, s⟩, hexec, hclose⟩ := Option.bind_eq_some_iff.mp hsome
  obtain ⟨⟨r, s'⟩, hs, hq⟩ := Option.map_eq_some_iff.mp hclose
  simp only [Prod.mk.injEq, Option.map_eq_some_iff, Option.isNone_iff_eq_none,
    decide_eq_true_eq] at hq
  obtain ⟨⟨o, ho, hcount⟩, hnone, hproper⟩ := hq
  have hrun : Run mmapStep Proper mmapInit l s := Run.of_allowed hexec (by decide +kernel)
  have hzero := hclaim l s _ r s' hrun hproper hs 8192 o ho hnone
  omega

end PvrServices.Mmaps
