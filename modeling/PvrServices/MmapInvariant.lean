import Mathlib.Data.List.Nodup
import Mathlib.Data.List.Perm.Subperm
import PvrServices.MmapBase
import PvrServices.Ownership

set_option autoImplicit false

/-!
# The lifetimes of the offset structures

`Linked` ties the lists, the flags and the counts together, `Coherent` adds that a structure which
nothing waits for and nothing maps is gone.
-/
namespace PvrServices.Mmaps
open Ownership Words
variable {s s' : MmapData} {p q a : ℕ} {o o' : KvOffsetStruct} {area : LinuxMemArea}

def mappings (vmas : List Vma) (p : ℕ) : ℕ := vmas.countP fun v => v.privateData = p

structure Placed (vmas : List Vma) : Prop where
  nodup : (vmas.map Vma.ptr).Nodup
  bound : ∀ v ∈ vmas, 0 < v.ptr ∧ v.ptr < 4294967296

structure Linked (s : MmapData) : Prop where
  areaList : ∀ a, a ∈ s.mmapAreaList ↔ s.registered a = true
  areasNodup : s.mmapAreaList.Nodup
  items : ∀ a area, s.areas a = some area → ∀ p, p ∈ area.mmapOffsetStructList ↔
    ∃ o, s.offsetStructs p = some o ∧ o.linuxMemArea = a
  itemsNodup : ∀ a area, s.areas a = some area → area.mmapOffsetStructList.Nodup
  owned : ∀ p o, s.offsetStructs p = some o → s.registered o.linuxMemArea = true
  global : ∀ p, p ∈ s.mmapOffsetStructList ↔
    ∃ o, s.offsetStructs p = some o ∧ o.onMMapList = true
  globalNodup : s.mmapOffsetStructList.Nodup
  mapped : ∀ p o, s.offsetStructs p = some o → o.mapped = mappings s.vmas p
  waiting : ∀ p o, s.offsetStructs p = some o → o.onMMapList = true → o.mapped = 0
  held : ∀ v ∈ s.vmas, ∃ o, s.offsetStructs v.privateData = some o
  placed : Placed s.vmas
  cache : ∀ p, s.memmapCache.count (.alloc p) =
    s.memmapCache.count (.free p) + if (s.offsetStructs p).isSome then 1 else 0

structure Coherent (s : MmapData) : Prop extends Linked s where
  alive : ∀ p o, s.offsetStructs p = some o → o.onMMapList = true ∨ o.mapped ≠ 0

theorem coherent_init : Coherent mmapInit where
  areaList := fun a => by simp [mmapInit, MmapData.registered]
  areasNodup := List.nodup_nil
  items := nofun
  itemsNodup := nofun
  owned := nofun
  global := fun p => by simp [mmapInit]
  globalNodup := List.nodup_nil
  mapped := nofun
  waiting := nofun
  held := nofun
  placed := ⟨List.nodup_nil, nofun⟩
  cache := fun p => rfl
  alive := nofun

theorem Placed.mappings_lt {vmas : List Vma} (h : Placed vmas) (p : ℕ) :
    mappings vmas p < 4294967295 + 1 := by
  have hle : mappings vmas p ≤ vmas.length := List.countP_le_length
  have hsub : vmas.map Vma.ptr ⊆ (List.range 4294967295).map (· + 1) := by
    intro x hx
    obtain ⟨v, hv, rfl⟩ := List.mem_map.mp hx
    have hb := h.bound v hv
    exact List.mem_map.mpr ⟨v.ptr - 1, List.mem_range.mpr (by omega), by omega⟩
  have hlen : (vmas.map Vma.ptr).length ≤ ((List.range 4294967295).map (· + 1)).length :=
    (h.nodup.subperm hsub).length_le
  rw [List.length_map, List.length_map, List.length_range] at hlen
  omega

theorem Placed.append {vmas : List Vma} (h : Placed vmas) {v : Vma}
    (hv : 0 < v.ptr ∧ v.ptr < 4294967296) (hnew : ∀ w ∈ vmas, w.ptr ≠ v.ptr) :
    Placed (vmas ++ [v]) where
  nodup := by
    rw [List.map_append, List.map_singleton, List.nodup_append]
    refine ⟨h.nodup, List.nodup_singleton _, fun x hx y hy => ?_⟩
    obtain ⟨w, hw, rfl⟩ := List.mem_map.mp hx
    rw [List.mem_singleton.mp hy]
    exact hnew w hw
  bound := by
    intro w hw
    cases List.mem_append.mp hw with
    | inl hw => exact h.bound w hw
    | inr hw =>
      rw [List.mem_singleton.mp hw]
      exact hv

theorem Placed.erase {vmas : List Vma} (h : Placed vmas) (v : Vma) : Placed (vmas.erase v) where
  nodup := h.nodup.sublist (List.Sublist.map _ List.erase_sublist)
  bound := fun w hw => h.bound w (List.mem_of_mem_erase hw)

@[simp] theorem mappings_append (vmas : List Vma) (v : Vma) (p : ℕ) :
    mappings (vmas ++ [v]) p = mappings vmas p + if v.privateData = p then 1 else 0 := by
  unfold mappings
  rw [List.countP_append, List.countP_singleton]
  simp

theorem mappings_erase {vmas : List Vma} {v : Vma} (hv : v ∈ vmas) (p : ℕ) :
    mappings (vmas.erase v) p + (if v.privateData = p then 1 else 0) = mappings vmas p := by
  have hperm : vmas.Perm (v :: vmas.erase v) := List.perm_cons_erase hv
  unfold mappings
  rw [hperm.countP_eq, List.countP_cons]
  simp

theorem mappings_pos {vmas : List Vma} {v : Vma} (hv : v ∈ vmas) :
    0 < mappings vmas v.privateData :=
  List.countP_pos_iff.mpr ⟨v, hv, by simp⟩

theorem mappings_eq_zero {vmas : List Vma} :
    mappings vmas p = 0 ↔ ∀ v ∈ vmas, v.privateData ≠ p := by
  simp [mappings, List.countP_eq_zero]

@[simp] theorem setStruct_global :
    (s.setStruct p o).mmapOffsetStructList = s.mmapOffsetStructList := rfl

@[simp] theorem setArea_areaList :
    (s.setArea a area).mmapAreaList = s.mmapAreaList := rfl

@[simp] theorem registered_setStruct : (s.setStruct p o).registered a = s.registered a := rfl

theorem registered_iff : s.registered a = true ↔
    ∃ area, s.areas a = some area ∧ area.mmapRegistered = true := by
  simp [MmapData.registered, Option.any_eq_true]

/-- A structure changes its flag and its counts, and the global list and the mappings follow. -/
theorem Linked.change (h : Linked s) (ho : s.offsetStructs p = some o) (o' : KvOffsetStruct)
    (harea : o'.linuxMemArea = o.linuxMemArea) {global : List ℕ} {vmas : List Vma}
    (hglobal : ∀ q, q ∈ global ↔
      if q = p then o'.onMMapList = true else q ∈ s.mmapOffsetStructList)
    (hnodup : global.Nodup)
    (hmapped : ∀ q, mappings vmas q = if q = p then o'.mapped else mappings s.vmas q)
    (hwaiting : o'.onMMapList = true → o'.mapped = 0)
    (hheld : ∀ v ∈ vmas, v.privateData = p ∨ v ∈ s.vmas) (hplaced : Placed vmas) :
    Linked ⟨Function.update s.offsetStructs p (some o'), s.areas, global, s.mmapAreaList, vmas,
      s.memmapCache⟩ := by
  have hself : Function.update s.offsetStructs p (some o') p = some o' := Function.update_self ..
  have hother (q : ℕ) (hq : q ≠ p) :
      Function.update s.offsetStructs p (some o') q = s.offsetStructs q :=
    Function.update_of_ne hq ..
  constructor
  case areaList => exact h.areaList
  case areasNodup => exact h.areasNodup
  case items =>
    intro a area ha q
    rw [h.items a area ha q]
    by_cases hq : q = p
    · subst hq
      simp [ho, harea]
    · simp [hother q hq]
  case itemsNodup => exact h.itemsNodup
  case owned =>
    intro q x hx
    cases update_some_cases hx with
    | inl hq =>
      rw [hq.2, harea]
      exact h.owned p o ho
    | inr hq => exact h.owned q x hq.2
  case global =>
    intro q
    refine (hglobal q).trans ?_
    by_cases hq : q = p
    · subst hq
      simp
    · simp only [hq, if_false, hother q hq]
      exact h.global q
  case globalNodup => exact hnodup
  case mapped =>
    intro q x hx
    refine Eq.trans ?_ (hmapped q).symm
    cases update_some_cases hx with
    | inl hq => rw [if_pos hq.1, hq.2]
    | inr hq =>
      rw [if_neg hq.1]
      exact h.mapped q x hq.2
  case waiting =>
    intro q x hx
    cases update_some_cases hx with
    | inl hq =>
      rw [hq.2]
      exact hwaiting
    | inr hq => exact h.waiting q x hq.2
  case held =>
    intro v hv
    by_cases hq : v.privateData = p
    · exact ⟨o', by rw [hq]; exact hself⟩
    · obtain ⟨x, hx⟩ := h.held v ((hheld v hv).resolve_left hq)
      exact ⟨x, by rw [← hx]; exact hother _ hq⟩
  case placed => exact hplaced
  case cache =>
    intro q
    refine (h.cache q).trans ?_
    by_cases hq : q = p
    · subst hq
      simp [ho]
    · simp [hother q hq]

theorem Linked.setStruct (h : Linked s) (ho : s.offsetStructs p = some o)
    (harea : o'.linuxMemArea = o.linuxMemArea) (hflag : o'.onMMapList = o.onMMapList)
    (hmapped : o'.mapped = o.mapped) : Linked (s.setStruct p o') := by
  apply h.change ho o' harea
  case hglobal =>
    intro q
    by_cases hq : q = p
    · subst hq
      rw [if_pos rfl, h.global q, hflag]
      simp [ho]
    · rw [if_neg hq]
  case hnodup => exact h.globalNodup
  case hmapped =>
    intro q
    by_cases hq : q = p
    · subst hq
      rw [if_pos rfl, hmapped]
      exact (h.mapped q o ho).symm
    · rw [if_neg hq]
  case hwaiting =>
    rw [hflag, hmapped]
    exact h.waiting p o ho
  case hheld => exact fun v hv => .inr hv
  case hplaced => exact h.placed

theorem nodup_snoc {l : List ℕ} (h : l.Nodup) (hp : p ∉ l) : (l ++ [p]).Nodup :=
  (List.nodup_append_comm.mp (List.nodup_cons.mpr ⟨hp, h⟩ : ([p] ++ l).Nodup))

theorem registered_setArea {b : ℕ} (ha : s.areas a = some area) {items : List ℕ} :
    (s.setArea a { area with mmapOffsetStructList := items }).registered b = s.registered b := by
  unfold MmapData.registered MmapData.setArea
  by_cases hb : b = a
  · subst hb
    simp [ha]
  · simp [hb]

theorem Linked.create (h : Linked s) (hp : s.offsetStructs p = none)
    (ha : s.areas a = some area) (hreg : area.mmapRegistered = true)
    (harea : o.linuxMemArea = a) (hflag : o.onMMapList = true) (hmapped : o.mapped = 0) :
    Linked ⟨Function.update s.offsetStructs p (some o),
      Function.update s.areas a
        (some { area with mmapOffsetStructList := area.mmapOffsetStructList ++ [p] }),
      s.mmapOffsetStructList ++ [p], s.mmapAreaList, s.vmas, s.memmapCache ++ [.alloc p]⟩ := by
  have hother (q : ℕ) (hq : q ≠ p) :
      Function.update s.offsetStructs p (some o) q = s.offsetStructs q :=
    Function.update_of_ne hq ..
  have hitem : p ∉ area.mmapOffsetStructList := by
    rw [h.items a area ha p]
    simp [hp]
  have hlisted : p ∉ s.mmapOffsetStructList := by
    rw [h.global p]
    simp [hp]
  have hunmapped : mappings s.vmas p = 0 := by
    rw [mappings_eq_zero]
    intro v hv hvp
    obtain ⟨x, hx⟩ := h.held v hv
    rw [hvp, hp] at hx
    cases hx
  have hregistered (b : ℕ) : (s.setArea a
      { area with mmapOffsetStructList := area.mmapOffsetStructList ++ [p] }).registered b =
      s.registered b := registered_setArea ha
  constructor
  case areaList =>
    intro b
    exact (h.areaList b).trans (by rw [← hregistered b]; rfl)
  case areasNodup => exact h.areasNodup
  case items =>
    intro b x hx q
    cases update_some_cases hx with
    | inl hb =>
      rw [hb.1, hb.2, List.mem_append, List.mem_singleton, h.items a area ha q]
      by_cases hq : q = p
      · subst hq
        simp [harea]
      · simp [hq]
    | inr hb =>
      rw [h.items b x hb.2 q]
      by_cases hq : q = p
      · subst hq
        simp [hp, harea, Ne.symm hb.1]
      · simp [hother q hq]
  case itemsNodup =>
    intro b x hx
    cases update_some_cases hx with
    | inl hb =>
      rw [hb.2]
      exact nodup_snoc (h.itemsNodup a area ha) hitem
    | inr hb => exact h.itemsNodup b x hb.2
  case owned =>
    intro q x hx
    refine Eq.trans (hregistered _) ?_
    cases update_some_cases hx with
    | inl hq =>
      rw [hq.2, harea]
      exact registered_iff.mpr ⟨area, ha, hreg⟩
    | inr hq => exact h.owned q x hq.2
  case global =>
    intro q
    rw [List.mem_append, List.mem_singleton, h.global q]
    by_cases hq : q = p
    · subst hq
      simp [hflag]
    · simp [hq]
  case globalNodup => exact nodup_snoc h.globalNodup hlisted
  case mapped =>
    intro q x hx
    cases update_some_cases hx with
    | inl hq =>
      rw [hq.1, hq.2, hmapped]
      exact hunmapped.symm
    | inr hq => exact h.mapped q x hq.2
  case waiting =>
    intro q x hx
    cases update_some_cases hx with
    | inl hq =>
      rw [hq.2]
      exact fun _ => hmapped
    | inr hq => exact h.waiting q x hq.2
  case held =>
    intro v hv
    obtain ⟨x, hx⟩ := h.held v hv
    have hne : v.privateData ≠ p := fun hvp => by rw [hvp, hp] at hx; cases hx
    exact ⟨x, by rw [← hx]; exact hother _ hne⟩
  case placed => exact h.placed
  case cache =>
    intro q
    have hq' := h.cache q
    rw [List.count_append, List.count_append]
    by_cases hq : q = p
    · subst hq
      simp only [hp, Option.isSome_none, Bool.false_eq_true, if_false] at hq'
      simp
      omega
    · simp only [hother q hq]
      simp [Ne.symm hq]
      omega

theorem listDel_of_mem {l : List ℕ} (h : p ∈ l) : listDel l p = some (l.erase p) := if_pos h

/-- A structure that nothing maps is destroyed: it leaves its lists and is no longer there. -/
theorem Linked.destroy (h : Linked s) (ho : s.offsetStructs p = some o) (hm : o.mapped = 0) :
    ∃ s', destroyOffsetStruct s p = some s' ∧ Linked s' ∧
      s'.offsetStructs = Function.update s.offsetStructs p none ∧
      (∀ b, s'.areas b = (s.areas b).map fun area =>
        { area with mmapOffsetStructList := area.mmapOffsetStructList.erase p }) ∧
      s'.mmapOffsetStructList = s.mmapOffsetStructList.erase p ∧
      s'.mmapAreaList = s.mmapAreaList ∧ s'.vmas = s.vmas := by
  obtain ⟨area, ha, hreg⟩ := registered_iff.mp (h.owned p o ho)
  have hitem : p ∈ area.mmapOffsetStructList := (h.items _ area ha p).mpr ⟨o, ho, rfl⟩
  have hglobal : (if o.onMMapList then listDel s.mmapOffsetStructList p
      else some s.mmapOffsetStructList) = some (s.mmapOffsetStructList.erase p) := by
    cases hflag : o.onMMapList with
    | true => exact listDel_of_mem ((h.global p).mpr ⟨o, ho, hflag⟩)
    | false =>
      have hnot : p ∉ s.mmapOffsetStructList := by
        rw [h.global p]
        simp [ho, hflag]
      rw [List.erase_of_not_mem hnot]
      rfl
  have hunmapped : mappings s.vmas p = 0 := by
    rw [← h.mapped p o ho]
    exact hm
  have hareas (b : ℕ) : Function.update s.areas o.linuxMemArea (some { area with
      mmapOffsetStructList := area.mmapOffsetStructList.erase p }) b =
      (s.areas b).map fun area =>
        { area with mmapOffsetStructList := area.mmapOffsetStructList.erase p } := by
    by_cases hb : b = o.linuxMemArea
    · rw [hb, Function.update_self, ha]
      rfl
    · rw [Function.update_of_ne hb]
      cases hx : s.areas b with
      | none => rfl
      | some x =>
        have hnot : p ∉ x.mmapOffsetStructList := by
          rw [h.items b x hx p]
          simp [ho, Ne.symm hb]
        rw [Option.map_some, List.erase_of_not_mem hnot]
  have hregistered (b : ℕ) : (s.setArea o.linuxMemArea
      { area with mmapOffsetStructList := area.mmapOffsetStructList.erase p }).registered b =
      s.registered b := registered_setArea ha
  have hself : Function.update s.offsetStructs p none p = none := Function.update_self ..
  have hother (q : ℕ) (hq : q ≠ p) :
      Function.update s.offsetStructs p none q = s.offsetStructs q :=
    Function.update_of_ne hq ..
  have hlive {q : ℕ} {x : KvOffsetStruct}
      (hx : Function.update s.offsetStructs p none q = some x) :
      q ≠ p ∧ s.offsetStructs q = some x := by
    have hq : q ≠ p := fun hq => by rw [hq, hself] at hx; cases hx
    exact ⟨hq, by rw [← hx]; exact (hother q hq).symm⟩
  refine ⟨⟨Function.update s.offsetStructs p none, Function.update s.areas o.linuxMemArea
    (some { area with mmapOffsetStructList := area.mmapOffsetStructList.erase p }),
    s.mmapOffsetStructList.erase p, s.mmapAreaList, s.vmas, s.memmapCache ++ [.free p]⟩, ?_, ?_,
    rfl, hareas, rfl, rfl, rfl⟩
  · unfold destroyOffsetStruct
    simp only [ho, ha, listDel_of_mem hitem, hglobal, Option.bind_eq_bind, Option.bind_some]
    rfl
  · constructor
    case areaList =>
      intro b
      exact (h.areaList b).trans (by rw [← hregistered b]; rfl)
    case areasNodup => exact h.areasNodup
    case items =>
      intro b x hx q
      obtain ⟨y, hy, hyx⟩ := Option.map_eq_some_iff.mp ((hareas b).symm.trans hx)
      rw [← hyx, (h.itemsNodup b y hy).mem_erase_iff, h.items b y hy q]
      by_cases hq : q = p
      · subst hq
        simp
      · simp [hq]
    case itemsNodup =>
      intro b x hx
      obtain ⟨y, hy, hyx⟩ := Option.map_eq_some_iff.mp ((hareas b).symm.trans hx)
      rw [← hyx]
      exact (h.itemsNodup b y hy).erase p
    case owned => exact fun q x hx => (hregistered _).trans (h.owned q x (hlive hx).2)
    case global =>
      intro q
      rw [h.globalNodup.mem_erase_iff, h.global q]
      by_cases hq : q = p
      · subst hq
        simp
      · simp [hq]
    case globalNodup => exact h.globalNodup.erase p
    case mapped => exact fun q x hx => h.mapped q x (hlive hx).2
    case waiting => exact fun q x hx => h.waiting q x (hlive hx).2
    case held =>
      intro v hv
      obtain ⟨x, hx⟩ := h.held v hv
      exact ⟨x, by rw [← hx]; exact hother _ (mappings_eq_zero.mp hunmapped v hv)⟩
    case placed => exact h.placed
    case cache =>
      intro q
      have hq' := h.cache q
      rw [List.count_append, List.count_append]
      by_cases hq : q = p
      · subst hq
        simp only [ho, Option.isSome_some, if_true] at hq'
        simp
        omega
      · simp only [hother q hq]
        simp [Ne.symm hq]
        omega

end PvrServices.Mmaps
