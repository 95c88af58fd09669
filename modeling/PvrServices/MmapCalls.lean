import PvrServices.MmapInvariant

set_option autoImplicit false

/-!
# What the calls do to the offset structures

Every call that its callers make properly has an answer, and leaves the lists, the flags and the
counts in step.
-/
namespace PvrServices.Mmaps
open Ownership Words
variable {s s' : MmapData} {p q a : ℕ} {o o' : KvOffsetStruct} {area : LinuxMemArea} {t : Task}

/-- A search of a list of structures finds the first one, or says that there is none. -/
theorem findStruct_spec {f : KvOffsetStruct → Bool} {l : List ℕ}
    (h : ∀ p ∈ l, ∃ o, s.offsetStructs p = some o) :
    (∃ pre p post o, l = pre ++ p :: post ∧ s.offsetStructs p = some o ∧ f o = true ∧
      (∀ q ∈ pre, ∀ o, s.offsetStructs q = some o → f o = false) ∧
      findStruct s f l = some (some p)) ∨
    (∀ p ∈ l, ∀ o, s.offsetStructs p = some o → f o = false) ∧ findStruct s f l = some none := by
  induction l with
  | nil => exact .inr ⟨nofun, rfl⟩
  | cons p l ih =>
    obtain ⟨o, ho⟩ := h p List.mem_cons_self
    cases hf : f o with
    | true => exact .inl ⟨[], p, l, o, rfl, ho, hf, nofun, by simp [findStruct, ho, hf]⟩
    | false =>
      have hstep : findStruct s f (p :: l) = findStruct s f l := by simp [findStruct, ho, hf]
      have hhead (q : ℕ) (hq : q = p) (x : KvOffsetStruct) (hx : s.offsetStructs q = some x) :
          f x = false := by
        rw [hq, ho, Option.some.injEq] at hx
        rw [← hx]
        exact hf
      rw [hstep]
      cases ih fun q hq => h q (List.mem_cons_of_mem _ hq) with
      | inl hfound =>
        obtain ⟨pre, q, post, x, hl, hx, hfx, hpre, hfind⟩ := hfound
        refine .inl ⟨p :: pre, q, post, x, by rw [hl]; rfl, hx, hfx, fun r hr => ?_, hfind⟩
        cases List.mem_cons.mp hr with
        | inl hr => exact hhead r hr
        | inr hr => exact hpre r hr
      | inr hnone =>
        refine .inr ⟨fun r hr => ?_, hnone.2⟩
        cases List.mem_cons.mp hr with
        | inl hr => exact hhead r hr
        | inr hr => exact hnone.1 r hr

theorem Linked.live_item (h : Linked s) (ha : s.areas a = some area) :
    ∀ p ∈ area.mmapOffsetStructList, ∃ o, s.offsetStructs p = some o := by
  intro p hp
  obtain ⟨o, ho, -⟩ := (h.items a area ha p).mp hp
  exact ⟨o, ho⟩

theorem Linked.live_global (h : Linked s) :
    ∀ p ∈ s.mmapOffsetStructList, ∃ o, s.offsetStructs p = some o := by
  intro p hp
  obtain ⟨o, ho, -⟩ := (h.global p).mp hp
  exact ⟨o, ho⟩

theorem Coherent.setStruct (h : Coherent s) (ho : s.offsetStructs p = some o)
    (harea : o'.linuxMemArea = o.linuxMemArea) (hflag : o'.onMMapList = o.onMMapList)
    (hmapped : o'.mapped = o.mapped) : Coherent (s.setStruct p o') where
  toLinked := h.toLinked.setStruct ho harea hflag hmapped
  alive := by
    intro q x hx
    cases update_some_cases hx with
    | inl hq =>
      rw [hq.2, hflag, hmapped]
      exact h.alive p o ho
    | inr hq => exact h.alive q x hq.2

structure Destroyed (s s' : MmapData) (p : ℕ) : Prop where
  structs : s'.offsetStructs = Function.update s.offsetStructs p none
  areas : ∀ b, s'.areas b = (s.areas b).map fun area =>
    { area with mmapOffsetStructList := area.mmapOffsetStructList.erase p }
  global : s'.mmapOffsetStructList = s.mmapOffsetStructList.erase p
  areaList : s'.mmapAreaList = s.mmapAreaList
  vmas : s'.vmas = s.vmas

theorem Destroyed.live (h : Destroyed s s' p) (hq : s'.offsetStructs q = some o) :
    q ≠ p ∧ s.offsetStructs q = some o := by
  rw [h.structs] at hq
  by_cases hqp : q = p
  · rw [hqp, Function.update_self] at hq
    cases hq
  · rw [Function.update_of_ne hqp] at hq
    exact ⟨hqp, hq⟩

theorem Linked.destroyed (h : Linked s) (ho : s.offsetStructs p = some o) (hm : o.mapped = 0)
    (halive : ∀ q ≠ p, ∀ o, s.offsetStructs q = some o → o.onMMapList = true ∨ o.mapped ≠ 0) :
    ∃ s', destroyOffsetStruct s p = some s' ∧ Coherent s' ∧ Destroyed s s' p := by
  obtain ⟨s', hs, hlinked, hstructs, hareas, hglobal, hlist, hvmas⟩ := h.destroy ho hm
  have hd : Destroyed s s' p := ⟨hstructs, hareas, hglobal, hlist, hvmas⟩
  exact ⟨s', hs, ⟨hlinked, fun q x hx => halive q (hd.live hx).1 x (hd.live hx).2⟩, hd⟩

theorem Coherent.destroyed (h : Coherent s) (ho : s.offsetStructs p = some o)
    (hm : o.mapped = 0) :
    ∃ s', destroyOffsetStruct s p = some s' ∧ Coherent s' ∧ Destroyed s s' p :=
  h.toLinked.destroyed ho hm fun q _ x hx => h.alive q x hx

def newRequest (s : MmapData) (t : Task) (p a : ℕ) (area : LinuxMemArea) (offset : ℕ) : MmapData :=
  ⟨Function.update s.offsetStructs p (some ⟨0, offset, (determineUsersSizeAndByteOffset area).1, a,
      t.tid, t.pid, true, u32 1, 0⟩),
    Function.update s.areas a
      (some { area with mmapOffsetStructList := area.mmapOffsetStructList ++ [p] }),
    s.mmapOffsetStructList ++ [p], s.mmapAreaList, s.vmas, s.memmapCache ++ [.alloc p]⟩

/-- A request finds the structure of the process on the area's list, or makes one. -/
theorem Linked.toMMapData_cases (h : Linked s) (perProc : ℕ) (t : Task) (handle : ℕ)
    (cache : Option ℕ) (ha : s.areas a = some area) :
    (∃ p o, s.offsetStructs p = some o ∧ o.pid = perProc ∧ o.linuxMemArea = a ∧
      pvrMMapOSMemHandleToMMapData s perProc t handle (.ok a) cache =
        some (.ok ⟨o.mmapOffset, (determineUsersSizeAndByteOffset area).2,
          (determineUsersSizeAndByteOffset area).1, o.userVAddr⟩,
          s.setStruct p { o with refCount := u32 (o.refCount + 1) })) ∨
    (cache = none ∧ pvrMMapOSMemHandleToMMapData s perProc t handle (.ok a) cache =
      some (.error .errorOutOfMemory, s)) ∨
    ∃ p, cache = some p ∧
      (∀ q o, s.offsetStructs q = some o → o.linuxMemArea = a → o.pid ≠ perProc) ∧
      pvrMMapOSMemHandleToMMapData s perProc t handle (.ok a) cache =
        some (.ok ⟨newMMapOffset area handle, (determineUsersSizeAndByteOffset area).2,
          (determineUsersSizeAndByteOffset area).1, 0⟩,
          newRequest s t p a area (newMMapOffset area handle)) := by
  unfold pvrMMapOSMemHandleToMMapData
  simp only [ha, Option.bind_eq_bind, Option.bind_some]
  cases findStruct_spec (f := fun o => o.pid = perProc) (h.live_item ha) with
  | inl hfound =>
    obtain ⟨pre, p, post, o, hl, ho, hf, -, hfind⟩ := hfound
    obtain ⟨x, hx, hxa⟩ := (h.items a area ha p).mp (by rw [hl]; simp)
    rw [ho, Option.some.injEq] at hx
    rw [← hx] at hxa
    simp only [hfind, ho, Option.bind_some]
    exact .inl ⟨p, o, ho, of_decide_eq_true hf, hxa, rfl⟩
  | inr hnone =>
    simp only [hnone.2, Option.bind_some]
    cases cache with
    | none => exact .inr (.inl ⟨rfl, rfl⟩)
    | some p =>
      simp only [createOffsetStruct, MmapData.setStruct, MmapData.setArea,
        Function.update_self, Option.bind_some, Function.update_idem]
      refine .inr (.inr ⟨p, rfl, fun q o ho hoa => ?_, rfl⟩)
      exact of_decide_eq_false (hnone.1 q ((h.items a area ha q).mpr ⟨o, ho, hoa⟩) o ho)

theorem Coherent.newRequest (h : Coherent s) {offset : ℕ} (hp : s.offsetStructs p = none)
    (ha : s.areas a = some area) (hreg : area.mmapRegistered = true) :
    Coherent (newRequest s t p a area offset) where
  toLinked := h.toLinked.create hp ha hreg rfl rfl rfl
  alive := by
    intro q x hx
    cases update_some_cases hx with
    | inl hq =>
      rw [hq.2]
      exact .inl rfl
    | inr hq => exact h.alive q x hq.2

theorem Coherent.toMMapData (h : Coherent s) (perProc : ℕ) (t : Task) (handle : ℕ)
    {lookup : Except PvrsrvError ℕ} {cache : Option ℕ}
    (hlookup : ∀ a, lookup = .ok a → s.registered a = true)
    (hcache : ∀ p, cache = some p → s.offsetStructs p = none) :
    ∃ r s', pvrMMapOSMemHandleToMMapData s perProc t handle lookup cache = some (r, s') ∧
      Coherent s' := by
  cases lookup with
  | error e => exact ⟨_, _, rfl, h⟩
  | ok a =>
    obtain ⟨area, ha, hreg⟩ := registered_iff.mp (hlookup a rfl)
    obtain ⟨p, o, ho, -, -, heq⟩ | ⟨-, heq⟩ | ⟨p, hp, -, heq⟩ :=
      h.toMMapData_cases perProc t handle cache ha
    · exact ⟨_, _, heq, h.setStruct ho rfl rfl rfl⟩
    · exact ⟨_, _, heq, h⟩
    · exact ⟨_, _, heq, h.newRequest (hcache p hp) ha hreg⟩

theorem Linked.release_cases (h : Linked s) (ha : s.areas a = some area) :
    ∃ r s', pvrMMapReleaseMMapData s t (.ok a) = some (r, s') ∧
      (s' = s ∨ ∃ p o n, s.offsetStructs p = some o ∧
        s' = s.setStruct p { o with refCount := n }) := by
  unfold pvrMMapReleaseMMapData
  simp only [ha, Option.bind_eq_bind, Option.bind_some]
  cases findStruct_spec (f := fun o => o.pid = t.pid) (h.live_item ha) with
  | inl hfound =>
    obtain ⟨pre, p, post, o, -, ho, -, -, hfind⟩ := hfound
    simp only [hfind, ho, Option.bind_some]
    split
    · exact ⟨_, _, rfl, .inl rfl⟩
    · exact ⟨_, _, rfl, .inr ⟨p, o, _, ho, rfl⟩⟩
  | inr hnone =>
    simp only [hnone.2, Option.bind_some]
    exact ⟨_, _, rfl, .inl rfl⟩

theorem Coherent.release (h : Coherent s) {lookup : Except PvrsrvError ℕ}
    (hlookup : ∀ a, lookup = .ok a → s.registered a = true) :
    ∃ r s', pvrMMapReleaseMMapData s t lookup = some (r, s') ∧ Coherent s' := by
  cases lookup with
  | error e => exact ⟨_, _, rfl, h⟩
  | ok a =>
    obtain ⟨area, ha, -⟩ := registered_iff.mp (hlookup a rfl)
    obtain ⟨r, s', heq, hs⟩ := h.toLinked.release_cases (t := t) ha
    refine ⟨r, s', heq, ?_⟩
    cases hs with
    | inl hs =>
      rw [hs]
      exact h
    | inr hs =>
      obtain ⟨p, o, n, ho, hs⟩ := hs
      rw [hs]
      exact h.setStruct ho rfl rfl rfl

def newMapping (s : MmapData) (v : MmapCall) (p : ℕ) (o : KvOffsetStruct) (pages : List ℕ) :
    MmapData :=
  ⟨Function.update s.offsetStructs p
      (some { o with onMMapList := false, userVAddr := v.vmStart, mapped := u32 (o.mapped + 1) }),
    s.areas, s.mmapOffsetStructList.erase p, s.mmapAreaList,
    s.vmas ++ [⟨v.ptr, v.vmStart, v.vmPgoff, p, pages⟩], s.memmapCache⟩

theorem destroy_taken (ho : s.offsetStructs p = some o) (hflag : o.onMMapList = true)
    (hmem : p ∈ s.mmapOffsetStructList) :
    destroyOffsetStruct { s.setStruct p { o with onMMapList := false } with
      mmapOffsetStructList := s.mmapOffsetStructList.erase p } p = destroyOffsetStruct s p := by
  unfold destroyOffsetStruct MmapData.setStruct MmapData.setArea
  simp only [Function.update_self, ho, hflag, listDel_of_mem hmem, Option.bind_eq_bind,
    Option.bind_some, Bool.false_eq_true, if_false, if_true, Function.update_idem]

/-- `mmap(2)` is refused, or takes the first structure that stands for the offset and the size:
    that one is mapped or destroyed. -/
theorem Linked.pvrMMap_cases (h : Linked s) (v : MmapCall) :
    ((v.vmWrite && !v.vmShared ∨
        findOffsetStructByOffset s t v.vmPgoff v.byteSize = some none) ∧
      pvrMMap s t v = some (.error .einval, s)) ∨
    ∃ pre p post o area, s.mmapOffsetStructList = pre ++ p :: post ∧
      s.offsetStructs p = some o ∧ o.standsFor t v.vmPgoff v.byteSize = true ∧
      (∀ q ∈ pre, ∀ o, s.offsetStructs q = some o → o.standsFor t v.vmPgoff v.byteSize = false) ∧
      s.areas o.linuxMemArea = some area ∧
      (((checkSize area v.byteSize = false ∨ area.cacheType = .unknown ∨
          doMapToUser v.kernel v.vmPgoff v.byteSize area.data 0 = none) ∧
          ∃ e, pvrMMap s t v = failMMap s p e) ∨
        area.cacheType ≠ .unknown ∧
          ∃ pages, doMapToUser v.kernel v.vmPgoff v.byteSize area.data 0 = some pages ∧
            pvrMMap s t v = some (.ok (), newMapping s v p o pages)) := by
  unfold pvrMMap
  cases hflags : v.vmWrite && !v.vmShared with
  | true => exact .inl ⟨.inl rfl, rfl⟩
  | false =>
    cases findStruct_spec (f := fun o => o.standsFor t v.vmPgoff v.byteSize) h.live_global with
    | inr hnone =>
      have hfind : findOffsetStructByOffset s t v.vmPgoff v.byteSize = some none := hnone.2
      exact .inl ⟨.inr hfind, by simp [hfind]⟩
    | inl hfound =>
      obtain ⟨pre, p, post, o, hl, ho, hf, hpre, hfind⟩ := hfound
      have hfind : findOffsetStructByOffset s t v.vmPgoff v.byteSize = some (some p) := hfind
      obtain ⟨area, ha, -⟩ := registered_iff.mp (h.owned p o ho)
      have hmem : p ∈ s.mmapOffsetStructList := by
        rw [hl]
        simp
      have hflag : o.onMMapList = true := by
        obtain ⟨x, hx, hxf⟩ := (h.global p).mp hmem
        rw [ho, Option.some.injEq] at hx
        rwa [hx]
      have hfail (e : Errno) : failMMap { s.setStruct p { o with onMMapList := false } with
          mmapOffsetStructList := s.mmapOffsetStructList.erase p } p e = failMMap s p e := by
        unfold failMMap
        rw [destroy_taken ho hflag hmem]
      refine .inr ⟨pre, p, post, o, area, hl, ho, hf, hpre, ha, ?_⟩
      have hareas : (s.setStruct p { o with onMMapList := false }).areas o.linuxMemArea =
          some area := ha
      simp only [Bool.false_eq_true, if_false, hfind, ho, listDel_of_mem hmem, hareas,
        Option.bind_eq_bind, Option.bind_some, hfail]
      split
      · rename_i hsize
        exact .inl ⟨.inl (by simpa using hsize), _, rfl⟩
      · split
        · rename_i hcache
          exact .inl ⟨.inr (.inl hcache), _, rfl⟩
        · rename_i hcache
          cases hmap : doMapToUser v.kernel v.vmPgoff v.byteSize area.data 0 with
          | none => exact .inl ⟨.inr (.inr rfl), _, rfl⟩
          | some pages =>
            refine .inr ⟨hcache, pages, rfl, ?_⟩
            simp [mmapVOpenNoLock, newMapping, MmapData.setStruct]

end PvrServices.Mmaps
