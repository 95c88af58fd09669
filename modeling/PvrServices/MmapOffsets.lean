import PvrServices.MmapRuns

set_option autoImplicit false

/-!
# Which area an offset stands for

The handles of the processes beside the module, and what each process was last answered for an
offset and a size. An offset is the number of a handle, which is used again; a request that was
never mapped stays on the global list under its offset when the handle is gone.
-/
namespace PvrServices.Mmaps
open Ownership Runs Words
variable {s s' u : MmapData} {p q a : ℕ} {o o' : KvOffsetStruct} {area : LinuxMemArea} {t : Task}

/-- The module, the areas behind the handles of each process, and the handle and the area that
    an offset and a size were last answered for. What is due is to be mapped by the thread that was
    answered. -/
structure MmapSys where
  mmap : MmapData
  handles : ℕ → ℕ → Option ℕ
  answered : ℕ → ℕ → ℕ → Option (ℕ × ℕ)
  due : ℕ → ℕ → ℕ → Option (ℕ × ℕ × ℕ)

def sysInit : MmapSys := ⟨mmapInit, fun _ _ => none, fun _ _ _ => none, fun _ _ _ => none⟩

inductive SysOp where
  | entry (op : MmapOp)
  | allocHandle (pid handle a : ℕ)
  | freeHandle (pid handle : ℕ)

def recordAnswer (answered : ℕ → ℕ → ℕ → Option (ℕ × ℕ)) :
    MmapOp → MmapReply → ℕ → ℕ → ℕ → Option (ℕ × ℕ)
  | .toMMapData t handle (.ok a) _, .data (.ok ans) => fun pid offset size =>
    if pid = t.pid ∧ offset = ans.mmapOffset ∧ size = ans.realByteSize then some (handle, a)
    else answered pid offset size
  | _, _ => answered

/-- An answer without an address in the process is due until the process calls `mmap(2)` with it, or
    leaves, or the area is given up. -/
def recordDue (due : ℕ → ℕ → ℕ → Option (ℕ × ℕ × ℕ)) :
    MmapOp → MmapReply → ℕ → ℕ → ℕ → Option (ℕ × ℕ × ℕ)
  | .toMMapData t handle (.ok a) _, .data (.ok ans) => fun pid offset size =>
    if pid = t.pid ∧ offset = ans.mmapOffset ∧ size = ans.realByteSize then
      if ans.userVAddr = 0 then some (t.tid, handle, a) else none
    else due pid offset size
  | .mmap t v, _ => fun pid offset size =>
    if pid = t.pid ∧ offset = v.vmPgoff ∧ size = v.byteSize then none else due pid offset size
  | .disconnect t, _ => fun pid offset size => if pid = t.pid then none else due pid offset size
  | .removeArea a, _ => fun pid offset size =>
    (due pid offset size).filter fun d => d.2.2 ≠ a
  | _, _ => due

def sysStep (x : MmapSys) : SysOp → Option (MmapReply × MmapSys)
  | .entry op => (mmapStep x.mmap op).map fun r =>
    (r.1, ⟨r.2, x.handles, recordAnswer x.answered op r.1, recordDue x.due op r.1⟩)
  | .allocHandle pid handle a => some (.done, { x with
      handles := Function.update x.handles pid (Function.update (x.handles pid) handle (some a)) })
  | .freeHandle pid handle => some (.done, { x with
      handles := Function.update x.handles pid (Function.update (x.handles pid) handle none) })

/-- The lookups answer what the handles stand for, a handle is not in use twice, and the kernel maps
    nothing at address 0. -/
def SysProper (x : MmapSys) : SysOp → Prop
  | .entry op => Proper x.mmap op ∧
    match op with
    | .toMMapData t handle lookup _ => ∀ a, lookup = .ok a → x.handles t.pid handle = some a
    | .mmap _ v => v.vmStart ≠ 0
    | _ => True
  | .allocHandle pid handle a => x.handles pid handle = none ∧ x.mmap.registered a = true
  | .freeHandle pid handle => (x.handles pid handle).isSome = true

/-- `mmap(2)` takes no request for another area than `a` off the global list, and what it maps
    are the pages of `a`. -/
def MapsOnly (s : MmapData) (t : Task) (v : MmapCall) (a : ℕ) : Prop :=
  ∀ r s', pvrMMap s t v = some (r, s') →
    (∀ p o, p ∈ s.mmapOffsetStructList → s.offsetStructs p = some o →
      p ∉ s'.mmapOffsetStructList → o.linuxMemArea = a) ∧
    (r = .ok () → ∃ w area, s'.vmas = s.vmas ++ [w] ∧ s.areas a = some area ∧
      doMapToUser v.kernel v.vmPgoff v.byteSize area.data 0 = some w.pages)

/-- The mapping is not private and writable, and the kernel puts in all its pages. -/
structure MmapCall.Granted (v : MmapCall) : Prop where
  flags : v.vmWrite = false ∨ v.vmShared = true
  pages : (pfnIsPhysical v.vmPgoff = true ∧ v.kernel.ioRemapPfnRange = true) ∨
    (∀ pfn, v.kernel.pfnValid pfn = true) ∧ ∀ i, v.kernel.vmInsertPage i = true

/-- Every thread that maps the offset and the size which its process was last answered for a
    handle that still stands for the area maps that area, and the thread that was answered, if it
    is the next to call, does map it. -/
structure MapsAnswered (x : MmapSys) : Prop where
  only : ∀ t v handle a, x.answered t.pid v.vmPgoff v.byteSize = some (handle, a) →
    x.handles t.pid handle = some a → MapsOnly x.mmap t v a
  maps : ∀ t v handle a, x.due t.pid v.vmPgoff v.byteSize = some (t.tid, handle, a) →
    x.handles t.pid handle = some a → v.Granted →
    ∃ s', pvrMMap x.mmap t v = some (.ok (), s')

/-- No request for another area waits under the offset and the size that are answered to the
    process. -/
def Unrivalled (x : MmapSys) : SysOp → Prop
  | .entry (.toMMapData t handle (.ok a) cache) => ∀ ans s',
    mmapStep x.mmap (.toMMapData t handle (.ok a) cache) = some (.data (.ok ans), s') →
    ∀ p ∈ x.mmap.mmapOffsetStructList, ∀ o, x.mmap.offsetStructs p = some o →
      o.pid = t.pid → o.mmapOffset = ans.mmapOffset → o.realByteSize = ans.realByteSize →
      o.linuxMemArea = a
  | _ => True

/-- An area whose request is to be mapped has a cache type that `mmap(2)` takes, and the thread that
    is answered a physical page made the request, if one waits. -/
def Takeable (x : MmapSys) : SysOp → Prop
  | .entry (.toMMapData t handle (.ok a) cache) => ∀ ans s',
    mmapStep x.mmap (.toMMapData t handle (.ok a) cache) = some (.data (.ok ans), s') →
    ans.userVAddr = 0 →
    (∀ area, x.mmap.areas a = some area → area.cacheType ≠ .unknown) ∧
      (pfnIsPhysical ans.mmapOffset = true → ∀ p o, x.mmap.offsetStructs p = some o →
        o.pid = t.pid → o.linuxMemArea = a → o.tid = t.tid)
  | _ => True

def KvOffsetStruct.key (o : KvOffsetStruct) : ℕ × ℕ × ℕ × ℕ × ℕ :=
  (o.pid, o.tid, o.mmapOffset, o.realByteSize, o.linuxMemArea)

theorem key_eq_iff : o.key = o'.key ↔ o.pid = o'.pid ∧ o.tid = o'.tid ∧
    o.mmapOffset = o'.mmapOffset ∧ o.realByteSize = o'.realByteSize ∧
    o.linuxMemArea = o'.linuxMemArea := by
  simp [KvOffsetStruct.key]

def LinuxMemArea.shape (area : LinuxMemArea) : AreaData × ℕ × CacheType :=
  (area.data, area.byteSize, area.cacheType)

/-- No structure comes, and none goes back to the global list. -/
structure Kept (s s' : MmapData) : Prop where
  structs : ∀ p o', s'.offsetStructs p = some o' →
    ∃ o, s.offsetStructs p = some o ∧ o.key = o'.key
  global : ∀ p ∈ s'.mmapOffsetStructList, p ∈ s.mmapOffsetStructList
  areas : ∀ a area', s'.areas a = some area' →
    ∃ area, s.areas a = some area ∧ area.shape = area'.shape

theorem Kept.refl (s : MmapData) : Kept s s :=
  ⟨fun _ o ho => ⟨o, ho, rfl⟩, fun _ hp => hp, fun _ area ha => ⟨area, ha, rfl⟩⟩

theorem Kept.trans (h : Kept s u) (h' : Kept u s') : Kept s s' where
  structs := by
    intro p o' ho'
    obtain ⟨x, hx, hxo⟩ := h'.structs p o' ho'
    obtain ⟨o, ho, hox⟩ := h.structs p x hx
    exact ⟨o, ho, hox.trans hxo⟩
  global := fun p hp => h.global p (h'.global p hp)
  areas := by
    intro b area' ha'
    obtain ⟨y, hy, hya⟩ := h'.areas b area' ha'
    obtain ⟨area, ha, hay⟩ := h.areas b y hy
    exact ⟨area, ha, hay.trans hya⟩

theorem Kept.change (ho : s.offsetStructs p = some o) (o' : KvOffsetStruct) (hkey : o.key = o'.key)
    {global : List ℕ} (hglobal : ∀ q ∈ global, q ∈ s.mmapOffsetStructList) {vmas : List Vma} :
    Kept s ⟨Function.update s.offsetStructs p (some o'), s.areas, global, s.mmapAreaList, vmas,
      s.memmapCache⟩ where
  structs := by
    intro q x hx
    cases update_some_cases hx with
    | inl hq => exact ⟨o, by rw [hq.1]; exact ho, by rw [hq.2]; exact hkey⟩
    | inr hq => exact ⟨x, hq.2, rfl⟩
  global := hglobal
  areas := (Kept.refl s).areas

theorem Kept.setArea (ha : s.areas a = some area) (area' : LinuxMemArea)
    (hshape : area.shape = area'.shape) {areas : List ℕ} :
    Kept s { s.setArea a area' with mmapAreaList := areas } where
  structs := (Kept.refl s).structs
  global := (Kept.refl s).global
  areas := by
    intro b y hy
    cases update_some_cases hy with
    | inl hb => exact ⟨area, by rw [hb.1]; exact ha, by rw [hb.2]; exact hshape⟩
    | inr hb => exact ⟨y, hb.2, rfl⟩

theorem listDel_subset {l m : List ℕ} (h : listDel l p = some m) : ∀ q ∈ m, q ∈ l := by
  unfold listDel at h
  split at h
  · rw [← Option.some.inj h]
    exact fun q hq => List.mem_of_mem_erase hq
  · cases h

theorem destroy_kept (hs : destroyOffsetStruct s p = some s') : Kept s s' := by
  unfold destroyOffsetStruct at hs
  obtain ⟨o, ho, hs⟩ := Option.bind_eq_some_iff.mp hs
  obtain ⟨area, ha, hs⟩ := Option.bind_eq_some_iff.mp hs
  obtain ⟨items, -, hs⟩ := Option.bind_eq_some_iff.mp hs
  obtain ⟨global, hglobal, hs⟩ := Option.bind_eq_some_iff.mp hs
  rw [Option.some.injEq] at hs
  rw [← hs]
  constructor
  case structs =>
    intro q x hx
    have hx : Function.update s.offsetStructs p none q = some x := hx
    by_cases hq : q = p
    · rw [hq, Function.update_self] at hx
      cases hx
    · rw [Function.update_of_ne hq] at hx
      exact ⟨x, hx, rfl⟩
  case global =>
    intro q hq
    have hq : q ∈ global := hq
    cases hflag : o.onMMapList with
    | true =>
      rw [hflag, if_pos rfl] at hglobal
      exact listDel_subset hglobal q hq
    | false =>
      rw [hflag, if_neg (by decide), Option.some.injEq] at hglobal
      rw [hglobal]
      exact hq
  case areas =>
    intro b y hy
    cases update_some_cases hy with
    | inl hb => exact ⟨area, by rw [hb.1]; exact ha, by rw [hb.2]; rfl⟩
    | inr hb => exact ⟨y, hb.2, rfl⟩

theorem removeStructs_kept {l : List ℕ} {e : PvrsrvError}
    (hs : removeStructs s l = some (e, s')) : Kept s s' := by
  induction l generalizing s with
  | nil =>
    simp only [removeStructs, Option.some.injEq, Prod.mk.injEq] at hs
    rw [← hs.2]
    exact .refl s
  | cons p l ih =>
    unfold removeStructs at hs
    split at hs
    · cases hs
    · split at hs
      · simp only [Option.some.injEq, Prod.mk.injEq] at hs
        rw [← hs.2]
        exact .refl s
      · split at hs
        · cases hs
        · rename_i u hu
          exact (destroy_kept hu).trans (ih hs)

theorem removeArea_kept {e : PvrsrvError}
    (hs : pvrMMapRemoveRegisteredArea s a = some (e, s')) : Kept s s' := by
  unfold pvrMMapRemoveRegisteredArea at hs
  obtain ⟨area, ha, hs⟩ := Option.bind_eq_some_iff.mp hs
  obtain ⟨⟨e', u⟩, hu, hs⟩ := Option.bind_eq_some_iff.mp hs
  have hkept := removeStructs_kept hu
  dsimp only at hs
  split at hs
  · simp only [Option.some.injEq, Prod.mk.injEq] at hs
    rw [← hs.2]
    exact hkept
  · obtain ⟨areas, -, hs⟩ := Option.bind_eq_some_iff.mp hs
    obtain ⟨area', hua, hs⟩ := Option.bind_eq_some_iff.mp hs
    simp only [Option.some.injEq, Prod.mk.injEq] at hs
    rw [← hs.2]
    exact hkept.trans (Kept.setArea hua { area' with mmapRegistered := false } rfl)

theorem disconnectStructs_kept {pid : ℕ} {l : List ℕ}
    (hs : disconnectStructs s pid l = some s') : Kept s s' := by
  induction l generalizing s with
  | nil =>
    simp only [disconnectStructs, Option.some.injEq] at hs
    rw [← hs]
    exact .refl s
  | cons p l ih =>
    unfold disconnectStructs at hs
    split at hs
    · cases hs
    · split at hs
      · split at hs
        · cases hs
        · rename_i u hu
          exact (destroy_kept hu).trans (ih hs)
      · exact ih hs

theorem vmaOpen_kept {v : Vma} (hs : mmapVOpenNoLock s v = some s') : Kept s s' := by
  unfold mmapVOpenNoLock at hs
  obtain ⟨o, ho, hs⟩ := Option.bind_eq_some_iff.mp hs
  rw [Option.some.injEq] at hs
  rw [← hs]
  exact Kept.change ho { o with mapped := u32 (o.mapped + 1) } rfl fun _ hq => hq

theorem vmaClose_kept {v : Vma} (hs : mmapVCloseNoLock s v = some s') : Kept s s' := by
  unfold mmapVCloseNoLock at hs
  obtain ⟨o, ho, hs⟩ := Option.bind_eq_some_iff.mp hs
  have hkept : Kept s { s.setStruct v.privateData { o with mapped := u32Sub o.mapped 1 } with
      vmas := s.vmas.erase v } :=
    Kept.change ho { o with mapped := u32Sub o.mapped 1 } rfl fun _ hq => hq
  dsimp only at hs
  split at hs
  · exact hkept.trans (destroy_kept hs)
  · rw [Option.some.injEq] at hs
    rw [← hs]
    exact hkept

theorem Linked.pvrMMap_kept (h : Linked s) {v : MmapCall} {r : Except Errno Unit}
    (hs : pvrMMap s t v = some (r, s')) : Kept s s' := by
  obtain ⟨-, heq⟩ | ⟨pre, p, post, o, area, -, ho, -, -, -, hout⟩ := h.pvrMMap_cases (t := t) v
  · rw [hs, Option.some.injEq, Prod.mk.injEq] at heq
    rw [heq.2]
    exact .refl s
  · cases hout with
    | inl hfail =>
      obtain ⟨-, e, heq⟩ := hfail
      rw [hs, failMMap, eq_comm] at heq
      obtain ⟨u, hu, hr⟩ := Option.map_eq_some_iff.mp heq
      rw [Prod.mk.injEq] at hr
      rw [← hr.2]
      exact destroy_kept hu
    | inr hmap =>
      obtain ⟨-, pages, -, heq⟩ := hmap
      rw [hs, Option.some.injEq, Prod.mk.injEq] at heq
      rw [heq.2]
      exact Kept.change ho
        { o with onMMapList := false, userVAddr := v.vmStart, mapped := u32 (o.mapped + 1) } rfl
        fun _ hq => List.mem_of_mem_erase hq

theorem Linked.release_kept (h : Linked s) {lookup : Except PvrsrvError ℕ}
    (hlookup : ∀ a, lookup = .ok a → s.registered a = true)
    {r : Except PvrsrvError ReleaseAnswer}
    (hs : pvrMMapReleaseMMapData s t lookup = some (r, s')) : Kept s s' := by
  cases lookup with
  | error e =>
    simp only [pvrMMapReleaseMMapData, Option.some.injEq, Prod.mk.injEq] at hs
    rw [← hs.2]
    exact .refl s
  | ok a =>
    obtain ⟨area, ha, -⟩ := registered_iff.mp (hlookup a rfl)
    obtain ⟨r', u, heq, hu⟩ := h.release_cases (t := t) ha
    rw [hs, Option.some.injEq, Prod.mk.injEq] at heq
    rw [heq.2]
    cases hu with
    | inl hu =>
      rw [hu]
      exact .refl s
    | inr hu =>
      obtain ⟨p, o, n, ho, hu⟩ := hu
      rw [hu]
      exact Kept.change ho { o with refCount := n } rfl fun _ hq => hq

theorem step_kept (h : Coherent s) {op : MmapOp} {r : MmapReply} (hop : Proper s op)
    (hs : mmapStep s op = some (r, s'))
    (hdata : ∀ t handle lookup cache, op ≠ .toMMapData t handle lookup cache)
    (hcreate : ∀ a data byteSize cacheType, op ≠ .createArea a data byteSize cacheType) :
    Kept s s' := by
  cases op with
  | createArea a data byteSize cacheType => exact absurd rfl (hcreate a data byteSize cacheType)
  | toMMapData t handle lookup cache => exact absurd rfl (hdata t handle lookup cache)
  | registerArea a =>
    obtain ⟨⟨e, u⟩, hu, hr⟩ := Option.map_eq_some_iff.mp hs
    rw [Prod.mk.injEq] at hr
    rw [← hr.2]
    unfold pvrMMapRegisterArea at hu
    obtain ⟨area, ha, hu⟩ := Option.bind_eq_some_iff.mp hu
    split at hu
    · simp only [Option.some.injEq, Prod.mk.injEq] at hu
      rw [← hu.2]
      exact .refl s
    · simp only [Option.some.injEq, Prod.mk.injEq] at hu
      rw [← hu.2]
      exact Kept.setArea ha { area with mmapRegistered := true } rfl
  | removeArea a =>
    obtain ⟨⟨e, u⟩, hu, hr⟩ := Option.map_eq_some_iff.mp hs
    rw [Prod.mk.injEq] at hr
    rw [← hr.2]
    exact removeArea_kept hu
  | freeArea a =>
    simp only [mmapStep, Option.some.injEq, Prod.mk.injEq] at hs
    rw [← hs.2]
    refine ⟨(Kept.refl s).structs, (Kept.refl s).global, fun b y hy => ?_⟩
    have hy : Function.update s.areas a none b = some y := hy
    by_cases hb : b = a
    · rw [hb, Function.update_self] at hy
      cases hy
    · rw [Function.update_of_ne hb] at hy
      exact ⟨y, hy, rfl⟩
  | release t lookup =>
    obtain ⟨⟨e, u⟩, hu, hr⟩ := Option.map_eq_some_iff.mp hs
    rw [Prod.mk.injEq] at hr
    rw [← hr.2]
    exact h.toLinked.release_kept hop hu
  | mmap t v =>
    obtain ⟨⟨e, u⟩, hu, hr⟩ := Option.map_eq_some_iff.mp hs
    rw [Prod.mk.injEq] at hr
    rw [← hr.2]
    exact h.toLinked.pvrMMap_kept hu
  | vmaOpen v ptr =>
    obtain ⟨u, hu, hr⟩ := Option.map_eq_some_iff.mp hs
    rw [Prod.mk.injEq] at hr
    rw [← hr.2]
    exact vmaOpen_kept hu
  | vmaClose v =>
    obtain ⟨u, hu, hr⟩ := Option.map_eq_some_iff.mp hs
    rw [Prod.mk.injEq] at hr
    rw [← hr.2]
    exact vmaClose_kept hu
  | disconnect t =>
    obtain ⟨u, hu, hr⟩ := Option.map_eq_some_iff.mp hs
    rw [Prod.mk.injEq] at hr
    rw [← hr.2]
    exact disconnectStructs_kept hu

theorem standsFor_iff {offset size : ℕ} : o.standsFor t offset size = true ↔
    o.pid = t.pid ∧ o.mmapOffset = offset ∧ o.realByteSize = size ∧
      (pfnIsPhysical offset = false ∨ o.tid = t.tid) := by
  simp only [KvOffsetStruct.standsFor, Bool.and_eq_true, Bool.or_eq_true, decide_eq_true_eq,
    Bool.not_eq_true']
  grind

/-- What waits goes on waiting, unless the call takes it, and what is not waiting is mapped. -/
structure Moves (s s' : MmapData) (taken : ℕ × ℕ × ℕ × ℕ × ℕ → Prop) : Prop where
  waits : ∀ p ∈ s.mmapOffsetStructList, ∀ o, s.offsetStructs p = some o → ¬taken o.key →
    p ∈ s'.mmapOffsetStructList ∧ ∃ o', s'.offsetStructs p = some o' ∧ o'.key = o.key
  mapped : ∀ p o', s'.offsetStructs p = some o' → o'.onMMapList = false → o'.userVAddr ≠ 0 ∨
    ∃ o, s.offsetStructs p = some o ∧ o.onMMapList = false ∧ o.userVAddr = o'.userVAddr

section
variable {taken : ℕ × ℕ × ℕ × ℕ × ℕ → Prop}

theorem Moves.of_eq (hglobal : s'.mmapOffsetStructList = s.mmapOffsetStructList)
    (hstructs : s'.offsetStructs = s.offsetStructs) : Moves s s' taken where
  waits := by
    intro p hp o ho _
    rw [hglobal, hstructs]
    exact ⟨hp, o, ho, rfl⟩
  mapped := by
    intro p o ho hflag
    rw [hstructs] at ho
    exact .inr ⟨o, ho, hflag, rfl⟩

theorem Moves.trans (h : Moves s u taken) (h' : Moves u s' taken) : Moves s s' taken where
  waits := by
    intro p hp o ho hnot
    obtain ⟨hpu, x, hx, hkey⟩ := h.waits p hp o ho hnot
    obtain ⟨hps, y, hy, hkey'⟩ := h'.waits p hpu x hx (by rwa [hkey])
    exact ⟨hps, y, hy, hkey'.trans hkey⟩
  mapped := by
    intro p o' ho' hflag
    obtain hne | ⟨x, hx, hxflag, hxaddr⟩ := h'.mapped p o' ho' hflag
    · exact .inl hne
    · rw [← hxaddr]
      exact h.mapped p x hx hxflag

theorem Moves.change (ho : s.offsetStructs p = some o) (o' : KvOffsetStruct)
    (hkey : o'.key = o.key) {global : List ℕ}
    (hglobal : ∀ q ∈ s.mmapOffsetStructList, q ∈ global ∨ q = p ∧ taken o.key)
    (hmapped : o'.onMMapList = false → o'.userVAddr ≠ 0 ∨
      o.onMMapList = false ∧ o.userVAddr = o'.userVAddr) {vmas : List Vma} :
    Moves s ⟨Function.update s.offsetStructs p (some o'), s.areas, global, s.mmapAreaList, vmas,
      s.memmapCache⟩ taken where
  waits := by
    intro q hq x hx hnot
    by_cases hqp : q = p
    · rw [hqp, ho, Option.some.injEq] at hx
      rw [← hx] at hnot ⊢
      refine ⟨(hglobal q hq).resolve_right fun h => hnot h.2, o', ?_, hkey⟩
      rw [hqp]
      exact Function.update_self ..
    · exact ⟨(hglobal q hq).resolve_right fun h => hqp h.1, x,
        (Function.update_of_ne hqp _ _).trans hx, rfl⟩
  mapped := by
    intro q x hx hflag
    cases update_some_cases hx with
    | inl hq =>
      rw [hq.2] at hflag ⊢
      rw [hq.1]
      exact (hmapped hflag).imp_right fun h => ⟨o, ho, h⟩
    | inr hq => exact .inr ⟨x, hq.2, hflag, rfl⟩

theorem destroy_moves (hs : destroyOffsetStruct s p = some s')
    (htaken : p ∈ s.mmapOffsetStructList → ∀ o, s.offsetStructs p = some o → taken o.key) :
    Moves s s' taken := by
  unfold destroyOffsetStruct at hs
  obtain ⟨o, ho, hs⟩ := Option.bind_eq_some_iff.mp hs
  obtain ⟨area, -, hs⟩ := Option.bind_eq_some_iff.mp hs
  obtain ⟨items, -, hs⟩ := Option.bind_eq_some_iff.mp hs
  obtain ⟨global, hglobal, hs⟩ := Option.bind_eq_some_iff.mp hs
  rw [Option.some.injEq] at hs
  rw [← hs]
  have hkept : ∀ q ∈ s.mmapOffsetStructList, q ≠ p → q ∈ global := by
    intro q hq hqp
    cases hflag : o.onMMapList with
    | true =>
      rw [hflag, if_pos rfl] at hglobal
      unfold listDel at hglobal
      split at hglobal
      · rw [← Option.some.inj hglobal]
        exact (List.mem_erase_of_ne hqp).mpr hq
      · cases hglobal
    | false =>
      rw [hflag, if_neg (by decide), Option.some.injEq] at hglobal
      rwa [← hglobal]
  constructor
  case waits =>
    intro q hq x hx hnot
    have hqp : q ≠ p := fun hqp => hnot (htaken (hqp ▸ hq) x (hqp ▸ hx))
    exact ⟨hkept q hq hqp, x, (Function.update_of_ne hqp _ _).trans hx, rfl⟩
  case mapped =>
    intro q x hx hflag
    have hx : Function.update s.offsetStructs p none q = some x := hx
    by_cases hqp : q = p
    · rw [hqp, Function.update_self] at hx
      cases hx
    · rw [Function.update_of_ne hqp] at hx
      exact .inr ⟨x, hx, hflag, rfl⟩

theorem Kept.taken_all {l : List ℕ} (h : Kept s s')
    (hl : ∀ p ∈ l, ∀ o, s.offsetStructs p = some o → taken o.key) :
    ∀ p ∈ l, ∀ o, s'.offsetStructs p = some o → taken o.key := by
  intro p hp o' ho'
  obtain ⟨o, ho, hkey⟩ := h.structs p o' ho'
  rw [← hkey]
  exact hl p hp o ho

theorem removeStructs_moves {l : List ℕ} {e : PvrsrvError}
    (hl : ∀ p ∈ l, ∀ o, s.offsetStructs p = some o → taken o.key)
    (hs : removeStructs s l = some (e, s')) : Moves s s' taken := by
  induction l generalizing s with
  | nil =>
    simp only [removeStructs, Option.some.injEq, Prod.mk.injEq] at hs
    rw [← hs.2]
    exact .of_eq rfl rfl
  | cons p l ih =>
    unfold removeStructs at hs
    split at hs
    · cases hs
    · split at hs
      · simp only [Option.some.injEq, Prod.mk.injEq] at hs
        rw [← hs.2]
        exact .of_eq rfl rfl
      · split at hs
        · cases hs
        · rename_i u hu
          exact (destroy_moves hu fun _ => hl p List.mem_cons_self).trans
            (ih ((destroy_kept hu).taken_all fun q hq => hl q (List.mem_cons_of_mem _ hq)) hs)

theorem Linked.removeArea_moves (h : Linked s) {e : PvrsrvError}
    (hs : pvrMMapRemoveRegisteredArea s a = some (e, s')) :
    Moves s s' fun k => k.2.2.2.2 = a := by
  unfold pvrMMapRemoveRegisteredArea at hs
  obtain ⟨area, ha, hs⟩ := Option.bind_eq_some_iff.mp hs
  obtain ⟨⟨e', u⟩, hu, hs⟩ := Option.bind_eq_some_iff.mp hs
  have hmoves : Moves s u fun k => k.2.2.2.2 = a := by
    refine removeStructs_moves (fun p hp o ho => ?_) hu
    obtain ⟨x, hx, hxa⟩ := (h.items a area ha p).mp hp
    rw [ho, Option.some.injEq] at hx
    rw [hx]
    exact hxa
  dsimp only at hs
  split at hs
  · simp only [Option.some.injEq, Prod.mk.injEq] at hs
    rw [← hs.2]
    exact hmoves
  · obtain ⟨areas, -, hs⟩ := Option.bind_eq_some_iff.mp hs
    obtain ⟨area', -, hs⟩ := Option.bind_eq_some_iff.mp hs
    simp only [Option.some.injEq, Prod.mk.injEq] at hs
    rw [← hs.2]
    exact hmoves.trans (.of_eq rfl rfl)

theorem disconnectStructs_moves {pid : ℕ} {l : List ℕ}
    (hs : disconnectStructs s pid l = some s') : Moves s s' fun k => k.1 = pid := by
  induction l generalizing s with
  | nil =>
    simp only [disconnectStructs, Option.some.injEq] at hs
    rw [← hs]
    exact .of_eq rfl rfl
  | cons p l ih =>
    unfold disconnectStructs at hs
    split at hs
    · cases hs
    · rename_i o ho
      split at hs
      · rename_i hpid
        split at hs
        · cases hs
        · rename_i u hu
          refine (destroy_moves hu fun _ x hx => ?_).trans (ih hs)
          rw [ho, Option.some.injEq] at hx
          rw [← hx]
          exact hpid
      · exact ih hs

theorem vmaOpen_moves {v : Vma} (hs : mmapVOpenNoLock s v = some s') : Moves s s' taken := by
  unfold mmapVOpenNoLock at hs
  obtain ⟨o, ho, hs⟩ := Option.bind_eq_some_iff.mp hs
  rw [Option.some.injEq] at hs
  rw [← hs]
  exact Moves.change ho { o with mapped := u32 (o.mapped + 1) } rfl (fun _ hq => .inl hq)
    fun hflag => .inr ⟨hflag, rfl⟩

theorem Coherent.vmaClose_moves (h : Coherent s) {v : Vma} (hv : v ∈ s.vmas)
    (hs : mmapVCloseNoLock s v = some s') : Moves s s' taken := by
  obtain ⟨o, ho, -, -, hnot⟩ := h.not_listed hv
  unfold mmapVCloseNoLock at hs
  simp only [ho, Option.bind_eq_bind, Option.bind_some] at hs
  have hmoves : Moves s { s.setStruct v.privateData { o with mapped := u32Sub o.mapped 1 } with
      vmas := s.vmas.erase v } taken :=
    Moves.change ho { o with mapped := u32Sub o.mapped 1 } rfl (fun _ hq => .inl hq)
      fun hflag => .inr ⟨hflag, rfl⟩
  split at hs
  · exact hmoves.trans (destroy_moves hs fun hp => absurd hp hnot)
  · rw [Option.some.injEq] at hs
    rw [← hs]
    exact hmoves

theorem Linked.pvrMMap_moves (h : Linked s) {v : MmapCall} {r : Except Errno Unit}
    (hv : v.vmStart ≠ 0) (hs : pvrMMap s t v = some (r, s')) :
    Moves s s' fun k => k.1 = t.pid ∧ k.2.2.1 = v.vmPgoff ∧ k.2.2.2.1 = v.byteSize := by
  obtain ⟨-, heq⟩ | ⟨pre, p, post, o, area, -, ho, hstands, -, -, hout⟩ :=
    h.pvrMMap_cases (t := t) v
  · rw [hs, Option.some.injEq, Prod.mk.injEq] at heq
    rw [heq.2]
    exact .of_eq rfl rfl
  · have hkey := standsFor_iff.mp hstands
    cases hout with
    | inl hfail =>
      obtain ⟨-, e, heq⟩ := hfail
      rw [hs, failMMap, eq_comm] at heq
      obtain ⟨u, hu, hr⟩ := Option.map_eq_some_iff.mp heq
      rw [Prod.mk.injEq] at hr
      rw [← hr.2]
      refine destroy_moves hu fun _ x hx => ?_
      rw [ho, Option.some.injEq] at hx
      rw [← hx]
      exact ⟨hkey.1, hkey.2.1, hkey.2.2.1⟩
    | inr hmap =>
      obtain ⟨-, pages, -, heq⟩ := hmap
      rw [hs, Option.some.injEq, Prod.mk.injEq] at heq
      rw [heq.2]
      refine Moves.change ho
        { o with onMMapList := false, userVAddr := v.vmStart, mapped := u32 (o.mapped + 1) } rfl
        (fun q hq => ?_) fun _ => .inl hv
      by_cases hqp : q = p
      · exact .inr ⟨hqp, hkey.1, hkey.2.1, hkey.2.2.1⟩
      · exact .inl ((List.mem_erase_of_ne hqp).mpr hq)

theorem Linked.release_moves (h : Linked s) {lookup : Except PvrsrvError ℕ}
    (hlookup : ∀ a, lookup = .ok a → s.registered a = true)
    {r : Except PvrsrvError ReleaseAnswer}
    (hs : pvrMMapReleaseMMapData s t lookup = some (r, s')) : Moves s s' taken := by
  cases lookup with
  | error e =>
    simp only [pvrMMapReleaseMMapData, Option.some.injEq, Prod.mk.injEq] at hs
    rw [← hs.2]
    exact .of_eq rfl rfl
  | ok a =>
    obtain ⟨area, ha, -⟩ := registered_iff.mp (hlookup a rfl)
    obtain ⟨r', u, heq, hu⟩ := h.release_cases (t := t) ha
    rw [hs, Option.some.injEq, Prod.mk.injEq] at heq
    rw [heq.2]
    cases hu with
    | inl hu =>
      rw [hu]
      exact .of_eq rfl rfl
    | inr hu =>
      obtain ⟨p, o, n, ho, hu⟩ := hu
      rw [hu]
      exact Moves.change ho { o with refCount := n } rfl (fun _ hq => .inl hq)
        fun hflag => .inr ⟨hflag, rfl⟩

end

/-- What a call takes: what it maps or destroys while it waits. -/
def takes : MmapOp → ℕ × ℕ × ℕ × ℕ × ℕ → Prop
  | .removeArea a, k => k.2.2.2.2 = a
  | .mmap t v, k => k.1 = t.pid ∧ k.2.2.1 = v.vmPgoff ∧ k.2.2.2.1 = v.byteSize
  | .disconnect t, k => k.1 = t.pid
  | _, _ => False

theorem step_moves (h : Coherent s) {op : MmapOp} {r : MmapReply} (hop : Proper s op)
    (hv : ∀ t v, op = .mmap t v → v.vmStart ≠ 0) (hs : mmapStep s op = some (r, s'))
    (hdata : ∀ t handle lookup cache, op ≠ .toMMapData t handle lookup cache) :
    Moves s s' (takes op) := by
  cases op with
  | toMMapData t handle lookup cache => exact absurd rfl (hdata t handle lookup cache)
  | createArea a data byteSize cacheType =>
    simp only [mmapStep, Option.some.injEq, Prod.mk.injEq] at hs
    rw [← hs.2]
    exact .of_eq rfl rfl
  | freeArea a =>
    simp only [mmapStep, Option.some.injEq, Prod.mk.injEq] at hs
    rw [← hs.2]
    exact .of_eq rfl rfl
  | registerArea a =>
    obtain ⟨⟨e, u⟩, hu, hr⟩ := Option.map_eq_some_iff.mp hs
    rw [Prod.mk.injEq] at hr
    rw [← hr.2]
    unfold pvrMMapRegisterArea at hu
    obtain ⟨area, ha, hu⟩ := Option.bind_eq_some_iff.mp hu
    split at hu
    all_goals
      simp only [Option.some.injEq, Prod.mk.injEq] at hu
      rw [← hu.2]
      exact .of_eq rfl rfl
  | removeArea a =>
    obtain ⟨⟨e, u⟩, hu, hr⟩ := Option.map_eq_some_iff.mp hs
    rw [Prod.mk.injEq] at hr
    rw [← hr.2]
    exact h.toLinked.removeArea_moves hu
  | release t lookup =>
    obtain ⟨⟨e, u⟩, hu, hr⟩ := Option.map_eq_some_iff.mp hs
    rw [Prod.mk.injEq] at hr
    rw [← hr.2]
    exact h.toLinked.release_moves hop hu
  | mmap t v =>
    obtain ⟨⟨e, u⟩, hu, hr⟩ := Option.map_eq_some_iff.mp hs
    rw [Prod.mk.injEq] at hr
    rw [← hr.2]
    exact h.toLinked.pvrMMap_moves (hv t v rfl) hu
  | vmaOpen v ptr =>
    obtain ⟨u, hu, hr⟩ := Option.map_eq_some_iff.mp hs
    rw [Prod.mk.injEq] at hr
    rw [← hr.2]
    exact vmaOpen_moves hu
  | vmaClose v =>
    obtain ⟨u, hu, hr⟩ := Option.map_eq_some_iff.mp hs
    rw [Prod.mk.injEq] at hr
    rw [← hr.2]
    exact h.vmaClose_moves hop hu
  | disconnect t =>
    obtain ⟨u, hu, hr⟩ := Option.map_eq_some_iff.mp hs
    rw [Prod.mk.injEq] at hr
    rw [← hr.2]
    exact disconnectStructs_moves hu

end PvrServices.Mmaps
