import PvrServices.DevmemBase
import PvrServices.KeyedList
import PvrServices.MapMemoryLists
import PvrServices.SharedPbBase

set_option autoImplicit false

/-!
# Who holds what

The items that the resource manager lists are those of the memory that processes own, the
references to the descriptor and the lock. What each part of a call does to them.
-/
namespace PvrServices.SharedPb
open KeyedList Resman Words

structure Ref where
  item : ℕ
  context : ℕ
deriving DecidableEq, Repr

variable {s s' : PbState} {x x' : Pb} {res : ResList} {reg : Registry} {own : ℕ → Option ℕ}
  {refs : List Ref} {b c m p : ℕ} {i : KernelMemInfo} {stub : StubPbDesc} {call : AddCall} {r : Ref}

def Ref.registration (r : Ref) (b : ℕ) : Registration :=
  ⟨r.context, .sharedPbDesc, b, 0, pfnSGXCleanupSharedPBDescCallback⟩

def lockRegistration (c : ℕ) : Registration :=
  ⟨c, .sharedPbDescCreateLock, c, 0, pfnSGXCleanupSharedPBDescCreateLockCallback⟩

def StubPbDesc.infos (stub : StubPbDesc) : List ℕ :=
  stub.ppsSubKernelMemInfos ++ [stub.psSharedPBDescKernelMemInfo, stub.psHWPBDescKernelMemInfo,
    stub.psBlockKernelMemInfo]

/-- Every item is accounted for, and what is accounted for has its item. -/
structure Items (s : PbState) (reg : Registry) (own : ℕ → Option ℕ) (refs : List Ref) : Prop where
  registered : ∀ p g, reg p = some g →
    (∃ m c i, own m = some c ∧ s.memInfos m = some i ∧ i.hResItem = some p ∧
      g = memRegistration c i.kind m) ∨
    (∃ r ∈ refs, ∃ b, r.item = p ∧ g = r.registration b ∧ s.psStubPBDescListKM = [b]) ∨
    ∃ c, g = lockRegistration c ∧ s.psResItemCreateSharedPB = some p ∧
      s.psPerProcCreateSharedPB = some c
  owned : ∀ m c, own m = some c → ∃ i, s.memInfos m = some i ∧
    ∀ p, i.hResItem = some p → reg p = some (memRegistration c i.kind m)
  held : ∀ r ∈ refs, ∃ b, s.psStubPBDescListKM = [b] ∧ reg r.item = some (r.registration b)
  nodup : (refs.map Ref.item).Nodup
  placed : ∀ r ∈ refs, 0 < r.item ∧ r.item < 4294967296
  lock : (s.psResItemCreateSharedPB = none ∧ s.psPerProcCreateSharedPB = none) ∨
    ∃ p c, s.psResItemCreateSharedPB = some p ∧ s.psPerProcCreateSharedPB = some c ∧
      reg p = some (lockRegistration c)

/-- The descriptor is there while there are references, counts them and owns its memory. -/
structure Whole (s : PbState) (own : ℕ → Option ℕ) (refs : List Ref) : Prop where
  empty : refs = [] → s.psStubPBDescListKM = [] ∧ ∀ b, s.stubs b = none
  stub : refs ≠ [] → ∃ b stub, s.psStubPBDescListKM = [b] ∧ s.stubs b = some stub ∧
    (∀ e, (s.stubs e).isSome = true → e = b) ∧ stub.ui32RefCount = refs.length ∧
    stub.infos.Nodup ∧
    ∀ m ∈ stub.infos, own m = none ∧ ∃ i, s.memInfos m = some i ∧ i.hResItem = none

theorem memRegistration_type (c : ℕ) (kind : MemKind) (m : ℕ) :
    (memRegistration c kind m).resType ≠ .sharedPbDesc ∧
      (memRegistration c kind m).resType ≠ .sharedPbDescCreateLock := by
  cases kind <;> exact ⟨ResmanType.noConfusion, ResmanType.noConfusion⟩

theorem memRegistration_param (c : ℕ) (kind : MemKind) (m : ℕ) :
    (memRegistration c kind m).pvParam = m := rfl

theorem memRegistration_context (c : ℕ) (kind : MemKind) (m : ℕ) :
    (memRegistration c kind m).context = c := rfl

def PbState.withMem (s : PbState) (m : ℕ) (v : Option KernelMemInfo) : PbState :=
  { s with memInfos := Function.update s.memInfos m v }

theorem setMem_eq (s : PbState) (m : ℕ) (i : KernelMemInfo) :
    s.setMem m i = s.withMem m (some i) := rfl

theorem withMem_self (s : PbState) (m : ℕ) (v : Option KernelMemInfo) :
    (s.withMem m v).memInfos m = v := Function.update_self ..

theorem withMem_of_ne {n : ℕ} (hnm : n ≠ m) (v : Option KernelMemInfo) :
    (s.withMem m v).memInfos n = s.memInfos n := Function.update_of_ne hnm ..

/-- Whether `FreeDeviceMemCallBack` does not refuse the memory. -/
def PbState.frees (s : PbState) (m : ℕ) : Bool :=
  (s.memInfos m).all fun i => !i.exported || u32Sub i.ui32RefCount 1 = 0 && i.inKernelBase

/-- What memory that is freed leaves: nothing, or itself with one reference less. -/
structure Drops (s : PbState) (m : ℕ) (i : KernelMemInfo) (v : Option KernelMemInfo) : Prop where
  freed : s.frees m = true → v = none
  left : ∀ j, v = some j → j = { i with ui32RefCount := u32Sub i.ui32RefCount 1 }

theorem freeDeviceMemCallBack_drops (hi : s.memInfos m = some i) :
    ∃ v, freeDeviceMemCallBack s m = some (s.withMem m v) ∧ Drops s m i v := by
  simp only [freeDeviceMemCallBack, hi, Option.bind_eq_bind, Option.bind_some]
  split
  · rename_i hrefused
    refine ⟨_, rfl, fun hfrees => ?_, fun j hj => (Option.some.inj hj).symm⟩
    simp only [PbState.frees, hi, Option.all_some] at hfrees
    grind
  · refine ⟨none, ?_, fun _ => rfl, fun j hj => by cases hj⟩
    simp [PbState.freeMem, hi, PbState.withMem]

theorem freeSharedSysMemCallBack_drops (hi : s.memInfos m = some i) :
    ∃ v, freeSharedSysMemCallBack s m = some (s.withMem m v) ∧ Drops s m i v := by
  refine ⟨none, ?_, fun _ => rfl, fun j hj => by cases hj⟩
  simp [freeSharedSysMemCallBack, PbState.freeMem, hi, PbState.withMem]

theorem frees_eq (hi : s.memInfos m = some i) :
    s.frees m = (!i.exported || u32Sub i.ui32RefCount 1 = 0 && i.inKernelBase) := by
  rw [PbState.frees, hi, Option.all_some]

theorem devmem_gone {t' u : Devmem.DeviceMem} {e e' : PvrsrvError} {y : Option ℕ}
    (ht : (do
      let v ← (match y with
        | none => some u
        | some y => Devmem.pvrsrvFreeSyncInfoKM u y)
      let v ← Devmem.freeDeviceMem v m
      some (e', v)) = some (e, t')) : t'.memInfos m = none := by
  obtain ⟨v, -, ht⟩ := Option.bind_eq_some_iff.mp ht
  obtain ⟨w, hw, ht⟩ := Option.bind_eq_some_iff.mp ht
  rw [Option.some.injEq, Prod.mk.injEq] at ht
  rw [← ht.2]
  unfold Devmem.freeDeviceMem Devmem.DeviceMem.freeMem at hw
  split at hw
  · rw [← Option.some.inj hw]
    exact Function.update_self ..
  · cases hw

/-- The model of `devicemem.c` with the sync infos frees the memory that this one frees. -/
theorem devmem_gone_iff {t t' : Devmem.DeviceMem} {j : Devmem.KernelMemInfo} {e : PvrsrvError}
    (hi : s.memInfos m = some i) (hj : t.memInfos m = some j) (he : j.exported = i.exported)
    (hc : j.refCount = i.ui32RefCount)
    (hk : (t.kernelHandles.find? fun h => h.2 = m).isSome = i.inKernelBase)
    (ht : Devmem.freeDeviceMemCallBack t m = some (e, t')) :
    t'.memInfos m = none ↔ s.frees m = true := by
  rw [frees_eq hi, ← he, ← hc, ← hk]
  unfold Devmem.freeDeviceMemCallBack Devmem.DeviceMem.setMem at ht
  rw [hj, Option.bind_eq_bind, Option.bind_some] at ht
  dsimp only at ht
  cases hx : j.exported with
  | false =>
    rw [hx] at ht
    exact iff_of_true (devmem_gone ht) rfl
  | true =>
    rw [hx, if_pos rfl] at ht
    by_cases hzero : u32Sub j.refCount 1 = 0
    · rw [if_neg (not_not.mpr hzero)] at ht
      cases hfind : t.kernelHandles.find? fun h => h.2 = m with
      | none =>
        rw [hfind] at ht
        obtain ⟨-, rfl⟩ := Prod.mk.inj (Option.some.inj ht)
        simp
      | some h =>
        rw [hfind] at ht
        exact iff_of_true (devmem_gone ht) (by simp [hzero])
    · rw [if_pos hzero] at ht
      obtain ⟨-, rfl⟩ := Prod.mk.inj (Option.some.inj ht)
      simp [hzero]

/-- So does the model with the blocks. -/
theorem blocks_gone_iff {t t' : MapMemory.Maps} {j : MapMemory.MemInfo} (h0 : m ≠ 0)
    (hi : s.memInfos m = some i) (hj : MapMemory.memInfoAt t.heap m = some j)
    (he : j.exported = i.exported) (hc : j.refCount = i.ui32RefCount)
    (hk : j.inKernelBase = i.inKernelBase)
    (ht : MapMemory.freeDeviceMemCallBack t m = some t') :
    MapMemory.memInfoAt t'.heap m = none ↔ s.frees m = true := by
  rw [frees_eq hi, ← he, ← hc, ← hk]
  unfold MapMemory.freeDeviceMemCallBack at ht
  rw [hj, Option.bind_eq_bind, Option.bind_some] at ht
  obtain ⟨u, hu, ht⟩ := Option.bind_eq_some_iff.mp ht
  dsimp only at ht
  split at ht
  · rename_i hrefused
    obtain ⟨b, -, hnew, -⟩ := BlockHeap.Heap.write_spec (MapMemory.Maps.write_spec hu).1
    rw [← Option.some.inj ht, MapMemory.memInfoAt_eq_some.mpr ⟨_, hnew⟩]
    refine iff_of_false (Option.some_ne_none _) fun hfree => ?_
    grind
  · rename_i hfree
    unfold MapMemory.freeInfo at ht
    obtain ⟨v, -, ht⟩ := Option.bind_eq_some_iff.mp ht
    cases MapMemory.freeDeviceMem_spec ht with
    | inl hnull => exact absurd hnull.1 h0
    | inr hfreed =>
      obtain ⟨k, hgone⟩ := hfreed
      refine iff_of_true ?_ (by grind)
      rw [MapMemory.memInfoAt, hgone.frees.gone]
      rfl

theorem memRegistration_callBack (c p : ℕ) (hi : s.memInfos m = some i) : ∃ v,
    pbCallBack ((memRegistration c i.kind m).call p) s = some (s.withMem m v) ∧
      Drops s m i v := by
  cases i.kind with
  | allocDeviceMem => exact freeDeviceMemCallBack_drops hi
  | _ => exact freeSharedSysMemCallBack_drops hi

theorem Items.mem_apart (h : Items s reg own refs) (hp : reg p = some (memRegistration c i.kind m)) :
    (∀ r ∈ refs, r.item ≠ p) ∧ s.psResItemCreateSharedPB ≠ some p := by
  have htype := memRegistration_type c i.kind m
  constructor
  · intro r hr hrp
    obtain ⟨b, -, hreg⟩ := h.held r hr
    rw [hrp, hp, Option.some.injEq] at hreg
    rw [hreg] at htype
    exact htype.1 rfl
  · intro hlock
    cases h.lock with
    | inl hnone =>
      rw [hnone.1] at hlock
      cases hlock
    | inr hheld =>
      obtain ⟨q, d, hq, -, hreg⟩ := hheld
      rw [hq, Option.some.injEq] at hlock
      rw [hlock, hp, Option.some.injEq] at hreg
      rw [hreg] at htype
      exact htype.2 rfl

def without (reg : Registry) (item : Option ℕ) : Registry :=
  fun q => if item = some q then none else reg q

theorem without_none (reg : Registry) : without reg none = reg := by
  funext q
  simp [without]

theorem without_some (reg : Registry) (p : ℕ) :
    without reg (some p) = Function.update reg p none := by
  funext q
  by_cases hq : q = p
  · simp [without, hq]
  · simp [without, hq, Ne.symm hq]

/-- Memory whose item goes, whatever becomes of it; who still owns it owns it without an item. -/
theorem Items.give (h : Items s reg own refs) (hm : own m = some c) (hi : s.memInfos m = some i)
    (v : Option KernelMemInfo) (o : Option ℕ)
    (ho : ∀ d, o = some d → ∃ j, v = some j ∧ j.hResItem = none) :
    Items (s.withMem m v) (without reg i.hResItem) (Function.update own m o) refs := by
  have hreg (p : ℕ) (hp : i.hResItem = some p) : reg p = some (memRegistration c i.kind m) := by
    obtain ⟨j, hj, hall⟩ := h.owned m c hm
    rw [hi, Option.some.injEq] at hj
    rw [hj] at hp ⊢
    exact hall p hp
  constructor
  case registered =>
    intro p g hp
    rw [without] at hp
    by_cases hip : i.hResItem = some p
    · simp [hip] at hp
    · rw [if_neg hip] at hp
      cases h.registered p g hp with
      | inl hmem =>
        obtain ⟨n, d, j, hn, hj, hjp, hg⟩ := hmem
        have hnm : n ≠ m := fun hnm => by
          rw [hnm, hi, Option.some.injEq] at hj
          exact hip (hj ▸ hjp)
        exact .inl ⟨n, d, j, (Function.update_of_ne hnm ..).trans hn,
          (Function.update_of_ne hnm ..).trans hj, hjp, hg⟩
      | inr hrest => exact .inr hrest
  case owned =>
    intro n d hn
    by_cases hnm : n = m
    · rw [hnm, Function.update_self] at hn
      obtain ⟨j, hv, hj⟩ := ho d hn
      refine ⟨j, ?_, fun p hp => ?_⟩
      · rw [hnm, hv]
        exact Function.update_self ..
      · rw [hj] at hp
        cases hp
    · rw [Function.update_of_ne hnm] at hn
      obtain ⟨j, hj, hall⟩ := h.owned n d hn
      refine ⟨j, (Function.update_of_ne hnm ..).trans hj, fun p hp => ?_⟩
      have hip : i.hResItem ≠ some p := fun hip => by
        have hmine := hreg p hip
        rw [hall p hp, Option.some.injEq] at hmine
        have hparam := congrArg Registration.pvParam hmine
        rw [memRegistration_param, memRegistration_param] at hparam
        exact hnm hparam
      rw [without, if_neg hip]
      exact hall p hp
  case held =>
    intro r hr
    obtain ⟨b, hb, hrb⟩ := h.held r hr
    have hip : i.hResItem ≠ some r.item := fun hip =>
      (h.mem_apart (hreg r.item hip)).1 r hr rfl
    refine ⟨b, hb, ?_⟩
    rw [without, if_neg hip]
    exact hrb
  case nodup => exact h.nodup
  case placed => exact h.placed
  case lock =>
    cases h.lock with
    | inl hnone => exact .inl hnone
    | inr hheld =>
      obtain ⟨q, d, hq, hd, hqd⟩ := hheld
      have hip : i.hResItem ≠ some q := fun hip => (h.mem_apart (hreg q hip)).2 hq
      refine .inr ⟨q, d, hq, hd, ?_⟩
      rw [without, if_neg hip]
      exact hqd

theorem Items.freeInfo (h : Items s reg own refs) (ht : Tracks res reg) (hm : own m = some c)
    {callBack : PbState → ℕ → Option PbState} (hback : ∀ i, s.memInfos m = some i →
      ∃ v, callBack s m = some (s.withMem m v) ∧ Drops s m i v) :
    ∃ res' reg' i v, SharedPb.freeInfo callBack ⟨res, s⟩ m = some ⟨res', s.withMem m v⟩ ∧
      s.memInfos m = some i ∧ Drops s m i v ∧ Tracks res' reg' ∧
      Items (s.withMem m v) reg' (Function.update own m none) refs := by
  obtain ⟨i, hi, hreg⟩ := h.owned m c hm
  have hgive (v : Option KernelMemInfo) := h.give hm hi v none fun d hd => by cases hd
  cases hitem : i.hResItem with
  | none =>
    obtain ⟨v, hfree, hdrops⟩ := hback i hi
    have hitems := hgive v
    rw [hitem, without_none] at hitems
    refine ⟨res, reg, i, v, ?_, hi, hdrops, ht, hitems⟩
    simp [SharedPb.freeInfo, hi, hitem, hfree]
  | some p =>
    obtain ⟨v, hcall, hdrops⟩ := memRegistration_callBack c p hi
    have hitems := hgive v
    rw [hitem, without_some] at hitems
    obtain ⟨res', hres, ht'⟩ := ht.freeHosted (hreg p hitem) hcall
    refine ⟨res', _, i, v, ?_, hi, hdrops, ht', hitems⟩
    simp [SharedPb.freeInfo, hi, hitem, resFree, hres]

/-- `PVRSRVFreeSharedSysMemoryKM` or `PVRSRVFreeDeviceMemKM`, as the list says. -/
def freeAs (x : Pb) (e : Bool × ℕ) : Option Pb :=
  if e.1 then pvrsrvFreeSharedSysMemoryKM x e.2 else pvrsrvFreeDeviceMemKM x e.2

theorem Items.freeAs (h : Items s reg own refs) (ht : Tracks res reg) (hm : own m = some c)
    (shared : Bool) : ∃ res' reg' i v, SharedPb.freeAs ⟨res, s⟩ (shared, m) =
        some ⟨res', s.withMem m v⟩ ∧ s.memInfos m = some i ∧ Drops s m i v ∧ Tracks res' reg' ∧
      Items (s.withMem m v) reg' (Function.update own m none) refs := by
  cases shared with
  | false => exact h.freeInfo ht hm fun _ hi => freeDeviceMemCallBack_drops hi
  | true => exact h.freeInfo ht hm fun _ hi => freeSharedSysMemCallBack_drops hi

theorem Items.dissociate (h : Items s reg own refs) (ht : Tracks res reg) (hm : own m = some c)
    (hi : s.memInfos m = some i) : ∃ res' reg', pvrsrvDissociateMemFromResmanKM ⟨res, s⟩ m =
        some ⟨res', s.setMem m { i with hResItem := none }⟩ ∧ Tracks res' reg' ∧
      Items (s.setMem m { i with hResItem := none }) reg' own refs ∧
      ∀ d, (res'.contexts d).isSome = (res.contexts d).isSome := by
  have hgive := h.give hm hi (some { i with hResItem := none }) (some c) fun _ _ => ⟨_, rfl, rfl⟩
  rw [← hm, Function.update_eq_self] at hgive
  obtain ⟨j, hj, hreg⟩ := h.owned m c hm
  rw [hi, Option.some.injEq] at hj
  cases hitem : i.hResItem with
  | none =>
    rw [hitem, without_none] at hgive
    have hsame : s.setMem m { i with hResItem := none } = s := by
      have hii : some { i with hResItem := none } = s.memInfos m := by
        rw [hi, ← hitem]
      rw [PbState.setMem, hii, Function.update_eq_self]
    refine ⟨res, reg, ?_, ht, hgive, fun _ => rfl⟩
    simp [pvrsrvDissociateMemFromResmanKM, hi, hitem, hsame]
  | some p =>
    rw [hitem, without_some] at hgive
    obtain ⟨res', hres, ht', hcontexts⟩ := ht.dissociate (hreg p (hj ▸ hitem))
    refine ⟨res', _, ?_, ht', hgive, hcontexts⟩
    simp [pvrsrvDissociateMemFromResmanKM, hi, hitem, hres]

def PbState.freed (s : PbState) (l : List ℕ) : PbState :=
  { s with memInfos := fun m => if m ∈ l then none else s.memInfos m }

theorem freed_mem (s : PbState) {l : List ℕ} (hm : m ∈ l) : (s.freed l).memInfos m = none :=
  if_pos hm

theorem freed_not_mem {l : List ℕ} (hm : m ∉ l) : (s.freed l).memInfos m = s.memInfos m :=
  if_neg hm

def PbState.loose (s : PbState) (l : List ℕ) : PbState :=
  { s with memInfos := fun m => if m ∈ l then (s.memInfos m).map fun i => { i with hResItem := none }
      else s.memInfos m }

theorem frees_loose (s : PbState) (l : List ℕ) (m : ℕ) : (s.loose l).frees m = s.frees m := by
  unfold PbState.frees PbState.loose
  dsimp only
  split
  · rw [Option.all_map]
  · rfl

def given (own : ℕ → Option ℕ) (l : List ℕ) : ℕ → Option ℕ := fun m => if m ∈ l then none else own m

theorem given_cons (own : ℕ → Option ℕ) (m : ℕ) (l : List ℕ) :
    given (Function.update own m none) l = given own (m :: l) := by
  funext n
  by_cases hn : n = m <;> simp [given, hn]

theorem frees_withMem {n : ℕ} (hnm : n ≠ m) (v : Option KernelMemInfo) :
    (s.withMem m v).frees n = s.frees n := by
  rw [PbState.frees, PbState.frees, withMem_of_ne hnm]

theorem Items.freeList {l : List (Bool × ℕ)} (h : Items s reg own refs) (ht : Tracks res reg)
    (hnodup : (l.map Prod.snd).Nodup)
    (hl : ∀ m ∈ l.map Prod.snd, (own m).isSome = true ∧ s.frees m = true) :
    ∃ res' reg', l.foldlM SharedPb.freeAs ⟨res, s⟩ = some ⟨res', s.freed (l.map Prod.snd)⟩ ∧
      Tracks res' reg' ∧
      Items (s.freed (l.map Prod.snd)) reg' (given own (l.map Prod.snd)) refs := by
  induction l generalizing s res reg own with
  | nil =>
    have hsame : s.freed [] = s := by simp [PbState.freed]
    have hown : given own [] = own := by
      funext m
      simp [given]
    rw [List.map_nil, hsame, hown]
    exact ⟨res, reg, rfl, ht, h⟩
  | cons e l ih =>
    obtain ⟨shared, m⟩ := e
    rw [List.map_cons, List.nodup_cons] at hnodup
    obtain ⟨hmine, hfrees⟩ := hl m List.mem_cons_self
    obtain ⟨c, hc⟩ := Option.isSome_iff_exists.mp hmine
    obtain ⟨res₁, reg₁, i, v, h₁, -, hdrops, ht₁, hitems₁⟩ := h.freeAs ht hc shared
    rw [hdrops.freed hfrees] at h₁ hitems₁
    have hrest (n : ℕ) (hn : n ∈ l.map Prod.snd) : (Function.update own m none n).isSome = true ∧
        (s.withMem m none).frees n = true := by
      have hnm : n ≠ m := fun hnm => hnodup.1 (hnm ▸ hn)
      rw [Function.update_of_ne hnm, frees_withMem hnm]
      exact hl n (List.mem_cons_of_mem m hn)
    obtain ⟨res₂, reg₂, h₂, ht₂, hitems₂⟩ := ih hitems₁ ht₁ hnodup.2 hrest
    have hfreed : (s.withMem m none).freed (l.map Prod.snd) = s.freed (m :: l.map Prod.snd) := by
      rw [PbState.freed, PbState.freed, PbState.withMem]
      congr 1
      funext n
      by_cases hn : n = m <;> simp [hn]
    rw [hfreed] at h₂ hitems₂
    rw [given_cons] at hitems₂
    refine ⟨res₂, reg₂, ?_, ht₂, hitems₂⟩
    rw [List.foldlM_cons, h₁]
    exact h₂

theorem Items.dissociateList {l : List ℕ} (h : Items s reg own refs) (ht : Tracks res reg)
    (hnodup : l.Nodup) (hl : ∀ m ∈ l, (own m).isSome = true) :
    ∃ res' reg', l.foldlM pvrsrvDissociateMemFromResmanKM ⟨res, s⟩ = some ⟨res', s.loose l⟩ ∧
      Tracks res' reg' ∧ Items (s.loose l) reg' own refs ∧
      ∀ d, (res'.contexts d).isSome = (res.contexts d).isSome := by
  induction l generalizing s res reg own with
  | nil =>
    have hsame : s.loose [] = s := by simp [PbState.loose]
    rw [hsame]
    exact ⟨res, reg, rfl, ht, h, fun _ => rfl⟩
  | cons m l ih =>
    rw [List.nodup_cons] at hnodup
    obtain ⟨c, hc⟩ := Option.isSome_iff_exists.mp (hl m List.mem_cons_self)
    obtain ⟨i, hi, -⟩ := h.owned m c hc
    obtain ⟨res₁, reg₁, h₁, ht₁, hitems₁, hcontexts₁⟩ := h.dissociate ht hc hi
    obtain ⟨res₂, reg₂, h₂, ht₂, hitems₂, hcontexts₂⟩ :=
      ih hitems₁ ht₁ hnodup.2 fun n hn => hl n (List.mem_cons_of_mem m hn)
    have hloose : (s.setMem m { i with hResItem := none }).loose l = s.loose (m :: l) := by
      rw [PbState.loose, PbState.loose, PbState.setMem]
      congr 1
      funext n
      by_cases hn : n = m
      · simp [hn, hnodup.1, hi]
      · simp [hn]
    rw [hloose] at h₂ hitems₂
    refine ⟨res₂, reg₂, ?_, ht₂, hitems₂, fun d => (hcontexts₂ d).trans (hcontexts₁ d)⟩
    rw [List.foldlM_cons, h₁]
    exact h₂

theorem Items.abandon {l : List ℕ} (h : Items s reg own refs)
    (hl : ∀ m ∈ l, ∀ i, s.memInfos m = some i → i.hResItem = none) :
    Items s reg (given own l) refs := by
  constructor
  case registered =>
    intro p g hp
    cases h.registered p g hp with
    | inl hmine =>
      obtain ⟨m, c, i, hm, hi, hip, hg⟩ := hmine
      have hml : m ∉ l := fun hml => by
        rw [hl m hml i hi] at hip
        cases hip
      exact .inl ⟨m, c, i, (if_neg hml).trans hm, hi, hip, hg⟩
    | inr hrest => exact .inr hrest
  case owned =>
    intro m c hm
    have hml : m ∉ l := fun hml => by
      rw [given, if_pos hml] at hm
      cases hm
    rw [given, if_neg hml] at hm
    exact h.owned m c hm
  case held => exact h.held
  case nodup => exact h.nodup
  case placed => exact h.placed
  case lock => exact h.lock

def freeDissociatedAs (s : PbState) (e : Bool × ℕ) : Option PbState :=
  freeDissociated (if e.1 then freeSharedSysMemCallBack else freeDeviceMemCallBack) s e.2

/-- Memory without an item that goes when it is freed. -/
def PbState.loosened (s : PbState) (m : ℕ) : Prop :=
  (∃ i, s.memInfos m = some i ∧ i.hResItem = none) ∧ s.frees m = true

theorem freeDissociatedAs_freed (hm : s.loosened m) (shared : Bool) :
    freeDissociatedAs s (shared, m) = some (s.withMem m none) := by
  obtain ⟨⟨i, hi, hitem⟩, hfrees⟩ := hm
  have hback : ∃ v, (if shared then freeSharedSysMemCallBack else freeDeviceMemCallBack) s m =
      some (s.withMem m v) ∧ Drops s m i v := by
    cases shared with
    | false => exact freeDeviceMemCallBack_drops hi
    | true => exact freeSharedSysMemCallBack_drops hi
  obtain ⟨v, hv, hdrops⟩ := hback
  rw [hdrops.freed hfrees] at hv
  simp [freeDissociatedAs, freeDissociated, hi, hitem, hv]

theorem freeDissociated_list {l : List (Bool × ℕ)} (hnodup : (l.map Prod.snd).Nodup)
    (hl : ∀ m ∈ l.map Prod.snd, s.loosened m) :
    l.foldlM freeDissociatedAs s = some (s.freed (l.map Prod.snd)) := by
  induction l generalizing s with
  | nil => simp [PbState.freed]
  | cons e l ih =>
    obtain ⟨shared, m⟩ := e
    rw [List.map_cons, List.nodup_cons] at hnodup
    have hfree := freeDissociatedAs_freed (hl m List.mem_cons_self) shared
    have hrest (n : ℕ) (hn : n ∈ l.map Prod.snd) : (s.withMem m none).loosened n := by
      have hnm : n ≠ m := fun hnm => hnodup.1 (hnm ▸ hn)
      rw [PbState.loosened, frees_withMem hnm, withMem_of_ne hnm]
      exact hl n (List.mem_cons_of_mem m hn)
    rw [List.foldlM_cons, hfree]
    change l.foldlM freeDissociatedAs (s.withMem m none) = _
    rw [ih hnodup.2 hrest, List.map_cons, PbState.freed, PbState.freed, PbState.withMem]
    congr 2
    funext n
    by_cases hn : n = m <;> simp [hn]

theorem freeDescriptor_all (hb : (s.stubs b).isSome = true) (hnodup : stub.infos.Nodup)
    (hl : ∀ m ∈ stub.infos, s.loosened m) : freeDescriptor s b stub =
      some { s.freed stub.infos with stubs := Function.update s.stubs b none } := by
  let l := stub.ppsSubKernelMemInfos.map (fun m => (false, m)) ++
    [(true, stub.psBlockKernelMemInfo), (false, stub.psHWPBDescKernelMemInfo),
      (true, stub.psSharedPBDescKernelMemInfo)]
  have hmap : l.map Prod.snd = stub.ppsSubKernelMemInfos ++ [stub.psBlockKernelMemInfo,
      stub.psHWPBDescKernelMemInfo, stub.psSharedPBDescKernelMemInfo] := by
    simp [l, Function.comp_def]
  have hperm : (l.map Prod.snd).Perm stub.infos := by
    rw [hmap]
    exact (List.reverse_perm [stub.psSharedPBDescKernelMemInfo, stub.psHWPBDescKernelMemInfo,
      stub.psBlockKernelMemInfo]).append_left _
  have hfold := freeDissociated_list (hperm.nodup_iff.mpr hnodup) fun m hm =>
    hl m (hperm.mem_iff.mp hm)
  have hsame : s.freed (l.map Prod.snd) = s.freed stub.infos := by
    rw [PbState.freed, PbState.freed]
    congr 1
    funext m
    simp only [hperm.mem_iff]
  rw [hsame, List.foldlM_append] at hfold
  have hfree : (s.freed stub.infos).freeStub b =
      some { s.freed stub.infos with stubs := Function.update s.stubs b none } := by
    have hb' : ((s.freed stub.infos).stubs b).isSome = true := hb
    rw [PbState.freeStub, if_pos hb']
    rfl
  rw [← hfree, freeDescriptor]
  obtain ⟨t, ht, hrest⟩ := Option.bind_eq_some_iff.mp hfold
  have hsubs : stub.ppsSubKernelMemInfos.foldlM (freeDissociated freeDeviceMemCallBack) s =
      some t := by
    rw [List.foldlM_map] at ht
    exact ht
  simp only [List.foldlM_cons, List.foldlM_nil, Option.bind_eq_bind, Option.pure_def,
    Option.bind_fun_some, freeDissociatedAs, if_true, Bool.false_eq_true, if_false] at hrest
  rw [hsubs, Option.bind_eq_bind, Option.bind_some]
  obtain ⟨t₁, h₁, hrest₁⟩ := Option.bind_eq_some_iff.mp hrest
  obtain ⟨t₂, h₂, h₃⟩ := Option.bind_eq_some_iff.mp hrest₁
  simp [h₁, h₂, h₃]

/-- The memory of the descriptor goes when it is freed. -/
def Yields (s : PbState) : Prop :=
  ∀ b ∈ s.psStubPBDescListKM, ∀ stub, s.stubs b = some stub → ∀ m ∈ stub.infos, s.frees m = true

/-- Memory that a process owns is none of the descriptor's. -/
theorem Whole.withMem (hw : Whole s own refs) (hm : own m = some c) (v : Option KernelMemInfo) :
    Whole (s.withMem m v) (Function.update own m none) refs := by
  refine ⟨hw.empty, fun hne => ?_⟩
  obtain ⟨b, stub, hlist, hstub, honly, hcount, hinfos, hmem⟩ := hw.stub hne
  refine ⟨b, stub, hlist, hstub, honly, hcount, hinfos, fun n hn => ?_⟩
  obtain ⟨hown, j, hj, hitem⟩ := hmem n hn
  have hnm : n ≠ m := fun hnm => by
    rw [hnm, hm] at hown
    cases hown
  exact ⟨(Function.update_of_ne hnm ..).trans hown, j, (withMem_of_ne hnm v).trans hj, hitem⟩

theorem Yields.withMem (h : Yields s) (hw : Whole s own refs) (hm : own m = some c)
    (v : Option KernelMemInfo) : Yields (s.withMem m v) := by
  intro b hb stub hstub n hn
  have hne : refs ≠ [] := fun hnil => by
    rw [PbState.withMem, (hw.empty hnil).1] at hb
    cases hb
  obtain ⟨e, stub', hlist, hstub', -, -, -, hmem⟩ := hw.stub hne
  have hbe : b = e := by
    rw [PbState.withMem, hlist] at hb
    exact List.mem_singleton.mp hb
  have hsame : stub = stub' := by
    rw [hbe] at hstub
    exact Option.some.inj (hstub.symm.trans hstub')
  have hnm : n ≠ m := fun hnm => by
    rw [hsame, hnm] at hn
    rw [(hmem m hn).1] at hm
    cases hm
  rw [frees_withMem hnm]
  exact h b hb stub hstub n hn

/-- The one descriptor, with the count and the memory that it has for `refs`. -/
structure Described (s : PbState) (own : ℕ → Option ℕ) (refs : List Ref) (b : ℕ)
    (stub : StubPbDesc) : Prop where
  there : s.stubs b = some stub
  only : ∀ e, (s.stubs e).isSome = true → e = b
  count : stub.ui32RefCount = refs.length
  infos : stub.infos.Nodup
  mem : ∀ m ∈ stub.infos, own m = none ∧ ∃ i, s.memInfos m = some i ∧ i.hResItem = none

theorem Whole.described (hw : Whole s own refs) (hr : r ∈ refs)
    (hb : s.psStubPBDescListKM = [b]) : ∃ stub, Described s own refs b stub := by
  obtain ⟨b', stub, hlist, hstub, honly, hcount, hinfos, hmem⟩ := hw.stub (List.ne_nil_of_mem hr)
  have hbb : b' = b := by
    rw [hb] at hlist
    exact (List.cons.inj hlist).1.symm
  rw [hbb] at hstub honly
  exact ⟨stub, hstub, honly, hcount, hinfos, hmem⟩

/-- What the clean-up does to the descriptor when one of `refs` is given up: the last one takes it
    with its memory. -/
structure CleansUp (s s' : PbState) (refs : List Ref) (b : ℕ) (stub : StubPbDesc) : Prop where
  item : s'.psResItemCreateSharedPB = s.psResItemCreateSharedPB
  proc : s'.psPerProcCreateSharedPB = s.psPerProcCreateSharedPB
  ends : (refs.length = 1 ∧ s'.psStubPBDescListKM = [] ∧ (∀ e, s'.stubs e = none) ∧
      s'.memInfos = (s.freed stub.infos).memInfos) ∨
    (1 < refs.length ∧ s'.psStubPBDescListKM = [b] ∧ s'.memInfos = s.memInfos ∧
      s'.stubs = Function.update s.stubs b (some { stub with ui32RefCount := refs.length - 1 }))

theorem Described.cleanup (d : Described s own refs b stub) (hr : r ∈ refs)
    (hb : s.psStubPBDescListKM = [b]) (hyields : refs.length = 1 → Yields s) :
    ∃ s', sgxCleanupSharedPBDescKM s b = some s' ∧ CleansUp s s' refs b stub := by
  have hpos : 0 < refs.length := List.length_pos_iff.mpr (List.ne_nil_of_mem hr)
  have hstub := d.there
  have hsub : u32Sub stub.ui32RefCount 1 = refs.length - 1 := by
    rw [d.count, u32Sub_of_le (by omega)]
  by_cases hlast : refs.length = 1
  · have hzero : refs.length - 1 = 0 := by omega
    let s₁ : PbState := { s with
      psStubPBDescListKM := []
      stubs := Function.update s.stubs b (some { stub with ui32RefCount := 0 }) }
    have hstubs : Function.update s₁.stubs b none = fun _ => none := by
      funext e
      by_cases he : e = b
      · rw [he, Function.update_self]
      · rw [Function.update_idem, Function.update_of_ne he]
        cases hse : s.stubs e with
        | none => rfl
        | some v => exact absurd (d.only e (by rw [hse]; rfl)) he
    have hloose (m : ℕ) (hm : m ∈ stub.infos) : s₁.loosened m :=
      ⟨(d.mem m hm).2, hyields hlast b (by rw [hb]; exact List.mem_cons_self) stub hstub m hm⟩
    have hfree := freeDescriptor_all (b := b) (by simp [s₁]) d.infos hloose
    rw [hstubs] at hfree
    refine ⟨{ s₁.freed stub.infos with stubs := fun _ => none }, ?_, rfl, rfl,
      .inl ⟨hlast, rfl, fun _ => rfl, rfl⟩⟩
    rw [← hfree]
    simp [sgxCleanupSharedPBDescKM, hstub, hb, hsub, hzero, PbState.setStub, s₁, freeDescriptor]
  · refine ⟨s.setStub b { stub with ui32RefCount := refs.length - 1 }, ?_, rfl, rfl,
      .inr ⟨by omega, hb, rfl, rfl⟩⟩
    have hmore : ¬refs.length - 1 = 0 := by omega
    simp [sgxCleanupSharedPBDescKM, hstub, hb, hsub, hmore]

/-- Each descriptor is still there with its memory, or it is gone and its memory with it. -/
def Kept (s s' : PbState) : Prop :=
  ∀ b stub, s.stubs b = some stub →
    (∃ stub', s'.stubs b = some stub' ∧ stub'.infos = stub.infos) ∨
      s'.stubs b = none ∧ ∀ m ∈ stub.infos, s'.memInfos m = none

/-- No memory is new or newly exported. -/
def Unmarked (s s' : PbState) : Prop := ∀ m j, s'.memInfos m = some j →
  ∃ i, s.memInfos m = some i ∧ j.exported = i.exported ∧ j.kind = i.kind

def Shrinks (s s' : PbState) : Prop :=
  (∀ b, s.stubs b = none → s'.stubs b = none) ∧ Unmarked s s'

theorem Unmarked.of_mem (h : s'.memInfos = s.memInfos) : Unmarked s s' :=
  fun m j hj => ⟨j, by rw [← h, hj], rfl, rfl⟩

theorem Unmarked.trans {t : PbState} (h : Unmarked s s') (h' : Unmarked s' t) : Unmarked s t := by
  intro m j hj
  obtain ⟨k, hk, hjk, hjk'⟩ := h' m j hj
  obtain ⟨i, hi, hki, hki'⟩ := h m k hk
  exact ⟨i, hi, hjk.trans hki, hjk'.trans hki'⟩

theorem Shrinks.gone (h : Shrinks s s') (hm : s.memInfos m = none) : s'.memInfos m = none := by
  cases hj : s'.memInfos m with
  | none => rfl
  | some j =>
    obtain ⟨i, hi, -⟩ := h.2 m j hj
    rw [hm] at hi
    cases hi

theorem Kept.trans {t : PbState} (h : Kept s s') (h' : Kept s' t) (hshrinks : Shrinks s' t) :
    Kept s t := by
  intro b stub hb
  cases h b stub hb with
  | inl hthere =>
    obtain ⟨stub', hb', hinfos⟩ := hthere
    rw [← hinfos]
    exact h' b stub' hb'
  | inr hgone => exact .inr ⟨hshrinks.1 b hgone.1, fun m hm => hshrinks.gone (hgone.2 m hm)⟩

theorem Shrinks.trans {t : PbState} (h : Shrinks s s') (h' : Shrinks s' t) : Shrinks s t :=
  ⟨fun b hb => h'.1 b (h.1 b hb), h.2.trans h'.2⟩

theorem unmarked_freed (s : PbState) (l : List ℕ) : Unmarked s (s.freed l) := by
  refine fun m j hj => ⟨j, ?_, rfl, rfl⟩
  by_cases hm : m ∈ l
  · rw [freed_mem s hm] at hj
    cases hj
  · rw [← freed_not_mem hm]
    exact hj

theorem unmarked_loose (s : PbState) (l : List ℕ) : Unmarked s (s.loose l) := by
  intro m j hj
  by_cases hm : m ∈ l
  · have hmap : (s.memInfos m).map (fun i => { i with hResItem := none }) = some j :=
      (if_pos hm).symm.trans hj
    obtain ⟨i, hi, hij⟩ := Option.map_eq_some_iff.mp hmap
    exact ⟨i, hi, by rw [← hij], by rw [← hij]⟩
  · exact ⟨j, (if_neg hm).symm.trans hj, rfl, rfl⟩

theorem unmarked_setMem (hi : s.memInfos m = some i) {k : KernelMemInfo}
    (hk : k.exported = i.exported) (hkind : k.kind = i.kind) : Unmarked s (s.setMem m k) := by
  intro n j hj
  by_cases hnm : n = m
  · rw [hnm, setMem_eq, withMem_self, Option.some.injEq] at hj
    rw [hnm]
    exact ⟨i, hi, by rw [← hj, hk], by rw [← hj, hkind]⟩
  · rw [setMem_eq, withMem_of_ne hnm] at hj
    exact ⟨j, hj, rfl, rfl⟩

def MemKind.plain (kind : MemKind) : Bool := kind = .allocDeviceMem || kind = .allocSharedSysMem

/-- No memory is exported, and none is a mapping or wrapped. -/
def Plain (s : PbState) : Prop :=
  ∀ m i, s.memInfos m = some i → i.exported = false ∧ i.kind.plain = true

theorem Plain.of_unmarked (h : Plain s) (hmarks : Unmarked s s') : Plain s' := by
  intro m j hj
  obtain ⟨i, hi, hji, hkind⟩ := hmarks m j hj
  rw [hji, hkind]
  exact h m i hi

theorem Plain.frees (h : Plain s) (m : ℕ) : s.frees m = true := by
  unfold PbState.frees
  cases hm : s.memInfos m with
  | none => rfl
  | some i => simp [(h m i hm).1]

theorem Drops.shrinks {v : Option KernelMemInfo} (h : Drops s m i v)
    (hi : s.memInfos m = some i) : Shrinks s (s.withMem m v) := by
  refine ⟨fun _ hb => hb, fun n j hj => ?_⟩
  by_cases hnm : n = m
  · rw [hnm, withMem_self] at hj
    rw [hnm]
    exact ⟨i, hi, by rw [h.left j hj], by rw [h.left j hj]⟩
  · rw [withMem_of_ne hnm] at hj
    exact ⟨j, hj, rfl, rfl⟩

theorem Kept.of_stubs (h : s'.stubs = s.stubs) : Kept s s' := by
  intro b stub hb
  rw [h]
  exact .inl ⟨stub, hb, rfl⟩

theorem Kept.of_update {stub' : StubPbDesc} (hstub : s.stubs b = some stub)
    (hs : s'.stubs = Function.update s.stubs b (some stub')) (hinfos : stub'.infos = stub.infos) :
    Kept s s' := by
  intro e stub₀ he
  rw [hs]
  by_cases heb : e = b
  · rw [heb, hstub, Option.some.injEq] at he
    rw [heb, ← he]
    exact .inl ⟨stub', Function.update_self .., hinfos⟩
  · exact .inl ⟨stub₀, (Function.update_of_ne heb ..).trans he, rfl⟩

theorem stubs_none_of_update {stub' : StubPbDesc} {e : ℕ} (hstub : s.stubs b = some stub)
    (hs : s'.stubs = Function.update s.stubs b (some stub')) (he : s.stubs e = none) :
    s'.stubs e = none := by
  have heb : e ≠ b := fun heb => by
    rw [heb, hstub] at he
    cases he
  rw [hs, Function.update_of_ne heb]
  exact he

theorem length_dropKey (hnodup : (refs.map Ref.item).Nodup) (hr : r ∈ refs) :
    refs.length = (dropKey Ref.item refs r.item).length + 1 :=
  (perm_cons_dropKey hnodup hr).length_eq

/-- Memory that is owned is none of the descriptor's. -/
theorem Described.mem_kept (d : Described s own refs b stub) (hclean : CleansUp s s' refs b stub)
    {n e : ℕ} (hn : own n = some e) : s'.memInfos n = s.memInfos n := by
  cases hclean.ends with
  | inl hlast =>
    have hnot : n ∉ stub.infos := fun hnm => by
      rw [(d.mem n hnm).1] at hn
      cases hn
    rw [hlast.2.2.2]
    exact if_neg hnot
  | inr hmore => rw [hmore.2.2.1]

theorem CleansUp.list (hclean : CleansUp s s' refs b stub) (hnodup : (refs.map Ref.item).Nodup)
    (hr : r ∈ refs) (hne : dropKey Ref.item refs r.item ≠ []) : s'.psStubPBDescListKM = [b] := by
  cases hclean.ends with
  | inl hlast =>
    have hlen := length_dropKey hnodup hr
    have hzero : (dropKey Ref.item refs r.item).length = 0 := by omega
    exact absurd (List.length_eq_zero_iff.mp hzero) hne
  | inr hmore => exact hmore.2.1

/-- The item of the reference goes; every other item stays with what it is for. -/
theorem Items.cleanedUp (h : Items s reg own refs) (d : Described s own refs b stub)
    (hclean : CleansUp s s' refs b stub) (hr : r ∈ refs) (hb : s.psStubPBDescListKM = [b]) :
    Items s' (Function.update reg r.item none) own (dropKey Ref.item refs r.item) := by
  have hlist {v : Ref} (hv : v ∈ dropKey Ref.item refs r.item) {e : ℕ}
      (he : s.psStubPBDescListKM = [e]) : s'.psStubPBDescListKM = [e] := by
    rw [hclean.list h.nodup hr (List.ne_nil_of_mem hv), ← hb, he]
  constructor
  case registered =>
    intro q g hq
    have hqr : q ≠ r.item := fun hqr => by
      rw [hqr, Function.update_self] at hq
      cases hq
    rw [Function.update_of_ne hqr] at hq
    cases h.registered q g hq with
    | inl hmine =>
      obtain ⟨m, e, i, hm, hi, hiq, hg⟩ := hmine
      exact .inl ⟨m, e, i, hm, (d.mem_kept hclean hm).trans hi, hiq, hg⟩
    | inr hrest =>
      cases hrest with
      | inl href =>
        obtain ⟨v, hv, e, hvq, hg, he⟩ := href
        have hmem : v ∈ dropKey Ref.item refs r.item :=
          mem_dropKey.mpr ⟨hv, by rw [hvq]; exact hqr⟩
        exact .inr (.inl ⟨v, hmem, e, hvq, hg, hlist hmem he⟩)
      | inr hlock =>
        obtain ⟨e, hg, hi, hp⟩ := hlock
        exact .inr (.inr ⟨e, hg, hclean.item.trans hi, hclean.proc.trans hp⟩)
  case owned =>
    intro n e hn
    obtain ⟨i, hi, hall⟩ := h.owned n e hn
    refine ⟨i, (d.mem_kept hclean hn).trans hi, fun q hq => ?_⟩
    have hreg := hall q hq
    have hqr : q ≠ r.item := fun hqr => (h.mem_apart hreg).1 r hr hqr.symm
    rw [Function.update_of_ne hqr]
    exact hreg
  case held =>
    intro v hv
    obtain ⟨hvin, hvr⟩ := mem_dropKey.mp hv
    obtain ⟨e, he, hreg⟩ := h.held v hvin
    rw [Function.update_of_ne hvr]
    exact ⟨e, hlist hv he, hreg⟩
  case nodup => exact dropKey_nodup h.nodup _
  case placed => exact fun v hv => h.placed v (mem_dropKey.mp hv).1
  case lock =>
    rw [hclean.item, hclean.proc]
    cases h.lock with
    | inl hnone => exact .inl hnone
    | inr hheld =>
      obtain ⟨q, e, hq, he, hqe⟩ := hheld
      have hqr : q ≠ r.item := fun hqr => by
        obtain ⟨f, -, hreg⟩ := h.held r hr
        rw [hqr, hreg, Option.some.injEq] at hqe
        exact absurd (congrArg Registration.resType hqe) ResmanType.noConfusion
      refine .inr ⟨q, e, hq, he, ?_⟩
      rw [Function.update_of_ne hqr]
      exact hqe

theorem Described.whole (d : Described s own refs b stub) (hclean : CleansUp s s' refs b stub)
    (hnodup : (refs.map Ref.item).Nodup) (hr : r ∈ refs) :
    Whole s' own (dropKey Ref.item refs r.item) := by
  have hlen := length_dropKey hnodup hr
  constructor
  case empty =>
    intro hnil
    cases hclean.ends with
    | inl hlast => exact ⟨hlast.2.1, hlast.2.2.1⟩
    | inr hmore =>
      rw [hnil] at hlen
      exact absurd hmore.1 (by rw [hlen]; exact Nat.lt_irrefl 1)
  case stub =>
    intro hne
    have hlist := hclean.list hnodup hr hne
    cases hclean.ends with
    | inl hlast =>
      rw [hlast.2.1] at hlist
      cases hlist
    | inr hmore =>
      obtain ⟨-, -, hm, hs⟩ := hmore
      refine ⟨b, { stub with ui32RefCount := refs.length - 1 }, hlist, ?_, fun e he => ?_, ?_,
        d.infos, ?_⟩
      · rw [hs, Function.update_self]
      · rw [hs] at he
        by_cases heb : e = b
        · exact heb
        · rw [Function.update_of_ne heb] at he
          exact d.only e he
      · exact Nat.sub_eq_of_eq_add hlen
      · rw [hm]
        exact d.mem

theorem Described.kept (d : Described s own refs b stub) (hclean : CleansUp s s' refs b stub) :
    Kept s s' := by
  intro e stub₀ he
  have heb : e = b := d.only e (by rw [he]; rfl)
  rw [heb, d.there, Option.some.injEq] at he
  rw [heb, ← he]
  cases hclean.ends with
  | inl hlast =>
    refine .inr ⟨hlast.2.2.1 b, fun m hm => ?_⟩
    rw [hlast.2.2.2]
    exact if_pos hm
  | inr hmore =>
    refine .inl ⟨{ stub with ui32RefCount := refs.length - 1 }, ?_, rfl⟩
    rw [hmore.2.2.2, Function.update_self]

theorem Described.shrinks (d : Described s own refs b stub)
    (hclean : CleansUp s s' refs b stub) : Shrinks s s' := by
  refine ⟨fun e he => ?_, fun m j hj => ?_⟩
  · cases hclean.ends with
    | inl hlast => exact hlast.2.2.1 e
    | inr hmore =>
      have heb : e ≠ b := fun heb => by
        rw [heb, d.there] at he
        cases he
      rw [hmore.2.2.2, Function.update_of_ne heb]
      exact he
  · cases hclean.ends with
    | inl hlast =>
      rw [hlast.2.2.2] at hj
      exact unmarked_freed s stub.infos m j hj
    | inr hmore =>
      rw [hmore.2.2.1] at hj
      exact ⟨j, hj, rfl, rfl⟩

theorem Described.yields (d : Described s own refs b stub) (hclean : CleansUp s s' refs b stub)
    (hb : s.psStubPBDescListKM = [b]) (hgo : Yields s) : Yields s' := by
  intro e he stub₀ hstub₀ m hm
  cases hclean.ends with
  | inl hlast =>
    rw [hlast.2.1] at he
    cases he
  | inr hmore =>
    obtain ⟨-, hl, hsame, hs⟩ := hmore
    rw [hl] at he
    rw [List.mem_singleton.mp he, hs, Function.update_self, Option.some.injEq] at hstub₀
    rw [PbState.frees, hsame]
    rw [← hstub₀] at hm
    exact hgo b (by rw [hb]; exact List.mem_cons_self) stub d.there m hm

theorem Items.unref (h : Items s reg own refs) (hw : Whole s own refs) (hr : r ∈ refs)
    (hb : s.psStubPBDescListKM = [b]) (hyields : refs.length = 1 → Yields s) : ∃ s',
      pbCallBack ((r.registration b).call r.item) s = some s' ∧
      Items s' (Function.update reg r.item none) own (dropKey Ref.item refs r.item) ∧
      Whole s' own (dropKey Ref.item refs r.item) ∧ Kept s s' ∧ Shrinks s s' ∧
      s'.psPerProcCreateSharedPB = s.psPerProcCreateSharedPB ∧ (Yields s → Yields s') := by
  obtain ⟨stub, d⟩ := hw.described hr hb
  obtain ⟨s', hstep, hclean⟩ := d.cleanup hr hb hyields
  exact ⟨s', hstep, h.cleanedUp d hclean hr hb, d.whole hclean h.nodup hr, d.kept hclean,
    d.shrinks hclean, hclean.proc, d.yields hclean hb⟩

end PvrServices.SharedPb
