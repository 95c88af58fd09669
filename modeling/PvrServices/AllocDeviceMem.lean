import PvrServices.MapMemoryLists
import PvrServices.OsAreas

set_option autoImplicit false

/-!
# Allocated device memory

`PVRSRVAllocDeviceMemKM` with its flags and its out pointer, over the structures of the mapping
calls. The sync info of the memory is a device allocation of its own, and the memory info is handed
to the caller before its resource item is made.
-/
namespace PvrServices.AllocDeviceMem
open Words BlockHeap MapMemory OsAreas

def memNoResman : ℕ := 2 ^ 10
def memExported : ℕ := 2 ^ 11

structure DeviceMemCall where
  process : ℕ
  hDevMemHeap : ℕ
  ui32Flags : ℕ
  ui32Size : ℕ
  memInfo : Option ℕ
  buffer : Option Buffer
  stray : Option ℕ
  sync : SyncAnswers
  item : Option ℕ

/-- `ppsMemInfo` is what the call has written through its out pointer, if it has. -/
structure Returned where
  eError : Option PvrsrvError
  ppsMemInfo : Option ℕ
  maps : Maps

def freeMainalloc (s : Maps) (m : ℕ) (out : Option ℕ) (e : PvrsrvError) : Option Returned :=
  (freeDeviceMem s m).map fun s => ⟨some e, out, s⟩

def countMem (s : Maps) (m p : ℕ) : Option Returned := do
  let i ← memInfoAt s.heap m
  let s ← s.write m (.memInfo { i with hResItem := p, refCount := u32 (i.refCount + 1) })
  some ⟨none, some m, s⟩

/-- The registration; the memory info is with the caller already. -/
def registerMem (s : Maps) (c : DeviceMemCall) (m : ℕ) : Option Returned :=
  if hasFlag c.ui32Flags memNoResman then countMem s m 0
  else do
    let (p, s) ← registerRes s ⟨c.process, .freeDeviceMem, m⟩ c.item
    if p = 0 then freeMainalloc s m (some m) .errorOutOfMemory else countMem s m p

/-- The sync info is entered into the memory info; of its flags word only `PVRSRV_MEM_EXPORTED` is
    looked at again. -/
def DeviceMemCall.entered (c : DeviceMemCall) (i : MemInfo) (y : ℕ) : MemInfo :=
  { i with
    psKernelSyncInfo := y
    exported := hasFlag c.ui32Flags memExported }

def publishMem (s : Maps) (c : DeviceMemCall) (m y : ℕ) : Option Returned := do
  let i ← memInfoAt s.heap m
  let s ← s.write m (.memInfo (c.entered i y))
  registerMem s c m

def syncMem (s : Maps) (c : DeviceMemCall) (m : ℕ) : Option Returned := do
  let (y, s) ← allocSyncInfo s c.sync
  if y = 0 then freeMainalloc s m none .errorOutOfMemory else publishMem s c m y

def madeMem (s : Maps) (c : DeviceMemCall) (m : ℕ) : Option Returned :=
  if hasFlag c.ui32Flags memNoSyncobj then publishMem s c m 0 else syncMem s c m

def pvrsrvAllocDeviceMemKM (s : Maps) (c : DeviceMemCall) : Option Returned :=
  if c.hDevMemHeap = 0 ∨ c.ui32Size = 0 then some ⟨some .errorInvalidParams, none, s⟩
  else do
    let (m, s) ← allocDeviceMem s c.ui32Size c.memInfo c.buffer c.stray
    if m = 0 then some ⟨some .errorOutOfMemory, none, s⟩ else madeMem s c m

def SyncThere (t : Maps) (y : ℕ) : Prop :=
  ∃ z j, y ≠ 0 ∧ syncInfoAt t.heap y = some z ∧ memInfoAt t.heap z.psSyncDataMemInfoKM = some j ∧
    t.buffers j.hBuffer = 1

structure Complete (t : Maps) (c : DeviceMemCall) (i : MemInfo) (m : ℕ) : Prop where
  counted : i.refCount = 1
  sync : hasFlag c.ui32Flags memNoSyncobj = false → SyncThere t i.psKernelSyncInfo
  item : hasFlag c.ui32Flags memNoResman = false →
    i.hResItem ≠ 0 ∧ t.items i.hResItem = some ⟨c.process, .freeDeviceMem, m⟩

def Outcome (s : Maps) (c : DeviceMemCall) (out : Option ℕ) (t : Maps) :
    Option PvrsrvError → Prop
  | some _ => Restored s t
  | none => ∃ m i, out = some m ∧ memInfoAt t.heap m = some i ∧ Complete t c i m

/-- A call keeps its promise: what it hands out is there, and it takes back what it made. -/
structure Keeps (s : Maps) (c : DeviceMemCall) (r : Returned) : Prop where
  handed : ∀ m, r.ppsMemInfo = some m → ∃ i, memInfoAt r.maps.heap m = some i
  outcome : Outcome s c r.ppsMemInfo r.maps r.eError

structure Reaches (c : DeviceMemCall) : Prop where
  heap : c.hDevMemHeap ≠ 0
  size : c.ui32Size ≠ 0
  memInfo : c.memInfo ≠ none
  buffer : c.buffer ≠ none
  sync : hasFlag c.ui32Flags memNoSyncobj = false → c.sync.Made

def Registers (c : DeviceMemCall) : Prop :=
  hasFlag c.ui32Flags memNoResman = false → Reaches c → c.item ≠ none

/-- Answers that the allocators can give: addresses and buffers that are not in use, no two the
    same. -/
structure Fresh (s : Maps) (c : DeviceMemCall) : Prop where
  memInfo : ∀ p, c.memInfo = some p → p ≠ 0 ∧ s.heap.blocks p = none
  buffer : ∀ b, c.buffer = some b → b.handle ≠ 0 ∧ s.buffers b.handle = 0
  info : ∀ p, c.sync.info = some p → p ≠ 0 ∧ s.heap.blocks p = none ∧ c.memInfo ≠ some p
  dataInfo : ∀ p, c.sync.dataInfo = some p → p ≠ 0 ∧ s.heap.blocks p = none ∧
    c.memInfo ≠ some p ∧ c.sync.info ≠ some p
  dataBuffer : ∀ b, c.sync.dataBuffer = some b → b.handle ≠ 0 ∧ s.buffers b.handle = 0 ∧
    ∀ z, c.buffer = some z → z.handle ≠ b.handle
  item : ∀ p, c.item = some p → p ≠ 0 ∧ s.items p = none

variable {s t u v : Maps} {c : DeviceMemCall} {r : Returned} {m p y n : ℕ} {i j : MemInfo}
  {b : Buffer} {a : SyncAnswers} {grant : Option ℕ} {buffer : Option Buffer} {stray : Option ℕ}
  {x : Content}

theorem write_info (hw : s.write m (.memInfo i) = some t) :
    memInfoAt t.heap m = some i ∧ (∀ q, q ≠ m → t.heap.blocks q = s.heap.blocks q) ∧
      t = { s with heap := t.heap } := by
  have hspec := Maps.write_spec hw
  obtain ⟨b, -, hnew, hothers, -⟩ := Heap.write_spec hspec.1
  exact ⟨memInfoAt_eq_some.mpr ⟨_, hnew⟩, hothers, hspec.2⟩

structure NewMem (s t : Maps) (m : ℕ) (b : Buffer) : Prop where
  fresh : s.heap.blocks m = none
  info : ∃ i, memInfoAt t.heap m = some i ∧ i.hBuffer = b.handle ∧ i.refCount = 0
  others : ∀ q, q ≠ m → t.heap.blocks q = s.heap.blocks q
  unused : b.handle ≠ 0 ∧ s.buffers b.handle = 0
  rest : t = { s with heap := t.heap, buffers := Function.update s.buffers b.handle 1 }

theorem allocDeviceMem_new (ha : allocDeviceMem s n grant buffer stray = some (m, t)) (hm : m ≠ 0) :
    ∃ b, grant = some m ∧ buffer = some b ∧ NewMem s t m b ∧
      ∃ i, memInfoAt t.heap m = some i ∧ i.hBuffer = b.handle ∧ i.pvLinAddrKM = b.cpuVAddr := by
  unfold allocDeviceMem at ha
  obtain ⟨⟨p, u⟩, hu, ha⟩ := Option.bind_eq_some_iff.mp ha
  have halloc := Maps.alloc_spec hu
  dsimp only at ha
  split at ha
  · exact absurd (Prod.mk.inj (Option.some.inj ha)).1.symm hm
  · rename_i h0
    obtain ⟨hgrant, hnew⟩ := halloc.2.resolve_left fun hnone => h0 hnone.2.1
    cases buffer with
    | none =>
      obtain ⟨v, -, heq⟩ := Option.map_eq_some_iff.mp ha
      exact absurd (Prod.mk.inj heq).1.symm hm
    | some b =>
      obtain ⟨v, hv, ha⟩ := Option.bind_eq_some_iff.mp ha
      obtain ⟨w, hw, ha⟩ := Option.bind_eq_some_iff.mp ha
      have hend := Prod.mk.inj (Option.some.inj ha)
      have hb := bmAlloc_spec hv
      have hinfo := write_info hw
      have hheap : v.heap = u.heap := by rw [hb.2.2]
      have hu' : u.buffers = s.buffers := by rw [halloc.1]
      rw [← hend.1, ← hend.2]
      refine ⟨b, hgrant, rfl, ⟨hnew.fresh, ⟨_, hinfo.1, rfl, rfl⟩, fun q hq => ?_, ⟨hb.2.1, ?_⟩, ?_⟩,
        _, hinfo.1, rfl, rfl⟩
      · rw [hinfo.2.1 q hq, hheap]
        exact hnew.others q hq
      · rw [← hu']
        exact hb.1
      · rw [hinfo.2.2, hb.2.2, halloc.1]

theorem NewMem.freed (hn : NewMem s t m b) (hv : Restored t v)
    (hf : freeDeviceMem v m = some u) (hm : m ≠ 0) : Restored s u := by
  obtain ⟨i, hi, hbuffer, -⟩ := hn.info
  cases freeDeviceMem_spec hf with
  | inl h0 => exact absurd h0.1 hm
  | inr hfreed =>
    obtain ⟨j, hinfo, hfrees, w, hw, hu⟩ := hfreed
    have hij : memInfoAt v.heap m = memInfoAt t.heap m := memInfoAt_congr (congrFun hv.blocks m)
    have hj : j = i := Option.some.inj (hinfo.symm.trans (hij.trans hi))
    have hbuffers : v.buffers = Function.update s.buffers b.handle 1 := by rw [hv.rest, hn.rest]
    rw [hj, hbuffer] at hw
    unfold bmFree at hw
    rw [if_neg hn.unused.1, hbuffers, Function.update_self, if_neg Nat.one_ne_zero,
      Function.update_idem] at hw
    have hback : Function.update s.buffers b.handle (1 - 1) = s.buffers := by
      rw [Nat.sub_self, ← hn.unused.2]
      exact Function.update_eq_self _ _
    rw [hback] at hw
    refine ⟨funext fun q => ?_, ?_⟩
    · by_cases hq : q = m
      · rw [hq, hfrees.gone, hn.fresh]
      · rw [hfrees.others q hq, hv.blocks, hn.others q hq]
    · rw [hu, ← Option.some.inj hw, hv.rest, hn.rest]

/-- A call of `PVRSRVAllocSyncInfoKM` that succeeds: it gets all that it asks for, and the data of the
    sync info is in a new memory info, with a buffer of its own. -/
structure MadeSync (s t : Maps) (a : SyncAnswers) (y m : ℕ) (b : Buffer) : Prop where
  asked : a.info = some y ∧ a.dataInfo = some m ∧ a.dataBuffer = some b
  null : m ≠ 0 ∧ b.handle ≠ 0
  apart : m ≠ y
  fresh : s.heap.blocks y = none ∧ s.heap.blocks m = none ∧ s.buffers b.handle = 0
  info : syncInfoAt t.heap y = some ⟨m, 0, 0⟩
  data : ∃ i, memInfoAt t.heap m = some i ∧ i.hBuffer = b.handle ∧ i.pvLinAddrKM = b.cpuVAddr
  others : ∀ q, q ≠ y → q ≠ m → t.heap.blocks q = s.heap.blocks q
  rest : t = { s with heap := t.heap, buffers := Function.update s.buffers b.handle 1 }

theorem allocSyncInfo_made (ha : allocSyncInfo s a = some (y, t)) (hy : y ≠ 0) :
    ∃ data b, MadeSync s t a y data b := by
  unfold allocSyncInfo at ha
  obtain ⟨⟨p, u⟩, hu, ha⟩ := Option.bind_eq_some_iff.mp ha
  dsimp only at ha
  split at ha
  · exact absurd (Prod.mk.inj (Option.some.inj ha)).1.symm hy
  · rename_i h0
    have halloc := Maps.alloc_spec hu
    obtain ⟨hinfo, hnew⟩ := halloc.2.resolve_left fun hnone => h0 hnone.2.1
    obtain ⟨⟨data, v⟩, hv, ha⟩ := Option.bind_eq_some_iff.mp ha
    unfold syncData at ha
    dsimp only at ha
    split at ha
    · obtain ⟨w, -, heq⟩ := Option.map_eq_some_iff.mp ha
      exact absurd (Prod.mk.inj heq).1.symm hy
    · rename_i hdata
      obtain ⟨w, hw, heq⟩ := Option.map_eq_some_iff.mp ha
      obtain ⟨hpy, hwt⟩ := Prod.mk.inj heq
      obtain ⟨b, hgrant, hbuffer, hmem, i, hi, hfields⟩ := allocDeviceMem_new hv hdata
      have hne : data ≠ p := by
        intro hdp
        have hblock := hmem.fresh
        rw [hdp, hnew.new] at hblock
        cases hblock
      have hunused := hmem.unused.2
      rw [halloc.1] at hunused
      have hwrite := Maps.write_spec hw
      obtain ⟨-, -, -, hothers, -⟩ := Heap.write_spec hwrite.1
      rw [← hpy, ← hwt]
      refine ⟨data, b, ⟨hinfo, hgrant, hbuffer⟩, ⟨hdata, hmem.unused.1⟩, hne,
        ⟨hnew.fresh, ?_, hunused⟩, syncInfoAt_of_write hw, ⟨i, ?_, hfields⟩, fun q hqp hqd => ?_, ?_⟩
      · rw [← hnew.others data hne]
        exact hmem.fresh
      · rw [memInfoAt_congr (hothers data hne)]
        exact hi
      · rw [hothers q hqp, hmem.others q hqd, hnew.others q hqp]
      · rw [hwrite.2, hmem.rest, halloc.1]

/-- The data of a new sync info is in a new memory info, with a buffer of its own. -/
structure NewSync (s t : Maps) (y data : ℕ) : Prop where
  info : ∃ z, syncInfoAt t.heap y = some z ∧ z.psSyncDataMemInfoKM = data
  fresh : s.heap.blocks data = none
  data : ∃ j, memInfoAt t.heap data = some j ∧ t.buffers j.hBuffer = 1
  buffers : ∀ k, s.buffers k ≠ 0 → t.buffers k ≠ 0

theorem allocSyncInfo_new (ha : allocSyncInfo s a = some (y, t)) (hy : y ≠ 0) :
    ∃ data, NewSync s t y data := by
  obtain ⟨data, b, hmade⟩ := allocSyncInfo_made ha hy
  obtain ⟨j, hj, hbuffer, -⟩ := hmade.data
  have hbuffers : t.buffers = Function.update s.buffers b.handle 1 := by rw [hmade.rest]
  refine ⟨data, ⟨_, hmade.info, rfl⟩, hmade.fresh.2.1, ⟨j, hj, ?_⟩, fun k hk => ?_⟩
  · rw [hbuffers, hbuffer]
    exact Function.update_self _ _ _
  · rw [hbuffers]
    by_cases hkb : k = b.handle
    · rw [hkb, Function.update_self]
      exact Nat.one_ne_zero
    · rw [Function.update_of_ne hkb]
      exact hk

theorem NewSync.there {data : ℕ} (hs : NewSync s t y data) (hy : y ≠ 0)
    (hm : memInfoAt t.heap m = some i) (hlive : s.heap.blocks m ≠ none)
    (hothers : ∀ q, q ≠ m → u.heap.blocks q = t.heap.blocks q)
    (hbuffers : u.buffers = t.buffers) : SyncThere u y := by
  obtain ⟨z, hz, hdata⟩ := hs.info
  obtain ⟨j, hj, hone⟩ := hs.data
  have hym : y ≠ m := by
    intro hym
    obtain ⟨n, hn⟩ := syncInfoAt_eq_some.mp hz
    obtain ⟨k, hk⟩ := memInfoAt_eq_some.mp hm
    rw [← hym, hn] at hk
    cases hk
  have hdm : data ≠ m := fun hdm => hlive (hdm ▸ hs.fresh)
  refine ⟨z, j, hy, ?_, ?_, ?_⟩
  · obtain ⟨n, hn⟩ := syncInfoAt_eq_some.mp hz
    exact syncInfoAt_eq_some.mpr ⟨n, (hothers y hym).trans hn⟩
  · rw [hdata, memInfoAt_congr (hothers data hdm)]
    exact hj
  · rw [hbuffers]
    exact hone

/-- The sync info that is asked for survives whatever happens to the memory info. -/
def KeepsSync (c : DeviceMemCall) (u : Maps) (m y : ℕ) : Prop :=
  ∀ t, (∀ q, q ≠ m → t.heap.blocks q = u.heap.blocks q) → t.buffers = u.buffers →
    hasFlag c.ui32Flags memNoSyncobj = false → SyncThere t y

theorem countMem_keeps (hi : memInfoAt u.heap m = some i) (h0 : i.refCount = 0)
    (hsync : KeepsSync c u m i.psKernelSyncInfo)
    (hitem : hasFlag c.ui32Flags memNoResman = false →
      p ≠ 0 ∧ u.items p = some ⟨c.process, .freeDeviceMem, m⟩)
    (hr : countMem u m p = some r) : Keeps s c r := by
  unfold countMem at hr
  obtain ⟨j, hj, hr⟩ := Option.bind_eq_some_iff.mp hr
  obtain ⟨w, hw, hr⟩ := Option.bind_eq_some_iff.mp hr
  have hji : j = i := Option.some.inj (hj.symm.trans hi)
  have hinfo := write_info hw
  have hrest := hinfo.2.2
  rw [← Option.some.inj hr]
  refine ⟨fun q hq => ⟨_, Option.some.inj hq ▸ hinfo.1⟩, m, _, rfl, hinfo.1, ?_, ?_, ?_⟩
  · have hone : u32 (0 + 1) = 1 := u32_of_lt (by omega)
    rw [hji, h0]
    exact hone
  · rw [hji]
    exact hsync w hinfo.2.1 (by rw [hrest])
  · rw [hrest]
    exact hitem

/-- The registration decides, since the memory info is handed out before it. -/
theorem registerMem_keeps_iff (hm : m ≠ 0) (hi : memInfoAt u.heap m = some i)
    (h0 : i.refCount = 0) (hsync : KeepsSync c u m i.psKernelSyncInfo) (hreach : Reaches c)
    (hr : registerMem u c m = some r) : Keeps s c r ↔ Registers c := by
  unfold registerMem at hr
  split at hr
  · rename_i hflag
    constructor
    · intro _ hoff
      exact absurd (hflag.symm.trans hoff) Bool.noConfusion
    · intro _
      exact countMem_keeps hi h0 hsync (fun hoff => absurd (hflag.symm.trans hoff) Bool.noConfusion)
        hr
  · rename_i hflag
    obtain ⟨⟨p, w⟩, hw, hr⟩ := Option.bind_eq_some_iff.mp hr
    dsimp only at hr
    cases hitem : c.item with
    | none =>
      rw [hitem] at hw
      have hend := Prod.mk.inj (Option.some.inj hw)
      rw [← hend.1, ← hend.2, if_pos rfl] at hr
      obtain ⟨t, ht, hr⟩ := Option.map_eq_some_iff.mp hr
      constructor
      · intro hkeeps
        rw [← hr] at hkeeps
        obtain ⟨j, hj⟩ := hkeeps.handed m rfl
        obtain ⟨n, hn⟩ := memInfoAt_eq_some.mp hj
        cases freeDeviceMem_spec ht with
        | inl hnull => exact absurd hnull.1 hm
        | inr hfreed =>
          obtain ⟨k, hk⟩ := hfreed
          rw [hk.frees.gone] at hn
          cases hn
      · intro hregisters
        exact absurd hitem (hregisters (Bool.not_eq_true _ ▸ hflag) hreach)
    | some q =>
      rw [hitem] at hw
      unfold registerRes at hw
      dsimp only at hw
      split at hw
      · cases hw
      · rename_i hnew
        have hend := Prod.mk.inj (Option.some.inj hw)
        have hq : p ≠ 0 := hend.1 ▸ (not_or.mp hnew).1
        have hitems : w.items p = some ⟨c.process, .freeDeviceMem, m⟩ := by
          rw [← hend.1, ← hend.2]
          exact Function.update_self _ _ _
        have hheap : w.heap = u.heap := by rw [← hend.2]
        have hbuffers : w.buffers = u.buffers := by rw [← hend.2]
        rw [if_neg hq] at hr
        constructor
        · intro _ _ _
          rw [hitem]
          exact Option.some_ne_none q
        · intro _
          refine countMem_keeps (hheap ▸ hi) h0 ?_ (fun _ => ⟨hq, hitems⟩) hr
          intro t hothers ht
          exact hsync t (fun k hk => by rw [hothers k hk, hheap]) (ht.trans hbuffers)

theorem publishMem_keeps_iff (hm : m ≠ 0) (hi : memInfoAt u.heap m = some i)
    (h0 : i.refCount = 0) (hsync : KeepsSync c u m y) (hreach : Reaches c)
    (hr : publishMem u c m y = some r) : Keeps s c r ↔ Registers c := by
  unfold publishMem at hr
  obtain ⟨j, hj, hr⟩ := Option.bind_eq_some_iff.mp hr
  obtain ⟨w, hw, hr⟩ := Option.bind_eq_some_iff.mp hr
  have hji : j = i := Option.some.inj (hj.symm.trans hi)
  have hinfo := write_info hw
  have hbuffers : w.buffers = u.buffers := by rw [hinfo.2.2]
  refine registerMem_keeps_iff hm hinfo.1 (hji ▸ h0) ?_ hreach hr
  intro t hothers ht
  exact hsync t (fun k hk => by rw [hothers k hk, hinfo.2.1 k hk]) (ht.trans hbuffers)

theorem keeps_iff_of_failed {e : PvrsrvError} (hback : Restored s t) (hnot : ¬Reaches c) :
    Keeps s c ⟨some e, none, t⟩ ↔ Registers c := by
  constructor
  · intro _ _ hreach
    exact absurd hreach hnot
  · intro _
    refine ⟨fun m hm => ?_, hback⟩
    cases hm

theorem madeMem_keeps_iff (hn : NewMem s t m b) (hm : m ≠ 0) (hheap : c.hDevMemHeap ≠ 0)
    (hsize : c.ui32Size ≠ 0) (hinfo : c.memInfo ≠ none) (hbuffer : c.buffer ≠ none)
    (hr : madeMem t c m = some r) : Keeps s c r ↔ Registers c := by
  obtain ⟨i, hi, -, h0⟩ := hn.info
  unfold madeMem at hr
  split at hr
  · rename_i hflag
    have hno (hoff : hasFlag c.ui32Flags memNoSyncobj = false) : False :=
      absurd (hflag.symm.trans hoff) Bool.noConfusion
    exact publishMem_keeps_iff hm hi h0 (fun _ _ _ hoff => (hno hoff).elim)
      ⟨hheap, hsize, hinfo, hbuffer, fun hoff => (hno hoff).elim⟩ hr
  · rename_i hflag
    unfold syncMem at hr
    obtain ⟨⟨y, u⟩, hu, hr⟩ := Option.bind_eq_some_iff.mp hr
    dsimp only at hr
    cases (allocSyncInfo_spec hu).2 with
    | inl hfailed =>
      obtain ⟨hy, hback, hnone⟩ := hfailed
      rw [if_pos hy] at hr
      obtain ⟨w, hw, hr⟩ := Option.map_eq_some_iff.mp hr
      rw [← hr]
      refine keeps_iff_of_failed (hn.freed hback hw hm) fun hreach => ?_
      have hmade := hreach.sync (Bool.not_eq_true _ ▸ hflag)
      cases hnone with
      | inl h => exact hmade.info h
      | inr h => exact h.elim hmade.dataInfo hmade.dataBuffer
    | inr hmade =>
      obtain ⟨hy, -, -, hgrows, hmade⟩ := hmade
      rw [if_neg hy] at hr
      obtain ⟨data, hdata⟩ := allocSyncInfo_new hu hy
      have hlive : t.heap.blocks m ≠ none := by
        obtain ⟨n, hn⟩ := memInfoAt_eq_some.mp hi
        rw [hn]
        exact Option.some_ne_none _
      have hi' := memInfoAt_of_grows hgrows hi
      refine publishMem_keeps_iff hm hi' h0 ?_
        ⟨hheap, hsize, hinfo, hbuffer, fun _ => ⟨hmade.1, hmade.2.1, hmade.2.2⟩⟩ hr
      exact fun w hothers hw _ => hdata.there hy hi' hlive hothers hw

theorem keeps_iff (hr : pvrsrvAllocDeviceMemKM s c = some r) : Keeps s c r ↔ Registers c := by
  unfold pvrsrvAllocDeviceMemKM at hr
  split at hr
  · rename_i hinvalid
    rw [← Option.some.inj hr]
    exact keeps_iff_of_failed .refl fun hreach => hinvalid.elim hreach.heap hreach.size
  · rename_i hvalid
    obtain ⟨hheap, hsize⟩ := not_or.mp hvalid
    obtain ⟨⟨m, t⟩, ht, hr⟩ := Option.bind_eq_some_iff.mp hr
    dsimp only at hr
    cases (allocDeviceMem_spec ht).2 with
    | inl hfailed =>
      obtain ⟨hm, hback, hnone⟩ := hfailed
      rw [if_pos hm] at hr
      rw [← Option.some.inj hr]
      exact keeps_iff_of_failed hback fun hreach => hnone.elim hreach.memInfo hreach.buffer
    | inr hmade =>
      obtain ⟨hm, -, -, -, hinfo, hbuffer⟩ := hmade
      rw [if_neg hm] at hr
      obtain ⟨b, -, -, hnew, -⟩ := allocDeviceMem_new ht hm
      exact madeMem_keeps_iff hnew hm hheap hsize hinfo hbuffer hr

theorem alloc_some (hp : ∀ p, grant = some p → p ≠ 0 ∧ s.heap.blocks p = none) :
    ∃ q t, s.alloc x grant = some (q, t) := by
  cases grant with
  | none => exact ⟨0, s, rfl⟩
  | some p =>
    obtain ⟨hpos, hnone⟩ := hp p rfl
    have hnew : ¬(p = 0 ∨ (s.heap.blocks p).isSome) := by
      rw [hnone]
      simp [hpos]
    unfold Maps.alloc Heap.alloc
    dsimp only
    rw [if_neg hnew]
    exact ⟨p, _, rfl⟩

theorem write_some (hp : s.heap.blocks p ≠ none) : ∃ t, s.write p x = some t := by
  obtain ⟨b, hb⟩ := Option.ne_none_iff_exists'.mp hp
  unfold Maps.write Heap.write
  rw [hb]
  exact ⟨_, rfl⟩

theorem free_some (hp : s.heap.blocks p ≠ none) : ∃ t, s.free p n = some t := by
  obtain ⟨b, hb⟩ := Option.ne_none_iff_exists'.mp hp
  have hlive : ¬(s.heap.blocks p).isNone := by
    rw [hb]
    exact Bool.false_ne_true
  unfold Maps.free Heap.free
  rw [if_neg hlive]
  exact ⟨_, rfl⟩

theorem block_of_info (hi : memInfoAt s.heap m = some i) : s.heap.blocks m ≠ none := by
  obtain ⟨n, hn⟩ := memInfoAt_eq_some.mp hi
  rw [hn]
  exact Option.some_ne_none _

theorem freeDeviceMem_some (hi : memInfoAt s.heap m = some i) (hb : s.buffers i.hBuffer ≠ 0) :
    ∃ t, freeDeviceMem s m = some t := by
  unfold freeDeviceMem
  split
  · exact ⟨s, rfl⟩
  · have hfree : ∃ u, bmFree s i.hBuffer = some u := by
      unfold bmFree
      split
      · exact ⟨s, rfl⟩
      · exact ⟨_, rfl⟩
    obtain ⟨u, hu⟩ := hfree
    have hheap : u.heap = s.heap := by rw [bmFree_spec hu]
    obtain ⟨t, ht⟩ := free_some (n := memInfoSize) (hheap ▸ block_of_info hi)
    refine ⟨t, ?_⟩
    rw [hi, Option.bind_eq_bind, Option.bind_some, hu]
    exact ht

theorem allocDeviceMem_some (hp : ∀ p, grant = some p → p ≠ 0 ∧ s.heap.blocks p = none)
    (hb : ∀ b, buffer = some b → b.handle ≠ 0 ∧ s.buffers b.handle = 0) :
    ∃ m t, allocDeviceMem s n grant buffer stray = some (m, t) := by
  obtain ⟨p, u, hu⟩ := alloc_some (x := .memInfo blankInfo) hp
  unfold allocDeviceMem
  rw [hu, Option.bind_eq_bind, Option.bind_some]
  dsimp only
  split
  · exact ⟨0, u, rfl⟩
  · rename_i h0
    have halloc := Maps.alloc_spec hu
    have hnew := (halloc.2.resolve_left fun hnone => h0 hnone.2.1).2
    have hlive : u.heap.blocks p ≠ none := by
      rw [hnew.new]
      exact Option.some_ne_none _
    cases buffer with
    | none =>
      rw [← u.strand_heap stray] at hlive
      obtain ⟨v, hv⟩ := free_some (n := memInfoSize) hlive
      unfold allocBuffer
      dsimp only
      rw [hv]
      exact ⟨0, v, rfl⟩
    | some b =>
      have hunused : ¬(b.handle = 0 ∨ u.buffers b.handle ≠ 0) := by
        have hfree := hb b rfl
        rw [halloc.1]
        exact not_or.mpr ⟨hfree.1, not_not.mpr hfree.2⟩
      unfold allocBuffer bmAlloc
      dsimp only
      rw [if_neg hunused, Option.bind_eq_bind, Option.bind_some]
      obtain ⟨w, hw⟩ := write_some (s := { u with
        buffers := Function.update u.buffers b.handle 1 })
        (x := .memInfo { blankInfo with
          pvLinAddrKM := b.cpuVAddr
          allocSize := n
          hBuffer := b.handle }) hlive
      refine ⟨p, w, ?_⟩
      rw [hw]
      rfl

theorem allocSyncInfo_some (hp : ∀ p, a.info = some p → p ≠ 0 ∧ s.heap.blocks p = none)
    (hd : ∀ p, a.dataInfo = some p → p ≠ 0 ∧ s.heap.blocks p = none ∧ a.info ≠ some p)
    (hb : ∀ b, a.dataBuffer = some b → b.handle ≠ 0 ∧ s.buffers b.handle = 0) :
    ∃ y t, allocSyncInfo s a = some (y, t) := by
  obtain ⟨p, u, hu⟩ := alloc_some (x := .syncInfo ⟨0, 0, 0⟩) hp
  unfold allocSyncInfo
  rw [hu, Option.bind_eq_bind, Option.bind_some]
  dsimp only
  split
  · exact ⟨0, u, rfl⟩
  · rename_i h0
    have halloc := Maps.alloc_spec hu
    obtain ⟨hgrant, hnew⟩ := halloc.2.resolve_left fun hnone => h0 hnone.2.1
    have hbuffers : u.buffers = s.buffers := by rw [halloc.1]
    have hfresh (q : ℕ) (hq : a.dataInfo = some q) : q ≠ 0 ∧ u.heap.blocks q = none := by
      obtain ⟨hpos, hnone, hne⟩ := hd q hq
      rw [hnew.others q fun hqp => hne (hqp ▸ hgrant)]
      exact ⟨hpos, hnone⟩
    obtain ⟨data, v, hv⟩ := allocDeviceMem_some (n := syncDataSize) hfresh (hbuffers ▸ hb)
    have hgrows : Grows u v := by
      cases (allocDeviceMem_spec hv).2 with
      | inl hfailed => exact hfailed.2.1.grows
      | inr hmade => exact hmade.2.2.2.1
    have hlive : v.heap.blocks p ≠ none := by
      rw [hgrows.blocks p _ hnew.new]
      exact Option.some_ne_none _
    obtain ⟨w, hw⟩ := free_some (n := syncInfoSize) hlive
    obtain ⟨w', hw'⟩ := write_some (x := .syncInfo ⟨data, 0, 0⟩) hlive
    rw [hv, Option.bind_some]
    unfold syncData
    dsimp only
    split
    · rw [hw]
      exact ⟨0, w, rfl⟩
    · rw [hw']
      exact ⟨p, w', rfl⟩

theorem registerMem_some (hi : memInfoAt u.heap m = some i) (hb : u.buffers i.hBuffer ≠ 0)
    (hitem : ∀ p, c.item = some p → p ≠ 0 ∧ u.items p = none) :
    ∃ r, registerMem u c m = some r := by
  have hcount (w : Maps) (p : ℕ) (hw : w.heap = u.heap) : ∃ r, countMem w m p = some r := by
    rw [← hw] at hi
    obtain ⟨t, ht⟩ := write_some (x := .memInfo { i with
      hResItem := p
      refCount := u32 (i.refCount + 1) }) (block_of_info hi)
    refine ⟨⟨none, some m, t⟩, ?_⟩
    unfold countMem
    rw [hi, Option.bind_eq_bind, Option.bind_some, ht]
    rfl
  unfold registerMem
  split
  · exact hcount u 0 rfl
  · cases hgrant : c.item with
    | none =>
      obtain ⟨t, ht⟩ := freeDeviceMem_some hi hb
      refine ⟨⟨some .errorOutOfMemory, some m, t⟩, ?_⟩
      have hfree : freeMainalloc u m (some m) .errorOutOfMemory =
          some ⟨some .errorOutOfMemory, some m, t⟩ := by
        unfold freeMainalloc
        rw [ht]
        rfl
      exact hfree
    | some p =>
      obtain ⟨hpos, hnone⟩ := hitem p hgrant
      have hnew : ¬(p = 0 ∨ (u.items p).isSome) := by
        rw [hnone]
        simp [hpos]
      unfold registerRes
      dsimp only
      rw [if_neg hnew, Option.bind_eq_bind, Option.bind_some]
      dsimp only
      rw [if_neg hpos]
      exact hcount _ p rfl

theorem publishMem_some (hi : memInfoAt u.heap m = some i) (hb : u.buffers i.hBuffer ≠ 0)
    (hitem : ∀ p, c.item = some p → p ≠ 0 ∧ u.items p = none) :
    ∃ r, publishMem u c m y = some r := by
  obtain ⟨w, hw⟩ := write_some (x := .memInfo (c.entered i y)) (block_of_info hi)
  have hinfo := write_info hw
  unfold publishMem
  rw [hi, Option.bind_eq_bind, Option.bind_some, hw, Option.bind_eq_bind, Option.bind_some]
  apply registerMem_some hinfo.1
  · rw [hinfo.2.2]
    exact hb
  · rw [hinfo.2.2]
    exact hitem

theorem madeMem_some (hf : Fresh s c) (hinfo : c.memInfo = some m) (hbuffer : c.buffer = some b)
    (hn : NewMem s t m b) : ∃ r, madeMem t c m = some r := by
  obtain ⟨i, hi, hib, -⟩ := hn.info
  have hbuffers : t.buffers = Function.update s.buffers b.handle 1 := by rw [hn.rest]
  have hone : t.buffers i.hBuffer ≠ 0 := by
    rw [hbuffers, hib, Function.update_self]
    exact Nat.one_ne_zero
  have hitems : t.items = s.items := by rw [hn.rest]
  have hothers (q : ℕ) (hq : c.memInfo ≠ some q) : t.heap.blocks q = s.heap.blocks q :=
    hn.others q fun hqm => hq (hqm ▸ hinfo)
  unfold madeMem
  split
  · exact publishMem_some hi hone (hitems ▸ hf.item)
  · have hp (p : ℕ) (hp : c.sync.info = some p) : p ≠ 0 ∧ t.heap.blocks p = none := by
      obtain ⟨hpos, hnone, hne⟩ := hf.info p hp
      rw [hothers p hne]
      exact ⟨hpos, hnone⟩
    have hd (p : ℕ) (hp : c.sync.dataInfo = some p) :
        p ≠ 0 ∧ t.heap.blocks p = none ∧ c.sync.info ≠ some p := by
      obtain ⟨hpos, hnone, hne, hne'⟩ := hf.dataInfo p hp
      rw [hothers p hne]
      exact ⟨hpos, hnone, hne'⟩
    have hb (z : Buffer) (hz : c.sync.dataBuffer = some z) :
        z.handle ≠ 0 ∧ t.buffers z.handle = 0 := by
      obtain ⟨hpos, hnone, hne⟩ := hf.dataBuffer z hz
      rw [hbuffers, Function.update_of_ne (hne b hbuffer).symm]
      exact ⟨hpos, hnone⟩
    obtain ⟨y, u, hu⟩ := allocSyncInfo_some hp hd hb
    unfold syncMem
    rw [hu, Option.bind_eq_bind, Option.bind_some]
    dsimp only
    cases (allocSyncInfo_spec hu).2 with
    | inl hfailed =>
      obtain ⟨hy, hback, -⟩ := hfailed
      have hi' := memInfoAt_of_grows hback.grows hi
      have hone' : u.buffers i.hBuffer ≠ 0 := by
        rw [hback.rest]
        exact hone
      obtain ⟨w, hw⟩ := freeDeviceMem_some hi' hone'
      unfold freeMainalloc
      rw [if_pos hy, hw]
      exact ⟨_, rfl⟩
    | inr hmade =>
      obtain ⟨hy, -, -, hgrows, -⟩ := hmade
      obtain ⟨data, hdata⟩ := allocSyncInfo_new hu hy
      obtain ⟨h, z, a, hrest⟩ := hgrows.rest
      rw [if_neg hy]
      apply publishMem_some (memInfoAt_of_grows hgrows hi) (hdata.buffers _ hone)
      rw [hrest]
      exact hitems ▸ hf.item

theorem call_some (hf : Fresh s c) : ∃ r, pvrsrvAllocDeviceMemKM s c = some r := by
  unfold pvrsrvAllocDeviceMemKM
  split
  · exact ⟨_, rfl⟩
  · obtain ⟨m, t, ht⟩ := allocDeviceMem_some (n := c.ui32Size) hf.memInfo hf.buffer
    rw [ht, Option.bind_eq_bind, Option.bind_some]
    dsimp only
    split
    · exact ⟨_, rfl⟩
    · rename_i hm
      obtain ⟨b, hinfo, hbuffer, hn, -⟩ := allocDeviceMem_new ht hm
      exact madeMem_some hf hinfo hbuffer hn

def DeviceMemCall.plain (c : DeviceMemCall) : AllocCall :=
  ⟨c.process, hasFlag c.ui32Flags memExported, c.ui32Size, c.memInfo, c.buffer, c.stray,
    if hasFlag c.ui32Flags memNoSyncobj then none else some c.sync, c.item⟩

def Returned.plain (r : Returned) : Except PvrsrvError ℕ × Maps :=
  (r.eError.elim (.ok (r.ppsMemInfo.getD 0)) .error, r.maps)

theorem write_write {i' : MemInfo} (hw : u.write m (.memInfo i) = some v) :
    v.heap.write m (.memInfo i') = u.heap.write m (.memInfo i') := by
  unfold Maps.write at hw
  unfold Heap.write at *
  cases hb : u.heap.blocks m with
  | none =>
    rw [hb] at hw
    cases hw
  | some b =>
    rw [hb] at hw
    rw [← Option.some.inj hw]
    simp

theorem freeDeviceMem_write {i' : MemInfo} (hm : m ≠ 0) (hi : memInfoAt u.heap m = some i)
    (hw : u.write m (.memInfo i') = some v) (hb : i'.hBuffer = i.hBuffer) :
    freeDeviceMem v m = freeDeviceMem u m := by
  have hinfo := write_info hw
  unfold freeDeviceMem
  rw [if_neg hm, if_neg hm, hi, hinfo.1, Option.bind_eq_bind, Option.bind_some,
    Option.bind_eq_bind, Option.bind_some, hb]
  unfold Maps.write Heap.write at hw
  cases hblock : u.heap.blocks m with
  | none =>
    rw [hblock] at hw
    cases hw
  | some b =>
    rw [hblock] at hw
    rw [← Option.some.inj hw]
    unfold bmFree Maps.free Heap.free
    dsimp only
    split
    · simp [hblock]
    · split
      · rfl
      · simp [hblock]

theorem publishMem_plain (hm : m ≠ 0) (hi : memInfoAt u.heap m = some i) (h0 : i.refCount = 0)
    (hflag : hasFlag c.ui32Flags memNoResman = false) :
    (publishMem u c m y).map Returned.plain = allocRegister u c.plain m y := by
  obtain ⟨w, hw⟩ := write_some (x := .memInfo (c.entered i y)) (block_of_info hi)
  have hinfo := write_info hw
  unfold publishMem allocRegister
  rw [hi, Option.bind_eq_bind, Option.bind_some, hw, Option.bind_eq_bind, Option.bind_some,
    Option.bind_eq_bind, Option.bind_some]
  unfold registerMem
  rw [hflag, if_neg Bool.false_ne_true]
  change _ = (registerRes u ⟨c.process, .freeDeviceMem, m⟩ c.item).bind _
  cases c.item with
  | none =>
    have hfree := freeDeviceMem_write hm hi hw rfl
    unfold registerRes
    simp only [Option.bind_eq_bind, Option.bind_some, if_true, freeMainalloc, hfree,
      Option.map_map]
    rfl
  | some p =>
    unfold registerRes
    rw [hinfo.2.2]
    dsimp only
    split
    · rfl
    · rename_i hnew
      have hp := (not_or.mp hnew).1
      have hone : u32 (i.refCount + 1) = 1 := by
        rw [h0]
        exact u32_of_lt (by omega)
      simp only [Option.bind_eq_bind, Option.bind_some, if_neg hp]
      unfold countMem
      rw [hinfo.1, Option.bind_eq_bind, Option.bind_some]
      unfold DeviceMemCall.entered
      dsimp only
      rw [hone, show c.plain.exported = hasFlag c.ui32Flags memExported from rfl]
      unfold Maps.write
      rw [write_write hw]
      cases u.heap.write m (.memInfo { i with
          psKernelSyncInfo := y, exported := hasFlag c.ui32Flags memExported, hResItem := p,
          refCount := 1 }) with
      | none => rfl
      | some h => rfl

/-- Without `PVRSRV_MEM_NO_RESMAN` the call is that of the runs of mapping calls. -/
theorem pvrsrvAllocDeviceMemKM_plain (hheap : c.hDevMemHeap ≠ 0)
    (hflag : hasFlag c.ui32Flags memNoResman = false) :
    (pvrsrvAllocDeviceMemKM s c).map Returned.plain = allocDeviceMemKM s c.plain := by
  unfold pvrsrvAllocDeviceMemKM allocDeviceMemKM
  by_cases hsize : c.ui32Size = 0
  · rw [if_pos (.inr hsize), if_pos (show c.plain.size = 0 from hsize)]
    rfl
  · rw [if_neg (not_or.mpr ⟨hheap, hsize⟩), if_neg (show c.plain.size ≠ 0 from hsize)]
    change _ = (allocDeviceMem s c.ui32Size c.memInfo c.buffer c.stray).bind _
    cases ht : allocDeviceMem s c.ui32Size c.memInfo c.buffer c.stray with
    | none => rfl
    | some mt =>
      obtain ⟨m, t⟩ := mt
      rw [Option.bind_eq_bind, Option.bind_some, Option.bind_some]
      dsimp only
      split
      · rfl
      · rename_i hm
        obtain ⟨b, -, -, hn, -⟩ := allocDeviceMem_new ht hm
        obtain ⟨i, hi, -, h0⟩ := hn.info
        unfold madeMem
        cases hsync : hasFlag c.ui32Flags memNoSyncobj with
        | true =>
          have hplain : c.plain.sync = none := by
            unfold DeviceMemCall.plain
            rw [hsync]
            rfl
          rw [if_pos rfl, hplain]
          exact publishMem_plain hm hi h0 hflag
        | false =>
          have hplain : c.plain.sync = some c.sync := by
            unfold DeviceMemCall.plain
            rw [hsync]
            rfl
          rw [if_neg Bool.false_ne_true, hplain]
          unfold syncMem allocSync
          dsimp only
          cases hu : allocSyncInfo t c.sync with
          | none => rfl
          | some yu =>
            obtain ⟨y, u⟩ := yu
            rw [Option.bind_eq_bind, Option.bind_some, Option.bind_eq_bind, Option.bind_some]
            dsimp only
            split
            · unfold freeMainalloc
              rw [Option.map_map]
              rfl
            · rename_i hy
              have hmade := (allocSyncInfo_spec hu).2.resolve_left fun hfailed => hy hfailed.1
              exact publishMem_plain hm (memInfoAt_of_grows hmade.2.2.2.1 hi) h0 hflag

/-- A call with answers that can be given comes to its end, and keeps its promise exactly if the
    registration does not fail behind a memory info that is made. -/
theorem alloc_keeps_iff (hf : Fresh s c) : ∃ r, pvrsrvAllocDeviceMemKM s c = some r ∧
    (Keeps s c r ↔ Registers c) := by
  obtain ⟨r, hr⟩ := call_some hf
  exact ⟨r, hr, keeps_iff hr⟩

def sampleCall (item : Option ℕ) : DeviceMemCall :=
  ⟨1, 9, 0, 4096, some 16, some ⟨32, 0⟩, none,
    ⟨some 48, some 64, some ⟨80, 4096⟩, none, true⟩, item⟩

theorem sampleCall_fresh (item : Option ℕ) (h0 : item ≠ some 0) :
    Fresh mapsInit (sampleCall item) := by
  refine ⟨?_, ?_, ?_, ?_, ?_, fun p hp => ⟨fun h => h0 (h ▸ hp), rfl⟩⟩
  · intro p hp
    cases hp
    decide
  · intro z hz
    cases hz
    decide
  · intro p hp
    cases hp
    refine ⟨by decide, rfl, fun h => ?_⟩
    cases h
  · intro p hp
    cases hp
    refine ⟨by decide, rfl, fun h => ?_, fun h => ?_⟩
    · cases h
    · cases h
  · intro z hz
    cases hz
    refine ⟨by decide, rfl, fun z hz => ?_⟩
    cases hz
    decide

theorem alloc_keeps_sample : Fresh mapsInit (sampleCall (some 96)) ∧
    ∃ r, pvrsrvAllocDeviceMemKM mapsInit (sampleCall (some 96)) = some r ∧
      Keeps mapsInit (sampleCall (some 96)) r := by
  have hf : Fresh mapsInit (sampleCall (some 96)) := sampleCall_fresh _ (by decide)
  obtain ⟨r, hr, hiff⟩ := alloc_keeps_iff hf
  refine ⟨hf, r, hr, hiff.mpr fun _ _ => ?_⟩
  exact Option.some_ne_none 96

/-- Without a resource item the call returns an error and the freed memory info, and the sync info,
    its data and its buffer stay. -/
theorem alloc_without_item : ∃ r, pvrsrvAllocDeviceMemKM mapsInit (sampleCall none) = some r ∧
    ¬Keeps mapsInit (sampleCall none) r ∧ r.eError = some .errorOutOfMemory ∧
    r.ppsMemInfo = some 16 ∧ memInfoAt r.maps.heap 16 = none ∧
    syncInfoAt r.maps.heap 48 = some ⟨64, 0, 0⟩ ∧ (memInfoAt r.maps.heap 64).isSome ∧
    r.maps.buffers 80 = 1 := by
  obtain ⟨r, hr⟩ := call_some (sampleCall_fresh none (by decide))
  have heval : (pvrsrvAllocDeviceMemKM mapsInit (sampleCall none)).map (fun r =>
      decide (r.eError = some .errorOutOfMemory ∧ r.ppsMemInfo = some 16 ∧
        memInfoAt r.maps.heap 16 = none ∧ syncInfoAt r.maps.heap 48 = some ⟨64, 0, 0⟩ ∧
        (memInfoAt r.maps.heap 64).isSome ∧ r.maps.buffers 80 = 1)) = some true := by
    decide +kernel
  rw [hr] at heval
  have hleft := of_decide_eq_true (Option.some.inj heval)
  refine ⟨r, hr, fun hkeeps => ?_, hleft⟩
  obtain ⟨i, hi⟩ := hkeeps.handed 16 hleft.2.1
  rw [hleft.2.2.1] at hi
  cases hi

end PvrServices.AllocDeviceMem
