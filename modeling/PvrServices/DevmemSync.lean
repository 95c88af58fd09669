import PvrServices.DevmemBase
import PvrServices.HashTableMap
import PvrServices.KeyedList

set_option autoImplicit false

/-!
# Shared sync infos

What wrapping and unwrapping do to the table of the sync infos, as long as every sync info is
entered and counts the wraps of its page.
-/
namespace PvrServices.Devmem
open HashTable KeyedList Resman Words

/-- A memory info that `PVRSRVWrapExtMemoryKM` has answered to a process. -/
structure Wrap where
  memInfo : ℕ
  context : ℕ
  physAddr : ℕ
deriving DecidableEq, Repr

variable {s s' : DeviceMem} {wraps : List Wrap} {a c m p y : ℕ} {w : Wrap}

def DeviceMem.entry (s : DeviceMem) (a : ℕ) : Option ℕ :=
  s.syncTable.lookup hashFuncDefault [a]

def wrapsAt (wraps : List Wrap) (a : ℕ) : ℕ := wraps.countP fun w => w.physAddr = a

def dropWrap (wraps : List Wrap) (m : ℕ) : List Wrap := wraps.filter fun w => w.memInfo ≠ m

theorem mem_dropWrap : w ∈ dropWrap wraps m ↔ w ∈ wraps ∧ w.memInfo ≠ m := mem_dropKey

theorem dropWrap_nodup (hnodup : (wraps.map Wrap.memInfo).Nodup) (m : ℕ) :
    ((dropWrap wraps m).map Wrap.memInfo).Nodup :=
  dropKey_nodup hnodup m

theorem wrapsAt_drop (hnodup : (wraps.map Wrap.memInfo).Nodup) (hw : w ∈ wraps) (a : ℕ) :
    wrapsAt wraps a = wrapsAt (dropWrap wraps w.memInfo) a + if w.physAddr = a then 1 else 0 := by
  have hcount := countP_dropKey hnodup hw fun v => v.physAddr = a
  simp only [decide_eq_true_eq] at hcount
  exact hcount

/-- The table enters every sync info under its address, and each counts the wraps there. -/
structure Counted (s : DeviceMem) (wraps : List Wrap) : Prop where
  wf : Wf hashFuncDefault s.syncTable
  entered : ∀ a y, s.entry a = some y ↔ ∃ i, s.syncInfos y = some i ∧ i.physAddr = a
  counted : ∀ y i, s.syncInfos y = some i →
    i.refcount = wrapsAt wraps i.physAddr ∧ 0 < i.refcount
  covered : ∀ w ∈ wraps, (s.entry w.physAddr).isSome = true

def Placed (s : DeviceMem) : Prop :=
  (∀ m i, s.memInfos m = some i → 0 < m ∧ m < 4294967296) ∧
    ∀ y i, s.syncInfos y = some i → 0 < y

theorem Counted.setMem (h : Counted s wraps) (m : ℕ) (i : KernelMemInfo) :
    Counted (s.setMem m i) wraps := ⟨h.wf, h.entered, h.counted, h.covered⟩

theorem Counted.retrieve (h : Counted s wraps) (hplaced : Placed s) (a : ℕ) :
    hashRetrieveExtended hashFuncDefault s.syncTable [a] = (s.entry a).getD 0 ∧
      ∀ y, s.entry a = some y → 0 < y := by
  refine ⟨retrieve_eq, fun y hy => ?_⟩
  obtain ⟨i, hi, -⟩ := (h.entered a y).mp hy
  exact hplaced.2 y i hi

structure SameMem (s s' : DeviceMem) : Prop where
  memInfos : s'.memInfos = s.memInfos
  mapData : s'.mapData = s.mapData
  kernelHandles : s'.kernelHandles = s.kernelHandles

/-- A sync info stays, and its count is what the wraps there have become. -/
theorem Counted.recount (h : Counted s wraps) {i : KernelSyncInfo} (hi : s.syncInfos y = some i)
    (n : ℕ) (wraps' : List Wrap) (hself : n = wrapsAt wraps' i.physAddr ∧ 0 < n)
    (hother : ∀ z j, s.syncInfos z = some j → z ≠ y →
      wrapsAt wraps' j.physAddr = wrapsAt wraps j.physAddr)
    (hcovered : ∀ v ∈ wraps', (s.entry v.physAddr).isSome = true) :
    Counted (s.setSync y { i with refcount := n }) wraps' ∧
      ∀ z j, (s.setSync y { i with refcount := n }).syncInfos z = some j →
        (s.syncInfos z).isSome = true := by
  have hsync (z : ℕ) : ((s.setSync y { i with refcount := n }).syncInfos z).map
      KernelSyncInfo.physAddr = (s.syncInfos z).map KernelSyncInfo.physAddr := by
    by_cases hzy : z = y
    · rw [hzy, hi]
      simp [DeviceMem.setSync]
    · simp [DeviceMem.setSync, hzy]
  refine ⟨⟨h.wf, fun b z => ?_, fun z j hz => ?_, hcovered⟩, fun z j hz => ?_⟩
  · have hmap (f : ℕ → Option KernelSyncInfo) : (∃ j, f z = some j ∧ j.physAddr = b) ↔
        (f z).map KernelSyncInfo.physAddr = some b := by simp
    rw [hmap, hsync z, ← hmap]
    exact h.entered b z
  · by_cases hzy : z = y
    · rw [hzy] at hz
      have hj : { i with refcount := n } = j := by simpa [DeviceMem.setSync] using hz
      rw [← hj]
      exact hself
    · have hz' : s.syncInfos z = some j := by simpa [DeviceMem.setSync, hzy] using hz
      rw [hother z j hz' hzy]
      exact h.counted z j hz'
  · rw [← Option.isSome_map (f := KernelSyncInfo.physAddr), ← hsync z, hz]
    rfl

theorem Counted.put (h : Counted s wraps) (hnodup : (wraps.map Wrap.memInfo).Nodup)
    (hw : w ∈ wraps) (hy : s.entry w.physAddr = some y) : ∃ s', putSyncinfo s y = some s' ∧
      Counted s' (dropWrap wraps w.memInfo) ∧ SameMem s s' ∧
      (∀ v ∈ dropWrap wraps w.memInfo, s'.entry v.physAddr = s.entry v.physAddr) ∧
      ∀ z i, s'.syncInfos z = some i → (s.syncInfos z).isSome = true := by
  obtain ⟨i, hi, hia⟩ := (h.entered w.physAddr y).mp hy
  obtain ⟨hcount, hpos⟩ := h.counted y i hi
  have hdrop := wrapsAt_drop hnodup hw
  have hone := hdrop w.physAddr
  rw [if_pos rfl] at hone
  rw [hia] at hcount
  have hrest : u32Sub i.refcount 1 = wrapsAt (dropWrap wraps w.memInfo) w.physAddr := by
    rw [u32Sub_of_le hpos]
    omega
  have hother (b : ℕ) (hb : b ≠ w.physAddr) :
      wrapsAt wraps b = wrapsAt (dropWrap wraps w.memInfo) b := by
    rw [hdrop b, if_neg (Ne.symm hb), Nat.add_zero]
  -- another sync info is entered for another address
  have hapart (z : ℕ) (j : KernelSyncInfo) (hz : s.syncInfos z = some j) (hzy : z ≠ y) :
      j.physAddr ≠ w.physAddr := fun hja => by
    have hzw := (h.entered w.physAddr z).mpr ⟨j, hz, hja⟩
    rw [hy, Option.some.injEq] at hzw
    exact hzy hzw.symm
  by_cases hzero : u32Sub i.refcount 1 = 0
  · obtain ⟨v, table, os, hr⟩ : ∃ v table os, hashRemoveExtended hashFuncDefault s.os s.syncTable
        [w.physAddr] = (v, table, os) := ⟨_, _, _, rfl⟩
    obtain ⟨-, -, hwf, hlookup⟩ := h.wf.remove hr
    have hentry (b : ℕ) : table.lookup hashFuncDefault [b] =
        if b = w.physAddr then none else s.entry b := by
      rw [hlookup, Function.update_apply]
      simp [DeviceMem.entry]
    have hnone : ∀ v ∈ dropWrap wraps w.memInfo, v.physAddr ≠ w.physAddr := by
      rw [hrest] at hzero
      intro v hv hva
      have hpos : 0 < wrapsAt (dropWrap wraps w.memInfo) w.physAddr :=
        List.countP_pos_iff.mpr ⟨v, hv, by simpa using hva⟩
      omega
    refine ⟨⟨s.memInfos, Function.update s.syncInfos y none, s.mapData, table, s.kernelHandles,
      os⟩, ?_, ⟨hwf, ?_, ?_, ?_⟩, ⟨rfl, rfl, rfl⟩, ?_, ?_⟩
    · simp [putSyncinfo, hi, hzero, hia, hr, DeviceMem.setSync, pvrsrvFreeSyncInfoKM]
    · intro b z
      change table.lookup hashFuncDefault [b] = some z ↔ _
      rw [hentry b]
      dsimp only
      by_cases hb : b = w.physAddr
      · rw [if_pos hb]
        constructor
        · intro hz
          cases hz
        · intro hz
          obtain ⟨j, hj, hjb⟩ := hz
          by_cases hzy : z = y
          · rw [hzy, Function.update_self] at hj
            cases hj
          · rw [Function.update_of_ne hzy] at hj
            exact absurd (hjb.trans hb) (hapart z j hj hzy)
      · rw [if_neg hb, h.entered b z]
        by_cases hzy : z = y
        · rw [hzy, Function.update_self, hi]
          constructor
          · intro hz
            obtain ⟨j, hj, hjb⟩ := hz
            rw [← Option.some.inj hj, hia] at hjb
            exact absurd hjb.symm hb
          · intro hz
            obtain ⟨j, hj, -⟩ := hz
            cases hj
        · rw [Function.update_of_ne hzy]
    · intro z j hz
      dsimp only at hz
      by_cases hzy : z = y
      · rw [hzy, Function.update_self] at hz
        cases hz
      · rw [Function.update_of_ne hzy] at hz
        rw [← hother _ (hapart z j hz hzy)]
        exact h.counted z j hz
    · intro v hv
      change (table.lookup hashFuncDefault [v.physAddr]).isSome = true
      rw [hentry, if_neg (hnone v hv)]
      exact h.covered v (mem_dropWrap.mp hv).1
    · intro v hv
      exact (hentry v.physAddr).trans (if_neg (hnone v hv))
    · intro z j hz
      dsimp only at hz
      by_cases hzy : z = y
      · rw [hzy, Function.update_self] at hz
        cases hz
      · rw [Function.update_of_ne hzy] at hz
        rw [hz]
        rfl
  · have hcounts := h.recount hi (u32Sub i.refcount 1) (dropWrap wraps w.memInfo)
      (by rw [hia]; exact ⟨hrest, Nat.pos_of_ne_zero hzero⟩)
      (fun z j hz hzy => (hother _ (hapart z j hz hzy)).symm)
      fun v hv => h.covered v (mem_dropWrap.mp hv).1
    refine ⟨s.setSync y { i with refcount := u32Sub i.refcount 1 }, ?_, hcounts.1, ⟨rfl, rfl, rfl⟩,
      fun _ _ => rfl, hcounts.2⟩
    simp [putSyncinfo, hi, hzero]

theorem wrapsAt_cons (w : Wrap) (wraps : List Wrap) (a : ℕ) :
    wrapsAt (w :: wraps) a = wrapsAt wraps a + if w.physAddr = a then 1 else 0 := by
  unfold wrapsAt
  rw [List.countP_cons]
  simp only [decide_eq_true_eq]

theorem Counted.get (h : Counted s wraps) (hplaced : Placed s) (hlen : wraps.length + 1 < 4294967296)
    (hy : s.entry w.physAddr = some y) (mem : Option ℕ) :
    ∃ s', allocOrReuseSyncinfo s w.physAddr mem = some (.ok y, s') ∧ Counted s' (w :: wraps) ∧
      SameMem s s' ∧ s'.entry = s.entry ∧
      ∀ z i, s'.syncInfos z = some i → (s.syncInfos z).isSome = true := by
  obtain ⟨hretrieve, hpos⟩ := h.retrieve hplaced w.physAddr
  rw [hy, Option.getD_some] at hretrieve
  obtain ⟨i, hi, hia⟩ := (h.entered w.physAddr y).mp hy
  obtain ⟨hcount, -⟩ := h.counted y i hi
  have hle : wrapsAt wraps w.physAddr ≤ wraps.length := List.countP_le_length
  rw [hia] at hcount
  have hmore : u32 (i.refcount + 1) = wrapsAt (w :: wraps) w.physAddr := by
    rw [wrapsAt_cons, if_pos rfl, u32_of_lt (by omega), hcount]
  have hcounts := h.recount hi (u32 (i.refcount + 1)) (w :: wraps)
    (by rw [hia, hmore, wrapsAt_cons, if_pos rfl]; exact ⟨rfl, Nat.succ_pos _⟩)
    (fun z j hz hzy => by
      have hja : w.physAddr ≠ j.physAddr := fun hja => by
        have hzw := (h.entered w.physAddr z).mpr ⟨j, hz, hja.symm⟩
        rw [hy, Option.some.injEq] at hzw
        exact hzy hzw.symm
      rw [wrapsAt_cons, if_neg hja, Nat.add_zero])
    (fun v hv => by
      cases List.mem_cons.mp hv with
      | inl hvw =>
        rw [hvw]
        exact Option.isSome_iff_exists.mpr ⟨y, hy⟩
      | inr hv => exact h.covered v hv)
  refine ⟨s.setSync y { i with refcount := u32 (i.refcount + 1) }, ?_, hcounts.1, ⟨rfl, rfl, rfl⟩,
    rfl, hcounts.2⟩
  have hne : y ≠ 0 := Nat.ne_of_gt (hpos y hy)
  simp [allocOrReuseSyncinfo, hretrieve, hne, getSyncinfo, hi]

theorem Counted.alloc (h : Counted s wraps) (hplaced : Placed s)
    (hnone : s.entry w.physAddr = none) (hy : s.syncInfos y = none) :
    (s.os.grants s.os.calls = true ∧
      ∃ s', allocOrReuseSyncinfo s w.physAddr (some y) = some (.ok y, s') ∧
        Counted s' (w :: wraps) ∧ SameMem s s' ∧
        s'.syncInfos = Function.update s.syncInfos y (some ⟨w.physAddr, 1⟩) ∧
        (∀ b, s'.entry b = if b = w.physAddr then some y else s.entry b)) ∨
    s.os.grants s.os.calls = false ∧
      ∃ s', allocOrReuseSyncinfo s w.physAddr (some y) = some (.error .errorGeneric, s') ∧
        SameMem s s' ∧ s'.entry = s.entry ∧
        s'.syncInfos = Function.update s.syncInfos y (some ⟨w.physAddr, 1⟩) := by
  obtain ⟨hretrieve, -⟩ := h.retrieve hplaced w.physAddr
  rw [hnone, Option.getD_none] at hretrieve
  obtain ⟨ok, table, os, hr⟩ : ∃ ok table os, hashInsertExtended hashFuncDefault s.os s.syncTable
      [w.physAddr] y = (ok, table, os) := ⟨_, _, _, rfl⟩
  obtain ⟨-, hok, hwf, hlookup⟩ := h.wf.insert hnone hr
  have heq : allocOrReuseSyncinfo s w.physAddr (some y) =
      if ok then some (.ok y, { s.setSync y ⟨w.physAddr, 1⟩ with syncTable := table, os := os })
      else some (.error .errorGeneric,
        { s.setSync y ⟨w.physAddr, 1⟩ with syncTable := table, os := os }) := by
    unfold allocOrReuseSyncinfo
    dsimp only
    rw [if_pos hretrieve]
    simp [DeviceMem.setSync, hr]
  cases ok with
  | false =>
    refine .inr ⟨hok.symm, _, heq, ⟨rfl, rfl, rfl⟩, ?_, rfl⟩
    funext b
    exact congrFun hlookup [b]
  | true =>
    have hentry (b : ℕ) : table.lookup hashFuncDefault [b] =
        if b = w.physAddr then some y else s.entry b := by
      rw [hlookup, if_pos rfl, Function.update_apply]
      simp [DeviceMem.entry]
    have hnew (v : Wrap) (hv : v ∈ wraps) : v.physAddr ≠ w.physAddr := fun hvw => by
      have hv := h.covered v hv
      rw [hvw, hnone] at hv
      cases hv
    have hzero : wrapsAt wraps w.physAddr = 0 :=
      List.countP_eq_zero.mpr fun v hv => by simpa using hnew v hv
    refine .inl ⟨hok.symm, _, heq, ⟨hwf, ?_, ?_, ?_⟩, ⟨rfl, rfl, rfl⟩, rfl, hentry⟩
    · intro b z
      change table.lookup hashFuncDefault [b] = some z ↔ _
      rw [hentry b]
      dsimp only [DeviceMem.setSync]
      by_cases hzy : z = y
      · rw [hzy, Function.update_self]
        by_cases hb : b = w.physAddr
        · rw [if_pos hb]
          exact ⟨fun _ => ⟨_, rfl, hb.symm⟩, fun _ => rfl⟩
        · rw [if_neg hb, h.entered b y, hy]
          constructor
          · intro hz
            obtain ⟨j, hj, -⟩ := hz
            cases hj
          · intro hz
            obtain ⟨j, hj, hjb⟩ := hz
            rw [← Option.some.inj hj] at hjb
            exact absurd hjb.symm hb
      · rw [Function.update_of_ne hzy, ← h.entered b z]
        by_cases hb : b = w.physAddr
        · rw [if_pos hb, hb, hnone]
          simp [Ne.symm hzy]
        · rw [if_neg hb]
    · intro z j hz
      dsimp only [DeviceMem.setSync] at hz
      by_cases hzy : z = y
      · rw [hzy, Function.update_self, Option.some.injEq] at hz
        rw [← hz]
        dsimp only
        rw [wrapsAt_cons, if_pos rfl, hzero]
        exact ⟨rfl, Nat.one_pos⟩
      · rw [Function.update_of_ne hzy] at hz
        have hja : w.physAddr ≠ j.physAddr := fun hja => by
          have hzw := (h.entered w.physAddr z).mpr ⟨j, hz, hja.symm⟩
          rw [hnone] at hzw
          cases hzw
        rw [wrapsAt_cons, if_neg hja]
        exact h.counted z j hz
    · intro v hv
      change (table.lookup hashFuncDefault [v.physAddr]).isSome = true
      rw [hentry]
      cases List.mem_cons.mp hv with
      | inl hvw =>
        rw [hvw, if_pos rfl]
        rfl
      | inr hv =>
        rw [if_neg (hnew v hv)]
        exact h.covered v hv

end PvrServices.Devmem
