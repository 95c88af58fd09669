import PvrServices.AllocDeviceMem

set_option autoImplicit false

/-!
# Sync infos that are made one after the other

What a caller holds that has made some sync infos and may free them in any order: each with the
memory info of its data and the buffer behind it, and everything else as it was.
-/
namespace PvrServices.SyncInfoSets
open Words BlockHeap MapMemory AllocDeviceMem

/-- Where a sync info is, with the memory info of its data and the buffer of that. -/
structure SyncPlace where
  info : ℕ
  data : ℕ
  buffer : Buffer
deriving DecidableEq, Repr

def SyncPlace.blocks (p : SyncPlace) : List ℕ := [p.info, p.data]

def placeOf (a : SyncAnswers) : SyncPlace :=
  ⟨a.info.getD 0, a.dataInfo.getD 0, a.dataBuffer.getD ⟨0, 0⟩⟩

structure Here (s t : Maps) (p : SyncPlace) : Prop where
  info : syncInfoAt t.heap p.info = some ⟨p.data, 0, 0⟩
  data : ∃ i, memInfoAt t.heap p.data = some i ∧ i.hBuffer = p.buffer.handle ∧
    i.pvLinAddrKM = p.buffer.cpuVAddr
  infoNull : p.info ≠ 0
  dataNull : p.data ≠ 0
  bufferNull : p.buffer.handle ≠ 0
  freshInfo : s.heap.blocks p.info = none
  freshData : s.heap.blocks p.data = none
  unused : s.buffers p.buffer.handle = 0
  counted : t.buffers p.buffer.handle = 1

def handle (p : SyncPlace) : ℕ := p.buffer.handle

structure Holds (s t : Maps) (l : List SyncPlace) : Prop where
  here : ∀ p ∈ l, Here s t p
  blocks : (l.flatMap SyncPlace.blocks).Nodup
  buffers : (l.map handle).Nodup
  otherBlocks : ∀ q ∉ l.flatMap SyncPlace.blocks, t.heap.blocks q = s.heap.blocks q
  otherBuffers : ∀ k ∉ l.map handle, t.buffers k = s.buffers k
  rest : t = { s with heap := t.heap, buffers := t.buffers, strays := t.strays }

variable {s t u : Maps} {a : SyncAnswers} {l : List SyncPlace} {p : SyncPlace} {y : ℕ}

theorem Holds.refl (s : Maps) : Holds s s [] :=
  ⟨nofun, List.nodup_nil, List.nodup_nil, fun _ _ => rfl, fun _ _ => rfl, rfl⟩

theorem Holds.restored (h : Holds s t []) : Restored s t := by
  refine ⟨funext fun q => h.otherBlocks q List.not_mem_nil, ?_⟩
  have hbuffers : t.buffers = s.buffers := funext fun k => h.otherBuffers k List.not_mem_nil
  have hrest := h.rest
  rw [hbuffers] at hrest
  exact hrest

structure Makes (s t : Maps) (p : SyncPlace) : Prop where
  here : Here s t p
  apart : p.info ≠ p.data
  otherBlocks : ∀ q, q ≠ p.info → q ≠ p.data → t.heap.blocks q = s.heap.blocks q
  otherBuffers : ∀ k, k ≠ p.buffer.handle → t.buffers k = s.buffers k
  rest : t = { s with heap := t.heap, buffers := t.buffers }

theorem syncInfoAt_congr {h h' : Heap Content} (hy : h'.blocks y = h.blocks y) :
    syncInfoAt h' y = syncInfoAt h y := by
  unfold syncInfoAt
  rw [hy]

theorem Here.congr (h : Here s t p) (hinfo : u.heap.blocks p.info = t.heap.blocks p.info)
    (hdata : u.heap.blocks p.data = t.heap.blocks p.data)
    (hbuffer : u.buffers p.buffer.handle = t.buffers p.buffer.handle) : Here s u p := by
  obtain ⟨i, hi, hrest⟩ := h.data
  refine ⟨?_, ⟨i, ?_, hrest⟩, h.infoNull, h.dataNull, h.bufferNull, h.freshInfo, h.freshData,
    h.unused, ?_⟩
  · rw [syncInfoAt_congr hinfo]
    exact h.info
  · rw [memInfoAt_congr hdata]
    exact hi
  · rw [hbuffer]
    exact h.counted

theorem mem_blocks (hp : p ∈ l) : p.info ∈ l.flatMap SyncPlace.blocks ∧
    p.data ∈ l.flatMap SyncPlace.blocks := by
  constructor
  · exact List.mem_flatMap.mpr ⟨p, hp, List.mem_cons_self⟩
  · exact List.mem_flatMap.mpr ⟨p, hp, List.mem_cons_of_mem _ List.mem_cons_self⟩

/-- The free of a sync info that is held takes back what was made. -/
theorem Here.freed (h : Here s t p) (hapart : p.info ≠ p.data) : ∃ u,
    freeSyncInfo t p.info = some u ∧ u.heap.blocks p.info = none ∧ u.heap.blocks p.data = none ∧
      (∀ q, q ≠ p.info → q ≠ p.data → u.heap.blocks q = t.heap.blocks q) ∧
      u.buffers = Function.update t.buffers p.buffer.handle 0 ∧
      u = { t with heap := u.heap, buffers := u.buffers } := by
  obtain ⟨i, hi, hbuffer, -⟩ := h.data
  have hcounted : t.buffers i.hBuffer ≠ 0 := by
    rw [hbuffer, h.counted]
    exact Nat.one_ne_zero
  obtain ⟨v, hv⟩ := freeDeviceMem_some hi hcounted
  cases freeDeviceMem_spec hv with
  | inl hnone => exact absurd hnone.1 h.dataNull
  | inr hfreed =>
    obtain ⟨j, hj, hfrees, w, hw, hvw⟩ := hfreed
    have hji : j = i := Option.some.inj (hj.symm.trans hi)
    rw [hji, hbuffer] at hw
    unfold bmFree at hw
    rw [if_neg h.bufferNull, h.counted, if_neg Nat.one_ne_zero] at hw
    have hlive : v.heap.blocks p.info ≠ none := by
      obtain ⟨z, hz⟩ := syncInfoAt_eq_some.mp h.info
      rw [hfrees.others _ hapart, hz]
      exact Option.some_ne_none _
    obtain ⟨u, hu⟩ := free_some (n := syncInfoSize) hlive
    obtain ⟨hfree, huv⟩ := Maps.free_spec hu
    have hspec := Heap.free_spec hfree
    refine ⟨u, ?_, hspec.gone, ?_, fun q hqi hqd => ?_, ?_, ?_⟩
    · unfold freeSyncInfo
      rw [h.info, Option.bind_eq_bind, Option.bind_some, hv]
      exact hu
    · rw [hspec.others _ hapart.symm]
      exact hfrees.gone
    · rw [hspec.others q hqi, hfrees.others q hqd]
    · rw [huv, hvw, ← Option.some.inj hw]
    · rw [huv, hvw, ← Option.some.inj hw]

theorem Holds.free (h : Holds s t (p :: l)) :
    ∃ u, freeSyncInfo t p.info = some u ∧ Holds s u l := by
  have hhere := h.here p List.mem_cons_self
  have hnodup := h.blocks
  rw [List.flatMap_cons] at hnodup
  obtain ⟨hown, hrest, hdisjoint⟩ := List.nodup_append.mp hnodup
  have hapart : p.info ≠ p.data := by
    have hnot := (List.nodup_cons.mp hown).1
    exact fun heq => hnot (List.mem_singleton.mpr heq)
  obtain ⟨hbuffer, hbuffers⟩ := List.nodup_cons.mp (List.map_cons ▸ h.buffers)
  obtain ⟨u, hu, hinfo, hdata, hothers, hcount, hback⟩ := hhere.freed hapart
  refine ⟨u, hu, fun q hq => ?_, hrest, hbuffers, fun q hq => ?_, fun k hk => ?_, ?_⟩
  · obtain ⟨hqi, hqd⟩ := mem_blocks hq
    have hi := List.mem_cons_self (a := p.info) (l := [p.data])
    have hd := List.mem_cons_of_mem p.info (List.mem_singleton_self p.data)
    refine (h.here q (List.mem_cons_of_mem _ hq)).congr (hothers _ ?_ ?_) (hothers _ ?_ ?_) ?_
    · exact (hdisjoint _ hi _ hqi).symm
    · exact (hdisjoint _ hd _ hqi).symm
    · exact (hdisjoint _ hi _ hqd).symm
    · exact (hdisjoint _ hd _ hqd).symm
    · have hne : handle q ≠ handle p := by
        intro heq
        exact hbuffer (heq ▸ List.mem_map_of_mem hq)
      rw [hcount]
      exact Function.update_of_ne hne _ _
  · by_cases hqi : q = p.info
    · rw [hqi, hinfo, hhere.freshInfo]
    · by_cases hqd : q = p.data
      · rw [hqd, hdata, hhere.freshData]
      · rw [hothers q hqi hqd]
        refine h.otherBlocks q fun hmem => ?_
        rw [List.flatMap_cons, List.mem_append] at hmem
        cases hmem with
        | inl hown =>
          cases List.mem_cons.mp hown with
          | inl heq => exact hqi heq
          | inr heq => exact hqd (List.mem_singleton.mp heq)
        | inr hmem => exact hq hmem
  · rw [hcount]
    by_cases hkp : k = p.buffer.handle
    · rw [hkp, Function.update_self, hhere.unused]
    · rw [Function.update_of_ne hkp]
      exact h.otherBuffers k fun hmem => (List.mem_cons.mp hmem).elim hkp hk
  · rw [hback, h.rest]

end PvrServices.SyncInfoSets
