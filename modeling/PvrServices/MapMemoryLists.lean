import PvrServices.BlockSizes
import PvrServices.MapMemoryBase

set_option autoImplicit false

/-!
# Page lists and their memory infos

A page list is freed with the size that its memory info counts anew. Which lists there are and who
leads to them is all that the sizes of these frees depend on.
-/
namespace PvrServices.MapMemory
open Words BlockHeap WrapPages
variable {s t : Maps} {h h' h₁ : Heap Content} {m m' p q d y n : ℕ} {i i' : MemInfo}
  {x : Content} {grant : Option ℕ} {m₀ : Option ℕ}

theorem memInfoAt_eq_some : memInfoAt h m = some i ↔
    ∃ z, h.blocks m = some ⟨z, .memInfo i⟩ := by
  unfold memInfoAt
  constructor
  · intro hm
    obtain ⟨b, hb, hi⟩ := Option.bind_eq_some_iff.mp hm
    cases b with
    | mk z x =>
      cases x with
      | memInfo j =>
        rw [← Option.some.inj hi]
        exact ⟨z, hb⟩
      | pageList _ => cases hi
      | syncInfo _ => cases hi
      | mapData _ => cases hi
  · rintro ⟨z, hz⟩
    rw [hz]
    rfl

theorem syncInfoAt_eq_some {z : SyncInfo} : syncInfoAt h y = some z ↔
    ∃ n, h.blocks y = some ⟨n, .syncInfo z⟩ := by
  unfold syncInfoAt
  constructor
  · intro hm
    obtain ⟨b, hb, hi⟩ := Option.bind_eq_some_iff.mp hm
    cases b with
    | mk n x =>
      cases x with
      | syncInfo j =>
        rw [← Option.some.inj hi]
        exact ⟨n, hb⟩
      | pageList _ => cases hi
      | memInfo _ => cases hi
      | mapData _ => cases hi
  · rintro ⟨n, hn⟩
    rw [hn]
    rfl

theorem mapDataAt_eq_some {z : MapData} : mapDataAt h d = some z ↔
    ∃ n, h.blocks d = some ⟨n, .mapData z⟩ := by
  unfold mapDataAt
  constructor
  · intro hm
    obtain ⟨b, hb, hi⟩ := Option.bind_eq_some_iff.mp hm
    cases b with
    | mk n x =>
      cases x with
      | mapData j =>
        rw [← Option.some.inj hi]
        exact ⟨n, hb⟩
      | pageList _ => cases hi
      | memInfo _ => cases hi
      | syncInfo _ => cases hi
  · rintro ⟨n, hn⟩
    rw [hn]
    rfl

theorem pageListAt_eq_some : pageListAt h p = some n ↔
    ∃ z, h.blocks p = some ⟨z, .pageList n⟩ := by
  unfold pageListAt
  constructor
  · intro hm
    obtain ⟨b, hb, hi⟩ := Option.bind_eq_some_iff.mp hm
    cases b with
    | mk z x =>
      cases x with
      | pageList j =>
        rw [← Option.some.inj hi]
        exact ⟨z, hb⟩
      | syncInfo _ => cases hi
      | memInfo _ => cases hi
      | mapData _ => cases hi
  · rintro ⟨z, hz⟩
    rw [hz]
    rfl

theorem memInfoAt_congr (hm : h'.blocks m = h.blocks m) : memInfoAt h' m = memInfoAt h m := by
  unfold memInfoAt
  rw [hm]

theorem pageListAt_congr (hp : h'.blocks p = h.blocks p) : pageListAt h' p = pageListAt h p := by
  unfold pageListAt
  rw [hp]

/-- Every page list that a memory info other than `m₀` leads to is there, for it alone; that of a
    mapping has as many pages as the memory info. -/
structure Listed (m₀ : Option ℕ) (h : Heap Content) : Prop where
  null : h.blocks 0 = none
  lists : ∀ m i, memInfoAt h m = some i → m₀ ≠ some m → i.psIntSysPAddr ≠ 0 →
    ∃ n, pageListAt h i.psIntSysPAddr = some n ∧ n ≤ 1048576 ∧
      (i.hOSWrapMem = 0 → n = i.pageCount)
  apart : ∀ m m' i i', memInfoAt h m = some i → memInfoAt h m' = some i' →
    i.psIntSysPAddr ≠ 0 → i.psIntSysPAddr = i'.psIntSysPAddr → m = m'

def Unowned (h : Heap Content) (p : ℕ) : Prop :=
  ∀ m i, memInfoAt h m = some i → i.psIntSysPAddr ≠ p

/-- A stretch that frees with the right sizes, takes no page list away and gives none to a memory
    info. -/
structure Quiet (h h' : Heap Content) : Prop where
  between : Between usesVmalloc Content.size h h' True
  null : h.blocks 0 = none → h'.blocks 0 = none
  pages : ∀ p n, pageListAt h p = some n → pageListAt h' p = some n
  owners : ∀ m i, memInfoAt h' m = some i → i.psIntSysPAddr ≠ 0 →
    ∃ j, memInfoAt h m = some j ∧ j.psIntSysPAddr = i.psIntSysPAddr ∧
      j.hOSWrapMem = i.hOSWrapMem ∧ j.pageCount = i.pageCount

theorem Quiet.refl : Quiet h h :=
  ⟨.refl, id, fun _ _ hp => hp, fun _ i hm _ => ⟨i, hm, rfl, rfl, rfl⟩⟩

theorem Quiet.trans (ha : Quiet h h₁) (hb : Quiet h₁ h') : Quiet h h' := by
  refine ⟨hb.between.after ha.between, fun h0 => hb.null (ha.null h0),
    fun p n hp => hb.pages p n (ha.pages p n hp), ?_⟩
  intro m i hm hi
  obtain ⟨j, hj, hlist, hwrap, hcount⟩ := hb.owners m i hm hi
  obtain ⟨k, hk, hlist', hwrap', hcount'⟩ := ha.owners m j hj (hlist ▸ hi)
  exact ⟨k, hk, hlist'.trans hlist, hwrap'.trans hwrap, hcount'.trans hcount⟩

theorem Quiet.listed (hq : Quiet h h') (hl : Listed m₀ h) : Listed m₀ h' := by
  refine ⟨hq.null hl.null, ?_, ?_⟩
  · intro m i hm hne hi
    obtain ⟨j, hj, hlist, hwrap, hcount⟩ := hq.owners m i hm hi
    obtain ⟨n, hn, hle, heq⟩ := hl.lists m j hj hne (hlist ▸ hi)
    rw [hlist] at hn
    exact ⟨n, hq.pages _ n hn, hle, fun hw => (heq (hwrap.trans hw)).trans hcount⟩
  · intro m m' i i' hm hm' hi heq
    obtain ⟨j, hj, hlist, -⟩ := hq.owners m i hm hi
    obtain ⟨j', hj', hlist', -⟩ := hq.owners m' i' hm' (heq ▸ hi)
    exact hl.apart m m' j j' hj hj' (hlist ▸ hi) (by rw [hlist, hlist', heq])

theorem Quiet.unowned (hq : Quiet h h') (hp : p ≠ 0) (hu : Unowned h p) : Unowned h' p := by
  intro m i hm hi
  obtain ⟨j, hj, hlist, -⟩ := hq.owners m i hm (hi ▸ hp)
  exact hu m j hj (hlist.trans hi)

def Content.Listless (x : Content) : Prop := ∀ i, x = .memInfo i → i.psIntSysPAddr = 0

theorem allocates_quiet (ha : Allocates h h' p x.size x) (hx : x.Listless) : Quiet h h' := by
  refine ⟨ha.between, fun h0 => ?_, fun q n hq => ?_, fun m i hm hi => ?_⟩
  · rw [ha.others 0 ha.pos.symm]
    exact h0
  · have hne : q ≠ p := by
      intro hqp
      obtain ⟨z, hz⟩ := pageListAt_eq_some.mp hq
      rw [hqp, ha.fresh] at hz
      cases hz
    rw [pageListAt_congr (ha.others q hne)]
    exact hq
  · by_cases hmp : m = p
    · obtain ⟨z, hz⟩ := memInfoAt_eq_some.mp hm
      rw [hmp, ha.new] at hz
      have hxi : x = .memInfo i := congrArg Block.content (Option.some.inj hz)
      exact absurd (hx i hxi) hi
    · rw [memInfoAt_congr (ha.others m hmp)] at hm
      exact ⟨i, hm, rfl, rfl, rfl⟩

theorem free_quiet (hf : h.free p n = some h') {b : Block Content}
    (hb : h.blocks p = some b) (hn : b.content.size = n) (hlist : pageListAt h p = none) :
    Quiet h h' := by
  have hfree := Heap.free_spec hf
  refine ⟨Heap.free_between_of_content hf hb hn, hfree.gone_of_none, fun q k hq => ?_,
    fun m i hm _ => ?_⟩
  · have hne : q ≠ p := by
      intro hqp
      rw [hqp, hlist] at hq
      cases hq
    rw [pageListAt_congr (hfree.others q hne)]
    exact hq
  · have hne : m ≠ p := by
      intro hmp
      obtain ⟨z, hz⟩ := memInfoAt_eq_some.mp hm
      rw [hmp, hfree.gone] at hz
      cases hz
    rw [memInfoAt_congr (hfree.others m hne)] at hm
    exact ⟨i, hm, rfl, rfl, rfl⟩

/-- A write that leaves a block as large as it was, and a memory info its page list. -/
theorem write_quiet (hw : h.write p x = some h') {b : Block Content}
    (hb : h.blocks p = some b) (hsize : x.size = b.content.size)
    (hlist : pageListAt h p = none)
    (hmem : ∀ i, x = .memInfo i → i.psIntSysPAddr ≠ 0 → ∃ j, b.content = .memInfo j ∧
      j.psIntSysPAddr = i.psIntSysPAddr ∧ j.hOSWrapMem = i.hOSWrapMem ∧
      j.pageCount = i.pageCount) : Quiet h h' := by
  obtain ⟨c, hc, hnew, hothers, -⟩ := Heap.write_spec hw
  refine ⟨Heap.write_between hw fun a ha => ?_, fun h0 => ?_, fun q k hq => ?_,
    fun m i hm hi => ?_⟩
  · have hab : a = b := Option.some.inj (ha.symm.trans hb)
    rw [hab]
    exact hsize
  · have hne : 0 ≠ p := by
      intro h0p
      rw [h0p, hb] at h0
      cases h0
    rw [hothers 0 hne]
    exact h0
  · have hne : q ≠ p := by
      intro hqp
      rw [hqp, hlist] at hq
      cases hq
    rw [pageListAt_congr (hothers q hne)]
    exact hq
  · by_cases hmp : m = p
    · obtain ⟨z, hz⟩ := memInfoAt_eq_some.mp hm
      rw [hmp, hnew] at hz
      have hxi : x = .memInfo i := congrArg Block.content (Option.some.inj hz)
      obtain ⟨j, hj, hsame⟩ := hmem i hxi hi
      refine ⟨j, memInfoAt_eq_some.mpr ⟨b.size, ?_⟩, hsame⟩
      rw [hmp, hb, ← hj]
    · rw [memInfoAt_congr (hothers m hmp)] at hm
      exact ⟨i, hm, rfl, rfl, rfl⟩

theorem Maps.alloc_spec (ha : s.alloc x grant = some (p, t)) : t = { s with heap := t.heap } ∧
    ((grant = none ∧ p = 0 ∧ t = s) ∨
      (grant = some p ∧ Allocates s.heap t.heap p x.size x)) := by
  unfold Maps.alloc at ha
  obtain ⟨r, hr, heq⟩ := Option.map_eq_some_iff.mp ha
  obtain ⟨hp, ht⟩ := Prod.mk.inj heq
  rw [← ht, ← hp]
  refine ⟨rfl, ?_⟩
  cases Heap.alloc_spec (show s.heap.alloc _ _ grant = some (r.1, r.2) from hr) with
  | inl hnone =>
    refine .inl ⟨hnone.1, hnone.2.1, ?_⟩
    rw [hnone.2.2]
  | inr hnew => exact .inr hnew

theorem Maps.write_spec (hw : s.write p x = some t) :
    s.heap.write p x = some t.heap ∧ t = { s with heap := t.heap } := by
  unfold Maps.write at hw
  obtain ⟨h, hh, heq⟩ := Option.map_eq_some_iff.mp hw
  rw [← heq]
  exact ⟨hh, rfl⟩

theorem Maps.free_spec (hf : s.free p n = some t) :
    s.heap.free p n = some t.heap ∧ t = { s with heap := t.heap } := by
  unfold Maps.free at hf
  obtain ⟨h, hh, heq⟩ := Option.map_eq_some_iff.mp hf
  rw [← heq]
  exact ⟨hh, rfl⟩

theorem Maps.alloc_quiet (ha : s.alloc x grant = some (p, t)) (hx : x.Listless) :
    Quiet s.heap t.heap := by
  cases (Maps.alloc_spec ha).2 with
  | inl hnone =>
    rw [hnone.2.2]
    exact .refl
  | inr hnew => exact allocates_quiet hnew.2 hx

theorem pageListAt_of_memInfoAt (hm : memInfoAt h m = some i) : pageListAt h m = none := by
  obtain ⟨z, hz⟩ := memInfoAt_eq_some.mp hm
  unfold pageListAt
  rw [hz]
  rfl

theorem pageListAt_of_syncInfoAt {z : SyncInfo} (hy : syncInfoAt h y = some z) :
    pageListAt h y = none := by
  obtain ⟨n, hn⟩ := syncInfoAt_eq_some.mp hy
  unfold pageListAt
  rw [hn]
  rfl

theorem pageListAt_of_mapDataAt {z : MapData} (hd : mapDataAt h d = some z) :
    pageListAt h d = none := by
  obtain ⟨n, hn⟩ := mapDataAt_eq_some.mp hd
  unfold pageListAt
  rw [hn]
  rfl

theorem Maps.writeMem_quiet (hm : memInfoAt s.heap m = some i)
    (hw : s.write m (.memInfo i') = some t)
    (hsame : i'.psIntSysPAddr ≠ 0 → i.psIntSysPAddr = i'.psIntSysPAddr ∧
      i.hOSWrapMem = i'.hOSWrapMem ∧ i.pageCount = i'.pageCount) : Quiet s.heap t.heap := by
  obtain ⟨z, hz⟩ := memInfoAt_eq_some.mp hm
  refine write_quiet (Maps.write_spec hw).1 hz rfl (pageListAt_of_memInfoAt hm) ?_
  intro j hj hlist
  obtain rfl : i' = j := Content.memInfo.inj hj
  exact ⟨i, rfl, hsame hlist⟩

theorem Maps.writeSync_quiet {z z' : SyncInfo} (hy : syncInfoAt s.heap y = some z)
    (hw : s.write y (.syncInfo z') = some t) : Quiet s.heap t.heap := by
  obtain ⟨n, hn⟩ := syncInfoAt_eq_some.mp hy
  refine write_quiet (Maps.write_spec hw).1 hn rfl (pageListAt_of_syncInfoAt hy) ?_
  intro j hj
  cases hj

theorem Maps.writeMapData_quiet {z z' : MapData} (hd : mapDataAt s.heap d = some z)
    (hw : s.write d (.mapData z') = some t) : Quiet s.heap t.heap := by
  obtain ⟨n, hn⟩ := mapDataAt_eq_some.mp hd
  refine write_quiet (Maps.write_spec hw).1 hn rfl (pageListAt_of_mapDataAt hd) ?_
  intro j hj
  cases hj

theorem Maps.freeMem_quiet (hm : memInfoAt s.heap m = some i)
    (hf : s.free m memInfoSize = some t) : Quiet s.heap t.heap := by
  obtain ⟨z, hz⟩ := memInfoAt_eq_some.mp hm
  exact free_quiet (Maps.free_spec hf).1 hz rfl (pageListAt_of_memInfoAt hm)

theorem Maps.freeSync_quiet {z : SyncInfo} (hy : syncInfoAt s.heap y = some z)
    (hf : s.free y syncInfoSize = some t) : Quiet s.heap t.heap := by
  obtain ⟨n, hn⟩ := syncInfoAt_eq_some.mp hy
  exact free_quiet (Maps.free_spec hf).1 hn rfl (pageListAt_of_syncInfoAt hy)

theorem Maps.freeMapData_quiet {z : MapData} (hd : mapDataAt s.heap d = some z)
    (hf : s.free d mapDataSize = some t) : Quiet s.heap t.heap := by
  obtain ⟨n, hn⟩ := mapDataAt_eq_some.mp hd
  exact free_quiet (Maps.free_spec hf).1 hn rfl (pageListAt_of_mapDataAt hd)

variable {b : ℕ} {buffer : Option Buffer} {stray : Option ℕ} {a : SyncAnswers} {r : Except PvrsrvError ℕ}
  {e : PvrsrvError} {physAddr size : ℕ}

theorem bmFree_spec (hf : bmFree s b = some t) : t = { s with buffers := t.buffers } := by
  unfold bmFree at hf
  split at hf
  · rw [← Option.some.inj hf]
  · split at hf
    · cases hf
    · rw [← Option.some.inj hf]

theorem bmAlloc_spec {b : Buffer} (hb : bmAlloc s b = some t) :
    s.buffers b.handle = 0 ∧ b.handle ≠ 0 ∧
      t = { s with buffers := Function.update s.buffers b.handle 1 } := by
  unfold bmAlloc at hb
  split at hb
  · cases hb
  · rename_i hnew
    obtain ⟨h0, hfree⟩ := not_or.mp hnew
    exact ⟨not_not.mp hfree, h0, (Option.some.inj hb).symm⟩

theorem bmWrap_spec {b : Buffer} (hb : bmWrap s b = some t) : b.handle ≠ 0 ∧
    t = { s with buffers := Function.update s.buffers b.handle (s.buffers b.handle + 1) } := by
  unfold bmWrap at hb
  split at hb
  · cases hb
  · rename_i h0
    exact ⟨h0, (Option.some.inj hb).symm⟩

structure FreesMem (s t : Maps) (m : ℕ) (i : MemInfo) : Prop where
  info : memInfoAt s.heap m = some i
  frees : Frees s.heap t.heap m memInfoSize
  buffer : ∃ u, bmFree s i.hBuffer = some u ∧ t = { u with heap := t.heap }

theorem freeDeviceMem_spec (hf : freeDeviceMem s m = some t) :
    (m = 0 ∧ t = s) ∨ ∃ i, FreesMem s t m i := by
  unfold freeDeviceMem at hf
  split at hf
  · rename_i h0
    exact .inl ⟨h0, (Option.some.inj hf).symm⟩
  · obtain ⟨i, hi, hf⟩ := Option.bind_eq_some_iff.mp hf
    obtain ⟨u, hu, hf⟩ := Option.bind_eq_some_iff.mp hf
    obtain ⟨hfree, ht⟩ := Maps.free_spec hf
    have hheap : u.heap = s.heap := by rw [bmFree_spec hu]
    rw [hheap] at hfree
    exact .inr ⟨i, hi, Heap.free_spec hfree, u, hu, ht⟩

theorem freeDeviceMem_quiet (hf : freeDeviceMem s m = some t) : Quiet s.heap t.heap := by
  unfold freeDeviceMem at hf
  split at hf
  · rw [← Option.some.inj hf]
    exact .refl
  · obtain ⟨i, hi, hf⟩ := Option.bind_eq_some_iff.mp hf
    obtain ⟨u, hu, hf⟩ := Option.bind_eq_some_iff.mp hf
    have hheap : u.heap = s.heap := by rw [bmFree_spec hu]
    rw [← hheap] at hi ⊢
    exact Maps.freeMem_quiet hi hf

theorem listless_blank : (Content.memInfo blankInfo).Listless := by
  intro i hi
  rw [← Content.memInfo.inj hi]
  rfl

theorem memInfoAt_new (ha : Allocates h h' m (Content.memInfo i).size (.memInfo i)) :
    memInfoAt h' m = some i := memInfoAt_eq_some.mpr ⟨_, ha.new⟩

@[simp] theorem Maps.strand_heap (s : Maps) (stray : Option ℕ) : (s.strand stray).heap = s.heap := by
  cases stray with
  | none => rfl
  | some v => rfl

theorem Maps.strand_eq (s : Maps) (stray : Option ℕ) :
    s.strand stray = { s with strays := (s.strand stray).strays } := by
  cases stray with
  | none => rfl
  | some v => rfl

theorem Maps.strand_strays_iff (s : Maps) (stray : Option ℕ) :
    (s.strand stray).strays = s.strays ↔ stray = none := by
  cases stray with
  | none => exact ⟨fun _ => rfl, fun _ => rfl⟩
  | some v => exact ⟨fun h => absurd h (List.cons_ne_self v s.strays), fun h => by cases h⟩

/-- All blocks that were there are there, and nothing else has changed but the buffers and the
    strays. -/
structure Grows (s t : Maps) : Prop where
  blocks : ∀ p b, s.heap.blocks p = some b → t.heap.blocks p = some b
  rest : ∃ h u z, t = { s with heap := h, buffers := u, strays := z }

/-- Everything is as before but for what the buffer manager has forgotten. -/
structure Restored (s t : Maps) : Prop where
  blocks : t.heap.blocks = s.heap.blocks
  rest : t = { s with heap := t.heap, strays := t.strays }

theorem Restored.refl : Restored s s := ⟨rfl, rfl⟩

theorem Restored.grows (hr : Restored s t) : Grows s t := by
  refine ⟨fun p b hb => ?_, t.heap, s.buffers, t.strays, ?_⟩
  · rw [hr.blocks]
    exact hb
  · exact hr.rest

theorem Grows.trans {u : Maps} (ha : Grows s t) (hb : Grows t u) : Grows s u := by
  obtain ⟨h, z, a, ht⟩ := ha.rest
  obtain ⟨h', z', a', hu⟩ := hb.rest
  refine ⟨fun p b hp => hb.blocks p b (ha.blocks p b hp), h', z', a', ?_⟩
  rw [hu, ht]

theorem allocDeviceMem_spec (ha : allocDeviceMem s size grant buffer stray = some (m, t)) :
    Quiet s.heap t.heap ∧
      ((m = 0 ∧ Restored s t ∧ (grant = none ∨ buffer = none)) ∨
        (m ≠ 0 ∧ s.heap.blocks m = none ∧ (∃ i, memInfoAt t.heap m = some i) ∧ Grows s t ∧
          grant ≠ none ∧ buffer ≠ none)) := by
  unfold allocDeviceMem at ha
  obtain ⟨⟨p, u⟩, hu, ha⟩ := Option.bind_eq_some_iff.mp ha
  have hq := Maps.alloc_quiet hu listless_blank
  obtain ⟨hrest, hcases⟩ := Maps.alloc_spec hu
  dsimp only at ha
  split at ha
  · rename_i h0
    obtain ⟨hm, ht⟩ := Prod.mk.inj (Option.some.inj ha)
    rw [← ht]
    refine ⟨hq, .inl ⟨hm.symm, ?_⟩⟩
    cases hcases with
    | inl hnone =>
      rw [hnone.2.2]
      exact ⟨.refl, .inl hnone.1⟩
    | inr hnew => exact absurd h0 hnew.2.pos
  · rename_i h0
    cases hcases with
    | inl hnone => exact absurd hnone.2.1 h0
    | inr hnew =>
      obtain ⟨hgrant, hnew⟩ := hnew
      have hinfo := memInfoAt_new hnew
      cases buffer with
      | none =>
        obtain ⟨v, hv, heq⟩ := Option.map_eq_some_iff.mp ha
        obtain ⟨hm, ht⟩ := Prod.mk.inj heq
        obtain ⟨hfree, hvu⟩ := Maps.free_spec hv
        rw [← hm, ← ht]
        have hheap := u.strand_heap stray
        rw [← hheap] at hinfo hq
        refine ⟨hq.trans (Maps.freeMem_quiet hinfo hv), .inl ⟨rfl, ⟨?_, ?_⟩, .inr rfl⟩⟩
        · rw [hheap] at hfree
          exact hnew.freed rfl (Heap.free_spec hfree)
        · rw [hvu, u.strand_eq, hrest]
      | some b =>
        obtain ⟨v, hv, ha⟩ := Option.bind_eq_some_iff.mp ha
        obtain ⟨w, hw, ha⟩ := Option.bind_eq_some_iff.mp ha
        obtain ⟨hm, ht⟩ := Prod.mk.inj (Option.some.inj ha)
        obtain ⟨hwrite, hwv⟩ := Maps.write_spec hw
        have hheap : v.heap = u.heap := by rw [(bmAlloc_spec hv).2.2]
        rw [← hheap] at hinfo hnew
        rw [← hheap] at hq
        obtain ⟨b', hb', hat, hothers, -⟩ := Heap.write_spec hwrite
        rw [← hm, ← ht]
        refine ⟨hq.trans (Maps.writeMem_quiet hinfo hw fun hlist => absurd rfl hlist),
          .inr ⟨h0, hnew.fresh, ⟨_, memInfoAt_eq_some.mpr ⟨_, hat⟩⟩, ⟨fun k c hk => ?_, ?_⟩, ?_, ?_⟩⟩
        · have hne : k ≠ p := by
            intro hkp
            rw [hkp, hnew.fresh] at hk
            cases hk
          rw [hothers k hne]
          exact hnew.keeps hk
        · refine ⟨w.heap, v.buffers, v.strays, ?_⟩
          rw [hwv, (bmAlloc_spec hv).2.2, hrest]
        · rw [hgrant]
          exact Option.some_ne_none p
        · exact Option.some_ne_none b

theorem syncInfoAt_of_keeps {z : SyncInfo} (hy : syncInfoAt s.heap y = some z) (hg : Grows s t) :
    syncInfoAt t.heap y = some z := by
  obtain ⟨n, hn⟩ := syncInfoAt_eq_some.mp hy
  exact syncInfoAt_eq_some.mpr ⟨n, hg.blocks y _ hn⟩

theorem syncInfoAt_of_write {z : SyncInfo}
    (hw : s.write y (.syncInfo z) = some t) : syncInfoAt t.heap y = some z := by
  obtain ⟨b, -, hnew, -⟩ := Heap.write_spec (Maps.write_spec hw).1
  exact syncInfoAt_eq_some.mpr ⟨_, hnew⟩

theorem Grows.write {u : Maps} (hg : Grows s u) (hp : s.heap.blocks p = none)
    (hw : u.write p x = some t) : Grows s t := by
  obtain ⟨hwrite, ht⟩ := Maps.write_spec hw
  obtain ⟨b, -, -, hothers, -⟩ := Heap.write_spec hwrite
  obtain ⟨h, z, a, hu⟩ := hg.rest
  refine ⟨fun q c hq => ?_, t.heap, z, a, ?_⟩
  · have hne : q ≠ p := by
      intro hqp
      rw [hqp, hp] at hq
      cases hq
    rw [hothers q hne]
    exact hg.blocks q c hq
  · rw [ht, hu]

theorem Maps.alloc_grows (ha : s.alloc x grant = some (p, t)) : Grows s t := by
  obtain ⟨hrest, hcases⟩ := Maps.alloc_spec ha
  refine ⟨fun q b hq => ?_, t.heap, s.buffers, s.strays, hrest⟩
  cases hcases with
  | inl hnone =>
    rw [hnone.2.2]
    exact hq
  | inr hnew => exact hnew.2.keeps hq

theorem allocSyncInfo_spec (ha : allocSyncInfo s a = some (y, t)) :
    Quiet s.heap t.heap ∧
      ((y = 0 ∧ Restored s t ∧ (a.info = none ∨ a.dataInfo = none ∨ a.dataBuffer = none)) ∨
        (y ≠ 0 ∧ s.heap.blocks y = none ∧ (∃ z, syncInfoAt t.heap y = some z) ∧ Grows s t ∧
          a.info ≠ none ∧ a.dataInfo ≠ none ∧ a.dataBuffer ≠ none)) := by
  unfold allocSyncInfo at ha
  obtain ⟨⟨p, u⟩, hu, ha⟩ := Option.bind_eq_some_iff.mp ha
  have hq := Maps.alloc_quiet hu fun i hi => by cases hi
  obtain ⟨hrest, hcases⟩ := Maps.alloc_spec hu
  dsimp only at ha
  split at ha
  · rename_i h0
    obtain ⟨hy, ht⟩ := Prod.mk.inj (Option.some.inj ha)
    rw [← ht]
    refine ⟨hq, .inl ⟨hy.symm, ?_⟩⟩
    cases hcases with
    | inl hnone =>
      rw [hnone.2.2]
      exact ⟨.refl, .inl hnone.1⟩
    | inr hnew => exact absurd h0 hnew.2.pos
  · rename_i h0
    cases hcases with
    | inl hnone => exact absurd hnone.2.1 h0
    | inr hnew =>
      obtain ⟨hgrant, hnew⟩ := hnew
      have hinfo : syncInfoAt u.heap p = some ⟨0, 0, 0⟩ := syncInfoAt_eq_some.mpr ⟨_, hnew.new⟩
      obtain ⟨⟨data, v⟩, hv, ha⟩ := Option.bind_eq_some_iff.mp ha
      obtain ⟨hqv, hdata⟩ := allocDeviceMem_spec hv
      unfold syncData at ha
      dsimp only at ha
      cases hdata with
      | inl hfailed =>
        obtain ⟨hd, hback, hnone⟩ := hfailed
        rw [if_pos hd] at ha
        obtain ⟨w, hw, heq⟩ := Option.map_eq_some_iff.mp ha
        obtain ⟨hy, ht⟩ := Prod.mk.inj heq
        obtain ⟨hfree, hwv⟩ := Maps.free_spec hw
        rw [← hy, ← ht]
        have hinfo' := syncInfoAt_of_keeps hinfo hback.grows
        refine ⟨(hq.trans hqv).trans (Maps.freeSync_quiet hinfo' hw), .inl ⟨rfl, ⟨?_, ?_⟩, ?_⟩⟩
        · exact hnew.freed hback.blocks (Heap.free_spec hfree)
        · rw [hwv, hback.rest, hrest]
        · exact .inr hnone
      | inr hmade =>
        obtain ⟨hd, -, -, hgrows, hgrants⟩ := hmade
        rw [if_neg hd] at ha
        obtain ⟨w, hw, heq⟩ := Option.map_eq_some_iff.mp ha
        obtain ⟨hy, ht⟩ := Prod.mk.inj heq
        rw [← hy, ← ht]
        have hinfo' := syncInfoAt_of_keeps hinfo hgrows
        refine ⟨(hq.trans hqv).trans (Maps.writeSync_quiet hinfo' hw), .inr ⟨h0, hnew.fresh,
          ⟨_, syncInfoAt_of_write hw⟩,
          ((Maps.alloc_grows hu).trans hgrows).write hnew.fresh hw, ?_, hgrants⟩⟩
        rw [hgrant]
        exact Option.some_ne_none p

theorem freeSyncInfo_quiet (hf : freeSyncInfo s y = some t) : Quiet s.heap t.heap := by
  unfold freeSyncInfo at hf
  obtain ⟨x, hx, hf⟩ := Option.bind_eq_some_iff.mp hf
  obtain ⟨u, hu, hf⟩ := Option.bind_eq_some_iff.mp hf
  refine (freeDeviceMem_quiet hu).trans (Maps.freeSync_quiet (z := x) ?_ hf)
  cases freeDeviceMem_spec hu with
  | inl hnone =>
    rw [hnone.2]
    exact hx
  | inr hfreed =>
    obtain ⟨i, hi⟩ := hfreed
    have hne : y ≠ x.psSyncDataMemInfoKM := by
      intro heq
      obtain ⟨b, hb⟩ := (Heap.free_spec (Maps.free_spec hf).1).live
      rw [heq, hi.frees.gone] at hb
      cases hb
    obtain ⟨n, hn⟩ := syncInfoAt_eq_some.mp hx
    exact syncInfoAt_eq_some.mpr ⟨n, by rw [hi.frees.others y hne]; exact hn⟩

theorem getSyncinfo_quiet (hg : getSyncinfo s y = some t) : Quiet s.heap t.heap := by
  unfold getSyncinfo at hg
  obtain ⟨x, hx, hg⟩ := Option.bind_eq_some_iff.mp hg
  exact Maps.writeSync_quiet hx hg

theorem putSyncinfo_quiet (hp : putSyncinfo s y = some t) : Quiet s.heap t.heap := by
  unfold putSyncinfo at hp
  obtain ⟨x, hx, hp⟩ := Option.bind_eq_some_iff.mp hp
  obtain ⟨u, hu, hp⟩ := Option.bind_eq_some_iff.mp hp
  have hq := Maps.writeSync_quiet hx hu
  split at hp
  · have hfree := freeSyncInfo_quiet hp
    exact hq.trans hfree
  · rw [← Option.some.inj hp]
    exact hq

/-- `BM_Alloc` fails for the data of a new sync info, and leaves something. -/
structure SyncAnswers.Strays (a : SyncAnswers) : Prop where
  info : a.info ≠ none
  dataInfo : a.dataInfo ≠ none
  dataBuffer : a.dataBuffer = none
  stray : a.stray ≠ none

theorem Maps.alloc_strays (ha : s.alloc x grant = some (p, t)) : t.strays = s.strays := by
  rw [(Maps.alloc_spec ha).1]

theorem allocDeviceMem_strays (ha : allocDeviceMem s size grant buffer stray = some (m, t)) :
    t.strays = s.strays ↔ ¬(grant ≠ none ∧ buffer = none ∧ stray ≠ none) := by
  unfold allocDeviceMem at ha
  obtain ⟨⟨p, u⟩, hu, ha⟩ := Option.bind_eq_some_iff.mp ha
  have hstrays := Maps.alloc_strays hu
  obtain ⟨-, hcases⟩ := Maps.alloc_spec hu
  dsimp only at ha
  split at ha
  · rename_i h0
    have hnone := hcases.resolve_right fun hnew => hnew.2.pos h0
    rw [← (Prod.mk.inj (Option.some.inj ha)).2]
    exact ⟨fun _ hleft => hleft.1 hnone.1, fun _ => hstrays⟩
  · rename_i h0
    obtain ⟨hgrant, -⟩ := hcases.resolve_left fun hnone => h0 hnone.2.1
    cases buffer with
    | none =>
      obtain ⟨v, hv, heq⟩ := Option.map_eq_some_iff.mp ha
      rw [← (Prod.mk.inj heq).2, (Maps.free_spec hv).2, ← hstrays]
      change (u.strand stray).strays = u.strays ↔ _
      rw [Maps.strand_strays_iff, hgrant]
      simp
    | some b =>
      obtain ⟨v, hv, ha⟩ := Option.bind_eq_some_iff.mp ha
      obtain ⟨w, hw, ha⟩ := Option.bind_eq_some_iff.mp ha
      rw [← (Prod.mk.inj (Option.some.inj ha)).2, (Maps.write_spec hw).2, (bmAlloc_spec hv).2.2]
      exact ⟨fun _ hleft => absurd hleft.2.1 (Option.some_ne_none b), fun _ => hstrays⟩

theorem allocSyncInfo_strays (ha : allocSyncInfo s a = some (y, t)) :
    t.strays = s.strays ↔ ¬a.Strays := by
  unfold allocSyncInfo at ha
  obtain ⟨⟨p, u⟩, hu, ha⟩ := Option.bind_eq_some_iff.mp ha
  have hstrays := Maps.alloc_strays hu
  obtain ⟨-, hcases⟩ := Maps.alloc_spec hu
  dsimp only at ha
  split at ha
  · rename_i h0
    have hnone := hcases.resolve_right fun hnew => hnew.2.pos h0
    rw [← (Prod.mk.inj (Option.some.inj ha)).2]
    exact ⟨fun _ hleft => hleft.info hnone.1, fun _ => hstrays⟩
  · rename_i h0
    obtain ⟨hgrant, -⟩ := hcases.resolve_left fun hnone => h0 hnone.2.1
    have hinfo : a.info ≠ none := by
      rw [hgrant]
      exact Option.some_ne_none p
    obtain ⟨⟨data, v⟩, hv, ha⟩ := Option.bind_eq_some_iff.mp ha
    have hdata := allocDeviceMem_strays hv
    have htv : t.strays = v.strays := by
      unfold syncData at ha
      dsimp only at ha
      split at ha
      · obtain ⟨w, hw, heq⟩ := Option.map_eq_some_iff.mp ha
        rw [← (Prod.mk.inj heq).2, (Maps.free_spec hw).2]
      · obtain ⟨w, hw, heq⟩ := Option.map_eq_some_iff.mp ha
        rw [← (Prod.mk.inj heq).2, (Maps.write_spec hw).2]
    rw [htv, ← hstrays, hdata]
    constructor
    · exact fun hnot hleft => hnot ⟨hleft.dataInfo, hleft.dataBuffer, hleft.stray⟩
    · exact fun hnot hleft => hnot ⟨hinfo, hleft.1, hleft.2.1, hleft.2.2⟩

structure SyncAnswers.Made (a : SyncAnswers) : Prop where
  info : a.info ≠ none
  dataInfo : a.dataInfo ≠ none
  dataBuffer : a.dataBuffer ≠ none

/-- The outcomes of `alloc_or_reuse_syncinfo`: a sync info, nothing, or a new one that is in no
    table. -/
inductive SyncEnds (s : Maps) (physAddr : ℕ) (a : SyncAnswers) :
    Except PvrsrvError ℕ × Maps → Prop where
  | found {y : ℕ} {t : Maps}
      (infos : ∀ m i, memInfoAt s.heap m = some i → memInfoAt t.heap m = some i)
      (how : s.syncTable physAddr ≠ 0 ∨ (a.Made ∧ a.inserted = true)) :
      SyncEnds s physAddr a (.ok y, t)
  | failed {t : Maps} (back : Restored s t) (strays : t.strays = s.strays ↔ ¬a.Strays)
      (unknown : s.syncTable physAddr = 0) (how : ¬a.Made) : SyncEnds s physAddr a (.error .errorOutOfMemory, t)
  | lost {t : Maps} {y : ℕ} (grows : Grows s t) (fresh : s.heap.blocks y = none)
      (left : t.heap.blocks y ≠ none) (unknown : s.syncTable physAddr = 0) (made : a.Made)
      (how : a.inserted = false) : SyncEnds s physAddr a (.error .errorGeneric, t)

theorem memInfoAt_of_grows (hg : Grows s t) (hm : memInfoAt s.heap m = some i) :
    memInfoAt t.heap m = some i := by
  obtain ⟨z, hz⟩ := memInfoAt_eq_some.mp hm
  exact memInfoAt_eq_some.mpr ⟨z, hg.blocks m _ hz⟩

theorem memInfoAt_of_writeSync {z z' : SyncInfo} (hy : syncInfoAt s.heap y = some z)
    (hw : s.write y (.syncInfo z') = some t) (hm : memInfoAt s.heap m = some i) :
    memInfoAt t.heap m = some i := by
  obtain ⟨b, -, -, hothers, -⟩ := Heap.write_spec (Maps.write_spec hw).1
  have hne : m ≠ y := by
    intro hmy
    obtain ⟨n, hn⟩ := syncInfoAt_eq_some.mp hy
    obtain ⟨k, hk⟩ := memInfoAt_eq_some.mp hm
    rw [hmy, hn] at hk
    cases hk
  rw [memInfoAt_congr (hothers m hne)]
  exact hm

theorem allocOrReuseSyncinfo_spec {r : Except PvrsrvError ℕ × Maps}
    (ha : allocOrReuseSyncinfo s physAddr a = some r) :
    Quiet s.heap r.2.heap ∧ SyncEnds s physAddr a r := by
  unfold allocOrReuseSyncinfo at ha
  split at ha
  · rename_i hunknown
    obtain ⟨⟨y, u⟩, hu, ha⟩ := Option.bind_eq_some_iff.mp ha
    obtain ⟨hq, hcases⟩ := allocSyncInfo_spec hu
    dsimp only at ha
    cases hcases with
    | inl hfailed =>
      obtain ⟨h0, hback, hnone⟩ := hfailed
      rw [if_pos h0] at ha
      rw [← Option.some.inj ha]
      refine ⟨hq, .failed hback (allocSyncInfo_strays hu) hunknown fun hmade => ?_⟩
      cases hnone with
      | inl h => exact hmade.info h
      | inr h => exact h.elim hmade.dataInfo hmade.dataBuffer
    | inr hnew =>
      obtain ⟨h0, hfresh, -, hgrows, hinfo, hdataInfo, hdataBuffer⟩ := hnew
      rw [if_neg h0] at ha
      unfold insertSyncinfo at ha
      obtain ⟨x, hx, ha⟩ := Option.bind_eq_some_iff.mp ha
      obtain ⟨v, hv, ha⟩ := Option.bind_eq_some_iff.mp ha
      have hq' := hq.trans (Maps.writeSync_quiet hx hv)
      have hgrows' := hgrows.write hfresh hv
      have hmade : a.Made := ⟨hinfo, hdataInfo, hdataBuffer⟩
      obtain ⟨n, hn⟩ := syncInfoAt_eq_some.mp (syncInfoAt_of_write hv)
      split at ha
      · rename_i hin
        rw [← Option.some.inj ha]
        have hkeep (m : ℕ) (i : MemInfo) (hm : memInfoAt s.heap m = some i) :
            memInfoAt v.heap m = some i := memInfoAt_of_grows hgrows' hm
        exact ⟨hq', .found hkeep (.inr ⟨hmade, hin⟩)⟩
      · rename_i hout
        rw [← Option.some.inj ha]
        refine ⟨hq', .lost hgrows' hfresh ?_ hunknown hmade (Bool.not_eq_true _ ▸ hout)⟩
        rw [hn]
        exact Option.some_ne_none _
  · rename_i hknown
    obtain ⟨u, hu, ha⟩ := Option.bind_eq_some_iff.mp ha
    rw [← Option.some.inj ha]
    have hq := getSyncinfo_quiet hu
    unfold getSyncinfo at hu
    obtain ⟨x, hx, hu⟩ := Option.bind_eq_some_iff.mp hu
    exact ⟨hq, .found (fun m i hm => memInfoAt_of_writeSync hx hu hm) (.inl hknown)⟩

end PvrServices.MapMemory
