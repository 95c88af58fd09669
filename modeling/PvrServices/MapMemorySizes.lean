import PvrServices.MapMemoryLists

set_option autoImplicit false

/-!
# The sizes that page lists are freed with

What a call frees besides its page list is freed with a constant size. The list is freed with the
page count of the call, with the size of one address, or with what its memory info counts anew.
-/
namespace PvrServices.MapMemory
open Words BlockHeap WrapPages Mmaps
variable {s t : Maps} {h h' h₁ : Heap Content} {m p d n : ℕ} {i i' : MemInfo} {e : PvrsrvError}
  {r : Except PvrsrvError ℕ × Maps} {k : Taken}

theorem getPageCount_le (a b : ℕ) : getPageCount a b ≤ 1048576 := by
  unfold getPageCount getPageDetails pageAlign pageSize
  have hlt := u32_lt (u32 (b + a % 4096) + (4096 - 1))
  dsimp only
  omega

theorem MemInfo.pageCount_le (i : MemInfo) : i.pageCount ≤ 1048576 := getPageCount_le _ _

/-- A page list is as large as 1024 addresses exactly on the limit. -/
theorem usesVmalloc_pageList (hn : n ≤ 1048576) :
    usesVmalloc (pageListSize n) = decide (1024 < n) := by
  unfold usesVmalloc pageListSize sysPAddrSize linuxKmallocLimit
  rw [u32_of_lt (by omega)]
  exact decide_eq_decide.mpr (by omega)

theorem usesVmalloc_sysPAddr : usesVmalloc sysPAddrSize = false := rfl

/-- The page list that a call has made: no memory info leads to it yet. -/
structure Pending (h : Heap Content) (p n : ℕ) : Prop where
  list : pageListAt h p = some n
  unowned : Unowned h p
  pos : p ≠ 0

theorem Pending.quiet (hp : Pending h p n) (hq : Quiet h h') : Pending h' p n :=
  ⟨hq.pages p n hp.list, hq.unowned hp.pos hp.unowned, hp.pos⟩

theorem pending_alloc (hl : Listed none h) (ha : Allocates h h' p (pageListSize n) (.pageList n)) :
    Pending h' p n := by
  refine ⟨pageListAt_eq_some.mpr ⟨_, ha.new⟩, fun m i hm hi => ?_, ha.pos⟩
  have hne : m ≠ p := by
    intro hmp
    obtain ⟨z, hz⟩ := memInfoAt_eq_some.mp hm
    rw [hmp, ha.new] at hz
    cases hz
  rw [memInfoAt_congr (ha.others m hne)] at hm
  obtain ⟨n', hn', -⟩ := hl.lists m i hm (by simp) (hi ▸ ha.pos)
  obtain ⟨z, hz⟩ := pageListAt_eq_some.mp hn'
  rw [hi, ha.fresh] at hz
  cases hz

theorem free_list {size : ℕ} (hf : h.free p size = some h') (hlist : pageListAt h p = some n) :
    Between usesVmalloc Content.size h h' (usesVmalloc size = usesVmalloc (pageListSize n)) := by
  obtain ⟨z, hz⟩ := pageListAt_eq_some.mp hlist
  refine (Heap.free_between hf).congr ⟨fun hall => hall _ hz, fun heq b hb => ?_⟩
  rw [hz] at hb
  rw [← Option.some.inj hb]
  exact heq

theorem memInfoAt_of_free {size q : ℕ} {j : MemInfo} (hf : h.free p size = some h')
    (hq : memInfoAt h' q = some j) : q ≠ p ∧ memInfoAt h q = some j := by
  have hfree := Heap.free_spec hf
  have hne : q ≠ p := by
    intro hqp
    obtain ⟨z, hz⟩ := memInfoAt_eq_some.mp hq
    rw [hqp, hfree.gone] at hz
    cases hz
  rw [memInfoAt_congr (hfree.others q hne)] at hq
  exact ⟨hne, hq⟩

theorem listed_of_free {m₀ : Option ℕ} {size : ℕ} (hl : Listed none h)
    (hf : h.free p size = some h')
    (howner : ∀ m i, memInfoAt h m = some i → i.psIntSysPAddr = p → m₀ = some m) :
    Listed m₀ h' := by
  have hfree := Heap.free_spec hf
  refine ⟨hfree.gone_of_none hl.null, ?_, ?_⟩
  · intro q j hq hne hj
    have hback := (memInfoAt_of_free hf hq).2
    obtain ⟨k, hk, hrest⟩ := hl.lists q j hback (by simp) hj
    have hother : j.psIntSysPAddr ≠ p := fun heq => hne (howner q j hback heq)
    refine ⟨k, ?_, hrest⟩
    rw [pageListAt_congr (hfree.others _ hother)]
    exact hk
  · intro q q' j j' hq hq'
    exact hl.apart q q' j j' (memInfoAt_of_free hf hq).2 (memInfoAt_of_free hf hq').2

theorem listed_of_freeMem {size : ℕ} (hl : Listed (some m) h) (hm : memInfoAt h m = some i)
    (hf : h.free m size = some h') : Listed none h' := by
  have hfree := Heap.free_spec hf
  refine ⟨hfree.gone_of_none hl.null, ?_, ?_⟩
  · intro q j hq _ hj
    obtain ⟨hne, hback⟩ := memInfoAt_of_free hf hq
    obtain ⟨k, hk, hrest⟩ := hl.lists q j hback (fun heq => hne (Option.some.inj heq).symm) hj
    have hother : j.psIntSysPAddr ≠ m := by
      intro heq
      rw [heq, pageListAt_of_memInfoAt hm] at hk
      cases hk
    refine ⟨k, ?_, hrest⟩
    rw [pageListAt_congr (hfree.others _ hother)]
    exact hk
  · intro q q' j j' hq hq'
    exact hl.apart q q' j j' (memInfoAt_of_free hf hq).2 (memInfoAt_of_free hf hq').2

theorem listed_of_adopt (hl : Listed none h) (hp : Pending h p n) (hn : n ≤ 1048576)
    (hm : memInfoAt h m = some i) (hw : h.write m (.memInfo i') = some h')
    (hlist : i'.psIntSysPAddr = p) (hcount : i'.hOSWrapMem = 0 → n = i'.pageCount) :
    Between usesVmalloc Content.size h h' True ∧ Listed none h' ∧ pageListAt h' p = some n := by
  obtain ⟨b, hb, hnew, hothers, -⟩ := Heap.write_spec hw
  obtain ⟨z, hz⟩ := memInfoAt_eq_some.mp hm
  have hpm : p ≠ m := by
    intro hpm
    have hnone := pageListAt_of_memInfoAt hm
    rw [← hpm, hp.list] at hnone
    cases hnone
  have hkeep (q k : ℕ) (hq : pageListAt h q = some k) : pageListAt h' q = some k := by
    have hqm : q ≠ m := by
      intro hqm
      rw [hqm, pageListAt_of_memInfoAt hm] at hq
      cases hq
    rw [pageListAt_congr (hothers q hqm)]
    exact hq
  have hcases (q : ℕ) (j : MemInfo) (hq : memInfoAt h' q = some j) :
      (q = m ∧ j = i') ∨ (q ≠ m ∧ memInfoAt h q = some j) := by
    by_cases hqm : q = m
    · obtain ⟨z', hz'⟩ := memInfoAt_eq_some.mp hq
      rw [hqm, hnew] at hz'
      have hcontent := congrArg Block.content (Option.some.inj hz')
      exact .inl ⟨hqm, (Content.memInfo.inj hcontent).symm⟩
    · rw [memInfoAt_congr (hothers q hqm)] at hq
      exact .inr ⟨hqm, hq⟩
  refine ⟨Heap.write_between hw fun c hc => ?_, ⟨?_, ?_, ?_⟩, hkeep p n hp.list⟩
  · rw [hz] at hc
    rw [← Option.some.inj hc]
    rfl
  · rw [hothers 0 fun h0 => ?_]
    · exact hl.null
    · rw [← h0, hl.null] at hz
      cases hz
  · intro q j hq _ hj
    cases hcases q j hq with
    | inl hnew =>
      refine ⟨n, ?_, hn, ?_⟩
      · rw [hnew.2, hlist]
        exact hkeep p n hp.list
      · rw [hnew.2]
        exact hcount
    | inr hold =>
      obtain ⟨k, hk, hrest⟩ := hl.lists q j hold.2 (by simp) hj
      exact ⟨k, hkeep _ k hk, hrest⟩
  · intro q q' j j' hq hq' hj heq
    cases hcases q j hq with
    | inl hnew =>
      cases hcases q' j' hq' with
      | inl hnew' => rw [hnew.1, hnew'.1]
      | inr hold' =>
        rw [hnew.2, hlist] at heq
        exact absurd heq.symm (hp.unowned q' j' hold'.2)
    | inr hold =>
      cases hcases q' j' hq' with
      | inl hnew' =>
        rw [hnew'.2, hlist] at heq
        exact absurd heq (hp.unowned q j hold.2)
      | inr hold' => exact hl.apart q q' j j' hold.2 hold'.2 hj heq

variable {c : WrapCall}

/-- A call whose frees are of the right class, and after which every list has its owner. -/
structure Fair (good : Prop) (h h' : Heap Content) : Prop where
  between : Between usesVmalloc Content.size h h' good
  listed : Listed none h'

theorem Fair.after {good : Prop} (hf : Fair good h₁ h') (hq : Quiet h h₁) : Fair good h h' :=
  ⟨hf.between.after hq.between, hf.listed⟩

theorem Quiet.fair (hq : Quiet h h') (hl : Listed none h) : Fair True h h' :=
  ⟨hq.between, hq.listed hl⟩

theorem Fair.congr {good good' : Prop} (hf : Fair good h h') (hg : good ↔ good') :
    Fair good' h h' := ⟨hf.between.congr hg, hf.listed⟩

/-- What a wrap holds of its page list while no memory info has it. -/
def Held (h : Heap Content) (k : Taken) (n : ℕ) : Prop := k.list = 0 ∨ Pending h k.list n

theorem Held.quiet (hk : Held h k n) (hq : Quiet h h') : Held h' k n :=
  hk.imp id fun hp => hp.quiet hq

theorem wrapExit1_fair (hl : Listed none s.heap) (hk : Held s.heap k c.pageCount)
    (hr : wrapExit1 s c k e = some r) : Fair True s.heap r.2.heap := by
  unfold wrapExit1 at hr
  split at hr
  · rw [← Option.some.inj hr]
    exact Quiet.refl.fair hl
  · rename_i h0
    obtain ⟨t, ht, hr⟩ := Option.map_eq_some_iff.mp hr
    rw [← hr]
    have hp := hk.resolve_left h0
    have hfree := (Maps.free_spec ht).1
    refine ⟨(free_list hfree hp.list).congr ⟨fun _ => trivial, fun _ => rfl⟩, ?_⟩
    exact listed_of_free hl hfree fun m i hm hi => absurd hi (hp.unowned m i hm)

theorem releasePages_heap {w : ℕ} (hr : releasePages s w = some t) : t.heap = s.heap := by
  unfold releasePages at hr
  split at hr
  · rw [← Option.some.inj hr]
  · split at hr
    · rw [← Option.some.inj hr]
    · cases hr

theorem wrapExit2_fair (hl : Listed none s.heap) (hk : Held s.heap k c.pageCount)
    (hr : wrapExit2 s c k e = some r) : Fair True s.heap r.2.heap := by
  unfold wrapExit2 at hr
  obtain ⟨t, ht, hr⟩ := Option.bind_eq_some_iff.mp hr
  rw [← releasePages_heap ht] at hl hk ⊢
  exact wrapExit1_fair hl hk hr

theorem wrapExit3_fair (hl : Listed none s.heap) (hk : Held s.heap k c.pageCount)
    (hm : memInfoAt s.heap m = some i) (hr : wrapExit3 s c k m e = some r) :
    Fair True s.heap r.2.heap := by
  unfold wrapExit3 at hr
  obtain ⟨t, ht, hr⟩ := Option.bind_eq_some_iff.mp hr
  have hq := Maps.freeMem_quiet hm ht
  exact (wrapExit2_fair (hq.listed hl) (hk.quiet hq) hr).after hq

theorem pending_of_freeDeviceMem (hl : Listed none s.heap) (hm : memInfoAt s.heap m = some i)
    (hlist : pageListAt s.heap i.psIntSysPAddr = some n) (h0 : i.psIntSysPAddr ≠ 0)
    (hf : freeDeviceMem s m = some t) (hpos : m ≠ 0) : Pending t.heap i.psIntSysPAddr n := by
  refine ⟨(freeDeviceMem_quiet hf).pages _ n hlist, fun q j hq hj => ?_, h0⟩
  cases freeDeviceMem_spec hf with
  | inl hnone => exact hpos hnone.1
  | inr hfreed =>
    obtain ⟨i', hi'⟩ := hfreed
    have hne : q ≠ m := by
      intro hqm
      obtain ⟨z, hz⟩ := memInfoAt_eq_some.mp hq
      rw [hqm, hi'.frees.gone] at hz
      cases hz
    rw [memInfoAt_congr (hi'.frees.others q hne)] at hq
    exact hne (hl.apart q m j i hq hm (hj ▸ h0) hj)

structure Adopted (h : Heap Content) (k : Taken) (m n : ℕ) : Prop where
  pos : m ≠ 0
  info : ∃ i, memInfoAt h m = some i ∧ i.psIntSysPAddr = k.list
  list : k.list = 0 ∨ pageListAt h k.list = some n

theorem wrapExit4_fair (hl : Listed none s.heap) (ha : Adopted s.heap k m c.pageCount)
    (hr : wrapExit4 s c k m e = some r) : Fair True s.heap r.2.heap := by
  unfold wrapExit4 at hr
  obtain ⟨t, ht, hr⟩ := Option.bind_eq_some_iff.mp hr
  have hq := freeDeviceMem_quiet ht
  refine (wrapExit2_fair (hq.listed hl) ?_ hr).after hq
  obtain ⟨i, hi, heq⟩ := ha.info
  by_cases h0 : k.list = 0
  · exact .inl h0
  · refine .inr ?_
    have hlist := ha.list.resolve_left h0
    rw [← heq] at hlist h0 ⊢
    exact pending_of_freeDeviceMem hl hi hlist h0 ht ha.pos

theorem registerRes_heap {x : Item} {grant : Option ℕ} {p : ℕ}
    (hr : registerRes s x grant = some (p, t)) : t.heap = s.heap := by
  cases grant with
  | none => rw [← (Prod.mk.inj (Option.some.inj hr)).2]
  | some q =>
    unfold registerRes at hr
    dsimp only at hr
    split at hr
    · cases hr
    · rw [← (Prod.mk.inj (Option.some.inj hr)).2]

theorem register_quiet {x : Item} {grant : Option ℕ} (hr : register s m x grant = some r) :
    Quiet s.heap r.2.heap := by
  unfold register at hr
  obtain ⟨⟨p, u⟩, hu, hr⟩ := Option.bind_eq_some_iff.mp hr
  obtain ⟨i, hi, hr⟩ := Option.bind_eq_some_iff.mp hr
  obtain ⟨v, hv, hr⟩ := Option.bind_eq_some_iff.mp hr
  rw [← Option.some.inj hr, ← registerRes_heap hu]
  exact Maps.writeMem_quiet hi hv fun _ => ⟨rfl, rfl, rfl⟩

theorem wrapSynced_fair (hl : Listed none r.2.heap) (ha : Adopted r.2.heap k m c.pageCount)
    {r' : Except PvrsrvError ℕ × Maps} (hr : wrapSynced c k m r = some r') :
    Fair True r.2.heap r'.2.heap := by
  cases r with
  | mk x s =>
    cases x with
    | error e => exact wrapExit4_fair hl ha hr
    | ok y =>
      obtain ⟨i, hi, hr⟩ := Option.bind_eq_some_iff.mp hr
      obtain ⟨u, hu, hr⟩ := Option.bind_eq_some_iff.mp hr
      have hq := Maps.writeMem_quiet hi hu fun _ => ⟨rfl, rfl, rfl⟩
      exact (hq.trans (register_quiet hr)).fair hl

theorem SyncEnds.info {physAddr : ℕ} {a : SyncAnswers} (he : SyncEnds s physAddr a r)
    (hm : memInfoAt s.heap m = some i) : memInfoAt r.2.heap m = some i := by
  cases he with
  | found infos _ => exact infos m i hm
  | failed back _ _ _ => exact memInfoAt_of_grows back.grows hm
  | lost grows _ _ _ _ _ => exact memInfoAt_of_grows grows hm

structure Holding (h : Heap Content) (k : Taken) (n : ℕ) : Prop where
  held : Held h k n
  pages : k.list ≠ 0 → k.pages ≠ 0

theorem wrapBuffer_fair {physAddr : ℕ} {o : Option Buffer} (hl : Listed none s.heap)
    (hk : Holding s.heap k c.pageCount) (hm : memInfoAt s.heap m = some blankInfo) (hpos : m ≠ 0)
    (hr : wrapBuffer s c k physAddr m o = some r) : Fair True s.heap r.2.heap := by
  cases o with
  | none =>
    rw [← s.strand_heap c.stray] at hl hk hm ⊢
    exact wrapExit3_fair hl hk.held hm hr
  | some b =>
    obtain ⟨u, hu, hr⟩ := Option.bind_eq_some_iff.mp hr
    obtain ⟨v, hv, hr⟩ := Option.bind_eq_some_iff.mp hr
    obtain ⟨x, hx, hr⟩ := Option.bind_eq_some_iff.mp hr
    have hheap : u.heap = s.heap := by rw [(bmWrap_spec hu).2]
    have hwrite := (Maps.write_spec hv).1
    rw [hheap] at hwrite
    obtain ⟨b', -, hnew, -⟩ := Heap.write_spec hwrite
    have hinfo := memInfoAt_eq_some.mpr ⟨_, hnew⟩
    have hadopt : Fair True s.heap v.heap ∧ (k.list = 0 ∨
        pageListAt v.heap k.list = some c.pageCount) := by
      by_cases h0 : k.list = 0
      · rw [← hheap] at hm hl ⊢
        have hq := Maps.writeMem_quiet hm hv fun hlist => absurd h0 hlist
        exact ⟨hq.fair hl, .inl h0⟩
      · obtain ⟨hbetween, hlisted, hlist⟩ := listed_of_adopt hl (hk.held.resolve_left h0)
          (getPageCount_le _ _) hm hwrite rfl fun hwrap => absurd hwrap (hk.pages h0)
        exact ⟨⟨hbetween, hlisted⟩, .inr hlist⟩
    obtain ⟨hq, hends⟩ := allocOrReuseSyncinfo_spec hx
    have hadopted : Adopted x.2.heap k m c.pageCount :=
      ⟨hpos, ⟨_, hends.info hinfo, rfl⟩, hadopt.2.imp id fun hlist => hq.pages _ _ hlist⟩
    have hrest := wrapSynced_fair (hq.listed hadopt.1.listed) hadopted hr
    exact ⟨(hrest.after hq).between.after hadopt.1.between, hrest.listed⟩

theorem mappingHeap_heap (s : Maps) (context : ℕ) (a : HeapAnswers) :
    (mappingHeap s context a).2.heap = s.heap := by
  unfold mappingHeap
  split
  · rfl
  · split
    · rfl
    · split <;> rfl

theorem wrapPages_fair {physAddr : ℕ} (hl : Listed none s.heap)
    (hk : Holding s.heap k c.pageCount) (hr : wrapPages s c k physAddr = some r) :
    Fair True s.heap r.2.heap := by
  unfold wrapPages at hr
  dsimp only at hr
  rw [← mappingHeap_heap s c.context c.heap] at hl hk ⊢
  split at hr
  · exact wrapExit2_fair hl hk.held hr
  · obtain ⟨⟨m, u⟩, hu, hr⟩ := Option.bind_eq_some_iff.mp hr
    have hq := Maps.alloc_quiet hu listless_blank
    dsimp only at hr
    split at hr
    · exact (wrapExit2_fair (hq.listed hl) (hk.held.quiet hq) hr).after hq
    · rename_i h0
      cases (Maps.alloc_spec hu).2 with
      | inl hnone => exact absurd hnone.2.1 h0
      | inr hnew =>
        exact (wrapBuffer_fair (hq.listed hl) ⟨hk.held.quiet hq, hk.pages⟩
          (memInfoAt_new hnew.2) h0 hr).after hq

theorem listless_pageList : (Content.pageList n).Listless := by
  intro i hi
  cases hi

theorem wrapExtMemory_fair (hl : Listed none s.heap) (hr : wrapExtMemory s c = some r) :
    Fair True s.heap r.2.heap := by
  unfold wrapExtMemory at hr
  split at hr
  · unfold wrapList at hr
    cases hext : c.extSysPAddr with
    | none =>
      rw [hext] at hr
      rw [← Option.some.inj hr]
      exact Quiet.refl.fair hl
    | some physAddr =>
      rw [hext] at hr
      exact wrapPages_fair hl ⟨.inl rfl, fun h0 => absurd rfl h0⟩ hr
  · obtain ⟨⟨list, u⟩, hu, hr⟩ := Option.bind_eq_some_iff.mp hr
    have hq := Maps.alloc_quiet hu listless_pageList
    dsimp only at hr
    split at hr
    · rw [← Option.some.inj hr]
      exact hq.fair hl
    · rename_i h0
      cases (Maps.alloc_spec hu).2 with
      | inl hnone => exact absurd hnone.2.1 h0
      | inr hnew =>
        have hp := pending_alloc hl hnew.2
        cases hacquired : c.acquired with
        | none =>
          rw [hacquired] at hr
          exact (wrapExit1_fair (k := ⟨list, 0⟩) (hq.listed hl) (.inr hp) hr).after hq
        | some w =>
          rw [hacquired] at hr
          unfold wrapAcquire at hr
          dsimp only at hr
          split at hr
          · cases hr
          · rename_i hhandle
            have hfair := wrapPages_fair
              (s := { u with pinned := Function.update u.pinned w.handle true })
              (k := ⟨list, w.handle⟩) (hq.listed hl) ⟨.inr hp, fun _ => (not_or.mp hhandle).1⟩ hr
            exact hfair.after hq

variable {f : MapCall} {src : MemInfo} {list : ℕ}

theorem freeIfThere_quiet {size : ℕ} (hf : freeIfThere s p size = some t)
    (hq : p ≠ 0 → ∀ u, s.free p size = some u → Quiet s.heap u.heap) : Quiet s.heap t.heap := by
  unfold freeIfThere at hf
  split at hf
  · rw [← Option.some.inj hf]
    exact .refl
  · rename_i h0
    exact hq h0 t hf

theorem mapExit_fair (hl : Listed none s.heap) (hp : Pending s.heap list n) (hn : n ≤ 1048576)
    (hm : m = 0 ∨ memInfoAt s.heap m = some i) {z : MapData}
    (hd : d = 0 ∨ mapDataAt s.heap d = some z) (hr : mapExit s list m d e = some r) :
    Fair (n ≤ 1024) s.heap r.2.heap := by
  unfold mapExit at hr
  obtain ⟨u, hu, hr⟩ := Option.bind_eq_some_iff.mp hr
  obtain ⟨v, hv, hr⟩ := Option.bind_eq_some_iff.mp hr
  obtain ⟨w, hw, hr⟩ := Option.bind_eq_some_iff.mp hr
  rw [← Option.some.inj hr]
  unfold freeIfThere at hu
  rw [if_neg hp.pos] at hu
  have hfree := (Maps.free_spec hu).1
  have hclass : usesVmalloc sysPAddrSize = usesVmalloc (pageListSize n) ↔ n ≤ 1024 := by
    rw [usesVmalloc_sysPAddr, usesVmalloc_pageList hn]
    simp
  have hfirst := (free_list hfree hp.list).congr hclass
  have hlisted : Listed none u.heap := listed_of_free hl hfree fun q j hq hj =>
    absurd hj (hp.unowned q j hq)
  have hother (q : ℕ) (hq : pageListAt s.heap q = none) : u.heap.blocks q = s.heap.blocks q := by
    refine (Heap.free_spec hfree).others q fun heq => ?_
    rw [heq, hp.list] at hq
    cases hq
  have hm' : Quiet u.heap v.heap := freeIfThere_quiet hv fun h0 x hx => by
    have hinfo := hm.resolve_left h0
    rw [← memInfoAt_congr (hother m (pageListAt_of_memInfoAt hinfo))] at hinfo
    exact Maps.freeMem_quiet hinfo hx
  have hd' : Quiet v.heap w.heap := freeIfThere_quiet hw fun h0 x hx => by
    have hdata := hd.resolve_left h0
    obtain ⟨n', hn'⟩ := mapDataAt_eq_some.mp hdata
    rw [← hother d (pageListAt_of_mapDataAt hdata)] at hn'
    -- the memory info is another block
    have hkeep : v.heap.blocks d = u.heap.blocks d := by
      unfold freeIfThere at hv
      split at hv
      · rw [← Option.some.inj hv]
      · refine (Heap.free_spec (Maps.free_spec hv).1).others d fun heq => ?_
        obtain ⟨b, hb⟩ := (Heap.free_spec (Maps.free_spec hx).1).live
        rw [heq, (Heap.free_spec (Maps.free_spec hv).1).gone] at hb
        cases hb
    exact Maps.freeMapData_quiet (mapDataAt_eq_some.mpr ⟨n', by rw [hkeep]; exact hn'⟩) hx
  exact ⟨hfirst.before (hm'.trans hd').between, (hm'.trans hd').listed hlisted⟩

def MapCall.Fails (f : MapCall) (src : MemInfo) : Prop :=
  (src.pageCount ≠ 0 ∧ f.pagesFound = false) ∨ f.mapData = none ∨ f.memInfo = none ∨
    f.wrap = none

def MapCall.Small (f : MapCall) (src : MemInfo) : Prop := f.Fails src → src.pageCount ≤ 1024

theorem MapCall.small_of_fails (hf : f.Fails src) : src.pageCount ≤ 1024 ↔ f.Small src :=
  ⟨fun hle _ => hle, fun hall => hall hf⟩

theorem mapBuffer_fair {o : Option Buffer} {z : MapData} (hl : Listed none s.heap)
    (hp : Pending s.heap list src.pageCount) (hsrc : memInfoAt s.heap f.src = some src)
    (hne : m ≠ f.src) (hm : memInfoAt s.heap m = some blankInfo)
    (hd : mapDataAt s.heap d = some z) (hr : mapBuffer s f src list d m o = some r) :
    Fair (o = none → src.pageCount ≤ 1024) s.heap r.2.heap := by
  cases o with
  | none =>
    rw [← s.strand_heap f.stray] at hl hp hm hd ⊢
    exact (mapExit_fair hl hp (getPageCount_le _ _) (.inr hm) (.inr hd) hr).congr (by simp)
  | some b =>
    obtain ⟨u, hu, hr⟩ := Option.bind_eq_some_iff.mp hr
    obtain ⟨v, hv, hr⟩ := Option.bind_eq_some_iff.mp hr
    obtain ⟨w, hw, hr⟩ := Option.bind_eq_some_iff.mp hr
    obtain ⟨x, hx, hr⟩ := Option.bind_eq_some_iff.mp hr
    have hheap : u.heap = s.heap := by rw [(bmWrap_spec hu).2]
    have hwrite := (Maps.write_spec hv).1
    rw [hheap] at hwrite
    obtain ⟨hbetween, hlisted, -⟩ := listed_of_adopt hl hp (getPageCount_le _ _) hm hwrite rfl
      fun _ => rfl
    obtain ⟨-, -, -, hothers, -⟩ := Heap.write_spec hwrite
    have hsrc' : memInfoAt v.heap f.src = some src := by
      rw [memInfoAt_congr (hothers f.src hne.symm)]
      exact hsrc
    have hq := Maps.writeMem_quiet hsrc' hw fun _ => ⟨rfl, rfl, rfl⟩
    obtain ⟨-, -, -, hothers', -⟩ := Heap.write_spec (Maps.write_spec hw).1
    have hd' : mapDataAt w.heap d = some z := by
      obtain ⟨n', hn'⟩ := mapDataAt_eq_some.mp hd
      have hdm : d ≠ m := fun heq => by
        obtain ⟨z', hz'⟩ := memInfoAt_eq_some.mp hm
        rw [heq, hz'] at hn'
        cases hn'
      have hds : d ≠ f.src := fun heq => by
        obtain ⟨z', hz'⟩ := memInfoAt_eq_some.mp hsrc
        rw [heq, hz'] at hn'
        cases hn'
      exact mapDataAt_eq_some.mpr ⟨n', by rw [hothers' d hds, hothers d hdm]; exact hn'⟩
    have hrest := (hq.trans (Maps.writeMapData_quiet hd' hx)).trans (register_quiet hr)
    refine ⟨(hbetween.before hrest.between).congr ?_, hrest.listed hlisted⟩
    exact ⟨fun _ hnone => (by cases hnone), fun _ => trivial⟩

theorem mapInfo_fair {z : MapData} (hl : Listed none s.heap)
    (hp : Pending s.heap list src.pageCount) (hsrc : memInfoAt s.heap f.src = some src)
    (hd : mapDataAt s.heap d = some z) (hr : mapInfo s f src list d = some r) :
    Fair (f.memInfo = none ∨ f.wrap = none → src.pageCount ≤ 1024) s.heap r.2.heap := by
  unfold mapInfo at hr
  obtain ⟨⟨m, u⟩, hu, hr⟩ := Option.bind_eq_some_iff.mp hr
  have hq := Maps.alloc_quiet hu listless_blank
  have hgrows := Maps.alloc_grows hu
  have hd' : mapDataAt u.heap d = some z := by
    obtain ⟨n', hn'⟩ := mapDataAt_eq_some.mp hd
    exact mapDataAt_eq_some.mpr ⟨n', hgrows.blocks d _ hn'⟩
  dsimp only at hr
  split at hr
  · rename_i h0
    have hnone : f.memInfo = none := by
      cases (Maps.alloc_spec hu).2 with
      | inl hnone => exact hnone.1
      | inr hnew => exact absurd h0 hnew.2.pos
    have hexit := mapExit_fair (hq.listed hl) (hp.quiet hq) (getPageCount_le _ _) (m := 0)
      (i := blankInfo) (.inl rfl) (.inr hd') hr
    refine (hexit.after hq).congr ⟨fun hle _ => hle, fun hall => hall (.inl hnone)⟩
  · rename_i h0
    cases (Maps.alloc_spec hu).2 with
    | inl hnone => exact absurd hnone.2.1 h0
    | inr hnew =>
      have hne : m ≠ f.src := by
        intro heq
        obtain ⟨z', hz'⟩ := memInfoAt_eq_some.mp hsrc
        rw [← heq, hnew.2.fresh] at hz'
        cases hz'
      have hbuffer := mapBuffer_fair (hq.listed hl) (hp.quiet hq)
        (memInfoAt_of_grows hgrows hsrc) hne (memInfoAt_new hnew.2) hd' hr
      refine (hbuffer.after hq).congr ⟨fun hall hnone => ?_, fun hall hnone => hall (.inr hnone)⟩
      refine hall (hnone.resolve_left ?_)
      rw [hnew.1]
      exact Option.some_ne_none m

theorem mapPages_fair (hl : Listed none s.heap) (hp : Pending s.heap list src.pageCount)
    (hsrc : memInfoAt s.heap f.src = some src) (hr : mapPages s f src list = some r) :
    Fair (f.Small src) s.heap r.2.heap := by
  unfold mapPages at hr
  split at hr
  · rename_i hpages
    exact (mapExit_fair hl hp (getPageCount_le _ _) (m := 0) (d := 0) (i := blankInfo)
      (z := ⟨0, 0⟩) (.inl rfl) (.inl rfl) hr).congr (MapCall.small_of_fails (.inl hpages))
  · rename_i hpages
    obtain ⟨⟨d, u⟩, hu, hr⟩ := Option.bind_eq_some_iff.mp hr
    have hq := Maps.alloc_quiet hu fun i hi => by cases hi
    have hgrows := Maps.alloc_grows hu
    dsimp only at hr
    split at hr
    · rename_i h0
      have hnone : f.mapData = none := by
        cases (Maps.alloc_spec hu).2 with
        | inl hnone => exact hnone.1
        | inr hnew => exact absurd h0 hnew.2.pos
      have hexit := mapExit_fair (hq.listed hl) (hp.quiet hq) (getPageCount_le _ _) (m := 0)
        (d := 0) (i := blankInfo) (z := ⟨0, 0⟩) (.inl rfl) (.inl rfl) hr
      exact (hexit.after hq).congr (MapCall.small_of_fails (.inr (.inl hnone)))
    · rename_i h0
      cases (Maps.alloc_spec hu).2 with
      | inl hnone => exact absurd hnone.2.1 h0
      | inr hnew =>
        have hinfo := mapInfo_fair (hq.listed hl) (hp.quiet hq) (memInfoAt_of_grows hgrows hsrc)
          (mapDataAt_eq_some.mpr ⟨_, hnew.2.new⟩) hr
        refine (hinfo.after hq).congr ⟨fun hall hfails => ?_, fun hall hnone => ?_⟩
        · cases hfails with
          | inl h => exact absurd h hpages
          | inr h =>
            refine hall (h.resolve_left ?_)
            rw [hnew.1]
            exact Option.some_ne_none d
        · exact hall (.inr (.inr hnone))

def MapCall.Sized (s : Maps) (f : MapCall) : Prop :=
  ∀ src, f.src ≠ 0 → f.dstHeap ≠ 0 → memInfoAt s.heap f.src = some src → f.pageList ≠ none →
    f.Small src

theorem mapDeviceMemory_fair (hl : Listed none s.heap) (hr : mapDeviceMemory s f = some r) :
    Fair (f.Sized s) s.heap r.2.heap := by
  unfold mapDeviceMemory at hr
  split at hr
  · rename_i hbad
    rw [← Option.some.inj hr]
    refine (Quiet.refl.fair hl).congr ⟨fun _ src hsrc hheap => ?_, fun _ => trivial⟩
    exact absurd hbad (not_or.mpr ⟨hsrc, hheap⟩)
  · rename_i hgood
    obtain ⟨src, hsrc, hr⟩ := Option.bind_eq_some_iff.mp hr
    obtain ⟨⟨list, u⟩, hu, hr⟩ := Option.bind_eq_some_iff.mp hr
    have hq := Maps.alloc_quiet hu listless_pageList
    dsimp only at hr
    split at hr
    · rename_i h0
      rw [← Option.some.inj hr]
      refine (hq.fair hl).congr ⟨fun _ src' _ _ _ hlist => ?_, fun _ => trivial⟩
      cases (Maps.alloc_spec hu).2 with
      | inl hnone => exact absurd hnone.1 hlist
      | inr hnew => exact absurd h0 hnew.2.pos
    · rename_i h0
      cases (Maps.alloc_spec hu).2 with
      | inl hnone => exact absurd hnone.2.1 h0
      | inr hnew =>
        have hpages := mapPages_fair (hq.listed hl) (pending_alloc hl hnew.2)
          (memInfoAt_of_grows (Maps.alloc_grows hu) hsrc) hr
        refine (hpages.after hq).congr ⟨fun hsmall src' _ _ hsrc' _ => ?_, fun hall => ?_⟩
        · rw [← Option.some.inj (hsrc.symm.trans hsrc')]
          exact hsmall
        · obtain ⟨h1, h2⟩ := not_or.mp hgood
          refine hall src h1 h2 hsrc ?_
          rw [hnew.1]
          exact Option.some_ne_none list

theorem classWrap_quiet {c : ClassCall} {x : ClassBuffer} {o : Option Buffer}
    (hm : memInfoAt s.heap m = some blankInfo) (hr : classWrap s c x m o = some r) :
    Quiet s.heap r.2.heap := by
  cases o with
  | none =>
    obtain ⟨u, hu, hr⟩ := Option.map_eq_some_iff.mp hr
    rw [← hr]
    rw [← s.strand_heap c.stray] at hm ⊢
    exact Maps.freeMem_quiet hm hu
  | some b =>
    obtain ⟨u, hu, hr⟩ := Option.bind_eq_some_iff.mp hr
    obtain ⟨v, hv, hr⟩ := Option.bind_eq_some_iff.mp hr
    have hheap : u.heap = s.heap := by rw [(bmWrap_spec hu).2]
    rw [← hheap] at hm ⊢
    exact (Maps.writeMem_quiet hm hv fun hlist => absurd rfl hlist).trans (register_quiet hr)

theorem mapDeviceClassMemory_quiet {c : ClassCall} (hr : mapDeviceClassMemory s c = some r) :
    Quiet s.heap r.2.heap := by
  unfold mapDeviceClassMemory at hr
  split at hr
  · rw [← Option.some.inj hr]
    exact .refl
  · cases hb : c.bufferAddr with
    | none =>
      rw [hb] at hr
      rw [← Option.some.inj hr]
      exact .refl
    | some x =>
      rw [hb] at hr
      unfold classBuffer at hr
      dsimp only at hr
      rw [← mappingHeap_heap s c.context c.heap]
      split at hr
      · rw [← Option.some.inj hr]
        exact .refl
      · obtain ⟨⟨m, u⟩, hu, hr⟩ := Option.bind_eq_some_iff.mp hr
        have hq := Maps.alloc_quiet hu listless_blank
        dsimp only at hr
        split at hr
        · rw [← Option.some.inj hr]
          exact hq
        · rename_i h0
          cases (Maps.alloc_spec hu).2 with
          | inl hnone => exact absurd hnone.2.1 h0
          | inr hnew => exact hq.trans (classWrap_quiet (memInfoAt_new hnew.2) hr)

theorem allocRegister_quiet {c : AllocCall} {y : ℕ} (hr : allocRegister s c m y = some r) :
    Quiet s.heap r.2.heap := by
  unfold allocRegister at hr
  obtain ⟨i, hi, hr⟩ := Option.bind_eq_some_iff.mp hr
  obtain ⟨⟨p, u⟩, hu, hr⟩ := Option.bind_eq_some_iff.mp hr
  have hheap := registerRes_heap hu
  rw [← hheap] at hi ⊢
  dsimp only at hr
  split at hr
  · obtain ⟨v, hv, hr⟩ := Option.map_eq_some_iff.mp hr
    rw [← hr]
    exact freeDeviceMem_quiet hv
  · obtain ⟨v, hv, hr⟩ := Option.bind_eq_some_iff.mp hr
    rw [← Option.some.inj hr]
    exact Maps.writeMem_quiet hi hv fun _ => ⟨rfl, rfl, rfl⟩

theorem allocDeviceMemKM_quiet {c : AllocCall} (hr : allocDeviceMemKM s c = some r) :
    Quiet s.heap r.2.heap := by
  unfold allocDeviceMemKM at hr
  split at hr
  · rw [← Option.some.inj hr]
    exact .refl
  · obtain ⟨⟨m, u⟩, hu, hr⟩ := Option.bind_eq_some_iff.mp hr
    have hq := (allocDeviceMem_spec hu).1
    dsimp only at hr
    split at hr
    · rw [← Option.some.inj hr]
      exact hq
    · refine hq.trans ?_
      cases hsync : c.sync with
      | none =>
        rw [hsync] at hr
        exact allocRegister_quiet hr
      | some a =>
        rw [hsync] at hr
        obtain ⟨⟨y, v⟩, hv, hr⟩ := Option.bind_eq_some_iff.mp hr
        refine (allocSyncInfo_spec hv).1.trans ?_
        dsimp only at hr
        split at hr
        · obtain ⟨w, hw, hr⟩ := Option.map_eq_some_iff.mp hr
          rw [← hr]
          exact freeDeviceMem_quiet hw
        · exact allocRegister_quiet hr

/-- The pages that a memory info counts are on the side of those its list was made for. Only
    memory that was wrapped by its user addresses can have another count. -/
def Recounted (h : Heap Content) (i : MemInfo) : Prop :=
  i.psIntSysPAddr ≠ 0 → i.hOSWrapMem ≠ 0 →
    ∀ n, pageListAt h i.psIntSysPAddr = some n → (1024 < n ↔ 1024 < i.pageCount)

theorem Listed.weaken (hl : Listed none h) (m : ℕ) : Listed (some m) h :=
  ⟨hl.null, fun q j hq _ hj => hl.lists q j hq (by simp) hj, hl.apart⟩

theorem freePageList_sizes (hl : Listed none h) (hm : memInfoAt h m = some i)
    (hq : Quiet h s.heap) (hf : freePageList s i = some t) :
    Between usesVmalloc Content.size s.heap t.heap (Recounted h i) ∧ Listed (some m) t.heap ∧
      ∀ q, pageListAt s.heap q = none → t.heap.blocks q = s.heap.blocks q := by
  unfold freePageList freeIfThere at hf
  split at hf
  · rename_i h0
    rw [← Option.some.inj hf]
    refine ⟨Between.refl.congr ⟨fun _ hlist => absurd h0 hlist, fun _ => trivial⟩, ?_, fun _ _ => rfl⟩
    exact (hq.listed hl).weaken m
  · rename_i h0
    obtain ⟨n, hn, hle, hcount⟩ := hl.lists m i hm (by simp) h0
    have hn' := hq.pages _ n hn
    have hfree := (Maps.free_spec hf).1
    refine ⟨(free_list hfree hn').congr ?_, ?_, fun q hnone => ?_⟩
    · rw [usesVmalloc_pageList i.pageCount_le, usesVmalloc_pageList hle]
      constructor
      · intro heq _ _ n' hn''
        rw [← Option.some.inj (hn.symm.trans hn'')]
        exact (decide_eq_decide.mp heq).symm
      · intro hall
        by_cases hwrap : i.hOSWrapMem = 0
        · rw [hcount hwrap]
        · exact decide_eq_decide.mpr (hall h0 hwrap n hn).symm
    · refine listed_of_free (hq.listed hl) hfree fun q j hqj hj => ?_
      obtain ⟨j', hj', hlist, -⟩ := hq.owners q j hqj (hj ▸ h0)
      exact congrArg some (hl.apart m q i j' hm hj' h0 (by rw [hlist, hj]))
    · refine (Heap.free_spec hfree).others q fun heq => ?_
      rw [heq, hn'] at hnone
      cases hnone

theorem freeDeviceMem_info (hf : freeDeviceMem s p = some t) (hm : memInfoAt s.heap m = some i) :
    memInfoAt t.heap m = some i ∨ t.heap.blocks m = none := by
  cases freeDeviceMem_spec hf with
  | inl hnone =>
    rw [hnone.2]
    exact .inl hm
  | inr hfreed =>
    obtain ⟨j, hj⟩ := hfreed
    by_cases hmp : m = p
    · rw [hmp]
      exact .inr hj.frees.gone
    · rw [memInfoAt_congr (hj.frees.others m hmp)]
      exact .inl hm

theorem putSyncinfo_info {y : ℕ} (hp : putSyncinfo s y = some t)
    (hm : memInfoAt s.heap m = some i) :
    memInfoAt t.heap m = some i ∨ t.heap.blocks m = none := by
  unfold putSyncinfo at hp
  obtain ⟨x, hx, hp⟩ := Option.bind_eq_some_iff.mp hp
  obtain ⟨u, hu, hp⟩ := Option.bind_eq_some_iff.mp hp
  have hmu := memInfoAt_of_writeSync hx hu hm
  split at hp
  · unfold freeSyncInfo at hp
    obtain ⟨x', hx', hp⟩ := Option.bind_eq_some_iff.mp hp
    obtain ⟨v, hv, hp⟩ := Option.bind_eq_some_iff.mp hp
    have hfree := Heap.free_spec (Maps.free_spec hp).1
    cases freeDeviceMem_info hv hmu with
    | inl hmv =>
      by_cases hmy : m = y
      · rw [hmy]
        exact .inr hfree.gone
      · rw [memInfoAt_congr (hfree.others m hmy)]
        exact .inl hmv
    | inr hgone => exact .inr (hfree.gone_of_none hgone)
  · rw [← Option.some.inj hp]
    exact .inl hmu

theorem freeDeviceMem_listed (hl : Listed (some m) s.heap) (hm : memInfoAt s.heap m = some i)
    (hf : freeDeviceMem s m = some t) : Listed none t.heap := by
  unfold freeDeviceMem at hf
  split at hf
  · rename_i h0
    obtain ⟨z, hz⟩ := memInfoAt_eq_some.mp hm
    rw [h0, hl.null] at hz
    cases hz
  · obtain ⟨j, hj, hf⟩ := Option.bind_eq_some_iff.mp hf
    obtain ⟨u, hu, hf⟩ := Option.bind_eq_some_iff.mp hf
    have hheap : u.heap = s.heap := by rw [bmFree_spec hu]
    rw [← hheap] at hl hm
    exact listed_of_freeMem hl hm (Maps.free_spec hf).1

theorem unwrapExtMemoryCallBack_fair (hl : Listed none s.heap) (hm : memInfoAt s.heap m = some i)
    (hr : unwrapExtMemoryCallBack s m = some t) : Fair (Recounted s.heap i) s.heap t.heap := by
  unfold unwrapExtMemoryCallBack at hr
  obtain ⟨i', hi', hr⟩ := Option.bind_eq_some_iff.mp hr
  obtain rfl : i = i' := Option.some.inj (hm.symm.trans hi')
  obtain ⟨u, hu, hr⟩ := Option.bind_eq_some_iff.mp hr
  obtain ⟨v, hv, hr⟩ := Option.bind_eq_some_iff.mp hr
  obtain ⟨w, hw, hr⟩ := Option.bind_eq_some_iff.mp hr
  obtain ⟨x, hx, hr⟩ := Option.bind_eq_some_iff.mp hr
  have hput : Quiet s.heap u.heap ∧
      (memInfoAt u.heap m = some i ∨ u.heap.blocks m = none) := by
    split at hu
    · rw [← Option.some.inj hu]
      exact ⟨.refl, .inl hm⟩
    · exact ⟨putSyncinfo_quiet hu, putSyncinfo_info hu hm⟩
  obtain ⟨hsizes, hlisted, hothers⟩ := freePageList_sizes hl hm hput.1 hv
  -- the memory info is written next, so it is still there
  have hinfo : memInfoAt u.heap m = some i := by
    refine hput.2.resolve_right fun hgone => ?_
    have hnone : pageListAt u.heap m = none := by
      unfold pageListAt
      rw [hgone]
      rfl
    obtain ⟨b, hb, -⟩ := Heap.write_spec (Maps.write_spec hw).1
    rw [hothers m hnone, hgone] at hb
    cases hb
  have hinfo' : memInfoAt v.heap m = some i := by
    rw [memInfoAt_congr (hothers m (pageListAt_of_memInfoAt hinfo))]
    exact hinfo
  have hwrite := Maps.writeMem_quiet hinfo' hw fun _ => ⟨rfl, rfl, rfl⟩
  obtain ⟨b, -, hnew, -⟩ := Heap.write_spec (Maps.write_spec hw).1
  have hend := freeDeviceMem_listed (hwrite.listed hlisted) (memInfoAt_eq_some.mpr ⟨_, hnew⟩) hx
  rw [releasePages_heap hr]
  refine ⟨?_, hend⟩
  exact ((hsizes.after hput.1.between).before hwrite.between).before
    (freeDeviceMem_quiet hx).between

theorem unmapDeviceMemoryCallBack_fair {z : MapData} (hl : Listed none s.heap)
    (hd : mapDataAt s.heap d = some z) (hm : memInfoAt s.heap z.psMemInfo = some i)
    (hr : unmapDeviceMemoryCallBack s d = some t) : Fair (Recounted s.heap i) s.heap t.heap := by
  unfold unmapDeviceMemoryCallBack at hr
  obtain ⟨z', hz', hr⟩ := Option.bind_eq_some_iff.mp hr
  obtain rfl : z = z' := Option.some.inj (hd.symm.trans hz')
  obtain ⟨i', hi', hr⟩ := Option.bind_eq_some_iff.mp hr
  obtain rfl : i = i' := Option.some.inj (hm.symm.trans hi')
  obtain ⟨u, hu, hr⟩ := Option.bind_eq_some_iff.mp hr
  obtain ⟨v, hv, hr⟩ := Option.bind_eq_some_iff.mp hr
  obtain ⟨src, hsrc, hr⟩ := Option.bind_eq_some_iff.mp hr
  obtain ⟨w, hw, hr⟩ := Option.bind_eq_some_iff.mp hr
  obtain ⟨hsizes, hlisted, hothers⟩ := freePageList_sizes hl hm .refl hu
  have hinfo : memInfoAt u.heap z.psMemInfo = some i := by
    rw [memInfoAt_congr (hothers _ (pageListAt_of_memInfoAt hm))]
    exact hm
  have hend := freeDeviceMem_listed hlisted hinfo hv
  have hwrite := Maps.writeMem_quiet hsrc hw fun _ => ⟨rfl, rfl, rfl⟩
  obtain ⟨n, hn⟩ := mapDataAt_eq_some.mp hd
  -- nothing but the list and the memory info has gone
  have hdata : mapDataAt w.heap d = some z := by
    have hdu : u.heap.blocks d = some ⟨n, .mapData z⟩ := by
      rw [hothers d (pageListAt_of_mapDataAt hd)]
      exact hn
    have hdv : v.heap.blocks d = some ⟨n, .mapData z⟩ := by
      cases freeDeviceMem_spec hv with
      | inl hnone =>
        rw [hnone.2]
        exact hdu
      | inr hfreed =>
        obtain ⟨j, hj⟩ := hfreed
        rw [hj.frees.others d fun heq => ?_]
        · exact hdu
        · obtain ⟨k, hk⟩ := memInfoAt_eq_some.mp hinfo
          rw [← heq, hdu] at hk
          cases hk
    obtain ⟨b, -, -, hrest, -⟩ := Heap.write_spec (Maps.write_spec hw).1
    refine mapDataAt_eq_some.mpr ⟨n, ?_⟩
    rw [hrest d fun heq => ?_]
    · exact hdv
    · obtain ⟨k, hk⟩ := memInfoAt_eq_some.mp hsrc
      rw [← heq, hdv] at hk
      cases hk
  have hlast := hwrite.trans (Maps.freeMapData_quiet hdata hr)
  exact ⟨(hsizes.before (freeDeviceMem_quiet hv).between).before hlast.between,
    hlast.listed hend⟩

theorem exportDeviceMem_quiet (hr : exportDeviceMem s m = some t) : Quiet s.heap t.heap := by
  unfold exportDeviceMem at hr
  obtain ⟨i, hi, hr⟩ := Option.bind_eq_some_iff.mp hr
  split at hr
  · rw [← Option.some.inj hr]
    exact .refl
  · exact Maps.writeMem_quiet hi hr fun _ => ⟨rfl, rfl, rfl⟩

theorem freeInfo_quiet {y : ℕ} (hr : freeInfo s m y = some t) : Quiet s.heap t.heap := by
  unfold freeInfo at hr
  obtain ⟨v, hv, hr⟩ := Option.bind_eq_some_iff.mp hr
  split at hv
  · rw [← Option.some.inj hv] at hr
    exact freeDeviceMem_quiet hr
  · exact (freeSyncInfo_quiet hv).trans (freeDeviceMem_quiet hr)

theorem freeDeviceMemCallBack_quiet (hr : freeDeviceMemCallBack s m = some t) :
    Quiet s.heap t.heap := by
  unfold freeDeviceMemCallBack at hr
  obtain ⟨i, hi, hr⟩ := Option.bind_eq_some_iff.mp hr
  obtain ⟨u, hu, hr⟩ := Option.bind_eq_some_iff.mp hr
  refine (Maps.writeMem_quiet hi hu fun _ => ⟨rfl, rfl, rfl⟩).trans ?_
  split at hr
  · rw [← Option.some.inj hr]
    exact .refl
  · exact freeInfo_quiet hr

def Item.listOwner (s : Maps) (x : Item) : Option MemInfo :=
  match x.pfnFreeResource with
  | .unwrapExtMemory => memInfoAt s.heap x.pvParam
  | .unmapDeviceMemory =>
    (mapDataAt s.heap x.pvParam).bind fun z => memInfoAt s.heap z.psMemInfo
  | _ => none

def SideKept (s : Maps) : MapOp → Prop
  | .map c => c.Sized s
  | .release p => ∀ x i, s.items p = some x → x.listOwner s = some i → Recounted s.heap i
  | _ => True

theorem callBack_fair {x : Item} (hl : Listed none s.heap) (hr : callBack s x = some t) :
    Fair (∀ i, x.listOwner s = some i → Recounted s.heap i) s.heap t.heap := by
  have hnone (hquiet : Quiet s.heap t.heap) (hi : x.listOwner s = none) :
      Fair (∀ i, x.listOwner s = some i → Recounted s.heap i) s.heap t.heap := by
    refine (hquiet.fair hl).congr ⟨fun _ i hx => ?_, fun _ => trivial⟩
    rw [hi] at hx
    cases hx
  have hone (i : MemInfo) (hi : x.listOwner s = some i) :
      Recounted s.heap i ↔ ∀ j, x.listOwner s = some j → Recounted s.heap j := by
    constructor
    · intro hg j hj
      rw [← Option.some.inj (hi.symm.trans hj)]
      exact hg
    · intro hall
      exact hall i hi
  unfold callBack at hr
  cases hk : x.pfnFreeResource with
  | freeDeviceMem =>
    rw [hk] at hr
    exact hnone (freeDeviceMemCallBack_quiet hr) (by unfold Item.listOwner; rw [hk])
  | unmapDeviceClassMemory =>
    rw [hk] at hr
    exact hnone (freeDeviceMem_quiet hr) (by unfold Item.listOwner; rw [hk])
  | unwrapExtMemory =>
    rw [hk] at hr
    obtain ⟨i, hi, -⟩ := Option.bind_eq_some_iff.mp hr
    have howner : x.listOwner s = some i := by
      unfold Item.listOwner
      rw [hk]
      exact hi
    exact (unwrapExtMemoryCallBack_fair hl hi hr).congr (hone i howner)
  | unmapDeviceMemory =>
    rw [hk] at hr
    obtain ⟨z, hz, hrest⟩ := Option.bind_eq_some_iff.mp hr
    obtain ⟨i, hi, -⟩ := Option.bind_eq_some_iff.mp hrest
    have howner : x.listOwner s = some i := by
      unfold Item.listOwner
      rw [hk]
      exact Option.bind_eq_some_iff.mpr ⟨z, hz, hi⟩
    exact (unmapDeviceMemoryCallBack_fair hl hz hi hr).congr (hone i howner)

theorem release_fair (hl : Listed none s.heap) (hr : release s p = some t) :
    Fair (SideKept s (.release p)) s.heap t.heap := by
  unfold release at hr
  obtain ⟨x, hx, hr⟩ := Option.bind_eq_some_iff.mp hr
  have hfair := callBack_fair (s := { s with items := Function.update s.items p none }) hl hr
  refine hfair.congr ⟨fun hall y j hy hj => ?_, fun hall i hi => hall x i hx hi⟩
  rw [← Option.some.inj (hx.symm.trans hy)] at hj
  exact hall j hj

/-- Every call keeps the lists with their owners, and frees on the right side exactly as it
    should. -/
theorem mapStep_fair {op : MapOp} (hl : Listed none s.heap) (hr : mapStep s op = some r) :
    Fair (SideKept s op) s.heap r.2.heap := by
  cases op with
  | alloc c => exact (allocDeviceMemKM_quiet hr).fair hl
  | wrap c => exact wrapExtMemory_fair hl hr
  | map c => exact mapDeviceMemory_fair hl hr
  | mapClass c => exact (mapDeviceClassMemory_quiet hr).fair hl
  | exportMem m =>
    obtain ⟨t, ht, hr⟩ := Option.map_eq_some_iff.mp hr
    rw [← hr]
    exact (exportDeviceMem_quiet ht).fair hl
  | release p =>
    obtain ⟨t, ht, hr⟩ := Option.map_eq_some_iff.mp hr
    rw [← hr]
    exact release_fair hl ht

theorem listed_init : Listed none mapsInit.heap := by
  refine ⟨rfl, fun m i hm => ?_, fun m m' i i' hm => ?_⟩
  · cases hm
  · cases hm

end PvrServices.MapMemory
