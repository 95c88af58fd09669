import PvrServices.SharedPbCalls

set_option autoImplicit false

/-!
# The shared parameter buffer over runs

Processes connect, allocate memory, find, add and give up the buffer, and end, in any order. As
long as no add passes the same memory twice, the descriptor counts the references, its memory is
freed with the last one, and the lock is where its two variables say.
-/
namespace PvrServices.SharedPb
open KeyedList Resman Runs Words
variable {s : PbState} {km km' : Pb} {x x' : PbSys} {reg : Registry} {own : ℕ → Option ℕ}
  {refs : List Ref} {c m p : ℕ} {i : KernelMemInfo} {call : AddCall} {op : PbOp} {reply : PbReply}

def record (refs : List Ref) : PbOp × PbReply → List Ref
  | (.find c _, .found (.ok (some f))) => ⟨f.hSharedPBDesc, c⟩ :: refs
  | (.add c _, .added a) => addRef refs c a
  | (.unref _ p, _) => dropKey Ref.item refs p
  | (.exit c, _) => refs.filter fun r => r.context ≠ c
  | _ => refs

def placed (p : ℕ) : Bool := 0 < p && p < 4294967296

def PbSys.has (x : PbSys) (c m : ℕ) : Bool :=
  x.handles m = some c || x.psKernelSGXHostCtlMemInfo = some m && x.internalDevInfo c

/-- Memory that is handed out is not in use, contexts are used while they are connected, and calls
    name what their process has handles to. -/
def proper (x : PbSys) : PbOp → Bool
  | .connect _ mem => mem.all fun c => (x.km.res.contexts c).isNone
  | .alloc c _ _ m resItem => (x.km.res.contexts c).isSome && (x.km.pb.memInfos m).isNone &&
    resItem.all fun p => (x.km.res.items p).isNone
  | .free m => (x.handles m).isSome && (x.km.pb.memInfos m).all fun i =>
    i.kind = .allocDeviceMem || i.shared || i.hResItem.isSome
  | .exportDeviceMem c m => x.has c m && (x.km.pb.memInfos m).any fun i => !i.shared
  | .mapDeviceMemory m => (x.km.pb.memInfos m).any KernelMemInfo.inKernelBase
  | .unmapDeviceMemory m => 0 < x.mappings m && (x.km.pb.memInfos m).isSome
  | .devInitPart2 m => (x.handles m).isSome && (x.km.pb.memInfos m).any fun i => !i.shared
  | .getInternalDevInfo c => (x.km.res.contexts c).isSome && x.psKernelSGXHostCtlMemInfo.isSome
  | .find c call => (x.km.res.contexts c).isSome &&
    call.resItem.all fun p => (x.km.res.items p).isNone && placed p
  | .add c call => (x.km.res.contexts c).isSome && call.infos.all (x.has c) &&
    ([call.psSharedPBDescKernelMemInfo, call.psBlockKernelMemInfo].all fun m =>
      (x.km.pb.memInfos m).any KernelMemInfo.shared) &&
    ((call.psHWPBDescKernelMemInfo :: call.ppsSharedPBDescSubKernelMemInfos).all fun m =>
      (x.km.pb.memInfos m).any fun i => !i.shared) &&
    call.resItem.all fun p => placed p &&
      (registering x.km c call).all fun y => (y.res.items p).isNone
  | .unref c p => resManFindResourceByPtr x.km.res c p = some .ok &&
    (x.km.res.items p).any fun i => i.resType = .sharedPbDesc
  | .exit c => (x.km.res.contexts c).isSome

/-- Whether another process has a reference. -/
def referred (x : PbSys) (c : ℕ) : Prop :=
  ∃ d p, d ≠ c ∧ resManFindResourceByPtr x.km.res d p = some .ok ∧
    ((x.km.res.items p).any fun i => i.resType = .sharedPbDesc) = true

/-- An add names no memory twice and only memory of its process; what it does not adopt, and what
    the last reference takes with it, is not refused when it is freed. -/
def settles (x : PbSys) : PbOp → Prop
  | .add c call => call.infos.Nodup ∧ (∀ m ∈ call.infos, x.handles m = some c) ∧
    (¬adoptsInfos x.km.pb c call → ∀ m ∈ call.infos, x.km.pb.frees m = true)
  | .unref _ _ => (∀ b ∈ x.km.pb.psStubPBDescListKM, ∀ stub, x.km.pb.stubs b = some stub →
    stub.ui32RefCount = 1) → Yields x.km.pb
  | .exit c => ¬referred x c → Yields x.km.pb
  | _ => True

/-- New memory of `c`, with the item that was registered for it, if one was. -/
theorem Good.newMem (h : Good km reg own refs) (hm : km.pb.memInfos m = none) {item : Option ℕ}
    {res : ResList} {reg' : Registry} (kind : MemKind) (attribs : MemAttribs) (ht : Tracks res reg')
    (hmine : ∀ p, item = some p → reg p = none ∧ reg' p = some (memRegistration c kind m))
    (hothers : ∀ p, item ≠ some p → reg' p = reg p) :
    Good ⟨res, km.pb.setMem m (newInfo kind attribs item)⟩ reg'
      (Function.update own m (some c)) refs := by
  have hfree (n d : ℕ) (hn : own n = some d) : n ≠ m := fun hnm => by
    obtain ⟨i, hi, -⟩ := h.items.owned n d hn
    rw [hnm, hm] at hi
    cases hi
  have hkeep {q : ℕ} {g : Registration} (hq : reg q = some g) : reg' q = some g := by
    have hne : item ≠ some q := fun hiq => by
      rw [(hmine q hiq).1] at hq
      cases hq
    rw [hothers q hne]
    exact hq
  refine ⟨ht, ⟨?_, ?_, ?_, h.items.nodup, h.items.placed, ?_⟩, h.whole.empty, fun hne => ?_⟩
  · intro q g hq
    by_cases hiq : item = some q
    · rw [(hmine q hiq).2, Option.some.injEq] at hq
      exact .inl ⟨m, c, newInfo kind attribs item, Function.update_self ..,
        Function.update_self .., hiq, hq.symm⟩
    · rw [hothers q hiq] at hq
      cases h.items.registered q g hq with
      | inl hold =>
        obtain ⟨n, d, i, hn, hi, hrest⟩ := hold
        have hnm := hfree n d hn
        exact .inl ⟨n, d, i, (Function.update_of_ne hnm ..).trans hn,
          (Function.update_of_ne hnm ..).trans hi, hrest⟩
      | inr hrest => exact .inr hrest
  · intro n d hn
    by_cases hnm : n = m
    · rw [hnm, Function.update_self, Option.some.injEq] at hn
      rw [hnm, ← hn]
      exact ⟨newInfo kind attribs item, Function.update_self .., fun q hq => (hmine q hq).2⟩
    · rw [Function.update_of_ne hnm] at hn
      obtain ⟨i, hi, hall⟩ := h.items.owned n d hn
      exact ⟨i, (Function.update_of_ne hnm ..).trans hi, fun q hq => hkeep (hall q hq)⟩
  · intro r hr
    obtain ⟨b, hb, hreg⟩ := h.items.held r hr
    exact ⟨b, hb, hkeep hreg⟩
  · cases h.items.lock with
    | inl hnone => exact .inl hnone
    | inr hheld =>
      obtain ⟨q, d, hq, hd, hreg⟩ := hheld
      exact .inr ⟨q, d, hq, hd, hkeep hreg⟩
  · obtain ⟨b, stub, hlist, hstub, honly, hcount, hinfos, hmem⟩ := h.whole.stub hne
    refine ⟨b, stub, hlist, hstub, honly, hcount, hinfos, fun n hn => ?_⟩
    obtain ⟨hown, i, hi, hitem⟩ := hmem n hn
    have hnm : n ≠ m := fun hnm => by
      rw [hnm, hm] at hi
      cases hi
    exact ⟨(Function.update_of_ne hnm ..).trans hown, i,
      (Function.update_of_ne hnm ..).trans hi, hitem⟩

theorem Plain.newMem {kind : MemKind} {attribs : MemAttribs} (hold : Plain s)
    (hexported : attribs.exported = false) (hkind : kind.plain = true) (m : ℕ) (item : Option ℕ) :
    Plain (s.setMem m (newInfo kind attribs item)) := by
  intro n i hi
  by_cases hnm : n = m
  · rw [hnm, setMem_eq, withMem_self, Option.some.injEq] at hi
    rw [← hi, newInfo, hexported, Bool.and_false]
    exact ⟨rfl, hkind⟩
  · rw [setMem_eq, withMem_of_ne hnm] at hi
    exact hold n i hi

theorem Good.alloc (h : Good km reg own refs) (hc : (km.res.contexts c).isSome = true)
    (hm : km.pb.memInfos m = none) (kind : MemKind) (attribs : MemAttribs) {resItem : Option ℕ}
    (hp : ∀ p, resItem = some p → km.res.items p = none) :
    (∃ e, allocInfo km c kind attribs m resItem = some (.error e, km)) ∨
      ∃ item res reg', allocInfo km c kind attribs m resItem =
          some (.ok m, ⟨res, km.pb.setMem m (newInfo kind attribs item)⟩) ∧
        Good ⟨res, km.pb.setMem m (newInfo kind attribs item)⟩ reg'
          (Function.update own m (some c)) refs := by
  have hitemless : Good ⟨km.res, km.pb.setMem m (newInfo kind attribs none)⟩ reg
      (Function.update own m (some c)) refs :=
    h.newMem hm kind attribs h.tracks (fun _ hp => by cases hp) fun _ _ => rfl
  by_cases hman : (decide (kind = .allocDeviceMem) && attribs.noResman) = true
  · exact .inr ⟨none, km.res, reg, if_pos hman, hitemless⟩
  · cases hitem : resItem with
    | none =>
      by_cases hkind : kind = .allocDeviceMem
      · refine .inl ⟨.errorOutOfMemory, ?_⟩
        rw [allocInfo, if_neg hman]
        simp [resManRegisterRes, hkind]
      · refine .inr ⟨none, km.res, reg, ?_, hitemless⟩
        rw [allocInfo, if_neg hman]
        simp [resManRegisterRes, hkind]
    | some p =>
      have hfree := hp p hitem
      have hcontext : (km.res.contexts (memRegistration c kind m).context).isSome = true := by
        rw [memRegistration_context]
        exact hc
      obtain ⟨res, hreg, htracks⟩ := h.tracks.register hcontext hfree
      rw [memRegistration_context] at hreg
      refine .inr ⟨some p, res, _, ?_, h.newMem hm kind attribs htracks (fun q hq => ?_)
        fun q hq => ?_⟩
      · rw [allocInfo, if_neg hman]
        simp [hreg]
      · rw [← Option.some.inj hq]
        exact ⟨h.tracks.fresh hfree, Function.update_self ..⟩
      · exact Function.update_of_ne (fun hqp => hq (by rw [hqp])) ..

theorem Good.free (h : Good km reg own refs) (hm : own m = some c) (shared : Bool) :
    ∃ res reg' i v, freeAs km (shared, m) = some ⟨res, km.pb.withMem m v⟩ ∧
      km.pb.memInfos m = some i ∧ Drops km.pb m i v ∧
      Good ⟨res, km.pb.withMem m v⟩ reg' (Function.update own m none) refs := by
  obtain ⟨res, reg', i, v, hstep, hi, hdrops, htracks, hitems⟩ :=
    h.items.freeAs h.tracks hm shared
  exact ⟨res, reg', i, v, hstep, hi, hdrops, htracks, hitems, h.whole.withMem hm v⟩

/-- Exporting and mapping leave the item of the memory and its kind. -/
theorem Good.setInfo (h : Good km reg own refs) (hi : km.pb.memInfos m = some i)
    {j : KernelMemInfo} (hitem : j.hResItem = i.hResItem) (hkind : j.kind = i.kind) :
    Good { km with pb := km.pb.setMem m j } reg own refs := by
  have hold {n : ℕ} {k : KernelMemInfo} (hk : km.pb.memInfos n = some k) :
      ∃ k', (km.pb.setMem m j).memInfos n = some k' ∧ k'.hResItem = k.hResItem ∧
        k'.kind = k.kind := by
    by_cases hnm : n = m
    · rw [hnm, hi, Option.some.injEq] at hk
      rw [hnm, ← hk]
      exact ⟨j, Function.update_self .., hitem, hkind⟩
    · exact ⟨k, (Function.update_of_ne hnm ..).trans hk, rfl, rfl⟩
  refine ⟨h.tracks, ⟨fun p g hp => ?_, fun n d hn => ?_, h.items.held, h.items.nodup,
    h.items.placed, h.items.lock⟩, h.whole.empty, fun hne => ?_⟩
  · cases h.items.registered p g hp with
    | inl hmine =>
      obtain ⟨n, d, k, hn, hk, hkp, hg⟩ := hmine
      obtain ⟨k', hk', hsame, hkind⟩ := hold hk
      exact .inl ⟨n, d, k', hn, hk', hsame.trans hkp, by rw [hkind, hg]⟩
    | inr hrest => exact .inr hrest
  · obtain ⟨k, hk, hall⟩ := h.items.owned n d hn
    obtain ⟨k', hk', hsame, hkind⟩ := hold hk
    rw [← hsame, ← hkind] at hall
    exact ⟨k', hk', hall⟩
  · obtain ⟨b, stub, hlist, hstub, honly, hcount, hinfos, hmem⟩ := h.whole.stub hne
    refine ⟨b, stub, hlist, hstub, honly, hcount, hinfos, fun n hn => ?_⟩
    obtain ⟨hown, k, hk, hnone⟩ := hmem n hn
    obtain ⟨k', hk', hsame, -⟩ := hold hk
    exact ⟨hown, k', hk', hsame.trans hnone⟩

def findRef (refs : List Ref) (c : ℕ) : Except PvrsrvError (Option Found) → List Ref
  | .ok (some f) => ⟨f.hSharedPBDesc, c⟩ :: refs
  | _ => refs

def Finds (km : Pb) (own : ℕ → Option ℕ) (refs : List Ref) (c : ℕ) (call : FindCall) : Prop :=
  ∃ a km' reg', sgxFindSharedPBDescKM km c call = some (a, km') ∧
    Good km' reg' own (findRef refs c a) ∧ Kept km.pb km'.pb ∧
    (∀ d, km.pb.psPerProcCreateSharedPB = some d → km'.pb.psPerProcCreateSharedPB = some d) ∧
    Shrinks km.pb km'.pb

theorem Good.find (h : Good km reg own refs) (hc : (km.res.contexts c).isSome = true)
    {call : FindCall} (hitem : ∀ p, call.resItem = some p →
      km.res.items p = none ∧ 0 < p ∧ p < 4294967296) : Finds km own refs c call := by
  have hsame (e : PvrsrvError) (hstep : sgxFindSharedPBDescKM km c call = some (.error e, km)) :
      Finds km own refs c call :=
    ⟨.error e, km, reg, hstep, h, Kept.of_stubs rfl, fun _ hd => hd, fun _ hb => hb, .of_mem rfl⟩
  cases hlist : km.pb.psStubPBDescListKM with
  | cons b l =>
    cases hsub : call.subMem with
    | false => exact hsame .errorOutOfMemory (by simp [sgxFindSharedPBDescKM, hlist, hsub])
    | true =>
      cases hres : call.resItem with
      | none =>
        exact hsame .errorGeneric
          (by simp [sgxFindSharedPBDescKM, hlist, hsub, resManRegisterRes, hres])
      | some p =>
        obtain ⟨hfree, hpos, hlt⟩ := hitem p hres
        obtain ⟨res, stub, hstub, hreg, hgood⟩ := h.refer hc hfree hpos hlt
          (b := b) (by rw [hlist]; exact List.mem_cons_self)
        let stub' : StubPbDesc := { stub with ui32RefCount := u32 (stub.ui32RefCount + 1) }
        refine ⟨.ok (some ⟨p, stub.psSharedPBDescKernelMemInfo, stub.psHWPBDescKernelMemInfo,
          stub.psBlockKernelMemInfo, stub.ppsSubKernelMemInfos⟩), ⟨res, km.pb.setStub b stub'⟩, _,
          ?_, hgood, .of_update hstub rfl rfl, fun _ hd => hd,
          fun _ => stubs_none_of_update hstub rfl, .of_mem rfl⟩
        simp [sgxFindSharedPBDescKM, hlist, hsub, hres, hreg, hstub, stub']
  | nil =>
    cases hlock : call.bLockOnFailure with
    | false =>
      refine ⟨.ok none, km, reg, ?_, h, Kept.of_stubs rfl, fun _ hd => hd, fun _ hb => hb,
        .of_mem rfl⟩
      simp [sgxFindSharedPBDescKM, hlist, hlock]
    | true =>
      cases hheld : km.pb.psResItemCreateSharedPB with
      | some q =>
        exact hsame .errorProcessingBlocked (by simp [sgxFindSharedPBDescKM, hlist, hlock, hheld])
      | none =>
        have hproc : km.pb.psPerProcCreateSharedPB = none := by
          cases h.items.lock with
          | inl hnone => exact hnone.2
          | inr hsome =>
            obtain ⟨q, d, hq, -⟩ := hsome
            rw [hheld] at hq
            cases hq
        cases hres : call.resItem with
        | none =>
          refine hsame .errorGeneric ?_
          simp only [sgxFindSharedPBDescKM, hlist, hlock, hheld, hres, resManRegisterRes,
            Bool.not_true, Bool.false_eq_true, if_false, Option.isNone_none, if_true,
            Option.bind_eq_bind, Option.bind_some]
          rw [← hheld, ← hlist]
        | some p =>
          obtain ⟨res, hreg, hgood⟩ := h.takeLock hc (hitem p hres).1 hheld
          refine ⟨.ok none, ⟨res, km.pb.lockedBy (some p) (some c)⟩, _, ?_, hgood,
            Kept.of_stubs rfl, fun d hd => ?_, fun _ hb => hb, .of_mem rfl⟩
          · simp [sgxFindSharedPBDescKM, hlist, hlock, hheld, hres, hreg, PbState.lockedBy]
          · rw [hproc] at hd
            cases hd

/-- What is left once a process has no references, no lock and no memory. -/
theorem Items.restrict (h : Items s reg own refs) (hrefs : ∀ r ∈ refs, r.context ≠ c)
    (hlock : s.psPerProcCreateSharedPB ≠ some c) :
    Items s (fun p => (reg p).filter fun g => g.context ≠ c)
      (fun m => (own m).filter fun d => d ≠ c) refs := by
  have hkeep {p : ℕ} {g : Registration} (hp : reg p = some g) (hg : g.context ≠ c) :
      (reg p).filter (fun g => g.context ≠ c) = some g := by
    rw [hp, Option.filter_some, if_pos (decide_eq_true hg)]
  constructor
  case registered =>
    intro p g hp
    obtain ⟨hp, hg⟩ := Option.filter_eq_some_iff.mp hp
    have hgc : g.context ≠ c := of_decide_eq_true hg
    cases h.registered p g hp with
    | inl hmine =>
      obtain ⟨m, d, i, hm, hi, hip, hgd⟩ := hmine
      have hdc : d ≠ c := fun hdc => hgc (by rw [hgd, memRegistration_context, hdc])
      refine .inl ⟨m, d, i, ?_, hi, hip, hgd⟩
      rw [hm, Option.filter_some, if_pos (decide_eq_true hdc)]
    | inr hrest => exact .inr hrest
  case owned =>
    intro m d hm
    obtain ⟨hm, hd⟩ := Option.filter_eq_some_iff.mp hm
    obtain ⟨i, hi, hall⟩ := h.owned m d hm
    refine ⟨i, hi, fun p hp => hkeep (hall p hp) ?_⟩
    rw [memRegistration_context]
    exact of_decide_eq_true hd
  case held =>
    intro r hr
    obtain ⟨b, hb, hreg⟩ := h.held r hr
    exact ⟨b, hb, hkeep hreg (hrefs r hr)⟩
  case nodup => exact h.nodup
  case placed => exact h.placed
  case lock =>
    cases h.lock with
    | inl hnone => exact .inl hnone
    | inr hheld =>
      obtain ⟨p, d, hp, hd, hreg⟩ := hheld
      have hdc : d ≠ c := fun hdc => hlock (hdc ▸ hd)
      exact .inr ⟨p, d, hp, hd, hkeep hreg hdc⟩

theorem Whole.restrict {own' : ℕ → Option ℕ} (h : Whole s own refs)
    (hown : ∀ m, own m = none → own' m = none) : Whole s own' refs := by
  refine ⟨h.empty, fun hne => ?_⟩
  obtain ⟨b, stub, hlist, hstub, honly, hcount, hinfos, hmem⟩ := h.stub hne
  exact ⟨b, stub, hlist, hstub, honly, hcount, hinfos, fun m hm =>
    ⟨hown m (hmem m hm).1, (hmem m hm).2⟩⟩

structure Sweeping (s₀ : PbState) (own₀ : ℕ → Option ℕ) (refs₀ : List Ref) (c : ℕ) (reg : Registry)
    (s : PbState) (own : ℕ → Option ℕ) (refs : List Ref) : Prop where
  items : Items s reg own refs
  whole : Whole s own refs
  others : refs.filter (fun r => r.context ≠ c) = refs₀.filter fun r => r.context ≠ c
  owned : ∀ m d, d ≠ c → (own m = some d ↔ own₀ m = some d)
  kept : Kept s₀ s
  shrinks : Shrinks s₀ s
  lock : s.psPerProcCreateSharedPB = s₀.psPerProcCreateSharedPB ∨
    s.psPerProcCreateSharedPB = none ∧ s₀.psPerProcCreateSharedPB = some c
  yields : (∀ r ∈ refs₀, r.context = c) → Yields s

theorem Sweeping.step {s₀ : PbState} {own₀ : ℕ → Option ℕ} {refs₀ : List Ref} {g : Registration}
    (h : Sweeping s₀ own₀ refs₀ c reg s own refs) (hp : reg p = some g) (hgc : g.context = c) :
    ∃ s', pbCallBack (g.call p) s = some s' ∧ ∃ own' refs',
      Sweeping s₀ own₀ refs₀ c (Function.update reg p none) s' own' refs' := by
  cases h.items.registered p g hp with
  | inl hmine =>
    obtain ⟨m, d, i, hm, hi, hip, hg⟩ := hmine
    rw [hg, memRegistration_context] at hgc
    obtain ⟨v, hcall, hdrops⟩ := memRegistration_callBack d p hi
    have hgive := h.items.give hm hi v none fun e he => by cases he
    rw [hip, without_some] at hgive
    have hless := hdrops.shrinks hi
    refine ⟨s.withMem m v, by rw [hg]; exact hcall, Function.update own m none, refs, hgive,
      h.whole.withMem hm v, h.others, ?_, h.kept.trans (Kept.of_stubs rfl) hless,
      h.shrinks.trans hless, h.lock, fun hall => (h.yields hall).withMem h.whole hm v⟩
    intro n e he
    by_cases hnm : n = m
    · rw [hnm, Function.update_self, ← h.owned m e he, hm, hgc]
      simp [Ne.symm he]
    · rw [Function.update_of_ne hnm]
      exact h.owned n e he
  | inr hrest =>
    cases hrest with
    | inl href =>
      obtain ⟨r, hr, b, hrp, hg, hb⟩ := href
      have hrc : r.context = c := by
        rw [hg] at hgc
        exact hgc
      have hlast (hone : refs.length = 1) : Yields s := by
        apply h.yields
        have hnone : refs.filter (fun r => r.context ≠ c) = [] := by
          rw [List.length_eq_one_iff] at hone
          obtain ⟨v, hv⟩ := hone
          rw [hv, List.mem_singleton] at hr
          simp [hv, ← hr, hrc]
        rw [h.others] at hnone
        intro v hv
        simpa using List.filter_eq_nil_iff.mp hnone v hv
      obtain ⟨s', hcall, hitems, hwhole, hkept, hshrinks, hproc, hyields⟩ :=
        h.items.unref h.whole hr hb hlast
      rw [hrp] at hcall hitems hwhole
      refine ⟨s', by rw [hg]; exact hcall, own, _, hitems, hwhole, ?_, h.owned,
        h.kept.trans hkept hshrinks, h.shrinks.trans hshrinks, by rw [hproc]; exact h.lock,
        fun hall => hyields (h.yields hall)⟩
      rw [← h.others, dropKey, List.filter_filter]
      apply List.filter_congr
      intro v hv
      by_cases hvr : v.item = r.item
      · have hvr' : v = r := List.inj_on_of_nodup_map h.items.nodup hv hr hvr
        simp [hvr', hrc]
      · simp [← hrp, hvr]
    | inr hlock =>
      obtain ⟨d, hg, hitem, hproc⟩ := hlock
      rw [hg] at hp hgc
      obtain ⟨hcall, hitems⟩ := h.items.unlock hp
      refine ⟨s.lockedBy none none, by rw [hg]; exact hcall, own, refs, hitems,
        h.whole.lockedBy none none, h.others, h.owned, h.kept.trans (Kept.of_stubs rfl)
          ⟨fun _ hb => hb, .of_mem rfl⟩, h.shrinks, .inr ⟨rfl, ?_⟩, h.yields⟩
      have hdc : d = c := hgc
      cases h.lock with
      | inl hsame =>
        rw [hsame, hdc] at hproc
        exact hproc
      | inr hnone =>
        rw [hnone.1] at hproc
        cases hproc

theorem Good.exit (h : Good km reg own refs) (hc : (km.res.contexts c).isSome = true)
    (hyields : (∀ r ∈ refs, r.context = c) → Yields km.pb) :
    ∃ km' reg', disconnectHosted pbCallBack km.res km.pb c = some (km'.res, km'.pb) ∧
      Good km' reg' (fun m => (own m).filter fun d => d ≠ c)
        (refs.filter fun r => r.context ≠ c) ∧ Kept km.pb km'.pb ∧ Shrinks km.pb km'.pb ∧
      (∀ d, d ≠ c → km.pb.psPerProcCreateSharedPB = some d →
        km'.pb.psPerProcCreateSharedPB = some d) ∧
      (km.pb.psPerProcCreateSharedPB = some c → km'.pb.psResItemCreateSharedPB = none ∧
        km'.pb.psPerProcCreateSharedPB = none) := by
  obtain ⟨res, pb, hs, htracks, own', left, hsweep⟩ := h.tracks.sweepHosted hc
    (fun r s => ∃ own' left, Sweeping km.pb own refs c r s own' left)
    ⟨own, refs, h.items, h.whole, rfl, fun _ _ _ => Iff.rfl, Kept.of_stubs rfl,
      ⟨fun _ hb => hb, .of_mem rfl⟩, .inl rfl, hyields⟩
    fun r p g s hI hp hgc _ _ => by
      obtain ⟨own', left, hsweep⟩ := hI
      exact hsweep.step hp hgc
  have hgone (p : ℕ) (g : Registration) (hp : (reg p).filter
      (fun g => ¬(g.context = c ∧ g.resType ≠ .sharedMemInfo)) = some g)
      (htype : g.resType ≠ .sharedMemInfo) : g.context ≠ c := by
    have hnot := (Option.filter_eq_some_iff.mp hp).2
    have hnot' : ¬(g.context = c ∧ g.resType ≠ .sharedMemInfo) := of_decide_eq_true hnot
    exact fun hgc => hnot' ⟨hgc, htype⟩
  have hleft (r : Ref) (hr : r ∈ left) : r.context ≠ c := by
    obtain ⟨b, -, hreg⟩ := hsweep.items.held r hr
    exact hgone r.item _ hreg ResmanType.noConfusion
  have hlock : pb.psPerProcCreateSharedPB ≠ some c := by
    cases hsweep.items.lock with
    | inl hnone =>
      rw [hnone.2]
      exact (Option.some_ne_none c).symm
    | inr hheld =>
      obtain ⟨p, d, -, hd, hreg⟩ := hheld
      rw [hd]
      exact fun hdc => hgone p _ hreg ResmanType.noConfusion (Option.some.inj hdc)
  have hrefs : left = refs.filter fun r => r.context ≠ c := by
    rw [← hsweep.others]
    exact (List.filter_eq_self.mpr fun r hr => decide_eq_true (hleft r hr)).symm
  have hreg : (fun p => ((reg p).filter fun g =>
        ¬(g.context = c ∧ g.resType ≠ .sharedMemInfo)).filter fun g => g.context ≠ c) =
      fun p => (reg p).filter fun g => g.context ≠ c := by
    funext p
    cases reg p with
    | none => rfl
    | some g =>
      by_cases hgc : g.context = c
      · by_cases htype : g.resType = .sharedMemInfo <;> simp [Option.filter, hgc, htype]
      · simp [Option.filter, hgc]
  have hown : (fun m => (own' m).filter fun d => d ≠ c) = fun m => (own m).filter fun d => d ≠ c := by
    funext m
    apply Option.ext
    intro d
    rw [Option.filter_eq_some_iff, Option.filter_eq_some_iff]
    constructor
    · exact fun hd => ⟨(hsweep.owned m d (of_decide_eq_true hd.2)).mp hd.1, hd.2⟩
    · exact fun hd => ⟨(hsweep.owned m d (of_decide_eq_true hd.2)).mpr hd.1, hd.2⟩
  have hitems := hsweep.items.restrict hleft hlock
  rw [hreg, hown] at hitems
  rw [hrefs] at hitems
  refine ⟨⟨res, pb⟩, _, hs, ⟨htracks, hitems, ?_⟩, hsweep.kept, hsweep.shrinks,
    fun d hd hheld => ?_, fun hheld => ?_⟩
  · have hwhole := hsweep.whole
    rw [hrefs] at hwhole
    refine hwhole.restrict fun m hm => ?_
    cases hmine : own m with
    | none => rfl
    | some d =>
      by_cases hdc : d = c
      · simp [Option.filter, hdc]
      · rw [(hsweep.owned m d hdc).mpr hmine] at hm
        cases hm
  · cases hsweep.lock with
    | inl hsame => exact hsame.trans hheld
    | inr hnone =>
      rw [hheld, Option.some.injEq] at hnone
      exact absurd hnone.2 hd
  · cases hsweep.items.lock with
    | inl hnone => exact hnone
    | inr hsome =>
      obtain ⟨p, d, -, hd, -⟩ := hsome
      cases hsweep.lock with
      | inl hsame => exact absurd (hsame.trans hheld) hlock
      | inr hnone =>
        rw [hnone.1] at hd
        cases hd

/-- There is a descriptor exactly while there are references: it counts them, and its memory is
    there. The items for the descriptor are the references and the one for the lock is its holder's;
    the two variables of the lock are both set or both clear. -/
structure Sound (x : PbSys) (refs : List Ref) : Prop where
  descriptor : (refs = [] ∧ x.km.pb.psStubPBDescListKM = [] ∧ ∀ b, x.km.pb.stubs b = none) ∨
    ∃ b stub, x.km.pb.psStubPBDescListKM = [b] ∧ x.km.pb.stubs b = some stub ∧
      (∀ e, (x.km.pb.stubs e).isSome = true → e = b) ∧ 0 < refs.length ∧
      stub.ui32RefCount = refs.length ∧ ∀ m ∈ stub.infos, (x.km.pb.memInfos m).isSome = true
  nodup : (refs.map Ref.item).Nodup
  listed : ∃ reg, Tracks x.km.res reg ∧
    (∀ r ∈ refs, ∃ b, x.km.pb.psStubPBDescListKM = [b] ∧ reg r.item = some (r.registration b)) ∧
    (∀ p g, reg p = some g → g.resType = .sharedPbDesc → p ∈ refs.map Ref.item) ∧
    (∀ p g, reg p = some g → g.resType = .sharedPbDescCreateLock →
      x.km.pb.psResItemCreateSharedPB = some p ∧
      x.km.pb.psPerProcCreateSharedPB = some g.context) ∧
    ((x.km.pb.psResItemCreateSharedPB = none ∧ x.km.pb.psPerProcCreateSharedPB = none) ∨
      ∃ p c, x.km.pb.psResItemCreateSharedPB = some p ∧ x.km.pb.psPerProcCreateSharedPB = some c ∧
        reg p = some (lockRegistration c))

/-- A descriptor that goes takes its memory with it; the lock stays with its holder until that
    one adds or ends, and then it is free. -/
structure Handled (x x' : PbSys) (op : PbOp) (reply : PbReply) : Prop where
  kept : Kept x.km.pb x'.km.pb
  lock : ∀ d, x.km.pb.psPerProcCreateSharedPB = some d →
    x'.km.pb.psPerProcCreateSharedPB = some d ∨ op = .exit d ∨ ∃ call, op = .add d call
  givenUp : ∀ d, x.km.pb.psPerProcCreateSharedPB = some d →
    (op = .exit d ∨ ∃ call, op = .add d call) →
      x'.km.pb.psResItemCreateSharedPB = none ∧ x'.km.pb.psPerProcCreateSharedPB = none
  added : ∀ c call, op = .add c call → ∃ a, reply = .added a ∧ Added x.km x'.km c call a

theorem Good.sound (h : Good x.km reg x.handles refs) : Sound x refs := by
  refine ⟨?_, h.items.nodup, reg, h.tracks, h.items.held, fun p g hp hg => ?_, fun p g hp hg => ?_,
    h.items.lock⟩
  · by_cases hnil : refs = []
    · exact .inl ⟨hnil, h.whole.empty hnil⟩
    · obtain ⟨b, stub, hlist, hstub, honly, hcount, -, hmem⟩ := h.whole.stub hnil
      refine .inr ⟨b, stub, hlist, hstub, honly, List.length_pos_iff.mpr hnil, hcount,
        fun m hm => ?_⟩
      obtain ⟨-, i, hi, -⟩ := hmem m hm
      rw [hi]
      rfl
  · cases h.items.registered p g hp with
    | inl hmine =>
      obtain ⟨m, c, i, -, -, -, hgm⟩ := hmine
      rw [hgm] at hg
      exact absurd hg (memRegistration_type c i.kind m).1
    | inr hrest =>
      cases hrest with
      | inl href =>
        obtain ⟨r, hr, b, hrp, -⟩ := href
        exact hrp ▸ List.mem_map_of_mem hr
      | inr hlock =>
        obtain ⟨c, hgl, -⟩ := hlock
        rw [hgl] at hg
        cases hg
  · cases h.items.registered p g hp with
    | inl hmine =>
      obtain ⟨m, c, i, -, -, -, hgm⟩ := hmine
      rw [hgm] at hg
      exact absurd hg (memRegistration_type c i.kind m).2
    | inr hrest =>
      cases hrest with
      | inl href =>
        obtain ⟨r, hr, b, -, hgr, -⟩ := href
        rw [hgr] at hg
        cases hg
      | inr hlock =>
        obtain ⟨c, hgl, hitem, hproc⟩ := hlock
        rw [hgl]
        exact ⟨hitem, hproc⟩

theorem good_init : Good pbInit.km (fun _ => none) pbInit.handles [] := by
  refine ⟨tracks_init, ⟨?_, ?_, ?_, List.nodup_nil, ?_, .inl ⟨rfl, rfl⟩⟩,
    fun _ => ⟨rfl, fun _ => rfl⟩, fun hne => absurd rfl hne⟩
  · intro p g hp
    cases hp
  · intro m c hm
    cases hm
  · intro r hr
    cases hr
  · intro r hr
    cases hr

/-- The steps that are neither an add nor an end leave the lock with its holder. -/
theorem Handled.of_kept (hkept : Kept x.km.pb x'.km.pb)
    (hlock : ∀ d, x.km.pb.psPerProcCreateSharedPB = some d →
      x'.km.pb.psPerProcCreateSharedPB = some d)
    (hexit : ∀ d, op ≠ .exit d) (hadd : ∀ d call, op ≠ .add d call) :
    Handled x x' op reply := by
  refine ⟨hkept, fun d hd => .inl (hlock d hd), fun d _ hop => ?_, fun c call hop =>
    absurd hop (hadd c call)⟩
  cases hop with
  | inl hop => exact absurd hop (hexit d)
  | inr hop =>
    obtain ⟨call, hop⟩ := hop
    exact absurd hop (hadd d call)

theorem Good.ref_of_found (h : Good km reg own refs)
    (hfind : resManFindResourceByPtr km.res c p = some .ok)
    (htype : (km.res.items p).any (fun i => i.resType = .sharedPbDesc) = true) :
    ∃ r ∈ refs, r.item = p ∧ r.context = c := by
  have hctx : (km.res.contexts c).isSome = true := by
    cases hc : km.res.contexts c with
    | none => simp [resManFindResourceByPtr, hc] at hfind
    | some ctx => rfl
  obtain ⟨lists, hshaped, hreg⟩ := h.tracks
  obtain ⟨e, he, hmem⟩ := hshaped.findResourceByPtr hctx p
  rw [hfind, Option.some.injEq] at he
  have hpl := hmem.mp he.symm
  obtain ⟨item, hitem, hkind⟩ := (Option.any_eq_true _ _).mp htype
  have hp := (hreg p (item.registration c)).mpr ⟨hpl, by rw [hitem]; rfl⟩
  cases h.items.registered p _ hp with
  | inl hmine =>
    obtain ⟨m, d, i, -, -, -, hg⟩ := hmine
    exact absurd ((congrArg Registration.resType hg).symm.trans (of_decide_eq_true hkind))
      (memRegistration_type d i.kind m).1
  | inr hrest =>
    cases hrest with
    | inl href =>
      obtain ⟨r, hr, b, hrp, hg, -⟩ := href
      exact ⟨r, hr, hrp, (congrArg Registration.context hg).symm⟩
    | inr hlock =>
      obtain ⟨d, hg, -⟩ := hlock
      have htype' : item.resType = .sharedPbDescCreateLock := congrArg Registration.resType hg
      have hkind' : item.resType = .sharedPbDesc := of_decide_eq_true hkind
      rw [hkind'] at htype'
      cases htype'

/-- Whether memory may be exported, or is a mapping or wrapped. -/
def marks : PbOp → Bool
  | .alloc _ kind attribs _ _ => attribs.exported || !kind.plain
  | .exportDeviceMem _ _ => true
  | _ => false

/-- A call that is proper and settles has its answer and leaves everything accounted for. Only an
    add makes a descriptor. -/
def Steps (x : PbSys) (refs : List Ref) (op : PbOp) : Prop :=
  ∃ reply x' reg', pbStep x op = some (reply, x') ∧
    Good x'.km reg' x'.handles (record refs (op, reply)) ∧ Handled x x' op reply ∧
    ((∀ c call, op ≠ .add c call) → ∀ b, x.km.pb.stubs b = none → x'.km.pb.stubs b = none) ∧
    (marks op = false → Plain x.km.pb → Plain x'.km.pb)

/-- Many steps touch neither the descriptor nor the lock. -/
theorem steps_of_same {reg' : Registry} (hstep : pbStep x op = some (reply, x'))
    (hgood : Good x'.km reg' x'.handles (record refs (op, reply)))
    (hstubs : x'.km.pb.stubs = x.km.pb.stubs)
    (hproc : x'.km.pb.psPerProcCreateSharedPB = x.km.pb.psPerProcCreateSharedPB)
    (hexit : ∀ d, op ≠ .exit d) (hadd : ∀ d call, op ≠ .add d call)
    (hplain : marks op = false → Plain x.km.pb → Plain x'.km.pb) : Steps x refs op :=
  ⟨reply, x', reg', hstep, hgood,
    .of_kept (Kept.of_stubs hstubs) (fun _ hd => hproc.trans hd) hexit hadd,
    fun _ b hb => (congrFun hstubs b).trans hb, hplain⟩

theorem Good.step_connect (h : Good x.km reg x.handles refs) {perProc : ℕ} {mem : Option ℕ}
    (hop : proper x (.connect perProc mem) = true) : Steps x refs (.connect perProc mem) := by
  cases mem with
  | none => exact steps_of_same rfl h rfl rfl (by simp) (by simp) fun _ hplain => hplain
  | some c =>
    have hc : x.km.res.contexts c = none := by simpa [proper] using hop
    obtain ⟨res, hres, htracks⟩ := h.tracks.connect hc perProc
    have hstep : pbStep x (.connect perProc (some c)) =
        some (.connected (.ok c), { x with km := { x.km with res := res } }) := by
      simp [pbStep, hres]
    exact steps_of_same hstep ⟨htracks, h.items, h.whole⟩ rfl rfl (by simp) (by simp)
      fun _ hplain => hplain

theorem Good.step_alloc (h : Good x.km reg x.handles refs) {kind : MemKind} {attribs : MemAttribs}
    {resItem : Option ℕ} (hop : proper x (.alloc c kind attribs m resItem) = true) :
    Steps x refs (.alloc c kind attribs m resItem) := by
  simp only [proper, Bool.and_eq_true, Option.isNone_iff_eq_none] at hop
  obtain ⟨⟨hc, hm⟩, hitem⟩ := hop
  have hfree (p : ℕ) (hp : resItem = some p) : x.km.res.items p = none := by
    simpa [hp] using hitem
  cases h.alloc hc hm kind attribs hfree with
  | inl hfail =>
    obtain ⟨e, hstep⟩ := hfail
    have hsame : pbStep x (.alloc c kind attribs m resItem) = some (.allocated (.error e), x) := by
      simp [pbStep, hstep]
    exact steps_of_same hsame h rfl rfl (by simp) (by simp) fun _ hplain => hplain
  | inr hdone =>
    obtain ⟨item, res, reg', hstep, hgood⟩ := hdone
    have hmade : pbStep x (.alloc c kind attribs m resItem) = some (.allocated (.ok m),
        { x with
          km := ⟨res, x.km.pb.setMem m (newInfo kind attribs item)⟩
          handles := Function.update x.handles m (some c) }) := by
      simp [pbStep, hstep]
    refine steps_of_same hmade hgood rfl rfl (by simp) (by simp) fun hmark hplain => ?_
    obtain ⟨hexported, hkind⟩ : attribs.exported = false ∧ kind.plain = true := by
      simpa [marks] using hmark
    exact hplain.newMem hexported hkind m item

theorem Good.step_free (h : Good x.km reg x.handles refs) (hop : proper x (.free m) = true) :
    Steps x refs (.free m) := by
  rw [proper, Bool.and_eq_true] at hop
  obtain ⟨c, hc⟩ := Option.isSome_iff_exists.mp hop.1
  obtain ⟨i, hi, -⟩ := h.items.owned m c hc
  by_cases hmapped : (decide (i.kind = .allocDeviceMem) && i.ui32RefCount ≠ 1) = true
  · have hrefused : pbStep x (.free m) = some (.refused, x) := by
      rw [pbStep, hi, Option.bind_eq_bind, Option.bind_some, if_pos hmapped]
    exact steps_of_same hrefused h rfl rfl (by simp) (by simp) fun _ hplain => hplain
  · obtain ⟨res, reg', j, v, hstep, hj, hdrops, hgood⟩ := h.free hc i.shared
    have hrelease : x.release [m] = Function.update x.handles m none := by
      funext n
      by_cases hnm : n = m <;> simp [PbSys.release, hnm]
    have hfreed : pbStep x (.free m) = some (.done,
        { x with km := ⟨res, x.km.pb.withMem m v⟩, handles := x.release [m] }) := by
      rw [pbStep, hi, Option.bind_eq_bind, Option.bind_some, if_neg hmapped]
      rw [freeAs] at hstep
      rw [hstep]
      rfl
    exact steps_of_same hfreed (by rw [hrelease]; exact hgood) rfl rfl (by simp) (by simp)
      fun _ hplain => hplain.of_unmarked (hdrops.shrinks hj).2

theorem Good.step_exportDeviceMem (h : Good x.km reg x.handles refs)
    (hop : proper x (.exportDeviceMem c m) = true) : Steps x refs (.exportDeviceMem c m) := by
  rw [proper, Bool.and_eq_true, Option.any_eq_true] at hop
  obtain ⟨-, i, hi, -⟩ := hop
  by_cases hin : i.inKernelBase = true
  · have hsame : pbStep x (.exportDeviceMem c m) = some (.done, x) := by
      rw [pbStep, hi, Option.map_some, if_pos hin]
    exact steps_of_same hsame h rfl rfl (by simp) (by simp) fun hmark => by cases hmark
  · have hmarked : pbStep x (.exportDeviceMem c m) = some (.done,
        x.setInfo m { i with exported := true, inKernelBase := true }) := by
      rw [pbStep, hi, Option.map_some, if_neg hin]
    exact steps_of_same hmarked (h.setInfo hi rfl rfl) rfl rfl (by simp) (by simp)
      fun hmark => by cases hmark

theorem Good.step_find (h : Good x.km reg x.handles refs) {call : FindCall}
    (hop : proper x (.find c call) = true) : Steps x refs (.find c call) := by
  simp only [proper, Bool.and_eq_true] at hop
  have hitem (p : ℕ) (hp : call.resItem = some p) :
      x.km.res.items p = none ∧ 0 < p ∧ p < 4294967296 := by
    simpa [hp, placed] using hop.2
  obtain ⟨a, km', reg', hstep, hgood, hkept, hlock, hless⟩ := h.find hop.1 hitem
  refine ⟨.found a, { x with km := km' }, reg', by simp [pbStep, hstep], ?_,
    .of_kept hkept hlock (by simp) (by simp), fun _ => hless.1,
    fun _ hplain => hplain.of_unmarked hless.2⟩
  have hrecord : record refs (.find c call, .found a) = findRef refs c a := by
    cases a with
    | error e => rfl
    | ok f => cases f <;> rfl
  rw [hrecord]
  exact hgood

theorem Good.step_add (h : Good x.km reg x.handles refs) (hop : proper x (.add c call) = true)
    (hsettles : settles x (.add c call)) : Steps x refs (.add c call) := by
  simp only [proper, Bool.and_eq_true] at hop
  obtain ⟨⟨⟨⟨hc, -⟩, -⟩, -⟩, hres⟩ := hop
  obtain ⟨hnodup, hmine, hfrees⟩ := hsettles
  have hown (m : ℕ) (hm : m ∈ call.infos) : (x.handles m).isSome = true := by
    rw [hmine m hm]
    rfl
  have hitem (p : ℕ) (y : Pb) (hp : call.resItem = some p)
      (hy : registering x.km c call = some y) :
      y.res.items p = none ∧ 0 < p ∧ p < 4294967296 := by
    have hboth : (0 < p ∧ p < 4294967296) ∧ y.res.items p = none := by
      simpa [hp, hy, placed] using hres
    exact ⟨hboth.2, hboth.1⟩
  have hdone : Adds x.km x.handles refs c call := by
    by_cases hl : x.km.pb.psPerProcCreateSharedPB = some c
    · exact h.add_holder hl hc hnodup hown hfrees hitem
    · exact h.add_rejected hl hnodup hown (hfrees fun hadopts => hl hadopts.2.1)
  obtain ⟨a, km', reg', hstep, hgood, hadded, -, hmarks⟩ := hdone
  refine ⟨.added a, { x with km := km', handles := x.release call.infos }, reg',
    by simp [pbStep, hstep], hgood,
    ⟨hadded.kept, fun d hd => ?_, fun d hd hop => ?_, fun d call' hop => ?_⟩,
    fun hnot => absurd rfl (hnot c call), fun _ hplain => hplain.of_unmarked hmarks⟩
  · by_cases hdc : d = c
    · exact .inr (.inr ⟨call, by rw [hdc]⟩)
    · have hnot : x.km.pb.psPerProcCreateSharedPB ≠ some c := fun hcd => by
        rw [hd, Option.some.injEq] at hcd
        exact hdc hcd
      left
      rw [(hadded.rejected hnot).2]
      exact hd
  · have hdc : d = c := by
      cases hop with
      | inl hop => cases hop
      | inr hop =>
        obtain ⟨call', hop⟩ := hop
        exact (PbOp.add.inj hop).1.symm
    rw [hdc] at hd
    exact hadded.unlocked hd
  · obtain ⟨hcd, hcall⟩ := PbOp.add.inj hop
    rw [← hcd, ← hcall]
    exact ⟨a, rfl, hadded⟩

theorem Good.step_unref (h : Good x.km reg x.handles refs) (hop : proper x (.unref c p) = true)
    (hsettles : settles x (.unref c p)) : Steps x refs (.unref c p) := by
  simp only [proper, Bool.and_eq_true, decide_eq_true_eq] at hop
  obtain ⟨r, hr, hrp, -⟩ := h.ref_of_found hop.1 hop.2
  have hlast (hone : refs.length = 1) : Yields x.km.pb := by
    refine hsettles fun b hb stub hstub => ?_
    obtain ⟨e, stub', hlist, hstub', -, hcount, -⟩ := h.whole.stub (List.ne_nil_of_mem hr)
    rw [hlist, List.mem_singleton] at hb
    rw [hb, hstub', Option.some.injEq] at hstub
    rw [← hstub, hcount, hone]
  obtain ⟨km', hstep, hgood, hkept, hshrinks, hproc⟩ := h.unref hr hlast
  rw [hrp] at hstep hgood
  exact ⟨.done, { x with km := km' }, _, by simp [pbStep, hstep], hgood,
    .of_kept hkept (fun d hd => hproc.trans hd) (by simp) (by simp), fun _ => hshrinks.1,
    fun _ hplain => hplain.of_unmarked hshrinks.2⟩

theorem Good.step_exit (h : Good x.km reg x.handles refs) (hop : proper x (.exit c) = true)
    (hsettles : settles x (.exit c)) : Steps x refs (.exit c) := by
  have hlast (hall : ∀ r ∈ refs, r.context = c) : Yields x.km.pb := by
    refine hsettles fun hother => ?_
    obtain ⟨d, p, hdc, hfind, htype⟩ := hother
    obtain ⟨r, hr, -, hrd⟩ := h.ref_of_found hfind htype
    exact hdc (hrd.symm.trans (hall r hr))
  obtain ⟨km', reg', hstep, hgood, hkept, hshrinks, hothers, hmine⟩ := h.exit hop hlast
  refine ⟨.done, { x with
    km := km'
    handles := fun m => (x.handles m).filter fun d => d ≠ c
    internalDevInfo := Function.update x.internalDevInfo c false }, reg',
    by simp [pbStep, hstep], hgood, ⟨hkept, fun d hd => ?_, fun d hd hop => ?_,
      fun d call hop => ?_⟩, fun _ => hshrinks.1, fun _ hplain => hplain.of_unmarked hshrinks.2⟩
  · by_cases hdc : d = c
    · exact .inr (.inl (by rw [hdc]))
    · exact .inl (hothers d hdc hd)
  · cases hop with
    | inl hop =>
      rw [← PbOp.exit.inj hop] at hd
      exact hmine hd
    | inr hop =>
      obtain ⟨call, hop⟩ := hop
      cases hop
  · cases hop

theorem Good.step (h : Good x.km reg x.handles refs) (hop : proper x op = true)
    (hsettles : settles x op) : Steps x refs op := by
  cases op with
  | connect perProc mem => exact h.step_connect hop
  | alloc c kind attribs m resItem => exact h.step_alloc hop
  | free m => exact h.step_free hop
  | exportDeviceMem c m => exact h.step_exportDeviceMem hop
  | mapDeviceMemory m =>
    obtain ⟨i, hi, -⟩ := (Option.any_eq_true _ _).mp hop
    have hstep : pbStep x (.mapDeviceMemory m) = some (.done,
        { x.setInfo m { i with ui32RefCount := u32 (i.ui32RefCount + 1) } with
          mappings := Function.update x.mappings m (x.mappings m + 1) }) := by
      rw [pbStep, hi, Option.map_some]
    exact steps_of_same hstep (h.setInfo hi rfl rfl) rfl rfl (by simp) (by simp)
      fun _ hplain => hplain.of_unmarked (unmarked_setMem hi rfl rfl)
  | unmapDeviceMemory m =>
    rw [proper, Bool.and_eq_true] at hop
    obtain ⟨i, hi⟩ := Option.isSome_iff_exists.mp hop.2
    have hstep : pbStep x (.unmapDeviceMemory m) = some (.done,
        { x.setInfo m { i with ui32RefCount := u32Sub i.ui32RefCount 1 } with
          mappings := Function.update x.mappings m (x.mappings m - 1) }) := by
      rw [pbStep, hi, Option.map_some]
    exact steps_of_same hstep (h.setInfo hi rfl rfl) rfl rfl (by simp) (by simp)
      fun _ hplain => hplain.of_unmarked (unmarked_setMem hi rfl rfl)
  | devInitPart2 m =>
    exact steps_of_same rfl h rfl rfl (by simp) (by simp) fun _ hplain => hplain
  | getInternalDevInfo c =>
    exact steps_of_same rfl h rfl rfl (by simp) (by simp) fun _ hplain => hplain
  | find c call => exact h.step_find hop
  | add c call => exact h.step_add hop hsettles
  | unref c p => exact h.step_unref hop hsettles
  | exit c => exact h.step_exit hop hsettles

variable {l : List (PbOp × PbReply)}

theorem good_run
    (hrun : Run pbStep (fun x op => proper x op = true ∧ settles x op) pbInit l x) :
    ∃ reg, Good x.km reg x.handles (l.foldl record []) :=
  hrun.ledger (fun x refs => ∃ reg, Good x.km reg x.handles refs) record [] ⟨_, good_init⟩
    fun x refs op reply x' hgood hop hs => by
      obtain ⟨reg, h⟩ := hgood
      obtain ⟨a, u, reg', hu, hgood', -⟩ := h.step hop.1 hop.2
      rw [hs, Option.some.injEq, Prod.mk.injEq] at hu
      rw [hu.1, hu.2]
      exact ⟨reg', hgood'⟩

/-- In every run whose steps settle, every call of the next is answered, the references are counted,
    the descriptor takes its memory with it and the lock is kept. -/
theorem shared_pb_over_runs
    (hrun : Run pbStep (fun x op => proper x op = true ∧ settles x op) pbInit l x) :
    Sound x (l.foldl record []) ∧ ∀ op, proper x op = true → settles x op →
      ∃ reply x', pbStep x op = some (reply, x') ∧ Handled x x' op reply := by
  obtain ⟨reg, h⟩ := good_run hrun
  refine ⟨h.sound, fun op hop hsettles => ?_⟩
  obtain ⟨reply, x', -, hstep, -, hhandled, -⟩ := h.step hop hsettles
  exact ⟨reply, x', hstep, hhandled⟩

def yieldsNow (s : PbState) : Bool :=
  s.psStubPBDescListKM.all fun b => (s.stubs b).all fun stub => stub.infos.all s.frees

theorem yields_of_now (h : yieldsNow s = true) : Yields s := by
  intro b hb stub hstub m hm
  have hall := List.all_eq_true.mp h b hb
  rw [hstub, Option.all_some] at hall
  exact List.all_eq_true.mp hall m hm

/-- A condition that can be computed, under which a step settles. -/
def settlesNow (x : PbSys) : PbOp → Bool
  | .add c call => call.infos.Nodup && (call.infos.all fun m => x.handles m = some c) &&
    call.infos.all x.km.pb.frees
  | .unref _ _ | .exit _ => yieldsNow x.km.pb
  | _ => true

theorem settles_of_now (h : settlesNow x op = true) : settles x op := by
  cases op with
  | add c call =>
    simp only [settlesNow, Bool.and_eq_true, decide_eq_true_eq, List.all_eq_true] at h
    exact ⟨h.1.1, h.1.2, fun _ => h.2⟩
  | unref c p => exact fun _ => yields_of_now h
  | exit c => exact fun _ => yields_of_now h
  | _ => trivial

def plainMem : MemAttribs := ⟨false, false⟩

def sampleOps : List PbOp :=
  [.connect 1 (some 4096), .connect 2 (some 4112),
    .alloc 4096 .allocSharedSysMem plainMem 8192 (some 16384),
    .alloc 4096 .allocDeviceMem plainMem 8200 (some 16392),
    .alloc 4096 .allocSharedSysMem plainMem 8208 (some 16400),
    .alloc 4096 .allocDeviceMem plainMem 8216 (some 16408)]

def sampleAdd (subs : List ℕ) : AddCall :=
  ⟨8192, 8200, 8208, 65536, subs, some 12288, true, some 16416⟩

/-- A part of the buffer is exported, and mapped while the buffer is shared. -/
def sharingOps : List PbOp :=
  sampleOps ++ [.exportDeviceMem 4096 8216, .find 4096 ⟨true, true, some 16416⟩,
    .find 4112 ⟨true, true, some 16424⟩, .add 4096 (sampleAdd [8216]), .mapDeviceMemory 8216,
    .find 4112 ⟨false, true, some 16424⟩, .unmapDeviceMemory 8216, .exit 4096]

theorem shared_pb_over_sample : ∃ l x, exec pbStep pbInit sharingOps = some (l, x) ∧
    Sound x (l.foldl record []) ∧ (∃ reply x', pbStep x (.unref 4112 16424) = some (reply, x') ∧
      Handled x x' (.unref 4112 16424) reply) ∧
    (x.km.pb.stubs 12288).map StubPbDesc.ui32RefCount = some 1 := by
  have hsome : (exec pbStep pbInit sharingOps).map (fun r =>
      ((r.2.km.pb.stubs 12288).map StubPbDesc.ui32RefCount,
        proper r.2 (.unref 4112 16424) && settlesNow r.2 (.unref 4112 16424))) =
      some (some 1, true) := by decide +kernel
  obtain ⟨⟨l, x⟩, hexec, hlook⟩ := Option.map_eq_some_iff.mp hsome
  rw [Prod.mk.injEq, Bool.and_eq_true] at hlook
  have hallowed : Allowed pbStep (fun x op => (proper x op && settlesNow x op) = true) pbInit
      sharingOps := allowed_of_allows (by decide +kernel)
  have hrun : Run pbStep (fun x op => proper x op = true ∧ settles x op) pbInit l x :=
    (Run.of_allowed hexec hallowed).mono fun _ _ h =>
      ⟨(Bool.and_eq_true_iff.mp h).1, settles_of_now (Bool.and_eq_true_iff.mp h).2⟩
  obtain ⟨hsound, hall⟩ := shared_pb_over_runs hrun
  exact ⟨l, x, hexec, hsound, hall (.unref 4112 16424) hlook.2.1 (settles_of_now hlook.2.2),
    hlook.1⟩

/-- An add without the lock that names a memory info twice frees it twice. -/
theorem info_freed_twice : ¬∀ l x, Run pbStep (fun x op => proper x op = true) pbInit l x →
    ∀ op, proper x op = true → ∃ reply x', pbStep x op = some (reply, x') := by
  intro hclaim
  have hsome : (exec pbStep pbInit sampleOps).map (fun r =>
      (proper r.2 (.add 4096 (sampleAdd [8216, 8216])),
        (pbStep r.2 (.add 4096 (sampleAdd [8216, 8216]))).isSome)) = some (true, false) := by
    decide +kernel
  obtain ⟨⟨l, x⟩, hexec, hlook⟩ := Option.map_eq_some_iff.mp hsome
  rw [Prod.mk.injEq] at hlook
  have hallowed : Allowed pbStep (fun x op => proper x op = true) pbInit sampleOps :=
    allowed_of_allows (by decide +kernel)
  obtain ⟨reply, x', hstep⟩ := hclaim l x (Run.of_allowed hexec hallowed) _ hlook.1
  rw [hstep] at hlook
  cases hlook.2

end PvrServices.SharedPb
