import PvrServices.SharedPbItems

set_option autoImplicit false

/-!
# Calls on the shared parameter buffer

What finding, adding and giving up references do to the descriptor, the lock and the memory.
-/
namespace PvrServices.SharedPb
open KeyedList Resman Words
variable {s s' : PbState} {x x' : Pb} {reg : Registry} {own : ℕ → Option ℕ} {refs : List Ref}
  {b c m p : ℕ} {i : KernelMemInfo} {stub : StubPbDesc} {call : AddCall} {r : Ref}

structure Good (x : Pb) (reg : Registry) (own : ℕ → Option ℕ) (refs : List Ref) : Prop where
  tracks : Tracks x.res reg
  items : Items x.pb reg own refs
  whole : Whole x.pb own refs

theorem Items.register (h : Items s reg own refs) (hp : reg p = none) (g : Registration) :
    (∀ m c, own m = some c → ∃ i, s.memInfos m = some i ∧ ∀ q, i.hResItem = some q →
      Function.update reg p (some g) q = some (memRegistration c i.kind m)) ∧
    (∀ r ∈ refs, ∃ b, s.psStubPBDescListKM = [b] ∧
      Function.update reg p (some g) r.item = some (r.registration b)) ∧
    ((s.psResItemCreateSharedPB = none ∧ s.psPerProcCreateSharedPB = none) ∨
      ∃ q c, s.psResItemCreateSharedPB = some q ∧ s.psPerProcCreateSharedPB = some c ∧
        Function.update reg p (some g) q = some (lockRegistration c)) := by
  have hold {q : ℕ} {k : Registration} (hq : reg q = some k) :
      Function.update reg p (some g) q = some k := by
    have hqp : q ≠ p := fun hqp => by
      rw [hqp, hp] at hq
      cases hq
    rw [Function.update_of_ne hqp]
    exact hq
  refine ⟨fun m c hm => ?_, fun r hr => ?_, ?_⟩
  · obtain ⟨i, hi, hall⟩ := h.owned m c hm
    exact ⟨i, hi, fun q hq => hold (hall q hq)⟩
  · obtain ⟨b, hb, hreg⟩ := h.held r hr
    exact ⟨b, hb, hold hreg⟩
  · cases h.lock with
    | inl hnone => exact .inl hnone
    | inr hheld =>
      obtain ⟨q, d, hq, hd, hreg⟩ := hheld
      exact .inr ⟨q, d, hq, hd, hold hreg⟩

theorem Items.length (h : Items s reg own refs) (hp : reg p = none) (hpos : 0 < p)
    (hlt : p < 4294967296) : refs.length + 1 < 4294967296 := by
  have hnew : p ∉ refs.map Ref.item := fun hmem => by
    obtain ⟨r, hr, hrp⟩ := List.mem_map.mp hmem
    obtain ⟨b, -, hreg⟩ := h.held r hr
    rw [hrp, hp] at hreg
    cases hreg
  have hlen := length_lt_of_addresses (List.nodup_cons.mpr ⟨hnew, h.nodup⟩) fun q hq => by
    cases List.mem_cons.mp hq with
    | inl hqp => exact hqp ▸ ⟨hpos, hlt⟩
    | inr hq =>
      obtain ⟨r, hr, hrq⟩ := List.mem_map.mp hq
      exact hrq ▸ h.placed r hr
  simpa using hlen

theorem Items.refer (h : Items s reg own refs) (hp : reg p = none) (hpos : 0 < p)
    (hlt : p < 4294967296) (hb : s'.psStubPBDescListKM = [b])
    (hlist : refs ≠ [] → s.psStubPBDescListKM = [b]) (hmem : ∀ m, own m ≠ none →
      s'.memInfos m = s.memInfos m)
    (hitem : s'.psResItemCreateSharedPB = s.psResItemCreateSharedPB)
    (hproc : s'.psPerProcCreateSharedPB = s.psPerProcCreateSharedPB) :
    Items s' (Function.update reg p (some ((⟨p, c⟩ : Ref).registration b))) own
      (⟨p, c⟩ :: refs) := by
  obtain ⟨howned, hheld, hlock⟩ := h.register hp ((⟨p, c⟩ : Ref).registration b)
  have hsame (m d : ℕ) (hm : own m = some d) : s'.memInfos m = s.memInfos m :=
    hmem m (by rw [hm]; exact Option.some_ne_none d)
  constructor
  case registered =>
    intro q g hq
    by_cases hqp : q = p
    · rw [hqp, Function.update_self, Option.some.injEq] at hq
      exact .inr (.inl ⟨⟨p, c⟩, List.mem_cons_self, b, hqp.symm, hq.symm, hb⟩)
    · rw [Function.update_of_ne hqp] at hq
      cases h.registered q g hq with
      | inl hmine =>
        obtain ⟨m, d, i, hm, hi, hiq, hg⟩ := hmine
        exact .inl ⟨m, d, i, hm, (hsame m d hm).trans hi, hiq, hg⟩
      | inr hrest =>
        cases hrest with
        | inl href =>
          obtain ⟨v, hv, e, hvq, hg, he⟩ := href
          refine .inr (.inl ⟨v, List.mem_cons_of_mem _ hv, e, hvq, hg, ?_⟩)
          rw [hb, ← hlist (List.ne_nil_of_mem hv), he]
        | inr hlock =>
          obtain ⟨d, hg, hi, hd⟩ := hlock
          exact .inr (.inr ⟨d, hg, hitem.trans hi, hproc.trans hd⟩)
  case owned =>
    intro m d hm
    rw [hsame m d hm]
    exact howned m d hm
  case held =>
    intro v hv
    cases List.mem_cons.mp hv with
    | inl hv =>
      rw [hv, Function.update_self]
      exact ⟨b, hb, rfl⟩
    | inr hv =>
      obtain ⟨e, he, hreg⟩ := hheld v hv
      refine ⟨e, ?_, hreg⟩
      rw [hb, ← hlist (List.ne_nil_of_mem hv), he]
  case nodup =>
    rw [List.map_cons, List.nodup_cons]
    refine ⟨fun hmem => ?_, h.nodup⟩
    obtain ⟨v, hv, hvp⟩ := List.mem_map.mp hmem
    obtain ⟨e, -, hreg⟩ := h.held v hv
    rw [hvp, hp] at hreg
    cases hreg
  case placed =>
    intro v hv
    cases List.mem_cons.mp hv with
    | inl hv => exact hv ▸ ⟨hpos, hlt⟩
    | inr hv => exact h.placed v hv
  case lock =>
    rw [hitem, hproc]
    exact hlock

theorem Good.refer (h : Good x reg own refs) (hc : (x.res.contexts c).isSome = true)
    (hp : x.res.items p = none) (hpos : 0 < p) (hlt : p < 4294967296)
    (hb : b ∈ x.pb.psStubPBDescListKM) : ∃ res stub,
    x.pb.stubs b = some stub ∧
    resManRegisterRes x.res c .sharedPbDesc b 0 pfnSGXCleanupSharedPBDescCallback (some p) =
      some (some p, res) ∧
    Good ⟨res, x.pb.setStub b { stub with ui32RefCount := u32 (stub.ui32RefCount + 1) }⟩
      (Function.update reg p (some ((⟨p, c⟩ : Ref).registration b))) own (⟨p, c⟩ :: refs) := by
  have hne : refs ≠ [] := fun hnil => by
    rw [(h.whole.empty hnil).1] at hb
    cases hb
  obtain ⟨e, stub, hlist, hstub, honly, hcount, hinfos, hmem⟩ := h.whole.stub hne
  have hbe : b = e := by
    rw [hlist] at hb
    exact List.mem_singleton.mp hb
  rw [← hbe] at hlist hstub honly
  have hnone := h.tracks.fresh hp
  have hlen := h.items.length hnone hpos hlt
  obtain ⟨res, hreg, htracks⟩ := h.tracks.register (g := (⟨p, c⟩ : Ref).registration b) hc hp
  refine ⟨res, stub, hstub, hreg, htracks,
    h.items.refer hnone hpos hlt hlist (fun _ => hlist) (fun _ _ => rfl) rfl rfl, ?_⟩
  have hplus : u32 (stub.ui32RefCount + 1) = refs.length + 1 := by
    rw [hcount, u32_of_lt hlen]
  constructor
  case empty => exact fun hnil => absurd hnil (List.cons_ne_nil _ _)
  case stub =>
    refine fun _ => ⟨b, { stub with ui32RefCount := u32 (stub.ui32RefCount + 1) }, hlist,
      Function.update_self .., fun f hf => ?_, hplus, hinfos, hmem⟩
    by_cases hfb : f = b
    · exact hfb
    · have hf' : (x.pb.stubs f).isSome = true := by simpa [PbState.setStub, hfb] using hf
      exact honly f hf'

theorem Good.unref (h : Good x reg own refs) (hr : r ∈ refs)
    (hyields : refs.length = 1 → Yields x.pb) : ∃ x',
    sgxUnrefSharedPBDescKM x r.item = some x' ∧
    Good x' (Function.update reg r.item none) own (dropKey Ref.item refs r.item) ∧
    Kept x.pb x'.pb ∧ Shrinks x.pb x'.pb ∧
    x'.pb.psPerProcCreateSharedPB = x.pb.psPerProcCreateSharedPB := by
  obtain ⟨b, hb, hreg⟩ := h.items.held r hr
  obtain ⟨s', hcall, hitems, hwhole, hkept, hshrinks, hproc, -⟩ :=
    h.items.unref h.whole hr hb hyields
  obtain ⟨res, hfree, htracks⟩ := h.tracks.freeHosted hreg hcall
  exact ⟨⟨res, s'⟩, by simp [sgxUnrefSharedPBDescKM, resFree, hfree], ⟨htracks, hitems, hwhole⟩,
    hkept, hshrinks, hproc⟩

def PbState.lockedBy (s : PbState) (item proc : Option ℕ) : PbState :=
  { s with psResItemCreateSharedPB := item, psPerProcCreateSharedPB := proc }

theorem Whole.lockedBy (h : Whole s own refs) (item proc : Option ℕ) :
    Whole (s.lockedBy item proc) own refs := ⟨h.empty, h.stub⟩

theorem Good.takeLock (h : Good x reg own refs) (hc : (x.res.contexts c).isSome = true)
    (hp : x.res.items p = none) (hfree : x.pb.psResItemCreateSharedPB = none) : ∃ res,
    resManRegisterRes x.res c .sharedPbDescCreateLock c 0
        pfnSGXCleanupSharedPBDescCreateLockCallback (some p) = some (some p, res) ∧
      Good ⟨res, x.pb.lockedBy (some p) (some c)⟩
        (Function.update reg p (some (lockRegistration c))) own refs := by
  have hnone := h.tracks.fresh hp
  obtain ⟨howned, hheld, -⟩ := h.items.register hnone (lockRegistration c)
  obtain ⟨res, hreg, htracks⟩ := h.tracks.register (g := lockRegistration c) hc hp
  refine ⟨res, hreg, htracks, ?_, h.whole.lockedBy _ _⟩
  constructor
  case registered =>
    intro q g hq
    by_cases hqp : q = p
    · rw [hqp, Function.update_self, Option.some.injEq] at hq
      exact .inr (.inr ⟨c, hq.symm, by rw [hqp]; rfl, rfl⟩)
    · rw [Function.update_of_ne hqp] at hq
      cases h.items.registered q g hq with
      | inl hmine => exact .inl hmine
      | inr hrest =>
        cases hrest with
        | inl href => exact .inr (.inl href)
        | inr hlock =>
          obtain ⟨d, -, hi, -⟩ := hlock
          rw [hfree] at hi
          cases hi
  case owned => exact howned
  case held => exact hheld
  case nodup => exact h.items.nodup
  case placed => exact h.items.placed
  case lock => exact .inr ⟨p, c, rfl, rfl, Function.update_self ..⟩

theorem Items.unlock (h : Items s reg own refs) (hp : reg p = some (lockRegistration c)) :
    pbCallBack ((lockRegistration c).call p) s = some (s.lockedBy none none) ∧
      Items (s.lockedBy none none) (Function.update reg p none) own refs := by
  refine ⟨rfl, ?_⟩
  have hkeep {q : ℕ} {k : Registration} (hq : reg q = some k)
      (hk : k.resType ≠ .sharedPbDescCreateLock) : Function.update reg p none q = some k := by
    have hqp : q ≠ p := fun hqp => by
      rw [hqp, hp, Option.some.injEq] at hq
      exact hk (hq ▸ rfl)
    rw [Function.update_of_ne hqp]
    exact hq
  constructor
  case registered =>
    intro q g hq
    have hqp : q ≠ p := fun hqp => by
      rw [hqp, Function.update_self] at hq
      cases hq
    rw [Function.update_of_ne hqp] at hq
    cases h.registered q g hq with
    | inl hmine => exact .inl hmine
    | inr hrest =>
      cases hrest with
      | inl href => exact .inr (.inl href)
      | inr hlock =>
        obtain ⟨d, -, hi, -⟩ := hlock
        cases h.registered p _ hp with
        | inl hmine =>
          obtain ⟨m, e, i, -, -, -, hg⟩ := hmine
          exact absurd (congrArg Registration.resType hg).symm (memRegistration_type e i.kind m).2
        | inr hrest =>
          cases hrest with
          | inl href =>
            obtain ⟨v, -, e, -, hg, -⟩ := href
            exact absurd (congrArg Registration.resType hg) ResmanType.noConfusion
          | inr hlock =>
            obtain ⟨e, -, hj, -⟩ := hlock
            rw [hi, Option.some.injEq] at hj
            exact absurd hj hqp
  case owned =>
    intro m d hm
    obtain ⟨i, hi, hall⟩ := h.owned m d hm
    exact ⟨i, hi, fun q hq => hkeep (hall q hq) (memRegistration_type d i.kind m).2⟩
  case held =>
    intro r hr
    obtain ⟨b, hb, hreg⟩ := h.held r hr
    exact ⟨b, hb, hkeep hreg ResmanType.noConfusion⟩
  case nodup => exact h.nodup
  case placed => exact h.placed
  case lock => exact .inl ⟨rfl, rfl⟩

theorem Good.releaseLock (h : Good x reg own refs) (hl : x.pb.psPerProcCreateSharedPB = some c) :
    ∃ res reg', SharedPb.releaseLock x = some ⟨res, x.pb.lockedBy none none⟩ ∧
      Good ⟨res, x.pb.lockedBy none none⟩ reg' own refs ∧
      ∀ d, (res.contexts d).isSome = (x.res.contexts d).isSome := by
  cases h.items.lock with
  | inl hnone =>
    rw [hnone.2] at hl
    cases hl
  | inr hheld =>
    obtain ⟨p, d, hp, -, hreg⟩ := hheld
    obtain ⟨hcall, hitems⟩ := h.items.unlock hreg
    obtain ⟨res, hfree, htracks⟩ := h.tracks.freeHosted hreg hcall
    refine ⟨res, _, ?_, ⟨htracks, hitems, h.whole.lockedBy none none⟩,
      h.tracks.freeHosted_contexts hreg hfree⟩
    simp [SharedPb.releaseLock, hp, resFree, hfree]

theorem Whole.freed {l : List ℕ} (h : Whole s own refs) (hl : ∀ m ∈ l, (own m).isSome = true) :
    Whole (s.freed l) (given own l) refs := by
  refine ⟨h.empty, fun hne => ?_⟩
  obtain ⟨b, stub, hlist, hstub, honly, hcount, hinfos, hmem⟩ := h.stub hne
  refine ⟨b, stub, hlist, hstub, honly, hcount, hinfos, fun m hm => ?_⟩
  obtain ⟨hown, i, hi, hitem⟩ := hmem m hm
  have hml : m ∉ l := fun hml => by
    have hsome := hl m hml
    rw [hown] at hsome
    cases hsome
  exact ⟨(if_neg hml).trans hown, i, (if_neg hml).trans hi, hitem⟩

def AddCall.frees (call : AddCall) : List (Bool × ℕ) :=
  call.ppsSharedPBDescSubKernelMemInfos.map (fun m => (false, m)) ++
    [(true, call.psSharedPBDescKernelMemInfo), (false, call.psHWPBDescKernelMemInfo),
      (true, call.psBlockKernelMemInfo)]

theorem frees_infos (call : AddCall) : call.frees.map Prod.snd = call.infos := by
  simp [AddCall.frees, AddCall.infos, Function.comp_def]

theorem noAddKeepPB_eq (x : Pb) (call : AddCall) (a : Except PvrsrvError ℕ) :
    noAddKeepPB x call a = (call.frees.foldlM freeAs x).map fun x => (a, x) := by
  rw [AddCall.frees, List.foldlM_append, List.foldlM_map, noAddKeepPB]
  change (call.ppsSharedPBDescSubKernelMemInfos.foldlM pvrsrvFreeDeviceMemKM x).bind _ =
    ((call.ppsSharedPBDescSubKernelMemInfos.foldlM pvrsrvFreeDeviceMemKM x).bind _).map _
  cases call.ppsSharedPBDescSubKernelMemInfos.foldlM pvrsrvFreeDeviceMemKM x with
  | none => rfl
  | some y =>
    simp only [List.foldlM_cons, List.foldlM_nil, Option.map_eq_bind, Option.bind_assoc,
      Option.bind_eq_bind, Option.pure_def, Option.bind_some, Function.comp_def, freeAs, if_true,
      Bool.false_eq_true, if_false]

theorem Good.noAddKeepPB (h : Good x reg own refs) (hnodup : call.infos.Nodup)
    (hown : ∀ m ∈ call.infos, (own m).isSome = true)
    (hfrees : ∀ m ∈ call.infos, x.pb.frees m = true) (a : Except PvrsrvError ℕ) :
    ∃ res reg', SharedPb.noAddKeepPB x call a = some (a, ⟨res, x.pb.freed call.infos⟩) ∧
      Good ⟨res, x.pb.freed call.infos⟩ reg' (given own call.infos) refs := by
  rw [← frees_infos] at hnodup hown hfrees
  obtain ⟨res, reg', hfold, htracks, hitems⟩ :=
    h.items.freeList h.tracks hnodup fun m hm => ⟨hown m hm, hfrees m hm⟩
  rw [frees_infos] at hown hfold hitems
  refine ⟨res, reg', ?_, htracks, hitems, h.whole.freed hown⟩
  rw [noAddKeepPB_eq, hfold]
  rfl

def addRef (refs : List Ref) (c : ℕ) : Except PvrsrvError ℕ → List Ref
  | .ok p => ⟨p, c⟩ :: refs
  | .error _ => refs

/-- What an add does: without the lock it is rejected, with it the lock is given up, and the memory
    is freed if it is not adopted by a new descriptor. -/
structure Added (x x' : Pb) (c : ℕ) (call : AddCall) (a : Except PvrsrvError ℕ) : Prop where
  rejected : x.pb.psPerProcCreateSharedPB ≠ some c →
    a = .error .errorGeneric ∧ x'.pb = x.pb.freed call.infos
  unlocked : x.pb.psPerProcCreateSharedPB = some c →
    x'.pb.psResItemCreateSharedPB = none ∧ x'.pb.psPerProcCreateSharedPB = none
  settled : (∀ m ∈ call.infos, x'.pb.memInfos m = none) ∨ ∃ p b stub, a = .ok p ∧
    x.pb.psStubPBDescListKM = [] ∧ x'.pb.psStubPBDescListKM = [b] ∧ x'.pb.stubs b = some stub ∧
    stub.infos = call.infos
  kept : Kept x.pb x'.pb

def AddCall.descriptor (call : AddCall) : StubPbDesc :=
  ⟨1, call.ui32TotalPBSize, call.psSharedPBDescKernelMemInfo, call.psHWPBDescKernelMemInfo,
    call.psBlockKernelMemInfo, call.ppsSharedPBDescSubKernelMemInfos⟩

def Fresh (s s' : PbState) (call : AddCall) : Prop :=
  ∀ b stub, s.stubs b = none → s'.stubs b = some stub →
    s.psStubPBDescListKM = [] ∧ stub = call.descriptor

theorem Fresh.of_none (h : ∀ b, s.stubs b = none → s'.stubs b = none) : Fresh s s' call := by
  intro b stub hb hb'
  rw [h b hb] at hb'
  cases hb'

def Adds (x : Pb) (own : ℕ → Option ℕ) (refs : List Ref) (c : ℕ) (call : AddCall) : Prop :=
  ∃ a x' reg', sgxAddSharedPBDescKM x c call = some (a, x') ∧
    Good x' reg' (given own call.infos) (addRef refs c a) ∧ Added x x' c call a ∧
    Fresh x.pb x'.pb call ∧ Unmarked x.pb x'.pb

theorem Good.add_rejected (h : Good x reg own refs) (hl : x.pb.psPerProcCreateSharedPB ≠ some c)
    (hnodup : call.infos.Nodup) (hown : ∀ m ∈ call.infos, (own m).isSome = true)
    (hfrees : ∀ m ∈ call.infos, x.pb.frees m = true) : Adds x own refs c call := by
  obtain ⟨res, reg', hstep, hgood⟩ := h.noAddKeepPB hnodup hown hfrees (.error .errorGeneric)
  refine ⟨.error .errorGeneric, ⟨res, x.pb.freed call.infos⟩, reg', ?_, hgood, ?_,
    .of_none fun _ hb => hb, unmarked_freed _ _⟩
  · rw [sgxAddSharedPBDescKM, if_pos hl]
    exact hstep
  · exact ⟨fun _ => ⟨rfl, rfl⟩, fun hheld => absurd hheld hl, .inl fun m hm => freed_mem _ hm,
      Kept.of_stubs rfl⟩

theorem Added.of_released {a : Except PvrsrvError ℕ} (hl : x.pb.psPerProcCreateSharedPB = some c)
    (hitem : x'.pb.psResItemCreateSharedPB = none) (hproc : x'.pb.psPerProcCreateSharedPB = none)
    (hkept : Kept x.pb x'.pb) (hsettled : (∀ m ∈ call.infos, x'.pb.memInfos m = none) ∨
      ∃ p b stub, a = .ok p ∧ x.pb.psStubPBDescListKM = [] ∧ x'.pb.psStubPBDescListKM = [b] ∧
        x'.pb.stubs b = some stub ∧ stub.infos = call.infos) : Added x x' c call a :=
  ⟨fun hnot => absurd hl hnot, fun _ => ⟨hitem, hproc⟩, hsettled, hkept⟩

/-- An add of the holder while there is a descriptor refers to that one. -/
theorem Good.add_existing (h : Good x reg own refs) (hl : x.pb.psPerProcCreateSharedPB = some c)
    (hc : (x.res.contexts c).isSome = true) (hb : b ∈ x.pb.psStubPBDescListKM)
    (hnodup : call.infos.Nodup) (hown : ∀ m ∈ call.infos, (own m).isSome = true)
    (hfrees : ∀ m ∈ call.infos, x.pb.frees m = true)
    (hitem : ∀ p y, call.resItem = some p → registering x c call = some y →
      y.res.items p = none ∧ 0 < p ∧ p < 4294967296) :
    Adds x own refs c call := by
  obtain ⟨res, reg₁, hrelease, hgood, hcontexts⟩ := h.releaseLock hl
  obtain ⟨l, hlist⟩ : ∃ l, x.pb.psStubPBDescListKM = b :: l := by
    by_cases hnil : refs = []
    · rw [(h.whole.empty hnil).1] at hb
      cases hb
    · obtain ⟨e, -, he, -⟩ := h.whole.stub hnil
      rw [he] at hb ⊢
      exact ⟨[], by rw [List.mem_singleton.mp hb]⟩
  have hreg : registering x c call = some ⟨res, x.pb.lockedBy none none⟩ := by
    simp [registering, hl, hrelease, PbState.lockedBy, hlist]
  have hstart : sgxAddSharedPBDescKM x c call =
      addExisting ⟨res, x.pb.lockedBy none none⟩ c b call := by
    simp [sgxAddSharedPBDescKM, hl, hrelease, PbState.lockedBy, hlist]
  cases hmem : call.resItem with
  | none =>
    obtain ⟨res', reg', hstep, hgood'⟩ :=
      hgood.noAddKeepPB hnodup hown hfrees (.error .errorGeneric)
    refine ⟨.error .errorGeneric, ⟨res', (x.pb.lockedBy none none).freed call.infos⟩, reg', ?_,
      hgood', .of_released hl rfl rfl (Kept.of_stubs rfl) (.inl fun m hm => freed_mem _ hm),
      .of_none fun _ hb => hb, unmarked_freed x.pb call.infos⟩
    have hshared : registerShared ⟨res, x.pb.lockedBy none none⟩ c b call =
        some (none, ⟨res, x.pb.lockedBy none none⟩) := by
      simp [registerShared, resManRegisterRes, hmem]
    rw [hstart, addExisting, hshared]
    exact hstep
  | some p =>
    obtain ⟨hfree, hpos, hlt⟩ := hitem p _ hmem hreg
    obtain ⟨res₁, stub, hstub, hregister, hgood₁⟩ :=
      hgood.refer (by rw [hcontexts]; exact hc) hfree hpos hlt hb
    obtain ⟨res', reg', hstep, hgood'⟩ := hgood₁.noAddKeepPB hnodup hown hfrees (.ok p)
    let stub' : StubPbDesc := { stub with ui32RefCount := u32 (stub.ui32RefCount + 1) }
    have hstub' : (x.pb.lockedBy none none).stubs b = some stub := hstub
    refine ⟨.ok p, ⟨res', ((x.pb.lockedBy none none).setStub b stub').freed call.infos⟩, reg', ?_,
      hgood', .of_released hl rfl rfl (.of_update hstub rfl rfl) (.inl fun m hm => freed_mem _ hm),
      .of_none fun _ => stubs_none_of_update hstub rfl, unmarked_freed x.pb call.infos⟩
    have hshared : registerShared ⟨res, x.pb.lockedBy none none⟩ c b call =
        some (some p, ⟨res₁, x.pb.lockedBy none none⟩) := by
      simp [registerShared, hregister, hmem]
    rw [hstart, addExisting, hshared]
    simp only [Option.bind_eq_bind, Option.bind_some, hstub']
    exact hstep

theorem Good.fillStub (h : Good x reg own []) (hnodup : call.infos.Nodup)
    (hown : ∀ m ∈ call.infos, (own m).isSome = true) (b : ℕ) : ∃ res reg',
    SharedPb.fillStub (x.newStub b) call b =
      some ⟨res, (x.pb.loose call.infos).setStub b call.descriptor⟩ ∧
    Good ⟨res, x.pb.loose call.infos⟩ reg' own [] ∧
    ∀ d, (res.contexts d).isSome = (x.res.contexts d).isSome := by
  let front := [call.psSharedPBDescKernelMemInfo, call.psHWPBDescKernelMemInfo,
    call.psBlockKernelMemInfo]
  have hperm : (front ++ call.ppsSharedPBDescSubKernelMemInfos).Perm call.infos :=
    List.perm_append_comm
  have hnew : Items (x.newStub b).pb reg own [] :=
    ⟨h.items.registered, h.items.owned, h.items.held, h.items.nodup, h.items.placed, h.items.lock⟩
  obtain ⟨res, reg', hfold, htracks, hitems, hcontexts⟩ := hnew.dissociateList h.tracks
    (hperm.nodup_iff.mpr hnodup) fun m hm => hown m (hperm.mem_iff.mp hm)
  have hloose : (x.newStub b).pb.loose (front ++ call.ppsSharedPBDescSubKernelMemInfos) =
      (x.newStub b).pb.loose call.infos := by
    rw [PbState.loose, PbState.loose]
    congr 1
    funext m
    simp only [hperm.mem_iff]
  rw [hloose] at hfold hitems
  refine ⟨res, reg', ?_, ⟨htracks, ?_, ?_⟩, hcontexts⟩
  · have hfill : SharedPb.fillStub (x.newStub b) call b =
        ((front ++ call.ppsSharedPBDescSubKernelMemInfos).foldlM pvrsrvDissociateMemFromResmanKM
          (x.newStub b)).map fun x => { x with pb := x.pb.setStub b call.descriptor } := by
      rw [List.foldlM_append]
      simp only [SharedPb.fillStub, front, List.foldlM_cons, List.foldlM_nil, Option.map_eq_bind,
        Option.bind_assoc, Option.bind_eq_bind, Option.pure_def, Option.bind_some,
        Function.comp_def, AddCall.descriptor]
    have hx : x.newStub b = ⟨x.res, (x.newStub b).pb⟩ := rfl
    rw [hfill, hx, hfold]
    simp [PbState.loose, PbState.setStub, Pb.newStub]
  · exact ⟨hitems.registered, hitems.owned, hitems.held, hitems.nodup, hitems.placed, hitems.lock⟩
  · exact ⟨h.whole.empty, fun hne => absurd rfl hne⟩

theorem noAdd_newStub (hb : x.pb.stubs b = none) (stub : StubPbDesc) (e : PvrsrvError) :
    noAdd ⟨x.res, x.pb.setStub b stub⟩ call (some b) e = noAddKeepPB x call (.error e) := by
  have hback : Function.update (x.pb.setStub b stub).stubs b none = x.pb.stubs := by
    rw [PbState.setStub, Function.update_idem, ← hb, Function.update_eq_self]
  have hfree : (x.pb.setStub b stub).freeStub b = some x.pb := by
    rw [PbState.freeStub, hback]
    simp [PbState.setStub]
  simp [noAdd, hfree]

theorem Whole.list_nil (h : Whole s own refs) (hlist : s.psStubPBDescListKM = []) : refs = [] := by
  by_contra hne
  obtain ⟨b, -, hb, -⟩ := h.stub hne
  rw [hlist] at hb
  cases hb

def accepts (s : PbState) (c : ℕ) (call : AddCall) : Prop :=
  s.psPerProcCreateSharedPB = some c ∧ call.resItem.isSome = true ∧
    (s.psStubPBDescListKM = [] → call.stubMem.isSome = true ∧ call.subMem = true)

/-- Whether an add makes its memory that of a new descriptor. -/
def adoptsInfos (s : PbState) (c : ℕ) (call : AddCall) : Prop :=
  s.psStubPBDescListKM = [] ∧ accepts s c call

/-- An add of the holder that gives up after `y`, when no descriptor was made, frees the memory. -/
theorem Good.add_failed {y : Pb} (h : Good y reg own refs)
    (hl : x.pb.psPerProcCreateSharedPB = some c) (hnodup : call.infos.Nodup)
    (hown : ∀ m ∈ call.infos, (own m).isSome = true)
    (hfrees : ∀ m ∈ call.infos, y.pb.frees m = true) (hmarks : Unmarked x.pb y.pb)
    (hstubs : y.pb.stubs = x.pb.stubs) (hfree : y.pb.psResItemCreateSharedPB = none)
    (hproc : y.pb.psPerProcCreateSharedPB = none) {e : PvrsrvError}
    (hstep : sgxAddSharedPBDescKM x c call = SharedPb.noAddKeepPB y call (.error e)) :
    Adds x own refs c call := by
  obtain ⟨res, reg', hdone, hgood⟩ := h.noAddKeepPB hnodup hown hfrees (.error e)
  refine ⟨.error e, ⟨res, y.pb.freed call.infos⟩, reg', hstep.trans hdone, hgood, ?_,
    .of_none fun b hb => (congrFun hstubs b).trans hb, hmarks.trans (unmarked_freed _ _)⟩
  exact .of_released hl hfree hproc (Kept.of_stubs hstubs) (.inl fun m hm => freed_mem _ hm)

/-- The descriptor `b` is filled in and its first reference registered. -/
theorem Good.add_made {res : ResList}
    (h : Good ⟨res, (x.pb.lockedBy none none).loose call.infos⟩ reg own [])
    (hl : x.pb.psPerProcCreateSharedPB = some c) (hlist : x.pb.psStubPBDescListKM = [])
    (hnone : ∀ e, x.pb.stubs e = none) (hnodup : call.infos.Nodup)
    (hthere : ∀ m ∈ call.infos, (x.pb.memInfos m).isSome = true)
    (hcontext : (res.contexts c).isSome = true) (hp : res.items p = none) (hpos : 0 < p)
    (hlt : p < 4294967296) (hres : call.resItem = some p)
    (hstep : sgxAddSharedPBDescKM x c call = (registerShared ⟨res,
      ((x.pb.lockedBy none none).loose call.infos).setStub b call.descriptor⟩ c b call).bind
        (pushDescriptor call b)) :
    Adds x own [] c call := by
  obtain ⟨res', hregister, htracks⟩ := h.tracks.register
    (g := (⟨p, c⟩ : Ref).registration b) hcontext hp
  let z : PbState := ((x.pb.lockedBy none none).loose call.infos).setStub b call.descriptor
  let t : PbState := z.pushStub b
  have hloose (m : ℕ) (hm : m ∈ call.infos) :
      ∃ i, t.memInfos m = some i ∧ i.hResItem = none := by
    obtain ⟨i, hi⟩ := Option.isSome_iff_exists.mp (hthere m hm)
    refine ⟨{ i with hResItem := none }, ?_, rfl⟩
    change (if m ∈ call.infos then (x.pb.memInfos m).map _ else x.pb.memInfos m) = _
    rw [if_pos hm, hi]
    rfl
  have hgiven := h.items.abandon (l := call.infos) fun m hm i hi => by
    obtain ⟨j, hj, hjnone⟩ := hloose m hm
    have hij : i = j := Option.some.inj (hi.symm.trans hj)
    exact hij ▸ hjnone
  have hone : t.psStubPBDescListKM = [b] := by
    simp [t, z, PbState.pushStub, PbState.setStub, PbState.loose, PbState.lockedBy, hlist]
  have hother (e : ℕ) (heb : e ≠ b) : t.stubs e = none := by
    have hsame : t.stubs e = x.pb.stubs e := Function.update_of_ne heb ..
    rw [hsame, hnone e]
  have hself : t.stubs b = some call.descriptor := Function.update_self ..
  have hitems : Items t (Function.update reg p (some ((⟨p, c⟩ : Ref).registration b)))
      (given own call.infos) [⟨p, c⟩] :=
    hgiven.refer (h.tracks.fresh hp) hpos hlt hone (fun hne => absurd rfl hne) (fun _ _ => rfl)
      rfl rfl
  refine ⟨.ok p, ⟨res', t⟩, _, ?_, ⟨htracks, hitems, ?_⟩,
    .of_released hl rfl rfl ?_ (.inr ⟨p, b, call.descriptor, rfl, hlist, hone, hself, rfl⟩), ?_,
    unmarked_loose x.pb call.infos⟩
  · have hregister' : resManRegisterRes res c .sharedPbDesc b 0
        pfnSGXCleanupSharedPBDescCallback (some p) = some (some p, res') := hregister
    have hshared : registerShared ⟨res, z⟩ c b call = some (some p, ⟨res', z⟩) := by
      simp [registerShared, hres, hregister']
    rw [hstep, hshared, Option.bind_some]
    rfl
  · refine ⟨fun h => absurd h (List.cons_ne_nil _ _), fun _ => ⟨b, call.descriptor, hone, hself,
      fun e he => ?_, rfl, hnodup, fun m hm => ⟨if_pos hm, hloose m hm⟩⟩⟩
    by_contra heb
    rw [hother e heb] at he
    cases he
  · intro e stub₀ he
    rw [hnone e] at he
    cases he
  · intro e stub₀ _ he
    refine ⟨hlist, ?_⟩
    by_cases heb : e = b
    · rw [heb] at he
      exact Option.some.inj (he.symm.trans hself)
    · rw [hother e heb] at he
      cases he

/-- An add of the holder while there is no descriptor adopts the memory, or frees it. -/
theorem Good.add_new (h : Good x reg own refs) (hl : x.pb.psPerProcCreateSharedPB = some c)
    (hc : (x.res.contexts c).isSome = true) (hlist : x.pb.psStubPBDescListKM = [])
    (hnodup : call.infos.Nodup) (hown : ∀ m ∈ call.infos, (own m).isSome = true)
    (hfrees : ¬adoptsInfos x.pb c call → ∀ m ∈ call.infos, x.pb.frees m = true)
    (hitem : ∀ p y, call.resItem = some p → registering x c call = some y →
      y.res.items p = none ∧ 0 < p ∧ p < 4294967296) :
    Adds x own refs c call := by
  obtain rfl := h.whole.list_nil hlist
  obtain ⟨res, reg₁, hrelease, hgood, hcontexts⟩ := h.releaseLock hl
  let y : Pb := ⟨res, x.pb.lockedBy none none⟩
  have hlist' : y.pb.psStubPBDescListKM = [] := hlist
  have hnone : ∀ b, x.pb.stubs b = none := (h.whole.empty rfl).2
  have hstart : sgxAddSharedPBDescKM x c call = addNew y c call := by
    simp [sgxAddSharedPBDescKM, hl, hrelease, y, PbState.lockedBy, hlist]
  have hgone (hnot : ¬adoptsInfos x.pb c call) {e : PvrsrvError}
      (hstep : sgxAddSharedPBDescKM x c call = SharedPb.noAddKeepPB y call (.error e)) :
      Adds x own [] c call :=
    hgood.add_failed hl hnodup hown (hfrees hnot) (.of_mem rfl) rfl rfl rfl hstep
  cases hmem : call.stubMem with
  | none =>
    refine hgone (fun hadopts => ?_) (e := .errorOutOfMemory) ?_
    · have hsome := (hadopts.2.2.2 hlist).1
      rw [hmem] at hsome
      cases hsome
    · rw [hstart, addNew, hmem]
      rfl
  | some b =>
    cases hsub : call.subMem with
    | false =>
      refine hgone (fun hadopts => ?_) (e := .errorOutOfMemory) ?_
      · have hsome := (hadopts.2.2.2 hlist).2
        rw [hsub] at hsome
        cases hsome
      · rw [hstart, addNew, hmem, hsub]
        exact noAdd_newStub (x := y) (hnone b) _ _
    | true =>
      obtain ⟨res₂, reg₂, hfill, hgood₂, hcontexts₂⟩ := hgood.fillStub hnodup hown b
      let z : Pb := ⟨res₂, y.pb.loose call.infos⟩
      have hreg : registering x c call = some ⟨res₂, z.pb.setStub b call.descriptor⟩ := by
        have hfill' : SharedPb.fillStub (y.newStub b) call b =
          some ⟨res₂, z.pb.setStub b call.descriptor⟩ := hfill
        simp only [registering, hl, ne_eq, not_true_eq_false, if_false, hrelease,
          Option.bind_eq_bind, Option.bind_some, hmem, hsub]
        rw [hlist']
        exact hfill'
      have hfilled : sgxAddSharedPBDescKM x c call =
          (registerShared ⟨res₂, z.pb.setStub b call.descriptor⟩ c b call).bind
            (pushDescriptor call b) := by
        rw [hstart, addNew, hmem, hsub]
        simp only [Bool.not_true, Bool.false_eq_true, if_false, y, hfill, Option.bind_eq_bind,
          Option.bind_some]
        rfl
      cases hres : call.resItem with
      | none =>
        have hnot : ¬adoptsInfos x.pb c call := fun hadopts => by
          have hsome := hadopts.2.2.1
          rw [hres] at hsome
          cases hsome
        refine hgood₂.add_failed hl hnodup hown
          (fun m hm => (frees_loose x.pb _ m).trans (hfrees hnot m hm)) (unmarked_loose _ _)
          rfl rfl rfl (e := .errorGeneric) ?_
        have hshared : registerShared ⟨res₂, z.pb.setStub b call.descriptor⟩ c b call =
            some (none, ⟨res₂, z.pb.setStub b call.descriptor⟩) := by
          simp [registerShared, resManRegisterRes, hres]
        rw [hfilled, hshared, Option.bind_some]
        exact noAdd_newStub (x := z) (hnone b) _ _
      | some p =>
        obtain ⟨hp, hpos, hlt⟩ := hitem p _ hres hreg
        have hcontext : (res₂.contexts c).isSome = true := by
          rw [hcontexts₂ c]
          exact (hcontexts c).trans hc
        have hthere (m : ℕ) (hm : m ∈ call.infos) : (x.pb.memInfos m).isSome = true := by
          obtain ⟨d, hd⟩ := Option.isSome_iff_exists.mp (hown m hm)
          obtain ⟨i, hi, -⟩ := h.items.owned m d hd
          rw [hi]
          rfl
        exact hgood₂.add_made hl hlist hnone hnodup hthere hcontext hp hpos hlt hres hfilled

/-- The holder's add goes on with the descriptor that there is, or with a new one. -/
theorem Good.add_holder (h : Good x reg own refs) (hl : x.pb.psPerProcCreateSharedPB = some c)
    (hc : (x.res.contexts c).isSome = true) (hnodup : call.infos.Nodup)
    (hown : ∀ m ∈ call.infos, (own m).isSome = true)
    (hfrees : ¬adoptsInfos x.pb c call → ∀ m ∈ call.infos, x.pb.frees m = true)
    (hitem : ∀ p y, call.resItem = some p → registering x c call = some y →
      y.res.items p = none ∧ 0 < p ∧ p < 4294967296) : Adds x own refs c call := by
  cases hlist : x.pb.psStubPBDescListKM with
  | nil => exact h.add_new hl hc hlist hnodup hown hfrees hitem
  | cons b l =>
    have hb : b ∈ x.pb.psStubPBDescListKM := by
      rw [hlist]
      exact List.mem_cons_self
    have hnot : ¬adoptsInfos x.pb c call := fun hadopts =>
      absurd (hlist.symm.trans hadopts.1) (List.cons_ne_nil b l)
    exact h.add_existing hl hc hb hnodup hown (hfrees hnot) hitem

theorem noAddKeepPB_answer {a r : Except PvrsrvError ℕ}
    (h : SharedPb.noAddKeepPB x call a = some (r, x')) : r = a := by
  rw [noAddKeepPB_eq] at h
  obtain ⟨y, -, hy⟩ := Option.map_eq_some_iff.mp h
  rw [Prod.mk.injEq] at hy
  exact hy.1.symm

theorem noAdd_answer {stub : Option ℕ} {e : PvrsrvError} {r : Except PvrsrvError ℕ}
    (h : noAdd x call stub e = some (r, x')) : r = .error e := by
  unfold noAdd at h
  obtain ⟨pb, -, hkeep⟩ := Option.bind_eq_some_iff.mp h
  exact noAddKeepPB_answer hkeep

theorem registerShared_item {item : Option ℕ} (h : registerShared x c b call = some (item, x')) :
    item = call.resItem ∧ x'.pb = x.pb := by
  rw [registerShared, Option.bind_eq_bind] at h
  obtain ⟨r, hr, hrest⟩ := Option.bind_eq_some_iff.mp h
  rw [Option.some.injEq, Prod.mk.injEq] at hrest
  rw [← hrest.1, ← hrest.2]
  refine ⟨?_, rfl⟩
  cases hitem : call.resItem with
  | none =>
    rw [hitem, resManRegisterRes, Option.some.injEq] at hr
    rw [← hr]
  | some p =>
    rw [hitem, resManRegisterRes, Option.bind_eq_bind] at hr
    obtain ⟨res, -, hres⟩ := Option.bind_eq_some_iff.mp hr
    rw [Option.some.injEq] at hres
    rw [← hres]

theorem addExisting_answer {a : Except PvrsrvError ℕ}
    (h : addExisting x c b call = some (a, x')) : (∃ p, a = .ok p) ↔ call.resItem.isSome = true := by
  rw [addExisting, Option.bind_eq_bind] at h
  obtain ⟨⟨item, y⟩, hr, hrest⟩ := Option.bind_eq_some_iff.mp h
  rw [← (registerShared_item hr).1]
  cases item with
  | none =>
    rw [noAddKeepPB_answer hrest]
    simp
  | some p =>
    obtain ⟨stub, -, hkeep⟩ := Option.bind_eq_some_iff.mp hrest
    rw [noAddKeepPB_answer hkeep]
    simp

/-- Where there is memory for it, the new descriptor goes on the list as the call describes it. -/
theorem addNew_answer {a : Except PvrsrvError ℕ} (h : addNew x c call = some (a, x')) :
    ((∃ p, a = .ok p) ↔ call.stubMem.isSome = true ∧ call.subMem = true ∧
      call.resItem.isSome = true) ∧
    ((∃ p, a = .ok p) → ∃ b ∈ x'.pb.psStubPBDescListKM,
      x'.pb.stubs b = some call.descriptor) := by
  cases hstub : call.stubMem with
  | none =>
    rw [addNew, hstub] at h
    rw [noAdd_answer h]
    simp
  | some b =>
    cases hsub : call.subMem with
    | false =>
      rw [addNew, hstub, hsub] at h
      have hno : noAdd (x.newStub b) call (some b) .errorOutOfMemory = some (a, x') := h
      rw [noAdd_answer hno]
      simp
    | true =>
      rw [addNew, hstub, hsub] at h
      obtain ⟨y, hfill, hrest⟩ := Option.bind_eq_some_iff.mp h
      obtain ⟨⟨item, z⟩, hr, hpush⟩ := Option.bind_eq_some_iff.mp hrest
      obtain ⟨hitem, hz⟩ := registerShared_item hr
      rw [← hitem]
      cases item with
      | none =>
        have hno : noAdd z call (some b) .errorGeneric = some (a, x') := hpush
        rw [noAdd_answer hno]
        simp
      | some p =>
        rw [pushDescriptor, Option.some.injEq, Prod.mk.injEq] at hpush
        rw [← hpush.1, ← hpush.2]
        refine ⟨by simp, fun _ => ⟨b, List.mem_cons_self, ?_⟩⟩
        change z.pb.stubs b = _
        rw [hz]
        simp only [SharedPb.fillStub, Option.bind_eq_bind, Option.bind_eq_some_iff] at hfill
        obtain ⟨x₁, -, x₂, -, x₃, -, x₄, -, hy⟩ := hfill
        rw [← Option.some.inj hy]
        exact Function.update_self ..

/-- What is freed one after the other is there, and is not freed twice. -/
theorem Items.freeList_nodup {res : ResList} {l : List (Bool × ℕ)} (h : Items s reg own refs)
    (ht : Tracks res reg) (hplain : Plain s)
    (hl : ∀ m ∈ l.map Prod.snd, (own m).isSome = true ∨ s.memInfos m = none)
    (hfold : l.foldlM SharedPb.freeAs ⟨res, s⟩ = some x') :
    (l.map Prod.snd).Nodup ∧ ∀ m ∈ l.map Prod.snd, (own m).isSome = true := by
  induction l generalizing s res reg own with
  | nil =>
    refine ⟨List.nodup_nil, fun m hm => ?_⟩
    cases hm
  | cons e l ih =>
    obtain ⟨shared, m⟩ := e
    rw [List.foldlM_cons] at hfold
    obtain ⟨y, hy, hrest⟩ := Option.bind_eq_some_iff.mp hfold
    rw [List.map_cons] at hl ⊢
    cases hl m List.mem_cons_self with
    | inr hgone =>
      cases shared <;> simp [SharedPb.freeAs, pvrsrvFreeDeviceMemKM, pvrsrvFreeSharedSysMemoryKM,
        SharedPb.freeInfo, hgone] at hy
    | inl hm =>
      obtain ⟨c, hc⟩ := Option.isSome_iff_exists.mp hm
      obtain ⟨res₁, reg₁, i, v, h₁, hi, hdrops, ht₁, hitems₁⟩ := h.freeAs ht hc shared
      rw [hdrops.freed (hplain.frees m)] at h₁ hitems₁ hdrops
      rw [h₁, Option.some.injEq] at hy
      rw [← hy] at hrest
      have hplain₁ := hplain.of_unmarked (hdrops.shrinks hi).2
      obtain ⟨hnodup, hall⟩ := ih hitems₁ ht₁ hplain₁ (fun n hn => by
        by_cases hnm : n = m
        · rw [hnm]
          exact .inr (withMem_self ..)
        · cases hl n (List.mem_cons_of_mem m hn) with
          | inl hown => exact .inl (by rw [Function.update_of_ne hnm]; exact hown)
          | inr hgone => exact .inr ((withMem_of_ne hnm _).trans hgone)) hrest
      have hnm (n : ℕ) (hn : n ∈ l.map Prod.snd) : n ≠ m ∧ (own n).isSome = true := by
        have hsome := hall n hn
        by_cases hnm : n = m
        · rw [hnm, Function.update_self] at hsome
          cases hsome
        · rw [Function.update_of_ne hnm] at hsome
          exact ⟨hnm, hsome⟩
      refine ⟨List.nodup_cons.mpr ⟨fun hmem => (hnm m hmem).1 rfl, hnodup⟩, fun n hn => ?_⟩
      cases List.mem_cons.mp hn with
      | inl hn => rw [hn, hm]
      | inr hn => exact (hnm n hn).2

theorem Good.add_answer (h : Good x reg own refs) {a : Except PvrsrvError ℕ}
    (hadd : sgxAddSharedPBDescKM x c call = some (a, x')) :
    (x.pb.psPerProcCreateSharedPB ≠ some c ∧ ∃ e, a = .error e) ∨
    x.pb.psPerProcCreateSharedPB = some c ∧ ∃ res reg',
      SharedPb.releaseLock x = some ⟨res, x.pb.lockedBy none none⟩ ∧
      Good ⟨res, x.pb.lockedBy none none⟩ reg' own refs ∧
      (∀ d, (res.contexts d).isSome = (x.res.contexts d).isSome) ∧
      ((x.pb.psStubPBDescListKM = [] ∧
          addNew ⟨res, x.pb.lockedBy none none⟩ c call = some (a, x')) ∨
        ∃ b l, x.pb.psStubPBDescListKM = b :: l ∧
          addExisting ⟨res, x.pb.lockedBy none none⟩ c b call = some (a, x')) := by
  by_cases hl : x.pb.psPerProcCreateSharedPB = some c
  · obtain ⟨res, reg', hrelease, hgood, hcontexts⟩ := h.releaseLock hl
    refine .inr ⟨hl, res, reg', hrelease, hgood, hcontexts, ?_⟩
    simp only [sgxAddSharedPBDescKM, hl, ne_eq, not_true_eq_false, if_false, hrelease,
      Option.bind_eq_bind, Option.bind_some] at hadd
    cases hlist : x.pb.psStubPBDescListKM with
    | nil =>
      simp only [PbState.lockedBy, hlist] at hadd
      exact .inl ⟨rfl, by simpa only [PbState.lockedBy, hlist] using hadd⟩
    | cons b l =>
      simp only [PbState.lockedBy, hlist] at hadd
      exact .inr ⟨b, l, rfl, by simpa only [PbState.lockedBy, hlist] using hadd⟩
  · rw [sgxAddSharedPBDescKM, if_pos hl] at hadd
    exact .inl ⟨hl, .errorGeneric, noAdd_answer hadd⟩

theorem Good.add_ok_iff (h : Good x reg own refs) {a : Except PvrsrvError ℕ}
    (hadd : sgxAddSharedPBDescKM x c call = some (a, x')) :
    (∃ p, a = .ok p) ↔ accepts x.pb c call := by
  cases h.add_answer hadd with
  | inl hrejected =>
    obtain ⟨hl, e, he⟩ := hrejected
    refine ⟨fun hok => ?_, fun hok => absurd hok.1 hl⟩
    obtain ⟨p, hp⟩ := hok
    rw [he] at hp
    cases hp
  | inr hheld =>
    obtain ⟨hl, res, reg', -, -, -, hcases⟩ := hheld
    cases hcases with
    | inl hnew =>
      rw [(addNew_answer hnew.2).1, accepts]
      exact ⟨fun hall => ⟨hl, hall.2.2, fun _ => ⟨hall.1, hall.2.1⟩⟩,
        fun hok => ⟨(hok.2.2 hnew.1).1, (hok.2.2 hnew.1).2, hok.2.1⟩⟩
    | inr hold =>
      obtain ⟨b, l, hlist, hstep⟩ := hold
      rw [addExisting_answer hstep, accepts]
      refine ⟨fun hitem => ⟨hl, hitem, fun hnil => ?_⟩, fun hok => hok.2.1⟩
      rw [hlist] at hnil
      cases hnil

/-- An add that is accepted named no memory twice, or put a descriptor that does on the list. -/
theorem Good.add_accepted (h : Good x reg own refs) (hc : (x.res.contexts c).isSome = true)
    (hown : ∀ m ∈ call.infos, (own m).isSome = true) (hplain : Plain x.pb)
    (hitem : ∀ p y, call.resItem = some p → registering x c call = some y →
      y.res.items p = none ∧ 0 < p ∧ p < 4294967296)
    (hadd : sgxAddSharedPBDescKM x c call = some (.ok p, x')) :
    (x.pb.psStubPBDescListKM = [] → ∃ b ∈ x'.pb.psStubPBDescListKM,
      x'.pb.stubs b = some call.descriptor) ∧
    (x.pb.psStubPBDescListKM ≠ [] → call.infos.Nodup) := by
  cases h.add_answer hadd with
  | inl hrejected =>
    obtain ⟨-, e, he⟩ := hrejected
    cases he
  | inr hheld =>
    obtain ⟨hl, res, reg₁, hrelease, hgood, hcontexts, hcases⟩ := hheld
    cases hcases with
    | inl hnew => exact ⟨fun _ => (addNew_answer hnew.2).2 ⟨p, rfl⟩, fun hne => absurd hnew.1 hne⟩
    | inr hold =>
      obtain ⟨b, l, hlist, hstep⟩ := hold
      refine ⟨fun hnil => absurd (hlist.symm.trans hnil) (List.cons_ne_nil b l), fun _ => ?_⟩
      rw [addExisting, Option.bind_eq_bind] at hstep
      obtain ⟨⟨item, y⟩, hr, hrest⟩ := Option.bind_eq_some_iff.mp hstep
      obtain ⟨hres, hy⟩ := registerShared_item hr
      have hy' : y = ⟨y.res, x.pb.lockedBy none none⟩ := congrArg (Pb.mk y.res) hy
      cases item with
      | none =>
        have hanswer := noAddKeepPB_answer hrest
        cases hanswer
      | some q =>
        have hreg : registering x c call = some ⟨res, x.pb.lockedBy none none⟩ := by
          simp [registering, hl, hrelease, PbState.lockedBy, hlist]
        obtain ⟨hfree, hpos, hlt⟩ := hitem q _ hres.symm hreg
        have hmem : b ∈ x.pb.psStubPBDescListKM := by
          rw [hlist]
          exact List.mem_cons_self
        obtain ⟨res₁, stub, hstub, hregister, hgood₁⟩ :=
          hgood.refer (c := c) (by rw [hcontexts]; exact hc) hfree hpos hlt hmem
        have hres₁ : y.res = res₁ := by
          simp only [registerShared, ← hres, hregister, Option.bind_eq_bind, Option.bind_some,
            Option.some.injEq, Prod.mk.injEq] at hr
          rw [← hr.2]
        obtain ⟨stub', hstub', hkeep⟩ := Option.bind_eq_some_iff.mp hrest
        have hsame : stub' = stub := by
          rw [hy] at hstub'
          exact Option.some.inj (hstub'.symm.trans hstub)
        rw [noAddKeepPB_eq] at hkeep
        obtain ⟨z, hfold, -⟩ := Option.map_eq_some_iff.mp hkeep
        rw [hsame, hy', hres₁] at hfold
        rw [← frees_infos] at hown ⊢
        exact (hgood₁.items.freeList_nodup hgood₁.tracks hplain (fun m hm => .inl (hown m hm))
          hfold).1

end PvrServices.SharedPb
