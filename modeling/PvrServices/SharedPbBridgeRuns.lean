import PvrServices.SharedPbBridge

set_option autoImplicit false

/-!
# The bridge to the shared parameter buffer over runs

Each handle of a process to memory is the only one, and its memory is that process's. An add keeps
the memory of the descriptors distinct exactly if it is turned down before it releases its first
handle, or names no handle twice and is accepted.
-/
namespace PvrServices.SharedPb
open Handles KeyedList Resman Runs Words
variable {x x' : AddSys} {t : HandleTable} {reg : Registry} {refs : List Ref} {c h m : ℕ}
  {q : AddIn} {f : Looked} {infos : List ℕ} {op : AddOp} {reply : AddReply}

def Distinct (s : PbState) : Prop :=
  ∀ b ∈ s.psStubPBDescListKM, ∀ stub, s.stubs b = some stub → stub.infos.Nodup ∧
    stub.ppsSubKernelMemInfos.length ≤ pvrsrvBridgeSgxSharedPBDescMaxSubMemInfos

/-- The call copies as many bytes as its count says, and is turned down with nothing done or
    accepted with the memory of the descriptors distinct. -/
structure Clean (x : AddSys) (q : AddIn) (out : AddOut) (x' : AddSys) : Prop where
  copied : ∀ n, out.copySize = some n → n = q.count * 4
  outcome : (out.rejected = true ∧ x' = x) ∨ out.rejected = false ∧ Distinct x'.sys.km.pb

/-- Whether an add whose handles are all found is accepted with distinct memory. -/
def adopts (s : PbState) (c : ℕ) (q : AddIn) : Bool :=
  q.named.Nodup && s.psPerProcCreateSharedPB = some c && q.resItem.isSome &&
    (!s.psStubPBDescListKM.isEmpty || q.stubMem.isSome && q.subMem &&
      q.count ≤ pvrsrvBridgeSgxSharedPBDescMaxSubMemInfos)

/-- An add stays before its first release, or its size does not wrap and it is accepted with
    distinct memory. -/
def addMeets (x : AddSys) (c : ℕ) (q : AddIn) : Bool :=
  !reachesCopy x c q || q.count < 1073741824 && (!allFound x c q || adopts x.sys.km.pb c q)

def meets (x : AddSys) : AddOp → Bool
  | .add c q => addMeets x c q
  | _ => true

def registeringBW (x : AddSys) (c : ℕ) (q : AddIn) : Option Pb :=
  match lookupFront (x.tables c) q, lookupInfos (x.tables c) q.count q.handles with
  | .ok f, some (.ok infos) => registering x.sys.km c (q.call f infos)
  | _, _ => none

/-- Items and memory that are handed out are not in use, and contexts are used while they are
    connected. -/
def addProper (x : AddSys) : AddOp → Bool
  | .pb (.alloc _ _ _ _ _) | .pb (.free _) | .pb (.add _ _) | .pb (.exportDeviceMem _ _)
  | .pb (.mapDeviceMemory _) | .pb (.unmapDeviceMemory _) | .pb (.devInitPart2 _)
  | .pb (.getInternalDevInfo _) => false
  | .pb op => proper x.sys op
  | .acquire _ _ | .free _ _ => true
  | .alloc c shared m resItem _ => proper x.sys (.alloc c (infoKind shared) ⟨false, false⟩ m resItem)
  | .add c q => (x.sys.km.res.contexts c).isSome && q.resItem.all fun p => placed p &&
    (registeringBW x c q).all fun y => (y.res.items p).isNone

/-- Handles to memory are the only ones, and their process owns the memory. -/
structure Linked (x : AddSys) : Prop where
  owner : ∀ c h m, Leads (x.tables c) h m → x.sys.handles m = some c
  unique : ∀ c, Relator.LeftUnique (Leads (x.tables c))

structure Held (x : AddSys) : Prop where
  good : ∃ reg refs, Good x.sys.km reg x.sys.handles refs
  plain : Plain x.sys.km.pb
  linked : Linked x
  small : ∀ b stub, x.sys.km.pb.stubs b = some stub →
    stub.ppsSubKernelMemInfos.length ≤ pvrsrvBridgeSgxSharedPBDescMaxSubMemInfos

theorem infoKind_plain (shared : Bool) : (infoKind shared).plain = true := by
  cases shared <;> rfl

theorem leftUnique_mono {t' : HandleTable} (ht : Relator.LeftUnique (Leads t))
    (hmono : ∀ h m, Leads t' h m → Leads t h m) : Relator.LeftUnique (Leads t') := by
  intro h h' m hl hl'
  exact ht (hmono h m hl) (hmono h' m hl')

theorem setHandle_tables (x : AddSys) (c h : ℕ) (o : Option (HandleType × ℕ)) (e n : ℕ) :
    (x.setHandle c h o).tables e n = if e = c ∧ n = h then o else x.tables e n := by
  by_cases hec : e = c
  · by_cases hn : n = h
    · simp [AddSys.setHandle, AddSys.setTable, hec, hn]
    · simp [AddSys.setHandle, AddSys.setTable, hec, hn]
  · simp [AddSys.setHandle, AddSys.setTable, hec]

theorem Linked.setHandle (hx : Linked x) {o : Option (HandleType × ℕ)}
    (ho : ∀ shared m, o ≠ some (infoType shared, m)) : Linked (x.setHandle c h o) := by
  have hmono (e n k : ℕ) (hl : Leads ((x.setHandle c h o).tables e) n k) :
      Leads (x.tables e) n k := by
    obtain ⟨shared, hh⟩ := hl
    rw [setHandle_tables] at hh
    by_cases hen : e = c ∧ n = h
    · rw [if_pos hen] at hh
      exact absurd hh (ho shared k)
    · rw [if_neg hen] at hh
      exact ⟨shared, hh⟩
  exact ⟨fun e n k hl => hx.owner e n k (hmono e n k hl),
    fun e => leftUnique_mono (hx.unique e) (hmono e)⟩

theorem Linked.mono (hx : Linked x) (htables : ∀ c h m, Leads (x'.tables c) h m →
    Leads (x.tables c) h m ∧ (x.sys.handles m = some c → x'.sys.handles m = some c)) :
    Linked x' := by
  refine ⟨fun c h m hl => ?_, fun c => leftUnique_mono (hx.unique c) fun h m hl =>
    (htables c h m hl).1⟩
  obtain ⟨hl, hkeep⟩ := htables c h m hl
  exact hkeep (hx.owner c h m hl)

theorem linked_init : Linked addInit := by
  refine ⟨fun c h m hl => ?_, fun c h h' m hl => ?_⟩
  · obtain ⟨shared, hh⟩ := hl
    cases hh
  · obtain ⟨shared, hh⟩ := hl
    cases hh

theorem held_init : Held addInit := by
  refine ⟨⟨_, _, good_init⟩, fun m i hi => ?_, linked_init, fun b stub hb => ?_⟩
  · cases hi
  · cases hb

theorem Kept.length_eq {s s' : PbState} (h : Kept s s') {b : ℕ} {old stub : StubPbDesc}
    (hold : s.stubs b = some old) (hb : s'.stubs b = some stub) :
    stub.ppsSubKernelMemInfos.length = old.ppsSubKernelMemInfos.length := by
  cases h b old hold with
  | inl hthere =>
    obtain ⟨stub', hstub', hinfos⟩ := hthere
    rw [hb, Option.some.injEq] at hstub'
    have hlen := congrArg List.length hinfos
    simp only [StubPbDesc.infos, List.length_append, List.length_cons, List.length_nil,
      ← hstub'] at hlen
    omega
  | inr hgone =>
    rw [hgone.1] at hb
    cases hb

theorem Held.small_of_kept (hx : Held x) {y : AddSys} (hkept : Kept x.sys.km.pb y.sys.km.pb)
    (hnew : ∀ b, x.sys.km.pb.stubs b = none → y.sys.km.pb.stubs b = none) (b : ℕ)
    (stub : StubPbDesc) (hb : y.sys.km.pb.stubs b = some stub) :
    stub.ppsSubKernelMemInfos.length ≤ pvrsrvBridgeSgxSharedPBDescMaxSubMemInfos := by
  cases hold : x.sys.km.pb.stubs b with
  | none =>
    rw [hnew b hold] at hb
    cases hb
  | some old =>
    rw [hkept.length_eq hold hb]
    exact hx.small b old hold

theorem Held.pb (hx : Held x) {op : PbOp} (hop : addProper x (.pb op) = true) :
    ∃ reply x', addStep x (.pb op) = some (reply, x') ∧ Held x' := by
  obtain ⟨reg, refs, hgood⟩ := hx.good
  have hyields : Yields x.sys.km.pb := fun _ _ _ _ m _ => hx.plain.frees m
  have hkinds : proper x.sys op = true ∧ settles x.sys op ∧ (∀ c call, op ≠ .add c call) ∧
      marks op = false := by
    cases op with
    | connect perProc mem => exact ⟨hop, trivial, by simp, rfl⟩
    | find c call => exact ⟨hop, trivial, by simp, rfl⟩
    | unref c p => exact ⟨hop, fun _ => hyields, by simp, rfl⟩
    | exit c => exact ⟨hop, fun _ => hyields, by simp, rfl⟩
    | _ => cases hop
  obtain ⟨hproper, hsettles, hnot, hmarks⟩ := hkinds
  obtain ⟨reply, s', reg', hstep, hgood', hhandled, hnew, hplain⟩ := hgood.step hproper hsettles
  refine ⟨.pb reply, ⟨s', tablesAfter x.tables op⟩, by simp [addStep, hstep], ⟨_, _, hgood'⟩,
    hplain hmarks hx.plain, ?_, hx.small_of_kept hhandled.kept (hnew hnot)⟩
  apply hx.linked.mono
  intro c h m hl
  cases op with
  | connect perProc mem =>
    obtain ⟨r, -, hr⟩ := Option.map_eq_some_iff.mp hstep
    rw [Prod.mk.injEq] at hr
    rw [← hr.2]
    exact ⟨hl, id⟩
  | find d call =>
    obtain ⟨r, -, hr⟩ := Option.map_eq_some_iff.mp hstep
    rw [Prod.mk.injEq] at hr
    rw [← hr.2]
    exact ⟨hl, id⟩
  | unref d p =>
    obtain ⟨r, -, hr⟩ := Option.map_eq_some_iff.mp hstep
    rw [Prod.mk.injEq] at hr
    rw [← hr.2]
    exact ⟨hl, id⟩
  | exit d =>
    obtain ⟨r, -, hr⟩ := Option.bind_eq_some_iff.mp hstep
    rw [Option.some.injEq, Prod.mk.injEq] at hr
    have hcd : c ≠ d := fun hcd => by
      obtain ⟨shared, hh⟩ := hl
      rw [hcd] at hh
      change Function.update x.tables d _ d h = _ at hh
      rw [Function.update_self] at hh
      cases hh
    have hl' : Leads (x.tables c) h m := by
      obtain ⟨shared, hh⟩ := hl
      change Function.update x.tables d _ c h = _ at hh
      rw [Function.update_of_ne hcd] at hh
      exact ⟨shared, hh⟩
    refine ⟨hl', fun hm => ?_⟩
    rw [← hr.2]
    change (x.sys.handles m).filter _ = some c
    rw [hm, Option.filter_some, if_pos (decide_eq_true hcd)]
  | _ => cases hop

theorem Held.acquire (hx : Held x) (c h : ℕ) :
    ∃ reply x', addStep x (.acquire c h) = some (reply, x') ∧ Held x' := by
  refine ⟨.done, _, rfl, hx.good, hx.plain, hx.linked.setHandle fun shared m => ?_, hx.small⟩
  cases shared <;> simp [infoType]

theorem Linked.setInfo (hx : Linked x) {shared : Bool} (hm : x.sys.handles m = some c)
    (hnot : ∀ d n, ¬Leads (x.tables d) n m) :
    Linked (x.setHandle c h (some (infoType shared, m))) := by
  have hold {d n k : ℕ} (hl : Leads ((x.setHandle c h (some (infoType shared, m))).tables d) n k) :
      (d = c ∧ n = h ∧ k = m) ∨ k ≠ m ∧ Leads (x.tables d) n k := by
    obtain ⟨shared', hh⟩ := hl
    rw [setHandle_tables] at hh
    by_cases hdn : d = c ∧ n = h
    · rw [if_pos hdn, Option.some.injEq, Prod.mk.injEq] at hh
      exact .inl ⟨hdn.1, hdn.2, hh.2.symm⟩
    · rw [if_neg hdn] at hh
      refine .inr ⟨fun hkm => hnot d n ⟨shared', ?_⟩, shared', hh⟩
      rw [← hkm]
      exact hh
  refine ⟨fun d n k hl => ?_, fun d n n' k hl hl' => ?_⟩
  · cases hold hl with
    | inl hnew =>
      rw [hnew.1, hnew.2.2]
      exact hm
    | inr hrest => exact hx.owner d n k hrest.2
  · cases hold hl with
    | inl hnew =>
      cases hold hl' with
      | inl hnew' => exact hnew.2.1.trans hnew'.2.1.symm
      | inr hrest' => exact absurd hnew.2.2 hrest'.1
    | inr hrest =>
      cases hold hl' with
      | inl hnew' => exact absurd hnew'.2.2 hrest.1
      | inr hrest' => exact hx.unique d hrest.2 hrest'.2

theorem Held.alloc (hx : Held x) {shared : Bool} {resItem o : Option ℕ}
    (hop : addProper x (.alloc c shared m resItem o) = true) :
    ∃ reply x', addStep x (.alloc c shared m resItem o) = some (reply, x') ∧ Held x' := by
  obtain ⟨reg, refs, hgood⟩ := hx.good
  simp only [addProper, proper, Bool.and_eq_true, Option.isNone_iff_eq_none] at hop
  obtain ⟨⟨hc, hm⟩, hitem⟩ := hop
  have hfree (p : ℕ) (hp : resItem = some p) : x.sys.km.res.items p = none := by
    simpa [hp] using hitem
  have hunowned : x.sys.handles m = none := by
    cases hown : x.sys.handles m with
    | none => rfl
    | some d =>
      obtain ⟨i, hi, -⟩ := hgood.items.owned m d hown
      rw [hm] at hi
      cases hi
  cases hgood.alloc hc hm (infoKind shared) ⟨false, false⟩ hfree with
  | inl hfail =>
    obtain ⟨e, hstep⟩ := hfail
    exact ⟨.pb (.allocated (.error e)), x, by simp [addStep, pbStep, hstep], hx⟩
  | inr hdone =>
    obtain ⟨item, res, reg', hstep, hgood'⟩ := hdone
    let y : AddSys := ⟨{ x.sys with
      km := ⟨res, x.sys.km.pb.setMem m (newInfo (infoKind shared) ⟨false, false⟩ item)⟩
      handles := Function.update x.sys.handles m (some c) }, x.tables⟩
    have hsmall := hx.small_of_kept (y := y) (Kept.of_stubs rfl) fun _ hb => hb
    have hnot (d n : ℕ) (hl : Leads (y.tables d) n m) : False := by
      rw [hx.linked.owner d n m hl] at hunowned
      cases hunowned
    have hlinked : Linked y := by
      apply hx.linked.mono
      intro d n k hl
      refine ⟨hl, fun hk => ?_⟩
      have hkm : k ≠ m := fun hkm => hnot d n (hkm ▸ hl)
      exact (Function.update_of_ne hkm ..).trans hk
    have hplain : Plain y.sys.km.pb := hx.plain.newMem rfl (infoKind_plain shared) m item
    have hy : Held y := ⟨⟨_, _, hgood'⟩, hplain, hlinked, hsmall⟩
    cases o with
    | none => exact ⟨.pb (.allocated (.ok m)), y, by simp [addStep, pbStep, hstep, y], hy⟩
    | some h =>
      refine ⟨.pb (.allocated (.ok m)), y.setHandle c h (some (infoType shared, m)),
        by simp [addStep, pbStep, hstep, y], ⟨_, _, hgood'⟩, hplain, ?_, hsmall⟩
      exact hlinked.setInfo (Function.update_self ..) hnot

theorem Held.free (hx : Held x) (c h : ℕ) :
    ∃ reply x', addStep x (.free c h) = some (reply, x') ∧ Held x' := by
  obtain ⟨reg, refs, hgood⟩ := hx.good
  by_cases hl : ∃ m, Leads (x.tables c) h m
  · obtain ⟨m, hm⟩ := hl
    have hmine := hx.linked.owner c h m hm
    have hproper : proper x.sys (.free m) = true := by
      rw [proper, hmine, Option.isSome_some, Bool.true_and]
      cases hi : x.sys.km.pb.memInfos m with
      | none => rfl
      | some i =>
        have hkind := (hx.plain m i hi).2
        rw [MemKind.plain] at hkind
        rw [Option.all_some, KernelMemInfo.shared, hkind, Bool.true_or]
    obtain ⟨reply, s', reg', hstep, hgood', hhandled, hnew, hplain⟩ :=
      hgood.step hproper trivial
    have hsmall := hx.small_of_kept (y := ⟨s', x.tables⟩) hhandled.kept (hnew (by simp))
    have htable : x.tables c h = some (.memInfo, m) ∨ x.tables c h = some (.sharedSysMemInfo, m) := by
      obtain ⟨shared, hh⟩ := hm
      cases shared
      · exact .inl hh
      · exact .inr hh
    have hcases : (reply = .refused ∧ s' = x.sys) ∨
        reply = .done ∧ s'.handles = x.sys.release [m] := by
      obtain ⟨i, -, hi⟩ := Option.bind_eq_some_iff.mp hstep
      split at hi
      · rw [Option.some.injEq, Prod.mk.injEq] at hi
        exact .inl ⟨hi.1.symm, hi.2.symm⟩
      · obtain ⟨km, -, hkm⟩ := Option.bind_eq_some_iff.mp hi
        rw [Option.some.injEq, Prod.mk.injEq] at hkm
        refine .inr ⟨hkm.1.symm, ?_⟩
        rw [← hkm.2]
    cases hcases with
    | inl hkept =>
      rw [hkept.1, hkept.2] at hstep
      refine ⟨.pb .refused, x, ?_, hx⟩
      cases htable with
      | inl hh => simp [addStep, hh, hstep]
      | inr hh => simp [addStep, hh, hstep]
    | inr hgone =>
      obtain ⟨hdone, hhandles⟩ := hgone
      rw [hdone] at hstep
      refine ⟨.pb .done, (⟨s', x.tables⟩ : AddSys).setHandle c h none, ?_, ⟨_, _, hgood'⟩,
        hplain rfl hx.plain, ?_, hsmall⟩
      · cases htable with
        | inl hh => simp [addStep, hh, hstep]
        | inr hh => simp [addStep, hh, hstep]
      · apply hx.linked.mono
        intro d n k hl
        obtain ⟨shared, hh⟩ := hl
        rw [setHandle_tables] at hh
        by_cases hdn : d = c ∧ n = h
        · rw [if_pos hdn] at hh
          cases hh
        · rw [if_neg hdn] at hh
          have hlead : Leads (x.tables d) n k := ⟨shared, hh⟩
          refine ⟨hlead, fun hk => ?_⟩
          have hkm : k ≠ m := fun hkm => by
            rw [hkm] at hlead hk
            rw [hk, Option.some.injEq] at hmine
            rw [hmine] at hlead hdn
            exact hdn ⟨rfl, hx.linked.unique c hlead hm⟩
          change s'.handles k = some d
          rw [hhandles, PbSys.release, if_neg (by simpa using hkm), hk]
  · refine ⟨.refused, x, ?_, hx⟩
    simp only [addStep]
    split
    · rename_i m hm
      exact absurd ⟨m, false, hm⟩ hl
    · rename_i m hm
      exact absurd ⟨m, true, hm⟩ hl
    · rfl

theorem Held.distinct (hx : Held x) : Distinct x.sys.km.pb := by
  obtain ⟨reg, refs, hgood⟩ := hx.good
  intro b hb stub hstub
  have hne : refs ≠ [] := fun hnil => by
    rw [(hgood.whole.empty hnil).1] at hb
    cases hb
  obtain ⟨b', stub', hlist, hstub', -, -, hnodup, -⟩ := hgood.whole.stub hne
  rw [hlist, List.mem_singleton] at hb
  rw [hb, hstub', Option.some.injEq] at hstub
  rw [← hstub]
  exact ⟨hnodup, hx.small b' stub' hstub'⟩

theorem Named.owned (hn : Named (x.tables c) q f infos) (hx : Linked x) :
    ∀ m ∈ (q.call f infos).infos, x.sys.handles m = some c := by
  have hall := hn.leads
  generalize q.named = hs at hall
  generalize (q.call f infos).infos = ms at hall
  induction hall with
  | nil =>
    intro m hm
    cases hm
  | cons hl _ ih =>
    intro m hm
    cases List.mem_cons.mp hm with
    | inl hm => exact hm ▸ hx.owner c _ _ hl
    | inr hm => exact ih m hm

theorem adopts_iff {s : PbState} : adopts s c q = true ↔ q.named.Nodup ∧
    s.psPerProcCreateSharedPB = some c ∧ q.resItem.isSome = true ∧
    (s.psStubPBDescListKM = [] → q.stubMem.isSome = true ∧ q.subMem = true ∧
      q.count ≤ pvrsrvBridgeSgxSharedPBDescMaxSubMemInfos) := by
  cases hlist : s.psStubPBDescListKM with
  | nil => simp [adopts, hlist, and_assoc]
  | cons b l => simp [adopts, hlist, and_assoc]

theorem Linked.release (hx : Linked x) (hn : Named (x.tables c) q f infos) (km : Pb) :
    Linked ⟨{ x.sys with km := km, handles := x.sys.release (q.call f infos).infos },
      Function.update x.tables c (erased (x.tables c) q.named)⟩ := by
  apply hx.mono
  intro d n k hl
  obtain ⟨shared, hh⟩ := hl
  by_cases hdc : d = c
  · rw [hdc]
    rw [hdc] at hh
    change Function.update x.tables c _ c n = _ at hh
    rw [Function.update_self] at hh
    by_cases hnamed : n ∈ q.named
    · rw [erased, if_pos hnamed] at hh
      cases hh
    · rw [erased, if_neg hnamed] at hh
      have hlead : Leads (x.tables c) n k := ⟨shared, hh⟩
      refine ⟨hlead, fun hk => ?_⟩
      have hnot : k ∉ (q.call f infos).infos := fun hmem =>
        hnamed ((hn.mem_iff (hx.unique c) hlead).mpr hmem)
      change (if k ∈ (q.call f infos).infos then none else x.sys.handles k) = some c
      rw [if_neg hnot, hk]
  · change Function.update x.tables c _ d n = _ at hh
    rw [Function.update_of_ne hdc] at hh
    have hlead : Leads (x.tables d) n k := ⟨shared, hh⟩
    refine ⟨hlead, fun hk => ?_⟩
    have hnot : k ∉ (q.call f infos).infos := fun hmem => by
      have hc' := hn.owned hx k hmem
      rw [hk, Option.some.injEq] at hc'
      exact hdc hc'
    change (if k ∈ (q.call f infos).infos then none else x.sys.handles k) = some d
    rw [if_neg hnot, hk]

theorem adopts_accepts {s : PbState} (hadopts : adopts s c q = true) :
    accepts s c (q.call f infos) := by
  obtain ⟨-, hl, hitem, hnew⟩ := adopts_iff.mp hadopts
  exact ⟨hl, hitem, fun hnil => ⟨(hnew hnil).1, (hnew hnil).2.1⟩⟩

theorem Held.added (hx : Held x) (hc : (x.sys.km.res.contexts c).isSome = true)
    (hitem : ∀ p y, q.resItem = some p → registering x.sys.km c (q.call f infos) = some y →
      y.res.items p = none ∧ 0 < p ∧ p < 4294967296)
    (hn : Named (x.tables c) q f infos)
    (hwords : q.count ≤ q.phKernelMemInfoHandles.length)
    (hadopts : adopts x.sys.km.pb c q = true) : ∃ out x',
      addReleased (x.setTable c (erased (x.tables c) q.named)) c q (q.call f infos) =
        some (out, x') ∧ out.copySize = some q.size ∧ out.rejected = false ∧ Held x' := by
  obtain ⟨reg, refs, hgood⟩ := hx.good
  obtain ⟨hnamed, hl, hres, hnew⟩ := adopts_iff.mp hadopts
  have hnodup := (hn.nodup_iff (hx.linked.unique c)).mp hnamed
  have hown (m : ℕ) (hm : m ∈ (q.call f infos).infos) : (x.sys.handles m).isSome = true := by
    rw [hn.owned hx.linked m hm]
    rfl
  obtain ⟨a, km', reg', hstep, hgood', hadded, hfresh, hmarks⟩ :=
    hgood.add_holder hl hc hnodup hown (fun _ m _ => hx.plain.frees m) hitem
  obtain ⟨p, hp⟩ := (hgood.add_ok_iff hstep).mpr (adopts_accepts hadopts)
  let y : AddSys := ⟨{ x.sys with km := km', handles := x.sys.release (q.call f infos).infos },
    Function.update x.tables c (erased (x.tables c) q.named)⟩
  have hlinked : Linked y := hx.linked.release hn km'
  have hsmall (b : ℕ) (stub : StubPbDesc) (hb : km'.pb.stubs b = some stub) :
      stub.ppsSubKernelMemInfos.length ≤ pvrsrvBridgeSgxSharedPBDescMaxSubMemInfos := by
    cases hold : x.sys.km.pb.stubs b with
    | none =>
      obtain ⟨hnil, hdesc⟩ := hfresh b stub hold hb
      rw [hdesc]
      change infos.length ≤ _
      rw [hn.length hwords]
      exact (hnew hnil).2.2
    | some old =>
      rw [hadded.kept.length_eq hold hb]
      exact hx.small b old hold
  have hplain : Plain y.sys.km.pb := hx.plain.of_unmarked hmarks
  have hy : Held y := ⟨⟨_, _, hgood'⟩, hplain, hlinked, hsmall⟩
  cases hdesc : q.hSharedPBDesc with
  | none =>
    refine ⟨⟨false, none, some q.size⟩, y, ?_, rfl, rfl, hy⟩
    simp [addReleased, AddSys.setTable, hstep, hp, hdesc, y]
  | some h =>
    refine ⟨⟨false, some h, some q.size⟩, y.setHandle c h (some (.sharedPbDesc, p)), ?_, rfl, rfl,
      ⟨_, _, hgood'⟩, hplain, hlinked.setHandle fun shared m => ?_, hsmall⟩
    · simp [addReleased, AddSys.setTable, hstep, hp, hdesc, y]
    · cases shared <;> simp [infoType]

/-- An add that names a handle twice, or is not accepted, is not clean once it has released its
    handles. -/
theorem Held.adopts_of_clean (hx : Held x) (hc : (x.sys.km.res.contexts c).isSome = true)
    (hitem : ∀ p y, q.resItem = some p → registering x.sys.km c (q.call f infos) = some y →
      y.res.items p = none ∧ 0 < p ∧ p < 4294967296)
    (hn : Named (x.tables c) q f infos)
    (hwords : q.count ≤ q.phKernelMemInfoHandles.length) {out : AddOut}
    (hstep : addReleased (x.setTable c (erased (x.tables c) q.named)) c q (q.call f infos) =
      some (out, x')) (hclean : Clean x q out x') : adopts x.sys.km.pb c q = true := by
  obtain ⟨reg, refs, hgood⟩ := hx.good
  have hown (m : ℕ) (hm : m ∈ (q.call f infos).infos) : (x.sys.handles m).isSome = true := by
    rw [hn.owned hx.linked m hm]
    rfl
  obtain ⟨⟨a, km'⟩, hkm, hout⟩ := Option.map_eq_some_iff.mp hstep
  have hkm' : sgxAddSharedPBDescKM x.sys.km c (q.call f infos) = some (a, km') := hkm
  cases a with
  | error e =>
    -- the handles are gone although the call is turned down
    rw [Prod.mk.injEq] at hout
    have hreleased : x'.tables c q.hSharedPBDescKernelMemInfo = none := by
      rw [← hout.2]
      change Function.update x.tables c _ c _ = none
      rw [Function.update_self, erased, if_pos (by simp [AddIn.named])]
    cases hclean.outcome with
    | inl hsame =>
      rw [hsame.2, hn.shared] at hreleased
      cases hreleased
    | inr haccepted =>
      rw [← hout.1] at haccepted
      cases haccepted.1
  | ok p =>
    have hsys : x'.sys.km = km' := by
      cases hdesc : q.hSharedPBDesc with
      | none =>
        simp only [hdesc, Prod.mk.injEq] at hout
        rw [← hout.2]
      | some h =>
        simp only [hdesc, Prod.mk.injEq] at hout
        rw [← hout.2]
        rfl
    have hdistinct : Distinct km'.pb := by
      cases hclean.outcome with
      | inl hsame =>
        rw [← hsys, hsame.2]
        exact hx.distinct
      | inr haccepted =>
        rw [← hsys]
        exact haccepted.2
    obtain ⟨hl, hres, hmem⟩ := (hgood.add_ok_iff hkm').mp ⟨p, rfl⟩
    obtain ⟨hnew, hold⟩ := hgood.add_accepted hc hown hx.plain hitem hkm'
    rw [adopts_iff, hn.nodup_iff (hx.linked.unique c)]
    by_cases hnil : x.sys.km.pb.psStubPBDescListKM = []
    · obtain ⟨b, hb, hstub⟩ := hnew hnil
      obtain ⟨hnodup, hlen⟩ := hdistinct b hb _ hstub
      refine ⟨hnodup, hl, hres, fun _ => ⟨(hmem hnil).1, (hmem hnil).2, ?_⟩⟩
      rw [← hn.length hwords]
      exact hlen
    · exact ⟨hold hnil, hl, hres, fun h => absurd h hnil⟩

theorem addProper_item (hop : addProper x (.add c q) = true)
    (hfront : lookupFront (x.tables c) q = .ok f)
    (hinfos : lookupInfos (x.tables c) q.count q.handles = some (.ok infos)) :
    (x.sys.km.res.contexts c).isSome = true ∧
      ∀ p y, q.resItem = some p → registering x.sys.km c (q.call f infos) = some y →
        y.res.items p = none ∧ 0 < p ∧ p < 4294967296 := by
  rw [addProper, Bool.and_eq_true] at hop
  refine ⟨hop.1, fun p y hp hy => ?_⟩
  have hboth : (0 < p ∧ p < 4294967296) ∧ y.res.items p = none := by
    simpa [hp, placed, registeringBW, hfront, hinfos, hy] using hop.2
  exact ⟨hboth.2, hboth.1⟩

theorem Held.add (hx : Held x) (hop : addProper x (.add c q) = true)
    (hmeets : addMeets x c q = true) :
    ∃ out x', sgxAddSharedPBDescBW x c q = some (out, x') ∧ Clean x q out x' ∧ Held x' := by
  cases hreach : reachesCopy x c q with
  | false =>
    refine ⟨_, x, not_reachesCopy hreach, ⟨fun n hn => ?_, .inl ⟨rfl, rfl⟩⟩, hx⟩
    cases hn
  | true =>
    obtain ⟨f, hfront, hstart⟩ := reachesCopy_front hreach
    have hrest : q.count < 1073741824 ∧
        (allFound x c q = true → adopts x.sys.km.pb c q = true) := by
      cases hfound : allFound x c q <;> simpa [addMeets, hreach, hfound] using hmeets
    obtain ⟨hlt, hadopts⟩ := hrest
    have hsize := q.size_eq_iff.mpr hlt
    rw [hstart]
    cases hfound : allFound x c q with
    | false =>
      refine ⟨_, x, not_allFound hlt hfound, ⟨fun n hn => ?_, .inl ⟨rfl, rfl⟩⟩, hx⟩
      exact (Option.some.inj hn).symm.trans hsize
    | true =>
      obtain ⟨infos, hn, hwords, hinfos, hcopied⟩ := allFound_named hlt hfront hfound
      obtain ⟨hc, hitem⟩ := addProper_item hop hfront hinfos
      obtain ⟨out, x', hstep, hcopy, haccepted, hx'⟩ :=
        hx.added hc hitem hn hwords (hadopts hfound)
      rw [hcopied]
      refine ⟨out, x', hstep, ⟨fun n hn => ?_, .inr ⟨haccepted, hx'.distinct⟩⟩, hx'⟩
      rw [hcopy, Option.some.injEq] at hn
      exact hn.symm.trans hsize

theorem Held.meets_of_clean (hx : Held x) (hop : addProper x (.add c q) = true) {out : AddOut}
    (hstep : sgxAddSharedPBDescBW x c q = some (out, x')) (hclean : Clean x q out x') :
    addMeets x c q = true := by
  cases hreach : reachesCopy x c q with
  | false => simp [addMeets, hreach]
  | true =>
    obtain ⟨f, hfront, hstart⟩ := reachesCopy_front hreach
    rw [hstart] at hstep
    have hlt := q.size_eq_iff.mp (hclean.copied _ (addCopied_size hstep))
    cases hfound : allFound x c q with
    | false => simp [addMeets, hlt, hfound]
    | true =>
      obtain ⟨infos, hn, hwords, hinfos, hcopied⟩ := allFound_named hlt hfront hfound
      obtain ⟨hc, hitem⟩ := addProper_item hop hfront hinfos
      rw [hcopied] at hstep
      have hadopts := hx.adopts_of_clean hc hitem hn hwords hstep hclean
      simp [addMeets, hlt, hadopts]

theorem Held.step (hx : Held x) (hop : addProper x op = true) (hmeets : meets x op = true) :
    ∃ reply x', addStep x op = some (reply, x') ∧ Held x' := by
  cases op with
  | pb op => exact hx.pb hop
  | acquire c h => exact hx.acquire c h
  | alloc c shared m resItem h => exact hx.alloc hop
  | free c h => exact hx.free c h
  | add c q =>
    obtain ⟨out, x', hstep, -, hx'⟩ := hx.add hop hmeets
    exact ⟨.added out, x', by simp [addStep, hstep], hx'⟩

variable {l : List (AddOp × AddReply)}

theorem held_run
    (hrun : Run addStep (fun x op => addProper x op = true ∧ meets x op = true) addInit l x) :
    Held x :=
  hrun.invariant Held held_init fun x op reply x' hx hop hs => by
    obtain ⟨reply', u, hu, hx'⟩ := hx.step hop.1 hop.2
    rw [hs, Option.some.injEq, Prod.mk.injEq] at hu
    rw [hu.2]
    exact hx'

/-- In every run whose adds meet the condition the memory of the descriptors is distinct, and the
    next add is answered and clean exactly if it meets the condition as well. -/
theorem adds_clean_over_runs
    (hrun : Run addStep (fun x op => addProper x op = true ∧ meets x op = true) addInit l x) :
    Distinct x.sys.km.pb ∧ ∀ c q, addProper x (.add c q) = true →
      ((∃ out x', sgxAddSharedPBDescBW x c q = some (out, x') ∧ Clean x q out x') ↔
        addMeets x c q = true) := by
  have hx := held_run hrun
  refine ⟨hx.distinct, fun c q hop => ⟨fun hclean => ?_, fun hmeets => ?_⟩⟩
  · obtain ⟨out, x', hstep, hclean⟩ := hclean
    exact hx.meets_of_clean hop hstep hclean
  · obtain ⟨out, x', hstep, hclean, -⟩ := hx.add hop hmeets
    exact ⟨out, x', hstep, hclean⟩

def lockedOps : List AddOp :=
  [.pb (.connect 1 (some 4096)), .acquire 4096 1, .alloc 4096 true 8192 (some 16384) (some 2),
    .alloc 4096 false 8200 (some 16392) (some 3), .alloc 4096 true 8208 (some 16400) (some 4),
    .alloc 4096 false 8216 (some 16408) (some 5),
    .pb (.find 4096 ⟨true, true, some 16416⟩)]

def addIn (handles : List ℕ) : AddIn :=
  ⟨1, 2, 3, 4, 65536, handles, UInt32.ofNat handles.length, true, true, true, true, some 12288,
    true, some 16424, some 6⟩

theorem adds_clean_over_sample : ∃ l x, exec addStep addInit lockedOps = some (l, x) ∧
    Distinct x.sys.km.pb ∧ (∃ out x', sgxAddSharedPBDescBW x 4096 (addIn [5]) = some (out, x') ∧
      Clean x (addIn [5]) out x') ∧
    ¬∃ out x', sgxAddSharedPBDescBW x 4096 (addIn [5, 5]) = some (out, x') ∧
      Clean x (addIn [5, 5]) out x' := by
  have hsome : (exec addStep addInit lockedOps).map (fun r =>
      ((addProper r.2 (.add 4096 (addIn [5])), addMeets r.2 4096 (addIn [5])),
        addProper r.2 (.add 4096 (addIn [5, 5])), addMeets r.2 4096 (addIn [5, 5]))) =
      some ((true, true), true, false) := by decide +kernel
  obtain ⟨⟨l, x⟩, hexec, hlook⟩ := Option.map_eq_some_iff.mp hsome
  simp only [Prod.mk.injEq] at hlook
  have hallowed : Allowed addStep (fun x op => (addProper x op && meets x op) = true) addInit
      lockedOps := allowed_of_allows (by decide +kernel)
  have hrun : Run addStep (fun x op => addProper x op = true ∧ meets x op = true) addInit l x :=
    (Run.of_allowed hexec hallowed).mono fun _ _ h => Bool.and_eq_true_iff.mp h
  obtain ⟨hdistinct, hall⟩ := adds_clean_over_runs hrun
  refine ⟨l, x, hexec, hdistinct, (hall 4096 _ hlook.1.1).mpr hlook.1.2, fun hclean => ?_⟩
  have hmeets := (hall 4096 _ hlook.2.1).mp hclean
  rw [hlook.2.2] at hmeets
  cases hmeets

def adoptedBy (x : AddSys) (c : ℕ) (q : AddIn) : Option (List ℕ) := do
  let (out, x') ← sgxAddSharedPBDescBW x c q
  let b ← x'.sys.km.pb.psStubPBDescListKM.head?
  let stub ← x'.sys.km.pb.stubs b
  if out.rejected then none else some stub.infos

/-- The holder of the lock names a handle to memory twice, and the descriptor owns it twice. -/
theorem adopted_twice : ¬∀ l x, Run addStep (fun x op => addProper x op = true) addInit l x →
    ∀ c q, addProper x (.add c q) = true →
      ∃ out x', sgxAddSharedPBDescBW x c q = some (out, x') ∧ Clean x q out x' := by
  intro hclaim
  have hsome : (exec addStep addInit lockedOps).map (fun r =>
      (addProper r.2 (.add 4096 (addIn [5, 5])), adoptedBy r.2 4096 (addIn [5, 5]))) =
      some (true, some [8216, 8216, 8192, 8200, 8208]) := by
    decide +kernel
  obtain ⟨⟨l, x⟩, hexec, hlook⟩ := Option.map_eq_some_iff.mp hsome
  rw [Prod.mk.injEq] at hlook
  have hallowed : Allowed addStep (fun x op => addProper x op = true) addInit lockedOps :=
    allowed_of_allows (by decide +kernel)
  obtain ⟨out, x', hstep, hclean⟩ := hclaim l x (Run.of_allowed hexec hallowed) 4096 _ hlook.1
  have hadopted := hlook.2
  rw [adoptedBy, hstep, Option.bind_eq_bind, Option.bind_some] at hadopted
  obtain ⟨b, hb, hrest⟩ := Option.bind_eq_some_iff.mp hadopted
  obtain ⟨stub, hstub, hinfos⟩ := Option.bind_eq_some_iff.mp hrest
  cases hclean.outcome with
  | inl hsame =>
    rw [if_pos hsame.1] at hinfos
    cases hinfos
  | inr haccepted =>
    rw [if_neg (by rw [haccepted.1]; exact Bool.false_ne_true), Option.some.injEq] at hinfos
    have hnodup := (haccepted.2 b (List.mem_of_head? hb) stub hstub).1
    rw [hinfos] at hnodup
    revert hnodup
    decide

end PvrServices.SharedPb
