import PvrServices.MmuTables

set_option autoImplicit false

/-!
# Failures of `MMU_Alloc`

Page tables are made slot by slot, and a step that fails leaves the slots before it with their
tables and its own half made. Everything the call has got stays with a slot, except for a block of
local memory that cannot be mapped.
-/
namespace PvrServices.MmuTables
open Words BlockHeap Runs
open OsAreas (hasFlag memUserSuppliedDevvaddr)

variable {h : MmuHeap} {c : AllocCall} {s t u : Mmu} {i j k p : ℕ} {r : Bool × Mmu}

def HasInfo (h : MmuHeap) (c : AllocCall) (s : Mmu) (i k : ℕ) : Prop :=
  (s.slot h.psMMUContext k).isSome = true ∨ c.ptInfo i = true

def Passes (h : MmuHeap) (c : AllocCall) (s : Mmu) (i k : ℕ) : Prop :=
  s.missing h.psMMUContext k = false ∨ (HasInfo h c s i k ∧ c.page i ≠ none ∧
    (h.psLocalDevMemArena = true → c.linear i = true))

def Unmapped (h : MmuHeap) (c : AllocCall) (s : Mmu) (i k : ℕ) : Prop :=
  s.missing h.psMMUContext k = true ∧ HasInfo h c s i k ∧ c.page i ≠ none ∧
    h.psLocalDevMemArena = true ∧ c.linear i = false

theorem Unmapped.stops (hu : Unmapped h c s i k) : ¬Passes h c s i k := by
  obtain ⟨hmiss, -, -, hlocal, hlin⟩ := hu
  intro hp
  cases hp with
  | inl hb =>
    rw [hmiss] at hb
    cases hb
  | inr hp =>
    rw [hp.2.2 hlocal] at hlin
    cases hlin

structure Prepared (h : MmuHeap) (k : ℕ) (s t : Mmu) : Prop where
  segments : t.segments = s.segments
  list : t.pvMMUContextList = s.pvMMUContextList
  slots : ∀ x j, x ≠ h.psMMUContext ∨ j ≠ k → t.slot x j = s.slot x j
  missing : t.missing h.psMMUContext k = s.missing h.psMMUContext k
  built : s.missing h.psMMUContext k = false → t.slot h.psMMUContext k = s.slot h.psMMUContext k
  empty : s.missing h.psMMUContext k = true → ∀ info, t.slot h.psMMUContext k = some info →
    info.ptPageCpuVAddr = 0
  entries : ∀ x j, t.entry x j = s.entry x j

structure Entered (h : MmuHeap) (k p : ℕ) (s t : Mmu) : Prop where
  segments : t.segments = s.segments
  list : t.pvMMUContextList = s.pvMMUContextList
  pos : p ≠ 0
  pages : Added s.pages.blocks t.pages.blocks p
  slot : ∃ info, t.slot h.psMMUContext k = some info ∧ info.ptPageCpuVAddr = p
  slots : ∀ x j, x ≠ h.psMMUContext ∨ j ≠ k → t.slot x j = s.slot x j
  entry : ∀ x ∈ h.targets s, t.entry x k = pdeOf p
  entries : ∀ x j, x ∉ h.targets s ∨ j ≠ k → t.entry x j = s.entry x j

theorem missing_empty {info : PtInfo} (hm : s.missing h.psMMUContext k = true)
    (hs : s.slot h.psMMUContext k = some info) : info.ptPageCpuVAddr = 0 := by
  by_contra hp
  rw [missing_of_slot hs hp] at hm
  cases hm

theorem missing_setSlot : (s.setSlot h.psMMUContext k (some ⟨0, 0⟩)).missing h.psMMUContext k =
    true := by
  unfold Mmu.missing
  rw [slot_setSlot, if_pos ⟨rfl, rfl⟩]
  rfl

theorem prepared_setSlot (hm : s.missing h.psMMUContext k = true) :
    Prepared h k s (s.setSlot h.psMMUContext k (some ⟨0, 0⟩)) where
  segments := rfl
  list := rfl
  slots x j hx := by
    rw [slot_setSlot, if_neg]
    intro hboth
    cases hx with
    | inl hne => exact hne hboth.1
    | inr hne => exact hne hboth.2
  missing := missing_setSlot.trans hm.symm
  built hb := by
    rw [hm] at hb
    cases hb
  empty _ info hs := by
    rw [slot_setSlot, if_pos ⟨rfl, rfl⟩] at hs
    rw [← Option.some.inj hs]
  entries x j := entry_setSlot

theorem Prepared.refl : Prepared h k s s where
  segments := rfl
  list := rfl
  slots _ _ _ := rfl
  missing := rfl
  built _ := rfl
  empty hm _ hs := missing_empty hm hs
  entries _ _ := rfl

theorem Prepared.trans (hp : Prepared h k s t) (hq : Prepared h k t u) : Prepared h k s u where
  segments := hq.segments.trans hp.segments
  list := hq.list.trans hp.list
  slots x j hx := (hq.slots x j hx).trans (hp.slots x j hx)
  missing := hq.missing.trans hp.missing
  built hb := (hq.built (hp.missing.trans hb)).trans (hp.built hb)
  empty hm := hq.empty (hp.missing.trans hm)
  entries x j := (hq.entries x j).trans (hp.entries x j)

theorem Prepared.withPages (hp : Prepared h k s t) (pages : Heap Table) :
    Prepared h k s { t with pages := pages } :=
  ⟨hp.segments, hp.list, hp.slots, hp.missing, hp.built, hp.empty, hp.entries⟩

theorem allocPtInfo_spec : Prepared h k s (allocPtInfo h c i k s).2 ∧
    (allocPtInfo h c i k s).2.pages = s.pages ∧
    ((allocPtInfo h c i k s).1 = true ↔ HasInfo h c s i k) := by
  unfold allocPtInfo HasInfo
  by_cases hslot : (s.slot h.psMMUContext k).isSome = true
  · rw [if_pos hslot]
    exact ⟨.refl, rfl, fun _ => .inl hslot, fun _ => rfl⟩
  · rw [if_neg hslot]
    have hm : s.missing h.psMMUContext k = true := by
      unfold Mmu.missing
      rw [Option.not_isSome_iff_eq_none.mp hslot]
      rfl
    by_cases hinfo : c.ptInfo i = true
    · rw [if_pos hinfo]
      exact ⟨prepared_setSlot hm, rfl, fun _ => .inr hinfo, fun _ => rfl⟩
    · rw [if_neg hinfo]
      refine ⟨.refl, rfl, fun hf => ?_, fun hor => ?_⟩
      · cases hf
      · exact absurd hor (not_or.mpr ⟨hslot, hinfo⟩)

theorem Prepared.entered (hp : Prepared h k s t) (hpages : t.pages = s.pages)
    (he : Entered h k p t u) : Entered h k p s u where
  segments := he.segments.trans hp.segments
  list := he.list.trans hp.list
  pos := he.pos
  pages := by
    rw [← hpages]
    exact he.pages
  slot := he.slot
  slots x j hx := (he.slots x j hx).trans (hp.slots x j hx)
  entry := by
    rw [← MmuHeap.targets_eq hp.list]
    exact he.entry
  entries x j hx := by
    rw [← MmuHeap.targets_eq (h := h) hp.list] at hx
    exact (he.entries x j hx).trans (hp.entries x j)

theorem enterTable_spec {pages : Heap Table} {n : ℕ} {table : Table} {info : PtInfo}
    (ha : Allocates s.pages pages p n table) (hinfo : info.ptPageCpuVAddr = p) :
    ∃ t, enterTable h k p info { s with pages := pages } = some (true, t) ∧
      Entered h k p s t := by
  have hwrite := Heap.write_eq (x := fun _ => (0 : ℕ)) ha.new
  unfold enterTable
  dsimp only
  rw [hwrite, Option.bind_eq_bind, Option.bind_some]
  refine ⟨_, rfl, ?_⟩
  obtain ⟨hsegments, hlist, hpages, hslots⟩ := setEntries_frame (k := k) (v := pdeOf p)
    (l := h.targets s) (s := { s.setSlot h.psMMUContext k (some info) with pages := {
      pages with blocks := Function.update pages.blocks p (some ⟨n, fun _ => 0⟩) } })
  constructor
  · exact hsegments
  · exact hlist
  · exact ha.pos
  · have hblocks := congrArg (fun q : Heap Table => Added s.pages.blocks q.blocks p) hpages
    exact hblocks.mpr (ha.added.written _)
  · refine ⟨info, ?_, hinfo⟩
    refine (hslots _ _).trans ?_
    exact (slot_setSlot (s := s) (x := h.psMMUContext)).trans (if_pos ⟨rfl, rfl⟩)
  · intro x j hx
    refine (hslots _ _).trans ?_
    refine (slot_setSlot (s := s) (x := h.psMMUContext)).trans (if_neg ?_)
    intro hboth
    exact hx.elim (fun hne => hne hboth.1) fun hne => hne hboth.2
  · intro x hx
    exact setEntries_entry.trans (if_pos ⟨hx, rfl⟩)
  · intro x j hx
    refine setEntries_entry.trans ((if_neg ?_).trans entry_setSlot)
    intro hboth
    exact hx.elim (fun hne => hne hboth.1) fun hne => hne hboth.2

theorem Entered.within (he : Entered h k p s t) (ha : Agreed h k s)
    (hm : s.missing h.psMMUContext k = true) : Within h (fun j => j = k) s t where
  list := he.list
  pages q b hq := by
    have hne : q ≠ p := by
      intro hqp
      rw [hqp, he.pages.fresh] at hq
      cases hq
    rw [he.pages.others q hne]
    exact hq
  slots := he.slots
  built x j hb := by
    apply he.slots x j
    by_contra hboth
    obtain ⟨hx, hj⟩ := not_or.mp hboth
    rw [not_not.mp hx, not_not.mp hj, hm] at hb
    cases hb
  entries := he.entries
  set x j h0 := by
    apply he.entries x j
    by_contra hboth
    obtain ⟨hx, hj⟩ := not_or.mp hboth
    cases ha with
    | inl hzero =>
      rw [not_not.mp hj] at h0
      exact h0 (hzero.2 x (not_not.mp hx))
    | inr ht =>
      rw [ht.built] at hm
      cases hm

theorem Entered.tabled (he : Entered h k p s t) : Tabled h k t := by
  obtain ⟨info, hslot, hpage⟩ := he.slot
  refine ⟨info, hslot, ?_, ?_, ?_⟩
  · rw [hpage]
    exact he.pos
  · rw [hpage]
    exact he.pages.live
  · rw [MmuHeap.targets_eq he.list, hpage]
    exact he.entry

theorem Entered.found (he : Entered h k p s t) : Found s t := by
  intro q hq hn
  obtain ⟨info, hslot, hpage⟩ := he.slot
  have hqp : q = p := by
    by_contra hne
    rw [he.pages.others q hne] at hn
    exact hn hq
  rw [hqp]
  exact ⟨_, k, info, hslot, hpage, he.pos⟩

theorem bounded_added {f g : ℕ → Option (Block Table)} (hb : ∃ n, ∀ q, n ≤ q → f q = none)
    (ha : Added f g p) : ∃ n, ∀ q, n ≤ q → g q = none := by
  obtain ⟨n, hn⟩ := hb
  refine ⟨max n (p + 1), fun q hq => ?_⟩
  have hne : q ≠ p := by omega
  rw [ha.others q hne]
  exact hn q (by omega)

theorem null_added {f g : ℕ → Option (Block Table)} (h0 : f 0 = none) (hp : p ≠ 0)
    (ha : Added f g p) : g 0 = none := by
  rw [ha.others 0 hp.symm]
  exact h0

theorem Entered.sound (he : Entered h k p s t) (hs : Sound s) : Sound t where
  live x j info hslot hpage := by
    by_cases hk : x = h.psMMUContext ∧ j = k
    · obtain ⟨info', hslot', hpage'⟩ := he.slot
      rw [hk.1, hk.2, hslot'] at hslot
      rw [← Option.some.inj hslot, hpage']
      exact he.pages.live
    · rw [he.slots x j (not_and_or.mp hk)] at hslot
      have hold := hs.live x j info hslot hpage
      have hne : info.ptPageCpuVAddr ≠ p := by
        intro heq
        rw [heq] at hold
        exact hold he.pages.fresh
      rw [he.pages.others _ hne]
      exact hold
  null := null_added hs.null he.pos he.pages
  bounded := bounded_added hs.bounded he.pages

theorem Prepared.within (hp : Prepared h k s t)
    (hpages : ∀ q b, s.pages.blocks q = some b → t.pages.blocks q = some b) :
    Within h (fun j => j = k) s t where
  list := hp.list
  pages := hpages
  slots := hp.slots
  built x j hb := by
    by_cases hk : x = h.psMMUContext ∧ j = k
    · rw [hk.1, hk.2] at hb ⊢
      exact hp.built hb
    · exact hp.slots x j (not_and_or.mp hk)
  entries x j _ := hp.entries x j
  set x j _ := hp.entries x j

theorem Prepared.agreed (hp : Prepared h k s t) (ha : Agreed h k s)
    (hw : Within h (fun j => j = k) s t) : Agreed h k t := by
  cases ha with
  | inr ht => exact .inr (hw.tabled ht)
  | inl hz =>
    refine .inl ⟨hp.missing.trans hz.1, fun x hx => ?_⟩
    rw [MmuHeap.targets_eq hp.list] at hx
    exact (hp.entries x k).trans (hz.2 x hx)

theorem Prepared.named (hp : Prepared h k s t) {x : ℕ} {info : PtInfo}
    (hslot : t.slot x j = some info) (h0 : info.ptPageCpuVAddr ≠ 0) : s.slot x j = some info := by
  by_cases hk : x = h.psMMUContext ∧ j = k
  · rw [hk.1, hk.2] at hslot ⊢
    by_cases hb : s.missing h.psMMUContext k = false
    · rw [← hp.built hb]
      exact hslot
    · exact absurd (hp.empty (Bool.of_not_eq_false hb) info hslot) h0
  · rw [← hp.slots x j (not_and_or.mp hk)]
    exact hslot

theorem Prepared.sound (hp : Prepared h k s t) (hs : Sound s)
    (hpages : ∀ q, s.pages.blocks q ≠ none → t.pages.blocks q ≠ none)
    (hnull : t.pages.blocks 0 = none) (hb : ∃ n, ∀ q, n ≤ q → t.pages.blocks q = none) :
    Sound t where
  live x j info hslot h0 := hpages _ (hs.live x j info (hp.named hslot h0) h0)
  null := hnull
  bounded := hb

inductive TableEnds (h : MmuHeap) (c : AllocCall) (i k : ℕ) (s : Mmu) (r : Bool × Mmu) : Prop where
  | without (hpage : c.page i = none) (hfails : r.1 = false) (hp : Prepared h k s r.2)
      (hsame : r.2.pages = s.pages)
  | made (p : ℕ) (hpage : c.page i = some p)
      (hlin : h.psLocalDevMemArena = true → c.linear i = true) (hok : r.1 = true)
      (he : Entered h k p s r.2)
  | unmapped (p : ℕ) (hpage : c.page i = some p) (hlocal : h.psLocalDevMemArena = true)
      (hlin : c.linear i = false) (hfails : r.1 = false) (hp : Prepared h k s r.2) (h0 : p ≠ 0)
      (ha : Added s.pages.blocks r.2.pages.blocks p)

theorem systemTable_ends (hl : h.psLocalDevMemArena = false)
    (hr : systemTable h c i k s = some r) : TableEnds h c i k s r := by
  unfold systemTable at hr
  obtain ⟨⟨p, pages⟩, halloc, hr⟩ := Option.bind_eq_some_iff.mp hr
  dsimp only at hr
  cases Heap.alloc_spec halloc with
  | inl hfail =>
    rw [if_pos hfail.2.1] at hr
    rw [← Option.some.inj hr]
    exact .without hfail.1 rfl (Prepared.refl.withPages pages) hfail.2.2
  | inr hgot =>
    obtain ⟨t, hentered, he⟩ := enterTable_spec (s := s) (h := h) (k := k) hgot.2
      (rfl : PtInfo.ptPageCpuVAddr ⟨p, p⟩ = p)
    rw [if_neg hgot.2.pos, hentered] at hr
    rw [← Option.some.inj hr]
    refine .made p hgot.1 (fun hlocal => ?_) rfl he
    rw [hl] at hlocal
    cases hlocal

theorem localTable_ends (hl : h.psLocalDevMemArena = true)
    (hm : s.missing h.psMMUContext k = true) (hr : localTable h c i k s = some r) :
    TableEnds h c i k s r := by
  unfold localTable at hr
  obtain ⟨⟨p, pages⟩, halloc, hr⟩ := Option.bind_eq_some_iff.mp hr
  dsimp only at hr
  cases Heap.alloc_spec halloc with
  | inl hfail =>
    rw [if_pos hfail.2.1] at hr
    rw [← Option.some.inj hr]
    exact .without hfail.1 rfl (Prepared.refl.withPages pages) hfail.2.2
  | inr hgot =>
    rw [if_neg hgot.2.pos] at hr
    by_cases hlin : c.linear i = true
    · obtain ⟨t, hentered, he⟩ := enterTable_spec (s := s) (h := h) (k := k) hgot.2
        (rfl : PtInfo.ptPageCpuVAddr ⟨0, p⟩ = p)
      rw [if_pos hlin, hentered] at hr
      rw [← Option.some.inj hr]
      exact .made p hgot.1 (fun _ => hlin) rfl he
    · rw [if_neg hlin] at hr
      rw [← Option.some.inj hr]
      exact .unmapped p hgot.1 hl (Bool.of_not_eq_true hlin) rfl
        ((prepared_setSlot hm).withPages pages) hgot.2.pos hgot.2.added

theorem allocTable_ends (hm : s.missing h.psMMUContext k = true)
    (hr : allocTable h c i k s = some r) : TableEnds h c i k s r := by
  unfold allocTable at hr
  by_cases hl : h.psLocalDevMemArena = true
  · rw [if_pos hl] at hr
    exact localTable_ends hl hm hr
  · rw [if_neg hl] at hr
    exact systemTable_ends (Bool.of_not_eq_true hl) hr

structure RoundEnds (h : MmuHeap) (c : AllocCall) (i k : ℕ) (s : Mmu) (r : Bool × Mmu) : Prop where
  segments : r.2.segments = s.segments
  within : Within h (fun j => j = k) s r.2
  agreed : Agreed h k r.2
  sound : Sound r.2
  tabled : r.1 = true → Tabled h k r.2
  passes : r.1 = true ↔ Passes h c s i k
  found : Found s r.2 ↔ ¬Unmapped h c s i k

theorem found_of_pages (hpages : t.pages = s.pages) : Found s t := by
  intro p hp hn
  rw [hpages] at hn
  exact absurd hp hn

theorem Prepared.roundEnds {b : Bool} (hp : Prepared h k s t) (hpages : t.pages = s.pages)
    (ha : Agreed h k s) (hs : Sound s) (hb : b = true → s.missing h.psMMUContext k = false)
    (hpasses : b = true ↔ Passes h c s i k) (hu : ¬Unmapped h c s i k) :
    RoundEnds h c i k s (b, t) := by
  have hw : Within h (fun j => j = k) s t := hp.within fun q b hq => by rw [hpages]; exact hq
  refine ⟨hp.segments, hw, hp.agreed ha hw, ?_, ?_, hpasses, fun _ => hu, fun _ => ?_⟩
  · apply hp.sound hs
    · intro q hq
      rw [hpages]
      exact hq
    · rw [hpages]
      exact hs.null
    · rw [hpages]
      exact hs.bounded
  · intro htrue
    exact hw.tabled (ha.tabled (hb htrue))
  · exact found_of_pages hpages

theorem Entered.roundEnds (he : Entered h k p s t) (ha : Agreed h k s) (hs : Sound s)
    (hm : s.missing h.psMMUContext k = true) (hpasses : Passes h c s i k) :
    RoundEnds h c i k s (true, t) where
  segments := he.segments
  within := he.within ha hm
  agreed := .inr he.tabled
  sound := he.sound hs
  tabled _ := he.tabled
  passes := ⟨fun _ => hpasses, fun _ => rfl⟩
  found := ⟨fun _ hu => hu.stops hpasses, fun _ => he.found⟩

theorem Prepared.roundEnds_unmapped (hp : Prepared h k s t) (ha : Agreed h k s) (hs : Sound s)
    (h0 : p ≠ 0) (hadd : Added s.pages.blocks t.pages.blocks p) (hu : Unmapped h c s i k) :
    RoundEnds h c i k s (false, t) := by
  have hkept : ∀ q b, s.pages.blocks q = some b → t.pages.blocks q = some b := by
    intro q b hq
    have hne : q ≠ p := by
      intro hqp
      rw [hqp, hadd.fresh] at hq
      cases hq
    rw [hadd.others q hne]
    exact hq
  have hw := hp.within hkept
  refine ⟨hp.segments, hw, hp.agreed ha hw, ?_, fun hf => ?_, ?_, ?_⟩
  · exact hp.sound hs (fun q hq => hw.live hq) (null_added hs.null h0 hadd)
      (bounded_added hs.bounded hadd)
  · cases hf
  · exact ⟨fun hf => absurd hf Bool.false_ne_true, fun hpasses => absurd hpasses hu.stops⟩
  · refine ⟨fun hf => ?_, fun hn => absurd hu hn⟩
    obtain ⟨x, j, info, hslot, hpage, hne⟩ := hf p hadd.fresh hadd.live
    rw [← hpage] at hne
    have hlive := hs.live x j info (hp.named hslot hne) hne
    rw [hpage] at hlive
    exact absurd hadd.fresh hlive

theorem tableRound_ends (ha : Agreed h k s) (hs : Sound s) (hr : tableRound h c i k s = some r) :
    RoundEnds h c i k s r := by
  obtain ⟨hprep, hpages, hinfo⟩ := allocPtInfo_spec (h := h) (c := c) (i := i) (k := k) (s := s)
  unfold tableRound at hr
  generalize allocPtInfo h c i k s = q at hprep hpages hinfo hr
  by_cases hq : q.1 = true
  · rw [if_pos hq] at hr
    have hhas := hinfo.mp hq
    by_cases hm : q.2.missing h.psMMUContext k = true
    · rw [if_pos hm] at hr
      have hms := hprep.missing.symm.trans hm
      cases allocTable_ends hm hr with
      | without hpage hfails hp hsame =>
        have hstops : ¬Passes h c s i k := by
          intro hpass
          cases hpass with
          | inl hb =>
            rw [hms] at hb
            cases hb
          | inr hpass => exact hpass.2.1 hpage
        have hnot : ¬Unmapped h c s i k := fun hu => hu.2.2.1 hpage
        have hfalse : r.1 ≠ true := by
          rw [hfails]
          exact Bool.false_ne_true
        exact (hprep.trans hp).roundEnds (b := r.1) (hsame.trans hpages) ha hs
          (fun hf => absurd hf hfalse) ⟨fun hf => absurd hf hfalse, fun hp => absurd hp hstops⟩ hnot
      | made p hpage hlin hok he =>
        have hpasses : Passes h c s i k := by
          refine .inr ⟨hhas, ?_, hlin⟩
          rw [hpage]
          exact Option.some_ne_none p
        have hends := (hprep.entered hpages he).roundEnds ha hs hms hpasses
        rw [← hok] at hends
        exact hends
      | unmapped p hpage hlocal hlin hfails hp h0 hadd =>
        have hu : Unmapped h c s i k := by
          refine ⟨hms, hhas, ?_, hlocal, hlin⟩
          rw [hpage]
          exact Option.some_ne_none p
        rw [hpages] at hadd
        have hends := (hprep.trans hp).roundEnds_unmapped ha hs h0 hadd hu
        rw [← hfails] at hends
        exact hends
    · rw [if_neg hm] at hr
      have hms := hprep.missing.symm.trans (Bool.of_not_eq_true hm)
      rw [← Option.some.inj hr]
      refine hprep.roundEnds hpages ha hs (fun _ => hms) ⟨fun _ => .inl hms, fun _ => rfl⟩ ?_
      intro hu
      rw [hu.1] at hms
      cases hms
  · rw [if_neg hq] at hr
    have hhas : ¬HasInfo h c s i k := fun hh => hq (hinfo.mpr hh)
    rw [← Option.some.inj hr]
    have hstops : ¬Passes h c s i k := by
      intro hpass
      cases hpass with
      | inl hb =>
        apply hhas
        refine .inl ?_
        by_contra hnone
        rw [Option.not_isSome_iff_eq_none] at hnone
        unfold Mmu.missing at hb
        rw [hnone] at hb
        cases hb
      | inr hpass => exact hhas hpass.1
    exact hprep.roundEnds hpages ha hs (fun hf => absurd hf Bool.false_ne_true)
      ⟨fun hf => absurd hf Bool.false_ne_true, fun hp => absurd hp hstops⟩ fun hu => hhas hu.2.1

theorem Passes.congr (hslot : t.slot h.psMMUContext k = s.slot h.psMMUContext k) :
    Passes h c t i k ↔ Passes h c s i k := by
  unfold Passes HasInfo Mmu.missing
  rw [hslot]

theorem Unmapped.congr (hslot : t.slot h.psMMUContext k = s.slot h.psMMUContext k) :
    Unmapped h c t i k ↔ Unmapped h c s i k := by
  unfold Unmapped HasInfo Mmu.missing
  rw [hslot]

/-- The first round that does not pass has a block it cannot map. -/
def Loses (h : MmuHeap) (c : AllocCall) (s : Mmu) (pd i n : ℕ) : Prop :=
  ∃ m, i ≤ m ∧ m < i + n ∧ (∀ j, i ≤ j → j < m → Passes h c s j (pd + j)) ∧
    Unmapped h c s m (pd + m)

structure RoundsEnd (h : MmuHeap) (c : AllocCall) (pd i n : ℕ) (s : Mmu) (r : Bool × Mmu) :
    Prop where
  segments : r.2.segments = s.segments
  within : Within h (fun k => pd + i ≤ k ∧ k < pd + i + n) s r.2
  agreed : ∀ k, pd + i ≤ k → k < pd + i + n → Agreed h k r.2
  sound : Sound r.2
  tabled : r.1 = true → ∀ k, pd + i ≤ k → k < pd + i + n → Tabled h k r.2
  found : Found s r.2 ↔ ¬Loses h c s pd i n

theorem loses_succ {n pd : ℕ} (hpass : Passes h c s i (pd + i))
    (hw : Within h (fun k => k = pd + i) s t) :
    Loses h c t pd (i + 1) n ↔ Loses h c s pd i (n + 1) := by
  have hslot : ∀ j, i + 1 ≤ j → t.slot h.psMMUContext (pd + j) = s.slot h.psMMUContext (pd + j) :=
    fun j hj => hw.slots _ _ (.inr (by omega))
  constructor
  · intro hl
    obtain ⟨m, him, hmn, hbefore, hu⟩ := hl
    refine ⟨m, by omega, by omega, ?_, (Unmapped.congr (hslot m him)).mp hu⟩
    intro j hij hjm
    by_cases hj : j = i
    · rw [hj]
      exact hpass
    · exact (Passes.congr (hslot j (by omega))).mp (hbefore j (by omega) hjm)
  · intro hl
    obtain ⟨m, him, hmn, hbefore, hu⟩ := hl
    have hne : m ≠ i := by
      intro heq
      rw [heq] at hu
      exact hu.stops hpass
    refine ⟨m, by omega, by omega, ?_, (Unmapped.congr (hslot m (by omega))).mpr hu⟩
    intro j hij hjm
    exact (Passes.congr (hslot j hij)).mpr (hbefore j (by omega) hjm)

theorem Found.iff_of_first {K L : ℕ → Prop} (hf : Found s t) (hw : Within h K s t)
    (hv : Within h L t u) : Found t u ↔ Found s u := by
  constructor
  · intro hg
    exact hf.trans hg hv
  · intro hg p hp hn
    refine hg p ?_ hn
    by_contra hlive
    exact hw.live hlive hp

theorem tableRounds_end {pd n : ℕ}
    (ha : ∀ k, pd + i ≤ k → k < pd + i + n → Agreed h k s) (hs : Sound s)
    (hr : tableRounds h c pd n i s = some r) : RoundsEnd h c pd i n s r := by
  induction n generalizing i s with
  | zero =>
    rw [← Option.some.inj hr]
    refine ⟨rfl, .refl, ha, hs, fun _ k hk hkn => ?_, ?_⟩
    · omega
    · refine ⟨fun _ hl => ?_, fun _ => .refl⟩
      obtain ⟨m, him, hmn, -, -⟩ := hl
      omega
  | succ n ih =>
    unfold tableRounds at hr
    obtain ⟨q, hround, hr⟩ := Option.bind_eq_some_iff.mp hr
    have hone := tableRound_ends (ha (pd + i) (by omega) (by omega)) hs hround
    have hfirst : Within h (fun k => pd + i ≤ k ∧ k < pd + i + (n + 1)) s q.2 :=
      hone.within.mono fun k hk => by omega
    by_cases hq : q.1 = true
    · rw [if_pos hq] at hr
      have hpass := hone.passes.mp hq
      have hrest : ∀ k, pd + (i + 1) ≤ k → k < pd + (i + 1) + n → Agreed h k q.2 := by
        intro k hk hkn
        apply hone.within.agreed
        · omega
        · exact ha k (by omega) (by omega)
      have hend := ih hrest hone.sound hr
      have hlater : Within h (fun k => pd + i ≤ k ∧ k < pd + i + (n + 1)) q.2 r.2 :=
        hend.within.mono fun k hk => by omega
      have htabled := hend.within.tabled (hone.tabled hq)
      refine ⟨hend.segments.trans hone.segments, hfirst.trans hlater, ?_, hend.sound, ?_, ?_⟩
      · intro k hk hkn
        by_cases hki : k = pd + i
        · rw [hki]
          exact .inr htabled
        · exact hend.agreed k (by omega) (by omega)
      · intro hok k hk hkn
        by_cases hki : k = pd + i
        · rw [hki]
          exact htabled
        · exact hend.tabled hok k (by omega) (by omega)
      · have hfound := hone.found.mpr fun hu => hu.stops hpass
        rw [← hfound.iff_of_first hone.within hend.within, hend.found,
          loses_succ hpass hone.within]
    · rw [if_neg hq] at hr
      rw [← Option.some.inj hr]
      have hstops : ¬Passes h c s i (pd + i) := fun hpass => hq (hone.passes.mpr hpass)
      refine ⟨hone.segments, hfirst, ?_, hone.sound, fun hf => absurd hf Bool.false_ne_true, ?_⟩
      · intro k hk hkn
        by_cases hki : k = pd + i
        · rw [hki]
          exact hone.agreed
        · exact hone.within.agreed hki (ha k hk hkn)
      · rw [hone.found, not_iff_not]
        constructor
        · intro hu
          exact ⟨i, le_refl i, by omega, fun j hij hji => by omega, hu⟩
        · intro hl
          obtain ⟨m, him, hmn, hbefore, hu⟩ := hl
          have hmi : m = i := by
            by_contra hne
            exact hstops (hbefore i (le_refl i) (by omega))
          rw [hmi] at hu
          exact hu

structure AllocCall.Plenty (c : AllocCall) : Prop where
  sysData : c.sysData = true
  ptInfo : ∀ i, c.ptInfo i = true
  page : ∀ i, c.page i ≠ none
  linear : ∀ i, c.linear i = true

theorem AllocCall.Plenty.passes (hc : c.Plenty) : Passes h c s i k :=
  .inr ⟨.inr (hc.ptInfo i), hc.page i, fun _ => hc.linear i⟩

theorem tableRounds_plenty {pd n : ℕ} (hc : c.Plenty)
    (ha : ∀ k, pd + i ≤ k → k < pd + i + n → Agreed h k s) (hs : Sound s)
    (hr : tableRounds h c pd n i s = some r) : r.1 = true := by
  induction n generalizing i s with
  | zero => rw [← Option.some.inj hr]
  | succ n ih =>
    unfold tableRounds at hr
    obtain ⟨q, hround, hr⟩ := Option.bind_eq_some_iff.mp hr
    have hone := tableRound_ends (ha (pd + i) (by omega) (by omega)) hs hround
    rw [if_pos (hone.passes.mpr hc.passes)] at hr
    refine ih ?_ hone.sound hr
    intro k hk hkn
    apply hone.within.agreed
    · omega
    · exact ha k (by omega) (by omega)

def AllocCall.range (c : AllocCall) : Option ℕ :=
  if hasFlag c.uFlags memUserSuppliedDevvaddr then some c.devVAddr else c.vmRange

def AllocCall.covers (c : AllocCall) (a k : ℕ) : Prop :=
  pdIndex a ≤ k ∧ k < pdIndex a + ptPageCount a c.uSize

def AllocCall.uses (c : AllocCall) (a k : ℕ) : Prop :=
  ∃ x, x < c.uSize ∧ a + x ≤ uint32MaxValue ∧ pdIndex (a + x) = k

def Proper (s : Mmu) (x : MmuHeap × AllocCall) : Prop :=
  ∀ a, x.2.range = some a → ∀ k, x.2.covers a k → Agreed x.1 k s

structure CallEnds (h : MmuHeap) (c : AllocCall) (a : ℕ) (s : Mmu) (ok : Bool) (t : Mmu) :
    Prop where
  range : c.range = some a
  within : Within h (c.covers a) s t
  agreed : ∀ k, c.covers a k → Agreed h k t
  sound : Sound t
  tabled : ok = true → ∀ k, c.covers a k → Tabled h k t
  plenty : c.Plenty → ok = true
  segments : ok = false → t.segments = s.segments
  found : Found s t ↔ ¬(c.sysData = true ∧ Loses h c s (pdIndex a) 0 (ptPageCount a c.uSize))

theorem deferredAllocPagetables_ends {a : ℕ} (hrange : c.range = some a)
    (hp : ∀ k, c.covers a k → Agreed h k s) (hs : Sound s)
    (hr : deferredAllocPagetables h c a s = some r) :
    r.2.segments = s.segments ∧ CallEnds h c a s r.1 r.2 := by
  unfold deferredAllocPagetables at hr
  by_cases hsys : c.sysData = true
  · rw [if_pos hsys] at hr
    have ha : ∀ k, pdIndex a + 0 ≤ k → k < pdIndex a + 0 + ptPageCount a c.uSize →
        Agreed h k s := fun k hk hkn => hp k ⟨hk, hkn⟩
    have hend := tableRounds_end ha hs hr
    refine ⟨hend.segments, hrange, hend.within, ?_, hend.sound, ?_, ?_, fun _ => hend.segments, ?_⟩
    · exact fun k hk => hend.agreed k hk.1 hk.2
    · exact fun hok k hk => hend.tabled hok k hk.1 hk.2
    · exact fun hc => tableRounds_plenty hc ha hs hr
    · rw [hend.found, not_iff_not]
      exact ⟨fun hl => ⟨hsys, hl⟩, fun hl => hl.2⟩
  · rw [if_neg hsys] at hr
    rw [← Option.some.inj hr]
    refine ⟨rfl, hrange, .refl, hp, hs, fun hf => absurd hf Bool.false_ne_true, ?_, fun _ => rfl,
      ?_⟩
    · exact fun hc => absurd hc.sysData hsys
    · exact ⟨fun _ hl => hsys hl.1, fun _ => .refl⟩

theorem CallEnds.withSegments {a : ℕ} {ok : Bool} {x y : ℕ → ℕ → Option ℕ}
    (hc : CallEnds h c a { s with segments := x } ok t) (hsame : ok = false → y = s.segments) :
    CallEnds h c a s ok { t with segments := y } :=
  ⟨hc.range, ⟨hc.within.list, hc.within.pages, hc.within.slots, hc.within.built,
    hc.within.entries, hc.within.set⟩, hc.agreed, ⟨hc.sound.live, hc.sound.null, hc.sound.bounded⟩,
    hc.tabled, hc.plenty, hsame, hc.found⟩

theorem allocRange_ends {a b : ℕ} {ok : Bool} (hrange : c.range = some a)
    (hfree : s.segments h.psVMArena a = none) (hp : ∀ k, c.covers a k → Agreed h k s)
    (hs : Sound s) (hr : allocRange h c a s = some ((ok, b), t)) :
    b = a ∧ CallEnds h c a s ok t := by
  unfold allocRange at hr
  obtain ⟨q, hdeferred, hr⟩ := Option.bind_eq_some_iff.mp hr
  have hsound : Sound (s.setSegment h.psVMArena a (some c.uSize)) :=
    ⟨hs.live, hs.null, hs.bounded⟩
  obtain ⟨hsegments, hends⟩ := deferredAllocPagetables_ends
    (s := s.setSegment h.psVMArena a (some c.uSize)) hrange hp hsound hdeferred
  have heq := Option.some.inj hr
  rw [Prod.mk.injEq, Prod.mk.injEq] at heq
  obtain ⟨⟨hok, hb⟩, ht⟩ := heq
  refine ⟨hb.symm, ?_⟩
  rw [← hok]
  by_cases hq : q.1 = true
  · rw [if_pos hq] at ht
    rw [← ht]
    refine hends.withSegments (y := q.2.segments) fun hf => ?_
    rw [hq] at hf
    cases hf
  · rw [if_neg hq] at ht
    rw [← ht]
    refine hends.withSegments fun _ => ?_
    rw [hsegments]
    dsimp only [Mmu.setSegment]
    rw [Function.update_self, update_back hfree, Function.update_idem, Function.update_eq_self]

theorem mmuAlloc_ends {a : ℕ} {ok : Bool} (hp : Proper s (h, c)) (hs : Sound s)
    (hr : mmuAlloc h c s = some ((ok, a), t)) :
    (c.range = none ∧ ok = false ∧ t = s) ∨ CallEnds h c a s ok t := by
  unfold mmuAlloc at hr
  by_cases huser : hasFlag c.uFlags memUserSuppliedDevvaddr = true
  · rw [if_pos huser] at hr
    have hrange : c.range = some c.devVAddr := if_pos huser
    obtain ⟨q, hdeferred, hr⟩ := Option.map_eq_some_iff.mp hr
    rw [Prod.mk.injEq, Prod.mk.injEq] at hr
    obtain ⟨⟨hok, ha⟩, ht⟩ := hr
    rw [← hok, ← ha, ← ht]
    exact .inr (deferredAllocPagetables_ends hrange (hp _ hrange) hs hdeferred).2
  · rw [if_neg huser] at hr
    have hrange : c.range = c.vmRange := if_neg huser
    cases hvm : c.vmRange with
    | none =>
      rw [hvm] at hr
      have heq := Option.some.inj hr
      rw [Prod.mk.injEq, Prod.mk.injEq] at heq
      exact .inl ⟨hrange.trans hvm, heq.1.1.symm, heq.2.symm⟩
    | some b =>
      rw [hvm, Option.elim_some] at hr
      rw [hvm] at hrange
      by_cases hused : (s.segments h.psVMArena b).isSome = true
      · rw [if_pos hused] at hr
        cases hr
      · rw [if_neg hused] at hr
        obtain ⟨hab, hends⟩ := allocRange_ends hrange (Option.not_isSome_iff_eq_none.mp hused)
          (hp _ hrange) hs hr
        rw [hab]
        exact .inr hends

def mmuStep (s : Mmu) (x : MmuHeap × AllocCall) : Option ((Bool × ℕ) × Mmu) := mmuAlloc x.1 x.2 s

/-- Calls for the same heap, or for other heaps in other slots. -/
def Later (h : MmuHeap) (c : AllocCall) (a : ℕ) (s : Mmu) (x : MmuHeap × AllocCall) : Prop :=
  Proper s x ∧ (x.1 = h ∨ ∀ b, x.2.range = some b → ∀ k, x.2.covers b k → ¬c.covers a k)

/-- What a call has to leave for the next one in the range `a`. -/
structure Ready (h : MmuHeap) (c : AllocCall) (a : ℕ) (s t : Mmu) : Prop where
  sound : Sound t
  agreed : ∀ k, c.covers a k → Agreed h k t
  tabled : ∀ g k, Tabled g k s → Tabled g k t

theorem Ready.step {a : ℕ} {x : MmuHeap × AllocCall} {b : Bool × ℕ} (hk : Ready h c a s t)
    (hx : Later h c a t x) (hr : mmuStep t x = some (b, u)) : Ready h c a s u := by
  obtain ⟨hproper, hwhere⟩ := hx
  cases mmuAlloc_ends hproper hk.sound hr with
  | inl hnone =>
    rw [hnone.2.2]
    exact hk
  | inr hends =>
    refine ⟨hends.sound, ?_, fun g k ht => hends.within.tabled (hk.tabled g k ht)⟩
    intro k hcov
    by_cases hin : x.2.covers b.2 k
    · cases hwhere with
      | inl heq =>
        rw [← heq]
        exact hends.agreed k hin
      | inr hother => exact absurd hcov (hother b.2 hends.range k hin)
    · exact hends.within.agreed hin (hk.agreed k hcov)

theorem Ready.run {a : ℕ} {l : List ((MmuHeap × AllocCall) × Bool × ℕ)}
    (hrun : Run mmuStep (Later h c a) t l u) (hk : Ready h c a s t) : Ready h c a s u := by
  induction hrun with
  | refl => exact hk
  | snoc _ hx hr ih => exact ih.step hx hr

theorem enterTable_of_alloc {info : PtInfo} (h0 : p ≠ 0) (hfree : s.pages.blocks p = none)
    (hpage : c.page i = some p) (hinfo : info.ptPageCpuVAddr = p) :
    ∃ pages t, s.pages.alloc mmuPageSize c.stale (c.page i) = some (p, pages) ∧
      enterTable h k p info { s with pages := pages } = some (true, t) ∧ Entered h k p s t := by
  have halloc := Heap.alloc_eq (n := mmuPageSize) (c := c.stale) h0 hfree
  rw [← hpage] at halloc
  cases Heap.alloc_spec halloc with
  | inl hfail => exact absurd hfail.2.1 h0
  | inr hgot =>
    obtain ⟨t, hentered, he⟩ := enterTable_spec (s := s) (h := h) (k := k) hgot.2 hinfo
    exact ⟨_, t, halloc, hentered, he⟩

theorem allocTable_some (hc : c.Plenty) (h0 : p ≠ 0) (hfree : s.pages.blocks p = none)
    (hpage : c.page i = some p) : ∃ t, allocTable h c i k s = some (true, t) ∧
      Entered h k p s t := by
  unfold allocTable
  by_cases hl : h.psLocalDevMemArena = true
  · obtain ⟨pages, t, halloc, hentered, he⟩ := enterTable_of_alloc (h := h) (k := k) h0 hfree
      hpage (rfl : PtInfo.ptPageCpuVAddr ⟨0, p⟩ = p)
    refine ⟨t, ?_, he⟩
    rw [if_pos hl]
    unfold localTable
    rw [halloc, Option.bind_eq_bind, Option.bind_some, if_neg h0, if_pos (hc.linear i)]
    exact hentered
  · obtain ⟨pages, t, halloc, hentered, he⟩ := enterTable_of_alloc (h := h) (k := k) h0 hfree
      hpage (rfl : PtInfo.ptPageCpuVAddr ⟨p, p⟩ = p)
    refine ⟨t, ?_, he⟩
    rw [if_neg hl]
    unfold systemTable
    rw [halloc, Option.bind_eq_bind, Option.bind_some, if_neg h0]
    exact hentered

theorem tableRound_some (hc : c.Plenty) (h0 : p ≠ 0) (hfree : s.pages.blocks p = none)
    (hpage : c.page i = some p) : ∃ t, tableRound h c i k s = some (true, t) ∧
      ∀ q, q ≠ p → s.pages.blocks q = none → t.pages.blocks q = none := by
  obtain ⟨-, hpages, hinfo⟩ := allocPtInfo_spec (h := h) (c := c) (i := i) (k := k) (s := s)
  unfold tableRound
  rw [if_pos (hinfo.mpr (.inr (hc.ptInfo i)))]
  by_cases hm : (allocPtInfo h c i k s).2.missing h.psMMUContext k = true
  · rw [if_pos hm]
    rw [← hpages] at hfree ⊢
    obtain ⟨t, ht, he⟩ := allocTable_some (h := h) (k := k) hc h0 hfree hpage
    refine ⟨t, ht, fun q hq hn => ?_⟩
    rw [he.pages.others q hq]
    exact hn
  · rw [if_neg hm]
    refine ⟨_, rfl, fun q hq hn => ?_⟩
    rw [hpages]
    exact hn

theorem tableRounds_some {n m pd : ℕ} (hc : c.Plenty) (h0 : n ≠ 0)
    (hpage : ∀ i, c.page i = some (n + i)) (hfree : ∀ q, n + i ≤ q → s.pages.blocks q = none) :
    ∃ r, tableRounds h c pd m i s = some r := by
  induction m generalizing i s with
  | zero => exact ⟨_, rfl⟩
  | succ m ih =>
    have hne : n + i ≠ 0 := by omega
    obtain ⟨t, hround, hrest⟩ := tableRound_some (h := h) (k := pd + i) hc hne
      (hfree _ (le_refl _)) (hpage i)
    have hnext : ∀ q, n + (i + 1) ≤ q → t.pages.blocks q = none := by
      intro q hq
      apply hrest
      · omega
      · exact hfree q (by omega)
    obtain ⟨r, hr⟩ := ih hnext
    refine ⟨r, ?_⟩
    unfold tableRounds
    rw [hround, Option.bind_eq_bind, Option.bind_some, if_pos rfl]
    exact hr

def AllocCall.again (c : AllocCall) (n : ℕ) : AllocCall :=
  { c with
    sysData := true
    ptInfo := fun _ => true
    page := fun i => some (n + i)
    linear := fun _ => true }

theorem AllocCall.again_plenty {n : ℕ} : (c.again n).Plenty :=
  ⟨rfl, fun _ => rfl, fun i => Option.some_ne_none (n + i), fun _ => rfl⟩

theorem mmuAlloc_again {a n : ℕ} (hrange : c.range = some a) (h0 : n ≠ 0)
    (hfree : ∀ q, n ≤ q → s.pages.blocks q = none)
    (hseg : hasFlag c.uFlags memUserSuppliedDevvaddr = false →
      s.segments h.psVMArena a = none) :
    ∃ ok b t, mmuAlloc h (c.again n) s = some ((ok, b), t) := by
  have hrounds : ∀ v : Mmu, v.pages = s.pages →
      ∃ r, deferredAllocPagetables h (c.again n) a v = some r := by
    intro v hv
    unfold deferredAllocPagetables
    rw [if_pos (show (c.again n).sysData = true from rfl)]
    apply tableRounds_some AllocCall.again_plenty h0 fun i => rfl
    intro q hq
    rw [hv]
    exact hfree q hq
  unfold mmuAlloc
  by_cases huser : hasFlag c.uFlags memUserSuppliedDevvaddr = true
  · have haddr : some c.devVAddr = some a := (if_pos huser).symm.trans hrange
    obtain ⟨r, hr⟩ := hrounds s rfl
    refine ⟨r.1, a, r.2, ?_⟩
    rw [if_pos (show hasFlag (c.again n).uFlags memUserSuppliedDevvaddr = true from huser)]
    change (deferredAllocPagetables h (c.again n) c.devVAddr s).map
      (fun r => ((r.1, c.devVAddr), r.2)) = _
    rw [Option.some.inj haddr, hr]
    rfl
  · have hvm : c.vmRange = some a := (if_neg huser).symm.trans hrange
    have hnone := hseg (Bool.of_not_eq_true huser)
    obtain ⟨r, hr⟩ := hrounds (s.setSegment h.psVMArena a (some c.uSize)) rfl
    refine ⟨r.1, a, if r.1 then r.2 else r.2.setSegment h.psVMArena a none, ?_⟩
    rw [if_neg (show ¬hasFlag (c.again n).uFlags memUserSuppliedDevvaddr = true from huser)]
    change (c.vmRange).elim _ _ = _
    rw [hvm, Option.elim_some, hnone, if_neg (by simp)]
    unfold allocRange
    change (deferredAllocPagetables h (c.again n) a (s.setSegment _ a (some c.uSize))).bind _ = _
    rw [hr, Option.bind_some]

structure Survives (h : MmuHeap) (c : AllocCall) (s t : Mmu) : Prop where
  segments : t.segments = s.segments
  translations : ∀ x a q, translate s x a = some q → translate t x a = some q
  physPages : ∀ g a q, q ≠ 0 → mmuGetPhysPageAddr s g a = some q →
    mmuGetPhysPageAddr t g a = some q
  found : Found s t
  retried : ∀ a, c.range = some a → ∀ l r, Run mmuStep (Later h c a) t l r →
    ∀ d ok b u, d.range = some a → d.uSize = c.uSize → d.Plenty →
    mmuAlloc h d r = some ((ok, b), u) →
    ok = true ∧ b = a ∧ ∀ k, c.uses a k → Tabled h k u

/-- No block is lost, and the loop gets to every slot of the range that has no table. -/
structure Provided (h : MmuHeap) (c : AllocCall) (s : Mmu) : Prop where
  mapped : ∀ a, c.range = some a → c.sysData = true →
    ¬Loses h c s (pdIndex a) 0 (ptPageCount a c.uSize)
  reached : ∀ a, c.range = some a → ∀ k, c.uses a k → c.covers a k ∨ Tabled h k s

theorem covers_congr {d : AllocCall} {a : ℕ} (hsize : d.uSize = c.uSize) :
    d.covers a k ↔ c.covers a k := by
  unfold AllocCall.covers
  rw [hsize]

theorem Ready.retried {d : AllocCall} {a b : ℕ} {ok : Bool} (hk : Ready h c a s t)
    (hreached : ∀ k, c.uses a k → c.covers a k ∨ Tabled h k s) (hrange : d.range = some a)
    (hsize : d.uSize = c.uSize) (hd : d.Plenty) (hr : mmuAlloc h d t = some ((ok, b), u)) :
    ok = true ∧ b = a ∧ ∀ k, c.uses a k → Tabled h k u := by
  have hproper : Proper t (h, d) := by
    intro e he k hcov
    rw [hrange] at he
    rw [← Option.some.inj he] at hcov
    exact hk.agreed k ((covers_congr hsize).mp hcov)
  cases mmuAlloc_ends hproper hk.sound hr with
  | inl hnone =>
    rw [hrange] at hnone
    cases hnone.1
  | inr hends =>
    have hab := hends.range
    rw [hrange] at hab
    have heq := Option.some.inj hab
    rw [← heq] at hends ⊢
    have hok := hends.plenty hd
    refine ⟨hok, rfl, fun k huse => ?_⟩
    cases hreached k huse with
    | inl hcov => exact hends.tabled hok k ((covers_congr hsize).mpr hcov)
    | inr ht => exact hends.within.tabled (hk.tabled h k ht)

theorem Within.tabled_back {K : ℕ → Prop} (hw : Within h K s t) (hk : ¬K k) (hs : Sound s)
    (ht : Tabled h k t) : Tabled h k s := by
  obtain ⟨info, hslot, hpage, -, hentry⟩ := ht
  rw [hw.slots _ k (.inr hk)] at hslot
  refine ⟨info, hslot, hpage, hs.live _ k info hslot hpage, fun x hx => ?_⟩
  rw [← hw.entries x k (.inr hk)]
  apply hentry
  rw [MmuHeap.targets_eq hw.list]
  exact hx

theorem segment_free {a : ℕ} {x : (Bool × ℕ) × Mmu} (hrange : c.range = some a)
    (huser : hasFlag c.uFlags memUserSuppliedDevvaddr = false) (hr : mmuAlloc h c s = some x) :
    s.segments h.psVMArena a = none := by
  have hne : ¬hasFlag c.uFlags memUserSuppliedDevvaddr = true := by
    rw [huser]
    exact Bool.false_ne_true
  have hvm : c.vmRange = some a := (if_neg hne).symm.trans hrange
  unfold mmuAlloc at hr
  rw [if_neg hne, hvm, Option.elim_some] at hr
  by_contra hused
  rw [if_pos (Option.isSome_iff_ne_none.mpr hused)] at hr
  cases hr

/-- The loop leaves out the last slot of the address space at most. -/
theorem covers_of_low {a : ℕ} (hlow : a + c.uSize + mmuTableBytes ≤ uint32MaxValue + 1)
    (huse : c.uses a k) : c.covers a k := by
  obtain ⟨x, hx, -, hk⟩ := huse
  unfold mmuTableBytes uint32MaxValue at hlow
  unfold AllocCall.covers ptPageCount
  unfold pdIndex mmuPageShift mmuPtShift mmuTableBytes uint32MaxValue at *
  have hsize : u32 (c.uSize + 4194304 - 1) = c.uSize + 4194303 :=
    (u32_of_lt (by omega)).trans (by omega)
  have hhigh : u32 (a + c.uSize + 4194304 - 1) = a + c.uSize + 4194303 :=
    (u32_of_lt (by omega)).trans (by omega)
  simp only [Nat.shiftRight_eq_div_pow, hsize, hhigh] at *
  rw [if_neg (by omega), u32Sub_of_le (by omega)]
  omega

theorem Survives.again {a b : ℕ} (hs : Survives h c s t) (hrange : c.range = some a)
    (hsound : Sound t) (hr : mmuAlloc h c s = some ((false, b), t)) :
    ∃ d u ok, d.range = some a ∧ d.uSize = c.uSize ∧ mmuAlloc h d t = some ((ok, a), u) ∧
      ∀ k, c.uses a k → Tabled h k u := by
  obtain ⟨n, hn⟩ := hsound.bounded
  have hfree : ∀ q, n + 1 ≤ q → t.pages.blocks q = none := fun q hq => hn q (by omega)
  have hseg : hasFlag c.uFlags memUserSuppliedDevvaddr = false →
      t.segments h.psVMArena a = none := by
    intro huser
    rw [hs.segments]
    exact segment_free hrange huser hr
  obtain ⟨ok, e, u, hu⟩ := mmuAlloc_again hrange (Nat.succ_ne_zero n) hfree hseg
  obtain ⟨-, he, htabled⟩ := hs.retried a hrange [] t .refl (c.again (n + 1)) ok e u hrange rfl
    AllocCall.again_plenty hu
  rw [he] at hu
  exact ⟨c.again (n + 1), u, ok, hrange, rfl, hu, htabled⟩

/-- A call that fails leaves everything as it has to exactly when it loses no block and the loop
    reaches the whole range. -/
theorem failed_alloc_survives_iff {a : ℕ} (hs : Sound s) (hp : Proper s (h, c))
    (hr : mmuAlloc h c s = some ((false, a), t)) : Survives h c s t ↔ Provided h c s := by
  cases mmuAlloc_ends hp hs hr with
  | inl hnone =>
    obtain ⟨hrange, -, ht⟩ := hnone
    have hno : ∀ b, c.range ≠ some b := by
      intro b hb
      rw [hrange] at hb
      cases hb
    rw [ht]
    constructor
    · intro _
      exact ⟨fun b hb => absurd hb (hno b), fun b hb => absurd hb (hno b)⟩
    · intro _
      exact ⟨rfl, fun _ _ _ hq => hq, fun _ _ _ _ hq => hq, .refl, fun b hb => absurd hb (hno b)⟩
  | inr hends =>
    have hat : ∀ b, c.range = some b → b = a := by
      intro b hb
      rw [hends.range] at hb
      exact (Option.some.inj hb).symm
    constructor
    · intro hsurvives
      refine ⟨fun b hb hsys hl => ?_, fun b hb k huse => ?_⟩
      · rw [hat b hb] at hl
        exact hends.found.mp hsurvives.found ⟨hsys, hl⟩
      · rw [hat b hb] at huse ⊢
        by_cases hcov : c.covers a k
        · exact .inl hcov
        · refine .inr (hends.within.tabled_back hcov hs ?_)
          obtain ⟨d, u, ok, hd, hsize, hcall, htabled⟩ :=
            hsurvives.again hends.range hends.sound hr
          have hproper : Proper t (h, d) := by
            intro e he j hj
            rw [hd] at he
            rw [← Option.some.inj he] at hj
            exact hends.agreed j ((covers_congr hsize).mp hj)
          cases mmuAlloc_ends hproper hends.sound hcall with
          | inl hnone =>
            rw [hd] at hnone
            cases hnone.1
          | inr hagain =>
            apply hagain.within.tabled_back ?_ hends.sound (htabled k huse)
            exact fun hj => hcov ((covers_congr hsize).mp hj)
    · intro hprov
      refine ⟨hends.segments rfl, ?_, ?_, ?_, ?_⟩
      · intro x b q hq
        exact hends.within.translate_eq hq
      · intro g b q h0 hq
        exact hends.within.mmuGetPhysPageAddr_eq hs h0 hq
      · exact hends.found.mpr fun hl => hprov.mapped a hends.range hl.1 hl.2
      · intro b hb l r hrun d ok e u hd hsize hplenty hcall
        rw [hat b hb] at hrun hd ⊢
        have hready : Ready h c a s t :=
          ⟨hends.sound, hends.agreed, fun g k ht => hends.within.tabled ht⟩
        exact (hready.run hrun).retried (hprov.reached a hends.range) hd hsize hplenty hcall

/-! A device without page tables, and calls for the two slots from 16 MB on. -/

def mmuInit : Mmu := ⟨fun _ => ⟨fun _ => 0, fun _ => none⟩, [1], emptyHeap Table, fun _ _ => none⟩

def sampleAlloc (page : ℕ → Option ℕ) : AllocCall :=
  ⟨8388608, 0, 0, some 16777216, true, fun _ => true, page, fun _ => false, fun _ _ => 0⟩

theorem mmuInit_sound : Sound mmuInit := by
  refine ⟨?_, rfl, 0, fun _ _ => rfl⟩
  intro x k info hslot
  cases hslot

theorem mmuInit_proper : Proper mmuInit (h, c) := by
  intro a _ k _
  exact .inl ⟨rfl, fun _ _ => rfl⟩

/-- The second page is not there: the first table stays, and the call can be made again. -/
theorem failed_alloc_survives_sample : ∃ a t,
    mmuAlloc ⟨1, 0, .perContext, false⟩ (sampleAlloc fun i => if i = 0 then some 5 else none)
      mmuInit = some ((false, a), t) ∧
    Survives ⟨1, 0, .perContext, false⟩ (sampleAlloc fun i => if i = 0 then some 5 else none)
      mmuInit t := by
  have hsome : ((mmuAlloc ⟨1, 0, .perContext, false⟩
      (sampleAlloc fun i => if i = 0 then some 5 else none) mmuInit).map fun r =>
      decide (r.1.1 = false)) = some true := by decide +kernel
  obtain ⟨⟨⟨ok, a⟩, t⟩, hr, hfails⟩ := Option.map_eq_some_iff.mp hsome
  have hok : ok = false := of_decide_eq_true hfails
  rw [hok] at hr
  refine ⟨a, t, hr, (failed_alloc_survives_iff mmuInit_sound mmuInit_proper hr).mpr ⟨?_, ?_⟩⟩
  · intro b _ _ hl
    obtain ⟨m, -, -, -, hu⟩ := hl
    exact Bool.false_ne_true hu.2.2.2.1
  · intro b hb k huse
    refine .inl (covers_of_low ?_ huse)
    have hrange : (sampleAlloc fun i => if i = 0 then some 5 else none).range = some 16777216 := by
      decide +kernel
    rw [hrange] at hb
    rw [← Option.some.inj hb]
    decide

/-- A block of local memory that cannot be mapped belongs to nobody. -/
theorem failed_alloc_loses_block : Sound mmuInit ∧
    Proper mmuInit (⟨1, 0, .perContext, true⟩, sampleAlloc fun i => some (5 + i)) ∧
    ∃ a t, mmuAlloc ⟨1, 0, .perContext, true⟩ (sampleAlloc fun i => some (5 + i)) mmuInit =
        some ((false, a), t) ∧
      ¬Survives ⟨1, 0, .perContext, true⟩ (sampleAlloc fun i => some (5 + i)) mmuInit t := by
  refine ⟨mmuInit_sound, mmuInit_proper, ?_⟩
  have hsome : ((mmuAlloc ⟨1, 0, .perContext, true⟩ (sampleAlloc fun i => some (5 + i))
      mmuInit).map fun r => decide (r.1.1 = false)) = some true := by decide +kernel
  obtain ⟨⟨⟨ok, a⟩, t⟩, hr, hfails⟩ := Option.map_eq_some_iff.mp hsome
  have hok : ok = false := of_decide_eq_true hfails
  rw [hok] at hr
  refine ⟨a, t, hr, fun hsurvives => ?_⟩
  cases mmuAlloc_ends mmuInit_proper mmuInit_sound hr with
  | inl hnone =>
    have hrange : (sampleAlloc fun i => some (5 + i)).range = some 16777216 := by decide +kernel
    rw [hrange] at hnone
    cases hnone.1
  | inr hends =>
    refine hends.found.mp hsurvives.found ⟨rfl, 0, le_refl 0, ?_, fun j _ hj => ?_, ?_⟩
    · have hrange : (sampleAlloc fun i => some (5 + i)).range = some 16777216 := by decide +kernel
      have ha := hends.range
      rw [hrange] at ha
      rw [← Option.some.inj ha]
      decide +kernel
    · omega
    · exact ⟨rfl, .inr rfl, Option.some_ne_none 5, rfl, rfl⟩

end PvrServices.MmuTables
