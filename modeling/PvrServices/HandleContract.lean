import PvrServices.HandleLedger

set_option autoImplicit false

/-! # Lookups and commits over whole runs -/
namespace PvrServices.Handles
open Words HashTable LinkedRing Runs

section
variable {b b₀ : HandleBase} {g : Ghost} {l : List (Op × Answer)} {L : Ledger}

theorem Created.fields (c : Created b) : b.totalHandCount = 0 ∧ b.handBatchSize = 0 ∧
    b.batchHandAllocFailures = 0 := by
  induction c with
  | alloc h =>
    unfold pvrsrvAllocHandleBase at h
    split at h
    · simp at h
    · split at h
      · simp at h
      · simp only [Except.ok.injEq] at h
        subst h
        exact ⟨rfl, rfl, rfl⟩
  | purging _ h ih =>
    unfold pvrsrvEnableHandlePurging at h
    split at h
    · obtain rfl := (Prod.mk.inj h).2
      exact ih
    · split at h
      · simp at h
      · obtain rfl := (Prod.mk.inj h).2
        exact ih

theorem Created.tracks (c : Created b) : ∃ g, Tracks b g .empty := by
  obtain ⟨g, v⟩ := c.inv
  obtain ⟨ht, hs, hf⟩ := c.fields
  refine ⟨g, v, ?_, by simp [handlesBatched, hs, Ledger.empty], ?_⟩
  · funext h
    cases h with
    | zero => rfl
    | succ i =>
      change none = (entries b g i).map Entry.grant
      rw [entries_eq_none_iff.mpr (not_live_of_empty ht i)]
      rfl
  · rw [hf]
    exact (u32_of_lt (Nat.zero_lt_succ _)).symm

/-- The base and the ledger agree after every run that stays clear of the defects. -/
theorem Created.tracks_run (c : Created b₀) (run : Run step Harmless b₀ l b) :
    ∃ g, Tracks b g (ledger l) := by
  refine run.ledger (fun b L => ∃ g, Tracks b g L) Ledger.record .empty c.tracks ?_
  rintro s L op r t ⟨g, h⟩ hop hs
  exact h.step op hop.overZero hop.overReleased hs

theorem pvrsrvLookupHandle_eq_ok_iff (c : Core b g) (h : ℕ) {type : HandleType}
    (htype : type ≠ .none) (d : ℕ) : pvrsrvLookupHandle b h type = .ok d ↔
      ∃ G, grants (entries b g) h = some G ∧ G.type = type ∧ G.data = d := by
  unfold pvrsrvLookupHandle
  constructor
  · intro hl
    cases hget : getHandleStructure b h type with
    | error e => simp [hget] at hl
    | ok i =>
      obtain ⟨rfl, e, he, hty⟩ := (getHandleStructure_eq_ok_iff c h type i).mp hget
      simp only [hget, Except.ok.injEq] at hl
      obtain ⟨-, hd, -⟩ := entries_eq_some_iff.mp he
      exact ⟨e.grant, by simp [grants, he], (hty.resolve_left htype).symm, hd.trans hl⟩
  · rintro ⟨G, hG, rfl, rfl⟩
    obtain ⟨i, e, rfl, he, rfl⟩ := grants_eq_some_iff.mp hG
    have hget := (getHandleStructure_eq_ok_iff c (i + 1) e.grant.type i).mpr
      ⟨rfl, e, he, Or.inr rfl⟩
    rw [hget]
    exact congrArg Except.ok (entries_eq_some_iff.mp he).2.1.symm

theorem pvrsrvFindHandle_eq_ok_iff (v : Inv b g) (d : ℕ) (type : HandleType) (h : ℕ) :
    pvrsrvFindHandle b d type = .ok h ↔ ∃ G, grants (entries b g) h = some G ∧ G.data = d ∧
      G.type = type ∧ G.flag.multi = false ∧ (G.flag.priv = false ∨ G.parent = none) := by
  have hkey : ∀ e : Entry, e.key = initKey d type 0 ↔ e.data = d ∧ e.type = type ∧
      (e.flag.priv = false ∨ e.grant.parent = none) := by
    intro e
    rw [Entry.key, initKey_inj]
    refine and_congr_right (fun _ => and_congr_right (fun _ => ?_))
    cases hp : e.flag.priv <;> cases hq : e.parent <;> simp [parentWord, Entry.grant, hq]
  have hfound := findHandle_eq_iff v.hashed d type 0
  unfold pvrsrvFindHandle
  dsimp only
  constructor
  · intro hf
    split at hf
    · simp at hf
    · rename_i hne
      obtain ⟨i, hi⟩ := Nat.exists_eq_succ_of_ne_zero hne
      obtain rfl : i + 1 = h := by simpa [hi] using hf
      obtain ⟨e, he, hm, hk⟩ := (hfound i).mp hi
      obtain ⟨h₁, h₂, h₃⟩ := (hkey e).mp hk
      exact ⟨e.grant, by simp [grants, he], h₁, h₂, hm, h₃⟩
  · rintro ⟨G, hG, h₁, h₂, hm, h₃⟩
    obtain ⟨i, e, rfl, he, rfl⟩ := grants_eq_some_iff.mp hG
    have := (hfound i).mpr ⟨e, he, hm, (hkey e).mpr ⟨h₁, h₂, h₃⟩⟩
    rw [this, if_neg (Nat.succ_ne_zero i)]

def GrowsWhenFull (b : HandleBase) : Op → Prop
  | .newBatch size => size ≤ b.freeHandCount ∨ b.freeHandCount = 0
  | _ => True

theorem GrowsWhenFull.safe {op : Op} (h : GrowsWhenFull b op) : ¬ GrowsOverEntryZero b op := by
  intro hg
  cases op with
  | newBatch size =>
    obtain ⟨-, -, -, hpos, hlt, -⟩ := hg
    rcases h with h | h <;> omega
  | _ => exact hg

theorem growsWhenFull_of_clear {op : Op} (h : clear b op = true) : GrowsWhenFull b op := by
  cases op with
  | newBatch size =>
    simp only [clear, Bool.and_eq_true, Bool.or_eq_true, decide_eq_true_eq, beq_iff_eq] at h
    exact h.1
  | _ => trivial

/-- The handle that an allocation call returned, and what it was for. -/
def allocatedFor (L : Ledger) : Op × Answer → Option (ℕ × Grant)
  | (.alloc data type flag, (.ok, h)) => some (h, ⟨data, type.1, flag, none, L.batchOpen⟩)
  | (.allocSub data type flag parent, (.ok, h)) =>
    some (h, ⟨data, type.1, flag, some parent, L.batchOpen⟩)
  | _ => none

theorem Tracks.fresh_or_shares (t : Tracks b g L) {op : Op} {r : Answer} {b' : HandleBase}
    (hs : Handles.step b op = some (r, b')) {h : ℕ} {new : Grant}
    (ha : allocatedFor L (op, r) = some (h, new)) :
    L.grant h = none ∨ ∃ old, L.grant h = some old ∧ Ledger.Shares old new := by
  have v := t.inv
  cases op with
  | alloc data type flag =>
    obtain ⟨e, h', b₁, g₁, hr, a⟩ := v.pvrsrvAllocHandle data type.2 flag
    simp only [Handles.step, hr, Option.map_some, Option.some.injEq, Prod.mk.injEq] at hs
    obtain ⟨rfl, rfl⟩ := hs
    cases e with
    | ok =>
      simp only [allocatedFor, Option.some.injEq, Prod.mk.injEq] at ha
      obtain ⟨rfl, rfl⟩ := ha
      exact a.fresh_or_shares t.grant rfl
    | _ => simp [allocatedFor] at ha
  | allocSub data type flag parent =>
    obtain ⟨e, h', b₁, g₁, hr, a, -⟩ := v.pvrsrvAllocSubHandle data type.2 flag parent
    simp only [Handles.step, hr, Option.map_some, Option.some.injEq, Prod.mk.injEq] at hs
    obtain ⟨rfl, rfl⟩ := hs
    cases e with
    | ok =>
      simp only [allocatedFor, Option.some.injEq, Prod.mk.injEq] at ha
      obtain ⟨rfl, rfl⟩ := ha
      exact a.fresh_or_shares t.grant rfl
    | _ => simp [allocatedFor] at ha
  | _ => simp [allocatedFor] at ha

/-- After every run that grows the array only while it is full, and not out of its block, a lookup
    succeeds for what the handle was last allocated for and not released since, no handle is given
    out twice unless it is shared, and a search finds what was allocated without a private parent. -/
theorem handles_over_runs (c : Created b₀) (hp : b₀.purgingEnabled = false)
    (run : Run step (fun b op => GrowsWhenFull b op ∧ ¬ Overgrows b op) b₀ l b) :
    Held b ∧ (∀ (h : ℕ) (type : LiveType) (d : ℕ), pvrsrvLookupHandle b h type.1 = .ok d ↔
      ∃ G, (ledger l).grant h = some G ∧ G.type = type.1 ∧ G.data = d) ∧
    (∀ op r b' h new, step b op = some (r, b') → allocatedFor (ledger l) (op, r) = some (h, new) →
      (ledger l).grant h = none ∨
        ∃ old, (ledger l).grant h = some old ∧ Ledger.Shares old new) ∧
    ∀ (d : ℕ) (type : HandleType) (h : ℕ), pvrsrvFindHandle b d type = .ok h ↔
      ∃ G, (ledger l).grant h = some G ∧ G.data = d ∧ G.type = type ∧ G.flag.multi = false ∧
        (G.flag.priv = false ∨ G.parent = none) := by
  have htrack : ((∃ g, Tracks b g (ledger l)) ∧ b.purgingEnabled = false) ∧ Held b := by
    refine run.ledger (fun b L => ((∃ g, Tracks b g L) ∧ b.purgingEnabled = false) ∧ Held b)
      Ledger.record .empty ⟨⟨c.tracks, hp⟩, c.held⟩ ?_
    rintro s L op r t ⟨⟨⟨g, h⟩, hps⟩, hb⟩ hop hs
    have hclose : ¬ ClosesOverReleased s op := by
      intro h
      cases op <;> simp [ClosesOverReleased, hps] at h
    refine ⟨⟨h.step op hop.1.safe hclose hs, ?_⟩, hb.step hop.2 hs⟩
    obtain ⟨r', t', g', hs', -, hp'⟩ := h.inv.step op hop.1.safe hclose
    rw [hs] at hs'
    obtain ⟨-, rfl⟩ := Prod.mk.inj (Option.some.inj hs')
    exact hp'.trans hps
  obtain ⟨⟨⟨g, t⟩, -⟩, hb⟩ := htrack
  refine ⟨hb, fun h type d => ?_, fun op r b' h new hs ha => t.fresh_or_shares hs ha,
    fun d type h => ?_⟩
  · rw [t.grant]
    exact pvrsrvLookupHandle_eq_ok_iff t.inv.core h type.2 d
  · rw [t.grant]
    exact pvrsrvFindHandle_eq_ok_iff t.inv d type h

/-- A handle shared by two allocations, below a parent that is released. -/
theorem handles_over_sample : ∃ l b, exec step sampleBase
      [.alloc 7 memInfoType plainFlag, .allocSub 9 memInfoType ⟨true, false, true⟩ 1,
        .allocSub 9 memInfoType ⟨true, false, true⟩ 1, .release 1 .none] = some (l, b) ∧
    Held b ∧ (∀ (h : ℕ) (type : LiveType) (d : ℕ), pvrsrvLookupHandle b h type.1 = .ok d ↔
      ∃ G, (ledger l).grant h = some G ∧ G.type = type.1 ∧ G.data = d) ∧
    (∀ op r b' h new, step b op = some (r, b') → allocatedFor (ledger l) (op, r) = some (h, new) →
      (ledger l).grant h = none ∨
        ∃ old, (ledger l).grant h = some old ∧ Ledger.Shares old new) ∧
    ∀ (d : ℕ) (type : HandleType) (h : ℕ), pvrsrvFindHandle b d type = .ok h ↔
      ∃ G, (ledger l).grant h = some G ∧ G.data = d ∧ G.type = type ∧ G.flag.multi = false ∧
        (G.flag.priv = false ∨ G.parent = none) := by
  obtain ⟨⟨l, b⟩, h⟩ := Option.isSome_iff_exists.mp
    (show (exec step sampleBase
      [.alloc 7 memInfoType plainFlag, .allocSub 9 memInfoType ⟨true, false, true⟩ 1,
        .allocSub 9 memInfoType ⟨true, false, true⟩ 1, .release 1 .none]).isSome = true by
          decide +kernel)
  have hallowed : Allowed step (fun b op => clear b op = true) sampleBase
      [.alloc 7 memInfoType plainFlag, .allocSub 9 memInfoType ⟨true, false, true⟩ 1,
        .allocSub 9 memInfoType ⟨true, false, true⟩ 1, .release 1 .none] :=
    allowed_of_allows (by decide +kernel)
  exact ⟨l, b, h, handles_over_runs sampleBase_created rfl
    ((Run.of_allowed h hallowed).mono fun _ _ hc => ⟨growsWhenFull_of_clear hc,
      (harmless_of_clear hc).inBlock⟩)⟩

/-- A handle allocated as private, but without a parent, is found. And a batch of 2^28 handles is
    opened on a block of no bytes. -/
theorem find_private : (∃ l b, exec step sampleBase [.alloc 7 memInfoType ⟨false, false, true⟩] =
      some (l, b) ∧
    ¬ ∀ (d : ℕ) (type : HandleType) (h : ℕ), pvrsrvFindHandle b d type = .ok h ↔
      ∃ G, (ledger l).grant h = some G ∧ G.data = d ∧ G.type = type ∧ G.flag.multi = false ∧
        G.flag.priv = false) ∧
    ∃ l b, exec step sampleBase [.newBatch 268435456] = some (l, b) ∧
      Run step GrowsWhenFull sampleBase l b ∧ b.totalHandCount = 268435456 ∧ b.blockSize = 0 := by
  constructor
  swap
  · have hrun : (exec step sampleBase [.newBatch 268435456]).map
        (fun r => (r.2.totalHandCount, r.2.blockSize)) = some (268435456, 0) := by
      decide +kernel
    obtain ⟨⟨l, b⟩, h, hr⟩ := Option.map_eq_some_iff.mp hrun
    obtain ⟨htotal, hsize⟩ := Prod.mk.inj hr
    exact ⟨l, b, h, Run.of_allowed h ⟨.inr rfl, fun _ _ => trivial⟩, htotal, hsize⟩
  have hrun : (exec step sampleBase [.alloc 7 memInfoType ⟨false, false, true⟩]).map
      (fun r => (r.1.map Prod.snd, (pvrsrvFindHandle r.2 7 .memInfo).toOption)) =
        some ([(.ok, 1)], some 1) := by
    decide +kernel
  obtain ⟨⟨l, b⟩, h, hr⟩ := Option.map_eq_some_iff.mp hrun
  refine ⟨l, b, h, fun hclaim => ?_⟩
  have hl := exec_zip h
  rw [(Prod.mk.inj hr).1] at hl
  have hfind : pvrsrvFindHandle b 7 .memInfo = .ok 1 := by
    have := (Prod.mk.inj hr).2
    cases hf : pvrsrvFindHandle b 7 .memInfo with
    | error e => simp [hf, Except.toOption] at this
    | ok h' =>
      simp only [hf, Except.toOption, Option.some.injEq] at this
      rw [this]
  obtain ⟨G, hG, -, -, -, hpriv⟩ := (hclaim 7 .memInfo 1).mp hfind
  rw [hl] at hG
  simp only [List.zip_cons_cons, List.zip_nil_right, ledger, List.foldl_cons, List.foldl_nil, Ledger.record, Ledger.allocate, Ledger.empty,
    Function.update_self, Option.some.injEq] at hG
  rw [← hG] at hpriv
  simp at hpriv

def SameHandle (b b' : HandleBase) (i : ℕ) : Prop :=
  (b'.handleArray i).data = (b.handleArray i).data ∧
    (b'.handleArray i).type = (b.handleArray i).type ∧
    (b'.handleArray i).flag = (b.handleArray i).flag ∧
    parentHandle (b'.handleArray i) = parentHandle (b.handleArray i) ∧
    i < b'.totalHandCount

structure CommitFaithful (b : HandleBase) (L : Ledger) (err : PvrsrvError) (b' : HandleBase) :
    Prop where
  answer : err = .ok ↔ L.failed = 0
  kept : L.failed = 0 → ∀ h G, L.grant h = some G → G.inBatch = true → G.type ≠ .none →
    pvrsrvLookupHandle b' h G.type = .ok G.data
  freed : L.failed ≠ 0 → ∀ h G, L.grant h = some G → G.inBatch = true →
    ∀ type d, pvrsrvLookupHandle b' h type ≠ .ok d
  closed : b'.handBatchSize = 0 ∧ b'.totalHandCountPreBatch = 0 ∧ b'.firstBatchIndexPlusOne = 0 ∧
    b'.batchHandAllocFailures = 0
  older : ∀ h G, L.grant h = some G → G.inBatch = false → SameHandle b b' (handleToIndex h)

def CommitsFaithfully (b : HandleBase) (L : Ledger) : Prop :=
  ∃ err b', pvrsrvCommitHandleBatch b = some (err, b') ∧ CommitFaithful b L err b'

theorem pvrsrvCommitHandleBatch_answer {err : PvrsrvError} {b' : HandleBase}
    (hb : handlesBatched b = true) (h : pvrsrvCommitHandleBatch b = some (err, b')) : err = .ok := by
  simp only [pvrsrvCommitHandleBatch, pvrsrvHandleBatchCommitOrRelease, hb, Bool.not_true,
    Bool.false_eq_true, ↓reduceIte, ne_eq, not_true_eq_false, false_and] at h
  split at h
  · simp at h
  · simp only [Option.some.injEq, Prod.mk.injEq] at h
    exact h.1.symm

theorem Tracks.commits (t : Tracks b g L) (hb : handlesBatched b = true) (hf : L.failed = 0) :
    CommitsFaithfully b L := by
  obtain ⟨b', g', hr, c, -⟩ := t.inv.closeBatch true hb
  have hcont : ∀ i, entries b' g' i =
      (entries b g i).map (fun e => { e with inBatch := false }) := by
    intro i
    rw [c.content, t.failed, hf, u32_of_lt (Nat.zero_lt_succ _)]
    simp [Handles.closed]
  refine ⟨.ok, b', hr, ⟨by simp [hf], ?_, fun h => absurd hf h, ⟨c.handBatchSize,
    c.totalHandCountPreBatch, c.firstBatchIndexPlusOne, c.batchHandAllocFailures⟩, ?_⟩⟩
  · intro _ h G hG _ hty
    rw [t.grant] at hG
    obtain ⟨i, e, rfl, he, rfl⟩ := grants_eq_some_iff.mp hG
    refine (pvrsrvLookupHandle_eq_ok_iff c.sound.core (i + 1) hty _).mpr
      ⟨Entry.grant { e with inBatch := false }, ?_, rfl, rfl⟩
    simp [grants, hcont, he]
  · intro h G hG _
    rw [t.grant] at hG
    obtain ⟨i, e, rfl, he, rfl⟩ := grants_eq_some_iff.mp hG
    rw [handleToIndex_succ]
    have he' := hcont i
    rw [he, Option.map_some] at he'
    obtain ⟨hl, hd, hty, hfl, hp, -⟩ := entries_eq_some_iff.mp he
    obtain ⟨hl', hd', hty', hfl', hp', -⟩ := entries_eq_some_iff.mp he'
    refine ⟨hd'.symm.trans hd, hty'.symm.trans hty, hfl'.symm.trans hfl, ?_, hl'.1⟩
    rw [c.sound.core.parent_word hl'.busy, t.inv.core.parent_word hl.busy, ← hp, ← hp']

/-- A commit that keeps its promise means that no allocation of the batch has failed. And if none
    has, the commit keeps its promise, unless free entries or the block were lost before. -/
theorem commit_over_runs (hb : handlesBatched b = true) :
    (∀ L, CommitsFaithfully b L → L.failed = 0) ∧
    ∀ b₀ l, Created b₀ → Run step Harmless b₀ l b →
      (ledger l).failed = 0 → Held b ∧ CommitsFaithfully b (ledger l) := by
  constructor
  · rintro L ⟨err, b', hr, hc⟩
    exact hc.answer.mp (pvrsrvCommitHandleBatch_answer hb hr)
  · intro b₀ l c safe hf
    obtain ⟨g, t⟩ := c.tracks_run safe
    exact ⟨c.held_run safe, t.commits hb hf⟩

theorem commit_over_sample : ∃ l b, exec step sampleBase
      [.newBatch 2, .alloc 7 memInfoType plainFlag] = some (l, b) ∧
    (∀ L, CommitsFaithfully b L → L.failed = 0) ∧ Held b ∧ CommitsFaithfully b (ledger l) := by
  have hrun : (exec step sampleBase [.newBatch 2, .alloc 7 memInfoType plainFlag]).map
      (fun r => (r.1.map Prod.snd, handlesBatched r.2)) = some ([(.ok, 0), (.ok, 1)], true) := by
    decide +kernel
  obtain ⟨⟨l, b⟩, h, hr⟩ := Option.map_eq_some_iff.mp hrun
  obtain ⟨hans, hb⟩ := Prod.mk.inj hr
  have hl := exec_zip h
  rw [hans] at hl
  have hf : (ledger l).failed = 0 := by
    rw [hl]
    rfl
  obtain ⟨hfails, hkeeps⟩ := commit_over_runs hb
  exact ⟨l, b, h, hfails, hkeeps sampleBase l sampleBase_created
    (run_of_clear h (by decide +kernel)) hf⟩

/-- The second allocation of a resource that is not shared fails, and the commit succeeds. -/
theorem commit_hides_failure : ∃ l b, exec step sampleBase
      [.newBatch 2, .alloc 7 memInfoType plainFlag, .alloc 7 memInfoType plainFlag] =
        some (l, b) ∧
    handlesBatched b = true ∧ (ledger l).failed = 1 ∧ ¬ CommitsFaithfully b (ledger l) := by
  have hrun : (exec step sampleBase
      [.newBatch 2, .alloc 7 memInfoType plainFlag, .alloc 7 memInfoType plainFlag]).map
      (fun r => (r.1.map Prod.snd, handlesBatched r.2)) =
        some ([(.ok, 0), (.ok, 1), (.errorGeneric, 0)], true) := by
    decide +kernel
  obtain ⟨⟨l, b⟩, h, hr⟩ := Option.map_eq_some_iff.mp hrun
  obtain ⟨hans, hb⟩ := Prod.mk.inj hr
  have hl := exec_zip h
  rw [hans] at hl
  have hf : (ledger l).failed = 1 := by
    rw [hl]
    rfl
  refine ⟨l, b, h, hb, hf, ?_⟩
  rintro ⟨err, b', hc, hp⟩
  have := hp.answer.mp (pvrsrvCommitHandleBatch_answer hb hc)
  omega

end
end PvrServices.Handles
