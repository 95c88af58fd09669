import PvrServices.HandleFreeList

set_option autoImplicit false

/-! # Releasing a handle -/
namespace PvrServices.Handles
open Words HashTable LinkedRing

def Hashes (b : HandleBase) (i : ℕ) : Bool :=
  !(b.handleArray i).flag.multi && !(b.handleArray i).internalFlag.partiallyFree

def keyOf (b : HandleBase) (i : ℕ) : List ℕ :=
  initKey (b.handleArray i).data (b.handleArray i).type (parentIfPrivate (b.handleArray i))

theorem removeFromHash_spec (b : HandleBase) (i : ℕ) (w : Wf hashFuncDefault b.hashTab) :
    ∃ t os, removeFromHash b i = { b with hashTab := t, os := os } ∧ os.grants = b.os.grants ∧
      Wf hashFuncDefault t ∧ t.lookup hashFuncDefault =
        if Hashes b i then Function.update (b.hashTab.lookup hashFuncDefault) (keyOf b i) none
        else b.hashTab.lookup hashFuncDefault := by
  unfold removeFromHash Hashes
  dsimp only
  split
  · rcases hr : hashRemoveExtended hashFuncDefault b.os b.hashTab (initKey (b.handleArray i).data
      (b.handleArray i).type (parentIfPrivate (b.handleArray i))) with ⟨v, t, os⟩
    obtain ⟨hg, -, hw, hl⟩ := w.remove hr
    exact ⟨t, os, rfl, hg, hw, hl⟩
  · exact ⟨b.hashTab, b.os, rfl, rfl, w, rfl⟩

theorem unlinkFromParent_parent (b : HandleBase) {i j : ℕ} (h : j ≠ i) :
    ((unlinkFromParent b i).handleArray j).siblings.parent =
      (b.handleArray j).siblings.parent := by
  change (getList (unlinkFromParent b i) (j, .siblings)).parent =
    (getList b (j, .siblings)).parent
  unfold unlinkFromParent handleListRemove
  split
  · rfl
  · rw [handleListInit, getList_setList, if_neg (by simpa using h)]
    simp only [getList_setPrev_parent, getList_setNext_parent]

/-- The entry of `retireHandle` goes to the free entries, unless its batch still holds it. -/
def Retires (b : HandleBase) (i : ℕ) : Bool :=
  !((b.handleArray i).internalFlag.batched && !(b.handleArray i).internalFlag.partiallyFree)

theorem retireHandle_of_batched {b : HandleBase} {i : ℕ} (h : Retires b i = false) :
    retireHandle b i = setHandle b i { b.handleArray i with
      type := .none
      internalFlag := ⟨true, true⟩ } := by
  have hf : (b.handleArray i).internalFlag.batched = true ∧
      (b.handleArray i).internalFlag.partiallyFree = false := by
    simpa [Retires] using h
  simp [retireHandle, hf, setHandle_setHandle]

theorem retireHandle_of_retires {b : HandleBase} {i : ℕ} (h : Retires b i = true) :
    retireHandle b i =
      let b' := setHandle b i { b.handleArray i with type := .none }
      if b.purgingEnabled then { b' with freeHandCount := u32 (b.freeHandCount + 1) }
      else { appendFree b' i with freeHandCount := u32 (b.freeHandCount + 1) } := by
  have hf : ¬ ((b.handleArray i).internalFlag.batched &&
      !(b.handleArray i).internalFlag.partiallyFree) = true := by
    simpa only [Retires, Bool.not_eq_true', Bool.not_eq_true] using h
  have ha : ∀ c : HandleBase, (appendFree c i).freeHandCount = c.freeHandCount := by
    intro c
    unfold appendFree
    split <;> rfl
  unfold retireHandle
  simp only [setHandle_self, if_neg hf]
  by_cases hp : b.purgingEnabled = true
  · rw [if_pos hp, if_pos (by exact hp)]
    rfl
  · rw [if_neg hp, if_neg (by exact hp), ha]
    rfl

theorem appendFree_spec (b : HandleBase) (i : ℕ) :
    ∃ (n : ℕ → ℕ) (f l : ℕ), appendFree b i = { b with
      handleArray := fun j => { b.handleArray j with nextIndexPlusOne := n j }
      firstFreeIndex := f
      lastFreeIndexPlusOne := l } := by
  unfold appendFree
  dsimp only
  split
  · exact ⟨fun j => (b.handleArray j).nextIndexPlusOne, i, _, rfl⟩
  · refine ⟨fun j => if j = u32Sub b.lastFreeIndexPlusOne 1 then u32 (i + 1)
      else (b.handleArray j).nextIndexPlusOne, b.firstFreeIndex, u32 (i + 1), ?_⟩
    simp only [setHandle, HandleBase.mk.injEq, and_true]
    funext j
    by_cases hj : j = u32Sub b.lastFreeIndexPlusOne 1
    · subst hj; simp
    · simp [hj]

theorem retireHandle_spec (b : HandleBase) (i : ℕ) :
    ∃ (n : ℕ → ℕ) (f l c : ℕ), retireHandle b i = { b with
      handleArray := fun j => { b.handleArray j with
        type := if j = i then .none else (b.handleArray j).type
        internalFlag :=
          if j = i ∧ (b.handleArray j).internalFlag.batched = true then ⟨true, true⟩
          else (b.handleArray j).internalFlag
        nextIndexPlusOne := n j }
      firstFreeIndex := f
      lastFreeIndexPlusOne := l
      freeHandCount := c } := by
  cases h : Retires b i with
  | false =>
    have hf : (b.handleArray i).internalFlag.batched = true := by
      simp [Retires] at h
      exact h.1
    refine ⟨fun j => (b.handleArray j).nextIndexPlusOne, b.firstFreeIndex,
      b.lastFreeIndexPlusOne, b.freeHandCount, ?_⟩
    rw [retireHandle_of_batched h]
    simp only [setHandle, HandleBase.mk.injEq, and_true]
    funext j
    by_cases hj : j = i
    · subst hj; simp [hf]
    · simp [hj]
  | true =>
    have hf : (b.handleArray i).internalFlag.batched = true →
        (b.handleArray i).internalFlag = ⟨true, true⟩ := by
      cases hx : (b.handleArray i).internalFlag
      simp only [Retires, hx, Bool.not_eq_true', Bool.and_eq_false_iff, Bool.not_eq_false'] at h
      rcases h with rfl | rfl <;> simp
    have harr : ∀ j, (setHandle b i { b.handleArray i with type := .none }).handleArray j =
        { b.handleArray j with
          type := if j = i then .none else (b.handleArray j).type
          internalFlag :=
            if j = i ∧ (b.handleArray j).internalFlag.batched = true then ⟨true, true⟩
            else (b.handleArray j).internalFlag } := by
      intro j
      rw [setHandle_apply]
      by_cases hj : j = i
      · subst hj
        by_cases hb : (b.handleArray j).internalFlag.batched = true
        · simp [hb, ← hf hb]
        · simp [hb]
      · simp [hj]
    rw [retireHandle_of_retires h]
    dsimp only
    split
    · refine ⟨fun j => (b.handleArray j).nextIndexPlusOne, b.firstFreeIndex,
        b.lastFreeIndexPlusOne, u32 (b.freeHandCount + 1), ?_⟩
      rw [setHandle_base]
      simp only [HandleBase.mk.injEq, and_true]
      funext j
      exact harr j
    · obtain ⟨n, f, l, he⟩ := appendFree_spec (setHandle b i { b.handleArray i with type := .none }) i
      refine ⟨n, f, l, u32 (b.freeHandCount + 1), ?_⟩
      rw [he, setHandle_base]
      simp only [HandleBase.mk.injEq, and_true]
      funext j
      rw [harr j]

structure SameBase (b b' : HandleBase) : Prop where
  maxIndexPlusOne : b'.maxIndexPlusOne = b.maxIndexPlusOne
  totalHandCount : b'.totalHandCount = b.totalHandCount
  handBatchSize : b'.handBatchSize = b.handBatchSize
  totalHandCountPreBatch : b'.totalHandCountPreBatch = b.totalHandCountPreBatch
  firstBatchIndexPlusOne : b'.firstBatchIndexPlusOne = b.firstBatchIndexPlusOne
  batchHandAllocFailures : b'.batchHandAllocFailures = b.batchHandAllocFailures
  purgingEnabled : b'.purgingEnabled = b.purgingEnabled
  grants : b'.os.grants = b.os.grants

theorem SameBase.refl (b : HandleBase) : SameBase b b := ⟨rfl, rfl, rfl, rfl, rfl, rfl, rfl, rfl⟩

theorem SameBase.trans {b c d : HandleBase} (h : SameBase b c) (h' : SameBase c d) :
    SameBase b d where
  maxIndexPlusOne := h'.maxIndexPlusOne.trans h.maxIndexPlusOne
  totalHandCount := h'.totalHandCount.trans h.totalHandCount
  handBatchSize := h'.handBatchSize.trans h.handBatchSize
  totalHandCountPreBatch := h'.totalHandCountPreBatch.trans h.totalHandCountPreBatch
  firstBatchIndexPlusOne := h'.firstBatchIndexPlusOne.trans h.firstBatchIndexPlusOne
  batchHandAllocFailures := h'.batchHandAllocFailures.trans h.batchHandAllocFailures
  purgingEnabled := h'.purgingEnabled.trans h.purgingEnabled
  grants := h'.grants.trans h.grants

/-- What a run of `FreeHandle` has done once the entries of `E` have left the hash table and
    those of `D` have been retired. -/
structure Freed (b₀ : HandleBase) (E D : List ℕ) (b : HandleBase) : Prop where
  base : SameBase b₀ b
  sub : ∀ j ∈ D, j ∈ E
  data : ∀ j, (b.handleArray j).data = (b₀.handleArray j).data
  flag : ∀ j, (b.handleArray j).flag = (b₀.handleArray j).flag
  type : ∀ j, (b.handleArray j).type = if j ∈ D then .none else (b₀.handleArray j).type
  internalFlag : ∀ j, (b.handleArray j).internalFlag =
    if j ∈ D ∧ (b₀.handleArray j).internalFlag.batched = true then ⟨true, true⟩
    else (b₀.handleArray j).internalFlag
  parent : ∀ j, j ∉ E → (b.handleArray j).siblings.parent = (b₀.handleArray j).siblings.parent
  wf : Wf hashFuncDefault b.hashTab
  lookup : ∀ k, (∃ j ∈ E, Hashes b₀ j = true ∧ keyOf b₀ j = k) ∧
      b.hashTab.lookup hashFuncDefault k = none ∨
    (∀ j ∈ E, Hashes b₀ j = true → keyOf b₀ j ≠ k) ∧
      b.hashTab.lookup hashFuncDefault k = b₀.hashTab.lookup hashFuncDefault k

theorem Freed.refl {b : HandleBase} (w : Wf hashFuncDefault b.hashTab) : Freed b [] [] b where
  base := .refl b
  sub := by simp
  data _ := rfl
  flag _ := rfl
  type _ := by simp
  internalFlag _ := by simp
  parent _ _ := rfl
  wf := w
  lookup _ := Or.inr ⟨by simp, rfl⟩

theorem Freed.enter {b₀ b : HandleBase} {E D : List ℕ} (f : Freed b₀ E D b) {i : ℕ}
    (hi : i ∉ E) : Freed b₀ (E ++ [i]) D (unlinkFromParent (removeFromHash b i) i) := by
  have hiD : i ∉ D := fun h => hi (f.sub i h)
  obtain ⟨t, os, hr, hg, hw, hl⟩ := removeFromHash_spec b i f.wf
  obtain ⟨c, s, hu⟩ := linkOnly_unlinkFromParent (removeFromHash b i) i
  have hh : Hashes b i = Hashes b₀ i := by
    simp [Hashes, f.flag, f.internalFlag, hiD]
  have hk : keyOf b i = keyOf b₀ i := by
    simp [keyOf, parentIfPrivate, parentHandle, f.data, f.type, f.flag, f.parent i hi, hiD]
  rw [hh, hk] at hl
  have hp := fun j (hj : j ≠ i) => unlinkFromParent_parent (removeFromHash b i) hj
  rw [hu] at hp ⊢
  rw [hr] at hp ⊢
  refine ⟨f.base.trans ⟨rfl, rfl, rfl, rfl, rfl, rfl, rfl, hg⟩, ?_, f.data, f.flag, f.type,
    f.internalFlag, ?_, hw, ?_⟩
  · intro j hj
    simp [f.sub j hj]
  · intro j hj
    simp only [List.mem_append, List.mem_singleton, not_or] at hj
    exact (hp j hj.2).trans (f.parent j hj.1)
  · intro k
    simp only [List.mem_append, List.mem_singleton, hl]
    rcases f.lookup k with ⟨⟨j, hj, hjk⟩, hn⟩ | ⟨hno, he⟩
    · refine Or.inl ⟨⟨j, Or.inl hj, hjk⟩, ?_⟩
      split
      · rw [Function.update_apply]
        split
        · rfl
        · exact hn
      · exact hn
    · by_cases hik : Hashes b₀ i = true ∧ keyOf b₀ i = k
      · refine Or.inl ⟨⟨i, Or.inr rfl, hik⟩, ?_⟩
        rw [if_pos hik.1, ← hik.2, Function.update_self]
      · refine Or.inr ⟨?_, ?_⟩
        · rintro j (hj | rfl) hh'
          · exact hno j hj hh'
          · exact fun h => hik ⟨hh', h⟩
        · split
          · rename_i hh'
            rw [Function.update_of_ne (fun h => hik ⟨hh', h.symm⟩)]
            exact he
          · exact he

theorem Freed.retire {b₀ b : HandleBase} {E D : List ℕ} (f : Freed b₀ E D b) {i : ℕ}
    (he : i ∈ E) (hd : i ∉ D) : Freed b₀ E (D ++ [i]) (retireHandle b i) := by
  obtain ⟨n, fi, l, c, hr⟩ := retireHandle_spec b i
  rw [hr]
  refine ⟨f.base.trans ⟨rfl, rfl, rfl, rfl, rfl, rfl, rfl, rfl⟩, ?_, f.data, f.flag, ?_, ?_,
    f.parent, f.wf, f.lookup⟩
  · intro j hj
    rcases List.mem_append.mp hj with h | h
    · exact f.sub j h
    · rwa [List.mem_singleton.mp h]
  · intro j
    by_cases hj : j = i
    · simp [hj]
    · simp [hj, f.type]
  · intro j
    by_cases hj : j = i
    · subst hj
      simp [f.internalFlag, hd]
    · simp [hj, f.internalFlag]

theorem FreeSteps.freed {b₀ b : HandleBase} {E D : List ℕ} (h : FreeSteps b₀ E D b)
    (w : Wf hashFuncDefault b₀.hashTab) : Freed b₀ E D b := by
  induction h with
  | refl => exact .refl w
  | enter _ hi ih => exact ih.enter hi
  | retire _ he hd ih => exact ih.retire he hd

/-- What the steps of `FreeHandle` do to the free entries `fl`. -/
structure FreeGrown (b₀ : HandleBase) (fl : List ℕ) (b : HandleBase) : Prop where
  count : b.freeHandCount = fl.length
  chain : b₀.purgingEnabled = false → FreeChain b fl
  next : ∀ j, j ∉ fl → (b.handleArray j).nextIndexPlusOne = (b₀.handleArray j).nextIndexPlusOne
  first : b₀.purgingEnabled = true → b.firstFreeIndex = b₀.firstFreeIndex

theorem FreeGrown.congr {b₀ b b' : HandleBase} {fl : List ℕ} (g : FreeGrown b₀ fl b)
    (hc : b'.freeHandCount = b.freeHandCount) (hf : b'.firstFreeIndex = b.firstFreeIndex)
    (hl : b'.lastFreeIndexPlusOne = b.lastFreeIndexPlusOne)
    (hn : ∀ j, (b'.handleArray j).nextIndexPlusOne = (b.handleArray j).nextIndexPlusOne) :
    FreeGrown b₀ fl b' where
  count := hc.trans g.count
  chain hp := (g.chain hp).congr hf hl (fun j _ => hn j)
  next j hj := (hn j).trans (g.next j hj)
  first hp := hf.trans (g.first hp)

theorem FreeGrown.enter {b₀ b : HandleBase} {fl : List ℕ} (g : FreeGrown b₀ fl b)
    (w : Wf hashFuncDefault b.hashTab) (i : ℕ) :
    FreeGrown b₀ fl (unlinkFromParent (removeFromHash b i) i) := by
  obtain ⟨t, os, hr, -⟩ := removeFromHash_spec b i w
  obtain ⟨c, s, hu⟩ := linkOnly_unlinkFromParent (removeFromHash b i) i
  rw [hu, hr]
  exact g.congr rfl rfl rfl (fun _ => rfl)

theorem FreeGrown.retire {b₀ b : HandleBase} {fl : List ℕ} (g : FreeGrown b₀ fl b) {i : ℕ}
    (hp : b.purgingEnabled = b₀.purgingEnabled) (hr : Retires b i = true) (hnd : fl.Nodup)
    (hi : i ∉ fl) (hw : i < 4294967295) (hlen : fl.length < 4294967295)
    (hz : (b.handleArray i).nextIndexPlusOne = 0) :
    FreeGrown b₀ (fl ++ [i]) (retireHandle b i) := by
  have hcount : u32 (b.freeHandCount + 1) = (fl ++ [i]).length := by
    rw [g.count, u32_of_lt (by omega), List.length_append, List.length_singleton]
  set b₁ := setHandle b i { b.handleArray i with type := .none } with hb₁
  have hn₁ : ∀ j, (b₁.handleArray j).nextIndexPlusOne = (b.handleArray j).nextIndexPlusOne := by
    intro j
    rw [hb₁, setHandle_apply]
    split
    · subst j; rfl
    · rfl
  have g₁ : FreeGrown b₀ fl b₁ := g.congr rfl rfl rfl hn₁
  rw [retireHandle_of_retires hr]
  dsimp only
  split
  · rename_i hpt
    refine ⟨hcount, ?_, ?_, g.first⟩
    · intro hp'
      rw [hp, hp'] at hpt
      exact absurd hpt (by simp)
    · intro j hj
      exact g₁.next j (fun h => hj (by simp [h]))
  · rename_i hpf
    have hpf' : b₀.purgingEnabled = false := by rw [← hp]; simpa using hpf
    have hch : FreeChain (appendFree b₁ i) (fl ++ [i]) :=
      (g₁.chain hpf').append hnd g₁.count hi hw ((hn₁ i).trans hz)
    refine ⟨hcount, fun _ => hch.congr rfl rfl (fun _ _ => rfl), ?_, ?_⟩
    · intro j hj
      simp only [List.mem_append, List.mem_singleton, not_or] at hj
      refine Eq.trans ?_ (g₁.next j hj.1)
      change ((appendFree b₁ i).handleArray j).nextIndexPlusOne = _
      unfold appendFree
      dsimp only
      split
      · rfl
      · rename_i hc
        obtain ⟨l, hl⟩ : ∃ l, fl.getLast? = some l := by
          cases hfl : fl with
          | nil => exact absurd (by rw [g₁.count, hfl]; rfl) hc
          | cons x t => exact ⟨_, List.getLast?_cons⟩
        have hjl : j ≠ l := fun h => hj.1 (h ▸ List.mem_of_getLast? hl)
        change ((setHandle b₁ _ _).handleArray j).nextIndexPlusOne = _
        rw [(g₁.chain hpf').last_eq hl, setHandle_of_ne b₁ _ hjl]
    · intro hp'
      rw [hpf'] at hp'
      simp at hp'

theorem FreeSteps.grown {b₀ b : HandleBase} {E D fl : List ℕ} (h : FreeSteps b₀ E D b)
    (w : Wf hashFuncDefault b₀.hashTab) (hc : b₀.freeHandCount = fl.length)
    (hchain : b₀.purgingEnabled = false → FreeChain b₀ fl)
    (hnd : (fl ++ D.filter (Retires b₀)).Nodup)
    (hlen : (fl ++ D.filter (Retires b₀)).length ≤ 4294967295)
    (hw : ∀ j ∈ D, j < 4294967295)
    (hz : ∀ j ∈ D, Retires b₀ j = true → (b₀.handleArray j).nextIndexPlusOne = 0) :
    FreeGrown b₀ (fl ++ D.filter (Retires b₀)) b := by
  induction h with
  | refl =>
    simp only [List.filter_nil, List.append_nil]
    exact ⟨hc, hchain, fun _ _ => rfl, fun _ => rfl⟩
  | enter h _ ih => exact (ih hnd hlen hw hz).enter (h.freed w).wf _
  | @retire E D b h i he hd ih =>
    have f := h.freed w
    have hret : Retires b i = Retires b₀ i := by
      simp [Retires, f.internalFlag, hd]
    rw [List.filter_append, ← List.append_assoc] at hnd hlen ⊢
    have hnd' := (List.nodup_append.mp hnd).1
    rw [List.length_append] at hlen
    have g := ih hnd' (by omega) (fun j hj => hw j (by simp [hj]))
      (fun j hj => hz j (by simp [hj]))
    cases hr : Retires b₀ i with
    | false =>
      simp only [List.filter_cons, hr, Bool.false_eq_true, ↓reduceIte, List.filter_nil,
        List.append_nil]
      rw [retireHandle_of_batched (hret.trans hr)]
      refine g.congr rfl rfl rfl ?_
      intro j
      rw [setHandle_apply]
      split
      · subst j; rfl
      · rfl
    | true =>
      simp only [List.filter_cons, hr, ↓reduceIte, List.filter_nil] at hnd hlen ⊢
      have hi : i ∉ fl ++ D.filter (Retires b₀) := by
        intro hm
        exact (List.nodup_append.mp hnd).2.2 i hm i (by simp) rfl
      refine g.retire f.base.purgingEnabled (hret.trans hr) hnd' hi (hw i (by simp)) ?_ ?_
      · simp only [List.length_singleton] at hlen
        omega
      · rw [g.next i hi]
        exact hz i (by simp) hr

/-- The handles of the subtree `D` below `i` are gone, and nothing else has changed. -/
structure Released (b : HandleBase) (g : Ghost) (i : ℕ) (D : List ℕ) (b' : HandleBase)
    (g' : Ghost) : Prop where
  sound : Sound b' g'
  base : SameBase b b'
  batch : g'.batch = g.batch
  rank : g'.rank = g.rank
  clock : g'.clock = g.clock
  lost : g'.lost = g.lost
  subtree : Subtree (Busy b g) g.par g.rank i D
  live : ∀ j ∈ D, Live b j
  content : ∀ j, entries b' g' j = if j ∈ D then none else entries b g j
  parent : ∀ j, Busy b g j → j ∉ D → g'.par j = g.par j
  kept : ∀ j ∉ D, (b'.handleArray j).internalFlag = (b.handleArray j).internalFlag

theorem length_lt_freeFuel {b : HandleBase} {l : List ℕ} (hl : l.Nodup)
    (h : ∀ j ∈ l, j < b.totalHandCount) : l.length < freeFuel b := by
  have hsub : l ⊆ List.range b.totalHandCount := fun j hj => List.mem_range.mpr (h j hj)
  have := (hl.subperm hsub).length_le
  rw [List.length_range] at this
  unfold freeFuel
  omega

theorem Core.release_spec {b : HandleBase} {g : Ghost} (c : Core b g)
    (w : Wf hashFuncDefault b.hashTab) {i : ℕ} (hi : Live b i) :
    ∃ (E D : List ℕ) (b' : HandleBase) (kids' : ℕ → List ℕ) (par' : ℕ → Option ℕ),
      freeHandle (freeFuel b) b i = some (.ok, b') ∧ freedHandles (freeFuel b) b i = D ∧
      FreeSteps b E D b' ∧ (∀ j, j ∈ E ↔ j ∈ D) ∧ Subtree (Busy b g) g.par g.rank i D ∧ (∀ j ∈ D, Live b j) ∧
      Links (getList b') (Busy b g) kids' par' ∧ (∀ j ∈ D, kids' j = [] ∧ par' j = none) ∧
      (∀ j, Busy b g j → j ∉ D → kids' j = (g.kids j).erase i ∧ par' j = g.par j) ∧
      Freed b E D b' := by
  obtain ⟨E, D, b', kids', par', hrun, hlog, hst, hED, hsub, L, hin, hout⟩ :=
    freesSubtrees g.rank (freeFuel b) b (Busy b g) g.kids g.par i c.links
      (fun k p hk _ hp _ => c.older k p hk hp) hi.busy
      (fun l hl hlt => length_lt_freeFuel hl (fun j hj => (hlt j hj).1.1))
  refine ⟨E, D, b', kids', par', hrun, hlog, hst, hED, hsub, ?_, L, hin, hout, hst.freed w⟩
  intro j hj
  rcases hsub.up j hj with rfl | ⟨p, -, hp⟩
  · exact hi
  · exact c.live_of_parent (hsub.sub j hj) hp

def Ghost.released (g : Ghost) (D : List ℕ) (kids' : ℕ → List ℕ) (par' : ℕ → Option ℕ) : Ghost :=
  { g with
    free := g.free ++ D.filter (fun j => j ∉ g.batch)
    kids := kids'
    par := par' }

section
variable {b b' : HandleBase} {g : Ghost} {E D : List ℕ} {kids' : ℕ → List ℕ}
  {par' : ℕ → Option ℕ}

theorem Core.retires_eq (c : Core b g) (hD : ∀ j ∈ D, Live b j) :
    D.filter (Retires b) = D.filter (fun j => j ∉ g.batch) := by
  refine List.filter_congr ?_
  intro j hj
  simp [Retires, c.live_flag (hD j hj)]

theorem Freed.live_iff (f : Freed b E D b') (j : ℕ) : Live b' j ↔ Live b j ∧ j ∉ D := by
  unfold Live
  rw [f.base.totalHandCount, f.type]
  by_cases hj : j ∈ D <;> simp [hj]

theorem Freed.busy_iff (f : Freed b E D b') (hD : ∀ j ∈ D, Live b j) (j : ℕ) :
    Busy b' (g.released D kids' par') j ↔ Busy b g j ∧ (j ∈ D → j ∈ g.batch) := by
  unfold Busy Ghost.released
  rw [f.base.totalHandCount, f.type]
  by_cases hj : j ∈ D
  · have := (hD j hj).1
    simp only [hj, ↓reduceIte]
    tauto
  · simp [hj]

theorem Freed.entries_eq (f : Freed b E D b')
    (hpar : ∀ j, Busy b g j → j ∉ D → par' j = g.par j) (j : ℕ) :
    entries b' (g.released D kids' par') j = if j ∈ D then none else entries b g j := by
  by_cases hj : j ∈ D
  · rw [if_pos hj, entries_eq_none_iff, f.live_iff]
    simp [hj]
  · rw [if_neg hj]
    by_cases hl : Live b j
    · rw [entries, if_pos ((f.live_iff j).mpr ⟨hl, hj⟩), entries, if_pos hl]
      simp only [f.data, f.flag, f.type, if_neg hj, Ghost.released, hpar j hl.busy hj]
      rfl
    · rw [entries_eq_none_iff.mpr hl, entries_eq_none_iff, f.live_iff]
      simp [hl]

/-- A key that is taken out of the hash table belonged to an entry that is gone. -/
theorem Hashed.released {m : ℕ → Option Entry} (hh : Hashed b.hashTab (entries b g))
    (c : Core b g) (f : Freed b E D b') (hED : ∀ j, j ∈ E ↔ j ∈ D) (hD : ∀ j ∈ D, Live b j)
    (hm : ∀ j, m j = if j ∈ D then none else entries b g j) : Hashed b'.hashTab m := by
  refine ⟨f.wf, ?_⟩
  intro k v
  have hold : ∀ j ∈ D, ∃ e, entries b g j = some e ∧ e.key = keyOf b j ∧
      Hashes b j = !e.flag.multi := by
    intro j hj
    refine ⟨_, if_pos (hD j hj), (c.key_eq (if_pos (hD j hj))).symm, ?_⟩
    simp [Hashes, c.live_flag (hD j hj)]
  rcases f.lookup k with ⟨⟨j, hj, hjh, hjk⟩, hn⟩ | ⟨hno, he⟩
  · rw [hn]
    simp only [reduceCtorEq, false_iff, not_exists, not_and]
    intro x e hx hmulti hkey
    obtain ⟨e', he', hk', hh'⟩ := hold j ((hED j).mp hj)
    rw [hm] at hx
    split at hx
    · simp at hx
    · rename_i hxD
      have h₁ := (hh.lookup k (j + 1)).mpr ⟨j, e', he', by simpa [hh'] using hjh, by rw [hk', hjk], rfl⟩
      have h₂ := (hh.lookup k (x + 1)).mpr ⟨x, e, hx, hmulti, hkey, rfl⟩
      rw [h₁] at h₂
      have hjx : j = x := by simpa using h₂
      exact absurd (hjx ▸ (hED j).mp hj) hxD
  · rw [he, hh.lookup]
    refine exists_congr (fun x => exists_congr (fun e => ?_))
    rw [hm]
    constructor
    · rintro ⟨hx, hmulti, hkey, hv⟩
      refine ⟨?_, hmulti, hkey, hv⟩
      rw [if_neg]
      · exact hx
      · intro hxD
        obtain ⟨e', he', hk', hh'⟩ := hold x hxD
        obtain rfl : e' = e := Option.some.inj (he'.symm.trans hx)
        exact hno x ((hED x).mpr hxD) (by simp [hh', hmulti]) (by rw [← hk', hkey])
    · rintro ⟨hx, hmulti, hkey, hv⟩
      split at hx
      · simp at hx
      · exact ⟨hx, hmulti, hkey, hv⟩

end

theorem Sound.release_logged {b : HandleBase} {g : Ghost} (s : Sound b g) {i : ℕ}
    (hi : Live b i) : ∃ D b' g', freeHandle (freeFuel b) b i = some (.ok, b') ∧
      freedHandles (freeFuel b) b i = D ∧ D.Nodup ∧ Released b g i D b' g' := by
  have c := s.core
  obtain ⟨E, D, b', kids', par', hrun, hlog, hst, hED, hsub, hD, L, hin, hout, f⟩ :=
    c.release_spec s.hashed.wf hi
  have hpar : ∀ j, Busy b g j → j ∉ D → par' j = g.par j := fun j hj hjD => (hout j hj hjD).2
  have hent : ∀ j, entries b' (g.released D kids' par') j =
      if j ∈ D then none else entries b g j := f.entries_eq hpar
  have hbusy : ∀ j, Busy b' (g.released D kids' par') j ↔ Busy b g j ∧ (j ∈ D → j ∈ g.batch) :=
    f.busy_iff hD
  have hmem : ∀ j, j ∈ g.free ++ D.filter (fun j => j ∉ g.batch) ↔
      j ∈ g.free ∨ j ∈ D ∧ j ∉ g.batch := by simp
  have hnd : (g.free ++ D.filter (fun j => j ∉ g.batch)).Nodup := by
    rw [List.nodup_append]
    refine ⟨s.pool.nodup, hst.nodup.filter _, ?_⟩
    rintro x hx y hy rfl
    exact (hD x (List.mem_of_mem_filter hy)).2 ((s.pool.mem x).mp hx).2.1
  have hlt : ∀ j ∈ g.free ++ D.filter (fun j => j ∉ g.batch), j < b.totalHandCount := by
    intro j hj
    rcases (hmem j).mp hj with h | h
    · exact ((s.pool.mem j).mp h).1
    · exact (hD j h.1).1
  have hlen := length_lt_freeFuel hnd hlt
  have htot := c.total_le
  have hmax := c.max_le
  rw [← c.retires_eq hD] at hnd hlen
  have hgrown := hst.grown s.hashed.wf s.pool.count s.chain hnd
    (by
      have hsub : g.free ++ D.filter (Retires b) ⊆ List.range b.totalHandCount := by
        intro j hj
        rw [c.retires_eq hD] at hj
        exact List.mem_range.mpr (hlt j hj)
      have := (hnd.subperm hsub).length_le
      rw [List.length_range] at this
      omega)
    (fun j hj => by have := (hD j hj).1; omega)
    (by
      intro j hj hr
      simp [Retires, c.live_flag (hD j hj)] at hr
      exact (c.plain j (hD j hj) hr).2)
  rw [c.retires_eq hD] at hgrown hnd
  have hlive : ∀ j ∈ D, j ∈ g.batch → (b.handleArray j).internalFlag.batched = true := by
    intro j _ hj
    rw [c.batch_flag j hj]
  have hbatch : ∀ j ∈ g.batch, j ∉ g.free ++ D.filter (fun j => j ∉ g.batch) := by
    intro j hj hm
    rcases (hmem j).mp hm with h | h
    · exact ((s.pool.mem j).mp h).2.2 hj
    · exact h.2 hj
  have hparD : ∀ k p, par' k = some p → k ∉ D := by
    intro k p hp hk
    simp [(hin k hk).2] at hp
  refine ⟨D, b', g.released D kids' par', hrun, hlog, hst.nodup, ⟨⟨⟨?_, ?_, ?_, ?_⟩, ?_⟩, f.base,
    rfl, rfl, rfl, rfl, hsub, hD, hent, hpar, ?_⟩⟩
  · refine ⟨?_, ?_, ?_, ?_, ?_, ?_, ?_, c.batch_sorted, ?_, ?_, ?_⟩
    · rw [f.base.totalHandCount, f.base.maxIndexPlusOne]
      exact c.total_le
    · rw [f.base.maxIndexPlusOne]
      exact c.max_le
    · refine L.restrict _ (fun j hj => ((hbusy j).mp hj).1) ?_ ?_
      · intro k p hk hp
        have hkb := ((hbusy k).mp hk).1
        have hkD := hparD k p hp
        have hp' : g.par k = some p := by rw [← hpar k hkb hkD, hp]
        refine (hbusy p).mpr ⟨c.links.parent_mem k p hkb hp', fun hpD => ?_⟩
        exact absurd (hsub.down k p hkb hp' hpD) hkD
      · intro k p _ hk hp
        exact (hbusy k).mpr ⟨hk, fun h => absurd h (hparD k p hp)⟩
    · intro k p hk hp
      have hkb := ((hbusy k).mp hk).1
      have hp' : g.par k = some p := by rw [← hpar k hkb (hparD k p hp), ← hp]; rfl
      exact c.older k p hkb hp'
    · intro j hj
      exact c.rank_lt j ((hbusy j).mp hj).1
    · intro j hj
      rw [f.base.totalHandCount]
      exact c.batch_lt j hj
    · intro s' j t hst'
      have hj : j ∈ g.batch := by
        change g.batch = _ at hst'
        simp [hst']
      rw [hgrown.next j (hbatch j hj)]
      exact c.batch_next s' j t hst'
    · intro j hj
      rw [f.internalFlag, f.type]
      by_cases hjD : j ∈ D
      · simp [hjD, hlive j hjD hj]
      · simp only [hjD, false_and, ↓reduceIte]
        exact c.batch_flag j hj
    · intro j hj ht
      by_cases hjD : j ∈ D
      · exact hin j hjD
      · rw [f.type, if_neg hjD] at ht
        have hd := c.dead j hj ht
        have ho := hout j (c.batch_busy hj) hjD
        exact ⟨by change kids' j = []; rw [ho.1, hd.1]; rfl, ho.2.trans hd.2⟩
    · intro j hj hjb
      obtain ⟨hl, hjD⟩ := (f.live_iff j).mp hj
      have hp := c.plain j hl hjb
      have hfree : j ∉ g.free ++ D.filter (fun j => j ∉ g.batch) := by
        intro hm
        rcases (hmem j).mp hm with h | h
        · exact hl.2 ((s.pool.mem j).mp h).2.1
        · exact hjD h.1
      rw [f.internalFlag, hgrown.next j hfree]
      simpa [hjD] using hp
  · refine ⟨hnd, ?_, hgrown.count⟩
    intro j
    change j ∈ g.free ++ D.filter (fun j => j ∉ g.batch) ↔ _ ∧ _ ∧ j ∉ g.batch
    rw [hmem, s.pool.mem, f.base.totalHandCount, f.type]
    by_cases hjD : j ∈ D
    · have := hD j hjD
      simp only [hjD, this.1, this.2, ↓reduceIte]
      tauto
    · simp [hjD]
  · intro hp
    exact hgrown.chain (f.base.purgingEnabled.symm.trans hp)
  · intro hp hlost
    have hp' := f.base.purgingEnabled.symm.trans hp
    have hs := s.scan hp' hlost
    refine ⟨?_, ?_⟩
    · intro j hj
      rw [f.internalFlag]
      rcases (hmem j).mp hj with h | h
      · have hjD : j ∉ D := fun hjD => (hD j hjD).2 ((s.pool.mem j).mp h).2.1
        simpa [hjD] using hs.clean j h
      · have hfl := c.live_flag (hD j h.1)
        simp [hfl, h.2]
    · rw [hgrown.first hp', f.base.totalHandCount]
      intro hne
      refine ⟨(hs.first hne).1, ?_⟩
      intro j h₁ h₂
      exact (hmem j).mpr (Or.inl ((hs.first hne).2 j h₁ h₂))
  · exact s.hashed.released c f hED hD hent
  · intro j hj
    rw [f.internalFlag]
    simp [hj]

theorem Sound.release {b : HandleBase} {g : Ghost} (s : Sound b g) {i : ℕ} (hi : Live b i) :
    ∃ D b' g', freeHandle (freeFuel b) b i = some (.ok, b') ∧ Released b g i D b' g' := by
  obtain ⟨D, b', g', hrun, -, -, r⟩ := s.release_logged hi
  exact ⟨D, b', g', hrun, r⟩

end PvrServices.Handles
