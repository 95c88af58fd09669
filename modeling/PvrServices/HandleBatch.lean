import PvrServices.HandleCalls

set_option autoImplicit false

/-!
# Closing a batch

The loop takes the handles of the batch newest first. A handle that was released while the batch
was open has become a root without children, and a handle that goes with the batch has lost its
children before, so every `FreeHandle` of the loop frees a single entry.
-/
namespace PvrServices.Handles
open Words HashTable LinkedRing

section
variable {b b' : HandleBase} {g g' : Ghost}

/-- The ghost when the handle at the head of the batch has been dealt with. -/
def Ghost.nextInBatch (g : Ghost) (t : List ℕ) : Ghost := { g with batch := t }

theorem entries_nextInBatch {i : ℕ} {t : List ℕ} (hb : g.batch = i :: t) (j : ℕ) (hj : j ≠ i) :
    entries b (g.nextInBatch t) j = entries b g j := by
  unfold entries
  split
  · simp only [Ghost.nextInBatch, hb, List.mem_cons, hj, false_or]
    rfl
  · rfl

def cutLink (b : HandleBase) (i : ℕ) : HandleBase :=
  setHandle b i { b.handleArray i with nextIndexPlusOne := 0 }

theorem cutLink_flag (b : HandleBase) (i : ℕ) :
    ((cutLink b i).handleArray i).internalFlag = (b.handleArray i).internalFlag := by
  rw [cutLink, setHandle_self]

theorem batchLoop_succ (commit : Bool) (fuel : ℕ) (b : HandleBase) (i : ℕ) :
    batchLoop commit (fuel + 1) b (i + 1) =
      if !commit || (b.handleArray i).internalFlag.partiallyFree then
        let b₁ := if (b.handleArray i).internalFlag.partiallyFree then cutLink b i
          else setUnbatchedHandle (cutLink b i) i
        match freeHandle (freeFuel b₁) b₁ i with
        | none => none
        | some (_, b₂) => batchLoop commit fuel b₂ (b.handleArray i).nextIndexPlusOne
      else batchLoop commit fuel (setUnbatchedHandle (cutLink b i) i)
        (b.handleArray i).nextIndexPlusOne := by
  rw [← cutLink_flag b i]
  rfl

def unbatched (b : HandleBase) (i : ℕ) : HandleBase := setUnbatchedHandle (cutLink b i) i

theorem unbatched_eq (b : HandleBase) (i : ℕ) : unbatched b i = setHandle b i { b.handleArray i with
    nextIndexPlusOne := 0
    internalFlag := { (b.handleArray i).internalFlag with batched := false } } := by
  unfold unbatched setUnbatchedHandle cutLink
  rw [setHandle_setHandle, setHandle_self]

theorem Sound.unbatch (s : Sound b g) {i : ℕ} {t : List ℕ} (hb : g.batch = i :: t)
    (hl : Live b i) : Sound (unbatched b i) (g.nextInBatch t) ∧
      ∀ j, entries (unbatched b i) (g.nextInBatch t) j =
        if j = i then (entries b g j).map (fun e => { e with inBatch := false })
        else entries b g j := by
  have c := s.core
  have hnd := c.batch_nodup
  rw [hb, List.nodup_cons] at hnd
  have hbt : ∀ j, j ∈ g.batch ↔ j = i ∨ j ∈ t := by simp [hb]
  have hne : ∀ j, j ≠ i → (unbatched b i).handleArray j = b.handleArray j := by
    intro j hj
    rw [unbatched_eq, setHandle_of_ne b _ hj]
  have htype : ∀ j, ((unbatched b i).handleArray j).type = (b.handleArray j).type := by
    intro j
    rw [unbatched_eq, setHandle_apply]
    split
    · subst j; rfl
    · rfl
  have hlists : getList (unbatched b i) = getList b := by
    rw [unbatched_eq]
    exact getList_setHandle b i _ rfl rfl
  have htotal : (unbatched b i).totalHandCount = b.totalHandCount := rfl
  have hlive : ∀ j, Live (unbatched b i) j ↔ Live b j := by
    intro j
    unfold Live
    rw [htype, htotal]
  have hbusy : ∀ j, Busy (unbatched b i) (g.nextInBatch t) j ↔ Busy b g j := by
    intro j
    unfold Busy
    change _ ∧ (_ ∨ j ∈ t) ↔ _
    rw [htype, htotal, hbt]
    by_cases hj : j = i
    · subst hj
      simp [hl.2]
    · simp [hj]
  have hent : ∀ j, entries (unbatched b i) (g.nextInBatch t) j =
      if j = i then (entries b g j).map (fun e => { e with inBatch := false })
      else entries b g j := by
    intro j
    by_cases hj : j = i
    · subst hj
      rw [if_pos rfl, entries, if_pos ((hlive j).mpr hl), entries, if_pos hl, unbatched_eq,
        setHandle_self, Option.map_some]
      simp only [Ghost.nextInBatch, hnd.1, decide_false]
    · rw [if_neg hj, ← entries_nextInBatch hb j hj]
      by_cases hlj : Live b j
      · rw [entries, if_pos ((hlive j).mpr hlj), entries, if_pos hlj, hne j hj]
      · rw [entries_eq_none_iff.mpr hlj, entries_eq_none_iff, hlive]
        exact hlj
  have hif : i ∉ g.free := fun h => ((s.pool.mem i).mp h).2.2 (by simp [hb])
  have hremains : Remains b g (unbatched b i) (g.nextInBatch t) :=
    { total_le := c.total_le
      max := rfl
      lists := hlists
      kids := rfl
      par := rfl
      rank := rfl
      clock := rfl
      busy := fun j hj => (hbusy j).mp hj
      family := fun k p hk hp =>
        ⟨(hbusy k).mpr hk, (hbusy p).mpr (c.links.parent_mem k p hk hp)⟩
      batch := by
        rw [hb]
        exact List.suffix_cons i t
      batched := fun j hj => by
        have hji : j ≠ i := fun hji => hnd.1 (hji ▸ hj)
        exact ⟨c.batch_lt j ((hbt j).mpr (Or.inr hj)), hne j hji⟩
      plain := fun j hj hjt => by
        by_cases hji : j = i
        · subst hji
          rw [unbatched_eq, setHandle_self, c.live_flag hl]
          exact ⟨rfl, rfl⟩
        · rw [hne j hji]
          exact c.plain j ((hlive j).mp hj) fun h => ((hbt j).mp h).elim hji hjt }
  refine ⟨⟨⟨hremains.core c, ⟨s.pool.nodup, ?_, s.pool.count⟩, ?_, ?_⟩, ⟨s.hashed.wf, ?_⟩⟩, hent⟩
  · intro j
    change j ∈ g.free ↔ _ ∧ _ ∧ j ∉ t
    rw [s.pool.mem, htype, htotal, hbt]
    by_cases hji : j = i
    · subst hji
      simp [hl.2]
    · simp [hji]
  · intro hp
    refine (s.chain hp).congr rfl rfl ?_
    intro j hj
    rw [hne j (fun h => hif (h ▸ hj))]
  · intro hp hl
    refine ⟨?_, (s.scan hp hl).first⟩
    intro j hj
    rw [hne j (fun h => hif (h ▸ hj))]
    exact (s.scan hp hl).clean j hj
  · intro k v
    refine (s.hashed.lookup k v).trans (exists_congr (fun j => ?_))
    rw [hent]
    split
    · cases entries b g j with
      | none => simp
      | some e => simp [Entry.key]
    · rfl

/-- The first steps of `FreeHandle` leave a root without children that is no longer in the hash
    table alone, and its list is empty. -/
theorem dead_alone {i : ℕ} (L : Links (getList b) (Busy b g) g.kids g.par) (hi : Busy b g i)
    (hk : g.kids i = []) (hp : g.par i = none)
    (hf : (b.handleArray i).internalFlag.partiallyFree = true) :
    removeFromHash b i = b ∧ unlinkFromParent b i = b ∧ (getList b (i, .children)).next = i ∧
      handleToIndex (getList b (i, .children)).parent = i := by
  have hhash : removeFromHash b i = b := by
    simp [removeFromHash, hf]
  have hunlink : unlinkFromParent b i = b := by
    simp [unlinkFromParent, handleListRemove, handleListIsEmpty, L.root i hi hp]
  have hring := (L.ring i hi).next_sentinel
  rw [hk, cell_self] at hring
  have hnext : (getList b (i, .children)).next = i := by
    simp only [List.nil_append, List.head?_cons, Option.some.injEq] at hring
    exact hring.symm
  have hhead : handleToIndex (getList b (i, .children)).parent = i := by
    rw [L.head i hi, handleToIndex_succ]
  exact ⟨hhash, hunlink, hnext, hhead⟩

theorem freeHandle_dead {i : ℕ} (L : Links (getList b) (Busy b g) g.kids g.par) (hi : Busy b g i)
    (hk : g.kids i = []) (hp : g.par i = none)
    (hf : (b.handleArray i).internalFlag.partiallyFree = true) :
    freeHandle (freeFuel b) b i = some (.ok, retireHandle b i) := by
  obtain ⟨hhash, hunlink, hnext, hhead⟩ := dead_alone L hi hk hp hf
  simp only [freeFuel, freeHandle, hhash, hunlink, iterateOverChildren, handleListIterate, hnext,
    hhead, handleListIterateFrom, ↓reduceIte]

theorem freedHandles_dead {i : ℕ} (L : Links (getList b) (Busy b g) g.kids g.par) (hi : Busy b g i)
    (hk : g.kids i = []) (hp : g.par i = none)
    (hf : (b.handleArray i).internalFlag.partiallyFree = true) :
    freedHandles (freeFuel b) b i = [i] := by
  obtain ⟨hhash, hunlink, hnext, hhead⟩ := dead_alone L hi hk hp hf
  simp only [freeFuel, freedHandles, hhash, hunlink, hnext, hhead, freedFrom, ↓reduceIte,
    List.nil_append]

/-- A handle that was released while its batch was open is freed with the batch. -/
theorem Sound.retireDead (s : Sound b g) {i : ℕ} {t : List ℕ} (hb : g.batch = i :: t)
    (hd : (b.handleArray i).type = .none) :
    ∃ b' g', freeHandle (freeFuel (cutLink b i)) (cutLink b i) i = some (.ok, b') ∧
      freedHandles (freeFuel (cutLink b i)) (cutLink b i) i = [i] ∧ Sound b' g' ∧ g'.batch = t ∧
      g'.rank = g.rank ∧ (b.purgingEnabled = false → g'.lost = g.lost) ∧ SameBase b b' ∧
      ∀ j, entries b' g' j = if j = i then none else entries b g j := by
  set b₁ := cutLink b i with hb₁d
  have c := s.core
  have hnd := c.batch_nodup
  rw [hb, List.nodup_cons] at hnd
  have hbt : ∀ j, j ∈ g.batch ↔ j = i ∨ j ∈ t := by simp [hb]
  have hib : i ∈ g.batch := (hbt i).mpr (Or.inl rfl)
  have hlt := c.batch_lt i hib
  have hmax := c.max_le
  have hle := c.total_le
  have hflag : (b.handleArray i).internalFlag = ⟨true, true⟩ := by
    rw [c.batch_flag i hib, hd]
    rfl
  have hdead := c.dead i hib hd
  have hb₁ : ∀ j, b₁.handleArray j = if j = i then { b.handleArray i with nextIndexPlusOne := 0 }
      else b.handleArray j := fun j => setHandle_apply b i j _
  have hlists₁ : getList b₁ = getList b := getList_setHandle b i _ rfl rfl
  have hflag₁ : (b₁.handleArray i).internalFlag = ⟨true, true⟩ := by
    rw [hb₁, if_pos rfl]
    exact hflag
  have hbusy₁ : Busy b₁ g = Busy b g := by
    funext j
    unfold Busy
    rw [hb₁]
    by_cases hj : j = i
    · subst hj; simp only [↓reduceIte]; rfl
    · simp only [hj, ↓reduceIte]; rfl
  have hlinks₁ : Links (getList b₁) (Busy b₁ g) g.kids g.par := by
    rw [hlists₁, hbusy₁]
    exact c.links
  have hi₁ : Busy b₁ g i := by
    rw [hbusy₁]
    exact c.batch_busy hib
  have hpartly : (b₁.handleArray i).internalFlag.partiallyFree = true := by rw [hflag₁]
  have hrun := freeHandle_dead hlinks₁ hi₁ hdead.1 hdead.2 hpartly
  have hlog := freedHandles_dead hlinks₁ hi₁ hdead.1 hdead.2 hpartly
  have hif : i ∉ g.free := fun h => ((s.pool.mem i).mp h).2.2 hib
  have hret : Retires b₁ i = true := by
    unfold Retires
    rw [hflag₁]
    rfl
  have hstart : FreeGrown b₁ g.free b₁ := by
    refine ⟨s.pool.count, fun h => ?_, fun _ _ => rfl, fun _ => rfl⟩
    refine (s.chain h).congr rfl rfl (fun j hj => ?_)
    have hji : j ≠ i := fun h => hif (h ▸ hj)
    rw [hb₁, if_neg hji]
  have hgrown : FreeGrown b₁ (g.free ++ [i]) (retireHandle b₁ i) := by
    refine hstart.retire rfl hret s.pool.nodup hif (by omega) ?_ ?_
    · have := s.pool.count_le
      rw [s.pool.count] at this
      have hfl : (i :: g.free).length ≤ b.totalHandCount := by
        have hsub : i :: g.free ⊆ List.range b.totalHandCount := by
          intro j hj
          rcases List.mem_cons.mp hj with rfl | hj
          · exact List.mem_range.mpr hlt
          · exact List.mem_range.mpr ((s.pool.mem j).mp hj).1
        have := ((List.nodup_cons.mpr ⟨hif, s.pool.nodup⟩).subperm hsub).length_le
        rwa [List.length_range] at this
      rw [List.length_cons] at hfl
      omega
    · rw [hb₁, if_pos rfl]
  obtain ⟨n, f, l, cc, he⟩ := retireHandle_spec b₁ i
  have hlists : getList (retireHandle b₁ i) = getList b := (getList_retireHandle b₁ i).trans hlists₁
  have hbase : SameBase b (retireHandle b₁ i) := by
    rw [he]
    exact ⟨rfl, rfl, rfl, rfl, rfl, rfl, rfl, rfl⟩
  have htab : (retireHandle b₁ i).hashTab = b.hashTab := by
    rw [he]
    rfl
  have hkeep : ∀ j, j ≠ i → ((retireHandle b₁ i).handleArray j) =
      { b.handleArray j with nextIndexPlusOne := n j } := by
    intro j hj
    rw [he]
    simp only [hb₁, hj, false_and, ↓reduceIte]
  have htypei : ((retireHandle b₁ i).handleArray i).type = .none := by
    rw [he]
    simp
  have hnext : ∀ j, j ≠ i → j ∉ g.free →
      ((retireHandle b₁ i).handleArray j).nextIndexPlusOne =
        (b.handleArray j).nextIndexPlusOne := by
    intro j hj hjf
    rw [hgrown.next j (by simp [hj, hjf]), hb₁, if_neg hj]
  have hlive : ∀ j, Live (retireHandle b₁ i) j ↔ Live b j := by
    intro j
    unfold Live
    rw [hbase.totalHandCount]
    by_cases hj : j = i
    · subst hj
      simp [htypei, hd]
    · rw [hkeep j hj]
  -- in purging mode the flags of the entry are not those of a free one
  set g' : Ghost := { g with
    batch := t
    free := g.free ++ [i]
    lost := g.lost || b.purgingEnabled } with hg'
  have hbusy : ∀ j, Busy (retireHandle b₁ i) g' j ↔ Busy b g j ∧ j ≠ i := by
    intro j
    unfold Busy
    change _ ∧ (_ ∨ j ∈ t) ↔ _
    rw [hbase.totalHandCount, hbt]
    by_cases hj : j = i
    · subst hj
      simp [htypei, hnd.1]
    · rw [hkeep j hj]
      simp [hj]
  have hent : ∀ j, entries (retireHandle b₁ i) g' j = if j = i then none else entries b g j := by
    intro j
    by_cases hj : j = i
    · subst hj
      rw [if_pos rfl, entries_eq_none_iff, hlive]
      exact fun h => h.2 hd
    · rw [if_neg hj, ← entries_nextInBatch hb j hj]
      by_cases hl : Live b j
      · rw [entries, if_pos ((hlive j).mpr hl), entries, if_pos hl, hkeep j hj]
        rfl
      · rw [entries_eq_none_iff.mpr hl, entries_eq_none_iff, hlive]
        exact hl
  have hkept (j : ℕ) (hj : j ≠ i) (hbj : Busy b g j) :
      (retireHandle b₁ i).handleArray j = b.handleArray j := by
    have hfree : j ∉ g.free := fun h => ((s.pool.mem j).mp h).2.2
      (hbj.2.resolve_left fun hn => hn ((s.pool.mem j).mp h).2.1)
    have hsame := hnext j hj hfree
    rw [hkeep j hj] at hsame ⊢
    rw [show n j = (b.handleArray j).nextIndexPlusOne from hsame]
  have hremains : Remains b g (retireHandle b₁ i) g' :=
    { total_le := by
        rw [hbase.totalHandCount, hbase.maxIndexPlusOne]
        exact hle
      max := hbase.maxIndexPlusOne
      lists := hlists
      kids := rfl
      par := rfl
      rank := rfl
      clock := rfl
      busy := fun j hj => ((hbusy j).mp hj).1
      family := fun k p hk hpar => by
        refine ⟨(hbusy k).mpr ⟨hk, ?_⟩, (hbusy p).mpr ⟨c.links.parent_mem k p hk hpar, ?_⟩⟩
        · rintro rfl
          rw [hdead.2] at hpar
          simp at hpar
        · rintro rfl
          have := (c.links.mem p k (c.batch_busy hib)).mpr ⟨hk, hpar⟩
          rw [hdead.1] at this
          simp at this
      batch := by
        rw [hb]
        exact List.suffix_cons i t
      batched := fun j hj => by
        have hmem := (hbt j).mpr (Or.inr hj)
        rw [hbase.totalHandCount]
        exact ⟨c.batch_lt j hmem, hkept j (fun hji => hnd.1 (hji ▸ hj)) (c.batch_busy hmem)⟩
      plain := fun j hj hjt => by
        have hl := (hlive j).mp hj
        have hji : j ≠ i := fun hji => hl.2 (hji ▸ hd)
        rw [hkept j hji hl.busy]
        exact c.plain j hl fun h => ((hbt j).mp h).elim hji hjt }
  refine ⟨retireHandle b₁ i, g', hrun, hlog, ⟨⟨hremains.core c, ⟨?_, ?_, hgrown.count⟩, ?_, ?_⟩,
    ⟨?_, ?_⟩⟩, rfl, rfl, fun hp => ?_, hbase, hent⟩
  · rw [hg', List.nodup_append]
    refine ⟨s.pool.nodup, by simp, ?_⟩
    rintro x hx y hy rfl
    exact hif (List.mem_singleton.mp hy ▸ hx)
  · intro j
    change j ∈ g.free ++ [i] ↔ _ ∧ _ ∧ j ∉ t
    rw [List.mem_append, List.mem_singleton, s.pool.mem, hbase.totalHandCount, hbt]
    by_cases hj : j = i
    · subst hj
      simp [htypei, hnd.1, hlt]
    · rw [hkeep j hj]
      simp [hj]
  · intro hp
    exact hgrown.chain (hbase.purgingEnabled.symm.trans hp)
  · intro hp hl
    rw [hbase.purgingEnabled] at hp
    simp [hg', hp] at hl
  · rw [htab]
    exact s.hashed.wf
  · intro k v
    rw [htab, s.hashed.lookup]
    refine exists_congr (fun j => ?_)
    rw [hent]
    split
    · rename_i hj
      subst hj
      rw [entries_eq_none_iff.mpr (fun h => h.2 hd)]
    · rfl
  · simp [hg', hp]

theorem Subtree.eq_root {S : ℕ → Prop} {par : ℕ → Option ℕ} {rank : ℕ → ℕ} {i : ℕ} {D : List ℕ}
    (h : Subtree S par rank i D) (older : ∀ k p, S k → par k = some p → rank p < rank k)
    (hk : ∀ k, S k → par k ≠ some i) : ∀ j ∈ D, j = i := by
  suffices ∀ n, ∀ j ∈ D, rank j = n → j = i by
    intro j hj
    exact this _ j hj rfl
  intro n
  induction n using Nat.strong_induction_on with
  | _ n ih =>
    intro j hj hn
    rcases h.up j hj with rfl | ⟨p, hp, hjp⟩
    · rfl
    · have hlt := older j p (h.sub j hj) hjp
      have : p = i := ih (rank p) (by omega) p hp rfl
      exact absurd (this ▸ hjp) (hk j (h.sub j hj))

/-- The handles that are newer than one of the batch belong to the batch. -/
def NewerInBatch (b : HandleBase) (g : Ghost) : Prop :=
  ∀ i ∈ g.batch, ∀ j, Busy b g j → j ∉ g.batch → g.rank j < g.rank i

theorem Core.no_kids (c : Core b g) (hn : NewerInBatch b g) {i : ℕ} {t : List ℕ}
    (hb : g.batch = i :: t) (k : ℕ) (hk : Busy b g k) : g.par k ≠ some i := by
  intro hp
  have hlt := c.older k i hk hp
  have hs := c.batch_sorted
  rw [hb, List.pairwise_cons] at hs
  by_cases hkb : k ∈ g.batch
  · rw [hb] at hkb
    rcases List.mem_cons.mp hkb with rfl | hkt
    · exact lt_irrefl _ hlt
    · have := hs.1 k hkt
      omega
  · have := hn i (by simp [hb]) k hk hkb
    omega

def closed (g : Ghost) (commit : Bool) (m : ℕ → Option Entry) (i : ℕ) : Option Entry :=
  if commit = false ∧ i ∈ g.batch then none else (m i).map (fun e => { e with inBatch := false })

/-- The entries that the loop frees when the batch is released, in the order in which the calls of
    `FreeHandle` end. -/
def batchFreed : ℕ → HandleBase → ℕ → List ℕ
  | 0, _, _ => []
  | _ + 1, _, 0 => []
  | fuel + 1, b, i + 1 =>
    let b₁ := if (b.handleArray i).internalFlag.partiallyFree then cutLink b i else unbatched b i
    freedHandles (freeFuel b₁) b₁ i ++
      match freeHandle (freeFuel b₁) b₁ i with
      | none => []
      | some (_, b₂) => batchFreed fuel b₂ (b.handleArray i).nextIndexPlusOne

theorem live_iff_of_entries {i : ℕ} (h : entries b' g' i = entries b g i) : Live b' i ↔ Live b i := by
  rw [← not_iff_not, ← entries_eq_none_iff (g := g'), ← entries_eq_none_iff (g := g), h]

structure BatchRound (commit : Bool) (b : HandleBase) (g : Ghost) (i : ℕ) (t : List ℕ)
    (b' : HandleBase) (g' : Ghost) : Prop where
  run : ∀ fuel, batchLoop commit (fuel + 1) b (i + 1) = batchLoop commit fuel b' (parentWord t.head?)
  sound : Sound b' g'
  batch : g'.batch = t
  base : SameBase b b'
  newer : commit = false → NewerInBatch b' g'
  others : ∀ j, j ≠ i → entries b' g' j = entries b g j
  self : entries b' g' i = closed g commit (entries b g) i
  lost : (b.purgingEnabled = true → (b.handleArray i).type ≠ .none) → g'.lost = g.lost
  freed : commit = false → ∀ fuel,
    batchFreed (fuel + 1) b (i + 1) = i :: batchFreed fuel b' (parentWord t.head?)

/-- The handle of the round is gone, and so the others of the batch stay the newest. -/
theorem NewerInBatch.next {i : ℕ} {t : List ℕ} (hn : NewerInBatch b g) (c : Core b g)
    (hb : g.batch = i :: t) (ht : g'.batch = t) (hr : g'.rank = g.rank) (hi : ¬Live b' i)
    (hlive : ∀ j, j ≠ i → (Live b' j ↔ Live b j)) : NewerInBatch b' g' := by
  have hnd := c.batch_nodup
  rw [hb, List.nodup_cons] at hnd
  have hbt : ∀ j, j ∈ g.batch ↔ j = i ∨ j ∈ t := by simp [hb]
  intro x hx j hj hjb
  rw [ht] at hx hjb
  rw [hr]
  have hlj : Live b' j := ⟨hj.1, hj.2.resolve_right (ht ▸ hjb)⟩
  have hji : j ≠ i := fun h => hi (h ▸ hlj)
  refine hn x ((hbt x).mpr (Or.inr hx)) j ((hlive j hji).mp hlj).busy fun h => ?_
  exact ((hbt j).mp h).elim hji hjb

theorem Sound.round_dead (s : Sound b g) {i : ℕ} {t : List ℕ} (hb : g.batch = i :: t)
    (commit : Bool) (hn : commit = false → NewerInBatch b g)
    (hd : (b.handleArray i).type = .none) : ∃ b' g', BatchRound commit b g i t b' g' := by
  have c := s.core
  have hflag := c.batch_flag i (by simp [hb])
  have hnext := c.batch_next [] i t hb
  obtain ⟨b₂, g₂, hrun, hlog, s₂, ht₂, hr₂, hlost, hbase, hent⟩ := s.retireDead hb hd
  have hpartly : (b.handleArray i).internalFlag.partiallyFree = true := by simp [hflag, hd]
  have hno : entries b g i = none := entries_eq_none_iff.mpr (fun h => h.2 hd)
  have hothers : ∀ j, j ≠ i → entries b₂ g₂ j = entries b g j := fun j hj => by rw [hent, if_neg hj]
  refine ⟨b₂, g₂, fun fuel => ?_, s₂, ht₂, hbase, fun hc => ?_, hothers, ?_, fun h => hlost ?_,
    fun _ fuel => ?_⟩
  · rw [batchLoop_succ, hpartly, hnext]
    simp only [Bool.or_true, ↓reduceIte, hrun]
  · refine (hn hc).next c hb ht₂ hr₂ ?_ fun j hj => live_iff_of_entries (hothers j hj)
    exact entries_eq_none_iff.mp (by rw [hent, if_pos rfl])
  · rw [hent, if_pos rfl]
    unfold closed
    rw [hno]
    split <;> rfl
  · by_contra hp
    exact h (by simpa using hp) hd
  · simp only [batchFreed, hpartly, ↓reduceIte, hlog, hrun, hnext, List.singleton_append]

theorem Sound.round_commit (s : Sound b g) {i : ℕ} {t : List ℕ} (hb : g.batch = i :: t)
    (hl : Live b i) : ∃ b' g', BatchRound true b g i t b' g' := by
  have hflag := s.core.batch_flag i (by simp [hb])
  have hnext := s.core.batch_next [] i t hb
  have hdf : ((b.handleArray i).type == .none) = false := by simpa using hl.2
  obtain ⟨s₁, hent⟩ := s.unbatch hb hl
  refine ⟨unbatched b i, g.nextInBatch t, fun fuel => ?_, s₁, rfl,
    ⟨rfl, rfl, rfl, rfl, rfl, rfl, rfl, rfl⟩, by simp, fun j hj => by rw [hent, if_neg hj], ?_,
    fun _ => rfl, by simp⟩
  · rw [batchLoop_succ, hflag, hnext]
    simp only [hdf, Bool.not_true, Bool.or_false, Bool.false_eq_true, ↓reduceIte]
    rfl
  · rw [hent, if_pos rfl]
    unfold closed
    rw [if_neg (by simp)]

/-- A live handle of a batch that is released; it has no children any more. -/
theorem Sound.round_release (s : Sound b g) {i : ℕ} {t : List ℕ} (hb : g.batch = i :: t)
    (hn : NewerInBatch b g) (hl : Live b i) : ∃ b' g', BatchRound false b g i t b' g' := by
  have c := s.core
  have hib : i ∈ g.batch := by simp [hb]
  have hflag := c.batch_flag i hib
  have hnext := c.batch_next [] i t hb
  have hdf : ((b.handleArray i).type == .none) = false := by simpa using hl.2
  have hunb : setUnbatchedHandle (cutLink b i) i = unbatched b i := rfl
  obtain ⟨s₁, hent₁⟩ := s.unbatch hb hl
  have hbase₁ : SameBase b (unbatched b i) := ⟨rfl, rfl, rfl, rfl, rfl, rfl, rfl, rfl⟩
  have hlive₁ : ∀ j, Live (unbatched b i) j ↔ Live b j := by
    intro j
    have h := hent₁ j
    rw [← not_iff_not, ← entries_eq_none_iff (g := g.nextInBatch t),
      ← entries_eq_none_iff (g := g), h]
    split
    · simp
    · rfl
  obtain ⟨D, b₂, g₂, hrun, hlog, hDnd, r⟩ := s₁.release_logged ((hlive₁ i).mpr hl)
  have hbusy₁ : ∀ j, Busy (unbatched b i) (g.nextInBatch t) j → Busy b g j := by
    rintro j ⟨h₁, h₂ | h₂⟩
    · exact ((hlive₁ j).mp ⟨h₁, h₂⟩).busy
    · exact c.batch_busy (hb ▸ List.mem_cons_of_mem i h₂)
  have hD := r.subtree.eq_root s₁.core.older (fun k hk => c.no_kids hn hb k (hbusy₁ k hk))
  have hD' : ∀ j, j ∈ D ↔ j = i := fun j => ⟨hD j, fun h => h ▸ r.subtree.root⟩
  have hone : D = [i] := List.perm_singleton.mp
    ((List.perm_ext_iff_of_nodup hDnd (List.nodup_singleton i)).mpr (by simpa using hD'))
  have hpartly : (b.handleArray i).internalFlag.partiallyFree = false := by
    rw [hflag]
    exact hdf
  have hcont : ∀ j, entries b₂ g₂ j = if j = i then none else entries b g j := by
    intro j
    rw [r.content, hent₁]
    simp only [hD']
    split <;> rfl
  have hothers : ∀ j, j ≠ i → entries b₂ g₂ j = entries b g j :=
    fun j hj => by rw [hcont, if_neg hj]
  refine ⟨b₂, g₂, fun fuel => ?_, r.sound, r.batch, hbase₁.trans r.base, fun _ => ?_, hothers, ?_,
    fun _ => r.lost, fun _ fuel => ?_⟩
  · rw [batchLoop_succ, hflag, hnext]
    simp only [hdf, Bool.not_false, Bool.or_false, Bool.false_eq_true, ↓reduceIte, hunb, hrun]
  · refine hn.next c hb r.batch r.rank ?_ fun j hj => live_iff_of_entries (hothers j hj)
    exact entries_eq_none_iff.mp (by rw [hcont, if_pos rfl])
  · rw [hcont, if_pos rfl]
    unfold closed
    rw [if_pos ⟨rfl, hib⟩]
  · simp only [batchFreed, hpartly, Bool.false_eq_true, ↓reduceIte, hlog, hrun, hone, hnext,
      List.singleton_append]

theorem Sound.batchRound (s : Sound b g) {i : ℕ} {t : List ℕ} (hb : g.batch = i :: t)
    (commit : Bool) (hn : commit = false → NewerInBatch b g) :
    ∃ b' g', BatchRound commit b g i t b' g' := by
  by_cases hd : (b.handleArray i).type = .none
  · exact s.round_dead hb commit hn hd
  · have hl : Live b i := ⟨s.core.batch_lt i (by simp [hb]), hd⟩
    cases commit with
    | true => exact s.round_commit hb hl
    | false => exact s.round_release hb (hn rfl) hl

theorem BatchRound.closed_eq {commit : Bool} {i : ℕ} {t : List ℕ}
    (r : BatchRound commit b g i t b' g') (c : Core b g) (hb : g.batch = i :: t) (j : ℕ) :
    closed g' commit (entries b' g') j = closed g commit (entries b g) j := by
  have hnd := c.batch_nodup
  rw [hb, List.nodup_cons] at hnd
  by_cases hj : j = i
  · have hself := r.self
    subst hj
    unfold closed at hself ⊢
    rw [r.batch, if_neg (fun h => hnd.1 h.2), hself]
    split
    · rfl
    · cases entries b g j <;> rfl
  · unfold closed
    rw [r.batch, r.others j hj, hb]
    simp only [List.mem_cons, hj, false_or]

theorem batchLoop_spec (commit : Bool) (fuel : ℕ) (b : HandleBase) (g : Ghost) (s : Sound b g)
    (hn : commit = false → NewerInBatch b g) (hf : g.batch.length < fuel) :
    ∃ b' g', batchLoop commit fuel b (parentWord g.batch.head?) = some b' ∧ Sound b' g' ∧
      g'.batch = [] ∧ SameBase b b' ∧ (∀ i, entries b' g' i = closed g commit (entries b g) i) ∧
      ((b.purgingEnabled = true → ∀ i ∈ g.batch, (b.handleArray i).type ≠ .none) →
        g'.lost = g.lost) ∧
      (commit = false → batchFreed fuel b (parentWord g.batch.head?) = g.batch) := by
  induction fuel generalizing b g with
  | zero => omega
  | succ fuel ih =>
    cases hb : g.batch with
    | nil =>
      refine ⟨b, g, by simp [batchLoop, parentWord], s, hb, .refl b, ?_, fun _ => rfl,
        fun _ => rfl⟩
      intro i
      unfold closed
      rw [hb]
      simp only [List.not_mem_nil, and_false, ↓reduceIte]
      cases he : entries b g i with
      | none => rfl
      | some e =>
        have hib := (entries_eq_some_iff.mp he).2.2.2.2.2
        rw [hb] at hib
        obtain ⟨d, t, f, p, ib⟩ := e
        simp only [List.not_mem_nil, decide_false] at hib
        rw [Option.map_some, hib]
    | cons i t =>
      have c := s.core
      rw [hb, List.length_cons] at hf
      have hnd := c.batch_nodup
      rw [hb, List.nodup_cons] at hnd
      obtain ⟨b₂, g₂, r⟩ := s.batchRound hb commit hn
      obtain ⟨b', g', hrun, s', hnil, hbase, hent, hlost, hfreed⟩ := ih b₂ g₂ r.sound r.newer
        (by rw [r.batch]; omega)
      rw [r.batch] at hrun hfreed
      have hindex : parentWord (i :: t).head? = i + 1 := rfl
      rw [hindex, r.run]
      refine ⟨b', g', hrun, s', hnil, r.base.trans hbase,
        fun j => (hent j).trans (r.closed_eq c hb j), fun hp => ?_,
        fun hc => (r.freed hc fuel).trans (congrArg (i :: ·) (hfreed hc))⟩
      refine (hlost fun hp₂ j hj => ?_).trans (r.lost fun h => hp h i (by simp))
      rw [r.batch] at hj
      have hji : j ≠ i := fun h => hnd.1 (h ▸ hj)
      have hl : Live b j := ⟨c.batch_lt j (by simp [hb, hj]),
        hp (r.base.purgingEnabled.symm.trans hp₂) j (by simp [hj])⟩
      exact ((live_iff_of_entries (r.others j hji)).mpr hl).2

end
end PvrServices.Handles
