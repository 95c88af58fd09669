import PvrServices.HandleRelease

set_option autoImplicit false

/-! # Growing the array and allocating a handle -/
namespace PvrServices.Handles
open Words HashTable LinkedRing

/-- The fields of a longer array; `n` and `l` belong to the free list. -/
theorem extendHandleArray_spec (b : HandleBase) (newTotal : ℕ) :
    ∃ (n : ℕ → ℕ) (l : ℕ), extendHandleArray b newTotal = { b with
        handleArray := fun j => { initNewHandles b newTotal j with nextIndexPlusOne := n j }
        freeHandCount := u32 (b.freeHandCount + u32Sub newTotal b.totalHandCount)
        firstFreeIndex := if b.firstFreeIndex = 0 then b.totalHandCount else b.firstFreeIndex
        lastFreeIndexPlusOne := l
        totalHandCount := newTotal } ∧
      ∀ j, (b.purgingEnabled = false → b.firstFreeIndex ≠ 0 → j ≠ u32Sub b.lastFreeIndexPlusOne 1) →
        n j = (initNewHandles b newTotal j).nextIndexPlusOne := by
  unfold extendHandleArray appendNewHandles
  dsimp only
  by_cases hf : b.firstFreeIndex = 0
  · by_cases hp : b.purgingEnabled = true
    · refine ⟨fun j => (initNewHandles b newTotal j).nextIndexPlusOne, b.lastFreeIndexPlusOne, ?_,
        fun _ _ => rfl⟩
      simp [hf, hp]
    · refine ⟨fun j => (initNewHandles b newTotal j).nextIndexPlusOne, newTotal, ?_,
        fun _ _ => rfl⟩
      simp [hf, hp]
  · by_cases hp : b.purgingEnabled = true
    · refine ⟨fun j => (initNewHandles b newTotal j).nextIndexPlusOne, b.lastFreeIndexPlusOne, ?_,
        fun _ _ => rfl⟩
      simp [hf, hp]
    · refine ⟨fun j => if j = u32Sub b.lastFreeIndexPlusOne 1 then u32 (b.totalHandCount + 1)
        else (initNewHandles b newTotal j).nextIndexPlusOne, newTotal, ?_, ?_⟩
      · simp only [hf, hp, ↓reduceIte, Bool.false_eq_true, setHandle, HandleBase.mk.injEq, and_true,
          and_self]
        funext j
        by_cases hj : j = u32Sub b.lastFreeIndexPlusOne 1
        · subst hj; simp
        · simp [hj]
      · intro j hj
        exact if_neg (hj (by simpa using hp) hf)

def Ghost.extended (g : Ghost) (total newTotal : ℕ) : Ghost :=
  { g with free := g.free ++ List.range' total (newTotal - total) }

section
variable {b : HandleBase} {g : Ghost} {newTotal : ℕ}

theorem Shape.extend (s : Shape b g) (hn : b.totalHandCount < newTotal)
    (hm : newTotal ≤ b.maxIndexPlusOne)
    (hsafe : b.purgingEnabled = false → b.firstFreeIndex = 0 → g.free = []) :
    Shape (extendHandleArray b newTotal) (g.extended b.totalHandCount newTotal) ∧
      (∀ i, i < b.totalHandCount ∨ newTotal ≤ i → i ∉ g.free →
        (extendHandleArray b newTotal).handleArray i = b.handleArray i) ∧
      ∀ i, entries (extendHandleArray b newTotal) (g.extended b.totalHandCount newTotal) i =
        entries b g i := by
  have c := s.core
  have hmax := c.max_le
  have hlt : ∀ i ∈ g.free, i < b.totalHandCount := fun i hi => ((s.pool.mem i).mp hi).1
  obtain ⟨n, l, he, hnext⟩ := extendHandleArray_spec b newTotal
  have hch := fun hp => (s.chain hp).extend s.pool.nodup hlt hp (hsafe hp) hn (by omega)
  have hmem : ∀ i, i ∈ (g.extended b.totalHandCount newTotal).free ↔
      i ∈ g.free ∨ b.totalHandCount ≤ i ∧ i < newTotal := by
    intro i
    change i ∈ g.free ++ List.range' b.totalHandCount (newTotal - b.totalHandCount) ↔ _
    rw [List.mem_append, List.mem_range'_1]
    constructor <;> rintro (h | h)
    · exact Or.inl h
    · exact Or.inr (by omega)
    · exact Or.inl h
    · exact Or.inr (by omega)
  have hkeep : ∀ i, i < b.totalHandCount ∨ newTotal ≤ i → i ∉ g.free →
      (extendHandleArray b newTotal).handleArray i = b.handleArray i := by
    intro i hi hif
    rw [he]
    change { initNewHandles b newTotal i with nextIndexPlusOne := n i } = b.handleArray i
    rw [hnext i, initNewHandles, if_neg (by omega)]
    intro hp hf h
    have hne : g.free ≠ [] := fun h => hf ((s.chain hp).empty_of_first h)
    obtain ⟨x, hx⟩ : ∃ x, g.free.getLast? = some x := ⟨_, List.getLast?_eq_some_getLast hne⟩
    rw [(s.chain hp).last_eq hx] at h
    exact hif (h ▸ List.mem_of_getLast? hx)
  have htype : ∀ i, ((extendHandleArray b newTotal).handleArray i).type =
      if b.totalHandCount ≤ i ∧ i < newTotal then .none else (b.handleArray i).type := by
    intro i
    rw [he]
    change (initNewHandles b newTotal i).type = _
    unfold initNewHandles
    split <;> rfl
  have hflag : ∀ i, ((extendHandleArray b newTotal).handleArray i).internalFlag =
      if b.totalHandCount ≤ i ∧ i < newTotal then ⟨false, false⟩
      else (b.handleArray i).internalFlag := by
    intro i
    rw [he]
    change (initNewHandles b newTotal i).internalFlag = _
    unfold initNewHandles
    split <;> rfl
  have htotal : (extendHandleArray b newTotal).totalHandCount = newTotal := by rw [he]
  have hmaxeq : (extendHandleArray b newTotal).maxIndexPlusOne = b.maxIndexPlusOne := by rw [he]
  have hpurge : (extendHandleArray b newTotal).purgingEnabled = b.purgingEnabled := by rw [he]
  have hlive : ∀ i, Live (extendHandleArray b newTotal) i ↔ Live b i := by
    intro i
    unfold Live
    rw [htotal, htype]
    split
    · rename_i h
      simp only [ne_eq, not_true_eq_false, and_false, false_iff]
      omega
    · rename_i h
      refine and_congr_left (fun _ => ?_)
      omega
  have hbusy : ∀ i, Busy (extendHandleArray b newTotal) (g.extended b.totalHandCount newTotal) i ↔
      Busy b g i := by
    intro i
    unfold Busy
    change _ ∧ (_ ∨ i ∈ g.batch) ↔ _
    have hl := hlive i
    have hb := c.batch_lt i
    unfold Live at hl
    rw [htotal] at hl ⊢
    constructor
    · rintro ⟨h₁, h₂ | h₂⟩
      · exact ⟨(hl.mp ⟨h₁, h₂⟩).1, Or.inl (hl.mp ⟨h₁, h₂⟩).2⟩
      · exact ⟨hb h₂, Or.inr h₂⟩
    · rintro ⟨h₁, h₂ | h₂⟩
      · exact ⟨(hl.mpr ⟨h₁, h₂⟩).1, Or.inl (hl.mpr ⟨h₁, h₂⟩).2⟩
      · exact ⟨by omega, Or.inr h₂⟩
  have hlists : getList (extendHandleArray b newTotal) = getList b := by
    funext q
    obtain ⟨i, o⟩ := q
    have h : ((extendHandleArray b newTotal).handleArray i).children = (b.handleArray i).children ∧
        ((extendHandleArray b newTotal).handleArray i).siblings = (b.handleArray i).siblings := by
      rw [he]
      change (initNewHandles b newTotal i).children = _ ∧ (initNewHandles b newTotal i).siblings = _
      unfold initNewHandles
      split <;> exact ⟨rfl, rfl⟩
    cases o
    · exact h.1
    · exact h.2
  have hbatch : ∀ i ∈ g.batch, (extendHandleArray b newTotal).handleArray i = b.handleArray i :=
    fun i hi => hkeep i (Or.inl (c.batch_lt i hi)) (fun h => ((s.pool.mem i).mp h).2.2 hi)
  have hlivekeep : ∀ i, Live b i → (extendHandleArray b newTotal).handleArray i = b.handleArray i :=
    fun i hi => hkeep i (Or.inl hi.1) (fun h => hi.2 ((s.pool.mem i).mp h).2.1)
  have hremains : Remains b g (extendHandleArray b newTotal)
      (g.extended b.totalHandCount newTotal) :=
    { total_le := by
        rw [htotal, hmaxeq]
        exact hm
      max := hmaxeq
      lists := hlists
      kids := rfl
      par := rfl
      rank := rfl
      clock := rfl
      busy := fun i hi => (hbusy i).mp hi
      family := fun k p hk hp =>
        ⟨(hbusy k).mpr hk, (hbusy p).mpr (c.links.parent_mem k p hk hp)⟩
      batch := List.suffix_refl _
      batched := fun i hi => ⟨htotal ▸ (c.batch_lt i hi).trans hn, hbatch i hi⟩
      plain := fun i hi hib => by
        rw [hlive] at hi
        rw [hlivekeep i hi]
        exact c.plain i hi hib }
  refine ⟨⟨hremains.core c, ?_, ?_, ?_⟩, hkeep, ?_⟩
  · refine ⟨?_, ?_, ?_⟩
    · change (g.free ++ List.range' _ _).Nodup
      rw [List.nodup_append]
      refine ⟨s.pool.nodup, List.nodup_range', ?_⟩
      rintro x hx y hy rfl
      rw [List.mem_range'_1] at hy
      have := hlt x hx
      omega
    · intro i
      rw [hmem, s.pool.mem, htotal, htype]
      change _ ↔ _ ∧ _ ∧ i ∉ g.batch
      have hb := c.batch_lt i
      split
      · rename_i h
        have : i ∉ g.batch := fun hi => by have := hb hi; omega
        simp [h, this]
      · rename_i h
        have : i < b.totalHandCount ↔ i < newTotal := by omega
        simp only [this, h, or_false]
    · have hle := s.pool.count_le
      rw [he]
      change u32 (b.freeHandCount + u32Sub newTotal b.totalHandCount) =
        (g.free ++ List.range' _ _).length
      rw [u32Sub_of_le hn.le, u32_of_lt (by omega), List.length_append, List.length_range',
        s.pool.count]
  · intro hp
    rw [hpurge] at hp
    exact hch hp
  · intro hp hlost
    rw [hpurge] at hp
    have hs := s.scan hp hlost
    refine ⟨?_, ?_⟩
    · intro i hi
      rw [hflag]
      split
      · rfl
      · rename_i h
        exact hs.clean i (((hmem i).mp hi).resolve_right h)
    · rw [htotal, he]
      dsimp only
      split
      · intro _
        exact ⟨hn, fun i h₁ h₂ => (hmem i).mpr (Or.inr ⟨h₁, h₂⟩)⟩
      · rename_i hf
        intro _
        refine ⟨(hs.first hf).1.trans hn, fun i h₁ h₂ => ?_⟩
        by_cases hi : i < b.totalHandCount
        · exact (hmem i).mpr (Or.inl ((hs.first hf).2 i h₁ hi))
        · exact (hmem i).mpr (Or.inr (by omega))
  · intro i
    by_cases hi : Live b i
    · rw [entries, if_pos ((hlive i).mpr hi), entries, if_pos hi, hlivekeep i hi]
      rfl
    · rw [entries_eq_none_iff.mpr hi, entries_eq_none_iff, hlive]
      exact hi

theorem reallocMem_cases (os : Os) (size newSize oldSize : ℕ) :
    ∃ os' : Os, os'.grants = os.grants ∧
      ((∃ n, (newSize = oldSize ∧ n = size ∨ n = newSize) ∧
          reallocMem os size newSize oldSize = (.ok, n, os')) ∨
        reallocMem os size newSize oldSize = (.errorOutOfMemory, size, os')) := by
  unfold reallocMem osAllocMem
  split
  · exact ⟨os, rfl, Or.inl ⟨size, Or.inl ⟨‹_›, rfl⟩, rfl⟩⟩
  · split
    · cases hg : os.grants os.calls with
      | true => exact ⟨⟨os.grants, os.calls + 1⟩, rfl, Or.inl ⟨newSize, Or.inr rfl, rfl⟩⟩
      | false => exact ⟨⟨os.grants, os.calls + 1⟩, rfl, Or.inr rfl⟩
    · rename_i hz
      exact ⟨os, rfl, Or.inl ⟨0, Or.inr (not_not.mp hz).symm, rfl⟩⟩

theorem reallocHandleArray_cases (b : HandleBase) (newCount oldCount : ℕ) :
    ∃ os : Os, os.grants = b.os.grants ∧
      ((∃ n, (u32 (newCount * handleStructSize) = u32 (oldCount * handleStructSize) ∧
            n = b.blockSize ∨ n = u32 (newCount * handleStructSize)) ∧
          reallocHandleArray b newCount oldCount = (.ok, { b with blockSize := n, os := os })) ∨
        reallocHandleArray b newCount oldCount = (.errorOutOfMemory, { b with os := os })) := by
  unfold reallocHandleArray
  obtain ⟨os, hg, ⟨n, hn, hr⟩ | hr⟩ := reallocMem_cases b.os b.blockSize
    (u32 (newCount * handleStructSize)) (u32 (oldCount * handleStructSize))
  · exact ⟨os, hg, Or.inl ⟨n, hn, by rw [hr]⟩⟩
  · exact ⟨os, hg, Or.inr (by rw [hr])⟩

theorem ensureFreeHandles_cases (b : HandleBase) (n : ℕ) (hb : b.totalHandCount ≤ b.maxIndexPlusOne)
    (hc : b.freeHandCount < n) :
    (∃ e os, ensureFreeHandles b n = (e, { b with os := os }) ∧ e ≠ .ok ∧
      os.grants = b.os.grants) ∨
    (∃ newTotal size os, ensureFreeHandles b n =
        (.ok, extendHandleArray { b with blockSize := size, os := os } newTotal) ∧
      newTotalHandCount b (u32Sub n b.freeHandCount) = some newTotal ∧
      (reallocHandleArray b newTotal b.totalHandCount).1 = .ok ∧
      b.totalHandCount < newTotal ∧ newTotal ≤ b.maxIndexPlusOne ∧
      os.grants = b.os.grants) := by
  have hd : 0 < u32Sub n b.freeHandCount := by
    rw [u32Sub_of_le hc.le]
    omega
  rw [ensureFreeHandles, if_pos hc, increaseHandleArraySize]
  cases ht : newTotalHandCount b (u32Sub n b.freeHandCount) with
  | none => exact Or.inl ⟨.errorOutOfMemory, b.os, rfl, by simp, rfl⟩
  | some newTotal =>
    have hnew : b.totalHandCount < newTotal ∧ newTotal ≤ b.maxIndexPlusOne := by
      unfold newTotalHandCount at ht
      dsimp only at ht
      split at ht
      · split at ht
        · simp at ht
        · rename_i h
          rw [u32Sub_of_le hb] at h
          obtain rfl := Option.some.inj ht
          omega
      · rename_i h
        obtain rfl := Option.some.inj ht
        omega
    obtain ⟨os, hg, ⟨size, -, hr⟩ | hr⟩ := reallocHandleArray_cases b newTotal b.totalHandCount
    · exact Or.inr ⟨newTotal, size, os, by simp only [hr], rfl, by rw [hr], hnew.1, hnew.2, hg⟩
    · exact Or.inl ⟨.errorOutOfMemory, os, by simp only [hr], by simp, hg⟩

theorem handleStructIsFree_iff (h : Handle) :
    handleStructIsFree h = true ↔ h.type = .none ∧ h.internalFlag = ⟨false, false⟩ := by
  obtain ⟨t, d, n, ⟨x, y⟩, f, i, c, s⟩ := h
  simp [handleStructIsFree, and_assoc]

theorem scanFree_spec {array : ℕ → Handle} {n i j : ℕ} (q : Option ℕ) (h₁ : i ≤ j) (h₂ : j < i + n)
    (hj : handleStructIsFree (array j) = true) :
    ∃ k, scanFree array n i q = (k, some k) ∧ i ≤ k ∧ k < i + n ∧
      handleStructIsFree (array k) = true := by
  induction n generalizing i q with
  | zero => omega
  | succ n ih =>
    unfold scanFree
    by_cases hi : handleStructIsFree (array i) = true
    · exact ⟨i, by rw [if_pos hi], le_rfl, by omega, hi⟩
    · have hij : i ≠ j := by
        rintro rfl
        exact hi hj
      obtain ⟨k, hk, hk₁, hk₂, hf⟩ := ih (some i) (i := i + 1) (by omega) (by omega)
      exact ⟨k, by rw [if_neg hi, hk], by omega, by omega, hf⟩

theorem Shape.mem_free_iff (s : Shape b g) (hl : g.lost = false) (hp : b.purgingEnabled = true)
    (i : ℕ) :
    i ∈ g.free ↔ i < b.totalHandCount ∧ handleStructIsFree (b.handleArray i) = true := by
  rw [handleStructIsFree_iff]
  constructor
  · intro hi
    have h := (s.pool.mem i).mp hi
    exact ⟨h.1, h.2.1, (s.scan hp hl).clean i hi⟩
  · rintro ⟨h₁, h₂, h₃⟩
    refine (s.pool.mem i).mpr ⟨h₁, h₂, fun hb => ?_⟩
    have := s.core.batch_flag i hb
    rw [h₃] at this
    simp at this

theorem Shape.pickFree (s : Shape b g) (hl : g.lost = false) (hne : g.free ≠ []) :
    ∃ p, pickFree b = (p, some p) ∧ p ∈ g.free ∧
      (b.purgingEnabled = false → ∃ t, g.free = p :: t) := by
  obtain ⟨x, t, hx⟩ := List.exists_cons_of_ne_nil hne
  unfold Handles.pickFree
  by_cases hp : b.purgingEnabled = true
  · rw [if_pos hp]
    have hex : ∃ j, b.firstFreeIndex ≤ j ∧ j < b.totalHandCount ∧
        handleStructIsFree (b.handleArray j) = true := by
      by_cases hf : b.firstFreeIndex = 0
      · have := (s.mem_free_iff hl hp x).mp (by simp [hx])
        exact ⟨x, by omega, this⟩
      · have hfirst := (s.scan hp hl).first hf
        have := (s.mem_free_iff hl hp b.firstFreeIndex).mp (hfirst.2 _ le_rfl hfirst.1)
        exact ⟨b.firstFreeIndex, le_rfl, this⟩
    obtain ⟨j, h₁, h₂, hj⟩ := hex
    obtain ⟨k, hk, hk₁, hk₂, hf⟩ := scanFree_spec none h₁
      (by omega : j < b.firstFreeIndex + (b.totalHandCount - b.firstFreeIndex)) hj
    exact ⟨k, hk, (s.mem_free_iff hl hp k).mpr ⟨by omega, hf⟩, fun h => by simp [hp] at h⟩
  · rw [if_neg hp]
    have hc := s.chain (by simpa using hp)
    have : b.firstFreeIndex = x := by rw [hc.first, hx]; rfl
    exact ⟨x, by rw [this], by simp [hx], fun _ => ⟨t, hx⟩⟩

theorem popFree_spec (s : Shape b g) {p : ℕ} (hp : p ∈ g.free)
    (hhead : b.purgingEnabled = false → ∃ t, g.free = p :: t) :
    ∃ f l, popFree b p p = { b with
        freeHandCount := (g.free.erase p).length
        firstFreeIndex := f
        lastFreeIndexPlusOne := l } ∧
      (b.purgingEnabled = true → f = b.firstFreeIndex) ∧
      (b.purgingEnabled = false → FreeChain (popFree b p p) (g.free.erase p)) := by
  have hpos : 0 < g.free.length := List.length_pos_of_mem hp
  have hcount : u32Sub b.freeHandCount 1 = (g.free.erase p).length := by
    rw [s.pool.count, u32Sub_of_le hpos, List.length_erase_of_mem hp]
  have hw : u32 (p + 1) = p + 1 := by
    have := ((s.pool.mem p).mp hp).1
    have := s.core.total_lt
    exact u32_of_lt (by omega)
  unfold popFree
  rw [hcount]
  by_cases hpt : b.purgingEnabled = true
  · simp only [hpt, ↓reduceIte]
    exact ⟨_, _, rfl, fun _ => rfl, fun h => by simp at h⟩
  · obtain ⟨t, ht⟩ := hhead (by simpa using hpt)
    have hc := s.chain (by simpa using hpt)
    rw [ht] at hc
    have het : g.free.erase p = t := by rw [ht, List.erase_cons_head]
    simp only [hpt, het, Bool.false_eq_true, ↓reduceIte]
    split
    · rename_i h₀
      obtain rfl : t = [] := List.length_eq_zero_iff.mp h₀
      exact ⟨0, 0, rfl, fun h => h.elim, fun _ => ⟨rfl, rfl, by simp, by simp⟩⟩
    · rename_i h₀
      have hne : t ≠ [] := fun h => h₀ (by simp [h])
      refine ⟨_, b.lastFreeIndexPlusOne, rfl, fun h => h.elim, fun _ => hc.tail hne ?_ rfl
        (fun _ _ => rfl)⟩
      unfold freeNext
      rw [hw]

def takenHandle (b : HandleBase) (p data : ℕ) (type : HandleType) (flag : AllocFlag) : Handle where
  type := type
  data := data
  nextIndexPlusOne := if handlesBatched b then b.firstBatchIndexPlusOne else 0
  internalFlag := ⟨handlesBatched b, false⟩
  flag := flag
  index := p
  children := ⟨p, p, p + 1⟩
  siblings := ⟨p, p, 0⟩

theorem initHandle_eq (b : HandleBase) {p : ℕ} (hp : p < 4294967295) (data : ℕ)
    (type : HandleType) (flag : AllocFlag) :
    initHandle b p p data type flag = { setHandle b p (takenHandle b p data type flag) with
      firstBatchIndexPlusOne :=
        if handlesBatched b then p + 1 else b.firstBatchIndexPlusOne } := by
  have hu : u32 (p + 1) = p + 1 := u32_of_lt (by omega)
  unfold initHandle initChildEntry initParentList handleListInit takenHandle
  cases h : handlesBatched b with
  | true =>
    have hb : b.handBatchSize ≠ 0 := by simpa [handlesBatched] using h
    simp [setList, setHandle, handlesBatched, hb, indexToHandle, hu]
  | false =>
    have hb : b.handBatchSize = 0 := by simpa [handlesBatched] using h
    simp [setList, setHandle, handlesBatched, hb, indexToHandle, hu]

def Ghost.taken (g : Ghost) (batched : Bool) (p : ℕ) : Ghost where
  batch := if batched then p :: g.batch else g.batch
  free := g.free.erase p
  kids := Function.update g.kids p []
  par := Function.update g.par p none
  rank := Function.update g.rank p g.clock
  clock := g.clock + 1
  lost := g.lost

/-- What handing out the entry `p` leaves alone. -/
structure TakenFrame (b : HandleBase) (p : ℕ) (b' : HandleBase) : Prop where
  array : ∀ i, i ≠ p → b'.handleArray i = b.handleArray i
  hashTab : b'.hashTab = b.hashTab
  maxIndexPlusOne : b'.maxIndexPlusOne = b.maxIndexPlusOne
  totalHandCount : b'.totalHandCount = b.totalHandCount
  handBatchSize : b'.handBatchSize = b.handBatchSize
  batchHandAllocFailures : b'.batchHandAllocFailures = b.batchHandAllocFailures
  purgingEnabled : b'.purgingEnabled = b.purgingEnabled
  os : b'.os = b.os

theorem Ghost.mem_taken_batch {batched : Bool} {p i : ℕ} :
    i ∈ (g.taken batched p).batch ↔ (i = p ∧ batched = true) ∨ i ∈ g.batch := by
  change i ∈ (if batched = true then p :: g.batch else g.batch) ↔ _
  split <;> simp [*]

/-- The free entry `p` has been handed out. -/
structure Taking (b : HandleBase) (g : Ghost) (p data : ℕ) (type : HandleType) (flag : AllocFlag)
    (b' : HandleBase) (g' : Ghost) : Prop where
  ghost : g' = g.taken (handlesBatched b) p
  shape : Shape b g
  opened : BatchOpen b g
  free : p ∈ g.free
  type_ne : type ≠ .none
  self : b'.handleArray p = takenHandle b p data type flag
  first : b'.firstBatchIndexPlusOne =
    if handlesBatched b then p + 1 else b.firstBatchIndexPlusOne
  count : b'.freeHandCount = (g.free.erase p).length
  frame : TakenFrame b p b'

section
variable {b' : HandleBase} {g' : Ghost} {p data i : ℕ} {type : HandleType} {flag : AllocFlag}

theorem Taking.not_busy (t : Taking b g p data type flag b' g') : ¬Busy b g p := by
  obtain ⟨-, hpn, hpb⟩ := (t.shape.pool.mem p).mp t.free
  rintro ⟨-, h | h⟩
  · exact h hpn
  · exact hpb h

theorem Taking.ne_of_busy (t : Taking b g p data type flag b' g') (hi : Busy b g i) : i ≠ p := by
  rintro rfl
  exact t.not_busy hi

theorem Taking.live_iff (t : Taking b g p data type flag b' g') : Live b' i ↔ Live b i ∨ i = p := by
  have hpt := ((t.shape.pool.mem p).mp t.free).1
  unfold Live
  rw [t.frame.totalHandCount]
  by_cases hi : i = p
  · subst hi
    simp [t.self, takenHandle, t.type_ne, hpt]
  · simp [t.frame.array i hi, hi]

theorem Taking.busy_eq (t : Taking b g p data type flag b' g') :
    Busy b' g' = fun i => Busy b g i ∨ i = p := by
  obtain rfl := t.ghost
  funext i
  refine propext ?_
  have hpt := ((t.shape.pool.mem p).mp t.free).1
  have hl := t.live_iff (i := i)
  unfold Live at hl
  unfold Busy
  rw [Ghost.mem_taken_batch, t.frame.totalHandCount] at *
  constructor
  · rintro ⟨h₁, h₂ | h₂ | h₂⟩
    · exact (hl.mp ⟨h₁, h₂⟩).imp (fun h => ⟨h.1, Or.inl h.2⟩) id
    · exact Or.inr h₂.1
    · exact Or.inl ⟨h₁, Or.inr h₂⟩
  · rintro (⟨h₁, h₂ | h₂⟩ | rfl)
    · exact ⟨h₁, Or.inl (hl.mpr (Or.inl ⟨h₁, h₂⟩)).2⟩
    · exact ⟨h₁, Or.inr (Or.inr h₂)⟩
    · exact ⟨hpt, Or.inl (hl.mpr (Or.inr rfl)).2⟩

theorem Taking.rank_eq (t : Taking b g p data type flag b' g') (hi : Busy b g i) :
    g'.rank i = g.rank i := by
  obtain rfl := t.ghost
  exact Function.update_of_ne (t.ne_of_busy hi) _ _

theorem Ghost.taken_rank_self {batched : Bool} : (g.taken batched p).rank p = g.clock :=
  Function.update_self _ _ _

theorem Taking.links (t : Taking b g p data type flag b' g') :
    Links (getList b') (Busy b' g') g'.kids g'.par := by
  obtain rfl := t.ghost
  have c := t.shape.core
  have hpt := ((t.shape.pool.mem p).mp t.free).1
  have hmax := c.max_le
  have htl := c.total_le
  rw [t.busy_eq]
  refine c.links.addRoot t.not_busy (by omega) ?_ ?_ ?_
  · rintro ⟨i, o⟩ hi
    cases o <;> simp only [getList, t.frame.array i hi]
  · simp only [getList, t.self, takenHandle]
  · simp only [getList, t.self, takenHandle]

theorem Taking.batch_next (t : Taking b g p data type flag b' g') {l r : List ℕ}
    (hlr : g'.batch = l ++ i :: r) :
    (b'.handleArray i).nextIndexPlusOne = parentWord r.head? := by
  obtain rfl := t.ghost
  have c := t.shape.core
  have hkept (hi : i ∈ g.batch) : b'.handleArray i = b.handleArray i :=
    t.frame.array i (t.ne_of_busy (c.batch_busy hi))
  change (if handlesBatched b = true then p :: g.batch else g.batch) = _ at hlr
  split at hlr
  · rename_i hbt
    cases l with
    | nil =>
      obtain ⟨rfl, rfl⟩ := List.cons.inj hlr
      rw [t.self, ← t.opened.first]
      simp [takenHandle, hbt]
    | cons x l =>
      have hlr' := (List.cons.inj hlr).2
      rw [hkept (by simp [hlr'])]
      exact c.batch_next l i r hlr'
  · rw [hkept (by simp [hlr])]
    exact c.batch_next l i r hlr

theorem Taking.batch_sorted (t : Taking b g p data type flag b' g') :
    g'.batch.Pairwise fun i j => g'.rank j < g'.rank i := by
  obtain rfl := t.ghost
  have c := t.shape.core
  have hold : g.batch.Pairwise fun i j =>
      (g.taken (handlesBatched b) p).rank j < (g.taken (handlesBatched b) p).rank i := by
    refine c.batch_sorted.imp_of_mem ?_
    intro i j hi hj hij
    rwa [t.rank_eq (c.batch_busy hi), t.rank_eq (c.batch_busy hj)]
  change (if handlesBatched b = true then p :: g.batch else g.batch).Pairwise _
  split
  · refine List.pairwise_cons.mpr ⟨?_, hold⟩
    intro j hj
    rw [t.rank_eq (c.batch_busy hj), Ghost.taken_rank_self]
    exact c.rank_lt j (c.batch_busy hj)
  · exact hold

theorem Taking.core (t : Taking b g p data type flag b' g') : Core b' g' := by
  obtain rfl := t.ghost
  have c := t.shape.core
  have hpt := ((t.shape.pool.mem p).mp t.free).1
  constructor
  case total_le =>
    rw [t.frame.totalHandCount, t.frame.maxIndexPlusOne]
    exact c.total_le
  case max_le =>
    rw [t.frame.maxIndexPlusOne]
    exact c.max_le
  case links => exact t.links
  case older =>
    intro k q hk hq
    rw [t.busy_eq] at hk
    have hkp : k ≠ p := by
      rintro rfl
      simp [Ghost.taken] at hq
    have hkb := hk.resolve_right hkp
    rw [show (g.taken (handlesBatched b) p).par k = g.par k from Function.update_of_ne hkp _ _] at hq
    rw [t.rank_eq hkb, t.rank_eq (c.links.parent_mem k q hkb hq)]
    exact c.older k q hkb hq
  case rank_lt =>
    intro i hi
    rw [t.busy_eq] at hi
    change (g.taken (handlesBatched b) p).rank i < g.clock + 1
    rcases hi with hi | rfl
    · rw [t.rank_eq hi]
      exact (c.rank_lt i hi).trans (Nat.lt_succ_self _)
    · rw [Ghost.taken_rank_self]
      exact Nat.lt_succ_self _
  case batch_lt =>
    intro i hi
    rw [t.frame.totalHandCount]
    rcases Ghost.mem_taken_batch.mp hi with h | h
    · rwa [h.1]
    · exact c.batch_lt i h
  case batch_next => exact fun _ _ _ hlr => t.batch_next hlr
  case batch_sorted => exact t.batch_sorted
  case batch_flag =>
    intro i hi
    rcases Ghost.mem_taken_batch.mp hi with h | h
    · rw [h.1, t.self]
      simp [takenHandle, h.2, t.type_ne]
    · rw [t.frame.array i (t.ne_of_busy (c.batch_busy h))]
      exact c.batch_flag i h
  case dead =>
    intro i hi ht
    by_cases hip : i = p
    · rw [hip, t.self] at ht
      exact absurd ht t.type_ne
    · rw [t.frame.array i hip] at ht
      have hdead := c.dead i ((Ghost.mem_taken_batch.mp hi).resolve_left fun h => hip h.1) ht
      exact ⟨(Function.update_of_ne hip _ _).trans hdead.1,
        (Function.update_of_ne hip _ _).trans hdead.2⟩
  case plain =>
    intro i hi hib
    by_cases hip : i = p
    · subst hip
      have hbf : handlesBatched b = false := by
        by_contra h
        exact hib (Ghost.mem_taken_batch.mpr (Or.inl ⟨rfl, by simpa using h⟩))
      rw [t.self]
      simp [takenHandle, hbf]
    · rw [t.frame.array i hip]
      exact c.plain i ((t.live_iff.mp hi).resolve_right hip)
        fun h => hib (Ghost.mem_taken_batch.mpr (Or.inr h))

theorem Taking.pool (t : Taking b g p data type flag b' g') : Pool b' g' := by
  obtain rfl := t.ghost
  have s := t.shape
  refine ⟨s.pool.nodup.erase p, fun i => ?_, t.count⟩
  change i ∈ g.free.erase p ↔ _
  rw [s.pool.nodup.mem_erase_iff, s.pool.mem, Ghost.mem_taken_batch, t.frame.totalHandCount]
  by_cases hip : i = p
  · subst hip
    simp [t.self, takenHandle, t.type_ne]
  · simp [hip, t.frame.array i hip]

theorem Taking.batchOpen (t : Taking b g p data type flag b' g') : BatchOpen b' g' := by
  obtain rfl := t.ghost
  have c := t.shape.core
  have o := t.opened
  have hclosed (h : handlesBatched b = false) : g.batch = [] :=
    o.closed (by simpa [handlesBatched] using h)
  constructor
  case first =>
    rw [t.first]
    change _ = parentWord (if handlesBatched b = true then p :: g.batch else g.batch).head?
    split
    · rfl
    · exact o.first
  case closed =>
    intro h
    rw [t.frame.handBatchSize] at h
    change (if handlesBatched b = true then p :: g.batch else g.batch) = []
    rw [if_neg (by simp [handlesBatched, h])]
    exact o.closed h
  case newer =>
    intro i hi j hj hjb
    rw [t.busy_eq] at hj
    rw [Ghost.mem_taken_batch, not_or] at hjb
    have hjp : j ≠ p := by
      rintro rfl
      have hbf : handlesBatched b = false := by
        by_contra h
        exact hjb.1 ⟨rfl, by simpa using h⟩
      rcases Ghost.mem_taken_batch.mp hi with h | h
      · simp [hbf] at h
      · simp [hclosed hbf] at h
    have hjo := hj.resolve_right hjp
    rw [t.rank_eq hjo]
    rcases Ghost.mem_taken_batch.mp hi with h | h
    · rw [h.1, Ghost.taken_rank_self]
      exact c.rank_lt j hjo
    · rw [t.rank_eq (c.batch_busy h)]
      exact o.newer i h j hjo hjb.2

theorem Taking.entries_eq (t : Taking b g p data type flag b' g') (i : ℕ) :
    entries b' g' i =
      if i = p then some ⟨data, type, flag, none, handlesBatched b⟩ else entries b g i := by
  obtain rfl := t.ghost
  have hpb := ((t.shape.pool.mem p).mp t.free).2.2
  by_cases hip : i = p
  · subst hip
    rw [if_pos rfl, entries_eq_some_iff]
    refine ⟨t.live_iff.mpr (Or.inr rfl), ?_, ?_, ?_, ?_, ?_⟩
    · rw [t.self, takenHandle]
    · rw [t.self, takenHandle]
    · rw [t.self, takenHandle]
    · exact (Function.update_self i none g.par).symm
    · simp only [Ghost.mem_taken_batch, true_and, hpb, or_false, Bool.decide_eq_true]
  · have hpar : (g.taken (handlesBatched b) p).par i = g.par i := Function.update_of_ne hip _ _
    rw [if_neg hip]
    by_cases hl : Live b i
    · rw [entries, if_pos (t.live_iff.mpr (Or.inl hl)), entries, if_pos hl, t.frame.array i hip, hpar]
      simp only [Ghost.mem_taken_batch, hip, false_and, false_or]
    · rw [entries_eq_none_iff.mpr hl, entries_eq_none_iff, t.live_iff]
      simp [hl, hip]

end

theorem Shape.take (s : Shape b g) (o : BatchOpen b g) {p : ℕ} (hp : p ∈ g.free)
    (hhead : b.purgingEnabled = false → ∃ t, g.free = p :: t)
    (hfirst : b.purgingEnabled = true → b.firstFreeIndex = 0) (data : ℕ) {type : HandleType}
    (htype : type ≠ .none) (flag : AllocFlag) :
    let b' := initHandle (popFree b p p) p p data type flag
    let g' := g.taken (handlesBatched b) p
    Shape b' g' ∧ BatchOpen b' g' ∧ TakenFrame b p b' ∧
      ∀ i, entries b' g' i = if i = p then some ⟨data, type, flag, none, handlesBatched b⟩
        else entries b g i := by
  have hpt := ((s.pool.mem p).mp hp).1
  have hmax := s.core.max_le
  have htl := s.core.total_le
  obtain ⟨f, l, hpop, hf, hch⟩ := popFree_spec s hp hhead
  intro b' g'
  have hb' : b' = { setHandle b p (takenHandle b p data type flag) with
      freeHandCount := (g.free.erase p).length
      firstFreeIndex := f
      lastFreeIndexPlusOne := l
      firstBatchIndexPlusOne :=
        if handlesBatched b then p + 1 else b.firstBatchIndexPlusOne } := by
    change initHandle (popFree b p p) p p data type flag = _
    rw [initHandle_eq _ (by omega), hpop]
    rfl
  have hne : ∀ i, i ≠ p → b'.handleArray i = b.handleArray i := by
    intro i hi
    rw [hb']
    exact setHandle_of_ne b _ hi
  have hframe : TakenFrame b p b' := by
    refine ⟨hne, ?_, ?_, ?_, ?_, ?_, ?_, ?_⟩ <;> rw [hb'] <;> rfl
  have t : Taking b g p data type flag b' g' := by
    refine ⟨rfl, s, o, hp, htype, ?_, ?_, ?_, hframe⟩
    · rw [hb']
      exact setHandle_self b p _
    · rw [hb']
    · rw [hb']
  refine ⟨⟨t.core, t.pool, fun h => ?_, fun h hlost => ⟨fun i hi => ?_, ?_⟩⟩, t.batchOpen, hframe,
    t.entries_eq⟩
  · rw [hframe.purgingEnabled] at h
    refine (hch h).congr ?_ ?_ fun j hj => ?_
    · rw [hb', hpop]
    · rw [hb', hpop]
    · rw [hne j ((s.pool.nodup.mem_erase_iff).mp hj).1, hpop]
  · rw [hframe.purgingEnabled] at h
    have hi' := (s.pool.nodup.mem_erase_iff).mp hi
    rw [hne i hi'.1]
    exact (s.scan h hlost).clean i hi'.2
  · rw [hframe.purgingEnabled] at h
    rw [hb']
    intro h₀
    exact absurd ((hf h).trans (hfirst h)) h₀

theorem hashInsertExtended_false {K : Type} [DecidableEq K] {hash : K → ℕ} {os os' : Os}
    {h h' : Table K} {k : K} {v : ℕ} (hr : hashInsertExtended hash os h k v = (false, h', os')) :
    h' = h ∧ os'.grants = os.grants := by
  unfold hashInsertExtended osAllocMem at hr
  cases hg : os.grants os.calls with
  | false =>
    simp only [hg, Prod.mk.injEq] at hr
    obtain ⟨-, rfl, rfl⟩ := hr
    exact ⟨rfl, rfl⟩
  | true =>
    simp only [hg] at hr
    split at hr
    · simp only [Prod.mk.injEq, true_and] at hr
      obtain ⟨rfl, rfl⟩ := hr
      exact ⟨rfl, rfl⟩
    · simp at hr

structure AllocFrame (b b' : HandleBase) : Prop where
  handBatchSize : b'.handBatchSize = b.handBatchSize
  batchHandAllocFailures : b'.batchHandAllocFailures = b.batchHandAllocFailures
  purgingEnabled : b'.purgingEnabled = b.purgingEnabled
  grants : b'.os.grants = b.os.grants

structure AllocFailed (b : HandleBase) (g : Ghost) (b' : HandleBase) (g' : Ghost) : Prop where
  shape : Shape b' g'
  batch : BatchOpen b' g'
  lost : g'.lost = g.lost
  content : ∀ i, entries b' g' i = entries b g i
  array : ∀ i, Busy b g i ∨ b'.totalHandCount ≤ i → b'.handleArray i = b.handleArray i
  hashTab : b'.hashTab = b.hashTab
  frame : AllocFrame b b'

/-- Entry `p` was handed out for `e`; `k` is the key it was entered under. -/
structure Allocated (b : HandleBase) (g : Ghost) (p : ℕ) (e : Entry) (k : List ℕ)
    (b' : HandleBase) (g' : Ghost) : Prop where
  shape : Shape b' g'
  batch : BatchOpen b' g'
  lost : g'.lost = g.lost
  fresh : ¬ Busy b g p
  lt : p < b'.totalHandCount
  root : g'.par p = none
  newest : ∀ j, Busy b' g' j → j ≠ p → g'.rank j < g'.rank p
  content : ∀ i, entries b' g' i = if i = p then some e else entries b g i
  array : ∀ i, Busy b g i ∨ b'.totalHandCount ≤ i → b'.handleArray i = b.handleArray i
  hashTab : e.flag.multi = true ∧ b'.hashTab = b.hashTab ∨ e.flag.multi = false ∧
    ∃ os os' : Os, hashInsertExtended hashFuncDefault os b.hashTab k (p + 1) =
      (true, b'.hashTab, os')
  frame : AllocFrame b b'

theorem BatchOpen.of_entries {b b' : HandleBase} {g g' : Ghost} (o : BatchOpen b g)
    (hf : b'.firstBatchIndexPlusOne = b.firstBatchIndexPlusOne)
    (hs : b'.handBatchSize = b.handBatchSize) (hb : g'.batch = g.batch) (hr : g'.rank = g.rank)
    (hbusy : ∀ i, Busy b' g' i → Busy b g i) : BatchOpen b' g' where
  first := by rw [hf, hb, o.first]
  closed h := by
    rw [hb]
    exact o.closed (hs.symm.trans h)
  newer i hi j hj hjb := by
    rw [hb] at hi hjb
    rw [hr]
    exact o.newer i hi j (hbusy j hj) hjb

/-- The base that `AllocHandle` works on once a free entry is there. -/
structure Ensured (b : HandleBase) (g : Ghost) (b' : HandleBase) (g' : Ghost) : Prop where
  shape : Shape b' g'
  batch : BatchOpen b' g'
  lost : g'.lost = g.lost
  content : ∀ i, entries b' g' i = entries b g i
  sameBatch : g'.batch = g.batch
  le : b.totalHandCount ≤ b'.totalHandCount
  array : ∀ i, Busy b g i ∨ b'.totalHandCount ≤ i → b'.handleArray i = b.handleArray i
  hashTab : b'.hashTab = b.hashTab
  frame : AllocFrame b b'

theorem Core.busy_of_entries {b' : HandleBase} {g' : Ghost} (c : Core b g)
    (hent : ∀ i, entries b' g' i = entries b g i) (hb : g'.batch = g.batch)
    (hle : b.totalHandCount ≤ b'.totalHandCount) (i : ℕ) : Busy b' g' i ↔ Busy b g i := by
  have hlive : Live b' i ↔ Live b i := by
    have h := hent i
    rw [← not_iff_not, ← entries_eq_none_iff (g := g'), ← entries_eq_none_iff (g := g), h]
  unfold Busy
  unfold Live at hlive
  rw [hb]
  have := c.batch_lt i
  constructor
  · rintro ⟨h₁, h₂ | h₂⟩
    · exact ⟨(hlive.mp ⟨h₁, h₂⟩).1, Or.inl (hlive.mp ⟨h₁, h₂⟩).2⟩
    · exact ⟨this h₂, Or.inr h₂⟩
  · rintro ⟨h₁, h₂ | h₂⟩
    · exact ⟨(hlive.mpr ⟨h₁, h₂⟩).1, Or.inl (hlive.mpr ⟨h₁, h₂⟩).2⟩
    · exact ⟨by omega, Or.inr h₂⟩

theorem Shape.grow (s : Shape b g) (o : BatchOpen b g) (size : ℕ) (os : Os)
    (hos : os.grants = b.os.grants)
    (hn : b.totalHandCount < newTotal) (hm : newTotal ≤ b.maxIndexPlusOne)
    (hsafe : b.purgingEnabled = false → b.firstFreeIndex = 0 → g.free = []) :
    Ensured b g (extendHandleArray { b with blockSize := size, os := os } newTotal)
      (g.extended b.totalHandCount newTotal) := by
  have s₁ : Shape { b with blockSize := size, os := os } g := s.congr rfl rfl rfl rfl rfl rfl rfl
  obtain ⟨s', hkeep, hent⟩ := s₁.extend hn hm hsafe
  obtain ⟨n, l, he, -⟩ := extendHandleArray_spec { b with blockSize := size, os := os } newTotal
  have hent' : ∀ i, entries (extendHandleArray { b with blockSize := size, os := os } newTotal)
      (g.extended b.totalHandCount newTotal) i = entries b g i := fun i => hent i
  have htotal : (extendHandleArray { b with blockSize := size, os := os } newTotal).totalHandCount = newTotal := by
    rw [he]
  have hle : b.totalHandCount ≤
      (extendHandleArray { b with blockSize := size, os := os } newTotal).totalHandCount := by omega
  refine ⟨s', ?_, rfl, hent', rfl, hle, ?_, ?_, ?_⟩
  · refine o.of_entries ?_ ?_ rfl rfl (fun i => (s.core.busy_of_entries hent' rfl hle i).mp)
    · rw [he]
    · rw [he]
  · intro i hi
    rw [htotal] at hi
    refine (hkeep i ?_ ?_).trans rfl
    · exact hi.imp_left And.left
    · intro hif
      have hm := (s.pool.mem i).mp hif
      rcases hi with hi | hi
      · exact hi.2.elim (fun h => h hm.2.1) hm.2.2
      · omega
  · rw [he]
  · rw [he]
    exact ⟨rfl, rfl, rfl, hos⟩

theorem Shape.ensureFree (s : Shape b g) (o : BatchOpen b g) :
    (∃ e b', ensureFreeHandles b 1 = (e, b') ∧ e ≠ .ok ∧ AllocFailed b g b' g) ∨
    (∃ b' g', ensureFreeHandles b 1 = (.ok, b') ∧ Ensured b g b' g' ∧ g'.free ≠ []) := by
  by_cases hc : b.freeHandCount < 1
  · have hnil : g.free = [] := by
      have := s.pool.count
      exact List.length_eq_zero_iff.mp (by omega)
    rcases ensureFreeHandles_cases b 1 s.core.total_le hc with
      ⟨e, os, he, hne, hg⟩ | ⟨newTotal, size, os, he, -, -, hn, hm, hg⟩
    · refine Or.inl ⟨e, _, he, hne, ⟨s.congr rfl rfl rfl rfl rfl rfl rfl,
        o.of_entries rfl rfl rfl rfl (fun i h => h), rfl, fun _ => rfl, fun _ _ => rfl, rfl,
        ⟨rfl, rfl, rfl, hg⟩⟩⟩
    · refine Or.inr ⟨_, _, he, s.grow o size os hg hn hm (fun _ _ => hnil), ?_⟩
      change g.free ++ List.range' _ _ ≠ []
      rw [hnil, List.nil_append]
      intro h
      have : (List.range' b.totalHandCount (newTotal - b.totalHandCount)).length =
          newTotal - b.totalHandCount := List.length_range'
      rw [h] at this
      simp at this
      omega
  · refine Or.inr ⟨b, g, ?_, ⟨s, o, rfl, fun _ => rfl, rfl, le_rfl, fun _ _ => rfl, rfl, ⟨rfl, rfl, rfl, rfl⟩⟩, ?_⟩
    · rw [ensureFreeHandles, if_neg (by omega)]
    · intro h
      have := s.pool.count
      rw [h] at this
      simp at this
      omega

theorem hashInsertExtended_grants {K : Type} [DecidableEq K] {hash : K → ℕ} {os os' : Os}
    {h h' : Table K} {k : K} {v : ℕ} {ok : Bool}
    (hr : hashInsertExtended hash os h k v = (ok, h', os')) : os'.grants = os.grants := by
  unfold hashInsertExtended osAllocMem at hr
  cases hg : os.grants os.calls with
  | false =>
    simp only [hg, Prod.mk.injEq] at hr
    rw [← hr.2.2]
  | true =>
    simp only [hg] at hr
    split at hr
    · simp only [Prod.mk.injEq] at hr
      rw [← hr.2.2]
    · simp only [Prod.mk.injEq] at hr
      rw [← hr.2.2]
      split
      · exact resize_grants _ _ _ _
      · rfl

theorem Ensured.resetScan {b' : HandleBase} {g' : Ghost} (n : Ensured b g b' g') (t : Table (List ℕ))
    (os : Os) (ht : t = b'.hashTab) (hos : os.grants = b'.os.grants) :
    Ensured b g { (if b'.purgingEnabled then { b' with firstFreeIndex := 0 } else b') with
      hashTab := t, os := os } g' := by
  subst ht
  by_cases hp : b'.purgingEnabled = true
  · rw [if_pos hp]
    have c := n.shape.core
    refine ⟨⟨⟨c.total_le, c.max_le, c.links, c.older, c.rank_lt, c.batch_lt, c.batch_next,
      c.batch_sorted, c.batch_flag, c.dead, c.plain⟩,
      ⟨n.shape.pool.nodup, n.shape.pool.mem, n.shape.pool.count⟩, ?_, ?_⟩, ?_, n.lost, n.content,
      n.sameBatch, n.le, n.array, n.hashTab, ⟨n.frame.handBatchSize,
        n.frame.batchHandAllocFailures, n.frame.purgingEnabled, hos.trans n.frame.grants⟩⟩
    · intro h
      change b'.purgingEnabled = false at h
      rw [h] at hp
      simp at hp
    · intro _ hl
      exact ⟨(n.shape.scan hp hl).clean, fun h => absurd rfl h⟩
    · exact n.batch.of_entries rfl rfl rfl rfl (fun i h => h)
  · rw [if_neg hp]
    exact ⟨n.shape.congr rfl rfl rfl rfl rfl rfl rfl, n.batch.of_entries rfl rfl rfl rfl
      (fun i h => h), n.lost, n.content, n.sameBatch, n.le, n.array, n.hashTab, ⟨n.frame.handBatchSize,
        n.frame.batchHandAllocFailures, n.frame.purgingEnabled, hos.trans n.frame.grants⟩⟩

theorem Ensured.take {b' : HandleBase} {g' : Ghost} (n : Ensured b g b' g')
    (c : Core b g) {p : ℕ} (hp : p ∈ g'.free)
    (hhead : b'.purgingEnabled = false → ∃ t, g'.free = p :: t)
    (hfirst : b'.purgingEnabled = true → b'.firstFreeIndex = 0) (data : ℕ) {type : HandleType}
    (htype : type ≠ .none) (flag : AllocFlag) (t : Table (List ℕ)) (os : Os) (k : List ℕ)
    (hos : os.grants = b'.os.grants)
    (htab : flag.multi = true ∧ t = b.hashTab ∨ flag.multi = false ∧
      ∃ os₀ os₁ : Os, hashInsertExtended hashFuncDefault os₀ b.hashTab k (p + 1) = (true, t, os₁)) :
    Allocated b g p ⟨data, type, flag, none, handlesBatched b⟩ k
      (initHandle (popFree { b' with hashTab := t, os := os } p p) p p data type flag)
      (g'.taken (handlesBatched b) p) := by
  have hbat : handlesBatched b = handlesBatched { b' with hashTab := t, os := os } := by
    simp only [handlesBatched, n.frame.handBatchSize]
  have s₁ : Shape { b' with hashTab := t, os := os } g' := n.shape.congr rfl rfl rfl rfl rfl rfl rfl
  have o₁ : BatchOpen { b' with hashTab := t, os := os } g' :=
    n.batch.of_entries rfl rfl rfl rfl (fun i h => h)
  obtain ⟨s₂, o₂, f, hent⟩ := s₁.take o₁ hp hhead hfirst data htype flag
  rw [← hbat] at s₂ o₂ hent
  have hbusy := c.busy_of_entries n.content n.sameBatch n.le
  have hmem := (n.shape.pool.mem p).mp hp
  have hnot' : ¬ Busy b' g' p := by
    rintro ⟨-, h | h⟩
    · exact h hmem.2.1
    · exact hmem.2.2 h
  have hnot : ¬ Busy b g p := fun h => hnot' ((hbusy p).mpr h)
  have hplt := hmem.1
  refine ⟨s₂, o₂, n.lost, hnot, ?_, Function.update_self _ _ _, ?_, ?_, ?_, ?_, ?_⟩
  · rw [f.totalHandCount]
    exact hplt
  · intro j hj hjp
    have hr := s₂.core.rank_lt j hj
    change Function.update g'.rank p g'.clock j < Function.update g'.rank p g'.clock p
    rw [Function.update_self, Function.update_of_ne hjp]
    have hj' : Busy b' g' j := by
      unfold Busy at hj ⊢
      rw [f.totalHandCount, f.array j hjp] at hj
      refine ⟨hj.1, hj.2.imp_right (fun h => ?_)⟩
      change j ∈ (if handlesBatched b = true then p :: g'.batch else g'.batch) at h
      split at h
      · exact (List.mem_cons.mp h).resolve_left hjp
      · exact h
    exact n.shape.core.rank_lt j hj'
  · intro i
    rw [hent]
    split
    · rfl
    · exact n.content i
  · intro i hi
    have hip : i ≠ p := by
      rintro rfl
      rcases hi with hi | hi
      · exact hnot hi
      · rw [f.totalHandCount] at hi
        change b'.totalHandCount ≤ i at hi
        omega
    rw [f.array i hip]
    rw [f.totalHandCount] at hi
    exact n.array i hi
  · rw [f.hashTab]
    exact htab
  · refine ⟨f.handBatchSize.trans n.frame.handBatchSize,
      f.batchHandAllocFailures.trans n.frame.batchHandAllocFailures,
      f.purgingEnabled.trans n.frame.purgingEnabled, ?_⟩
    rw [f.os]
    exact hos.trans n.frame.grants

/-- `AllocHandle` fails and changes nothing, or hands out a free entry. -/
theorem Shape.allocHandle (s : Shape b g) (o : BatchOpen b g) (hl : g.lost = false) (data : ℕ) {type : HandleType}
    (htype : type ≠ .none) (flag : AllocFlag) (parent : ℕ) :
    (∃ e b' g', allocHandle b data type flag parent = some (e, 0, b') ∧ e ≠ .ok ∧
      AllocFailed b g b' g') ∨
    (∃ p b' g', allocHandle b data type flag parent = some (.ok, p + 1, b') ∧
      Allocated b g p ⟨data, type, flag, none, handlesBatched b⟩ (initKey data type parent)
        b' g') := by
  unfold Handles.allocHandle
  rcases s.ensureFree o with ⟨e, b', he, hne, hf⟩ | ⟨b₁, g₁, he, hen, hfree⟩
  · refine Or.inl ⟨e, b', g, ?_, hne, hf⟩
    rw [he]
    cases e <;> first | exact absurd rfl hne | rfl
  · obtain ⟨p, hpick, hp, hhead⟩ := hen.shape.pickFree (hen.lost.trans hl) hfree
    have hmem := (hen.shape.pool.mem p).mp hp
    have hw : indexToHandle p = p + 1 := by
      have := hen.shape.core.total_le
      have := hen.shape.core.max_le
      exact indexToHandle_of_lt (by omega)
    have hreset := hen.resetScan b₁.hashTab b₁.os rfl rfl
    rw [he]
    simp only [hpick, hw]
    set b₂ := if b₁.purgingEnabled = true then { b₁ with firstFreeIndex := 0 } else b₁ with hb₂
    have hb₂e : { b₂ with hashTab := b₁.hashTab, os := b₁.os } = b₂ := by
      rw [hb₂]
      split <;> rfl
    replace hreset : Ensured b g b₂ g₁ := by
      rw [← hb₂e]
      exact hreset
    have hpurge : b₂.purgingEnabled = b₁.purgingEnabled := by
      rw [hb₂]
      split <;> rfl
    have hfirst : b₂.purgingEnabled = true → b₂.firstFreeIndex = 0 := by
      intro h
      rw [hpurge] at h
      rw [hb₂, if_pos h]
    have hhead₂ : b₂.purgingEnabled = false → ∃ t, g₁.free = p :: t := by
      rw [hpurge]
      exact hhead
    cases hm : flag.multi with
    | true =>
      simp only [↓reduceIte, Bool.not_true, Bool.false_eq_true]
      exact Or.inr ⟨p, _, _, rfl, hreset.take s.core hp hhead₂ hfirst data htype flag b₂.hashTab
        b₂.os _ rfl (Or.inl ⟨hm, hreset.hashTab⟩)⟩
    | false =>
      simp only [Bool.false_eq_true, ↓reduceIte]
      rcases hr : hashInsertExtended hashFuncDefault b₂.os b₂.hashTab
        (initKey data type parent) (p + 1) with ⟨ok, t, os'⟩
      cases ok with
      | false =>
        simp only [Bool.not_false, ↓reduceIte]
        obtain ⟨ht, hos⟩ := hashInsertExtended_false hr
        refine Or.inl ⟨_, _, g₁, rfl, by simp, ?_⟩
        refine ⟨hreset.shape.congr rfl rfl rfl rfl rfl rfl rfl,
          hreset.batch.of_entries rfl rfl rfl rfl (fun i h => h), hreset.lost, hreset.content,
          hreset.array,
          ht.trans hreset.hashTab, ⟨hreset.frame.handBatchSize,
            hreset.frame.batchHandAllocFailures, hreset.frame.purgingEnabled,
            hos.trans hreset.frame.grants⟩⟩
      | true =>
        simp only [Bool.not_true, Bool.false_eq_true, ↓reduceIte]
        have hos := hashInsertExtended_grants hr
        rw [hreset.hashTab] at hr
        exact Or.inr ⟨p, _, _, rfl, hreset.take s.core hp hhead₂ hfirst data htype flag t os' _ hos
          (Or.inr ⟨hm, _, _, hr⟩)⟩

end
end PvrServices.Handles
