import PvrServices.HandleRuns

set_option autoImplicit false

/-!
# The block of the handle array

`ReallocHandleArray` says the bytes of the array in 32 bits. Until the array grows to more entries
than they can say, every entry of the base lies in the block.
-/
namespace PvrServices.Handles
open Words HashTable Runs

/-- To get free entries the array grows, and the 32-bit size of its new block comes round. -/
def WrapsBlock (b : HandleBase) (free : ℕ) : Prop :=
  b.freeHandCount < free ∧ ∃ newTotal,
    newTotalHandCount b (u32Sub free b.freeHandCount) = some newTotal ∧
      4294967296 ≤ newTotal * handleStructSize ∧
      (reallocHandleArray b newTotal b.totalHandCount).1 = .ok

def fitsBlock (b : HandleBase) (free : ℕ) : Bool :=
  free ≤ b.freeHandCount || (newTotalHandCount b (u32Sub free b.freeHandCount)).all fun newTotal =>
    newTotal * handleStructSize < 4294967296

/-- The call gets as far as growing the array, which wraps its block. -/
def Overgrows (b : HandleBase) : Op → Prop
  | .newBatch size => handlesBatched b = false ∧ WrapsBlock b size
  | .alloc data type flag =>
    (flag.multi = true ∨ findHandle b data type.1 0 = 0) ∧ WrapsBlock b 1
  | .allocSub data type flag parent =>
    (∃ i, getHandleStructure b parent .none = .ok i) ∧
      (flag.multi = true ∨ findHandle b data type.1 (if flag.priv then parent else 0) = 0) ∧
      WrapsBlock b 1
  | _ => False

/-- A call that meets none of the defects: the array neither grows over a free entry 0 nor wraps
    its block, and no batch is closed over a released handle. -/
structure Harmless (b : HandleBase) (op : Op) : Prop where
  overZero : ¬ GrowsOverEntryZero b op
  overReleased : ¬ ClosesOverReleased b op
  inBlock : ¬ Overgrows b op

section
variable {b b' b₀ : HandleBase} {e : PvrsrvError} {h i n : ℕ} {p : ListPtr} {l : List (Op × Answer)}

/-- The array neither grows nor shrinks. -/
structure SameBlock (b b' : HandleBase) : Prop where
  total : b'.totalHandCount = b.totalHandCount
  size : b'.blockSize = b.blockSize

theorem SameBlock.refl : SameBlock b b := ⟨rfl, rfl⟩

theorem SameBlock.trans {c : HandleBase} (s : SameBlock b b') (s' : SameBlock b' c) :
    SameBlock b c := ⟨s'.total.trans s.total, s'.size.trans s.size⟩

theorem Held.same (hb : Held b) (s : SameBlock b b') : Held b' := by
  unfold Held
  rw [s.total, s.size]
  exact hb

theorem setList_sameBlock (b : HandleBase) (p : ListPtr) (l : HandleList) :
    SameBlock b (setList b p l) := by
  unfold setList
  split
  all_goals exact ⟨rfl, rfl⟩

theorem adoptChild_sameBlock (b : HandleBase) (parent child : ℕ) :
    SameBlock b (adoptChild b parent child) := by
  unfold adoptChild handleListInsertBefore
  dsimp only
  iterate 5 refine .trans ?_ (setList_sameBlock _ _ _)
  exact .refl

theorem unlinkFromParent_sameBlock (b : HandleBase) (i : ℕ) :
    SameBlock b (unlinkFromParent b i) := by
  unfold unlinkFromParent handleListRemove
  split
  · exact .refl
  · dsimp only
    iterate 3 refine .trans ?_ (setList_sameBlock _ _ _)
    exact .refl

theorem removeFromHash_sameBlock (b : HandleBase) (i : ℕ) : SameBlock b (removeFromHash b i) := by
  unfold removeFromHash
  dsimp only
  split
  all_goals exact ⟨rfl, rfl⟩

theorem retireHandle_sameBlock (b : HandleBase) (i : ℕ) : SameBlock b (retireHandle b i) := by
  unfold retireHandle appendFree
  dsimp only
  repeat' split
  all_goals exact ⟨rfl, rfl⟩

theorem handleListIterateFrom_sameBlock
    {iterFunc : HandleBase → ℕ → Option (PvrsrvError × HandleBase)}
    (hf : ∀ b i e b', iterFunc b i = some (e, b') → SameBlock b b') {parent : ℕ}
    {po eo : ListOffset} {fuel : ℕ} :
    ∀ {b : HandleBase} {i : ℕ}, handleListIterateFrom iterFunc parent po eo fuel b i =
      some (e, b') → SameBlock b b' := by
  induction fuel with
  | zero => exact nofun
  | succ fuel ih =>
    intro b i hr
    unfold handleListIterateFrom at hr
    dsimp only at hr
    split at hr
    · cases hr
      exact .refl
    · split at hr
      · cases hr
      · rename_i hit
        exact (hf _ _ _ _ hit).trans (ih hr)
      · rename_i hit
        cases hr
        exact hf _ _ _ _ hit

theorem freeHandle_sameBlock {fuel : ℕ} (b : HandleBase) (i : ℕ) (e : PvrsrvError)
    (b' : HandleBase) (hr : freeHandle fuel b i = some (e, b')) : SameBlock b b' := by
  induction fuel generalizing b i e b' with
  | zero => cases hr
  | succ fuel ih =>
    unfold freeHandle at hr
    have hcut := (removeFromHash_sameBlock b i).trans (unlinkFromParent_sameBlock _ i)
    dsimp only at hr
    split at hr
    · cases hr
    · rename_i hit
      cases hr
      exact (hcut.trans (handleListIterateFrom_sameBlock ih hit)).trans
        (retireHandle_sameBlock _ i)
    · rename_i hit
      cases hr
      exact hcut.trans (handleListIterateFrom_sameBlock ih hit)

theorem batchLoop_sameBlock {commitBatch : Bool} {fuel : ℕ} :
    ∀ {b : HandleBase} {i : ℕ}, batchLoop commitBatch fuel b i = some b' → SameBlock b b' := by
  induction fuel with
  | zero => exact nofun
  | succ fuel ih =>
    intro b i hr
    unfold batchLoop at hr
    dsimp only at hr
    split at hr
    · cases hr
      exact .refl
    · split at hr
      · split at hr
        · cases hr
        · rename_i hfree
          have hfreed := (freeHandle_sameBlock _ _ _ _ hfree).trans (ih hr)
          split at hfreed
          all_goals exact ⟨hfreed.total, hfreed.size⟩
      · have hrest := ih hr
        exact ⟨hrest.total, hrest.size⟩

theorem commitOrRelease_sameBlock {commit : Bool}
    (hr : pvrsrvHandleBatchCommitOrRelease b commit = some (e, b')) : SameBlock b b' := by
  unfold pvrsrvHandleBatchCommitOrRelease at hr
  split at hr
  · cases hr
    exact .refl
  · dsimp only at hr
    split at hr
    · cases hr
    · rename_i hloop
      have hsame := batchLoop_sameBlock hloop
      split at hr
      all_goals
        cases hr
        exact ⟨hsame.total, hsame.size⟩

theorem reallocHandleArray_held (hb : Held b) (hn : n * handleStructSize < 4294967296)
    (hr : reallocHandleArray b n b.totalHandCount = (.ok, b')) :
    n * handleStructSize ≤ b'.blockSize ∧ b'.blockSize < 4294967296 := by
  obtain ⟨os, -, ⟨size, hsize, hok⟩ | hno⟩ := reallocHandleArray_cases b n b.totalHandCount
  · rw [hok] at hr
    cases hr
    rw [u32_of_lt hn, u32_of_lt (by have := hb.1; have := hb.2; omega)] at hsize
    dsimp only
    have := hb.1
    have := hb.2
    omega
  · rw [hno] at hr
    cases hr

theorem ensureFreeHandles_held (hb : Held b) (hn : ¬ WrapsBlock b n) :
    Held (ensureFreeHandles b n).2 := by
  unfold ensureFreeHandles
  split
  · rename_i hlt
    unfold increaseHandleArraySize
    cases ht : newTotalHandCount b (u32Sub n b.freeHandCount) with
    | none => exact hb
    | some newTotal =>
      dsimp only
      rcases hr : reallocHandleArray b newTotal b.totalHandCount with ⟨err, c⟩
      obtain ⟨os, -, ⟨size, -, hok⟩ | hno⟩ := reallocHandleArray_cases b newTotal b.totalHandCount
      · rw [hok] at hr
        cases hr
        have hfit : newTotal * handleStructSize < 4294967296 := by
          by_contra hwrap
          exact hn ⟨hlt, newTotal, ht, by omega, by rw [hok]⟩
        have hheld := reallocHandleArray_held hb hfit hok
        obtain ⟨k, l, he, -⟩ :=
          extendHandleArray_spec { b with blockSize := size, os := os } newTotal
        dsimp only
        rw [he]
        exact hheld
      · rw [hno] at hr
        cases hr
        exact hb
  · exact hb

theorem popFree_sameBlock (b : HandleBase) (i k : ℕ) : SameBlock b (popFree b i k) := by
  unfold popFree
  dsimp only
  repeat' split
  all_goals exact ⟨rfl, rfl⟩

theorem initHandle_sameBlock (b : HandleBase) (i k data : ℕ) (type : HandleType)
    (flag : AllocFlag) : SameBlock b (initHandle b i k data type flag) := by
  unfold initHandle
  dsimp only
  split
  all_goals exact ⟨rfl, rfl⟩

theorem allocHandle_held {data parent : ℕ} {type : HandleType} {flag : AllocFlag} (hb : Held b)
    (hn : ¬ WrapsBlock b 1) (hr : allocHandle b data type flag parent = some (e, h, b')) :
    Held b' := by
  have hheld := ensureFreeHandles_held hb hn
  unfold allocHandle at hr
  split at hr
  · rename_i c hens
    rw [hens] at hheld
    dsimp only at hr
    generalize hpicked : (if c.purgingEnabled then { c with firstFreeIndex := 0 } else c) = d at hr
    have hsame : SameBlock c d := by
      rw [← hpicked]
      split
      all_goals exact ⟨rfl, rfl⟩
    -- the insertion into the hash table leaves the array
    generalize hinsert : (if flag.multi then (true, d) else
      ((hashInsertExtended hashFuncDefault d.os d.hashTab (initKey data type parent)
        (indexToHandle (pickFree c).1)).1, { d with
          hashTab := (hashInsertExtended hashFuncDefault d.os d.hashTab (initKey data type parent)
            (indexToHandle (pickFree c).1)).2.1
          os := (hashInsertExtended hashFuncDefault d.os d.hashTab (initKey data type parent)
            (indexToHandle (pickFree c).1)).2.2 })) = x at hr
    have hinserted : SameBlock c x.2 := by
      rw [← hinsert]
      split
      · exact hsame
      · exact ⟨hsame.total, hsame.size⟩
    split at hr
    · cases hr
      exact hheld.same hinserted
    · split at hr
      · cases hr
      · cases hr
        exact hheld.same ((hinserted.trans (popFree_sameBlock _ _ _)).trans
          (initHandle_sameBlock _ _ _ _ _ _))
  · cases hr
    rename_i hens
    rw [hens] at hheld
    exact hheld

theorem dropBatchFailure_sameBlock (b : HandleBase) : SameBlock b (dropBatchFailure b) := by
  rw [dropBatchFailure_eq]
  exact ⟨rfl, rfl⟩

/-- A call that allocates has found nothing to share, unless it does not look. -/
theorem not_wrapsBlock_of_search {flag : AllocFlag} {found k : ℕ}
    (hn : ¬ ((flag.multi = true ∨ found = 0) ∧ WrapsBlock b 1))
    (hzero : (if flag.multi then 0 else found) = 0) :
    ¬ WrapsBlock { b with batchHandAllocFailures := k } 1 := by
  intro hwrap
  refine hn ⟨?_, hwrap⟩
  by_cases hm : flag.multi = true
  · exact .inl hm
  · rw [if_neg hm] at hzero
    exact .inr hzero

theorem pvrsrvAllocHandle_held {data : ℕ} {type : LiveType} {flag : AllocFlag} (hb : Held b)
    (hn : ¬ Overgrows b (.alloc data type flag))
    (hr : pvrsrvAllocHandle b data type.1 flag = some (e, h, b')) : Held b' := by
  unfold pvrsrvAllocHandle at hr
  rw [addBatchFailure_eq] at hr
  generalize (if handlesBatched b then u32 (b.batchHandAllocFailures + 1)
    else b.batchHandAllocFailures) = k at hr
  dsimp only at hr
  generalize hfound : (if flag.multi then 0 else
    findHandle { b with batchHandAllocFailures := k } data type.1 0) = found at hr
  split at hr
  · split at hr
    · cases hr
      exact hb
    · split at hr
      · cases hr
        exact Held.same (b := { b with batchHandAllocFailures := k }) hb
          (dropBatchFailure_sameBlock _)
      · cases hr
        exact hb
  · rename_i hzero
    have hroom : ¬ WrapsBlock { b with batchHandAllocFailures := k } 1 :=
      not_wrapsBlock_of_search hn (hfound.trans (not_not.mp hzero))
    split at hr
    · cases hr
    · rename_i hal
      cases hr
      exact (allocHandle_held (b := { b with batchHandAllocFailures := k }) hb hroom hal).same
        (dropBatchFailure_sameBlock _)
    · rename_i hal
      cases hr
      exact allocHandle_held (b := { b with batchHandAllocFailures := k }) hb hroom hal

theorem pvrsrvAllocSubHandle_held {data parent : ℕ} {type : LiveType} {flag : AllocFlag}
    (hb : Held b) (hn : ¬ Overgrows b (.allocSub data type flag parent))
    (hr : pvrsrvAllocSubHandle b data type.1 flag parent = some (e, h, b')) : Held b' := by
  unfold pvrsrvAllocSubHandle at hr
  rw [addBatchFailure_eq] at hr
  generalize (if handlesBatched b then u32 (b.batchHandAllocFailures + 1)
    else b.batchHandAllocFailures) = k at hr
  dsimp only at hr
  split at hr
  · cases hr
    exact hb
  · rename_i hparent
    generalize hfound : (if flag.multi then 0 else
      findHandle { b with batchHandAllocFailures := k } data type.1
        (if flag.priv then parent else 0)) = found at hr
    split at hr
    · split at hr
      · cases hr
        exact hb
      · split at hr
        · cases hr
          exact Held.same (b := { b with batchHandAllocFailures := k }) hb
            (dropBatchFailure_sameBlock _)
        · cases hr
          exact hb
    · rename_i hzero
      have hroom : ¬ WrapsBlock { b with batchHandAllocFailures := k } 1 :=
        not_wrapsBlock_of_search (fun h => hn ⟨⟨_, hparent⟩, h⟩) (hfound.trans (not_not.mp hzero))
      split at hr
      · cases hr
      · rename_i hal
        cases hr
        exact (allocHandle_held (b := { b with batchHandAllocFailures := k }) hb hroom hal).same
          ((adoptChild_sameBlock _ _ _).trans (dropBatchFailure_sameBlock _))
      · rename_i hal
        cases hr
        exact allocHandle_held (b := { b with batchHandAllocFailures := k }) hb hroom hal

theorem pvrsrvNewHandleBatch_held (hb : Held b) (hn : ¬ Overgrows b (.newBatch n)) :
    Held (pvrsrvNewHandleBatch b n).2 := by
  unfold pvrsrvNewHandleBatch
  split
  · exact hb
  · rename_i hclosed
    split
    · exact hb
    · have hheld := ensureFreeHandles_held hb (n := n) fun hwrap =>
        hn ⟨Bool.not_eq_true _ ▸ hclosed, hwrap⟩
      split
      all_goals
        rename_i hens
        rw [hens] at hheld
        exact hheld

theorem pvrsrvSetMaxHandle_sameBlock (b : HandleBase) (n : ℕ) :
    SameBlock b (pvrsrvSetMaxHandle b n).2 := by
  unfold pvrsrvSetMaxHandle
  repeat' split
  all_goals exact ⟨rfl, rfl⟩

theorem pvrsrvPurgeHandles_held (hb : Held b) : Held (pvrsrvPurgeHandles b).2 := by
  unfold pvrsrvPurgeHandles
  split
  · exact hb
  · split
    · exact hb
    · dsimp only
      split
      · rename_i hshrink
        have hfit : roundUpToMultiple (scanUsed b.handleArray b.totalHandCount) handleBlockSize *
            handleStructSize < 4294967296 := by
          have := hb.1
          have := hb.2
          have := hshrink.2
          unfold handleStructSize at *
          omega
        split
        · rename_i hr
          have hheld := reallocHandleArray_held hb hfit hr
          exact hheld
        · rename_i hne hr
          obtain ⟨os, -, ⟨size, -, hok⟩ | hno⟩ := reallocHandleArray_cases b
            (roundUpToMultiple (scanUsed b.handleArray b.totalHandCount) handleBlockSize)
            b.totalHandCount
          · rw [hok] at hr
            cases hr
            exact absurd rfl hne
          · rw [hno] at hr
            cases hr
            exact hb
      · exact hb

theorem Held.step {op : Op} {r : Answer} (hb : Held b) (hop : ¬ Overgrows b op)
    (hs : Handles.step b op = some (r, b')) : Held b' := by
  cases op with
  | alloc data type flag =>
    obtain ⟨⟨e, h, c⟩, hr, heq⟩ := Option.map_eq_some_iff.mp hs
    cases heq
    exact pvrsrvAllocHandle_held hb hop hr
  | allocSub data type flag parent =>
    obtain ⟨⟨e, h, c⟩, hr, heq⟩ := Option.map_eq_some_iff.mp hs
    cases heq
    exact pvrsrvAllocSubHandle_held hb hop hr
  | release h type =>
    obtain ⟨⟨e, c⟩, hr, heq⟩ := Option.map_eq_some_iff.mp hs
    cases heq
    unfold pvrsrvReleaseHandle at hr
    split at hr
    · cases hr
      exact hb
    · exact hb.same (freeHandle_sameBlock _ _ _ _ hr)
  | lookupAndRelease h type =>
    obtain ⟨⟨e, d, c⟩, hr, heq⟩ := Option.map_eq_some_iff.mp hs
    cases heq
    unfold pvrsrvLookupAndReleaseHandle at hr
    split at hr
    · cases hr
      exact hb
    · split at hr
      · cases hr
      · rename_i hfree
        cases hr
        exact hb.same (freeHandle_sameBlock _ _ _ _ hfree)
  | newBatch size =>
    cases hs
    exact pvrsrvNewHandleBatch_held hb hop
  | commitBatch =>
    obtain ⟨⟨e, c⟩, hr, heq⟩ := Option.map_eq_some_iff.mp hs
    cases heq
    exact hb.same (commitOrRelease_sameBlock hr)
  | releaseBatch =>
    obtain ⟨c, hr, heq⟩ := Option.map_eq_some_iff.mp hs
    cases heq
    obtain ⟨⟨e, c⟩, hclose, heq⟩ := Option.map_eq_some_iff.mp hr
    cases heq
    exact hb.same (commitOrRelease_sameBlock hclose)
  | setMaxHandle max =>
    cases hs
    exact hb.same (pvrsrvSetMaxHandle_sameBlock b max)
  | purge =>
    cases hs
    exact pvrsrvPurgeHandles_held hb

theorem Created.held (c : Created b) : Held b := by
  induction c with
  | @alloc os junk b h =>
    unfold pvrsrvAllocHandleBase at h
    split at h
    · cases h
    · split at h
      · cases h
      · cases h
        exact ⟨le_rfl, Nat.two_pow_pos 32⟩
  | purging _ h ih =>
    unfold pvrsrvEnableHandlePurging at h
    split at h
    · cases h
      exact ih
    · split at h
      · cases h
      · cases h
        exact ih

/-- In a run without the defects every entry of the base lies in its block. -/
theorem Created.held_run (c : Created b₀) (run : Run Handles.step Harmless b₀ l b) : Held b :=
  run.invariant Held c.held fun _ _ _ _ hb hop hs => hb.step hop.inBlock hs

/-- A check that calls meet none of the defects. -/
def clear (b : HandleBase) : Op → Bool
  | .newBatch size => (size ≤ b.freeHandCount || b.freeHandCount == 0) && fitsBlock b size
  | .alloc .. | .allocSub .. => fitsBlock b 1
  | .commitBatch | .releaseBatch => !b.purgingEnabled
  | _ => true

theorem not_wrapsBlock_of_fits (h : fitsBlock b n = true) : ¬ WrapsBlock b n := by
  rintro ⟨hlt, newTotal, hnew, hwrap, -⟩
  simp only [fitsBlock, hnew, Option.all_some, Bool.or_eq_true, decide_eq_true_eq] at h
  omega

theorem harmless_of_clear {op : Op} (h : clear b op = true) : Harmless b op := by
  cases op with
  | newBatch size =>
    simp only [clear, Bool.and_eq_true, Bool.or_eq_true, decide_eq_true_eq, beq_iff_eq] at h
    refine ⟨?_, id, fun hwrap => not_wrapsBlock_of_fits h.2 hwrap.2⟩
    rintro ⟨-, -, -, hpos, hlt, -⟩
    omega
  | alloc data type flag => exact ⟨id, id, fun hwrap => not_wrapsBlock_of_fits h hwrap.2⟩
  | allocSub data type flag parent =>
    exact ⟨id, id, fun hwrap => not_wrapsBlock_of_fits h hwrap.2.2⟩
  | commitBatch => exact ⟨id, fun hc => by simp [clear, hc.2.1] at h, id⟩
  | releaseBatch => exact ⟨id, fun hc => by simp [clear, hc.2.1] at h, id⟩
  | _ => exact ⟨id, id, id⟩

theorem run_of_clear {ops : List Op} (h : exec Handles.step b₀ ops = some (l, b))
    (hclear : allows Handles.step clear b₀ ops = true) : Run Handles.step Harmless b₀ l b :=
  (Run.of_allowed h (allowed_of_allows hclear)).mono fun _ _ => harmless_of_clear

end
end PvrServices.Handles
