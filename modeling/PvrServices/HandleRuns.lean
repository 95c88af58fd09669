import PvrServices.HandleBatch
import PvrServices.Runs

set_option autoImplicit false

/-! # Runs of calls on a handle base -/
namespace PvrServices.Handles
open Words HashTable LinkedRing Runs

/-- The type of a resource; `PVRSRV_HANDLE_TYPE_NONE` is not one. -/
abbrev LiveType := { type : HandleType // type ≠ .none }

inductive Op where
  | alloc (data : ℕ) (type : LiveType) (flag : AllocFlag)
  | allocSub (data : ℕ) (type : LiveType) (flag : AllocFlag) (parent : ℕ)
  | release (handle : ℕ) (type : HandleType)
  | lookupAndRelease (handle : ℕ) (type : HandleType)
  | newBatch (size : ℕ)
  | commitBatch
  | releaseBatch
  | setMaxHandle (max : ℕ)
  | purge

/-- The error code of a call and the word it returns, a handle or the data of one. -/
abbrev Answer := PvrsrvError × ℕ

def step (b : HandleBase) : Op → Option (Answer × HandleBase)
  | .alloc data type flag =>
    (pvrsrvAllocHandle b data type.1 flag).map (fun r => ((r.1, r.2.1), r.2.2))
  | .allocSub data type flag parent =>
    (pvrsrvAllocSubHandle b data type.1 flag parent).map (fun r => ((r.1, r.2.1), r.2.2))
  | .release h type => (pvrsrvReleaseHandle b h type).map (fun r => ((r.1, 0), r.2))
  | .lookupAndRelease h type =>
    (pvrsrvLookupAndReleaseHandle b h type).map (fun r => ((r.1, r.2.1), r.2.2))
  | .newBatch size => let r := pvrsrvNewHandleBatch b size; some ((r.1, 0), r.2)
  | .commitBatch => (pvrsrvCommitHandleBatch b).map (fun r => ((r.1, 0), r.2))
  | .releaseBatch => (pvrsrvReleaseHandleBatch b).map (fun b => ((.ok, 0), b))
  | .setMaxHandle max => let r := pvrsrvSetMaxHandle b max; some ((r.1, 0), r.2)
  | .purge => let r := pvrsrvPurgeHandles b; some ((r.1, 0), r.2)

/-- A base as it is handed to its first user, possibly switched to purging mode. -/
inductive Created : HandleBase → Prop where
  | alloc {os : Os} {junk : ℕ → Handle} {b : HandleBase}
      (h : pvrsrvAllocHandleBase os junk = .ok b) : Created b
  | purging {b b' : HandleBase} (c : Created b) (h : pvrsrvEnableHandlePurging b = (.ok, b')) :
      Created b'

/-- Growing the array while entry 0 is the first of several free entries. -/
def GrowsOverEntryZero (b : HandleBase) : Op → Prop
  | .newBatch size =>
    handlesBatched b = false ∧ b.purgingEnabled = false ∧ b.firstFreeIndex = 0 ∧
      0 < b.freeHandCount ∧ b.freeHandCount < size ∧
      ∃ newTotal, newTotalHandCount b (u32Sub size b.freeHandCount) = some newTotal ∧
        (reallocHandleArray b newTotal b.totalHandCount).1 = .ok
  | _ => False

/-- Closing a batch that still holds a released handle, in purging mode. -/
def ClosesOverReleased (b : HandleBase) : Op → Prop
  | .commitBatch | .releaseBatch =>
    handlesBatched b = true ∧ b.purgingEnabled = true ∧
      ∃ i < b.totalHandCount, (b.handleArray i).internalFlag.partiallyFree = true
  | _ => False

section
variable {b b' : HandleBase} {g g' : Ghost}

theorem Inv.pvrsrvNewHandleBatch (v : Inv b g) (n : ℕ) (hsafe : ¬ GrowsOverEntryZero b (.newBatch n)) :
    ∃ e b' g', pvrsrvNewHandleBatch b n = (e, b') ∧ Inv b' g' ∧
      (∀ i, entries b' g' i = entries b g i) ∧ b'.purgingEnabled = b.purgingEnabled ∧
      b'.batchHandAllocFailures = b.batchHandAllocFailures ∧
      if e = .ok then b.handBatchSize = 0 ∧ b'.handBatchSize ≠ 0
      else b'.handBatchSize = b.handBatchSize := by
  unfold Handles.pvrsrvNewHandleBatch
  by_cases hb : handlesBatched b = true
  · rw [if_pos hb]
    exact ⟨_, _, g, rfl, v, fun _ => rfl, rfl, rfl, by simp⟩
  · rw [if_neg hb]
    by_cases hn : n = 0
    · rw [if_pos hn]
      exact ⟨_, _, g, rfl, v, fun _ => rfl, rfl, rfl, by simp⟩
    · rw [if_neg hn]
      have hs : b.handBatchSize = 0 := by simpa [handlesBatched] using hb
      have hnil := v.batch.closed hs
      -- the batch opens on a base that has grown or not
      have hopen : ∀ b₁ g₁, Ensured b g b₁ g₁ → ∃ e b' g',
          ((.ok, { b₁ with handBatchSize := n, totalHandCountPreBatch := b₁.totalHandCount }) :
            PvrsrvError × HandleBase) = (e, b') ∧ Inv b' g' ∧
          (∀ i, entries b' g' i = entries b g i) ∧ b'.purgingEnabled = b.purgingEnabled ∧
          b'.batchHandAllocFailures = b.batchHandAllocFailures ∧
          if e = .ok then b.handBatchSize = 0 ∧ b'.handBatchSize ≠ 0
          else b'.handBatchSize = b.handBatchSize := by
        intro b₁ g₁ h
        refine ⟨_, _, g₁, rfl, ⟨⟨h.shape.congr rfl rfl rfl rfl rfl rfl rfl, ?_⟩, ⟨h.batch.first, ?_,
          ?_⟩, ?_, h.lost.trans v.notLost⟩, fun i => h.content i, h.frame.purgingEnabled, h.frame.batchHandAllocFailures, ?_⟩
        · have : entries b₁ g₁ = entries b g := funext h.content
          change Hashed b₁.hashTab (entries b₁ g₁)
          rw [this, h.hashTab]
          exact v.hashed
        · exact fun h₀ => absurd h₀ hn
        · rw [h.sameBatch, hnil]
          simp
        · change b₁.batchHandAllocFailures < _
          rw [h.frame.batchHandAllocFailures]
          exact v.failures_lt
        · rw [if_pos rfl]
          exact ⟨hs, hn⟩
      by_cases hc : b.freeHandCount < n
      · rcases ensureFreeHandles_cases b n v.core.total_le hc with
          ⟨e, os, he, hne, hg⟩ | ⟨newTotal, size, os, he, hnew, hre, hlt, hm, hg⟩
        · rw [he]
          refine ⟨e, { b with os := os }, g, ?_, ⟨⟨v.toShape.congr rfl rfl rfl rfl rfl rfl rfl,
            v.hashed⟩, v.batch.of_entries rfl rfl rfl rfl (fun _ h => h), v.failures_lt, v.notLost⟩,
            fun _ => rfl, rfl, rfl, by rw [if_neg hne]⟩
          cases e <;> first | exact absurd rfl hne | rfl
        · rw [he]
          refine hopen _ _ (v.toShape.grow v.batch size os hg hlt hm ?_)
          intro hp hf
          by_contra hne
          have hpos : 0 < b.freeHandCount := by
            rw [v.pool.count]
            exact List.length_pos_of_ne_nil hne
          exact hsafe ⟨by simpa using hb, hp, hf, hpos, hc, newTotal, hnew, hre⟩
      · rw [ensureFreeHandles, if_neg (by omega)]
        exact hopen b g ⟨v.toShape, v.batch, rfl, fun _ => rfl, rfl, le_rfl, fun _ _ => rfl, rfl,
          ⟨rfl, rfl, rfl, rfl⟩⟩

structure BatchClosed (b : HandleBase) (g : Ghost) (commit : Bool) (b' : HandleBase) (g' : Ghost) :
    Prop where
  sound : Sound b' g'
  batch : BatchOpen b' g'
  content : ∀ i, entries b' g' i =
    closed g (commit && b.batchHandAllocFailures == 0) (entries b g) i
  handBatchSize : b'.handBatchSize = 0
  totalHandCountPreBatch : b'.totalHandCountPreBatch = 0
  firstBatchIndexPlusOne : b'.firstBatchIndexPlusOne = 0
  batchHandAllocFailures : b'.batchHandAllocFailures = 0
  purgingEnabled : b'.purgingEnabled = b.purgingEnabled

theorem Inv.closeBatch (v : Inv b g) (commit : Bool) (hb : handlesBatched b = true) :
    ∃ b' g', pvrsrvHandleBatchCommitOrRelease b commit = some (.ok, b') ∧
      BatchClosed b g commit b' g' ∧
      ((b.purgingEnabled = true → ∀ i < b.totalHandCount,
        (b.handleArray i).internalFlag.partiallyFree = false) → Inv b' g') := by
  have hlen : g.batch.length < freeFuel b :=
    length_lt_freeFuel v.core.batch_nodup v.core.batch_lt
  obtain ⟨b₁, g₁, hrun, s₁, hnil, hbase, hent, hlost, -⟩ := batchLoop_spec
    (commit && b.batchHandAllocFailures == 0) (freeFuel b) b g v.toSound
    (fun _ => v.batch.newer) hlen
  rw [← v.batch.first] at hrun
  unfold pvrsrvHandleBatchCommitOrRelease
  simp only [hb, Bool.not_true, Bool.false_eq_true, ↓reduceIte, hrun, ne_eq, not_true_eq_false,
    false_and]
  set b₂ : HandleBase := { b₁ with
    handBatchSize := 0
    firstBatchIndexPlusOne := 0
    totalHandCountPreBatch := 0
    batchHandAllocFailures := 0 } with hb₂
  have s₂ : Sound b₂ g₁ := ⟨s₁.toShape.congr rfl rfl rfl rfl rfl rfl rfl, s₁.hashed⟩
  have o₂ : BatchOpen b₂ g₁ := by
    refine ⟨?_, fun _ => hnil, ?_⟩
    · rw [hnil]
      rfl
    · rw [hnil]
      simp
  refine ⟨b₂, g₁, rfl, ⟨s₂, o₂, hent, rfl, rfl, rfl, rfl, hbase.purgingEnabled⟩, fun hclean => ?_⟩
  refine ⟨s₂, o₂, Nat.zero_lt_succ _, (hlost ?_).trans v.notLost⟩
  intro hp i hi ht
  have hf := hclean hp i (v.core.batch_lt i hi)
  rw [v.core.batch_flag i hi, ht] at hf
  simp at hf

theorem Inv.pvrsrvSetMaxHandle (v : Inv b g) (n : ℕ) : ∃ e b', pvrsrvSetMaxHandle b n = (e, b') ∧
    Inv b' g ∧ (∀ i, entries b' g i = entries b g i) ∧ b'.purgingEnabled = b.purgingEnabled ∧
    b'.handBatchSize = b.handBatchSize ∧
    b'.batchHandAllocFailures = b.batchHandAllocFailures := by
  unfold Handles.pvrsrvSetMaxHandle
  split
  · exact ⟨_, _, rfl, v, fun _ => rfl, rfl, rfl, rfl⟩
  · split
    · exact ⟨_, _, rfl, v, fun _ => rfl, rfl, rfl, rfl⟩
    · split
      · exact ⟨_, _, rfl, v, fun _ => rfl, rfl, rfl, rfl⟩
      · rename_i hn ht
        have k := v.core
        have hle : n ≤ 4294967295 := by
          have : ¬ n > defaultMaxIndexPlusOne := fun h => hn (Or.inr h)
          unfold defaultMaxIndexPlusOne at this
          omega
        refine ⟨_, _, rfl, ⟨⟨⟨⟨?_, hle, k.links, k.older, k.rank_lt, k.batch_lt, k.batch_next,
          k.batch_sorted, k.batch_flag, k.dead, k.plain⟩, ⟨v.pool.nodup, v.pool.mem, v.pool.count⟩,
          fun hp => ?_, fun hp hl => ?_⟩, v.hashed⟩, v.batch.of_entries rfl rfl rfl rfl (fun _ h => h),
          v.failures_lt, v.notLost⟩, fun _ => rfl, rfl, rfl, rfl⟩
        · change b.totalHandCount ≤ n
          omega
        · exact (v.chain hp).congr rfl rfl (fun _ _ => rfl)
        · exact ⟨(v.scan hp hl).clean, (v.scan hp hl).first⟩

theorem scanUsed_spec (array : ℕ → Handle) (n : ℕ) : scanUsed array n ≤ n ∧
    ∀ i, scanUsed array n ≤ i → i < n → handleStructIsFree (array i) = true := by
  induction n with
  | zero => exact ⟨le_rfl, fun i _ h => absurd h (Nat.not_lt_zero i)⟩
  | succ n ih =>
    unfold scanUsed
    split
    · rename_i h
      refine ⟨ih.1.trans (Nat.le_succ n), fun i h₁ h₂ => ?_⟩
      by_cases hi : i = n
      · rwa [hi]
      · exact ih.2 i h₁ (by omega)
    · exact ⟨le_rfl, fun i h₁ h₂ => by omega⟩

/-- Purging gives back entries from the end of the array, all of them free. -/
structure Purged (b : HandleBase) (g : Ghost) (b' : HandleBase) (g' : Ghost) : Prop where
  inv : Inv b' g'
  entries (i : ℕ) : entries b' g' i = entries b g i
  purgingEnabled : b'.purgingEnabled = b.purgingEnabled
  handBatchSize : b'.handBatchSize = b.handBatchSize
  failures : b'.batchHandAllocFailures = b.batchHandAllocFailures
  total_le : b'.totalHandCount ≤ b.totalHandCount
  free : ∀ i, b'.totalHandCount ≤ i → i < b.totalHandCount →
    handleStructIsFree (b.handleArray i) = true

theorem Purged.refl (v : Inv b g) : Purged b g b g :=
  ⟨v, fun _ => rfl, rfl, rfl, rfl, le_rfl, fun i _ _ => by omega⟩

theorem Inv.pvrsrvPurgeHandles (v : Inv b g) :
    ∃ e b' g', pvrsrvPurgeHandles b = (e, b') ∧ Purged b g b' g' := by
  have hsame (e : PvrsrvError) : ∃ e' b' g', (e, b) = (e', b') ∧ Purged b g b' g' :=
    ⟨e, b, g, rfl, .refl v⟩
  unfold Handles.pvrsrvPurgeHandles
  by_cases hp : b.purgingEnabled = true
  · rw [if_neg (by simp [hp])]
    by_cases hb : handlesBatched b = true
    · rw [if_pos hb]
      exact hsame _
    · rw [if_neg hb]
      dsimp only
      obtain ⟨hle, hfree⟩ := scanUsed_spec b.handleArray b.totalHandCount
      set used := scanUsed b.handleArray b.totalHandCount with hused
      set new := roundUpToMultiple used handleBlockSize with hnew
      by_cases hcond : new ≥ used ∧ new ≤ b.totalHandCount / 2
      · rw [if_pos hcond]
        obtain ⟨os, hg, ⟨size, -, hr⟩ | hr⟩ := reallocHandleArray_cases b new b.totalHandCount
        · rw [hr]
          have k := v.core
          have hnil : g.batch = [] := v.batch.closed (by simpa [handlesBatched] using hb)
          have hnt : new ≤ b.totalHandCount := by omega
          have hin : ∀ i, new ≤ i → i < b.totalHandCount → i ∈ g.free := by
            intro i h₁ h₂
            exact (v.toShape.mem_free_iff v.notLost hp i).mpr ⟨h₂, hfree i (by omega) h₂⟩
          have hlive : ∀ i, Live b i → i < new := by
            intro i hi
            by_contra h
            exact hi.2 ((v.pool.mem i).mp (hin i (by omega) hi.1)).2.1
          have hcount : g.free.length =
              (g.free.filter (fun i => i < new)).length + (b.totalHandCount - new) := by
            rw [List.length_eq_length_filter_add (fun i => decide (i < new))]
            congr 1
            have hperm : List.Perm (g.free.filter (fun i => !decide (i < new)))
                (List.range' new (b.totalHandCount - new)) := by
              refine (List.perm_ext_iff_of_nodup (v.pool.nodup.filter _) List.nodup_range').mpr ?_
              intro i
              rw [List.mem_filter, List.mem_range'_1]
              constructor
              · rintro ⟨h₁, h₂⟩
                have := ((v.pool.mem i).mp h₁).1
                simp at h₂
                omega
              · rintro ⟨h₁, h₂⟩
                exact ⟨hin i h₁ (by omega), by simpa using h₁⟩
            rw [hperm.length_eq, List.length_range']
          set b' : HandleBase := { b with
            blockSize := size
            os := os
            totalHandCount := new
            freeHandCount := u32Sub b.freeHandCount (u32Sub b.totalHandCount new)
            firstFreeIndex := 0 } with hb'
          set g' : Ghost := { g with free := g.free.filter (fun i => i < new) } with hg'
          have hlive' : ∀ i, Live b' i ↔ Live b i := by
            intro i
            constructor
            · intro h
              have h₁ : i < new := h.1
              exact ⟨by omega, h.2⟩
            · intro h
              exact ⟨hlive i h, h.2⟩
          have hbusy : ∀ i, Busy b' g' i ↔ Busy b g i := by
            intro i
            have h := hlive' i
            unfold Busy
            change _ ∧ (_ ∨ i ∈ g.batch) ↔ _
            rw [hnil]
            simpa [Live] using h
          have hent : ∀ i, entries b' g' i = entries b g i := by
            intro i
            by_cases hl : Live b i
            · rw [entries, if_pos ((hlive' i).mpr hl), entries, if_pos hl]
            · rw [entries_eq_none_iff.mpr hl, entries_eq_none_iff, hlive']
              exact hl
          have hremains : Remains b g b' g' :=
            { total_le := hnt.trans k.total_le
              max := rfl
              lists := rfl
              kids := rfl
              par := rfl
              rank := rfl
              clock := rfl
              busy := fun i hi => (hbusy i).mp hi
              family := fun x y hx hy =>
                ⟨(hbusy x).mpr hx, (hbusy y).mpr (k.links.parent_mem x y hx hy)⟩
              batch := List.suffix_refl _
              batched := by
                change ∀ i ∈ g.batch, _
                rw [hnil]
                simp
              plain := fun i hi => k.plain i ((hlive' i).mp hi) }
          refine ⟨.ok, b', g', rfl, ⟨⟨⟨hremains.core k, ⟨v.pool.nodup.filter _, ?_, ?_⟩,
            fun h => ?_, fun h _ => ?_⟩, ?_⟩, ⟨v.batch.first, fun _ => hnil, ?_⟩, v.failures_lt,
            v.notLost⟩, hent, rfl, rfl, rfl, hnt, fun i h₁ h₂ => hfree i (hcond.1.trans h₁) h₂⟩
          · intro i
            change i ∈ g.free.filter (fun i => i < new) ↔ i < new ∧ _
            rw [List.mem_filter, v.pool.mem, decide_eq_true_eq]
            constructor
            · rintro ⟨⟨-, h₂⟩, h₃⟩
              exact ⟨h₃, h₂⟩
            · rintro ⟨h₁, h₂⟩
              exact ⟨⟨by omega, h₂⟩, h₁⟩
          · change u32Sub b.freeHandCount (u32Sub b.totalHandCount new) =
              (g.free.filter (fun i => i < new)).length
            rw [v.pool.count, u32Sub_of_le hnt, u32Sub_of_le (by omega)]
            omega
          · rw [hp] at h
            simp at h
          · refine ⟨?_, fun h => absurd rfl h⟩
            intro i hi
            exact (v.scan hp v.notLost).clean i (List.mem_of_mem_filter hi)
          · change Hashed b.hashTab _
            rw [show entries b' g' = entries b g from funext hent]
            exact v.hashed
          · change ∀ i ∈ g.batch, _
            rw [hnil]
            simp
        · rw [hr]
          exact ⟨_, _, g, rfl, ⟨⟨v.toShape.congr rfl rfl rfl rfl rfl rfl rfl, v.hashed⟩,
            v.batch.of_entries rfl rfl rfl rfl (fun _ h => h), v.failures_lt, v.notLost⟩,
            fun _ => rfl, rfl, rfl, rfl, le_rfl, fun i h₁ h₂ => absurd h₂ (by
              change b.totalHandCount ≤ i at h₁
              omega)⟩
      · rw [if_neg hcond]
        exact hsame _
  · rw [if_pos (by simpa using hp)]
    exact hsame _

theorem not_live_of_empty (h : b.totalHandCount = 0) (i : ℕ) : ¬ Live b i := by
  intro hi
  have := hi.1
  omega

theorem Inv.created {os : Os} {junk : ℕ → Handle} (h : pvrsrvAllocHandleBase os junk = .ok b) :
    Inv b ⟨[], [], fun _ => [], fun _ => none, fun _ => 0, 0, false⟩ := by
  unfold pvrsrvAllocHandleBase at h
  split at h
  · simp at h
  · split at h
    · simp at h
    · rename_i hashTab _ hc
      have htab : hashTab = ⟨fun _ => [], handleHashTabInitSize, 0, handleHashTabInitSize⟩ := by
        unfold hashCreateExtended at hc
        split at hc
        · simp at hc
        · split at hc
          · simp at hc
          · simp only [Prod.mk.injEq, Option.some.injEq] at hc
            exact hc.1.symm
      simp only [Except.ok.injEq] at h
      subst h
      refine ⟨⟨⟨⟨Nat.zero_le _, le_rfl, ⟨?_, ?_, ?_, ?_, ?_, ?_, ?_⟩, ?_, ?_, by simp, by simp, .nil,
        by simp, by simp, fun i hi => absurd hi (not_live_of_empty rfl i)⟩, ⟨.nil, ?_, rfl⟩,
        fun _ => ⟨rfl, rfl, .nil, by simp⟩, fun hp => by simp at hp⟩, ⟨?_, ?_⟩⟩,
        ⟨rfl, fun _ => rfl, by simp⟩, Nat.zero_lt_succ _, rfl⟩
      iterate 4 exact fun i hi => absurd hi.1 (Nat.not_lt_zero i)
      · exact fun i _ hi => absurd hi.1 (Nat.not_lt_zero i)
      · exact fun i _ hi => absurd hi.1 (Nat.not_lt_zero i)
      · exact fun i hi => absurd hi.1 (Nat.not_lt_zero i)
      · exact fun i _ hi => absurd hi.1 (Nat.not_lt_zero i)
      · exact fun i hi => absurd hi.1 (Nat.not_lt_zero i)
      · intro i
        simp
      · rw [htab]
        exact ⟨by simp [handleHashTabInitSize], by simp [handleHashTabInitSize], by simp, by simp⟩
      · intro k v
        rw [htab]
        simp only [Table.lookup, List.find?_nil, Option.map_none, reduceCtorEq, false_iff,
          not_exists, not_and]
        intro i e he
        rw [entries_eq_none_iff.mpr (not_live_of_empty rfl i)] at he
        simp at he

theorem Created.inv (c : Created b) : ∃ g, Inv b g := by
  induction c with
  | alloc h => exact ⟨_, Inv.created h⟩
  | @purging b b' _ h ih =>
    obtain ⟨g, v⟩ := ih
    unfold pvrsrvEnableHandlePurging at h
    split at h
    · obtain rfl := (Prod.mk.inj h).2
      exact ⟨g, v⟩
    · split at h
      · simp at h
      · rename_i hp ht
        obtain rfl := (Prod.mk.inj h).2
        have hnil : g.free = [] := by
          refine List.eq_nil_iff_forall_not_mem.mpr (fun i hi => ?_)
          have := ((v.pool.mem i).mp hi).1
          omega
        have hfirst := (v.chain (by simpa using hp)).empty_of_first hnil
        have k := v.core
        refine ⟨g, ⟨⟨⟨⟨k.total_le, k.max_le, k.links, k.older, k.rank_lt, k.batch_lt, k.batch_next,
          k.batch_sorted, k.batch_flag, k.dead, k.plain⟩, ⟨v.pool.nodup, v.pool.mem, v.pool.count⟩,
          fun h => by simp at h, fun _ _ => ⟨?_, fun h => absurd hfirst h⟩⟩, v.hashed⟩,
          v.batch.of_entries rfl rfl rfl rfl (fun _ h => h), v.failures_lt, v.notLost⟩⟩
        rw [hnil]
        simp

theorem ReleaseCall.inv {h : ℕ} {type : HandleType} {e : PvrsrvError} (v : Inv b g)
    (r : ReleaseCall b g h type e b' g') : Inv b' g' ∧ b'.purgingEnabled = b.purgingEnabled := by
  cases r with
  | refused _ => exact ⟨v, rfl⟩
  | released _ inv r => exact ⟨inv, r.base.purgingEnabled⟩

theorem clean_of_not_closesOverReleased {op : Op} (hop : op = .commitBatch ∨ op = .releaseBatch)
    (hb : handlesBatched b = true) (h : ¬ ClosesOverReleased b op) :
    b.purgingEnabled = true → ∀ i < b.totalHandCount,
      (b.handleArray i).internalFlag.partiallyFree = false := by
  intro hp i hi
  by_contra hf
  refine h ?_
  rcases hop with rfl | rfl <;> exact ⟨hb, hp, i, hi, by simpa using hf⟩

theorem Inv.step (v : Inv b g) (op : Op) (h₁ : ¬ GrowsOverEntryZero b op)
    (h₂ : ¬ ClosesOverReleased b op) : ∃ r b' g', Handles.step b op = some (r, b') ∧ Inv b' g' ∧
      b'.purgingEnabled = b.purgingEnabled := by
  cases op with
  | alloc data type flag =>
    obtain ⟨e, h, b', g', hr, a⟩ := v.pvrsrvAllocHandle data type.2 flag
    exact ⟨(e, h), b', g', by simp only [Handles.step, hr, Option.map_some], a.inv, a.purgingEnabled⟩
  | allocSub data type flag parent =>
    obtain ⟨e, h, b', g', hr, a, -⟩ := v.pvrsrvAllocSubHandle data type.2 flag parent
    exact ⟨(e, h), b', g', by simp only [Handles.step, hr, Option.map_some], a.inv, a.purgingEnabled⟩
  | release h type =>
    obtain ⟨e, b', g', hr, r⟩ := v.pvrsrvReleaseHandle h type
    have hi := r.inv v
    exact ⟨(e, 0), b', g', by simp only [Handles.step, hr, Option.map_some], hi.1, hi.2⟩
  | lookupAndRelease h type =>
    obtain ⟨e, d, b', g', hr, r, -⟩ := v.pvrsrvLookupAndReleaseHandle h type
    have hi := r.inv v
    exact ⟨(e, d), b', g', by simp only [Handles.step, hr, Option.map_some], hi.1, hi.2⟩
  | newBatch size =>
    obtain ⟨e, b', g', hr, hi, -, hp, -⟩ := v.pvrsrvNewHandleBatch size h₁
    exact ⟨(e, 0), b', g', by simp only [Handles.step, hr], hi, hp⟩
  | commitBatch =>
    simp only [Handles.step, pvrsrvCommitHandleBatch]
    by_cases hb : handlesBatched b = true
    · obtain ⟨b', g', hr, c, hinv⟩ := v.closeBatch true hb
      exact ⟨(.ok, 0), b', g', by rw [hr, Option.map_some],
        hinv (clean_of_not_closesOverReleased (Or.inl rfl) hb h₂), c.purgingEnabled⟩
    · refine ⟨(.errorInvalidParams, 0), b, g, ?_, v, rfl⟩
      simp [pvrsrvHandleBatchCommitOrRelease, hb]
  | releaseBatch =>
    simp only [Handles.step, pvrsrvReleaseHandleBatch]
    by_cases hb : handlesBatched b = true
    · obtain ⟨b', g', hr, c, hinv⟩ := v.closeBatch false hb
      exact ⟨(.ok, 0), b', g', by rw [hr, Option.map_some, Option.map_some],
        hinv (clean_of_not_closesOverReleased (Or.inr rfl) hb h₂), c.purgingEnabled⟩
    · refine ⟨(.ok, 0), b, g, ?_, v, rfl⟩
      simp [pvrsrvHandleBatchCommitOrRelease, hb]
  | setMaxHandle n =>
    obtain ⟨e, b', hr, hi, -, hp, -⟩ := v.pvrsrvSetMaxHandle n
    exact ⟨(e, 0), b', g, by simp only [Handles.step, hr], hi, hp⟩
  | purge =>
    obtain ⟨e, b', g', hr, hi, -, hp, -⟩ := v.pvrsrvPurgeHandles
    exact ⟨(e, 0), b', g', by simp only [Handles.step, hr], hi, hp⟩

end
end PvrServices.Handles
