import PvrServices.HandleFree
import PvrServices.HashTableMap
import Mathlib.Data.List.Perm.Subperm

set_option autoImplicit false

/-!
# The invariant of a handle base

A base stands for a finite map from indices to entries. `Ghost` is what the array encodes and
the code never writes down: the handles of the open batch, newest first, the free entries, the
forest of subhandles and the order in which the entries were handed out. `lost` says that in
purging mode some free entry may carry flags that its scan does not take for free.
-/
namespace PvrServices.Handles
open Words HashTable LinkedRing

theorem HandleType.code_injective : Function.Injective HandleType.code := by
  intro s t h
  cases s <;> cases t <;> first | rfl | simp [HandleType.code] at h

theorem initKey_inj {d d' p p' : ℕ} {t t' : HandleType} :
    initKey d t p = initKey d' t' p' ↔ d = d' ∧ t = t' ∧ p = p' := by
  simp [initKey, HandleType.code_injective.eq_iff]

structure Entry where
  data : ℕ
  type : HandleType
  flag : AllocFlag
  parent : Option ℕ
  inBatch : Bool

def Entry.key (e : Entry) : List ℕ :=
  initKey e.data e.type (if e.flag.priv then parentWord e.parent else 0)

structure Ghost where
  batch : List ℕ
  free : List ℕ
  kids : ℕ → List ℕ
  par : ℕ → Option ℕ
  rank : ℕ → ℕ
  clock : ℕ
  lost : Bool

def Live (b : HandleBase) (i : ℕ) : Prop :=
  i < b.totalHandCount ∧ (b.handleArray i).type ≠ .none

def Busy (b : HandleBase) (g : Ghost) (i : ℕ) : Prop :=
  i < b.totalHandCount ∧ ((b.handleArray i).type ≠ .none ∨ i ∈ g.batch)

instance (b : HandleBase) (i : ℕ) : Decidable (Live b i) :=
  inferInstanceAs (Decidable (_ ∧ _))

def entries (b : HandleBase) (g : Ghost) (i : ℕ) : Option Entry :=
  if Live b i then some {
    data := (b.handleArray i).data
    type := (b.handleArray i).type
    flag := (b.handleArray i).flag
    parent := g.par i
    inBatch := decide (i ∈ g.batch) }
  else none

theorem entries_eq_some_iff {b : HandleBase} {g : Ghost} {i : ℕ} {e : Entry} :
    entries b g i = some e ↔ Live b i ∧ e.data = (b.handleArray i).data ∧
      e.type = (b.handleArray i).type ∧ e.flag = (b.handleArray i).flag ∧ e.parent = g.par i ∧
      e.inBatch = decide (i ∈ g.batch) := by
  obtain ⟨d, t, f, p, ib⟩ := e
  unfold entries
  split
  · rename_i h
    simp only [Option.some.injEq, Entry.mk.injEq, h, true_and]
    exact ⟨fun ⟨h₁, h₂, h₃, h₄, h₅⟩ => ⟨h₁.symm, h₂.symm, h₃.symm, h₄.symm, h₅.symm⟩,
      fun ⟨h₁, h₂, h₃, h₄, h₅⟩ => ⟨h₁.symm, h₂.symm, h₃.symm, h₄.symm, h₅.symm⟩⟩
  · rename_i h
    simp [h]

theorem entries_eq_none_iff {b : HandleBase} {g : Ghost} {i : ℕ} :
    entries b g i = none ↔ ¬ Live b i := by
  unfold entries
  split <;> simp [*]

/-- The forest of subhandles and the flags of the entries in use. -/
structure Core (b : HandleBase) (g : Ghost) : Prop where
  total_le : b.totalHandCount ≤ b.maxIndexPlusOne
  max_le : b.maxIndexPlusOne ≤ 4294967295
  links : Links (getList b) (Busy b g) g.kids g.par
  older : ∀ k p, Busy b g k → g.par k = some p → g.rank p < g.rank k
  rank_lt : ∀ i, Busy b g i → g.rank i < g.clock
  batch_lt : ∀ i ∈ g.batch, i < b.totalHandCount
  batch_next : ∀ s i t, g.batch = s ++ i :: t →
    (b.handleArray i).nextIndexPlusOne = parentWord t.head?
  batch_sorted : g.batch.Pairwise (fun i j => g.rank j < g.rank i)
  batch_flag : ∀ i ∈ g.batch,
    (b.handleArray i).internalFlag = ⟨true, (b.handleArray i).type == .none⟩
  dead : ∀ i ∈ g.batch, (b.handleArray i).type = .none → g.kids i = [] ∧ g.par i = none
  plain : ∀ i, Live b i → i ∉ g.batch →
    (b.handleArray i).internalFlag = ⟨false, false⟩ ∧ (b.handleArray i).nextIndexPlusOne = 0

/-- The batch fields of the base agree with the handles of the batch. -/
structure BatchOpen (b : HandleBase) (g : Ghost) : Prop where
  first : b.firstBatchIndexPlusOne = parentWord g.batch.head?
  closed : b.handBatchSize = 0 → g.batch = []
  newer : ∀ i ∈ g.batch, ∀ j, Busy b g j → j ∉ g.batch → g.rank j < g.rank i

structure Pool (b : HandleBase) (g : Ghost) : Prop where
  nodup : g.free.Nodup
  mem : ∀ i, i ∈ g.free ↔
    i < b.totalHandCount ∧ (b.handleArray i).type = .none ∧ i ∉ g.batch
  count : b.freeHandCount = g.free.length

def freeNext (b : HandleBase) (i : ℕ) : ℕ :=
  if (b.handleArray i).nextIndexPlusOne = 0 then i + 1
  else (b.handleArray i).nextIndexPlusOne - 1

/-- Out of purging mode the free entries are threaded into a list. -/
structure FreeChain (b : HandleBase) (fl : List ℕ) : Prop where
  first : b.firstFreeIndex = fl.head?.getD 0
  last : b.lastFreeIndexPlusOne = parentWord fl.getLast?
  chain : fl.IsChain (fun i j => freeNext b i = j)
  last_next : ∀ i ∈ fl.getLast?, (b.handleArray i).nextIndexPlusOne = 0

/-- In purging mode the free entries are found by a scan of their flags. -/
structure FreeScan (b : HandleBase) (fl : List ℕ) : Prop where
  clean : ∀ i ∈ fl, (b.handleArray i).internalFlag = ⟨false, false⟩
  first : b.firstFreeIndex ≠ 0 → b.firstFreeIndex < b.totalHandCount ∧
    ∀ i, b.firstFreeIndex ≤ i → i < b.totalHandCount → i ∈ fl

/-- The hash table finds the entries whose handles are unique for their resource. -/
structure Hashed (hashTab : Table (List ℕ)) (m : ℕ → Option Entry) : Prop where
  wf : Wf hashFuncDefault hashTab
  lookup : ∀ k v, hashTab.lookup hashFuncDefault k = some v ↔
    ∃ i e, m i = some e ∧ e.flag.multi = false ∧ e.key = k ∧ v = i + 1

structure Shape (b : HandleBase) (g : Ghost) : Prop where
  core : Core b g
  pool : Pool b g
  chain : b.purgingEnabled = false → FreeChain b g.free
  scan : b.purgingEnabled = true → g.lost = false → FreeScan b g.free

structure Sound (b : HandleBase) (g : Ghost) : Prop extends Shape b g where
  hashed : Hashed b.hashTab (entries b g)

structure Inv (b : HandleBase) (g : Ghost) : Prop extends Sound b g where
  batch : BatchOpen b g
  failures_lt : b.batchHandAllocFailures < 4294967296
  notLost : g.lost = false

section
variable {b : HandleBase} {g : Ghost}

theorem Live.busy {i : ℕ} (h : Live b i) : Busy b g i := ⟨h.1, Or.inl h.2⟩

theorem Core.total_lt (c : Core b g) : b.totalHandCount < 4294967296 := by
  have := c.total_le
  have := c.max_le
  omega

theorem Core.live_flag (c : Core b g) {i : ℕ} (h : Live b i) :
    (b.handleArray i).internalFlag = ⟨decide (i ∈ g.batch), false⟩ := by
  by_cases hi : i ∈ g.batch
  · rw [c.batch_flag i hi]
    simp [hi, h.2]
  · rw [(c.plain i h hi).1]
    simp [hi]

theorem Core.batch_busy (c : Core b g) {i : ℕ} (h : i ∈ g.batch) : Busy b g i :=
  ⟨c.batch_lt i h, Or.inr h⟩

theorem Core.batch_nodup (c : Core b g) : g.batch.Nodup := by
  refine c.batch_sorted.imp ?_
  rintro i j h rfl
  exact lt_irrefl _ h

theorem Core.parent_word (c : Core b g) {i : ℕ} (h : Busy b g i) :
    parentHandle (b.handleArray i) = parentWord (g.par i) := c.links.up i h

theorem Core.live_of_parent (c : Core b g) {i p : ℕ} (h : Busy b g i) (hp : g.par i = some p) :
    Live b i := by
  refine ⟨h.1, fun ht => ?_⟩
  have hi : i ∈ g.batch := h.2.resolve_left (fun hn => hn ht)
  have := (c.dead i hi ht).2
  simp [hp] at this

theorem Core.key_eq (c : Core b g) {i : ℕ} {e : Entry} (h : entries b g i = some e) :
    initKey (b.handleArray i).data (b.handleArray i).type (parentIfPrivate (b.handleArray i)) =
      e.key := by
  obtain ⟨hl, hd, ht, hf, hp, -⟩ := entries_eq_some_iff.mp h
  rw [Entry.key, hd, ht, hf, hp, parentIfPrivate, c.parent_word hl.busy]

theorem Pool.count_le (p : Pool b g) : b.freeHandCount ≤ b.totalHandCount := by
  have hsub : g.free ⊆ List.range b.totalHandCount := by
    intro i hi
    exact List.mem_range.mpr ((p.mem i).mp hi).1
  have := (p.nodup.subperm hsub).length_le
  rw [List.length_range] at this
  rw [p.count]
  exact this

/-- The handles are as they were, but the newest ones of the batch may have left it. -/
structure Remains (b : HandleBase) (g : Ghost) (b' : HandleBase) (g' : Ghost) : Prop where
  total_le : b'.totalHandCount ≤ b'.maxIndexPlusOne
  max : b'.maxIndexPlusOne = b.maxIndexPlusOne
  lists : getList b' = getList b
  kids : g'.kids = g.kids
  par : g'.par = g.par
  rank : g'.rank = g.rank
  clock : g'.clock = g.clock
  busy : ∀ i, Busy b' g' i → Busy b g i
  family : ∀ k p, Busy b g k → g.par k = some p → Busy b' g' k ∧ Busy b' g' p
  batch : g'.batch <:+ g.batch
  batched : ∀ i ∈ g'.batch, i < b'.totalHandCount ∧ b'.handleArray i = b.handleArray i
  plain : ∀ i, Live b' i → i ∉ g'.batch →
    (b'.handleArray i).internalFlag = ⟨false, false⟩ ∧ (b'.handleArray i).nextIndexPlusOne = 0

theorem Remains.core {b' : HandleBase} {g' : Ghost} (r : Remains b g b' g') (c : Core b g) :
    Core b' g' := by
  obtain ⟨gone, hgone⟩ := r.batch
  have hmem {i : ℕ} (hi : i ∈ g'.batch) : i ∈ g.batch := r.batch.subset hi
  constructor
  case total_le => exact r.total_le
  case max_le =>
    rw [r.max]
    exact c.max_le
  case links =>
    rw [r.lists, r.kids, r.par]
    refine c.links.restrict _ r.busy (fun k p hk hp => ?_) fun k p _ hk hp => ?_
    · exact (r.family k p (r.busy k hk) hp).2
    · exact (r.family k p hk hp).1
  case older =>
    intro k p hk hp
    rw [r.par] at hp
    rw [r.rank]
    exact c.older k p (r.busy k hk) hp
  case rank_lt =>
    intro i hi
    rw [r.rank, r.clock]
    exact c.rank_lt i (r.busy i hi)
  case batch_lt => exact fun i hi => (r.batched i hi).1
  case batch_next =>
    intro l i t hlt
    rw [(r.batched i (by simp [hlt])).2]
    exact c.batch_next (gone ++ l) i t (by rw [← hgone, hlt, List.append_assoc])
  case batch_sorted =>
    rw [r.rank]
    exact c.batch_sorted.sublist r.batch.sublist
  case batch_flag =>
    intro i hi
    rw [(r.batched i hi).2]
    exact c.batch_flag i (hmem hi)
  case dead =>
    intro i hi ht
    rw [(r.batched i hi).2] at ht
    rw [r.kids, r.par]
    exact c.dead i (hmem hi) ht
  case plain => exact r.plain

theorem Shape.congr {b' : HandleBase} (s : Shape b g) (ha : b'.handleArray = b.handleArray)
    (hc : b'.freeHandCount = b.freeHandCount) (hf : b'.firstFreeIndex = b.firstFreeIndex)
    (hm : b'.maxIndexPlusOne = b.maxIndexPlusOne) (ht : b'.totalHandCount = b.totalHandCount)
    (hl : b'.lastFreeIndexPlusOne = b.lastFreeIndexPlusOne)
    (hp : b'.purgingEnabled = b.purgingEnabled) : Shape b' g := by
  obtain ⟨a, t, c, f, m, n, l, x₁, x₂, x₃, x₄, p, o⟩ := b
  obtain ⟨a', t', c', f', m', n', l', y₁, y₂, y₃, y₄, p', o'⟩ := b'
  subst ha hc hf hm ht hl hp
  have k := s.core
  refine ⟨⟨k.total_le, k.max_le, k.links, k.older, k.rank_lt, k.batch_lt, k.batch_next,
    k.batch_sorted, k.batch_flag, k.dead, k.plain⟩, ⟨s.pool.nodup, s.pool.mem, s.pool.count⟩,
    fun hp => ?_, fun hp hl => ?_⟩
  · have h := s.chain hp
    exact ⟨h.first, h.last, h.chain, h.last_next⟩
  · have h := s.scan hp hl
    exact ⟨h.clean, h.first⟩

theorem entries_congr {b' : HandleBase} (ha : b'.handleArray = b.handleArray)
    (ht : b'.totalHandCount = b.totalHandCount) : entries b' g = entries b g := by
  obtain ⟨a, t, c, f, m, n, l, x₁, x₂, x₃, x₄, p, o⟩ := b
  obtain ⟨a', t', c', f', m', n', l', y₁, y₂, y₃, y₄, p', o'⟩ := b'
  subst ha ht
  rfl

end

theorem getHandleStructure_eq_ok_iff {b : HandleBase} {g : Ghost} (c : Core b g) (h : ℕ)
    (type : HandleType) (i : ℕ) :
    getHandleStructure b h type = .ok i ↔
      h = i + 1 ∧ ∃ e, entries b g i = some e ∧ (type = .none ∨ type = e.type) := by
  have hm := c.max_le
  have hle := c.total_le
  have hidx : handleToIndex h < b.totalHandCount → h = handleToIndex h + 1 := by
    unfold handleToIndex u32Sub
    split <;> intro hlt <;> omega
  unfold getHandleStructure
  dsimp only
  constructor
  · intro hr
    split at hr
    · simp at hr
    · rename_i hv
      simp only [indexIsValid, Bool.not_eq_true', decide_eq_false_iff_not, not_not] at hv
      split at hr
      · simp at hr
      · rename_i hn
        split at hr
        · simp at hr
        · rename_i hty
          obtain rfl : handleToIndex h = i := by simpa using hr
          refine ⟨hidx hv, _, if_pos ⟨hv, hn⟩, ?_⟩
          by_cases h₀ : type = .none
          · exact Or.inl h₀
          · exact Or.inr (by simpa [h₀] using hty)
  · rintro ⟨rfl, e, he, hty⟩
    obtain ⟨hl, -, htype, -⟩ := entries_eq_some_iff.mp he
    have hi : handleToIndex (i + 1) = i := handleToIndex_succ i
    rw [htype] at hty
    rw [hi, if_neg (by simpa [indexIsValid] using hl.1), if_neg hl.2, if_neg]
    rintro ⟨h₁, h₂⟩
    exact hty.elim h₁ h₂

theorem findHandle_eq (b : HandleBase) (data : ℕ) (type : HandleType) (parent : ℕ) :
    findHandle b data type parent =
      (b.hashTab.lookup hashFuncDefault (initKey data type parent)).getD 0 :=
  retrieve_eq

theorem findHandle_eq_iff {b : HandleBase} {m : ℕ → Option Entry} (hh : Hashed b.hashTab m)
    (data : ℕ) (type : HandleType) (parent i : ℕ) :
    findHandle b data type parent = i + 1 ↔
      ∃ e, m i = some e ∧ e.flag.multi = false ∧ e.key = initKey data type parent := by
  have hl := hh.lookup (initKey data type parent) (i + 1)
  rw [findHandle_eq]
  constructor
  · intro hf
    cases hv : b.hashTab.lookup hashFuncDefault (initKey data type parent) with
    | none => simp [hv] at hf
    | some v =>
      rw [hv] at hf hl
      obtain ⟨j, e, hj, hm, hk, hji⟩ := hl.mp (by simpa using hf)
      obtain rfl : i = j := by omega
      exact ⟨e, hj, hm, hk⟩
  · rintro ⟨e, he, hm, hk⟩
    rw [hl.mpr ⟨i, e, he, hm, hk, rfl⟩]
    rfl

theorem findHandle_eq_zero_iff {b : HandleBase} {m : ℕ → Option Entry} (hh : Hashed b.hashTab m)
    (data : ℕ) (type : HandleType) (parent : ℕ) :
    findHandle b data type parent = 0 ↔
      b.hashTab.lookup hashFuncDefault (initKey data type parent) = none := by
  rw [findHandle_eq]
  cases hv : b.hashTab.lookup hashFuncDefault (initKey data type parent) with
  | none => simp
  | some v =>
    obtain ⟨i, e, -, -, -, hvi⟩ := (hh.lookup _ _).mp hv
    simp [hvi]

end PvrServices.Handles
