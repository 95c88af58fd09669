import PvrServices.HandleExtent

set_option autoImplicit false

/-!
# The free entries over whole runs

Out of purging mode the free list stays intact as long as the array never grows while entry 0 is
the first of several free entries. In purging mode the count and the flags agree as long as no
batch is closed that still holds a released handle.
-/
namespace PvrServices.Handles
open Words HashTable LinkedRing Runs

def freeWalk (b : HandleBase) : ℕ → ℕ → List ℕ
  | 0, _ => []
  | n + 1, i => i :: freeWalk b n (freeNext b i)

def freeList (b : HandleBase) : List ℕ := freeWalk b b.freeHandCount b.firstFreeIndex

structure FreeListIntact (b : HandleBase) : Prop where
  nodup : (freeList b).Nodup
  free : ∀ i ∈ freeList b, i < b.totalHandCount ∧ ¬ Live b i
  last : b.lastFreeIndexPlusOne = parentWord (freeList b).getLast?
  ends : ∀ i ∈ (freeList b).getLast?, (b.handleArray i).nextIndexPlusOne = 0

/-- Unless it wraps the block, `AllocHandle` hands out no live handle and writes to none, and not
    behind the array either. -/
def AllocSafe (b : HandleBase) : Prop :=
  ∀ (data : ℕ) (type : LiveType) (flag : AllocFlag) (parent : ℕ), ¬ WrapsBlock b 1 → ∃ e h b',
    allocHandle b data type.1 flag parent = some (e, h, b') ∧ Held b' ∧
    (e = .ok → ∃ i, h = i + 1 ∧ i < b'.totalHandCount ∧ ¬ Live b i) ∧
    ∀ i, Live b i ∨ b'.totalHandCount ≤ i → b'.handleArray i = b.handleArray i

def blankHandle : Handle :=
  ⟨.none, 0, 0, ⟨false, false⟩, ⟨false, false, false⟩, 0, ⟨0, 0, 0⟩, ⟨0, 0, 0⟩⟩

def sampleBase : HandleBase where
  handleArray := fun _ => blankHandle
  blockSize := 0
  hashTab := ⟨fun _ => [], 32, 0, 32⟩
  freeHandCount := 0
  firstFreeIndex := 0
  maxIndexPlusOne := 4294967295
  totalHandCount := 0
  lastFreeIndexPlusOne := 0
  handBatchSize := 0
  totalHandCountPreBatch := 0
  firstBatchIndexPlusOne := 0
  batchHandAllocFailures := 0
  purgingEnabled := false
  os := ⟨fun _ => true, 3⟩

theorem sampleBase_created : Created sampleBase :=
  .alloc (show pvrsrvAllocHandleBase ⟨fun _ => true, 0⟩ (fun _ => blankHandle) = .ok sampleBase
    from rfl)

def samplePurgingBase : HandleBase := { sampleBase with purgingEnabled := true }

theorem samplePurgingBase_created : Created samplePurgingBase :=
  .purging sampleBase_created rfl

def plainFlag : AllocFlag := ⟨false, false, false⟩
def memInfoType : LiveType := ⟨.memInfo, by decide⟩

section
variable {b b₀ : HandleBase} {g : Ghost} {l : List (Op × Answer)}

theorem freeWalk_eq {fl : List ℕ} (hc : fl.IsChain (fun i j => freeNext b i = j)) {i : ℕ}
    (hi : fl ≠ [] → fl.head?.getD 0 = i) : freeWalk b fl.length i = fl := by
  induction fl generalizing i with
  | nil => rfl
  | cons x t ih =>
    obtain rfl : x = i := hi (by simp)
    rw [List.length_cons, freeWalk]
    cases t with
    | nil => rfl
    | cons y t =>
      rw [List.isChain_cons_cons] at hc
      rw [ih hc.2 (fun _ => hc.1.symm)]

theorem FreeChain.freeList_eq (c : FreeChain b g.free) (p : Pool b g) : freeList b = g.free := by
  unfold freeList
  rw [p.count]
  exact freeWalk_eq c.chain (fun _ => c.first.symm)

theorem Inv.freeListIntact (v : Inv b g) (hp : b.purgingEnabled = false) : FreeListIntact b := by
  have c := v.chain hp
  have he := c.freeList_eq v.pool
  refine ⟨?_, ?_, ?_, ?_⟩
  · rw [he]
    exact v.pool.nodup
  · rw [he]
    intro i hi
    have hm := (v.pool.mem i).mp hi
    exact ⟨hm.1, fun h => h.2 hm.2.1⟩
  · rw [he]
    exact c.last
  · rw [he]
    exact c.last_next

theorem Inv.allocSafe (v : Inv b g) (hb : Held b) : AllocSafe b := by
  intro data type flag parent hn
  rcases v.toShape.allocHandle v.batch v.notLost data type.2 flag parent with
    ⟨e, b', g', he, hne, f⟩ | ⟨p, b', g', he, a⟩
  · exact ⟨e, 0, b', he, allocHandle_held hb hn he, fun h => absurd h hne,
      fun i hi => f.array i (hi.imp_left Live.busy)⟩
  · exact ⟨.ok, p + 1, b', he, allocHandle_held hb hn he,
      fun _ => ⟨p, rfl, a.lt, fun h => a.fresh h.busy⟩,
      fun i hi => a.array i (hi.imp_left Live.busy)⟩

theorem Created.inv_run (c : Created b₀) (run : Run step Harmless b₀ l b) :
    (∃ g, Inv b g) ∧ b.purgingEnabled = b₀.purgingEnabled := by
  refine run.invariant (fun b => (∃ g, Inv b g) ∧ b.purgingEnabled = b₀.purgingEnabled)
    ⟨c.inv, rfl⟩ ?_
  rintro s op r t ⟨⟨g, v⟩, hps⟩ hop hs
  obtain ⟨r', t', g', hs', v', hp'⟩ := v.step op hop.overZero hop.overReleased
  rw [hs] at hs'
  obtain ⟨-, rfl⟩ := Prod.mk.inj (Option.some.inj hs')
  exact ⟨⟨g', v'⟩, hp'.trans hps⟩

/-- In every run from a new base in which the array is never grown over entry 0 and never wraps its
    block, every state has its entries in the block and its free list intact, it allocates safely,
    and every further call returns. -/
theorem freeList_over_runs (c : Created b₀) (hp : b₀.purgingEnabled = false)
    (run : Run step Harmless b₀ l b) :
    Held b ∧ FreeListIntact b ∧ AllocSafe b ∧
      ∀ op, Harmless b op → ∃ r b', step b op = some (r, b') := by
  obtain ⟨⟨g, v⟩, hpb⟩ := c.inv_run run
  have hb := c.held_run run
  refine ⟨hb, v.freeListIntact (hpb.trans hp), v.allocSafe hb, fun op hop => ?_⟩
  obtain ⟨r, b', -, hs, -⟩ := v.step op hop.overZero hop.overReleased
  exact ⟨r, b', hs⟩

/-- A tree of two handles is released and its first entry used again. -/
theorem freeList_over_sample : ∃ l b, exec step sampleBase [.alloc 7 memInfoType plainFlag,
      .allocSub 9 memInfoType plainFlag 1, .release 1 .none, .alloc 8 memInfoType plainFlag] =
        some (l, b) ∧
    Held b ∧ FreeListIntact b ∧ AllocSafe b ∧
      ∀ op, Harmless b op → ∃ r b', step b op = some (r, b') := by
  obtain ⟨⟨l, b⟩, h⟩ := Option.isSome_iff_exists.mp
    (show (exec step sampleBase [.alloc 7 memInfoType plainFlag,
      .allocSub 9 memInfoType plainFlag 1, .release 1 .none, .alloc 8 memInfoType plainFlag]).isSome =
        true by decide +kernel)
  exact ⟨l, b, h, freeList_over_runs sampleBase_created rfl
    (run_of_clear h (by decide +kernel))⟩

/-- The second batch does not fit, and entry 0 is the first of 256 free ones. -/
theorem freeList_lost : ∃ l b, exec step sampleBase [.newBatch 1, .releaseBatch, .newBatch 257] =
      some (l, b) ∧
    Run step (fun _ _ => True) sampleBase l b ∧ ¬ (FreeListIntact b ∧ AllocSafe b) := by
  have hrun : (exec step sampleBase [.newBatch 1, .releaseBatch, .newBatch 257]).map
      (fun r => (freeList r.2).all (fun i => i < r.2.totalHandCount)) = some false := by
    decide +kernel
  obtain ⟨⟨l, b⟩, h, hall⟩ := Option.map_eq_some_iff.mp hrun
  refine ⟨l, b, h, Run.of_exec h (fun _ _ _ => trivial), fun hi => ?_⟩
  have : (freeList b).all (fun i => i < b.totalHandCount) = true := by
    rw [List.all_eq_true]
    exact fun i hm => by simpa using (hi.1.free i hm).1
  rw [hall] at this
  simp at this

/-- The entries that the scan of `AllocHandle` takes for free. -/
def scannedFree (b : HandleBase) : List ℕ :=
  (List.range b.totalHandCount).filter (fun i => handleStructIsFree (b.handleArray i))

structure ScanIntact (b : HandleBase) : Prop where
  count : b.freeHandCount = (scannedFree b).length
  finds : ∀ b', ensureFreeHandles b 1 = (.ok, b') → ∃ i, pickFree b' = (i, some i) ∧
    i < b'.totalHandCount ∧ handleStructIsFree (b'.handleArray i) = true
  alloc : AllocSafe b
  purge : ∀ e b', pvrsrvPurgeHandles b = (e, b') → b'.totalHandCount ≤ b.totalHandCount ∧
    ∀ i, b'.totalHandCount ≤ i → i < b.totalHandCount →
      handleStructIsFree (b.handleArray i) = true

theorem Inv.scanIntact (v : Inv b g) (hp : b.purgingEnabled = true) (hb : Held b) :
    ScanIntact b := by
  refine ⟨?_, ?_, v.allocSafe hb, ?_⟩
  · rw [v.pool.count]
    refine List.Perm.length_eq ?_
    refine (List.perm_ext_iff_of_nodup v.pool.nodup (List.nodup_range.filter _)).mpr ?_
    intro i
    rw [v.toShape.mem_free_iff v.notLost hp, List.mem_filter, List.mem_range]
  · intro b' he
    rcases v.toShape.ensureFree v.batch with ⟨e, b₁, he₁, hne, -⟩ | ⟨b₁, g₁, he₁, n, hfree⟩
    · rw [he] at he₁
      exact absurd (Prod.mk.inj he₁).1.symm hne
    · rw [he] at he₁
      obtain rfl := (Prod.mk.inj he₁).2
      have hl := n.lost.trans v.notLost
      obtain ⟨i, hi, hm, -⟩ := n.shape.pickFree hl hfree
      exact ⟨i, hi, (n.shape.mem_free_iff hl (n.frame.purgingEnabled.trans hp) i).mp hm⟩
  · intro e b' he
    obtain ⟨e₁, b₁, g₁, he₁, -, -, -, -, -, hle, hfree⟩ := v.pvrsrvPurgeHandles
    rw [he] at he₁
    obtain rfl := (Prod.mk.inj he₁).2
    exact ⟨hle, hfree⟩

/-- In every run in purging mode in which no batch is closed over a released handle and the array
    never wraps its block, every state has its entries in the block and counts what the scan finds,
    allocates safely and purges free entries only. -/
theorem scan_over_runs (c : Created b₀) (hp : b₀.purgingEnabled = true)
    (run : Run step Harmless b₀ l b) :
    Held b ∧ ScanIntact b ∧ ∀ op, Harmless b op → ∃ r b', step b op = some (r, b') := by
  obtain ⟨⟨g, v⟩, hpb⟩ := c.inv_run run
  have hb := c.held_run run
  refine ⟨hb, v.scanIntact (hpb.trans hp) hb, fun op hop => ?_⟩
  obtain ⟨r, b', -, hs, -⟩ := v.step op hop.overZero hop.overReleased
  exact ⟨r, b', hs⟩

/-- Two handles are released, one of them through its parent, and the array is purged. -/
theorem scan_over_sample : ∃ l b, exec step samplePurgingBase [.alloc 7 memInfoType plainFlag,
      .allocSub 9 memInfoType plainFlag 1, .release 1 .none, .purge] = some (l, b) ∧
    Held b ∧ ScanIntact b ∧ ∀ op, Harmless b op → ∃ r b', step b op = some (r, b') := by
  obtain ⟨⟨l, b⟩, h⟩ := Option.isSome_iff_exists.mp
    (show (exec step samplePurgingBase [.alloc 7 memInfoType plainFlag,
      .allocSub 9 memInfoType plainFlag 1, .release 1 .none, .purge]).isSome = true by
        decide +kernel)
  exact ⟨l, b, h, scan_over_runs samplePurgingBase_created rfl
    (run_of_clear h (by decide +kernel))⟩

/-- The released handle of the batch is counted as free, and the scan never takes it for free. -/
theorem scan_lost : ∃ l b, exec step samplePurgingBase [.newBatch 1,
      .alloc 7 memInfoType plainFlag, .release 1 .none, .commitBatch] = some (l, b) ∧
    Run step (fun _ _ => True) samplePurgingBase l b ∧ ¬ ScanIntact b := by
  have hrun : (exec step samplePurgingBase [.newBatch 1, .alloc 7 memInfoType plainFlag,
      .release 1 .none, .commitBatch]).map
        (fun r => (r.2.freeHandCount, (scannedFree r.2).length)) = some (256, 255) := by
    decide +kernel
  obtain ⟨⟨l, b⟩, h, hc⟩ := Option.map_eq_some_iff.mp hrun
  refine ⟨l, b, h, Run.of_exec h (fun _ _ _ => trivial), fun hi => ?_⟩
  simp only [Prod.mk.injEq] at hc
  have := hi.count
  omega

end
end PvrServices.Handles
