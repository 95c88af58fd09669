import PvrServices.HandleAncestors

set_option autoImplicit false

/-!
# The end of a handle base

The batch that is still open is released first, and the sweep by index then takes each live handle
with the handles below it. Every call of `FreeHandle` is logged.
-/
namespace PvrServices.Handles
open Words HashTable LinkedRing Runs

/-- The entries that the loop of `FreeAllHandles` frees. -/
def sweepFreed : ℕ → HandleBase → ℕ → List ℕ
  | 0, _, _ => []
  | n + 1, b, i =>
    if (b.handleArray i).type ≠ .none then
      freedHandles (freeFuel b) b i ++
        match freeHandle (freeFuel b) b i with
        | some (.ok, b) =>
          if b.freeHandCount = b.totalHandCount then [] else sweepFreed n b (i + 1)
        | _ => []
    else sweepFreed n b (i + 1)

def allFreed (b : HandleBase) : List ℕ :=
  if b.freeHandCount = b.totalHandCount then [] else sweepFreed b.totalHandCount b 0

/-- The entries that `FreeHandleBase` calls `FreeHandle` for, in the order in which the calls end. -/
def freedByBase (b : HandleBase) : List ℕ :=
  if handlesBatched b then
    batchFreed (freeFuel b) b b.firstBatchIndexPlusOne ++
      match pvrsrvReleaseHandleBatch b with
      | none => []
      | some b => allFreed b
  else allFreed b

/-- What holds when `FreeHandleBase` comes to `HASH_Delete`: the base is `b'`, and was `b`. -/
structure TornDown (b : HandleBase) (L : Ledger) (b' : HandleBase) : Prop where
  counted : b'.freeHandCount = b'.totalHandCount
  emptied : b'.hashTab.entries = []
  freed : ∀ h G, L.grant h = some G → (freedByBase b).count (handleToIndex h) = 1
  once : (freedByBase b).Nodup
  /-- The second stage of handles that were released while their batch was open is left. -/
  only : ∀ j ∈ freedByBase b, (∃ G, L.grant (j + 1) = some G) ∨
    (b.handleArray j).internalFlag.partiallyFree = true

section
variable {b b' b₀ : HandleBase} {g g' : Ghost} {L : Ledger} {l : List (Op × Answer)} {i n : ℕ}

theorem Sound.all_free_iff (s : Sound b g) (hb : g.batch = []) :
    b.freeHandCount = b.totalHandCount ↔ ∀ j, ¬Live b j := by
  have hsub : g.free ⊆ List.range b.totalHandCount := fun j hj =>
    List.mem_range.mpr ((s.pool.mem j).mp hj).1
  have hperm := s.pool.nodup.subperm hsub
  rw [s.pool.count]
  constructor
  · intro hlen j hl
    have hall := hperm.perm_of_length_le (by rw [List.length_range, hlen])
    have hfree := hall.mem_iff.mpr (List.mem_range.mpr hl.1)
    exact hl.2 ((s.pool.mem j).mp hfree).2.1
  · intro hno
    have hback : List.range b.totalHandCount ⊆ g.free := by
      intro j hj
      have hlt := List.mem_range.mp hj
      refine (s.pool.mem j).mpr ⟨hlt, ?_, by rw [hb]; exact List.not_mem_nil⟩
      by_contra hne
      exact hno j ⟨hlt, hne⟩
    have hlen := (List.nodup_range.subperm hback).length_le
    rw [List.length_range] at hlen
    exact Nat.le_antisymm (List.length_range (n := b.totalHandCount) ▸ hperm.length_le) hlen

theorem Hashed.entries_nil {t : Table (List ℕ)} {m : ℕ → Option Entry} (hh : Hashed t m)
    (hm : ∀ j, m j = none) : t.entries = [] := by
  refine List.eq_nil_iff_forall_not_mem.mpr fun e he => ?_
  obtain ⟨j, e', hj, -⟩ := (hh.lookup e.1 e.2).mp ((hh.wf.lookup_eq_some_iff e.1 e.2).mpr he)
  rw [hm j] at hj
  cases hj

theorem Released.live_iff {D : List ℕ} (r : Released b g i D b' g') (j : ℕ) :
    Live b' j ↔ Live b j ∧ j ∉ D := by
  have hcontent := r.content j
  rw [← not_iff_not, ← entries_eq_none_iff (g := g'), hcontent]
  by_cases hj : j ∈ D
  · simp [hj]
  · rw [if_neg hj, entries_eq_none_iff]
    simp [hj]

/-- The rest of the sweep: it frees what is live, each entry once. -/
theorem Sound.sweep (s : Sound b g) (hb : g.batch = []) (hn : i + n = b.totalHandCount)
    (hdone : ∀ j < i, ¬Live b j) : ∃ b' g', freeAllLoop n b i = some (.ok, b') ∧ Sound b' g' ∧
      g'.batch = [] ∧ (∀ j, ¬Live b' j) ∧ (sweepFreed n b i).Nodup ∧
      ∀ j, j ∈ sweepFreed n b i ↔ Live b j := by
  induction n generalizing b g i with
  | zero =>
    have hno (j : ℕ) : ¬Live b j := fun hl => hdone j (by have := hl.1; omega) hl
    exact ⟨b, g, rfl, s, hb, hno, .nil, fun j => by simp [sweepFreed, hno j]⟩
  | succ n ih =>
    unfold freeAllLoop sweepFreed
    by_cases htype : (b.handleArray i).type = .none
    · rw [if_neg (not_not.mpr htype), if_neg (not_not.mpr htype)]
      refine ih s hb (by omega) fun j hj => ?_
      cases Nat.lt_succ_iff_lt_or_eq.mp hj with
      | inl hlt => exact hdone j hlt
      | inr heq =>
        rw [heq]
        exact fun hl => hl.2 htype
    · have hi : Live b i := ⟨by omega, htype⟩
      obtain ⟨D, b₁, g₁, hrun, hlog, hnodup, r⟩ := s.release_logged hi
      have hb₁ : g₁.batch = [] := r.batch.trans hb
      rw [if_pos htype, if_pos htype, hrun, hlog]
      dsimp only
      by_cases hall : b₁.freeHandCount = b₁.totalHandCount
      · -- the sweep stops early
        have hno := (r.sound.all_free_iff hb₁).mp hall
        rw [if_pos hall, if_pos hall, List.append_nil]
        refine ⟨b₁, g₁, rfl, r.sound, hb₁, hno, hnodup, fun j => ⟨r.live j, fun hl => ?_⟩⟩
        by_contra hj
        exact hno j ((r.live_iff j).mpr ⟨hl, hj⟩)
      · rw [if_neg hall, if_neg hall]
        have hnext : ∀ j < i + 1, ¬Live b₁ j := by
          intro j hj hl
          have hold := (r.live_iff j).mp hl
          cases Nat.lt_succ_iff_lt_or_eq.mp hj with
          | inl hlt => exact hdone j hlt hold.1
          | inr heq => exact hold.2 (heq ▸ r.subtree.root)
        obtain ⟨b₂, g₂, hloop, s₂, hb₂, hno, hnodup₂, hmem⟩ :=
          ih r.sound hb₁ (by rw [r.base.totalHandCount]; omega) hnext
        refine ⟨b₂, g₂, hloop, s₂, hb₂, hno, ?_, fun j => ?_⟩
        · refine List.nodup_append.mpr ⟨hnodup, hnodup₂, fun j hj k hk heq => ?_⟩
          exact ((r.live_iff k).mp ((hmem k).mp hk)).2 (heq ▸ hj)
        · rw [List.mem_append, hmem, r.live_iff]
          by_cases hj : j ∈ D
          · simp [hj, r.live j hj]
          · simp [hj]

theorem Sound.freeAll (s : Sound b g) (hb : g.batch = []) :
    ∃ b' g', freeAllHandles b = some (.ok, b') ∧ Sound b' g' ∧ g'.batch = [] ∧
      (∀ j, ¬Live b' j) ∧ (allFreed b).Nodup ∧ ∀ j, j ∈ allFreed b ↔ Live b j := by
  unfold freeAllHandles allFreed
  by_cases hall : b.freeHandCount = b.totalHandCount
  · have hno := (s.all_free_iff hb).mp hall
    rw [if_pos hall, if_pos hall]
    exact ⟨b, g, rfl, s, hb, hno, .nil, fun j => by simp [hno j]⟩
  · rw [if_neg hall, if_neg hall]
    exact s.sweep hb (Nat.zero_add _) fun j hj => absurd hj (Nat.not_lt_zero j)

theorem Inv.batchFreed_eq (v : Inv b g) :
    batchFreed (freeFuel b) b b.firstBatchIndexPlusOne = g.batch := by
  obtain ⟨-, -, -, -, -, -, -, -, hlog⟩ := batchLoop_spec false (freeFuel b) b g v.toSound
    (fun _ => v.batch.newer) (length_lt_freeFuel v.core.batch_nodup v.core.batch_lt)
  rw [v.batch.first]
  exact hlog rfl

theorem BatchClosed.live_iff (c : BatchClosed b g false b' g') (j : ℕ) :
    Live b' j ↔ Live b j ∧ j ∉ g.batch := by
  rw [← not_iff_not, ← entries_eq_none_iff (g := g'), c.content j]
  unfold closed
  by_cases hj : j ∈ g.batch
  · simp [hj]
  · simp [hj, entries_eq_none_iff]

theorem Inv.freeHandleBase (v : Inv b g) : ∃ b' g', freeHandleBase b = some (.ok, b') ∧
    Sound b' g' ∧ g'.batch = [] ∧ (∀ j, ¬Live b' j) ∧ (freedByBase b).Nodup ∧
    ∀ j, j ∈ freedByBase b ↔ Live b j ∨ j ∈ g.batch := by
  unfold Handles.freeHandleBase freedByBase
  by_cases hb : handlesBatched b = true
  · rw [if_pos hb, if_pos hb, v.batchFreed_eq]
    obtain ⟨b₁, g₁, hr, c, -⟩ := v.closeBatch false hb
    have hrelease : pvrsrvReleaseHandleBatch b = some b₁ := by
      unfold pvrsrvReleaseHandleBatch
      rw [hr]
      rfl
    rw [hrelease]
    have hnil : g₁.batch = [] := c.batch.closed c.handBatchSize
    obtain ⟨b', g', hrun, s', hnil', hno, hnodup, hmem⟩ := c.sound.freeAll hnil
    refine ⟨b', g', hrun, s', hnil', hno, ?_, fun j => ?_⟩
    · refine List.nodup_append.mpr ⟨v.core.batch_nodup, hnodup, fun j hj k hk heq => ?_⟩
      exact ((c.live_iff k).mp ((hmem k).mp hk)).2 (heq ▸ hj)
    · rw [List.mem_append, hmem, c.live_iff]
      by_cases hj : j ∈ g.batch
      · simp [hj]
      · simp [hj]
  · rw [if_neg hb, if_neg hb]
    have hnil : g.batch = [] := v.batch.closed (by simpa [handlesBatched] using hb)
    obtain ⟨b', g', hrun, s', hnil', hno, hnodup, hmem⟩ := v.toSound.freeAll hnil
    exact ⟨b', g', hrun, s', hnil', hno, hnodup, fun j => by rw [hmem, hnil]; simp⟩

theorem Tracks.tornDown (t : Tracks b g L) :
    ∃ b', freeHandleBase b = some (.ok, b') ∧ TornDown b L b' := by
  obtain ⟨b', g', hrun, s', hnil, hno, hnodup, hmem⟩ := t.inv.freeHandleBase
  refine ⟨b', hrun, (s'.all_free_iff hnil).mpr hno,
    s'.hashed.entries_nil fun j => entries_eq_none_iff.mpr (hno j), fun h G hG => ?_, hnodup,
    fun j hj => ?_⟩
  · rw [t.grant] at hG
    obtain ⟨i, e, rfl, he, -⟩ := grants_eq_some_iff.mp hG
    rw [handleToIndex_succ]
    exact List.count_eq_one_of_mem hnodup ((hmem i).mpr (.inl (entries_eq_some_iff.mp he).1))
  · rw [t.granted_iff]
    by_cases hl : Live b j
    · exact .inl hl
    · have hbatch := ((hmem j).mp hj).resolve_left hl
      have hnone : (b.handleArray j).type = .none := by
        by_contra hne
        exact hl ⟨t.inv.core.batch_lt j hbatch, hne⟩
      right
      rw [t.inv.core.batch_flag j hbatch, hnone]
      rfl

/-- After every run that never grows the array over entry 0 or out of its block and never closes a
    batch over a released handle, every entry lies in the block and `FreeHandleBase` ends, frees each
    live handle once and leaves nothing in the hash table and no entry in use. -/
theorem tornDown_over_runs (c : Created b₀) (run : Run step Harmless b₀ l b) :
    Held b ∧ ∃ b', freeHandleBase b = some (.ok, b') ∧ TornDown b (ledger l) b' := by
  obtain ⟨g, t⟩ := c.tracks_run run
  exact ⟨c.held_run run, t.tornDown⟩

def openBatchOps : List Op :=
  [.alloc 7 memInfoType plainFlag, .allocSub 8 memInfoType plainFlag 1, .newBatch 2,
    .allocSub 9 memInfoType plainFlag 2, .alloc 10 memInfoType plainFlag, .release 3 .none]

theorem tornDown_over_sample : ∃ l b, exec step sampleBase openBatchOps = some (l, b) ∧
    freedByBase b = [3, 2, 1, 0] ∧ Held b ∧
    ∃ b', freeHandleBase b = some (.ok, b') ∧ TornDown b (ledger l) b' := by
  have hrun : (exec step sampleBase openBatchOps).map (fun r => freedByBase r.2) =
      some [3, 2, 1, 0] := by
    decide +kernel
  obtain ⟨⟨l, b⟩, h, hfreed⟩ := Option.map_eq_some_iff.mp hrun
  exact ⟨l, b, h, hfreed, tornDown_over_runs sampleBase_created
    (run_of_clear h (by decide +kernel))⟩

def strayOps : List Op :=
  [.setMaxHandle 257, .newBatch 1, .releaseBatch, .newBatch 257, .releaseBatch,
    .alloc 7 memInfoType plainFlag, .alloc 9 memInfoType plainFlag]

theorem tornDown_lost : ∃ l b b', exec step sampleBase strayOps = some (l, b) ∧
    Run step (fun _ _ => True) sampleBase l b ∧ freeHandleBase b = some (.ok, b') ∧
    (∃ G, (ledger l).grant 258 = some G) ∧ handleToIndex 258 ∉ freedByBase b ∧
    b'.freeHandCount = 256 ∧ b'.totalHandCount = 257 ∧ b'.hashTab.entries ≠ [] := by
  have hrun : ((exec step sampleBase strayOps).bind fun r =>
      (freeHandleBase r.2).map fun e => (r.1.map Prod.snd, freedByBase r.2, e.1,
        e.2.freeHandCount, e.2.totalHandCount, e.2.hashTab.entries.map Prod.snd)) =
      some ([(.ok, 0), (.ok, 0), (.ok, 0), (.ok, 0), (.ok, 0), (.ok, 257), (.ok, 258)],
        [256], .ok, 256, 257, [258]) := by
    decide +kernel
  obtain ⟨⟨l, b⟩, h, hfree⟩ := Option.bind_eq_some_iff.mp hrun
  obtain ⟨⟨e, b'⟩, hb', he⟩ := Option.map_eq_some_iff.mp hfree
  simp only [Prod.mk.injEq] at he
  obtain ⟨hans, hfreed, rfl, hcount, htotal, hentries⟩ := he
  have hl := exec_zip h
  rw [hans] at hl
  refine ⟨l, b, b', h, Run.of_exec h fun _ _ _ => trivial, hb', ?_, ?_, hcount, htotal, ?_⟩
  · rw [hl]
    exact ⟨⟨9, .memInfo, plainFlag, none, false⟩, rfl⟩
  · rw [hfreed]
    decide +kernel
  · intro hnil
    rw [hnil] at hentries
    cases hentries

end
end PvrServices.Handles
