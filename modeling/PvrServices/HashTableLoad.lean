import PvrServices.HashTableRuns

set_option autoImplicit false

/-!
# The load of a hash table

While all allocations succeed the number of chains is in proportion to that of the buckets.
-/
namespace PvrServices.HashTable.Keys
open Words Chains Runs
variable {κ : Type} {keys : Keys κ} {s t : State κ} {m : κ → Option ℕ} {initialLen n : ℕ}
  {h : Table κ} {os : Os} {r : Reply} {k : κ} {x : ℕ}

structure Loaded (initialLen : ℕ) (s : State κ) : Prop where
  granted : ∀ k, s.os.grants k = true
  few : 8 * s.table.count ≤ 4294967296
  sparse : 2 * s.table.count ≤ s.table.size
  compact : s.table.size ≤ max initialLen (4 * s.table.count + 4)

theorem Loaded.resize (hash : κ → ℕ) (hos : ∀ k, os.grants k = true) (hn : 0 < n)
    (hfew : 8 * h.count ≤ 4294967296) (hsparse : 2 * h.count ≤ n)
    (hcompact : n ≤ max initialLen (4 * h.count + 4)) :
    Loaded initialLen ⟨(resize hash os h n).1, (resize hash os h n).2⟩ := by
  unfold HashTable.resize
  split
  · rename_i heq
    rw [heq] at hsparse hcompact
    exact ⟨hos, hfew, hsparse, hcompact⟩
  · simp only [osAllocMem, hos, rehash_eq (Nat.ne_of_gt hn)]
    exact ⟨hos, hfew, hsparse, hcompact⟩

theorem Loaded.insert (v : Loaded initialLen s) (kept : Kept keys initialLen s m)
    (allowed : keys.Allowed s (.insert k x)) (hs : keys.step s (.insert k x) = some (r, t)) :
    Loaded initialLen t := by
  have hfits := allowed.2 (v.granted _)
  have hpos := kept.placed.size_pos
  have hnum : 8 * s.table.entries.length ≤ (8 + keys.uKeySize) * s.table.entries.length :=
    Nat.mul_le_mul_right _ (Nat.le_add_right _ _)
  unfold bytes at hfits
  rw [← kept.placed.count_eq] at hfits hnum
  obtain ⟨hgrants, -, hsparse, hcompact⟩ := v
  have hc : u32 (s.table.count + 1) = s.table.count + 1 := u32_of_lt (by omega)
  simp only [Keys.step, hashInsertExtended, osAllocMem, hgrants, chainInsert, Nat.ne_of_gt hpos,
    ↓reduceIte, hc, Nat.shiftLeft_eq, Option.some.injEq, Prod.mk.injEq] at hs
  rw [u32_of_lt (n := s.table.size * 2 ^ 1) (by omega),
    u32_of_lt (n := (s.table.count + 1) * 2 ^ 1) (by omega)] at hs
  rw [← hs.2]
  split
  · exact .resize _ hgrants (by omega) (by dsimp only; omega) (by dsimp only; omega)
      (by dsimp only; omega)
  · exact ⟨hgrants, by dsimp only; omega, by dsimp only; omega, by dsimp only; omega⟩

theorem Loaded.remove (v : Loaded initialLen s) (kept : Kept keys initialLen s m)
    (agree : keys.Agree) (hs : keys.step s (.remove k) = some (r, t)) : Loaded initialLen t := by
  simp only [Keys.step, hashRemoveExtended, Option.some.injEq, Prod.mk.injEq] at hs
  rw [← hs.2]
  obtain ⟨hgrants, hfew, hsparse, hcompact⟩ := v
  have hmin := kept.placed.minimumSize_pos
  have hinit := kept.minimumSize
  split
  · exact ⟨hgrants, hfew, hsparse, hcompact⟩
  · rename_i e hfind
    have hlength : 1 ≤ s.table.count := by
      rw [kept.placed.count_eq]
      exact List.length_pos_of_mem (kept.placed.find?_eq_some agree hfind).1
    simp only [u32Sub_of_le hlength, Nat.shiftLeft_eq, Nat.shiftRight_eq_div_pow]
    rw [u32_of_lt (by omega)]
    split
    · exact .resize _ hgrants (by omega) (by dsimp only; omega) (by dsimp only; omega)
        (by dsimp only; omega)
    · exact ⟨hgrants, by dsimp only; omega, by dsimp only; omega, by dsimp only; omega⟩

/-- While all allocations succeed there are at least two chains for each bucket, and at most four
    and another four unless the table is as short as it was created. -/
theorem load_over_runs (agree : keys.Agree) {s₀ : State κ} {log : List (Op κ × Reply)}
    (c : Created initialLen s₀) (hgrants : ∀ k, s₀.os.grants k = true)
    (run : Run keys.step keys.Allowed s₀ log s) : 2 * s.table.entries.length ≤ s.table.size ∧
      s.table.size ≤ max initialLen (4 * s.table.entries.length + 4) := by
  have hstart : Loaded initialLen s₀ := by
    obtain ⟨os, hos⟩ := c.created
    unfold hashCreateExtended osAllocMem at hos
    have htable : s₀.table = ⟨fun _ => [], initialLen, 0, initialLen⟩ := by
      cases hfirst : os.grants os.calls <;> cases hsecond : os.grants (os.calls + 1) <;>
        simp [hfirst, hsecond] at hos
      exact hos.1.symm
    refine ⟨hgrants, by simp [htable], by simp [htable], ?_⟩
    rw [htable]
    exact Nat.le_max_left initialLen 4
  have hboth := run.ledger (fun s m => Kept keys initialLen s m ∧ Loaded initialLen s) keys.record
    (fun _ => none) ⟨c.kept, hstart⟩ fun s m op r t hv hallowed hs => by
      refine ⟨(hv.1.step agree hallowed hs).1, ?_⟩
      cases op with
      | insert k x => exact hv.2.insert hv.1 hallowed hs
      | remove k => exact hv.2.remove hv.1 agree hs
      | retrieve k =>
        cases hs
        exact hv.2
  rw [← hboth.1.placed.count_eq]
  exact ⟨hboth.2.sparse, hboth.2.compact⟩

theorem load_over_sample : ∃ log s,
    exec firstWordKeys.step ⟨⟨fun _ => [], 1, 0, 1⟩, ⟨fun _ => true, 2⟩⟩ sampleOps = some (log, s) ∧
      2 * s.table.entries.length ≤ s.table.size := by
  obtain ⟨⟨log, s⟩, h⟩ := Option.isSome_iff_exists.mp
    (show (exec firstWordKeys.step ⟨⟨fun _ => [], 1, 0, 1⟩, ⟨fun _ => true, 2⟩⟩
      sampleOps).isSome = true by decide +kernel)
  exact ⟨log, s, h, (load_over_runs firstWordKeys_agree
    ⟨Nat.le_refl 1, by decide, ⟨fun _ => true, 0⟩, rfl⟩ (fun _ => rfl)
    (Run.of_allowed h (by decide +kernel))).1⟩

end PvrServices.HashTable.Keys
