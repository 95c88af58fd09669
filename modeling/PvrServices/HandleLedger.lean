import PvrServices.HandleSafety

set_option autoImplicit false

/-!
# What handles stand for

A ledger is kept from the calls and their answers alone: what each handle was allocated for, by
the most recent allocation that handed it out, until it or one of its ancestors is released or
its batch is. The base agrees with the ledger in every state of a run.
-/
namespace PvrServices.Handles
open Words HashTable LinkedRing Runs

structure Grant where
  data : ℕ
  type : HandleType
  flag : AllocFlag
  parent : Option ℕ
  inBatch : Bool

structure Ledger where
  grant : ℕ → Option Grant
  batchOpen : Bool
  /-- Allocations that failed in the open batch. -/
  failed : ℕ

namespace Ledger

def empty : Ledger := ⟨fun _ => none, false, 0⟩

/-- The second of two allocations shares the handle of the first. -/
def Shares (old new : Grant) : Prop :=
  old.data = new.data ∧ old.type = new.type ∧ old.flag.shared = true ∧ new.flag.shared = true

instance (old new : Grant) : Decidable (Shares old new) := inferInstanceAs (Decidable (_ ∧ _))

def allocate (L : Ledger) (h : ℕ) (new : Grant) : Ledger :=
  match L.grant h with
  | none => { L with grant := Function.update L.grant h (some new) }
  | some old =>
    if Shares old new then L else { L with grant := Function.update L.grant h (some new) }

def fail (L : Ledger) : Ledger := if L.batchOpen then { L with failed := L.failed + 1 } else L

/-- The handle itself and the handles allocated below it. -/
inductive Below (L : Ledger) (h : ℕ) : ℕ → Prop where
  | self : Below L h h
  | child {x p : ℕ} {e : Grant} (he : L.grant x = some e) (hp : e.parent = some p)
      (hb : Below L h p) : Below L h x

open Classical in
noncomputable def release (L : Ledger) (h : ℕ) : Ledger :=
  { L with grant := fun x => if Below L h x then none else L.grant x }

def close (L : Ledger) (keep : Bool) : Ledger where
  grant h := (L.grant h).bind (fun e =>
    if e.inBatch = true ∧ keep = false then none else some { e with inBatch := false })
  batchOpen := false
  failed := 0

/-- Whether a commit keeps the batch; the failures are counted in a 32-bit word. -/
def keeps (L : Ledger) : Bool := u32 L.failed == 0

noncomputable def record (L : Ledger) : Op × Answer → Ledger
  | (.alloc data type flag, (.ok, h)) => L.allocate h ⟨data, type.1, flag, none, L.batchOpen⟩
  | (.alloc .., _) => L.fail
  | (.allocSub data type flag parent, (.ok, h)) =>
    L.allocate h ⟨data, type.1, flag, some parent, L.batchOpen⟩
  | (.allocSub .., _) => L.fail
  | (.release h _, (.ok, _)) => L.release h
  | (.lookupAndRelease h _, (.ok, _)) => L.release h
  | (.newBatch _, (.ok, _)) => { L with batchOpen := true }
  | (.commitBatch, (.ok, _)) => L.close L.keeps
  | (.releaseBatch, _) => if L.batchOpen then L.close false else L
  | _ => L

end Ledger

noncomputable def ledger (l : List (Op × Answer)) : Ledger := l.foldl Ledger.record .empty

def Entry.grant (e : Entry) : Grant :=
  ⟨e.data, e.type, e.flag, e.parent.map (· + 1), e.inBatch⟩

def grants (m : ℕ → Option Entry) : ℕ → Option Grant
  | 0 => none
  | i + 1 => (m i).map Entry.grant

structure Tracks (b : HandleBase) (g : Ghost) (L : Ledger) : Prop where
  inv : Inv b g
  grant : L.grant = grants (entries b g)
  batchOpen : L.batchOpen = handlesBatched b
  failed : b.batchHandAllocFailures = u32 L.failed

section
variable {b b' : HandleBase} {g g' : Ghost} {L : Ledger}

theorem grants_eq_some_iff {m : ℕ → Option Entry} {h : ℕ} {G : Grant} :
    grants m h = some G ↔ ∃ i e, h = i + 1 ∧ m i = some e ∧ e.grant = G := by
  cases h with
  | zero => simp [grants]
  | succ i => simp [grants]

theorem u32_succ_u32 (n : ℕ) : u32 (u32 n + 1) = u32 (n + 1) := by
  simp only [u32_eq_mod]
  omega

theorem handlesBatched_congr (h : b'.handBatchSize = b.handBatchSize) :
    handlesBatched b' = handlesBatched b := by
  simp only [handlesBatched, h]

theorem Tracks.failures_succ (t : Tracks b g L) :
    (addBatchFailure b).batchHandAllocFailures = u32 L.fail.failed := by
  rw [addBatchFailure_eq]
  unfold Ledger.fail
  rw [t.batchOpen]
  dsimp only
  split
  · rw [t.failed, u32_succ_u32]
  · exact t.failed

theorem AllocCall.fresh_or_shares {e : Entry} {err : PvrsrvError} {h : ℕ}
    (a : AllocCall b g e err h b' g') (ht : L.grant = grants (entries b g)) (herr : err = .ok) :
    L.grant h = none ∨ ∃ old, L.grant h = some old ∧ Ledger.Shares old e.grant := by
  rw [ht]
  obtain ⟨_, ho, _⟩ := a
  cases ho with
  | failed hne _ => exact absurd herr hne
  | @shared i e₀ he hd hty hold hnew _ _ =>
    exact Or.inr ⟨e₀.grant, by simp [grants, he], hd, hty, hold, hnew⟩
  | @fresh i hi _ =>
    refine Or.inl ?_
    simp only [grants, Option.map_eq_none_iff, entries_eq_none_iff]
    exact fun hl => hi hl.busy

theorem Tracks.alloc (t : Tracks b g L) {e : Entry} {err : PvrsrvError} {h : ℕ}
    (a : AllocCall b g e err h b' g') :
    Tracks b' g' (if err = .ok then L.allocate h e.grant else L.fail) := by
  have hbatch := handlesBatched_congr a.handBatchSize
  have hfail := a.failures
  obtain ⟨v, ho, -, -, -⟩ := a
  cases ho with
  | failed hne hsame =>
    rw [if_neg hne]
    rw [if_neg hne, t.failures_succ] at hfail
    refine ⟨v, ?_, ?_, hfail⟩
    · rw [show entries b' g' = entries b g from funext hsame, ← t.grant]
      unfold Ledger.fail
      split <;> rfl
    · rw [hbatch, ← t.batchOpen]
      unfold Ledger.fail
      split <;> rfl
  | @shared i e₀ he hd hty hold hnew _ hsame =>
    rw [if_pos rfl] at hfail ⊢
    have hg : L.grant (i + 1) = some e₀.grant := by simp [t.grant, grants, he]
    have hL : L.allocate (i + 1) e.grant = L := by
      unfold Ledger.allocate
      rw [hg]
      exact if_pos ⟨hd, hty, hold, hnew⟩
    rw [hL]
    refine ⟨v, ?_, t.batchOpen.trans hbatch.symm, hfail.trans t.failed⟩
    rw [show entries b' g' = entries b g from funext hsame, t.grant]
  | @fresh i hi hupd =>
    rw [if_pos rfl] at hfail ⊢
    have hnone : entries b g i = none := entries_eq_none_iff.mpr (fun hl => hi hl.busy)
    have hg : L.grant (i + 1) = none := by simp [t.grant, grants, hnone]
    have hL : L.allocate (i + 1) e.grant =
        { L with grant := Function.update L.grant (i + 1) (some e.grant) } := by
      unfold Ledger.allocate
      rw [hg]
    rw [hL]
    refine ⟨v, ?_, t.batchOpen.trans hbatch.symm, hfail.trans t.failed⟩
    funext x
    change Function.update L.grant (i + 1) (some e.grant) x = _
    cases x with
    | zero =>
      rw [Function.update_of_ne (Nat.succ_ne_zero i).symm, t.grant]
      rfl
    | succ j =>
      change _ = (entries b' g' j).map Entry.grant
      rw [hupd]
      by_cases hj : j = i
      · subst hj
        rw [Function.update_self, if_pos rfl]
        rfl
      · rw [Function.update_of_ne (by omega), if_neg hj, t.grant]
        rfl

theorem Released.below_iff {i : ℕ} {D : List ℕ} (r : Released b g i D b' g') (v : Inv b g)
    (ht : L.grant = grants (entries b g)) (x : ℕ) :
    L.Below (i + 1) x ↔ ∃ j ∈ D, x = j + 1 := by
  constructor
  · intro h
    induction h with
    | self => exact ⟨i, r.subtree.root, rfl⟩
    | @child x p G he hp _ ih =>
      obtain ⟨p', hp', rfl⟩ := ih
      rw [ht] at he
      obtain ⟨j, e, rfl, hj, rfl⟩ := grants_eq_some_iff.mp he
      have hpar : e.parent = some p' := by
        simp only [Entry.grant, Option.map_eq_some_iff] at hp
        obtain ⟨q, hq, hqp⟩ := hp
        rw [hq, Nat.succ.inj hqp]
      obtain ⟨hl, -, -, -, hpe, -⟩ := entries_eq_some_iff.mp hj
      exact ⟨j, r.subtree.down j p' hl.busy (by rw [← hpe, hpar]) hp', rfl⟩
  · rintro ⟨j, hj, rfl⟩
    -- a parent is older than its child
    suffices ∀ n, ∀ j ∈ D, g.rank j = n → L.Below (i + 1) (j + 1) from this _ j hj rfl
    intro n
    induction n using Nat.strong_induction_on with
    | _ n ih =>
      intro j hj hn
      rcases r.subtree.up j hj with rfl | ⟨p, hp, hjp⟩
      · exact .self
      · have hlt := v.core.older j p (r.subtree.sub j hj) hjp
        have hb := ih (g.rank p) (by omega) p hp rfl
        obtain ⟨e, he, hpe⟩ : ∃ e, entries b g j = some e ∧ e.parent = g.par j :=
          ⟨_, if_pos (r.live j hj), rfl⟩
        have hg : L.grant (j + 1) = some e.grant := by
          rw [ht]
          exact congrArg (Option.map Entry.grant) he
        exact .child hg (by simp [Entry.grant, hpe, hjp]) hb

theorem Tracks.release (t : Tracks b g L) {h : ℕ} {type : HandleType} {err : PvrsrvError}
    (r : ReleaseCall b g h type err b' g') :
    Tracks b' g' (if err = .ok then L.release h else L) := by
  cases r with
  | refused _ =>
    rw [if_neg (by simp)]
    exact t
  | @released i D b' g' hr inv r =>
    obtain ⟨rfl, -⟩ := (getHandleStructure_eq_ok_iff t.inv.core _ _ _).mp hr
    rw [if_pos rfl]
    refine ⟨inv, ?_, t.batchOpen.trans (handlesBatched_congr r.base.handBatchSize).symm,
      r.base.batchHandAllocFailures.trans t.failed⟩
    funext x
    unfold Ledger.release
    dsimp only
    rw [r.below_iff t.inv t.grant, t.grant]
    cases x with
    | zero => simp [grants]
    | succ j =>
      simp only [grants, r.content, Nat.add_right_cancel_iff, exists_eq_right']
      split <;> rfl

theorem grants_closed (m : ℕ → Option Entry) (hm : ∀ i e, m i = some e → (e.inBatch = true ↔ i ∈ g.batch))
    (keep : Bool) (h : ℕ) : grants (closed g keep m) h = (grants m h).bind (fun e =>
      if e.inBatch = true ∧ keep = false then none else some { e with inBatch := false }) := by
  cases h with
  | zero => rfl
  | succ i =>
    simp only [grants, closed]
    cases he : m i with
    | none => simp
    | some e =>
      have hb := hm i e he
      rw [Option.map_some, Option.map_some, Option.bind_some]
      have hg : e.grant.inBatch = e.inBatch := rfl
      by_cases hc : keep = false ∧ i ∈ g.batch
      · rw [if_pos hc, hg, if_pos ⟨hb.mpr hc.2, hc.1⟩]
        rfl
      · rw [if_neg hc, hg, if_neg (fun h => hc ⟨h.2, hb.mp h.1⟩)]
        rfl

theorem BatchClosed.tracks (t : Tracks b g L) {commit : Bool} (c : BatchClosed b g commit b' g')
    (v : Inv b' g') : Tracks b' g' (L.close (commit && L.keeps)) := by
  have hkeep : (commit && b.batchHandAllocFailures == 0) = (commit && L.keeps) := by
    rw [t.failed]
    rfl
  refine ⟨v, ?_, ?_, ?_⟩
  · rw [show entries b' g' = closed g (commit && L.keeps) (entries b g) by
      rw [← hkeep]
      exact funext c.content]
    funext h
    rw [grants_closed _ (fun i e he => by simp [(entries_eq_some_iff.mp he).2.2.2.2.2]), ← t.grant]
    rfl
  · simp [handlesBatched, c.handBatchSize, Ledger.close]
  · rw [c.batchHandAllocFailures]
    exact (u32_of_lt (Nat.zero_lt_succ _)).symm

theorem Tracks.step (t : Tracks b g L) (op : Op) (h₁ : ¬ GrowsOverEntryZero b op)
    (h₂ : ¬ ClosesOverReleased b op) {r : Answer} (hs : Handles.step b op = some (r, b')) :
    ∃ g', Tracks b' g' (L.record (op, r)) := by
  have v := t.inv
  cases op with
  | alloc data type flag =>
    obtain ⟨e, h, b₁, g₁, hr, a⟩ := v.pvrsrvAllocHandle data type.2 flag
    simp only [Handles.step, hr, Option.map_some, Option.some.injEq, Prod.mk.injEq] at hs
    obtain ⟨rfl, rfl⟩ := hs
    refine ⟨g₁, ?_⟩
    have ht := t.alloc a
    rw [← t.batchOpen] at ht
    cases e <;> exact ht
  | allocSub data type flag parent =>
    obtain ⟨e, h, b₁, g₁, hr, a, hpar⟩ := v.pvrsrvAllocSubHandle data type.2 flag parent
    simp only [Handles.step, hr, Option.map_some, Option.some.injEq, Prod.mk.injEq] at hs
    obtain ⟨rfl, rfl⟩ := hs
    refine ⟨g₁, ?_⟩
    have ht := t.alloc a
    rw [← t.batchOpen] at ht
    cases e with
    | ok =>
      obtain ⟨q, -, rfl, -⟩ := hpar rfl
      rw [handleToIndex_succ] at ht
      exact ht
    | _ => exact ht
  | release h type =>
    obtain ⟨e, b₁, g₁, hr, rc⟩ := v.pvrsrvReleaseHandle h type
    simp only [Handles.step, hr, Option.map_some, Option.some.injEq, Prod.mk.injEq] at hs
    obtain ⟨rfl, rfl⟩ := hs
    refine ⟨g₁, ?_⟩
    have ht := t.release rc
    cases e <;> exact ht
  | lookupAndRelease h type =>
    obtain ⟨e, d, b₁, g₁, hr, rc, -⟩ := v.pvrsrvLookupAndReleaseHandle h type
    simp only [Handles.step, hr, Option.map_some, Option.some.injEq, Prod.mk.injEq] at hs
    obtain ⟨rfl, rfl⟩ := hs
    refine ⟨g₁, ?_⟩
    have ht := t.release rc
    cases e <;> exact ht
  | newBatch size =>
    obtain ⟨e, b₁, g₁, hr, hi, hent, -, hf, hb⟩ := v.pvrsrvNewHandleBatch size h₁
    simp only [Handles.step, hr, Option.some.injEq, Prod.mk.injEq] at hs
    obtain ⟨rfl, rfl⟩ := hs
    refine ⟨g₁, ?_⟩
    have hg : L.grant = grants (entries b₁ g₁) := by
      rw [show entries b₁ g₁ = entries b g from funext hent]
      exact t.grant
    have hfail := hf.trans t.failed
    cases e with
    | ok =>
      rw [if_pos rfl] at hb
      exact ⟨hi, hg, by simp [Ledger.record, handlesBatched, hb.2], hfail⟩
    | _ =>
      rw [if_neg (by simp)] at hb
      exact ⟨hi, hg, t.batchOpen.trans (handlesBatched_congr hb).symm, hfail⟩
  | commitBatch =>
    simp only [Handles.step, pvrsrvCommitHandleBatch] at hs
    by_cases hb : handlesBatched b = true
    · obtain ⟨b₁, g₁, hr, c, hinv⟩ := v.closeBatch true hb
      simp only [hr, Option.map_some, Option.some.injEq, Prod.mk.injEq] at hs
      obtain ⟨rfl, rfl⟩ := hs
      exact ⟨g₁, c.tracks t (hinv (clean_of_not_closesOverReleased (Or.inl rfl) hb h₂))⟩
    · simp only [pvrsrvHandleBatchCommitOrRelease, hb, Bool.not_false, ↓reduceIte, Option.map_some,
        Option.some.injEq, Prod.mk.injEq] at hs
      obtain ⟨rfl, rfl⟩ := hs
      exact ⟨g, t⟩
  | releaseBatch =>
    simp only [Handles.step, pvrsrvReleaseHandleBatch] at hs
    by_cases hb : handlesBatched b = true
    · obtain ⟨b₁, g₁, hr, c, hinv⟩ := v.closeBatch false hb
      simp only [hr, Option.map_some, Option.some.injEq, Prod.mk.injEq] at hs
      obtain ⟨rfl, rfl⟩ := hs
      refine ⟨g₁, ?_⟩
      simp only [Ledger.record, t.batchOpen, hb, ↓reduceIte]
      exact c.tracks t (hinv (clean_of_not_closesOverReleased (Or.inr rfl) hb h₂))
    · simp only [pvrsrvHandleBatchCommitOrRelease, hb, Bool.not_false, ↓reduceIte, Option.map_some,
        Option.some.injEq, Prod.mk.injEq] at hs
      obtain ⟨rfl, rfl⟩ := hs
      refine ⟨g, ?_⟩
      simp only [Ledger.record, t.batchOpen, hb, Bool.false_eq_true, ↓reduceIte]
      exact t
  | setMaxHandle n =>
    obtain ⟨e, b₁, hr, hi, hent, -, hb, hf⟩ := v.pvrsrvSetMaxHandle n
    simp only [Handles.step, hr, Option.some.injEq, Prod.mk.injEq] at hs
    obtain ⟨rfl, rfl⟩ := hs
    refine ⟨g, hi, ?_, t.batchOpen.trans (handlesBatched_congr hb).symm, hf.trans t.failed⟩
    rw [show entries b₁ g = entries b g from funext hent]
    exact t.grant
  | purge =>
    obtain ⟨e, b₁, g₁, hr, hi, hent, -, hb, hf, -⟩ := v.pvrsrvPurgeHandles
    simp only [Handles.step, hr, Option.some.injEq, Prod.mk.injEq] at hs
    obtain ⟨rfl, rfl⟩ := hs
    refine ⟨g₁, hi, ?_, t.batchOpen.trans (handlesBatched_congr hb).symm, hf.trans t.failed⟩
    rw [show entries b₁ g₁ = entries b g from funext hent]
    exact t.grant

end
end PvrServices.Handles
