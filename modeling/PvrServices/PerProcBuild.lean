import PvrServices.PerProcView

set_option autoImplicit false

/-!
# Building a record

The steps that fill a new record. Each of them succeeds and adds to what the record holds, or fails
and adds nothing, so that the clean-up finds a record that it can free.
-/
namespace PvrServices.PerProcesses
open Words HashTable Handles Resman

/-- A state with one record under way, of which nothing is in the view yet. -/
structure Built (v : View) (p : ℕ) (x : PerProc) (s : PerProcs) : Prop where
  view : Represents s (v.add p x)
  apart : Apart v p x

/-- How a step of the way ends: with what it adds, or with a record that can be freed. -/
def Ends (v : View) (p : ℕ) (next : PerProc → Prop) (r : Option (PvrsrvError × PerProcs)) : Prop :=
  ∃ e s, r = some (e, s) ∧ ∃ x, Built v p x s ∧
    ((e = .ok ∧ next x) ∨ (e ≠ .ok ∧ x.resManContext = none))

section
variable {s : PerProcs} {v : View} {p pid : ℕ} {x : PerProc}

theorem Built.ok (b : Built v p x s) {next : PerProc → Prop} (hx : next x) :
    Ends v p next (some (.ok, s)) :=
  ⟨.ok, s, rfl, x, b, .inl ⟨rfl, hx⟩⟩

theorem Built.failed (b : Built v p x s) (hx : x.resManContext = none) {e : PvrsrvError}
    (he : e ≠ .ok) {next : PerProc → Prop} : Ends v p next (some (e, s)) :=
  ⟨e, s, rfl, x, b, .inr ⟨he, hx⟩⟩

theorem Ends.thenDo {next next' : PerProc → Prop} {r : Option (PvrsrvError × PerProcs)}
    (h : Ends v p next r) {f : PerProcs → Option (PvrsrvError × PerProcs)}
    (hf : ∀ x s, Built v p x s → next x → Ends v p next' (f s)) :
    Ends v p next' (r.bind fun r => PerProcesses.thenDo r f) := by
  obtain ⟨e, s, hr, x, hb, hcase⟩ := h
  rw [hr, Option.bind_some]
  cases hcase with
  | inl hok =>
    rw [hok.1]
    exact hf x s hb hok.2
  | inr hfail =>
    have hsame : PerProcesses.thenDo (e, s) f = some (e, s) := by
      unfold PerProcesses.thenDo
      cases e <;> first | rfl | exact absurd rfl hfail.1
    rw [hsame]
    exact hb.failed hfail.2 hfail.1

theorem Built.record (b : Built v p x s) : s.records p = some x := by
  rw [b.view.records]
  exact Function.update_self ..

theorem Built.set (b : Built v p x s) {x' : PerProc} {t : PerProcs}
    (ht : t.records = s.records) (a : Apart v p x')
    (hview : Represents t { v.add p x' with records := (v.add p x).records }) :
    Built v p x' (t.setRecord p x') := by
  refine ⟨⟨hview.hashed, hview.lookup, hview.zero, ?_, hview.osPrivates, hview.bases,
    hview.noHandles, hview.kernel, hview.contexts⟩, a⟩
  change Function.update t.records p (some x') = Function.update v.records p (some x')
  rw [ht, b.view.records]
  exact Function.update_idem ..

theorem Represents.allocRecord (r : Represents s v) (hp : v.records p = none) :
    Built v p ⟨0, 0, none, none, 0, none⟩ (allocRecord s p) := by
  refine ⟨⟨r.hashed, r.lookup, r.zero, ?_, r.osPrivates, r.bases, r.noHandles, r.kernel,
    r.contexts⟩, ⟨hp, ?_, ?_, ?_, ?_, ?_⟩⟩
  · change Function.update s.records p _ = Function.update v.records p _
    rw [r.records]
  all_goals exact fun _ h => by cases h

/-- The record enters the table and learns its process, or neither. -/
theorem Built.insert (b : Built v p ⟨0, 0, none, none, 0, none⟩ s) (hpid : pid ≠ 0)
    (hfree : v.lookup pid = none) {next : PerProc → Prop}
    {f : PerProcs → Option (PvrsrvError × PerProcs)}
    (hf : ∀ s, Built v p ⟨pid, 0, none, none, 0, none⟩ s → Ends v p next (f s)) :
    Ends v p next (thenDo (insertRecord s p pid) fun s =>
      (nameRecord s p pid).bind f) := by
  obtain ⟨inserted, hashTab, os, hins⟩ : ∃ inserted hashTab os,
      hashInsertExtended hashPid s.os s.hashTab pid p = (inserted, hashTab, os) := ⟨_, _, _, rfl⟩
  have hnone : s.hashTab.lookup hashPid pid = none := by
    rw [b.view.lookup]
    exact hfree
  obtain ⟨-, -, hwf, hlookup⟩ := b.view.hashed.insert hnone hins
  rw [b.view.lookup] at hlookup
  unfold insertRecord
  rw [hins]
  cases inserted with
  | false =>
    have hb : Built v p ⟨0, 0, none, none, 0, none⟩
        { s with hashTab := hashTab, os := os } :=
      ⟨⟨hwf, hlookup, b.view.zero, b.view.records, b.view.osPrivates, b.view.bases,
        b.view.noHandles, b.view.kernel, b.view.contexts⟩, b.apart⟩
    exact hb.failed rfl (by decide)
  | true =>
    have hrecord := b.record
    have hname : nameRecord { s with hashTab := hashTab, os := os } p pid =
        some (({ s with hashTab := hashTab, os := os } : PerProcs).setRecord p
          ⟨pid, 0, none, none, 0, none⟩) := by
      unfold nameRecord
      simp only [hrecord, Option.bind_eq_bind, Option.bind_some]
    change Ends v p next ((nameRecord { s with hashTab := hashTab, os := os } p pid).bind f)
    rw [hname, Option.bind_some]
    apply hf
    apply b.set (t := { s with hashTab := hashTab, os := os }) rfl
    · refine ⟨b.apart.record, ?_, ?_, ?_, ?_, ?_⟩
      · intro k hk
        rw [keyOf_of_ne hpid] at hk
        rw [← Option.some.inj hk]
        exact hfree
      all_goals exact fun _ h => by cases h
    · refine ⟨hwf, ?_, ?_, b.view.records, b.view.osPrivates, b.view.bases, b.view.noHandles,
        b.view.kernel, b.view.contexts⟩
      · change hashTab.lookup hashPid = put v.lookup (keyOf pid) (some p)
        rw [keyOf_of_ne hpid]
        exact hlookup
      · change put v.lookup (keyOf pid) (some p) 0 = none
        rw [keyOf_of_ne hpid]
        exact (Function.update_of_ne hpid.symm _ _).trans b.view.zero

theorem Built.osPrivate (b : Built v p ⟨pid, 0, none, none, 0, none⟩ s) {mem : Option ℕ}
    (hmem : ∀ d ∈ mem, v.osPrivates d = false) :
    Ends v p (fun x => ∃ d, mem = some d ∧ x = ⟨pid, 0, some d, none, 0, none⟩)
      (osPerProcessPrivateDataInit s p mem) := by
  cases mem with
  | none => exact b.failed rfl (by decide)
  | some d =>
    have hrecord := b.record
    unfold osPerProcessPrivateDataInit
    simp only [hrecord, Option.bind_eq_bind, Option.bind_some]
    apply Built.ok (x := ⟨pid, 0, some d, none, 0, none⟩) ?_ ⟨d, rfl, rfl⟩
    apply b.set (t := { s with osPrivates := Function.update s.osPrivates d true }) rfl
    · refine ⟨b.apart.record, b.apart.lookup, ?_, ?_, ?_, ?_⟩
      · intro k hk
        exact hmem k hk
      all_goals exact fun _ h => by cases h
    · refine ⟨b.view.hashed, b.view.lookup, b.view.zero, b.view.records, ?_, b.view.bases,
        b.view.noHandles, b.view.kernel, b.view.contexts⟩
      change Function.update s.osPrivates d true = Function.update v.osPrivates d true
      rw [b.view.osPrivates]
      rfl

theorem Built.handle {d : ℕ} (b : Built v p ⟨pid, 0, some d, none, 0, none⟩ s) :
    Ends v p (fun x => ∃ h, h ≠ 0 ∧ x = ⟨pid, 0, some d, none, h, none⟩)
      (allocPerProcHandle s p) := by
  obtain ⟨e, h, k, hr, hcase⟩ := KernelHandles.alloc b.view.kernel p
  have hrecord := b.record
  have hstep : allocPerProcHandle s p = some (e, ({ s with kernelBase := k } : PerProcs).setRecord p
      ⟨pid, 0, some d, none, h, none⟩) := by
    unfold allocPerProcHandle
    simp only [hr, hrecord, Option.bind_eq_bind, Option.bind_some]
  rw [hstep]
  have hview (handles : ℕ → Option ℕ) (hk : KernelHandles k handles) :
      Represents { s with kernelBase := k }
        { v.add p ⟨pid, 0, some d, none, 0, none⟩ with handles := handles } :=
    ⟨b.view.hashed, b.view.lookup, b.view.zero, b.view.records, b.view.osPrivates, b.view.bases,
      b.view.noHandles, hk, b.view.contexts⟩
  cases hcase with
  | inl hfail =>
    obtain ⟨he, hh, hk⟩ := hfail
    rw [hh]
    exact (b.set (t := { s with kernelBase := k }) rfl b.apart (hview _ hk)).failed rfl he
  | inr hok =>
    obtain ⟨he, hne, hfree, hk⟩ := hok
    rw [he]
    apply Built.ok (x := ⟨pid, 0, some d, none, h, none⟩) ?_ ⟨h, hne, rfl⟩
    apply b.set (t := { s with kernelBase := k }) rfl
    · refine ⟨b.apart.record, b.apart.lookup, b.apart.osPrivate, ?_, ?_, ?_⟩
      case refine_2 =>
        intro i hi
        rw [keyOf_of_ne hne] at hi
        rw [← Option.some.inj hi]
        exact hfree
      all_goals exact fun _ h => by cases h
    · have hhandles : (v.add p ⟨pid, 0, some d, none, h, none⟩).handles =
          Function.update v.handles h (some p) := by
        change put v.handles (keyOf h) (some p) = _
        rw [keyOf_of_ne hne]
        rfl
      have hadd := hview _ hk
      refine ⟨hadd.hashed, hadd.lookup, hadd.zero, hadd.records, hadd.osPrivates, hadd.bases,
        hadd.noHandles, ?_, hadd.contexts⟩
      change KernelHandles k (v.add p ⟨pid, 0, some d, none, h, none⟩).handles
      rw [hhandles]
      exact hk

theorem pvrsrvAllocHandleBase_noHandles {os : Os} {junk : ℕ → Handle} {b : HandleBase}
    (h : pvrsrvAllocHandleBase os junk = .ok b) : NoHandles b := by
  unfold pvrsrvAllocHandleBase at h
  split at h
  · cases h
  · split at h
    · cases h
    · rw [← Except.ok.inj h]
      exact ⟨rfl, rfl, rfl⟩

theorem NoHandles.setMaxHandle {b : HandleBase} (h : NoHandles b) (n : ℕ) :
    NoHandles (pvrsrvSetMaxHandle b n).2 := by
  unfold pvrsrvSetMaxHandle
  split
  · exact h
  · split
    · exact h
    · split
      · exact h
      · exact ⟨h.free, h.total, h.batch⟩

theorem Represents.setBase (r : Represents s v) {q : ℕ} {b : HandleBase} (hb : NoHandles b) :
    Represents { s with bases := Function.update s.bases q (some b) }
      { v with bases := Function.update v.bases q true } := by
  refine ⟨r.hashed, r.lookup, r.zero, r.records, r.osPrivates, ?_, ?_, r.kernel, r.contexts⟩
  · intro i
    by_cases hi : i = q
    · rw [hi]
      simp
    · dsimp only
      rw [Function.update_of_ne hi, Function.update_of_ne hi]
      exact r.bases i
  · intro i b' hb'
    by_cases hi : i = q
    · rw [hi] at hb'
      dsimp only at hb'
      rw [Function.update_self] at hb'
      rw [← Option.some.inj hb']
      exact hb
    · dsimp only at hb'
      rw [Function.update_of_ne hi] at hb'
      exact r.noHandles i b' hb'

theorem Built.handleBase {d h : ℕ} (b : Built v p ⟨pid, 0, some d, none, h, none⟩ s)
    {mem : ConnectMem} (hmem : ∀ q ∈ mem.base, v.bases q = false) :
    Ends v p (fun x => ∃ q, mem.base = some q ∧ x = ⟨pid, 0, some d, some q, h, none⟩)
      (allocProcessBase s p mem) := by
  have hrecord := b.record
  unfold allocProcessBase
  cases hq : mem.base with
  | none => exact b.failed rfl (by decide)
  | some q =>
    cases hbase : pvrsrvAllocHandleBase mem.baseOs mem.junk with
    | error e =>
      have he : e ≠ .ok := by
        unfold pvrsrvAllocHandleBase at hbase
        split at hbase
        · rw [← Except.error.inj hbase]
          decide
        · split at hbase
          · rw [← Except.error.inj hbase]
            decide
          · cases hbase
      exact b.failed rfl he
    | ok k =>
      simp only [hrecord, Option.bind_eq_bind, Option.bind_some]
      apply Built.ok (x := ⟨pid, 0, some d, some q, h, none⟩) ?_ ⟨q, rfl, rfl⟩
      apply b.set (t := { s with bases := Function.update s.bases q (some k) }) rfl
      · refine ⟨b.apart.record, b.apart.lookup, b.apart.osPrivate, ?_, b.apart.handle, ?_⟩
        · intro i hi
          apply hmem
          rw [hq]
          exact hi
        · exact fun _ h => by cases h
      · exact b.view.setBase (pvrsrvAllocHandleBase_noHandles hbase)

theorem Built.handleOptions {d h q : ℕ} (b : Built v p ⟨pid, 0, some d, some q, h, none⟩ s) :
    Ends v p (fun x => x = ⟨pid, 0, some d, some q, h, none⟩) (setHandleOptions s p) := by
  have hlive := (b.view.bases q).trans (put_self (f := v.bases) (v := true) (rfl : q ∈ some q))
  obtain ⟨k, hk⟩ := Option.isSome_iff_exists.mp hlive
  have hno := b.view.noHandles q k hk
  have hrecord := b.record
  unfold setHandleOptions
  simp only [hrecord, hk, Option.bind_eq_bind, Option.bind_some]
  have hset := b.view.setBase (q := q) (hno.setMaxHandle maxMmapHandle)
  have hsame : Function.update (v.add p ⟨pid, 0, some d, some q, h, none⟩).bases q true =
      (v.add p ⟨pid, 0, some d, some q, h, none⟩).bases := by
    apply Function.update_eq_self_iff.mpr
    exact (put_self (f := v.bases) (v := true) (rfl : q ∈ some q)).symm
  rw [hsame] at hset
  have hb : Built v p ⟨pid, 0, some d, some q, h, none⟩ _ := ⟨hset, b.apart⟩
  by_cases he : (pvrsrvSetMaxHandle k maxMmapHandle).1 = .ok
  · rw [he]
    exact hb.ok rfl
  · exact hb.failed rfl he

theorem Built.context {d h q : ℕ} (b : Built v p ⟨pid, 0, some d, some q, h, none⟩ s)
    {mem : Option ℕ} (hmem : ∀ c ∈ mem, v.contexts c = none) :
    Ends v p (fun x => ∃ c, mem = some c ∧ x = ⟨pid, 0, some d, some q, h, some c⟩)
      (connectResMan s p mem) := by
  have hrecord := b.record
  unfold connectResMan
  rw [hrecord, Option.bind_eq_bind, Option.bind_some]
  cases mem with
  | none => exact b.failed rfl (by decide)
  | some c =>
    obtain ⟨resman, hr, hk⟩ := b.view.contexts.connect (c := c) (hmem c rfl) p
    simp only [hr]
    apply Built.ok (x := ⟨pid, 0, some d, some q, h, some c⟩) ?_ ⟨c, rfl, rfl⟩
    apply b.set (t := { s with resman := resman }) rfl
    · refine ⟨b.apart.record, b.apart.lookup, b.apart.osPrivate, b.apart.base, b.apart.handle, ?_⟩
      exact hmem
    · exact ⟨b.view.hashed, b.view.lookup, b.view.zero, b.view.records, b.view.osPrivates,
        b.view.bases, b.view.noHandles, b.view.kernel, hk⟩

structure Unused (v : View) (mem : ConnectMem) : Prop where
  record : ∀ p ∈ mem.record, p ≠ 0 ∧ v.records p = none
  osPrivate : ∀ d ∈ mem.osPrivate, v.osPrivates d = false
  base : ∀ q ∈ mem.base, v.bases q = false
  context : ∀ c ∈ mem.context, v.contexts c = none

def Complete (pid : ℕ) (x : PerProc) : Prop :=
  ∃ d q h c, h ≠ 0 ∧ x = ⟨pid, 0, some d, some q, h, some c⟩

theorem Represents.build (r : Represents s v) (hp : v.records p = none) (hpid : pid ≠ 0)
    (hfree : v.lookup pid = none) {mem : ConnectMem} (u : Unused v mem) :
    Ends v p (Complete pid) (buildRecord (PerProcesses.allocRecord s p) p pid mem) := by
  apply (r.allocRecord hp).insert hpid hfree
  intro s b
  apply (b.osPrivate u.osPrivate).thenDo
  intro x s b hx
  obtain ⟨d, -, hx⟩ := hx
  rw [hx] at b
  apply b.handle.thenDo
  intro x s b hx
  obtain ⟨h, hh, hx⟩ := hx
  rw [hx] at b
  apply (b.handleBase u.base).thenDo
  intro x s b hx
  obtain ⟨q, -, hx⟩ := hx
  rw [hx] at b
  apply b.handleOptions.thenDo
  intro x s b hx
  rw [hx] at b
  obtain ⟨e, t, hr, y, hb, hcase⟩ := b.context u.context
  refine ⟨e, t, hr, y, hb, hcase.imp_left fun hok => ⟨hok.1, ?_⟩⟩
  obtain ⟨c, -, hy⟩ := hok.2
  exact ⟨d, q, h, c, hh, hy⟩

end

end PvrServices.PerProcesses
