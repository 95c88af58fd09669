import PvrServices.HandleContract
import Mathlib.Order.WellFounded
import Mathlib.Data.Finset.Card

set_option autoImplicit false

/-!
# The ancestors of a handle

The parents of live handles are live and older than their children, so the walk of
`PVRSRVLookupSubHandle` ends at a root.
-/
namespace PvrServices.Handles
open Words HashTable LinkedRing Runs

def Ledger.IsParent (L : Ledger) (p h : ℕ) : Prop := ∃ G, L.grant h = some G ∧ G.parent = some p

def Ledger.ProperAncestor (L : Ledger) (a h : ℕ) : Prop := ∃ p, L.IsParent p h ∧ L.Below a p

section
variable {b b₀ : HandleBase} {g : Ghost} {L : Ledger} {l : List (Op × Answer)} {i p a fuel : ℕ}

theorem Core.live_parent (c : Core b g) (hi : Live b i) (hp : g.par i = some p) : Live b p := by
  have hbusy := c.links.parent_mem i p hi.busy hp
  refine ⟨hbusy.1, fun hnone => ?_⟩
  have hbatch : p ∈ g.batch := hbusy.2.resolve_left fun hne => hne hnone
  have hkid : i ∈ g.kids p := (c.links.mem p i hbusy).mpr ⟨hi.busy, hp⟩
  rw [(c.dead p hbatch hnone).1] at hkid
  exact absurd hkid List.not_mem_nil

theorem Tracks.isParent_iff (t : Tracks b g L) {h : ℕ} : L.IsParent a h ↔
    ∃ i p, h = i + 1 ∧ a = p + 1 ∧ Live b i ∧ g.par i = some p := by
  unfold Ledger.IsParent
  rw [t.grant]
  constructor
  · rintro ⟨G, hG, hpar⟩
    obtain ⟨i, e, rfl, he, rfl⟩ := grants_eq_some_iff.mp hG
    obtain ⟨hl, -, -, -, hp, -⟩ := entries_eq_some_iff.mp he
    obtain ⟨p, hep, rfl⟩ := Option.map_eq_some_iff.mp hpar
    exact ⟨i, p, rfl, rfl, hl, hp.symm.trans hep⟩
  · rintro ⟨i, p, rfl, rfl, hl, hp⟩
    refine ⟨_, congrArg (Option.map Entry.grant) (if_pos hl), ?_⟩
    simp [Entry.grant, hp]

theorem Tracks.granted_iff (t : Tracks b g L) : (∃ G, L.grant (i + 1) = some G) ↔ Live b i := by
  rw [t.grant]
  constructor
  · rintro ⟨G, hG⟩
    obtain ⟨j, e, hj, he, -⟩ := grants_eq_some_iff.mp hG
    rw [Nat.succ.inj hj]
    exact (entries_eq_some_iff.mp he).1
  · exact fun hl => ⟨_, congrArg (Option.map Entry.grant) (if_pos hl)⟩

theorem Tracks.parent_granted (t : Tracks b g L) {h : ℕ} (hp : L.IsParent a h) :
    ∃ G, L.grant a = some G := by
  obtain ⟨i, p, -, rfl, hl, hpar⟩ := t.isParent_iff.mp hp
  exact t.granted_iff.mpr (t.inv.core.live_parent hl hpar)

theorem Tracks.isParent_wellFounded (t : Tracks b g L) : WellFounded L.IsParent := by
  refine Subrelation.wf (fun {a h} hp => ?_) (measure fun h => g.rank (h - 1)).wf
  obtain ⟨i, p, rfl, rfl, hl, hpar⟩ := t.isParent_iff.mp hp
  exact t.inv.core.older i p hl.busy hpar

def olderThan (b : HandleBase) (g : Ghost) (i : ℕ) : Finset ℕ :=
  (Finset.range b.totalHandCount).filter fun j => g.rank j < g.rank i

theorem Core.older_card (c : Core b g) (hi : Live b i) (hp : g.par i = some p) :
    (olderThan b g p).card < (olderThan b g i).card := by
  have hlt := c.older i p hi.busy hp
  refine Finset.card_lt_card ⟨fun j hj => ?_, fun hsub => ?_⟩
  · have hj' := Finset.mem_filter.mp hj
    exact Finset.mem_filter.mpr ⟨hj'.1, hj'.2.trans hlt⟩
  · have hrange := Finset.mem_range.mpr (c.live_parent hi hp).1
    have hself := hsub (Finset.mem_filter.mpr ⟨hrange, hlt⟩)
    exact lt_irrefl _ (Finset.mem_filter.mp hself).2

theorem older_card_lt (hi : Live b i) : (olderThan b g i).card < b.totalHandCount := by
  calc
    (olderThan b g i).card < (Finset.range b.totalHandCount).card := by
      refine Finset.card_lt_card (Finset.filter_ssubset.mpr ⟨i, Finset.mem_range.mpr hi.1, ?_⟩)
      exact lt_irrefl _
    _ = b.totalHandCount := Finset.card_range _

theorem getHandleStructure_zero (c : Core b g) (type : HandleType) :
    ∃ e, getHandleStructure b 0 type = .error e := by
  cases hget : getHandleStructure b 0 type with
  | error e => exact ⟨e, rfl⟩
  | ok i => exact absurd ((getHandleStructure_eq_ok_iff c 0 type i).mp hget).1 (Nat.succ_ne_zero i).symm

theorem Tracks.properAncestor_root (t : Tracks b g L) (hp : g.par i = none) :
    ¬L.ProperAncestor a (i + 1) := by
  rintro ⟨p, hpar, -⟩
  obtain ⟨j, q, hj, -, -, hq⟩ := t.isParent_iff.mp hpar
  rw [← Nat.succ.inj hj, hp] at hq
  cases hq

theorem Ledger.below_iff {x : ℕ} : L.Below a x ↔ a = x ∨ L.ProperAncestor a x := by
  constructor
  · intro hb
    cases hb with
    | self => exact .inl rfl
    | child he hp hb => exact .inr ⟨_, ⟨_, he, hp⟩, hb⟩
  · rintro (rfl | ⟨p, ⟨G, hG, hp⟩, hb⟩)
    · exact .self
    · exact .child hG hp hb

theorem Tracks.properAncestor_child (t : Tracks b g L) (hi : Live b i) (hp : g.par i = some p) :
    L.ProperAncestor a (i + 1) ↔ a = p + 1 ∨ L.ProperAncestor a (p + 1) := by
  rw [← Ledger.below_iff]
  constructor
  · rintro ⟨q, hpar, hb⟩
    obtain ⟨j, q', hj, rfl, -, hq⟩ := t.isParent_iff.mp hpar
    rw [← Nat.succ.inj hj, hp] at hq
    rwa [Option.some.inj hq]
  · exact fun hb => ⟨p + 1, t.isParent_iff.mpr ⟨i, p, rfl, rfl, hi, hp⟩, hb⟩

theorem ancestorLoop_found (h : parentHandle (b.handleArray i) = a) :
    ancestorLoop b a (fuel + 1) i = some (.ok ()) := if_pos h

theorem ancestorLoop_lost {e : PvrsrvError} (hne : parentHandle (b.handleArray i) ≠ a)
    (he : getHandleStructure b (parentHandle (b.handleArray i)) .none = .error e) :
    ancestorLoop b a (fuel + 1) i = some (.error .errorGeneric) := by
  rw [ancestorLoop, if_neg hne, he]

theorem ancestorLoop_up (hne : parentHandle (b.handleArray i) ≠ a)
    (hp : getHandleStructure b (parentHandle (b.handleArray i)) .none = .ok p) :
    ancestorLoop b a (fuel + 1) i = ancestorLoop b a fuel p := by
  rw [ancestorLoop, if_neg hne, hp]

/-- The walk from a live entry ends, and finds the ancestors of its handle. -/
theorem Tracks.ancestorLoop (t : Tracks b g L) (hi : Live b i)
    (hfuel : (olderThan b g i).card < fuel) :
    (a = 0 ∨ L.ProperAncestor a (i + 1) → ancestorLoop b a fuel i = some (.ok ())) ∧
    (¬(a = 0 ∨ L.ProperAncestor a (i + 1)) →
      ancestorLoop b a fuel i = some (.error .errorGeneric)) := by
  have c := t.inv.core
  induction fuel generalizing i with
  | zero => omega
  | succ fuel ih =>
    have hword := c.parent_word hi.busy
    cases hp : g.par i with
    | none =>
      rw [hp] at hword
      obtain ⟨e, he⟩ := getHandleStructure_zero c .none
      rw [← show parentWord none = 0 from rfl, ← hword] at he
      have hno := t.properAncestor_root (a := a) hp
      constructor
      · exact fun h => ancestorLoop_found (hword.trans (h.resolve_right hno).symm)
      · exact fun h => ancestorLoop_lost (fun ha => h (.inl (ha.symm.trans hword))) he
    | some p =>
      rw [hp] at hword
      have hlive := c.live_parent hi hp
      have hget : getHandleStructure b (parentHandle (b.handleArray i)) .none = .ok p := by
        rw [hword]
        exact (getHandleStructure_eq_ok_iff c (p + 1) .none p).mpr
          ⟨rfl, _, if_pos hlive, .inl rfl⟩
      have hcard := c.older_card hi hp
      rw [t.properAncestor_child hi hp]
      by_cases ha : a = p + 1
      · constructor
        · exact fun _ => ancestorLoop_found (hword.trans ha.symm)
        · exact fun h => absurd (.inr (.inl ha)) h
      · rw [ancestorLoop_up (fun h => ha (h.symm.trans hword)) hget]
        simp only [ha, false_or]
        exact ih hlive (by omega)

theorem Tracks.lookupSubHandle (t : Tracks b g L) (h : ℕ) (type : LiveType) (a : ℕ) :
    ∃ r, (∀ fuel, b.totalHandCount ≤ fuel → pvrsrvLookupSubHandle fuel b h type.1 a = some r) ∧
      ∀ d, r = .ok d ↔ ∃ G, L.grant h = some G ∧ G.type = type.1 ∧ G.data = d ∧
        (a = 0 ∨ L.ProperAncestor a h) := by
  have c := t.inv.core
  have hlookup := pvrsrvLookupHandle_eq_ok_iff c h type.2
  unfold pvrsrvLookupHandle at hlookup
  unfold pvrsrvLookupSubHandle
  rw [← t.grant] at hlookup
  cases hget : getHandleStructure b h type.1 with
  | error e =>
    rw [hget] at hlookup
    refine ⟨.error e, fun _ _ => rfl, fun d => ⟨nofun, ?_⟩⟩
    rintro ⟨G, hG, htype, hdata, -⟩
    exact nomatch (hlookup d).mpr ⟨G, hG, htype, hdata⟩
  | ok i =>
    simp only [hget, Except.ok.injEq] at hlookup
    obtain ⟨rfl, e, he, -⟩ := (getHandleStructure_eq_ok_iff c h type.1 i).mp hget
    have hl := (entries_eq_some_iff.mp he).1
    have hcard := older_card_lt (g := g) hl
    by_cases ha : a = 0 ∨ L.ProperAncestor a (i + 1)
    · refine ⟨.ok (b.handleArray i).data, fun fuel hfuel => ?_, fun d => ?_⟩
      · simp only [(t.ancestorLoop hl (Nat.lt_of_lt_of_le hcard hfuel)).1 ha]
      · rw [Except.ok.injEq, hlookup]
        exact exists_congr fun G => by simp only [ha, and_true]
    · refine ⟨.error .errorGeneric, fun fuel hfuel => ?_, fun d => ⟨nofun, ?_⟩⟩
      · simp only [(t.ancestorLoop hl (Nat.lt_of_lt_of_le hcard hfuel)).2 ha]
      · rintro ⟨G, -, -, -, hanc⟩
        exact absurd hanc ha

/-- In every run that never grows the array over entry 0 or out of its block and never closes a batch
    over a released handle, the entries lie in the block, parents are live, every chain of parents
    ends, and the walk of `PVRSRVLookupSubHandle` ends and finds the live handles below an ancestor. -/
theorem subHandles_over_runs (c : Created b₀) (run : Run step Harmless b₀ l b) :
    Held b ∧ (∀ p h, (ledger l).IsParent p h → ∃ G, (ledger l).grant p = some G) ∧
    WellFounded (ledger l).IsParent ∧
    ∀ (h : ℕ) (type : LiveType) (a : ℕ), ∃ r,
      (∀ fuel, b.totalHandCount ≤ fuel → pvrsrvLookupSubHandle fuel b h type.1 a = some r) ∧
      ∀ d, r = .ok d ↔ ∃ G, (ledger l).grant h = some G ∧ G.type = type.1 ∧ G.data = d ∧
        (a = 0 ∨ (ledger l).ProperAncestor a h) := by
  obtain ⟨g, t⟩ := c.tracks_run run
  exact ⟨c.held_run run, fun _ _ => t.parent_granted, t.isParent_wellFounded, t.lookupSubHandle⟩

/-- A subhandle of a subhandle. -/
theorem subHandles_over_sample : ∃ l b, exec step sampleBase
      [.alloc 7 memInfoType plainFlag, .allocSub 8 memInfoType plainFlag 1,
        .allocSub 9 memInfoType plainFlag 2] = some (l, b) ∧ Held b ∧
    (∀ p h, (ledger l).IsParent p h → ∃ G, (ledger l).grant p = some G) ∧
    WellFounded (ledger l).IsParent ∧
    ∀ (h : ℕ) (type : LiveType) (a : ℕ), ∃ r,
      (∀ fuel, b.totalHandCount ≤ fuel → pvrsrvLookupSubHandle fuel b h type.1 a = some r) ∧
      ∀ d, r = .ok d ↔ ∃ G, (ledger l).grant h = some G ∧ G.type = type.1 ∧ G.data = d ∧
        (a = 0 ∨ (ledger l).ProperAncestor a h) := by
  obtain ⟨⟨l, b⟩, h⟩ := Option.isSome_iff_exists.mp
    (show (exec step sampleBase
      [.alloc 7 memInfoType plainFlag, .allocSub 8 memInfoType plainFlag 1,
        .allocSub 9 memInfoType plainFlag 2]).isSome = true by decide +kernel)
  exact ⟨l, b, h, subHandles_over_runs sampleBase_created (run_of_clear h (by decide +kernel))⟩

def overrunOps : List Op :=
  [.setMaxHandle 257, .newBatch 1, .releaseBatch, .newBatch 257, .releaseBatch,
    .alloc 7 memInfoType plainFlag, .allocSub 9 memInfoType plainFlag 257]

theorem overrun_lost : ∃ l b, exec step sampleBase overrunOps = some (l, b) ∧
    Run step (fun _ _ => True) sampleBase l b ∧
    (∃ G, (ledger l).grant 258 = some G ∧ G.type = .memInfo ∧ G.data = 9) ∧
    (ledger l).ProperAncestor 257 258 ∧
    pvrsrvLookupSubHandle (freeFuel b) b 258 .memInfo 257 = some (.error .errorGeneric) := by
  have hrun : (exec step sampleBase overrunOps).map (fun r => (r.1.map Prod.snd,
      pvrsrvLookupSubHandle (freeFuel r.2) r.2 258 .memInfo 257 ==
        some (.error .errorGeneric))) =
      some ([(.ok, 0), (.ok, 0), (.ok, 0), (.ok, 0), (.ok, 0), (.ok, 257), (.ok, 258)], true) := by
    decide +kernel
  obtain ⟨⟨l, b⟩, h, hr⟩ := Option.map_eq_some_iff.mp hrun
  obtain ⟨hans, hlookup⟩ := Prod.mk.inj hr
  have hl := exec_zip h
  rw [hans] at hl
  have hgrant : (ledger l).grant 258 = some ⟨9, .memInfo, plainFlag, some 257, false⟩ := by
    rw [hl]
    rfl
  exact ⟨l, b, h, Run.of_exec h fun _ _ _ => trivial, ⟨_, hgrant, rfl, rfl⟩,
    ⟨257, ⟨_, hgrant, rfl⟩, .self⟩, by simpa using hlookup⟩

end
end PvrServices.Handles
