import PvrServices.ArenaFreeTable
import Mathlib.Data.List.Perm.Subperm

set_option autoImplicit false

/-! Splicing tags into the segment list and taking them out. -/
namespace PvrServices.Arenas
open Words HashTable LinkedRing

section
variable {a a' : RaArena} {segs l r : List Seg} {s : Seg} {bins : ℕ → List ℕ} {out : List ℕ}
  {p q x : ℕ}

structure SegmentWrites (a a' : RaArena) : Prop where
  rest_eq : rest a' = rest a
  headFree : a'.headFree = a.headFree
  toTag : ∀ p, (a'.tags p).toTag = (a.tags p).toTag
  nextFree : ∀ p, (a'.tags p).nextFree = (a.tags p).nextFree
  prevFree : ∀ p, (a'.tags p).prevFree = (a.tags p).prevFree

theorem SegmentWrites.trans {b c : RaArena} (f : SegmentWrites a b) (g : SegmentWrites b c) :
    SegmentWrites a c :=
  ⟨g.rest_eq.trans f.rest_eq, g.headFree.trans f.headFree,
    fun p => (g.toTag p).trans (f.toTag p), fun p => (g.nextFree p).trans (f.nextFree p),
    fun p => (g.prevFree p).trans (f.prevFree p)⟩

theorem SegmentWrites.modify {f : Bt → Bt} (h : ∀ b, (f b).toTag = b.toTag ∧
    (f b).nextFree = b.nextFree ∧ (f b).prevFree = b.prevFree) :
    SegmentWrites a (modifyTag a p f) := by
  refine ⟨rfl, rfl, fun q => ?_, fun q => ?_, fun q => ?_⟩
  all_goals by_cases hq : q = p
  · rw [hq, modifyTag_self, (h _).1]
  · rw [modifyTag_ne f hq]
  · rw [hq, modifyTag_self, (h _).2.1]
  · rw [modifyTag_ne f hq]
  · rw [hq, modifyTag_self, (h _).2.2]
  · rw [modifyTag_ne f hq]

theorem segmentWrites_setNextSegment : SegmentWrites a (setNextSegment a p q) := by
  unfold setNextSegment
  split
  · exact ⟨rfl, rfl, fun _ => rfl, fun _ => rfl, fun _ => rfl⟩
  · exact .modify fun _ => ⟨rfl, rfl, rfl⟩

theorem segmentWrites_setPrevSegment : SegmentWrites a (setPrevSegment a p q) := by
  unfold setPrevSegment
  split
  · exact ⟨rfl, rfl, fun _ => rfl, fun _ => rfl, fun _ => rfl⟩
  · exact .modify fun _ => ⟨rfl, rfl, rfl⟩

theorem SegmentWrites.binned (f : SegmentWrites a a') (b : Binned a segs bins out) :
    Binned a' segs bins out :=
  b.congr f.headFree (fun s _ => f.nextFree s.ref) (fun s _ => f.prevFree s.ref)

theorem SegmentWrites.seg_eq (f : SegmentWrites a a') : seg a' p = seg a p := by
  rw [seg, f.toTag, seg]

theorem nextOf_of_ne (h : p ≠ 0) : nextOf a p = (a.tags p).nextSegment := if_neg h

theorem prevOf_of_ne (h : p ≠ 0) : prevOf a p = (a.tags p).prevSegment := if_neg h

theorem nextOf_setNextSegment :
    nextOf (setNextSegment a p q) x = if x = p then q else nextOf a x := by
  unfold setNextSegment nextOf
  by_cases hp : p = 0
  · by_cases hx : x = 0 <;> simp [hp, hx]
  · by_cases hx : x = p
    · simp [hp, hx, modifyTag_self]
    · rw [if_neg hp, modifyTag_ne _ hx, if_neg hx]
      rfl

theorem prevOf_setNextSegment : prevOf (setNextSegment a p q) x = prevOf a x := by
  unfold setNextSegment prevOf
  by_cases hp : p = 0
  · rw [if_pos hp]
  · rw [if_neg hp]
    by_cases hx : x = p
    · rw [hx, modifyTag_self]
      rfl
    · rw [modifyTag_ne _ hx]
      rfl

theorem prevOf_setPrevSegment :
    prevOf (setPrevSegment a p q) x = if x = p then q else prevOf a x := by
  unfold setPrevSegment prevOf
  by_cases hp : p = 0
  · by_cases hx : x = 0 <;> simp [hp, hx]
  · by_cases hx : x = p
    · simp [hp, hx, modifyTag_self]
    · rw [if_neg hp, modifyTag_ne _ hx, if_neg hx]
      rfl

theorem nextOf_setPrevSegment : nextOf (setPrevSegment a p q) x = nextOf a x := by
  unfold setPrevSegment nextOf
  by_cases hp : p = 0
  · rw [if_pos hp]
  · rw [if_neg hp]
    by_cases hx : x = p
    · rw [hx, modifyTag_self]
      rfl
    · rw [modifyTag_ne _ hx]
      rfl

theorem mem_without (hl : s.ref ∈ out ∨ s.type = .span) {t : Seg} (ho : t.ref ∉ out)
    (ht : t.type ≠ .span) : t ∈ l ++ s :: r ↔ t ∈ l ++ r := by
  have hne : t ≠ s := by
    rintro rfl
    exact hl.elim ho ht
  simp [hne]

theorem segmentListRemove_linked (v : Linked a (l ++ s :: r) bins out)
    (hl : s.ref ∈ out ∨ s.type = .span) :
    Linked (segmentListRemove a s.ref) (l ++ r) bins out ∧
      SegmentWrites a (segmentListRemove a s.ref) := by
  have hs : s ∈ l ++ s :: r := by simp
  have hs0 := v.listed.ref_ne_zero hs
  have ring := v.listed.order
  rw [List.map_append, List.map_cons] at ring
  have hpne : s.ref ≠ prevOf a s.ref := by
    intro h
    have hn := ring.prev_cell.2
    rw [← h] at hn
    exact ring.next_ne (by simp) hn
  have heq : segmentListRemove a s.ref =
      setPrevSegment (setNextSegment a (prevOf a s.ref) (nextOf a s.ref)) (nextOf a s.ref)
        (prevOf a s.ref) := by
    unfold segmentListRemove
    dsimp only
    rw [← nextOf_of_ne hs0, ← prevOf_of_ne hs0, ← nextOf_of_ne hs0, ← prevOf_of_ne hs0,
      nextOf_setNextSegment, if_neg hpne, prevOf_setNextSegment]
  have hw : SegmentWrites a (segmentListRemove a s.ref) :=
    segmentWrites_setNextSegment.trans segmentWrites_setPrevSegment
  refine ⟨⟨⟨?_, ?_, ?_, ?_⟩, ?_, ?_⟩, hw⟩
  · intro t ht
    rw [hw.seg_eq]
    exact v.listed.seg_eq t (by simp at ht ⊢; tauto)
  · rw [List.map_append]
    refine ring.remove (fun x _ => ?_) (fun x _ => ?_)
    · rw [heq, nextOf_setPrevSegment, nextOf_setNextSegment]
    · rw [heq, prevOf_setPrevSegment, prevOf_setNextSegment]
  · rw [nextTag_of_rest hw.rest_eq]
    exact fun t ht => v.listed.lt t (by simp at ht ⊢; tauto)
  · rw [nextTag_of_rest hw.rest_eq]
    exact v.listed.nextTag_pos
  · refine (hw.binned v.binned).relist fun t ho ht => mem_without hl ho ?_
    simp [ht]
  · rw [segmentHash_of_rest hw.rest_eq]
    refine v.hashed.relist fun t ho ht => mem_without hl ho ?_
    simp [ht]

/-- A tag to be spliced in: not in the list yet, and in hand or a span marker. -/
structure Splice (a : RaArena) (segs : List Seg) (out : List ℕ) (q : ℕ) : Prop where
  ne_zero : q ≠ 0
  lt : q < a.nextTag
  fresh : ∀ s ∈ segs, s.ref ≠ q
  held : q ∈ out ∨ (seg a q).type = .span

theorem Linked.splice (v : Linked a (l ++ r) bins out) (w : Splice a (l ++ r) out q)
    (hw : SegmentWrites a a') {p : ℕ} (hp : (0 :: l.map Seg.ref).getLast? = some p)
    (hnp : nextOf a' p = q) (hnq : nextOf a' q = nextOf a p) (hpq : prevOf a' q = p)
    (hpn : prevOf a' (nextOf a p) = q)
    (hn : ∀ x ∈ 0 :: (l ++ r).map Seg.ref, x ≠ p → nextOf a' x = nextOf a x)
    (hpr : ∀ x ∈ 0 :: (l ++ r).map Seg.ref, x ≠ nextOf a p → prevOf a' x = prevOf a x) :
    Linked a' (l ++ seg a q :: r) bins out := by
  have hset : ∀ t, t ∈ l ++ seg a q :: r ↔ t = seg a q ∨ t ∈ l ++ r := by
    intro t
    simp only [List.mem_append, List.mem_cons]
    tauto
  refine ⟨⟨?_, ?_, ?_, ?_⟩, ?_, ?_⟩
  · intro t ht
    rw [hw.seg_eq]
    rcases (hset t).mp ht with rfl | ht
    · rfl
    · exact v.listed.seg_eq t ht
  · have ring := v.listed.order
    rw [List.map_append] at ring hn hpr
    rw [List.map_append, List.map_cons]
    refine ring.insert ?_ hp hnp hnq hpq hpn hn hpr
    rw [← List.map_append, List.mem_cons, List.mem_map]
    rintro (h | ⟨t, ht, hq⟩)
    · exact w.ne_zero h
    · exact w.fresh t ht hq
  · rw [nextTag_of_rest hw.rest_eq]
    intro t ht
    rcases (hset t).mp ht with rfl | ht
    · exact w.lt
    · exact v.listed.lt t ht
  · rw [nextTag_of_rest hw.rest_eq]
    exact v.listed.nextTag_pos
  · refine (hw.binned v.binned).relist fun t ho ht => (mem_without w.held ho ?_).symm
    simp [ht]
  · rw [segmentHash_of_rest hw.rest_eq]
    refine v.hashed.relist fun t ho ht => (mem_without w.held ho ?_).symm
    simp [ht]

theorem segmentListInsertAfter_linked (v : Linked a (l ++ s :: r) bins out)
    (w : Splice a (l ++ s :: r) out q) :
    Linked (segmentListInsertAfter a s.ref q) (l ++ s :: seg a q :: r) bins out ∧
      SegmentWrites a (segmentListInsertAfter a s.ref q) := by
  have hs : s ∈ l ++ s :: r := by simp
  have hs0 := v.listed.ref_ne_zero hs
  have hsq : s.ref ≠ q := w.fresh s hs
  have ring := v.listed.order
  have hmem : ∀ x ∈ 0 :: (l ++ s :: r).map Seg.ref, x ≠ q := by
    intro x hx
    rcases List.mem_cons.mp hx with rfl | hx
    · exact w.ne_zero.symm
    · obtain ⟨t, ht, rfl⟩ := List.mem_map.mp hx
      exact w.fresh t ht
  have hnext := nextOf_of_ne (a := a) hs0
  have hnm : nextOf a s.ref ∈ 0 :: (l ++ s :: r).map Seg.ref :=
    ring.next_mem (List.mem_cons_of_mem _ (List.mem_map_of_mem hs))
  set b := modifyTag a q fun t => { t with
    nextSegment := (a.tags s.ref).nextSegment
    prevSegment := s.ref } with hb
  have hbn : ∀ x, nextOf b x = if x = q then nextOf a s.ref else nextOf a x := by
    intro x
    by_cases hx : x = q
    · rw [if_pos hx, hx, nextOf, if_neg w.ne_zero, hb, modifyTag_self, hnext]
    · rw [if_neg hx, nextOf, hb, modifyTag_ne _ hx]
      rfl
  have hbp : ∀ x, prevOf b x = if x = q then s.ref else prevOf a x := by
    intro x
    by_cases hx : x = q
    · rw [if_pos hx, hx, prevOf, if_neg w.ne_zero, hb, modifyTag_self]
    · rw [if_neg hx, prevOf, hb, modifyTag_ne _ hx]
      rfl
  have heq : segmentListInsertAfter a s.ref q =
      setNextSegment (setPrevSegment b (nextOf a s.ref) q) s.ref q := by
    unfold segmentListInsertAfter
    rw [← hb, setNextSegment, if_neg hs0]
    dsimp only
    rw [show (b.tags s.ref).nextSegment = nextOf a s.ref by
      rw [hb, modifyTag_ne _ hsq, hnext]]
  have hw : SegmentWrites a (segmentListInsertAfter a s.ref q) := by
    rw [heq]
    refine SegmentWrites.trans (b := b) (SegmentWrites.modify ?_)
      (segmentWrites_setPrevSegment.trans segmentWrites_setNextSegment)
    exact fun _ => ⟨rfl, rfl, rfl⟩
  have hn : ∀ x, nextOf (segmentListInsertAfter a s.ref q) x =
      if x = s.ref then q else if x = q then nextOf a s.ref else nextOf a x := by
    intro x
    rw [heq, nextOf_setNextSegment, nextOf_setPrevSegment, hbn]
  have hp : ∀ x, prevOf (segmentListInsertAfter a s.ref q) x =
      if x = nextOf a s.ref then q else if x = q then s.ref else prevOf a x := by
    intro x
    rw [heq, prevOf_setNextSegment, prevOf_setPrevSegment, hbp]
  have hcons : ∀ t : List Seg, l ++ s :: t = (l ++ [s]) ++ t := by simp
  refine ⟨?_, hw⟩
  rw [hcons] at v w ⊢
  refine v.splice w hw (p := s.ref) ?_ ?_ ?_ ?_ ?_ ?_ ?_
  · rw [List.getLast?_cons]
    simp
  · rw [hn, if_pos rfl]
  · rw [hn, if_neg hsq.symm, if_pos rfl]
  · rw [hp, if_neg (hmem _ hnm).symm, if_pos rfl]
  · rw [hp, if_pos rfl]
  · intro x hx hxs
    rw [← hcons] at hx
    rw [hn, if_neg hxs, if_neg (hmem x hx)]
  · intro x hx hxn
    rw [← hcons] at hx
    rw [hp, if_neg hxn, if_neg (hmem x hx)]

theorem Listed.length_lt (v : Listed a segs) : segs.length < a.nextTag := by
  have hnd : (0 :: segs.map Seg.ref).Nodup := v.order.nodup
  have hsub : 0 :: segs.map Seg.ref ⊆ List.range a.nextTag := by
    intro x hx
    rw [List.mem_range]
    rcases List.mem_cons.mp hx with rfl | hx
    · exact v.nextTag_pos
    · obtain ⟨t, ht, rfl⟩ := List.mem_map.mp hx
      exact v.lt t ht
  have hle := (hnd.subperm hsub).length_le
  simp at hle
  omega

theorem Listed.head_eq (v : Listed a (s :: r)) : a.headSegment = s.ref := by
  change nextOf a 0 = s.ref
  simpa using v.order.next_sentinel.symm

theorem Listed.next_eq {t : Seg} (v : Listed a (l ++ s :: t :: r)) :
    (a.tags s.ref).nextSegment = t.ref := by
  have ring := v.order
  rw [List.map_append, List.map_cons, List.map_cons] at ring
  have h := ring.next_cell.1
  rw [nextOf_of_ne (v.ref_ne_zero (by simp))] at h
  simpa using h.symm

theorem Listed.next_eq_zero (v : Listed a (l ++ [s])) : (a.tags s.ref).nextSegment = 0 := by
  have ring := v.order
  rw [List.map_append, List.map_cons, List.map_nil] at ring
  have h := ring.next_cell.1
  rw [nextOf_of_ne (v.ref_ne_zero (by simp))] at h
  simpa using h.symm

theorem Listed.prev_eq {t : Seg} (v : Listed a (l ++ t :: s :: r)) :
    (a.tags s.ref).prevSegment = t.ref := by
  have ring := v.order
  rw [show l ++ t :: s :: r = (l ++ [t]) ++ s :: r by simp, List.map_append, List.map_cons] at ring
  have h := ring.prev_cell.1
  rw [prevOf_of_ne (v.ref_ne_zero (by simp)), List.getLast?_cons] at h
  simpa using h.symm

theorem Listed.prev_eq_zero (v : Listed a (s :: r)) : (a.tags s.ref).prevSegment = 0 := by
  have ring := v.order
  rw [List.map_cons] at ring
  have h := (Ring.prev_cell (s := []) ring).1
  rw [prevOf_of_ne (v.ref_ne_zero (by simp))] at h
  simpa using h.symm

/-- The scan goes on over the segments that start at or below the base. -/
theorem segmentListScan_listed (base fuel : ℕ) (v : Listed a (l ++ s :: r))
    (hf : r.length < fuel) :
    ∃ m t n, s :: r = m ++ t :: n ∧ segmentListScan a base fuel s.ref = some t.ref ∧
      (∀ u ∈ (m ++ [t]).tail, u.base ≤ base) ∧ ∀ u ∈ n.head?, base < u.base := by
  induction r generalizing l s fuel with
  | nil =>
    obtain ⟨fuel, rfl⟩ : ∃ n, fuel = n + 1 := ⟨fuel - 1, by omega⟩
    refine ⟨[], s, [], rfl, ?_, by simp, by simp⟩
    unfold segmentListScan
    simp [v.next_eq_zero]
  | cons u r ih =>
    obtain ⟨fuel, rfl⟩ : ∃ n, fuel = n + 1 := ⟨fuel - 1, by omega⟩
    have hu : u ∈ l ++ s :: u :: r := by simp
    have hne := v.ref_ne_zero hu
    unfold segmentListScan
    dsimp only
    rw [v.next_eq, v.base hu]
    by_cases hb : u.base ≤ base
    · rw [if_pos ⟨hne, hb⟩]
      have v' : Listed a ((l ++ [s]) ++ u :: r) := by simpa using v
      obtain ⟨m, t, n, he, hscan, hle, hgt⟩ := ih fuel v' (by simp at hf ⊢; omega)
      refine ⟨s :: m, t, n, by rw [he]; rfl, hscan, ?_, hgt⟩
      intro w hw
      rw [List.cons_append, List.tail_cons] at hw
      cases m with
      | nil =>
        obtain ⟨rfl, -⟩ := List.cons_eq_cons.mp he
        simp only [List.nil_append, List.mem_singleton] at hw
        exact hw ▸ hb
      | cons x m =>
        obtain ⟨rfl, -⟩ := List.cons_eq_cons.mp he
        rcases List.mem_cons.mp hw with rfl | hw
        · exact hb
        · exact hle w hw
    · rw [if_neg (by simp [hb])]
      exact ⟨[], s, u :: r, rfl, rfl, by simp, by simp; omega⟩

/-- Where `_SegmentListInsert` puts a tag with the given base. -/
structure Placed (l r : List Seg) (base : ℕ) : Prop where
  le : ∀ u ∈ l, u.base ≤ base
  lt : ∀ u ∈ r.head?, base < u.base

theorem segmentListInsert_linked (v : Linked a segs bins out) (w : Splice a segs out q) :
    ∃ l r a', segs = l ++ r ∧ Placed l r (seg a q).base ∧ segmentListInsert a q = some a' ∧
      Linked a' (l ++ seg a q :: r) bins out ∧ SegmentWrites a a' := by
  cases segs with
  | nil =>
    have ring := v.listed.order
    have hh : a.headSegment = 0 := by
      change nextOf a 0 = 0
      simpa using ring.next_sentinel.symm
    refine ⟨[], [], modifyTag { a with headSegment := q, tailSegment := q } q
      (fun t => { t with nextSegment := 0, prevSegment := 0 }), rfl, ⟨by simp, by simp⟩, ?_, ?_⟩
    · unfold segmentListInsert
      rw [if_pos hh]
    set a' := modifyTag { a with headSegment := q, tailSegment := q } q
      (fun t => { t with nextSegment := 0, prevSegment := 0 }) with ha'
    have hw : SegmentWrites a a' := by
      refine SegmentWrites.trans (b := { a with headSegment := q, tailSegment := q })
        ⟨rfl, rfl, fun _ => rfl, fun _ => rfl, fun _ => rfl⟩ (SegmentWrites.modify ?_)
      exact fun _ => ⟨rfl, rfl, rfl⟩
    have hq : nextOf a' q = 0 ∧ prevOf a' q = 0 := by
      rw [nextOf_of_ne w.ne_zero, prevOf_of_ne w.ne_zero, ha', modifyTag_self]
      exact ⟨rfl, rfl⟩
    have h0 : nextOf a' 0 = q ∧ prevOf a' 0 = q := ⟨rfl, rfl⟩
    have hn : nextOf a 0 = 0 := hh
    refine ⟨Linked.splice (l := []) (r := []) v w hw (p := 0) rfl h0.1 ?_ hq.2 ?_ ?_ ?_, hw⟩
    · rw [hq.1, hn]
    · rw [hn, h0.2]
    · intro x hx hx0
      exact absurd (by simpa using hx) hx0
    · intro x hx hx0
      rw [hn] at hx0
      exact absurd (by simpa using hx) hx0
  | cons s r =>
    have hs : s ∈ s :: r := by simp
    have hs0 := v.listed.ref_ne_zero hs
    have hhead := v.listed.head_eq
    have hsq : s.ref ≠ q := w.fresh s hs
    have hbase : (a.tags q).base = (seg a q).base := rfl
    by_cases hlt : (seg a q).base < s.base
    · set a₁ := modifyTag a q fun t => { t with nextSegment := a.headSegment } with ha₁
      set a₂ := modifyTag a₁ a₁.headSegment fun t => { t with prevSegment := q } with ha₂
      set a' := modifyTag { a₂ with headSegment := q } q fun t => { t with prevSegment := 0 }
        with ha'
      refine ⟨[], s :: r, a', rfl, ⟨by simp, by simpa using hlt⟩, ?_, ?_⟩
      · unfold segmentListInsert
        rw [hhead, if_neg hs0, v.listed.base hs, hbase, if_pos hlt, ← hhead]
      have hh₁ : a₁.headSegment = s.ref := hhead
      have hw : SegmentWrites a a' := by
        refine SegmentWrites.trans (b := a₁) (SegmentWrites.modify fun _ => ⟨rfl, rfl, rfl⟩) ?_
        refine SegmentWrites.trans (b := a₂) (SegmentWrites.modify fun _ => ⟨rfl, rfl, rfl⟩) ?_
        refine SegmentWrites.trans (b := { a₂ with headSegment := q })
          ⟨rfl, rfl, fun _ => rfl, fun _ => rfl, fun _ => rfl⟩ (SegmentWrites.modify ?_)
        exact fun _ => ⟨rfl, rfl, rfl⟩
      have hnq : nextOf a' q = s.ref ∧ prevOf a' q = 0 := by
        rw [nextOf_of_ne w.ne_zero, prevOf_of_ne w.ne_zero, ha', modifyTag_self]
        refine ⟨?_, rfl⟩
        change (a₂.tags q).nextSegment = s.ref
        rw [ha₂, hh₁, modifyTag_ne _ hsq.symm, ha₁, modifyTag_self, hhead]
      have hother : ∀ x, x ≠ q → x ≠ s.ref → a'.tags x = a.tags x := by
        intro x hxq hxs
        rw [ha', modifyTag_ne _ hxq]
        change a₂.tags x = _
        rw [ha₂, hh₁, modifyTag_ne _ hxs, ha₁, modifyTag_ne _ hxq]
      have hsn : (a'.tags s.ref).nextSegment = (a.tags s.ref).nextSegment ∧
          (a'.tags s.ref).prevSegment = q := by
        rw [ha', modifyTag_ne _ hsq]
        change (a₂.tags s.ref).nextSegment = _ ∧ (a₂.tags s.ref).prevSegment = _
        rw [ha₂, hh₁, modifyTag_self, ha₁, modifyTag_ne _ hsq]
        exact ⟨rfl, rfl⟩
      have hn0 : nextOf a 0 = s.ref := hhead
      have hxq : ∀ x ∈ 0 :: (s :: r).map Seg.ref, x ≠ q := by
        intro x hx
        rcases List.mem_cons.mp hx with rfl | hx
        · exact w.ne_zero.symm
        · obtain ⟨t, ht, rfl⟩ := List.mem_map.mp hx
          exact w.fresh t ht
      refine ⟨Linked.splice (l := []) (r := s :: r) v w hw (p := 0) rfl rfl ?_ hnq.2 ?_ ?_ ?_, hw⟩
      · rw [hnq.1, hn0]
      · rw [hn0, prevOf_of_ne hs0, hsn.2]
      · intro x hx hx0
        rw [nextOf_of_ne hx0, nextOf_of_ne hx0]
        by_cases hxs : x = s.ref
        · rw [hxs, hsn.1]
        · rw [hother x (hxq x hx) hxs]
      · intro x hx hxs
        rw [hn0] at hxs
        by_cases hx0 : x = 0
        · rw [hx0]
          rfl
        · rw [prevOf_of_ne hx0, prevOf_of_ne hx0, hother x (hxq x hx) hxs]
    · have hlen := v.listed.length_lt
      obtain ⟨m, t, n, he, hscan, hle, hgt⟩ :=
        segmentListScan_listed (l := []) (seg a q).base a.nextTag v.listed
          (by simp at hlen; omega)
      have v' : Linked a (m ++ t :: n) bins out := he ▸ v
      obtain ⟨hv, hw⟩ := segmentListInsertAfter_linked v' (he ▸ w)
      refine ⟨m ++ [t], n, segmentListInsertAfter a t.ref q, by simpa using he, ⟨?_, hgt⟩, ?_,
        by simpa using hv, hw⟩
      · obtain ⟨c, hc⟩ : ∃ c, m ++ [t] = s :: c := by
          cases m with
          | nil => exact ⟨[], by simpa using (List.cons.inj he).1.symm⟩
          | cons x m => exact ⟨m ++ [t], by simp [(List.cons.inj he).1]⟩
        rw [hc] at hle ⊢
        intro u hu
        rcases List.mem_cons.mp hu with rfl | hu
        · omega
        · exact hle u hu
      · unfold segmentListInsert
        rw [hhead, if_neg hs0, v.listed.base hs, hbase, if_neg hlt, hscan]

end
end PvrServices.Arenas
