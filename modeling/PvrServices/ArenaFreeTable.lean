import PvrServices.ArenaLinks

set_option autoImplicit false

/-! Entering a segment into the free table and taking one out. -/
namespace PvrServices.Arenas
open Words HashTable LinkedRing

section
variable {a a' : RaArena} {segs l r : List Seg} {s : Seg} {bins : ℕ → List ℕ} {out : List ℕ}
  {p q i j last x : ℕ}

/-- The operations on the bins write free links and types only. -/
structure FreeWrites (a a' : RaArena) : Prop where
  headSegment : a'.headSegment = a.headSegment
  tailSegment : a'.tailSegment = a.tailSegment
  nextSegment : ∀ p, (a'.tags p).nextSegment = (a.tags p).nextSegment
  prevSegment : ∀ p, (a'.tags p).prevSegment = (a.tags p).prevSegment

theorem FreeWrites.trans {b c : RaArena} (f : FreeWrites a b) (g : FreeWrites b c) :
    FreeWrites a c :=
  ⟨g.headSegment.trans f.headSegment, g.tailSegment.trans f.tailSegment,
    fun p => (g.nextSegment p).trans (f.nextSegment p),
    fun p => (g.prevSegment p).trans (f.prevSegment p)⟩

theorem FreeWrites.modify {f : Bt → Bt} (h : ∀ b, (f b).nextSegment = b.nextSegment ∧
    (f b).prevSegment = b.prevSegment) : FreeWrites a (modifyTag a p f) := by
  refine ⟨rfl, rfl, fun q => ?_, fun q => ?_⟩
  · by_cases hq : q = p
    · rw [hq, modifyTag_self, (h _).1]
    · rw [modifyTag_ne f hq]
  · by_cases hq : q = p
    · rw [hq, modifyTag_self, (h _).2]
    · rw [modifyTag_ne f hq]

theorem freeWrites_setHeadFree : FreeWrites a (setHeadFree a i p) :=
  ⟨rfl, rfl, fun _ => rfl, fun _ => rfl⟩

theorem freeWrites_setNextFree : FreeWrites a (setNextFree a i p q) := by
  unfold setNextFree
  split
  · exact freeWrites_setHeadFree
  · exact .modify fun _ => ⟨rfl, rfl⟩

theorem freeWrites_setPrevFree : FreeWrites a (setPrevFree a p q) := by
  unfold setPrevFree
  split
  · exact ⟨rfl, rfl, fun _ => rfl, fun _ => rfl⟩
  · exact .modify fun _ => ⟨rfl, rfl⟩

theorem FreeWrites.nextOf_eq (f : FreeWrites a a') : nextOf a' = nextOf a := by
  funext x
  unfold nextOf
  rw [f.headSegment, f.nextSegment]

theorem FreeWrites.prevOf_eq (f : FreeWrites a a') : prevOf a' = prevOf a := by
  funext x
  unfold prevOf
  rw [f.tailSegment, f.prevSegment]

@[simp] theorem toTag_setNextFree :
    ((setNextFree a i p q).tags x).toTag = (a.tags x).toTag := by
  unfold setNextFree
  split
  · rfl
  · by_cases hx : x = p
    · rw [hx, modifyTag_self]
    · rw [modifyTag_ne _ hx]

@[simp] theorem toTag_setPrevFree : ((setPrevFree a p q).tags x).toTag = (a.tags x).toTag := by
  unfold setPrevFree
  split
  · rfl
  · by_cases hx : x = p
    · rw [hx, modifyTag_self]
    · rw [modifyTag_ne _ hx]

theorem nextFree_setPrevFree : ((setPrevFree a p q).tags x).nextFree = (a.tags x).nextFree := by
  unfold setPrevFree
  split
  · rfl
  · by_cases hx : x = p
    · rw [hx, modifyTag_self]
    · rw [modifyTag_ne _ hx]

theorem prevFree_setNextFree :
    ((setNextFree a i p q).tags x).prevFree = (a.tags x).prevFree := by
  unfold setNextFree
  split
  · rfl
  · by_cases hx : x = p
    · rw [hx, modifyTag_self]
    · rw [modifyTag_ne _ hx]

theorem headFree_setPrevFree : (setPrevFree a p q).headFree = a.headFree := by
  unfold setPrevFree
  split <;> rfl

theorem prevFree_setPrevFree (hx : x ≠ 0) :
    ((setPrevFree a p q).tags x).prevFree = if x = p then q else (a.tags x).prevFree := by
  unfold setPrevFree
  split
  · rename_i hp
    rw [if_neg (hp ▸ hx)]
  · by_cases hxp : x = p
    · rw [hxp, modifyTag_self, if_pos rfl]
    · rw [modifyTag_ne _ hxp, if_neg hxp]

theorem nextFreeOf_setNextFree : nextFreeOf (setNextFree a i p q) j x =
    if x = p ∧ (p = 0 → j = i) then q else nextFreeOf a j x := by
  unfold setNextFree nextFreeOf
  by_cases hp : p = 0
  · by_cases hx : x = 0
    · by_cases hj : j = i <;> simp [hp, hx, hj, setHeadFree]
    · simp [hp, hx, setHeadFree]
  · by_cases hx : x = p
    · simp [hp, hx, modifyTag_self]
    · rw [if_neg hp, modifyTag_ne _ hx, if_neg (fun h : x = p ∧ _ => hx h.1)]
      rfl

theorem nextFreeOf_setPrevFree : nextFreeOf (setPrevFree a p q) i x = nextFreeOf a i x := by
  unfold nextFreeOf
  rw [headFree_setPrevFree, nextFree_setPrevFree]

theorem freeListRemove_toTag : ((freeListRemove a p).tags x).toTag = (a.tags x).toTag := by
  simp [freeListRemove]

theorem Hashed.hold {h : Table ℕ} (v : Hashed h segs out) (w : Listed a segs) (hs : s ∈ segs)
    (hl : s.type ≠ .live) : Hashed h segs (s.ref :: out) := by
  refine ⟨v.homed, fun b p => (v.mem b p).trans ?_⟩
  constructor
  · rintro ⟨t, ht, rfl, ho, htl, hb⟩
    have hne : t.ref ≠ s.ref := fun he => hl (w.ref_inj ht hs he ▸ htl)
    exact ⟨t, ht, rfl, by simp [hne, ho], htl, hb⟩
  · rintro ⟨t, ht, rfl, ho, h⟩
    exact ⟨t, ht, rfl, fun hm => ho (List.mem_cons_of_mem _ hm), h⟩

theorem freeListRemove_eq (h : p ≠ (a.tags p).nextFree) (h0 : p ≠ 0) :
    freeListRemove a p =
      setNextFree (setPrevFree a (a.tags p).nextFree (a.tags p).prevFree)
        (pvrLog2 (a.tags p).size) (a.tags p).prevFree (a.tags p).nextFree := by
  unfold freeListRemove
  dsimp only
  rw [prevFree_setPrevFree h0, if_neg h, nextFree_setPrevFree]

theorem freeListRemove_linked (v : Linked a segs bins out) (hs : s ∈ segs)
    (hf : s.type = .free) (ho : s.ref ∉ out) :
    ∃ bins', Linked (freeListRemove a s.ref) segs bins' (s.ref :: out) := by
  have hs0 : s.ref ≠ 0 := v.listed.ref_ne_zero hs
  have hw : FreeWrites a (freeListRemove a s.ref) :=
    freeWrites_setPrevFree.trans freeWrites_setNextFree
  have hm : s.ref ∈ bins (pvrLog2 s.size) :=
    (v.binned.mem _ s.ref).mpr ⟨s, hs, rfl, ho, hf, rfl⟩
  have hsize := v.listed.size hs
  obtain ⟨last, ring⟩ := v.binned.linked (pvrLog2 s.size)
  have hnd := ring.list_nodup
  obtain ⟨lo, hi, hbin⟩ := List.append_of_mem hm
  have hlo : s.ref ∉ lo := by
    intro h
    rw [hbin] at hnd
    exact (List.nodup_append.mp hnd).2.2 _ h _ (by simp) rfl
  have herase : (bins (pvrLog2 s.size)).erase s.ref = lo ++ hi := by
    rw [hbin, List.erase_append_right _ hlo, List.erase_cons_head]
  have hnext : nextFreeOf a (pvrLog2 s.size) s.ref = (a.tags s.ref).nextFree := if_neg hs0
  have hprev : prevFreeOf a last s.ref = (a.tags s.ref).prevFree := if_neg hs0
  have hne : s.ref ≠ (a.tags s.ref).nextFree := by
    rw [← hnext]
    exact (ring.next_ne hm).symm
  have hpm : (a.tags s.ref).prevFree ∈ 0 :: bins (pvrLog2 s.size) := by
    rw [← hprev]
    exact ring.prev_mem (List.mem_cons_of_mem _ hm)
  have hnm : (a.tags s.ref).nextFree ∈ 0 :: bins (pvrLog2 s.size) := by
    rw [← hnext]
    exact ring.next_mem (List.mem_cons_of_mem _ hm)
  have heq := freeListRemove_eq hne hs0
  rw [hsize] at heq
  refine ⟨Function.update bins (pvrLog2 s.size) (lo ++ hi), ?_, ⟨fun j => ?_, fun j p => ?_⟩, ?_⟩
  · exact v.listed.congr (fun t _ => freeListRemove_toTag) (fun x _ => by rw [hw.nextOf_eq])
      (fun x _ => by rw [hw.prevOf_eq]) (nextTag_of_rest rest_freeListRemove).ge
  · by_cases hj : j = pvrLog2 s.size
    · -- the bin itself: the last member is now the one before, if `s` was the last
      rw [hj, Function.update_self]
      rw [hbin] at ring
      refine ⟨if (a.tags s.ref).nextFree = 0 then (a.tags s.ref).prevFree else last,
        ring.remove ?_ ?_⟩
      · intro x _
        rw [heq, nextFreeOf_setNextFree, nextFreeOf_setPrevFree, hprev, hnext]
        simp
      · intro x _
        rw [hprev, hnext, heq]
        unfold prevFreeOf
        by_cases hx : x = 0
        · by_cases hl : (a.tags s.ref).nextFree = 0
          · simp [hx, hl]
          · simp [hx, hl, Ne.symm hl]
        · rw [if_neg hx, prevFree_setNextFree, prevFree_setPrevFree hx, if_neg hx]
    · -- another bin shares no member with it
      rw [Function.update_of_ne hj]
      obtain ⟨last', ring'⟩ := v.binned.linked j
      refine ⟨last', ring'.congr ?_ ?_⟩
      · intro x hx
        rw [heq, nextFreeOf_setNextFree, nextFreeOf_setPrevFree, if_neg]
        rintro ⟨rfl, h0⟩
        rcases List.mem_cons.mp hx with hx | hx
        · exact hj (h0 hx)
        · rcases List.mem_cons.mp hpm with hp | hp
          · exact hj (h0 hp)
          · exact hj (v.binned.bin_unique v.listed hx hp)
      · intro x hx
        unfold prevFreeOf
        by_cases hx0 : x = 0
        · simp [hx0]
        · rw [if_neg hx0, if_neg hx0, heq, prevFree_setNextFree, prevFree_setPrevFree hx0,
            if_neg]
          rintro rfl
          rcases List.mem_cons.mp hnm with hn | hn
          · exact hx0 hn
          · exact hj (v.binned.bin_unique v.listed ((List.mem_cons.mp hx).resolve_left hx0) hn)
  · have hmem : p ∈ Function.update bins (pvrLog2 s.size) (lo ++ hi) j ↔
        p ≠ s.ref ∧ p ∈ bins j := by
      by_cases hj : j = pvrLog2 s.size
      · rw [hj, Function.update_self, ← herase]
        exact hnd.mem_erase_iff
      · rw [Function.update_of_ne hj]
        refine ⟨fun hp => ⟨?_, hp⟩, And.right⟩
        rintro rfl
        exact hj (v.binned.bin_unique v.listed hp hm)
    rw [hmem, v.binned.mem]
    constructor
    · rintro ⟨hp, t, ht, rfl, hto, h⟩
      exact ⟨t, ht, rfl, by simp [hp, hto], h⟩
    · rintro ⟨t, ht, rfl, hto, h⟩
      simp only [List.mem_cons, not_or] at hto
      exact ⟨hto.1, t, ht, rfl, hto.2, h⟩
  · rw [segmentHash_of_rest rest_freeListRemove]
    exact v.hashed.hold v.listed hs (by simp [hf])

theorem freeListInsert_toTag_ne (h : x ≠ p) :
    ((freeListInsert a p).tags x).toTag = (a.tags x).toTag := by
  unfold freeListInsert setHeadFree
  dsimp only
  rw [toTag_setPrevFree, modifyTag_ne _ h]

theorem freeListInsert_toTag_self :
    ((freeListInsert a p).tags p).toTag = { (a.tags p).toTag with type := .free } := by
  unfold freeListInsert setHeadFree
  dsimp only
  rw [toTag_setPrevFree, modifyTag_self]

theorem freeListInsert_linked (v : Linked a (l ++ s :: r) bins (s.ref :: out))
    (ho : s.ref ∉ out) :
    ∃ bins', Linked (freeListInsert a s.ref) (l ++ { s with type := .free } :: r) bins' out := by
  have hs : s ∈ l ++ s :: r := by simp
  have hs0 : s.ref ≠ 0 := v.listed.ref_ne_zero hs
  have hsize := v.listed.size hs
  have hother : ∀ t ∈ l ++ r, t.ref ≠ s.ref := fun t ht => v.listed.ref_ne ht
  have hfresh : ∀ i, s.ref ∉ bins i := by
    intro i hm
    obtain ⟨-, -, -, h, -⟩ := (v.binned.mem i s.ref).mp hm
    exact h (by simp)
  set i := pvrLog2 s.size with hi
  have heq : freeListInsert a s.ref =
      setHeadFree (setPrevFree (modifyTag a s.ref fun t => { t with
        type := .free
        nextFree := a.headFree i
        prevFree := 0 }) (a.headFree i) s.ref) i s.ref := by
    rw [hi, ← hsize]
    rfl
  have hw : FreeWrites a (freeListInsert a s.ref) := by
    rw [heq]
    refine FreeWrites.trans (FreeWrites.modify ?_)
      (freeWrites_setPrevFree.trans freeWrites_setHeadFree)
    exact fun _ => ⟨rfl, rfl⟩
  have hrefs : (l ++ { s with type := .free } :: r).map Seg.ref =
      (l ++ s :: r).map Seg.ref := by simp
  have hnext : ∀ j x, x ≠ s.ref → (x = 0 → j ≠ i) →
      nextFreeOf (freeListInsert a s.ref) j x = nextFreeOf a j x := by
    intro j x hx hj
    rw [heq]
    unfold nextFreeOf
    by_cases hx0 : x = 0
    · rw [if_pos hx0, if_pos hx0]
      simp [setHeadFree, hj hx0, headFree_setPrevFree, modifyTag]
    · rw [if_neg hx0, if_neg hx0]
      change ((setPrevFree _ _ _).tags x).nextFree = _
      rw [nextFree_setPrevFree, modifyTag_ne _ hx]
  have hprev : ∀ x, x ≠ 0 → x ≠ s.ref →
      ((freeListInsert a s.ref).tags x).prevFree =
        if x = a.headFree i then s.ref else (a.tags x).prevFree := by
    intro x hx0 hx
    rw [heq]
    change ((setPrevFree _ _ _).tags x).prevFree = _
    rw [prevFree_setPrevFree hx0, modifyTag_ne _ hx]
  have hself : ((freeListInsert a s.ref).tags s.ref).nextFree = a.headFree i ∧
      (a.headFree i ≠ s.ref → ((freeListInsert a s.ref).tags s.ref).prevFree = 0) := by
    rw [heq]
    change ((setPrevFree _ _ _).tags s.ref).nextFree = _ ∧
      (_ → ((setPrevFree _ _ _).tags s.ref).prevFree = _)
    rw [nextFree_setPrevFree, prevFree_setPrevFree hs0, modifyTag_self]
    exact ⟨rfl, fun h => if_neg h.symm⟩
  obtain ⟨last, ring⟩ := v.binned.linked i
  have hhead : nextFreeOf a i 0 = a.headFree i := rfl
  have hhm : a.headFree i ∈ 0 :: bins i := by
    rw [← hhead]
    exact ring.next_mem (by simp)
  have hhne : a.headFree i ≠ s.ref := by
    intro h
    rw [h] at hhm
    exact (List.mem_cons.mp hhm).elim hs0 (hfresh i)
  have hset : ∀ x, x ∈ l ++ { s with type := .free } :: r ↔
      x = { s with type := .free } ∨ x ∈ l ++ r := by
    intro x
    simp only [List.mem_append, List.mem_cons]
    tauto
  have hset' : ∀ x, x ∈ l ++ s :: r ↔ x = s ∨ x ∈ l ++ r := by
    intro x
    simp only [List.mem_append, List.mem_cons]
    tauto
  refine ⟨Function.update bins i (s.ref :: bins i), ⟨?_, ?_, ?_, ?_⟩, ⟨fun j => ?_, fun j p => ?_⟩,
    ?_⟩
  · intro t ht
    rcases (hset t).mp ht with rfl | ht
    · have htag := v.listed.tag hs
      simp only [seg, freeListInsert_toTag_self, htag]
    · rw [seg, freeListInsert_toTag_ne (hother t ht)]
      exact v.listed.seg_eq t ((hset' t).mpr (Or.inr ht))
  · rw [hrefs, hw.nextOf_eq, hw.prevOf_eq]
    exact v.listed.order
  · rw [nextTag_of_rest rest_freeListInsert]
    intro t ht
    rcases (hset t).mp ht with rfl | ht
    · exact v.listed.lt s hs
    · exact v.listed.lt t ((hset' t).mpr (Or.inr ht))
  · rw [nextTag_of_rest rest_freeListInsert]
    exact v.listed.nextTag_pos
  · by_cases hj : j = i
    · -- the bin itself: `s` comes first, and is the last one if there was none
      rw [hj, Function.update_self]
      have hnx : nextFreeOf (freeListInsert a s.ref) i 0 = s.ref := by
        rw [heq]
        simp [nextFreeOf, setHeadFree]
      refine ⟨if a.headFree i = 0 then s.ref else last, ?_⟩
      refine Ring.insert (s := []) (t := bins i) (a := 0) ring (by simp [hs0, hfresh i]) (by simp)
        hnx ?_ ?_ ?_ ?_ ?_
      · rw [hhead, nextFreeOf, if_neg hs0]
        exact hself.1
      · rw [prevFreeOf, if_neg hs0]
        exact hself.2 hhne
      · rw [hhead]
        unfold prevFreeOf
        by_cases h0 : a.headFree i = 0
        · simp [h0]
        · rw [if_neg h0, hprev _ h0 hhne, if_pos rfl]
      · intro x hx hx0
        refine hnext i x ?_ (fun h => absurd h hx0)
        rintro rfl
        exact hfresh i ((List.mem_cons.mp hx).resolve_left hx0)
      · intro x hx hxh
        rw [hhead] at hxh
        unfold prevFreeOf
        by_cases hx0 : x = 0
        · rw [if_pos hx0, if_pos hx0, if_neg (fun h => hxh (hx0.trans h.symm))]
        · rw [if_neg hx0, if_neg hx0, hprev x hx0 ?_, if_neg hxh]
          rintro rfl
          exact hfresh i ((List.mem_cons.mp hx).resolve_left hx0)
    · rw [Function.update_of_ne hj]
      obtain ⟨last', ring'⟩ := v.binned.linked j
      have hne : ∀ x ∈ 0 :: bins j, x ≠ s.ref := by
        rintro x hx rfl
        exact (List.mem_cons.mp hx).elim hs0 (hfresh j)
      refine ⟨last', ring'.congr (fun x hx => hnext j x (hne x hx) (fun _ => hj)) ?_⟩
      intro x hx
      unfold prevFreeOf
      by_cases hx0 : x = 0
      · simp [hx0]
      · rw [if_neg hx0, if_neg hx0, hprev x hx0 (hne x hx), if_neg]
        rintro rfl
        exact hj (v.binned.bin_unique v.listed ((List.mem_cons.mp hx).resolve_left hx0)
          ((List.mem_cons.mp hhm).resolve_left hx0))
  · have hmem : p ∈ Function.update bins i (s.ref :: bins i) j ↔
        (j = i ∧ p = s.ref) ∨ p ∈ bins j := by
      by_cases hj : j = i
      · simp [hj]
      · simp [hj]
    rw [hmem, v.binned.mem]
    constructor
    · rintro (⟨rfl, rfl⟩ | ⟨t, ht, rfl, hto, htf, hts⟩)
      · exact ⟨_, (hset _).mpr (Or.inl rfl), rfl, ho, rfl, hi.symm⟩
      · rcases (hset' t).mp ht with rfl | ht
        · simp at hto
        · exact ⟨t, (hset t).mpr (Or.inr ht), rfl, fun h => hto (List.mem_cons_of_mem _ h), htf,
            hts⟩
    · rintro ⟨t, ht, rfl, hto, htf, hts⟩
      rcases (hset t).mp ht with rfl | ht
      · exact Or.inl ⟨hts.symm, rfl⟩
      · exact Or.inr ⟨t, (hset' t).mpr (Or.inr ht), rfl, by simp [hother t ht, hto], htf, hts⟩
  · rw [segmentHash_of_rest rest_freeListInsert]
    refine ⟨v.hashed.homed, fun b p => (v.hashed.mem b p).trans ?_⟩
    constructor
    · rintro ⟨t, ht, rfl, hto, htl, htb⟩
      rcases (hset' t).mp ht with rfl | ht
      · simp at hto
      · exact ⟨t, (hset t).mpr (Or.inr ht), rfl, fun h => hto (List.mem_cons_of_mem _ h), htl, htb⟩
    · rintro ⟨t, ht, rfl, hto, htl, htb⟩
      rcases (hset t).mp ht with rfl | ht
      · cases htl
      · exact ⟨t, (hset' t).mpr (Or.inr ht), rfl, by simp [hother t ht, hto], htl, htb⟩

end
end PvrServices.Arenas
