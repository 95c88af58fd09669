import PvrServices.ArenaBase
import PvrServices.HashTableMap
import PvrServices.LinkedRing

set_option autoImplicit false

/-!
# The linked structures of an arena

An arena shows a list of segments: its segment list is doubly linked in that order, the bins of
its free table hold the free ones and its hash table the live ones. The segments a call has
in hand (`out`) are in no bin and not in the hash table.
-/
namespace PvrServices.Arenas
open Words HashTable LinkedRing

structure Seg extends Tag where
  ref : ℕ
deriving DecidableEq, Repr

def seg (a : RaArena) (p : ℕ) : Seg := ⟨(a.tags p).toTag, p⟩

def nextOf (a : RaArena) (p : ℕ) : ℕ :=
  if p = 0 then a.headSegment else (a.tags p).nextSegment

def prevOf (a : RaArena) (p : ℕ) : ℕ :=
  if p = 0 then a.tailSegment else (a.tags p).prevSegment

def nextFreeOf (a : RaArena) (i p : ℕ) : ℕ :=
  if p = 0 then a.headFree i else (a.tags p).nextFree

/-- A bin has no tail pointer; its last member stands in for it. -/
def prevFreeOf (a : RaArena) (last p : ℕ) : ℕ :=
  if p = 0 then last else (a.tags p).prevFree

/-- The segment list shows `segs`. -/
structure Listed (a : RaArena) (segs : List Seg) : Prop where
  seg_eq : ∀ s ∈ segs, seg a s.ref = s
  order : Ring (nextOf a) (prevOf a) 0 (segs.map Seg.ref)
  lt : ∀ s ∈ segs, s.ref < a.nextTag
  nextTag_pos : 0 < a.nextTag

/-- The bins hold the free segments that are not in hand, each in the bin of its size. -/
structure Binned (a : RaArena) (segs : List Seg) (bins : ℕ → List ℕ) (out : List ℕ) : Prop where
  linked : ∀ i, ∃ last, Ring (nextFreeOf a i) (prevFreeOf a last) 0 (bins i)
  mem : ∀ i p, p ∈ bins i ↔
    ∃ s ∈ segs, s.ref = p ∧ p ∉ out ∧ s.type = .free ∧ pvrLog2 s.size = i

/-- The hash table holds the live segments that are not in hand, each under its base. -/
structure Hashed (h : Table ℕ) (segs : List Seg) (out : List ℕ) : Prop where
  homed : Homed hashBase h
  mem : ∀ b p, (b, p) ∈ h.entries ↔
    ∃ s ∈ segs, s.ref = p ∧ p ∉ out ∧ s.type = .live ∧ s.base = b

structure Linked (a : RaArena) (segs : List Seg) (bins : ℕ → List ℕ) (out : List ℕ) : Prop where
  listed : Listed a segs
  binned : Binned a segs bins out
  hashed : Hashed a.segmentHash segs out

def rest (a : RaArena) : RaArena :=
  { a with
    headFree := fun _ => 0
    headSegment := 0
    tailSegment := 0
    tags := fun _ => ⟨⟨.span, 0, 0, none⟩, 0, 0, 0, 0⟩ }

section
variable {a a' : RaArena} {segs segs' l r : List Seg} {s : Seg} {bins : ℕ → List ℕ}
  {out : List ℕ} {p q i : ℕ}

@[simp] theorem rest_modifyTag (f : Bt → Bt) : rest (modifyTag a p f) = rest a := rfl

@[simp] theorem rest_setHeadFree : rest (setHeadFree a i p) = rest a := rfl

@[simp] theorem rest_osFreeTag : rest (osFreeTag a p) = rest a := rfl

@[simp] theorem rest_setNextFree : rest (setNextFree a i p q) = rest a := by
  unfold setNextFree
  split <;> rfl

@[simp] theorem rest_setPrevFree : rest (setPrevFree a p q) = rest a := by
  unfold setPrevFree
  split <;> rfl

theorem rest_freeListInsert : rest (freeListInsert a p) = rest a := by
  simp [freeListInsert]

theorem rest_freeListRemove : rest (freeListRemove a p) = rest a := by
  simp [freeListRemove]

theorem segmentHash_of_rest (h : rest a' = rest a) : a'.segmentHash = a.segmentHash :=
  (congrArg RaArena.segmentHash h :)

theorem nextTag_of_rest (h : rest a' = rest a) : a'.nextTag = a.nextTag :=
  (congrArg RaArena.nextTag h :)

theorem modifyTag_self (f : Bt → Bt) : (modifyTag a p f).tags p = f (a.tags p) := by
  simp [modifyTag]

theorem modifyTag_ne (f : Bt → Bt) (h : q ≠ p) : (modifyTag a p f).tags q = a.tags q := by
  simp [modifyTag, h]

theorem Listed.ref_ne_zero (v : Listed a segs) (hs : s ∈ segs) : s.ref ≠ 0 := by
  intro h
  exact v.order.sentinel_not_mem (h ▸ List.mem_map_of_mem hs)

theorem Listed.refs_nodup (v : Listed a segs) : (segs.map Seg.ref).Nodup := v.order.list_nodup

theorem Listed.nodup (v : Listed a segs) : segs.Nodup := v.refs_nodup.of_map

theorem Listed.ref_inj (v : Listed a segs) {t : Seg} (hs : s ∈ segs) (ht : t ∈ segs)
    (h : s.ref = t.ref) : s = t := by
  rw [← v.seg_eq s hs, ← v.seg_eq t ht, h]

theorem Listed.ref_ne (v : Listed a (l ++ s :: r)) {t : Seg} (ht : t ∈ l ++ r) :
    t.ref ≠ s.ref := by
  intro h
  have hn := v.refs_nodup
  rw [List.map_append, List.map_cons, List.nodup_middle, List.nodup_cons] at hn
  rw [← List.map_append, ← h] at hn
  exact hn.1 (List.mem_map_of_mem ht)

theorem Listed.tag (v : Listed a segs) (hs : s ∈ segs) : (a.tags s.ref).toTag = s.toTag :=
  congrArg Seg.toTag (v.seg_eq s hs)

theorem Listed.type (v : Listed a segs) (hs : s ∈ segs) : (a.tags s.ref).type = s.type :=
  congrArg Tag.type (v.tag hs)

theorem Listed.base (v : Listed a segs) (hs : s ∈ segs) : (a.tags s.ref).base = s.base :=
  congrArg Tag.base (v.tag hs)

theorem Listed.size (v : Listed a segs) (hs : s ∈ segs) : (a.tags s.ref).size = s.size :=
  congrArg Tag.size (v.tag hs)

theorem Listed.mapping (v : Listed a segs) (hs : s ∈ segs) :
    (a.tags s.ref).mapping = s.mapping :=
  congrArg Tag.mapping (v.tag hs)

theorem Listed.congr (v : Listed a segs)
    (ht : ∀ s ∈ segs, (a'.tags s.ref).toTag = (a.tags s.ref).toTag)
    (hn : ∀ x ∈ 0 :: segs.map Seg.ref, nextOf a' x = nextOf a x)
    (hp : ∀ x ∈ 0 :: segs.map Seg.ref, prevOf a' x = prevOf a x)
    (hlt : a.nextTag ≤ a'.nextTag) : Listed a' segs := by
  refine ⟨?_, v.order.congr hn hp, fun s hs => (v.lt s hs).trans_le hlt,
    v.nextTag_pos.trans_le hlt⟩
  intro s hs
  rw [← v.seg_eq s hs]
  unfold seg
  rw [ht s hs]

theorem Binned.mem_refs (v : Binned a segs bins out) (hp : p ∈ bins i) :
    ∃ s ∈ segs, s.ref = p := by
  obtain ⟨s, hs, hsp, -⟩ := (v.mem i p).mp hp
  exact ⟨s, hs, hsp⟩

theorem Binned.bin_unique (b : Binned a segs bins out) (v : Listed a segs) {j : ℕ}
    (hi : p ∈ bins i) (hj : p ∈ bins j) : i = j := by
  obtain ⟨s, hs, hsp, -, -, hsi⟩ := (b.mem i p).mp hi
  obtain ⟨t, ht, htp, -, -, htj⟩ := (b.mem j p).mp hj
  obtain rfl := v.ref_inj hs ht (hsp.trans htp.symm)
  exact hsi.symm.trans htj

theorem Binned.congr (b : Binned a segs bins out)
    (hh : a'.headFree = a.headFree)
    (hn : ∀ s ∈ segs, (a'.tags s.ref).nextFree = (a.tags s.ref).nextFree)
    (hp : ∀ s ∈ segs, (a'.tags s.ref).prevFree = (a.tags s.ref).prevFree) :
    Binned a' segs bins out := by
  refine ⟨fun i => ?_, b.mem⟩
  obtain ⟨last, hr⟩ := b.linked i
  refine ⟨last, hr.congr ?_ ?_⟩
  · intro x hx
    unfold nextFreeOf
    split
    · rw [hh]
    · rename_i h0
      obtain ⟨s, hs, rfl⟩ := b.mem_refs ((List.mem_cons.mp hx).resolve_left h0)
      exact hn s hs
  · intro x hx
    unfold prevFreeOf
    split
    · rfl
    · rename_i h0
      obtain ⟨s, hs, rfl⟩ := b.mem_refs ((List.mem_cons.mp hx).resolve_left h0)
      exact hp s hs

theorem Binned.relist (b : Binned a segs bins out)
    (h : ∀ s, s.ref ∉ out → s.type = .free → (s ∈ segs ↔ s ∈ segs')) :
    Binned a segs' bins out := by
  refine ⟨b.linked, fun i p => (b.mem i p).trans ?_⟩
  constructor
  · rintro ⟨s, hs, rfl, ho, hf, hi⟩
    exact ⟨s, (h s ho hf).mp hs, rfl, ho, hf, hi⟩
  · rintro ⟨s, hs, rfl, ho, hf, hi⟩
    exact ⟨s, (h s ho hf).mpr hs, rfl, ho, hf, hi⟩

theorem Hashed.relist {h : Table ℕ} (v : Hashed h segs out)
    (hs : ∀ s, s.ref ∉ out → s.type = .live → (s ∈ segs ↔ s ∈ segs')) :
    Hashed h segs' out := by
  refine ⟨v.homed, fun b p => (v.mem b p).trans ?_⟩
  constructor
  · rintro ⟨s, hm, rfl, ho, hl, hb⟩
    exact ⟨s, (hs s ho hl).mp hm, rfl, ho, hl, hb⟩
  · rintro ⟨s, hm, rfl, ho, hl, hb⟩
    exact ⟨s, (hs s ho hl).mpr hm, rfl, ho, hl, hb⟩

theorem Linked.drop (v : Linked a segs bins (p :: out)) (hp : ∀ s ∈ segs, s.ref ≠ p) :
    Linked a segs bins out := by
  refine ⟨v.listed, ⟨v.binned.linked, fun i q => (v.binned.mem i q).trans ?_⟩,
    ⟨v.hashed.homed, fun b q => (v.hashed.mem b q).trans ?_⟩⟩
  all_goals
    constructor
    · rintro ⟨s, hs, rfl, ho, h⟩
      exact ⟨s, hs, rfl, fun hm => ho (List.mem_cons_of_mem _ hm), h⟩
    · rintro ⟨s, hs, rfl, ho, h⟩
      exact ⟨s, hs, rfl, by simp [hp s hs, ho], h⟩

theorem Linked.hold (v : Linked a segs bins out) (hp : ∀ s ∈ segs, s.ref ≠ p) :
    Linked a segs bins (p :: out) := by
  refine ⟨v.listed, ⟨v.binned.linked, fun i q => (v.binned.mem i q).trans ?_⟩,
    ⟨v.hashed.homed, fun b q => (v.hashed.mem b q).trans ?_⟩⟩
  all_goals
    constructor
    · rintro ⟨s, hs, rfl, ho, h⟩
      exact ⟨s, hs, rfl, by simp [hp s hs, ho], h⟩
    · rintro ⟨s, hs, rfl, ho, h⟩
      exact ⟨s, hs, rfl, fun hm => ho (List.mem_cons_of_mem _ hm), h⟩

theorem Linked.modify_other (v : Linked a segs bins out) (hp : ∀ s ∈ segs, s.ref ≠ p)
    (f : Bt → Bt) : Linked (modifyTag a p f) segs bins out := by
  have ht : ∀ s ∈ segs, (modifyTag a p f).tags s.ref = a.tags s.ref :=
    fun s hs => modifyTag_ne f (hp s hs)
  have hmem : ∀ x ∈ 0 :: segs.map Seg.ref, x ≠ 0 →
      (modifyTag a p f).tags x = a.tags x := by
    intro x hx h0
    obtain ⟨s, hs, rfl⟩ := List.mem_map.mp ((List.mem_cons.mp hx).resolve_left h0)
    exact ht s hs
  refine ⟨v.listed.congr (fun s hs => by rw [ht s hs]) ?_ ?_ le_rfl,
    v.binned.congr rfl (fun s hs => by rw [ht s hs]) (fun s hs => by rw [ht s hs]), v.hashed⟩
  · intro x hx
    unfold nextOf
    split
    · rfl
    · rename_i h0
      rw [hmem x hx h0]
  · intro x hx
    unfold prevOf
    split
    · rfl
    · rename_i h0
      rw [hmem x hx h0]

def KeepsLinks (f : Bt → Bt) : Prop :=
  ∀ b, (f b).nextSegment = b.nextSegment ∧ (f b).prevSegment = b.prevSegment ∧
    (f b).nextFree = b.nextFree ∧ (f b).prevFree = b.prevFree

theorem Listed.modify (v : Listed a (l ++ s :: r)) {f : Bt → Bt} {t : Seg}
    (htag : (f (a.tags s.ref)).toTag = t.toTag) (href : t.ref = s.ref) (hf : KeepsLinks f) :
    Listed (modifyTag a s.ref f) (l ++ t :: r) := by
  have hrefs : (l ++ t :: r).map Seg.ref = (l ++ s :: r).map Seg.ref := by simp [href]
  have hnext : nextOf (modifyTag a s.ref f) = nextOf a := by
    funext x
    unfold nextOf
    by_cases hx : x = s.ref
    · rw [hx, modifyTag_self, (hf _).1]
      rfl
    · rw [modifyTag_ne f hx]
      rfl
  have hprev : prevOf (modifyTag a s.ref f) = prevOf a := by
    funext x
    unfold prevOf
    by_cases hx : x = s.ref
    · rw [hx, modifyTag_self, (hf _).2.1]
      rfl
    · rw [modifyTag_ne f hx]
      rfl
  have hother : ∀ u ∈ l ++ r, (modifyTag a s.ref f).tags u.ref = a.tags u.ref :=
    fun u hu => modifyTag_ne f (v.ref_ne hu)
  refine ⟨?_, ?_, ?_, v.nextTag_pos⟩
  · intro u hu
    rcases List.mem_append.mp hu with hu | hu
    · rw [seg, hother u (by simp [hu])]
      exact v.seg_eq u (by simp [hu])
    · rcases List.mem_cons.mp hu with rfl | hu
      · rw [seg, href, modifyTag_self, htag, ← href]
      · rw [seg, hother u (by simp [hu])]
        exact v.seg_eq u (by simp [hu])
  · rw [hrefs, hnext, hprev]
    exact v.order
  · intro u hu
    obtain ⟨w, hw, he⟩ : ∃ w ∈ l ++ s :: r, w.ref = u.ref := by
      have := List.mem_map_of_mem (f := Seg.ref) hu
      rw [hrefs] at this
      exact List.mem_map.mp this
    rw [← he]
    exact v.lt w hw

theorem Binned.modify (b : Binned a segs bins out) {f : Bt → Bt} (hf : KeepsLinks f) :
    Binned (modifyTag a p f) segs bins out := by
  have hfree : ∀ x, ((modifyTag a p f).tags x).nextFree = (a.tags x).nextFree ∧
      ((modifyTag a p f).tags x).prevFree = (a.tags x).prevFree := by
    intro x
    by_cases hx : x = p
    · rw [hx, modifyTag_self]
      exact (hf _).2.2
    · rw [modifyTag_ne f hx]
      exact ⟨rfl, rfl⟩
  exact b.congr rfl (fun u _ => (hfree u.ref).1) (fun u _ => (hfree u.ref).2)

theorem Linked.modify_out (v : Linked a (l ++ s :: r) bins out) (ho : s.ref ∈ out)
    {f : Bt → Bt} {t : Seg} (htag : (f (a.tags s.ref)).toTag = t.toTag) (href : t.ref = s.ref)
    (hf : KeepsLinks f) : Linked (modifyTag a s.ref f) (l ++ t :: r) bins out := by
  have hmem : ∀ u : Seg, u.ref ∉ out → (u ∈ l ++ s :: r ↔ u ∈ l ++ t :: r) := by
    intro u hu
    have hus : u ≠ s := fun h => hu (h ▸ ho)
    have hut : u ≠ t := fun h => hu (by rw [h, href]; exact ho)
    simp [hus, hut]
  exact ⟨v.listed.modify htag href hf, (v.binned.modify hf).relist fun u hu _ => hmem u hu,
    v.hashed.relist fun u hu _ => hmem u hu⟩

theorem Linked.set_mapping (v : Linked a (l ++ s :: r) bins out) (m : Option BmMapping) :
    Linked (modifyTag a s.ref fun t => { t with mapping := m })
      (l ++ { s with mapping := m } :: r) bins out := by
  have hs : s ∈ l ++ s :: r := by simp
  have hset : ∀ P : Seg → Prop, (P s ↔ P { s with mapping := m }) →
      ((∃ t ∈ l ++ s :: r, P t) ↔ ∃ t ∈ l ++ { s with mapping := m } :: r, P t) := by
    intro P hP
    constructor
    · rintro ⟨t, ht, hPt⟩
      by_cases hts : t = s
      · exact ⟨_, by simp, hP.mp (hts ▸ hPt)⟩
      · exact ⟨t, by simp at ht ⊢; tauto, hPt⟩
    · rintro ⟨t, ht, hPt⟩
      by_cases hts : t = { s with mapping := m }
      · exact ⟨s, hs, hP.mpr (hts ▸ hPt)⟩
      · exact ⟨t, by simp [hts] at ht ⊢; tauto, hPt⟩
  have hf : KeepsLinks fun t => { t with mapping := m } := fun _ => ⟨rfl, rfl, rfl, rfl⟩
  have hb : Binned (modifyTag a s.ref fun t => { t with mapping := m }) (l ++ s :: r) bins out :=
    v.binned.modify hf
  refine ⟨v.listed.modify (t := { s with mapping := m }) ?_ rfl hf,
    ⟨hb.linked, fun i p => (hb.mem i p).trans ?_⟩,
    ⟨v.hashed.homed, fun b p => (v.hashed.mem b p).trans ?_⟩⟩
  · exact congrArg (fun t : Tag => { t with mapping := m }) (v.listed.tag hs)
  · exact hset (fun t => t.ref = p ∧ p ∉ out ∧ t.type = .free ∧ pvrLog2 t.size = i) Iff.rfl
  · exact hset (fun t => t.ref = p ∧ p ∉ out ∧ t.type = .live ∧ t.base = b) Iff.rfl

end
end PvrServices.Arenas
