import Mathlib.Data.List.Chain
import PvrServices.ArenaSearch

set_option autoImplicit false

/-!
# Free neighbours

`_FreeBT` joins a segment with its free neighbours. No two free segments lie side by side, unless
`alloc_from_bt` was refused the tag of the back split behind a front split: then both pieces go
into the free table as they are.
-/
namespace PvrServices.Arenas
open Words HashTable LinkedRing Tiling Runs

def Joined (segs : List Seg) : Prop := segs.IsChain fun s t => s.type = .free → t.type ≠ .free

/-- The segment that the search finds is split in front, and the tag for its back is refused. -/
def SplitsApart (a : RaArena) (x : Request) : Prop :=
  ∃ s ∈ segments a, Found a x s ∧ s.base < startIn x s ∧
    refusal a.os s.toTag (startIn x s) x.size = some .back

instance (a : RaArena) (x : Request) : Decidable (SplitsApart a x) :=
  have (s : Seg) : Decidable (Found a x s) := inferInstanceAs (Decidable (_ = _))
  inferInstanceAs (Decidable (∃ s ∈ segments a, _))

def spanArena (a : RaArena) (x : Request) (i : Import) : Option RaArena :=
  match insertResourceSpan { a with
    calls := a.calls ++ [.imported (importSize a.quantum x.size x.alignment) i] } i.base i.size with
  | some (some bt, b) => some (modifyTag b bt fun t => { t with mapping := i.mapping })
  | _ => none

/-- The arena in which `RA_Alloc` makes its second attempt. -/
def secondArena (a : RaArena) (x : Request) (i : Import) : Option RaArena :=
  match attemptAllocAligned a x.size x.flags x.alignment with
  | some (none, b) => if b.importAlloc then spanArena b x i else none
  | _ => none

/-- No attempt of the call leaves two free pieces of one segment behind. -/
def KeepsJoined (a : RaArena) : Op → Prop
  | .alloc x answer => ¬SplitsApart a x ∧
      ∀ i ∈ answer, ∀ b ∈ secondArena a x i, ¬SplitsApart b x
  | .free _ _ => True

instance (a : RaArena) (op : Op) : Decidable (KeepsJoined a op) :=
  match op with
  | .alloc _ _ => inferInstanceAs (Decidable (_ ∧ _))
  | .free _ _ => inferInstanceAs (Decidable True)

section
variable {a a' : RaArena} {segs segs' l r f b p₁ p₂ : List Seg} {s t m : Seg}
  {bins : ℕ → List ℕ} {x : Request} {os : Os} {n : ℕ} {found : Seg → Prop} {c : List Call}
  {w : Result} {areas A B : List Area} {ar : Area} {answer : Option Import}

theorem joined_append : Joined (l ++ r) ↔ Joined l ∧ Joined r ∧
    ∀ p ∈ l.getLast?, ∀ q ∈ r.head?, p.type = .free → q.type ≠ .free :=
  List.isChain_append

theorem joined_middle : Joined (l ++ s :: r) ↔ Joined l ∧ Joined r ∧
    (∀ p ∈ l.getLast?, p.type = .free → s.type ≠ .free) ∧
    ∀ q ∈ r.head?, s.type = .free → q.type ≠ .free := by
  rw [joined_append]
  unfold Joined
  rw [List.isChain_cons]
  simp only [List.head?_cons, Option.mem_def, Option.some.injEq, forall_eq']
  tauto

theorem joined_marker (hs : s.type = .span) : Joined (l ++ s :: r) ↔ Joined l ∧ Joined r := by
  rw [joined_middle, hs]
  simp

theorem Joined.live (h : Joined (l ++ s :: r)) (hf : s.type = .free) (hfl : f.length ≤ 1)
    (hbl : b.length ≤ 1) (hm : m.type = .live) : Joined (l ++ f ++ m :: (b ++ r)) := by
  obtain ⟨hl, hr, hprev, hnext⟩ := joined_middle.mp h
  have hone : ∀ k : List Seg, k.length ≤ 1 → Joined k := by
    intro k hk
    cases k with
    | nil => exact .nil
    | cons y k =>
      have hk0 : k = [] := List.eq_nil_of_length_eq_zero (by simpa using hk)
      rw [hk0]
      exact .singleton y
  apply joined_middle.mpr
  refine ⟨joined_append.mpr ⟨hl, hone f hfl, ?_⟩, joined_append.mpr ⟨hone b hbl, hr, ?_⟩, ?_, ?_⟩
  · intro p hp q _ hpf
    exact absurd hf (hprev p hp hpf)
  · intro p _ q hq _
    exact hnext q hq hf
  · intro p _ _
    rw [hm]
    simp
  · intro q _ hmf
    rw [hm] at hmf
    cases hmf

theorem Layout.outside (v : Layout (A ++ ar :: B) segs) (hk : ar.marks ≠ none) :
    (∀ p ∈ (A.flatMap Area.segs).getLast?, p.type ≠ .free) ∧
      ∀ q ∈ (B.flatMap Area.segs).head?, q.type ≠ .free := by
  have hmarked : ∀ y ∈ A ++ B, y.marks ≠ none := by
    intro y hy hnone
    have hone := v.marked y (by simp at hy ⊢; tauto) hnone
    have har : ar ∈ A ++ ar :: B := by simp
    rw [hone, List.mem_singleton] at har
    rw [har] at hk
    exact hk hnone
  constructor
  · intro p hp
    rcases List.eq_nil_or_concat A with hA | ⟨A', y, hA⟩
    · rw [hA] at hp
      cases hp
    · obtain ⟨marks, hm⟩ := Option.ne_none_iff_exists'.mp (hmarked y (by simp [hA]))
      rw [hA, List.concat_eq_append, List.flatMap_append, List.flatMap_singleton, Area.segs,
        Area.closing, hm] at hp
      have hpm : marker (u32 (y.base + y.size)) 0 marks.2 = p := by simpa using hp
      rw [← hpm]
      simp [marker]
  · intro q hq
    cases B with
    | nil => cases hq
    | cons y B' =>
      obtain ⟨marks, hm⟩ := Option.ne_none_iff_exists'.mp (hmarked y (by simp))
      rw [List.flatMap_cons, Area.segs, Area.opening, hm] at hq
      have hqm : marker y.base y.size marks.1 = q := by simpa using hq
      rw [← hqm]
      simp [marker]

theorem coalesced_joined (h : Joined (p₁ ++ s :: p₂)) {lo hi : ℕ}
    (ht : Tiles (fun s : Seg => s.base) (fun s => s.size) lo (p₁ ++ s :: p₂) hi)
    (hhi : hi < 4294967296) : Joined (coalesced p₁ s p₂) := by
  obtain ⟨hl, hr, -, -⟩ := joined_middle.mp h
  have hprev : Joined (absorbPrev p₁ s).1 ∧
      ∀ p ∈ (absorbPrev p₁ s).1.getLast?, p.type ≠ .free := by
    rcases List.eq_nil_or_concat p₁ with hp | ⟨p, q, hp⟩
    · rw [hp, absorbPrev_nil]
      exact ⟨.nil, by simp⟩
    · rw [hp, List.concat_eq_append] at hl ht ⊢
      rw [absorbPrev_concat]
      have hlast := (joined_append.mp hl).2.2
      by_cases hq : q.type = .free
      · have hmeets : Meets q s := by
          rw [List.append_assoc, List.singleton_append, tiles_middle_iff, tiles_cons_iff] at ht
          have hle := ht.2.2.2.2.le
          unfold Meets
          rw [u32_of_lt (by omega)]
          exact ht.2.2.1.symm
        rw [if_pos ⟨hq, hmeets⟩]
        exact ⟨(joined_append.mp hl).1, fun y hy hyf => hlast y hy q (by simp) hyf hq⟩
      · rw [if_neg (fun hc => hq hc.1)]
        refine ⟨hl, ?_⟩
        simpa using hq
  have htiles := absorbPrev_tiles ht (by have := ht.le; omega)
  have hnext : Joined (absorbNext (absorbPrev p₁ s).2 p₂).2 ∧
      ∀ q ∈ (absorbNext (absorbPrev p₁ s).2 p₂).2.head?, q.type ≠ .free := by
    cases p₂ with
    | nil => exact ⟨.nil, by simp⟩
    | cons q p₂ =>
      have htail := List.isChain_cons.mp hr
      rw [absorbNext_cons]
      by_cases hq : q.type = .free
      · have hmeets : Meets (absorbPrev p₁ s).2 q := by
          rw [tiles_middle_iff, tiles_cons_iff] at htiles
          have hle := htiles.2.2.2.2.le
          unfold Meets
          rw [u32_of_lt (by omega)]
          exact htiles.2.2.1.symm
        rw [if_pos ⟨hq, hmeets⟩]
        exact ⟨htail.2, fun y hy => htail.1 y hy hq⟩
      · rw [if_neg (fun hc => hq hc.1)]
        exact ⟨hr, by simpa using hq⟩
  exact joined_middle.mpr ⟨hprev.1, hnext.1, fun y hy hyf => absurd hyf (hprev.2 y hy),
    fun y hy _ => hnext.2 y hy⟩

theorem Joined.absorbPrev_eq (h : Joined (l ++ s :: r)) (hf : s.type = .free) (t : Seg) :
    absorbPrev l t = (l, t) := by
  rcases List.eq_nil_or_concat l with hl | ⟨k, q, hl⟩
  · rw [hl, absorbPrev_nil]
  · rw [hl, List.concat_eq_append] at h ⊢
    have hprev := (joined_middle.mp h).2.2.1 q (by simp)
    rw [absorbPrev_concat, if_neg]
    intro hc
    exact hprev hc.1 hf

theorem Joined.absorbNext_eq (h : Joined (l ++ s :: r)) (hf : s.type = .free) (t : Seg) :
    absorbNext t r = (t, r) := by
  cases r with
  | nil => rfl
  | cons q r =>
    have hnext := (joined_middle.mp h).2.2.2 q (by simp) hf
    rw [absorbNext_cons, if_neg (fun hc => hnext hc.1)]

theorem Joined.replace (h : Joined (l ++ s :: r)) (hf : s.type = .free) (t : Seg) :
    Joined (l ++ t :: r) := by
  obtain ⟨hl, hr, hprev, hnext⟩ := joined_middle.mp h
  exact joined_middle.mpr ⟨hl, hr, fun p hp hpf => absurd hf (hprev p hp hpf),
    fun q hq _ => hnext q hq hf⟩

theorem Layout.retire_joined (v : Layout areas (l ++ s :: r)) (hn : (l ++ s :: r).Nodup)
    (h : Joined (l ++ s :: r)) (hf : s.type = .free) (t : Seg) : Joined (retire l t r).1 := by
  have hplace := h.replace hf { t with type := .free }
  cases hret : (retire l t r).2 with
  | none =>
    rw [retire_none hret]
    exact hplace
  | some g =>
    obtain ⟨l', p, z, r', hl, hr, hp, hz⟩ := retire_some hret
    obtain ⟨A, ar, B, p₁, p₂, hareas, hpieces, hleft, hright⟩ :=
      v.locate hn rfl (by rw [hf]; simp)
    rw [hareas] at v
    have hplain := (v.tiled ar (by simp)).plain
    -- a piece of the area is no marker
    have hp₁ : p₁ = [] := by
      rcases List.eq_nil_or_concat p₁ with hnil | ⟨k, q, hk⟩
      · exact hnil
      · rw [hk, List.concat_eq_append, ← List.append_assoc] at hleft
        rw [hl] at hleft
        have hpq := (List.append_inj' hleft rfl).2
        rw [List.cons.injEq] at hpq
        exact absurd (hpq.1 ▸ hp) (hplain q (by simp [hpieces, hk])).1
    have hp₂ : p₂ = [] := by
      cases p₂ with
      | nil => rfl
      | cons q k =>
        rw [hr, List.cons_append, List.cons_append, List.cons.injEq] at hright
        exact absurd (hright.1 ▸ hz) (hplain q (by simp [hpieces])).1
    have hmarks : ar.marks ≠ none := by
      intro hnone
      obtain ⟨hA, hB⟩ := v.marks_none hnone
      rw [hl, hA, hp₁, Area.opening, hnone] at hleft
      simp at hleft
    obtain ⟨marks, hsome⟩ := Option.ne_none_iff_exists'.mp hmarks
    rw [hl, hp₁, List.append_nil, Area.opening, hsome] at hleft
    rw [hr, hp₂, List.nil_append, Area.closing, hsome, List.singleton_append] at hright
    have hl' := (List.append_inj' hleft rfl).1
    have hr' := (List.cons.inj hright).2
    have hout := v.outside hmarks
    obtain ⟨hjl, hjr, -, -⟩ := joined_middle.mp h
    rw [hl] at hjl
    rw [hr] at hjr
    rw [hl, hr, retire_concat, if_pos ⟨hz, hp⟩]
    apply joined_append.mpr
    refine ⟨(joined_append.mp hjl).1, (List.isChain_cons.mp hjr).2, ?_⟩
    intro y hy q hq hyf
    rw [hl'] at hy
    exact absurd hyf (hout.1 y hy)

theorem Attempt.joined (h : Attempt os found x segs w segs' c n) (v : Layout areas segs)
    (hn : segs.Nodup) (hj : Joined segs)
    (hfound : ∀ s ∈ segs, found s → ¬(s.base < startIn x s ∧
      refusal os s.toTag (startIn x s) x.size = some .back)) : Joined segs' := by
  cases h with
  | nothing => exact hj
  | kept => exact hj
  | @cut l r s _ q e k hf hr =>
    have hs : s ∈ segs := by simp [e]
    have hle : ¬startIn x s > s.base := fun hlt => hfound s hs hf ⟨hlt, hr⟩
    have hcut : cutFront s (startIn x s) q = ([], s) := if_neg hle
    rw [hcut, List.append_nil, ← e]
    exact hj
  | @undone l r f b s m _ e k hf hr hnext hcut =>
    have hs : s ∈ segs := by simp [e]
    have hns : s.type ≠ .span := by simp [k.free]
    have hend := v.end_le hn hs hns
    have hpos := v.size_pos hn hs hns
    have hsize := v.size_lt hn hs hns
    rw [e] at v hn hj
    obtain ⟨P, N, hP, hN, he⟩ := release_cut (l := l) (r := r) hcut hsize
      (startIn_lt (x := x) (s := s) (by omega))
    have hP' : P = (l, { s with type := .live, ref := m.ref }) := by
      cases hP with
      | inl hP => exact hP
      | inr hP => rw [hP, hj.absorbPrev_eq k.free]
    have hN' : N = ({ s with type := .live, ref := m.ref }, r) := by
      rw [hP'] at hN
      cases hN with
      | inl hN => exact hN
      | inr hN => rw [hN, hj.absorbNext_eq k.free]
    rw [he, hP', hN']
    exact v.retire_joined hn hj k.free _
  | @served l r f b s m _ e k hf hr hcut =>
    rw [e] at hj
    obtain ⟨q, q', hq, hk⟩ := hcut.cut
    have hfl : f.length ≤ 1 := hq ▸ cutFront_length s (startIn x s) q
    have hbl : b.length ≤ 1 := by
      have hb : b = (cutBack (cutFront s (startIn x s) q).2 x.size q').2 := congrArg Prod.snd hk
      rw [hb]
      exact cutBack_length _ _ _
    exact hj.live k.free hfl hbl rfl

theorem Free.joined {base : ℕ} (h : Free base segs segs' c) (v : Layout areas segs)
    (hn : segs.Nodup) (hends : ∀ ar ∈ areas, ar.base + ar.size < 4294967296) (hj : Joined segs) :
    Joined segs' := by
  cases h with
  | unknown => exact hj
  | @known l r s c e hl hb hc =>
    obtain ⟨A, ar, B, p₁, p₂, hareas, hpieces, hleft, hright⟩ := v.locate hn e (by simp [hl])
    rw [hareas] at v
    have har := hends ar (by simp [hareas])
    have htiles := (v.tiled ar (by simp)).tiles
    rw [hpieces] at htiles
    rw [e, hleft, hright] at hj
    have hsplit : A.flatMap Area.segs ++ ar.opening ++ p₁ ++
        s :: (p₂ ++ ar.closing ++ B.flatMap Area.segs) =
        A.flatMap Area.segs ++ (ar.opening ++ (p₁ ++ s :: p₂) ++ ar.closing) ++
          B.flatMap Area.segs := by simp
    rw [hsplit] at hj
    obtain ⟨hjA, hjB, -⟩ := joined_append.mp hj
    obtain ⟨hjA, hjar, -⟩ := joined_append.mp hjA
    obtain ⟨hjp, -, -⟩ := joined_append.mp hjar
    have hco := coalesced_joined (joined_append.mp hjp).2.1 htiles har
    rw [hleft, hright, release_area (fun t ht => ((v.tiled ar (by simp)).plain t (by
      rw [hpieces]
      simp at ht ⊢
      tauto)).1) (fun hnone => v.marks_none hnone)]
    split
    · rename_i halone
      have hout := v.outside halone.1
      exact joined_append.mpr ⟨hjA, hjB, fun y hy q _ hyf => absurd hyf (hout.1 y hy)⟩
    · cases hmarks : ar.marks with
      | none =>
        obtain ⟨hA, hB⟩ := v.marks_none hmarks
        rw [hA, hB, Area.opening, Area.closing, hmarks]
        simpa using hco
      | some marks =>
        have hopen : ar.opening = [marker ar.base ar.size marks.1] := by
          rw [Area.opening, hmarks]
        have hclose : ar.closing = [marker (u32 (ar.base + ar.size)) 0 marks.2] := by
          rw [Area.closing, hmarks]
        rw [hopen, hclose, List.append_assoc, List.append_assoc, List.append_assoc,
          List.singleton_append, List.singleton_append]
        apply (joined_marker rfl).mpr
        refine ⟨hjA, ?_⟩
        exact (joined_marker rfl).mpr ⟨hco, hjB⟩

theorem found_apart (v : Linked a segs bins []) (h : ¬SplitsApart a x) :
    ∀ s ∈ segs, Found a x s → ¬(s.base < startIn x s ∧
      refusal a.os s.toTag (startIn x s) x.size = some .back) := by
  intro s hs hf hbad
  apply h
  exact ⟨s, by rwa [v.listed.segments_eq], hf, hbad⟩

theorem joined_span {i : Import} {p q z : ℕ} (h : Joined (l ++ r)) :
    Joined (l ++ spanSegs i p q z ++ r) := by
  obtain ⟨hl, hr, -⟩ := joined_append.mp h
  have hsplit : l ++ spanSegs i p q z ++ r = l ++ marker i.base i.size p ::
      ([⟨⟨.free, i.base, i.size, i.mapping⟩, q⟩] ++
        marker (u32 (i.base + i.size)) 0 z :: r) := by
    simp [spanSegs]
  rw [hsplit]
  apply (joined_marker rfl).mpr
  refine ⟨hl, ?_⟩
  exact (joined_marker rfl).mpr ⟨.singleton _, hr⟩

theorem Inv.alloc_joined {res : List Extent} {blocks : Blocks} (I : Inv res a blocks)
    (hexact : Exact a (.alloc x answer)) (hkeep : KeepsJoined a (.alloc x answer))
    (hj : Joined (segments a))
    (hs : raAlloc a x.size x.flags x.alignment answer = some (w, a')) :
    Joined (segments a') := by
  obtain ⟨segs, bins, areas, v, y, k, hh⟩ := I.shown
  obtain ⟨hroom, hans⟩ := hexact
  rw [v.listed.segments_eq] at hj hroom
  have hn := v.listed.nodup
  have hroom₀ := y.room hroom
  have hin : ∀ s ∈ segs, Chosen x s → Found a x s → Within x s :=
    fun s hs k _ => (hroom₀.fit y hn hs k).within
  obtain ⟨res₁, a₁, segs₁, bins₁, c₁, he₁, h₁, v₁, k₁, hc₁⟩ := attempt_simulated v x
  have hj₁ := h₁.joined y hn hj (found_apart v hkeep.1)
  obtain ⟨areas₁, y₁, hm₁⟩ := h₁.layout y hn hin
  unfold raAlloc at hs
  rw [he₁] at hs
  cases res₁ with
  | some g =>
    dsimp only at hs
    rw [Option.some.injEq, Prod.mk.injEq] at hs
    rw [← hs.2, v₁.listed.segments_eq]
    exact hj₁
  | none =>
    dsimp only at hs
    cases himport : a₁.importAlloc with
    | false =>
      simp only [himport, Option.some.injEq, Prod.mk.injEq] at hs
      rw [← hs.2, v₁.listed.segments_eq]
      exact hj₁
    | true =>
      cases answer with
      | none =>
        simp only [himport, Option.some.injEq, Prod.mk.injEq] at hs
        rw [← hs.2, v₁.listed.segments_eq]
        exact hj₁
      | some i =>
        simp only [himport] at hs
        obtain ⟨hpos, hlt, hapart⟩ := hans i rfl
        have hsecond := hkeep.2 i rfl
        rw [secondArena, he₁] at hsecond
        dsimp only at hsecond
        rw [if_pos himport] at hsecond
        unfold allocFromImport at hs
        dsimp only at hs
        have v₂ := v₁.set_calls
          (a₁.calls ++ [.imported (importSize a₁.quantum x.size x.alignment) i])
        rcases insertResourceSpan_linked v₂ i.base i.size with
          ⟨a₃, he₃, v₃, -⟩ | ⟨a₃, bins₃, l, r, p, q, z, m, he₃, hlr, hp, v₃, -⟩
        · rw [he₃] at hs
          simp only [Option.some.injEq, Prod.mk.injEq] at hs
          rw [← hs.2, (v₃.set_calls _).listed.segments_eq]
          exact hj₁
        · rw [he₃] at hs
          dsimp only at hs
          have hspan : spanArena a₁ x i =
              some (modifyTag a₃ q fun t => { t with mapping := i.mapping }) := by
            rw [spanArena, he₃]
          have hapart₂ := hsecond _ hspan
          rw [List.append_cons] at v₃
          have v₄ := v₃.set_mapping i.mapping
          have hsegs : (l ++ [marker i.base i.size p]) ++
              ({ toTag := ⟨.free, i.base, i.size, i.mapping⟩, ref := q } : Seg) ::
                (marker (u32 (i.base + i.size)) 0 z :: r) = l ++ spanSegs i p q z ++ r := by
            simp [spanSegs]
          rw [hsegs] at v₄
          -- the areas with the new span among them
          have k₂ := k.moves y I.initial hm₁
          have himport₀ : a.importAlloc = true := k₁.importAlloc.symm.trans himport
          rw [I.single himport₀] at k₂
          have havoids := k₂.avoids (i := i) fun j hj => hapart j (hm₁.outstanding_subset j hj)
          rw [show segs₁ = l ++ r from hlr] at y₁ hj₁
          obtain ⟨A, B, -, y₂, -⟩ := y₁.insert hp (fun ar har => k₂.marks_ne har) havoids hpos
            (by omega) p q z
          generalize modifyTag a₃ q (fun t => { t with mapping := i.mapping }) = b
            at hs v₄ hapart₂
          obtain ⟨res₂, a₄, segs₄, bins₄, c₄, he₄, h₄, v₅, -⟩ := attempt_simulated v₄ x
          have hj₄ := h₄.joined y₂ v₄.listed.nodup (joined_span hj₁) (found_apart v₄ hapart₂)
          rw [hs, Option.some.injEq, Prod.mk.injEq] at he₄
          rw [he₄.2, v₅.listed.segments_eq]
          exact hj₄

theorem Inv.step_joined {res : List Extent} {blocks : Blocks} {op : Op} (I : Inv res a blocks)
    (hexact : Exact a op) (hkeep : KeepsJoined a op) (hj : Joined (segments a))
    (hs : Arenas.step a op = some (w, a')) : Joined (segments a') := by
  cases op with
  | alloc x answer => exact I.alloc_joined hexact hkeep hj hs
  | free base backing =>
    obtain ⟨segs, bins, areas, v, y, k, hh⟩ := I.shown
    obtain ⟨segs', bins', c, hf, v', -⟩ := raFree_simulated v base backing
    cases hs
    rw [v.listed.segments_eq] at hj
    rw [v'.listed.segments_eq]
    exact hf.joined y v.listed.nodup (k.below I.below) hj

theorem Created.joined {res : List Extent} (h : Created a res) : Joined (segments a) := by
  cases h with
  | resource h hq hs hr he =>
    obtain ⟨segs, bins, v, -, -, -, -, -, hone⟩ := raCreate_linked h
    obtain ⟨q, hsegs⟩ := hone hs
    rw [v.listed.segments_eq, hsegs]
    exact .singleton _
  | imports h =>
    obtain ⟨segs, bins, v, -, -, -, -, hnone, -⟩ := raCreate_linked h
    rw [v.listed.segments_eq, hnone rfl]
    exact .nil

/-- Over every run whose allocations leave no two free pieces of one segment, free neighbours are
    joined. -/
theorem joined_over_run {res : List Extent} {a₀ : RaArena} {l : List (Op × Result)}
    (hc : Created a₀ res) (run : Run step (fun a op => Exact a op ∧ KeepsJoined a op) a₀ l a) :
    Inv res a (l.foldl record fun _ => none) ∧ Joined (segments a) :=
  run.ledger (fun a blocks => Inv res a blocks ∧ Joined (segments a)) record _ ⟨hc.inv, hc.joined⟩
    fun _ _ _ _ _ hI hok hs => ⟨hI.1.step hok.1 hs, hI.1.step_joined hok.1 hok.2 hI.2 hs⟩

end
end PvrServices.Arenas
