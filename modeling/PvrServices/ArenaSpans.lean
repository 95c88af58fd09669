import PvrServices.ArenaContract

set_option autoImplicit false

/-!
# Spans and the blocks in them

While the allocator never refuses memory, every imported span holds a block and no two free
segments of it are neighbours. The span goes back with its last block.
-/
namespace PvrServices.Arenas
open Words HashTable LinkedRing Tiling Runs

def Loose (s t : Seg) : Prop := ¬ (s.type = .free ∧ t.type = .free)

structure Area.Used (ar : Area) : Prop where
  live : ∃ s ∈ ar.pieces, s.type = .live
  loose : ar.pieces.IsChain Loose

section
variable {a a' : RaArena} {segs segs' l r f b p₁ p₂ : List Seg} {s m : Seg} {bins : ℕ → List ℕ}
  {x : Request} {areas A B : List Area} {ar : Area} {c : List Call} {os : Os} {n : ℕ}
  {found : Seg → Prop} {blocks : Blocks} {o : List Import} {w : Result} {lo hi : ℕ}

theorem loose_left (h : s.type ≠ .free) (t : Seg) : Loose s t := fun k => h k.1

theorem loose_right (h : s.type ≠ .free) (t : Seg) : Loose t s := fun k => h k.2

theorem isChain_of_length_le_one (h : f.length ≤ 1) : f.IsChain Loose := by
  match f, h with
  | [], _ => exact .nil
  | [_], _ => exact .singleton _

theorem cut_loose (h : (p₁ ++ s :: p₂).IsChain Loose) (hs : s.type = .free)
    (k : ExactCut x s f m b) :
    (p₁ ++ (f ++ { m with type := .live } :: b) ++ p₂).IsChain Loose := by
  rw [List.isChain_append, List.isChain_cons] at h
  obtain ⟨h₁, ⟨hnext, h₂⟩, hprev⟩ := h
  have hl : ∀ t ∈ p₁.getLast?, t.type ≠ .free := fun t ht hf => hprev t ht s (by simp) ⟨hf, hs⟩
  have hr : ∀ t ∈ p₂.head?, t.type ≠ .free := fun t ht hf => hnext t ht ⟨hs, hf⟩
  have hlive : ({ m with type := .live } : Seg).type ≠ .free := by simp
  have hback : ({ m with type := .live } :: b ++ p₂).IsChain Loose := by
    rw [List.cons_append, List.isChain_cons, List.isChain_append]
    exact ⟨fun t _ => loose_left hlive t, isChain_of_length_le_one k.back, h₂,
      fun t _ u hu => loose_right (hr u hu) t⟩
  have hfront : (p₁ ++ f).IsChain Loose := by
    rw [List.isChain_append]
    exact ⟨h₁, isChain_of_length_le_one k.front, fun t ht u _ => loose_left (hl t ht) u⟩
  rw [← List.append_assoc, List.append_assoc (p₁ ++ f), List.isChain_append]
  refine ⟨hfront, hback, fun t _ u hu => ?_⟩
  obtain rfl : { m with type := .live } = u := by simpa using hu
  exact loose_right hlive t

theorem absorbPrev_loose (t : Tiles (fun s : Seg => s.base) (fun s => s.size) lo
    (p₁ ++ s :: p₂) hi) (hhi : hi ≤ 4294967296) (h : p₁.IsChain Loose) :
    (absorbPrev p₁ s).1.IsChain Loose ∧ ∀ q ∈ (absorbPrev p₁ s).1.getLast?, q.type ≠ .free := by
  rcases List.eq_nil_or_concat p₁ with rfl | ⟨p, q, rfl⟩
  · exact ⟨.nil, by simp⟩
  · rw [List.concat_eq_append] at t h ⊢
    rw [absorbPrev_concat]
    have hmeets : Meets q s := by
      rw [List.append_assoc, List.singleton_append, tiles_middle_iff, tiles_cons_iff] at t
      obtain ⟨-, -, hb, hsz, tr⟩ := t
      have hle := tr.le
      unfold Meets
      rw [u32_of_lt (by omega)]
      exact hb.symm
    split
    · rename_i hc
      rw [List.isChain_append] at h
      exact ⟨h.1, fun u hu hf => h.2.2 u hu q (by simp) ⟨hf, hc.1⟩⟩
    · rename_i hc
      refine ⟨h, fun u hu hf => hc ⟨?_, hmeets⟩⟩
      obtain rfl : q = u := by simpa using hu
      exact hf

theorem absorbNext_loose (t : Tiles (fun s : Seg => s.base) (fun s => s.size) lo
    (p₁ ++ s :: p₂) hi) (hhi : hi ≤ 4294967296) (h : p₂.IsChain Loose) :
    (absorbNext s p₂).2.IsChain Loose ∧ ∀ q ∈ (absorbNext s p₂).2.head?, q.type ≠ .free := by
  cases p₂ with
  | nil => exact ⟨.nil, by simp⟩
  | cons q p₂ =>
    rw [absorbNext_cons]
    have hmeets : Meets s q := by
      rw [tiles_middle_iff, tiles_cons_iff] at t
      obtain ⟨-, -, hb, hsz, tr⟩ := t
      have hle := tr.le
      unfold Meets
      rw [u32_of_lt (by omega)]
      exact hb.symm
    split
    · rename_i hc
      rw [List.isChain_cons] at h
      exact ⟨h.2, fun u hu hf => h.1 u hu ⟨hc.1, hf⟩⟩
    · rename_i hc
      refine ⟨h, fun u hu hf => hc ⟨?_, hmeets⟩⟩
      obtain rfl : q = u := by simpa using hu
      exact hf

structure Settled (p₁ : List Seg) (s : Seg) (p₂ : List Seg) : Prop where
  loose : (coalesced p₁ s p₂).IsChain Loose
  last : ∀ q ∈ (absorbPrev p₁ s).1.getLast?, q.type ≠ .free
  head : ∀ q ∈ (absorbNext (absorbPrev p₁ s).2 p₂).2.head?, q.type ≠ .free

theorem coalesced_settled (t : Tiles (fun s : Seg => s.base) (fun s => s.size) lo
    (p₁ ++ s :: p₂) hi) (hhi : hi ≤ 4294967296) (hlt : hi - lo < 4294967296)
    (h : (p₁ ++ s :: p₂).IsChain Loose) : Settled p₁ s p₂ := by
  rw [List.isChain_append, List.isChain_cons] at h
  obtain ⟨h₁, hl⟩ := absorbPrev_loose t hhi h.1
  obtain ⟨h₂, hr⟩ := absorbNext_loose (absorbPrev_tiles t hlt) hhi h.2.1.2
  refine ⟨?_, hl, hr⟩
  unfold coalesced
  rw [List.isChain_append, List.isChain_cons]
  refine ⟨h₁, ⟨fun u hu => loose_right (hr u hu) _, h₂⟩, fun u hu v _ => loose_left (hl u hu) v⟩

theorem live_of_plain (h : s.type ≠ .span) (hf : s.type ≠ .free) : s.type = .live := by
  cases ht : s.type with
  | span => exact absurd ht h
  | free => exact absurd ht hf
  | live => rfl

/-- A freed segment leaves a live one behind, or nothing but itself. -/
theorem Area.Tiled.released (har : ar.Tiled) (hk : ar.marks ≠ none)
    (hp : ar.pieces = p₁ ++ s :: p₂) (h : ar.pieces.IsChain Loose) :
    (Alone ar p₁ s p₂ ∧ lives p₁ = [] ∧ lives p₂ = []) ∨
    (¬ Alone ar p₁ s p₂ ∧ (ar.withPieces (coalesced p₁ s p₂)).Used) := by
  have ht := har.tiles
  have hle := har.end_le
  have hlt := har.size_lt
  rw [hp] at ht h
  have k := coalesced_settled ht hle (by omega) h
  have hplain : ∀ t ∈ p₁ ++ p₂, t.type ≠ .span := by
    intro t hm
    refine (har.plain t ?_).1
    rw [hp]
    simp at hm ⊢
    tauto
  by_cases hal : Alone ar p₁ s p₂
  · refine Or.inl ⟨hal, ?_, ?_⟩
    · rw [← lives_absorbPrev (s := s), hal.2.1, lives_nil]
    · rw [← lives_absorbNext (s := (absorbPrev p₁ s).2), hal.2.2, lives_nil]
  · refine Or.inr ⟨hal, ?_, k.loose⟩
    -- a neighbour that is left is not free
    by_cases h₁ : (absorbPrev p₁ s).1 = []
    · have h₂ : (absorbNext (absorbPrev p₁ s).2 p₂).2 ≠ [] := fun h₂ => hal ⟨hk, h₁, h₂⟩
      obtain ⟨q, e, he⟩ := List.exists_cons_of_ne_nil h₂
      have hq : q ∈ p₂ := mem_absorbNext (s := (absorbPrev p₁ s).2) (by simp [he])
      refine ⟨q, ?_, live_of_plain (hplain q (by simp [hq])) (k.head q (by simp [he]))⟩
      simp [Area.withPieces, coalesced, he]
    · obtain ⟨e, q, he⟩ := (List.eq_nil_or_concat _).resolve_left h₁
      rw [List.concat_eq_append] at he
      have hq : q ∈ p₁ := mem_absorbPrev (s := s) (by simp [he])
      refine ⟨q, ?_, live_of_plain (hplain q (by simp [hq])) (k.last q (by simp [he]))⟩
      simp [Area.withPieces, coalesced, he]

theorem Layout.area_of_live (v : Layout areas segs) (hs : s ∈ lives segs) :
    ∃ ar ∈ areas, s ∈ ar.pieces ∧ ar.base ≤ s.base ∧ s.base < ar.base + ar.size := by
  rw [v.lives_eq] at hs
  obtain ⟨ar, har, hs⟩ := List.mem_flatMap.mp hs
  have hm := (mem_lives.mp hs).1
  have := (v.tiled ar har).tiles.mem hm
  exact ⟨ar, har, hm, by omega, by omega⟩

theorem Layout.spared {t : Seg} (v : Layout (A ++ ar :: B) segs) (ht : t ∈ lives segs)
    (hn : t ∉ ar.pieces) : t.base < ar.base ∨ ar.base + ar.size ≤ t.base := by
  obtain ⟨y, hy, hty, hlo, hhi⟩ := v.area_of_live ht
  have hap := v.apart
  rw [List.pairwise_append, List.pairwise_cons] at hap
  rcases List.mem_append.mp hy with hy | hy
  · have := hap.2.2 y hy ar (by simp)
    omega
  · rcases List.mem_cons.mp hy with rfl | hy
    · exact absurd hty hn
    · have := hap.2.1.1 y hy
      omega

theorem Attempt.served_of_some {r : Option BmMapping × ℕ}
    (h : Attempt os found x segs (some r) segs' c n) :
    ∃ l r' s f m b, segs = l ++ s :: r' ∧ Chosen x s ∧ found s ∧
      refusal os s.toTag (startIn x s) x.size = none ∧ Cut s (startIn x s) x.size f m b ∧ r = (m.mapping, m.base) ∧ c = [] ∧
      segs' = l ++ f ++ { m with type := .live } :: (b ++ r') := by
  cases h with
  | served e k hf hr hcut => exact ⟨_, _, _, _, _, _, e, k, hf, hr, hcut, rfl, rfl, rfl⟩

/-- Serving a request leaves every area used, even the one that had no live segment. -/
theorem Layout.served_used (v : Layout areas segs) (hn : segs.Nodup) (e : segs = l ++ s :: r)
    (k : Chosen x s) (hin : Within x s) (hcut : Cut s (startIn x s) x.size f m b)
    (hl : ∀ ar ∈ areas, ar.pieces.IsChain Loose)
    (hu : ∀ ar ∈ areas, s ∉ ar.pieces → ∃ t ∈ ar.pieces, t.type = .live) :
    ∃ areas', Layout areas' (l ++ f ++ { m with type := .live } :: (b ++ r)) ∧
      areas'.map Area.extent = areas.map Area.extent ∧ ∀ ar ∈ areas', ar.Used := by
  have hs : s ∈ segs := by simp [e]
  have hend := v.end_le hn hs (by simp [k.free])
  have kx := hcut.exact k.free hin hend (v.size_pos hn hs (by simp [k.free]))
  obtain ⟨A, ar, B, p₁, p₂, rfl, hp, -, -, v'⟩ :=
    v.exchange hn e (by simp [k.free]) kx.live.1 kx.live.2
  have he : ∀ m, l ++ (f ++ m :: b) ++ r = l ++ f ++ m :: (b ++ r) := by simp
  rw [he] at v'
  refine ⟨_, v', by simp [Area.extent_withPieces], ?_⟩
  have hloose := hl ar (by simp)
  rw [hp] at hloose
  -- the other areas do not have the segment
  have hother : ∀ y ∈ A ++ B, s ∉ y.pieces := by
    intro y hy hsy
    have h₁ := (v.tiled y (by simp at hy ⊢; tauto)).tiles.mem hsy
    have h₂ := (v.tiled ar (by simp)).tiles.mem (show s ∈ ar.pieces by simp [hp])
    have hap := v.apart
    rw [List.pairwise_append, List.pairwise_cons] at hap
    rcases List.mem_append.mp hy with hy | hy
    · have := hap.2.2 y hy ar (by simp)
      omega
    · have := hap.2.1.1 y hy
      omega
  have hkeep : ∀ y ∈ A ++ B, y.Used := by
    intro y hy
    have hm : y ∈ A ++ ar :: B := by
      simp at hy ⊢
      tauto
    exact ⟨hu y hm (hother y hy), hl y hm⟩
  intro y hy
  rcases List.mem_append.mp hy with hy | hy
  · exact hkeep y (by simp [hy])
  · rcases List.mem_cons.mp hy with rfl | hy
    · refine ⟨⟨{ m with type := .live }, by simp [Area.withPieces], rfl⟩, ?_⟩
      exact cut_loose hloose k.free kx
    · exact hkeep y (by simp [hy])

def Import.segment (i : Import) (q : ℕ) : Seg := ⟨⟨.free, i.base, i.size, i.mapping⟩, q⟩

theorem Attempt.nothing_of_none (h : Attempt os found x segs none segs' c n) (hs : ∀ k, os.grants k = true) :
    NothingFits x segs ∧ segs' = segs ∧ c = [] := by
  cases h with
  | nothing h => exact ⟨h, rfl, rfl⟩
  | kept _ _ _ hr | cut _ _ _ _ hr | undone _ _ _ hr =>
    obtain ⟨k, hk⟩ := scarce_of_refusal hr
    rw [hs k] at hk
    cases hk

theorem Books.of_extents (k : Books [] o areas) {areas' : List Area}
    (h : areas'.map Area.extent = areas.map Area.extent) : Books [] o areas' := by
  unfold Books at *
  rwa [h]

theorem only_span_fits {i : Import} {p q z : ℕ} (h : NothingFits x (l ++ r))
    (hsize : ∀ s ∈ l ++ spanSegs i p q z ++ r, s.type ≠ .span → s.size < 4294967296) :
    ∀ s ∈ l ++ spanSegs i p q z ++ r, Chosen x s → s = i.segment q := by
  intro s hs c
  by_contra hne
  have hlog : pvrLog2 s.size < 32 := by
    have hlt := hsize s hs (by simp [c.free])
    rw [pvrLog2_eq hlt]
    exact log_lt hlt
  simp only [spanSegs, List.mem_append, List.mem_cons, List.not_mem_nil, or_false] at hs
  rcases hs with (hs | rfl | rfl | rfl) | hs
  · exact h s (by simp [hs]) hlog c
  · exact absurd c.free (by simp [marker])
  · exact hne rfl
  · exact absurd c.free (by simp [marker])
  · exact h s (by simp [hs]) hlog c

theorem Alloc.used {quantum : ℕ} {imports : Bool} {answer : Option Import}
    (h : Alloc os found quantum imports x answer segs w segs' c) (hs : ∀ k, os.grants k = true)
    (v : Layout areas segs) (hn : segs.Nodup) (k : Books [] o areas)
    (hu : ∀ ar ∈ areas, ar.Used) (hin : ∀ s ∈ segs, Chosen x s → found s → Within x s)
    (hans : NothingFits x segs → ∀ i, answer = some i → 0 < i.size ∧
      i.base + i.size ≤ 4294967296 ∧ (∀ j ∈ o, i.Apart j) ∧
      ∀ q, Chosen x (i.segment q) ∧ Within x (i.segment q)) :
    ∃ areas', Layout areas' segs' ∧ Books [] (c.foldl settle o) areas' ∧
      (∀ ar ∈ areas', ar.Used) ∧ Turnover (fun _ _ => True) x (lives segs) (lives segs') w ∧
      (c = [] ∨ ∃ asked i, c = [.imported asked i]) := by
  cases h with
  | first h =>
    have ht := h.turnover (P := fun _ _ => True) v hn hin fun _ _ _ _ _ _ _ _ => trivial
    obtain ⟨l, r, s, f, m, b, e, c, hf, -, hcut, rfl, rfl, rfl⟩ := h.served_of_some
    obtain ⟨areas', v', he, hu'⟩ := v.served_used hn e c (hin s (by simp [e]) c hf) hcut
      (fun ar har => (hu ar har).loose) fun ar har _ => (hu ar har).live
    exact ⟨areas', v', k.of_extents he, hu', ht, Or.inl rfl⟩
  | noImport h =>
    obtain ⟨-, rfl, rfl⟩ := h.nothing_of_none hs
    exact ⟨areas, v, k, hu, .none rfl, Or.inl rfl⟩
  | noSpan h hsc =>
    obtain ⟨k, -, -, hk⟩ := hsc
    rw [hs k] at hk
    cases hk
  | @second l r segs'' c c' i _ _ _ p q z h himp ha hp hn' _ h' =>
    obtain ⟨hnone, rfl, rfl⟩ := h.nothing_of_none hs
    obtain ⟨hpos, hle, hapart, hfresh⟩ := hans hnone i ha
    obtain ⟨A, B, rfl, v₂, -⟩ := v.insert hp (fun ar har => k.marks_ne har) (k.avoids hapart)
      hpos hle p q z
    have hmem : i.segment q ∈ l ++ spanSegs i p q z ++ r := by
      simp [spanSegs, Import.segment]
    have honly := only_span_fits (i := i) (p := p) (q := q) (z := z) hnone
      fun s hs ht => v₂.size_lt hn' hs ht
    have hin' : ∀ s ∈ l ++ spanSegs i p q z ++ r, Chosen x s → True → Within x s :=
      fun s hs c _ => honly s hs c ▸ (hfresh q).2
    have ht := h'.turnover (P := fun _ _ => True) v₂ hn' hin' fun _ _ _ _ _ _ _ _ => trivial
    have hlive : lives (l ++ spanSegs i p q z ++ r) = lives (l ++ r) := by
      rw [lives_append, lives_append, lives_spanSegs, lives_append]
      simp
    rw [hlive] at ht
    have hlt := v₂.size_lt hn' hmem (by simp [Import.segment])
    cases w with
    | none =>
      refine absurd (hfresh q).1 ((h'.nothing_of_none hs).1 (i.segment q) hmem ?_)
      rw [pvrLog2_eq hlt]
      exact log_lt hlt
    | some w =>
      obtain ⟨l', r', s, f, m, b, e, c, -, -, hcut, rfl, rfl, rfl⟩ := h'.served_of_some
      obtain rfl := honly s (by simp [e]) c
      have hloose : ∀ ar ∈ A ++ i.area p q z :: B, ar.pieces.IsChain Loose := by
        intro ar har
        rcases List.mem_append.mp har with har | har
        · exact (hu ar (by simp [har])).loose
        · rcases List.mem_cons.mp har with rfl | har
          · exact .singleton _
          · exact (hu ar (by simp [har])).loose
      have hlives : ∀ ar ∈ A ++ i.area p q z :: B, i.segment q ∉ ar.pieces →
          ∃ t ∈ ar.pieces, t.type = .live := by
        intro ar har hni
        rcases List.mem_append.mp har with har | har
        · exact (hu ar (by simp [har])).live
        · rcases List.mem_cons.mp har with rfl | har
          · exact absurd (List.mem_singleton.mpr rfl) hni
          · exact (hu ar (by simp [har])).live
      obtain ⟨areas', v', he, hu'⟩ := v₂.served_used hn' e c (hfresh q).2 hcut hloose hlives
      refine ⟨areas', v', ?_, hu', ht, Or.inr ⟨_, i, rfl⟩⟩
      exact (k.insert (importSize quantum x.size x.alignment) p q z).of_extents he

/-- A span that a release hands back was outstanding, and held no other block. -/
structure HandsBack (o : List Import) (live : List Seg) (base : ℕ) (c : List Call) : Prop where
  known : ∀ b mapping, .importFree b mapping ∈ c → ∃ j ∈ o, j.base = b ∧ j.mapping = mapping
  last : ∀ j ∈ o, j ∈ c.foldl settle o ∨ (∃ s ∈ live, s.base = base) ∧
    (j.base ≤ base ∧ base < j.base + j.size) ∧
    ∀ t ∈ live, t.base ≠ base → t.base < j.base ∨ j.base + j.size ≤ t.base

theorem Free.used {base : ℕ} (h : Free base segs segs' c) (v : Layout areas segs)
    (hn : segs.Nodup) (k : Books [] o areas) (hu : ∀ ar ∈ areas, ar.Used) :
    ∃ areas', Layout areas' segs' ∧ Books [] (c.foldl settle o) areas' ∧
      (∀ ar ∈ areas', ar.Used) ∧ HandsBack o (lives segs) base c := by
  cases h with
  | unknown => exact ⟨areas, v, k, hu, ⟨by simp, fun j hj => Or.inl hj⟩⟩
  | @known l r s c e hl hb hc =>
    obtain ⟨A, ar, B, p₁, p₂, rfl, hp, hl', hr'⟩ := v.locate hn e (by simp [hl])
    have har := v.tiled ar (by simp)
    have hk := k.marks_ne (show ar ∈ A ++ ar :: B by simp)
    have hback : ∀ b mapping, .importFree b mapping ∉ c := by
      intro b mapping hm
      obtain ⟨u, z, hz⟩ := hc _ hm
      cases hz
    have hkeep : ∀ y ∈ A ++ B, y.Used := by
      intro y hy
      refine hu y ?_
      simp at hy ⊢
      tauto
    have hsettle : ∀ b, (c ++ handBack b).foldl settle o = (handBack b).foldl settle o := by
      intro b
      rw [List.foldl_append, settle_backing hc]
    rcases har.released hk hp (hu ar (by simp)).loose with ⟨hal, h₁, h₂⟩ | ⟨hal, hused⟩
    · rcases v.release hp hl' hr' with ⟨-, v', hrel⟩ | ⟨hna, -⟩
      · refine ⟨A ++ B, v', ?_, hkeep, ?_⟩
        · rw [hsettle, hrel]
          exact k.moves v (by simp) (.lost rfl hk rfl)
        · rw [hrel]
          refine ⟨?_, fun j hj => ?_⟩
          · intro b mapping hm
            rcases List.mem_append.mp hm with hm | hm
            · exact absurd hm (hback b mapping)
            · obtain ⟨rfl, rfl⟩ := Call.importFree.inj (List.mem_singleton.mp hm)
              obtain ⟨j, hj, hje⟩ := k.exists_import (show ar ∈ A ++ ar :: B by simp)
              exact ⟨j, hj, congrArg Extent.base hje, congrArg Extent.mapping hje⟩
          · rw [hsettle]
            by_cases hje : j.base = ar.base ∧ j.mapping = ar.mapping
            · right
              have hsize : j.size = ar.size := by
                have hm : j.extent ∈ (A ++ ar :: B).map Area.extent :=
                  k.mem_iff.mpr (by simpa using List.mem_map_of_mem hj)
                have := List.inj_on_of_nodup_map v.extents_nodup hm
                  (List.mem_map_of_mem (show ar ∈ A ++ ar :: B by simp)) hje.1
                exact congrArg Extent.size this
              have hsm := har.tiles.mem (show s ∈ ar.pieces by simp [hp])
              refine ⟨⟨s, mem_lives.mpr ⟨by simp [e], hl⟩, hb⟩, by omega, ?_⟩
              intro t ht htb
              rw [hje.1, hsize]
              refine v.spared ht ?_
              rw [hp]
              intro htp
              have htl : t ∈ lives (p₁ ++ s :: p₂) := mem_lives.mpr ⟨htp, (mem_lives.mp ht).2⟩
              rw [lives_append, lives_cons_live hl, h₁, h₂] at htl
              obtain rfl : t = s := by simpa using htl
              exact htb hb
            · left
              exact (List.mem_eraseP_of_neg (by simpa using hje)).mpr hj
      · exact absurd hal hna
    · rcases v.release hp hl' hr' with ⟨hal', -⟩ | ⟨-, v', hrel⟩
      · exact absurd hal' hal
      · refine ⟨_, v', ?_, ?_, ?_⟩
        · rw [hsettle, hrel]
          exact k.of_extents (by simp [Area.extent_withPieces])
        · intro y hy
          rcases List.mem_append.mp hy with hy | hy
          · exact hkeep y (by simp [hy])
          · rcases List.mem_cons.mp hy with rfl | hy
            · exact hused
            · exact hkeep y (by simp [hy])
        · rw [hrel]
          refine ⟨fun b mapping hm => ?_, fun j hj => Or.inl ?_⟩
          · simp [handBack, hback b mapping] at hm
          · rw [hsettle]
            exact hj

end
end PvrServices.Arenas
