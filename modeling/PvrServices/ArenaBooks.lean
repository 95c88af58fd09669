import PvrServices.ArenaAreas

set_option autoImplicit false

/-!
# The books of an arena

The calls to the import callbacks say which spans are outstanding. As long as the requests fit
exactly, these spans, with the initial resource, are the areas of the arena.
-/
namespace PvrServices.Arenas
open Words HashTable LinkedRing Tiling

def settle (o : List Import) : Call → List Import
  | .imported _ i => i :: o
  | .importFree base mapping => o.eraseP fun i => i.base = base ∧ i.mapping = mapping
  | .backingStoreFree _ _ => o

def outstanding (calls : List Call) : List Import := calls.foldl settle []

structure Extent where
  base : ℕ
  size : ℕ
  mapping : Option BmMapping
  imported : Bool
deriving DecidableEq

def Area.extent (ar : Area) : Extent := ⟨ar.base, ar.size, ar.mapping, ar.marks.isSome⟩

def Import.extent (i : Import) : Extent := ⟨i.base, i.size, i.mapping, true⟩

def Books (res : List Extent) (o : List Import) (areas : List Area) : Prop :=
  (areas.map Area.extent).Perm (res ++ o.map Import.extent)

inductive Moves (areas areas' : List Area) : List Call → Prop where
  | same (h : areas'.map Area.extent = areas.map Area.extent) : Moves areas areas' []
  | lost {A B : List Area} {ar : Area} (h : areas.map Area.extent = (A ++ ar :: B).map Area.extent)
      (hk : ar.marks ≠ none) (h' : areas'.map Area.extent = (A ++ B).map Area.extent) :
      Moves areas areas' [.importFree ar.base ar.mapping]

section
variable {areas areas' A B : List Area} {ar : Area} {segs segs' l r f b p₁ p₂ new : List Seg}
  {s m : Seg} {res : List Extent} {o : List Import} {c : List Call} {x : Request} {os : Os} {n : ℕ}
  {found : Seg → Prop}

theorem Area.extent_withPieces (p : List Seg) : (ar.withPieces p).extent = ar.extent := rfl

theorem Layout.exchange (v : Layout areas segs) (hn : segs.Nodup) (e : segs = l ++ s :: r)
    (hs : s.type ≠ .span)
    (ht : Tiles (fun s : Seg => s.base) (fun s => s.size) s.base new (s.base + s.size))
    (hp : ∀ t ∈ new, t.type ≠ .span ∧ t.mapping = s.mapping) :
    ∃ A ar B p₁ p₂, areas = A ++ ar :: B ∧ ar.pieces = p₁ ++ s :: p₂ ∧
      l = A.flatMap Area.segs ++ ar.opening ++ p₁ ∧
      r = p₂ ++ ar.closing ++ B.flatMap Area.segs ∧
      Layout (A ++ ar.withPieces (p₁ ++ new ++ p₂) :: B) (l ++ new ++ r) := by
  obtain ⟨A, ar, B, p₁, p₂, rfl, hpieces, rfl, rfl⟩ := v.locate hn e hs
  refine ⟨A, ar, B, p₁, p₂, rfl, hpieces, rfl, rfl, ?_⟩
  have har := v.tiled ar (by simp)
  have hsm := har.plain s (by simp [hpieces])
  have htiles : Tiles (fun s : Seg => s.base) (fun s => s.size) ar.base (p₁ ++ new ++ p₂)
      (ar.base + ar.size) := by
    have t := har.tiles
    rw [hpieces, tiles_middle_iff] at t
    rw [List.append_assoc, tiles_append_iff]
    exact ⟨_, t.1, tiles_append_iff.mpr ⟨_, ht, t.2.2⟩⟩
  have hplain : ∀ t ∈ p₁ ++ new ++ p₂, t.type ≠ .span ∧ t.mapping = ar.mapping := by
    intro t ht
    simp only [List.mem_append] at ht
    rcases ht with (ht | ht) | ht
    · exact har.plain t (by simp [hpieces, ht])
    · exact ⟨(hp t ht).1, (hp t ht).2.trans hsm.2⟩
    · exact har.plain t (by simp [hpieces, ht])
  simpa using v.withPieces htiles hplain

theorem Layout.marks_none (v : Layout (A ++ ar :: B) segs) (h : ar.marks = none) :
    A = [] ∧ B = [] := by
  have := v.marked ar (by simp) h
  cases A with
  | nil =>
    rw [List.nil_append, List.cons.injEq] at this
    exact ⟨rfl, this.2⟩
  | cons y A =>
    have hlen := congrArg List.length this
    simp at hlen

theorem mem_coalesced {t : Seg} (h : t ∈ coalesced p₁ s p₂) :
    t ∈ p₁ ++ p₂ ∨ t.type = .free ∧ t.mapping = s.mapping := by
  unfold coalesced at h
  rcases List.mem_append.mp h with h | h
  · exact Or.inl (by simp [mem_absorbPrev h])
  · rcases List.mem_cons.mp h with rfl | h
    · exact Or.inr ⟨rfl, absorbNext_mapping.trans absorbPrev_mapping⟩
    · exact Or.inl (by simp [mem_absorbNext h])

/-- Between the markers nothing is left but the segment in hand. -/
def Alone (ar : Area) (p₁ : List Seg) (s : Seg) (p₂ : List Seg) : Prop :=
  ar.marks ≠ none ∧ (absorbPrev p₁ s).1 = [] ∧ (absorbNext (absorbPrev p₁ s).2 p₂).2 = []

instance : Decidable (Alone ar p₁ s p₂) := inferInstanceAs (Decidable (_ ∧ _ ∧ _))

theorem Layout.release (v : Layout (A ++ ar :: B) segs) (hp : ar.pieces = p₁ ++ s :: p₂)
    (hl : l = A.flatMap Area.segs ++ ar.opening ++ p₁)
    (hr : r = p₂ ++ ar.closing ++ B.flatMap Area.segs) :
    (Alone ar p₁ s p₂ ∧ Layout (A ++ B) (release l s r).1 ∧
      (release l s r).2 = some (ar.base, ar.mapping)) ∨
    (¬ Alone ar p₁ s p₂ ∧
      Layout (A ++ ar.withPieces (coalesced p₁ s p₂) :: B) (release l s r).1 ∧
      (release l s r).2 = none) := by
  have har := v.tiled ar (by simp)
  have hpl : ∀ t ∈ p₁ ++ p₂, t.type ≠ .span ∧ t.mapping = ar.mapping := by
    intro t ht
    refine har.plain t ?_
    rw [hp]
    simp at ht ⊢
    tauto
  have hsm := har.plain s (by simp [hp])
  have hlt : ar.base + ar.size - ar.base < 4294967296 := by
    have := har.size_lt
    omega
  have htiles := har.tiles
  rw [hp] at htiles
  rw [hl, hr, release_area (fun t ht => (hpl t ht).1) (fun h => v.marks_none h)]
  have t₁ := absorbNext_tiles (absorbPrev_tiles htiles hlt) hlt
  by_cases h : Alone ar p₁ s p₂
  all_goals
    have h' := h
    unfold Alone at h'
  · refine Or.inl ⟨h, ?_⟩
    rw [if_pos h']
    obtain ⟨hk, h₁, h₂⟩ := h
    rw [h₁, h₂, List.nil_append] at t₁
    have hb := (tiles_singleton_iff.mp t₁).1
    exact ⟨v.remove hk, by rw [hb, hsm.2]⟩
  · refine Or.inr ⟨h, ?_⟩
    rw [if_neg h']
    refine ⟨v.withPieces (coalesced_tiles htiles hlt) ?_, rfl⟩
    intro t ht
    rcases mem_coalesced ht with ht | ⟨hf, hm⟩
    · exact hpl t ht
    · exact ⟨by simp [hf], hm.trans hsm.2⟩

theorem Layout.release_moves (v : Layout (A ++ ar :: B) segs) (hp : ar.pieces = p₁ ++ s :: p₂)
    (hl : l = A.flatMap Area.segs ++ ar.opening ++ p₁)
    (hr : r = p₂ ++ ar.closing ++ B.flatMap Area.segs) :
    ∃ areas', Layout areas' (Arenas.release l s r).1 ∧
      Moves (A ++ ar :: B) areas' (handBack (Arenas.release l s r).2) := by
  rcases v.release hp hl hr with ⟨h, v', he⟩ | ⟨-, v', he⟩
  · rw [he]
    exact ⟨_, v', .lost rfl h.1 rfl⟩
  · rw [he]
    exact ⟨_, v', .same (by simp [Area.extent_withPieces])⟩

theorem ExactCut.live (k : ExactCut x s f m b) :
    Tiles (fun s : Seg => s.base) (fun s => s.size) s.base
      (f ++ { m with type := .live } :: b) (s.base + s.size) ∧
    ∀ t ∈ f ++ { m with type := .live } :: b, t.type ≠ .span ∧ t.mapping = s.mapping := by
  refine ⟨?_, ?_⟩
  · have t := k.tiles
    rw [tiles_middle_iff] at t ⊢
    exact t
  intro t ht
  rcases List.mem_append.mp ht with ht | ht
  · have := k.around t (by simp [ht])
    exact ⟨by simp [this.1], this.2⟩
  · rcases List.mem_cons.mp ht with rfl | ht
    · exact ⟨by simp, k.mapping⟩
    · have := k.around t (by simp [ht])
      exact ⟨by simp [this.1], this.2⟩

theorem Moves.of_extents {areas'' : List Area} (h : Moves areas areas' c)
    (he : areas''.map Area.extent = areas.map Area.extent) : Moves areas'' areas' c := by
  cases h with
  | same h => exact .same (h.trans he.symm)
  | lost h hk h' => exact .lost (he.trans h) hk h'

theorem Layout.end_le (v : Layout areas segs) (hn : segs.Nodup) (hs : s ∈ segs)
    (ht : s.type ≠ .span) : s.base + s.size ≤ 4294967296 := by
  obtain ⟨l, r, e⟩ := List.append_of_mem hs
  obtain ⟨A, ar, B, p₁, p₂, rfl, hp, -⟩ := v.locate hn e ht
  have har := v.tiled ar (by simp)
  have hm := har.tiles.mem (show s ∈ ar.pieces by simp [hp])
  have hle := har.end_le
  omega

theorem Layout.size_pos (v : Layout areas segs) (hn : segs.Nodup) (hs : s ∈ segs)
    (ht : s.type ≠ .span) : 0 < s.size := by
  obtain ⟨l, r, e⟩ := List.append_of_mem hs
  obtain ⟨A, ar, B, p₁, p₂, rfl, hp, -⟩ := v.locate hn e ht
  exact ((v.tiled ar (by simp)).tiles.mem (show s ∈ ar.pieces by simp [hp])).2.1

theorem Attempt.layout {w : Result} (h : Attempt os found x segs w segs' c n) (v : Layout areas segs)
    (hn : segs.Nodup) (hin : ∀ s ∈ segs, Chosen x s → found s → Within x s) :
    ∃ areas', Layout areas' segs' ∧ Moves areas areas' c := by
  cases h with
  | nothing | kept => exact ⟨areas, v, .same rfl⟩
  | @cut l r s _ q e k hf =>
    have hs : s ∈ segs := by simp [e]
    have hend := v.end_le hn hs (by simp [k.free])
    have hpos := v.size_pos hn hs (by simp [k.free])
    have t := (cutFront_tiles (s := s) (startIn x s) q hend (hin s hs k hf) hpos).1
    have hpl : ∀ t ∈ (cutFront s (startIn x s) q).1 ++ [(cutFront s (startIn x s) q).2],
        t.type ≠ .span ∧ t.mapping = s.mapping := by
      intro t ht
      have := cutFront_plain k.free (startIn x s) q t ht
      exact ⟨by simp [this.1], this.2⟩
    obtain ⟨A, ar, B, p₁, p₂, rfl, -, -, -, v'⟩ := v.exchange hn e (by simp [k.free]) t hpl
    have he : ∀ f, l ++ (f ++ [(cutFront s (startIn x s) q).2]) ++ r =
        l ++ f ++ (cutFront s (startIn x s) q).2 :: r := by simp
    rw [he] at v'
    exact ⟨_, v', .same (by simp [Area.extent_withPieces])⟩
  | @undone l r f b s m _ e k hf _ _ hcut =>
    have hs : s ∈ segs := by simp [e]
    have hend := v.end_le hn hs (by simp [k.free])
    have kx := (hcut.exact k.free (hin s hs k hf) hend (v.size_pos hn hs (by simp [k.free]))).live
    obtain ⟨A, ar, B, p₁, p₂, rfl, -, hl, hr, v'⟩ :=
      v.exchange hn e (by simp [k.free]) kx.1 kx.2
    have hsplit : (ar.withPieces (p₁ ++ (f ++ { m with type := .live } :: b) ++ p₂)).pieces =
        p₁ ++ f ++ { m with type := .live } :: (b ++ p₂) := by simp [Area.withPieces]
    have hleft : l ++ f = A.flatMap Area.segs ++ ar.opening ++ (p₁ ++ f) := by simp [hl]
    have hright : b ++ r = b ++ p₂ ++ ar.closing ++ B.flatMap Area.segs := by simp [hr]
    obtain ⟨areas', v₂, hm⟩ := v'.release_moves hsplit hleft hright
    exact ⟨areas', v₂, hm.of_extents (by simp [Area.extent_withPieces])⟩
  | @served l r f b s m _ e k hf _ hcut =>
    have hs : s ∈ segs := by simp [e]
    have hend := v.end_le hn hs (by simp [k.free])
    have kx := (hcut.exact k.free (hin s hs k hf) hend (v.size_pos hn hs (by simp [k.free]))).live
    obtain ⟨A, ar, B, p₁, p₂, rfl, -, -, -, v'⟩ := v.exchange hn e (by simp [k.free]) kx.1 kx.2
    have he : ∀ m, l ++ (f ++ m :: b) ++ r = l ++ f ++ m :: (b ++ r) := by simp
    rw [he] at v'
    exact ⟨_, v', .same (by simp [Area.extent_withPieces])⟩

theorem Layout.extents_nodup (v : Layout areas segs) :
    ((areas.map Area.extent).map Extent.base).Nodup := by
  rw [List.map_map]
  refine List.Pairwise.map _ ?_ (v.apart.imp_of_mem (S := fun x y => x.base ≠ y.base) ?_)
  · exact fun _ _ h => h
  · intro x y hx _ hxy
    have := (v.tiled x hx).size_pos
    omega

theorem Books.moves (k : Books res o areas) (v : Layout areas segs)
    (hres : ∀ e ∈ res, e.imported = false) (h : Moves areas areas' c) :
    Books res (c.foldl settle o) areas' := by
  unfold Books at *
  cases h with
  | same h => rwa [List.foldl_nil, h]
  | @lost A B ar he hk h' =>
    have hn := v.extents_nodup
    have hinj : ∀ e ∈ areas.map Area.extent, e.base = ar.base → e = ar.extent := by
      intro e hm hb
      exact List.inj_on_of_nodup_map hn hm (by simp [he]) hb
    set P : Extent → Bool := fun e => e.base = ar.base ∧ e.mapping = ar.mapping with hP
    have hP₁ : ∀ e, P e = true → e.base = ar.base := by
      intro e h
      exact (of_decide_eq_true h).1
    have hpair : (areas.map Area.extent).Pairwise fun e e' => P e → P e' → False := by
      refine (List.Pairwise.of_map Extent.base (fun _ _ h => h) hn).imp ?_
      intro e e' hne h₁ h₂
      exact hne ((hP₁ e h₁).trans (hP₁ e' h₂).symm)
    have hleft : (areas.map Area.extent).eraseP P = areas'.map Area.extent := by
      rw [h', he, List.map_append, List.map_cons, List.eraseP_append_right, List.eraseP_cons_of_pos,
        List.map_append]
      · simp [hP, Area.extent]
      · intro e hm h₁
        rw [he, List.map_append, List.map_cons, List.map_append, List.map_cons] at hn
        have := List.disjoint_of_nodup_append hn (List.mem_map_of_mem hm)
        exact this (by simp [hP₁ e h₁, Area.extent])
    have hright : (res ++ o.map Import.extent).eraseP P =
        res ++ (settle o (.importFree ar.base ar.mapping)).map Import.extent := by
      rw [List.eraseP_append_right, List.eraseP_map]
      · rfl
      · intro e hm h₁
        have := hinj e (k.mem_iff.mpr (by simp [hm])) (hP₁ e h₁)
        have h₂ := hres e hm
        rw [this] at h₂
        simp [Area.extent, hk] at h₂
    rw [← hleft, List.foldl_cons, List.foldl_nil, ← hright]
    exact k.eraseP P hpair

/-- The sums that `_AttemptAllocAligned` forms for the segment do not mislead its test. -/
def SafeFit (x : Request) (s : Seg) : Prop :=
  (x.alignment ≤ 1 ∨ s.base + x.alignment - 1 < 4294967296 ∨
    x.alignment ∣ s.base ∧ x.size ≤ s.size) ∧
  (4294967296 ≤ startIn x s + x.size → 4294967296 ≤ s.base + s.size)

theorem startIn_le_one (h : x.alignment ≤ 1) : startIn x s = s.base := by
  unfold startIn alignedBase
  rw [if_neg (by omega)]

theorem startIn_exact (h : 1 < x.alignment) (hb : s.base + x.alignment - 1 < 4294967296) :
    x.alignment ∣ startIn x s ∧ s.base ≤ startIn x s ∧ startIn x s < s.base + x.alignment := by
  unfold startIn alignedBase
  rw [if_pos h, u32_of_lt hb]
  have hdm := Nat.div_add_mod (s.base + x.alignment - 1) x.alignment
  have hmod := Nat.mod_lt (s.base + x.alignment - 1) (show 0 < x.alignment by omega)
  rw [Nat.mul_comm] at hdm
  exact ⟨Nat.dvd_mul_left _ _, by omega, by omega⟩

theorem startIn_wrapped (h : 1 < x.alignment) (hb : 4294967296 ≤ s.base + x.alignment - 1)
    (hs : s.base < 4294967296) : startIn x s = 0 := by
  have hal := x.alignment_lt
  unfold startIn alignedBase
  rw [if_pos h, u32_eq_mod, Nat.mod_eq_sub_mod hb, Nat.mod_eq_of_lt (by omega),
    Nat.div_eq_of_lt (by omega), Nat.zero_mul]

theorem fit_of_inside (h : x.alignment ≤ 1 ∨ x.alignment ∣ startIn x s)
    (hb : s.base ≤ startIn x s) (hi : startIn x s + x.size ≤ s.base + s.size) : Fit x s := by
  rw [← max_eq_left hb] at h hi
  exact ⟨h, hi⟩

theorem Chosen.fit (k : Chosen x s) (hs : s.base < 4294967296)
    (hend : s.base + s.size ≤ 4294967296) (hsafe : SafeFit x s) : Fit x s := by
  have hsize := x.size_lt
  have hpos := x.size_pos
  -- once the start is exact, the test compares the true ends
  have hexact : (x.alignment ≤ 1 ∨ x.alignment ∣ startIn x s) → s.base ≤ startIn x s →
      startIn x s < 4294967296 → Fit x s := by
    intro hal hle hlt
    refine fit_of_inside hal hle ?_
    have htest : ¬ u32 (s.base + s.size) < u32 (startIn x s + x.size) := by
      have hfits := k.fits
      unfold Arenas.fits at hfits
      rw [Bool.and_eq_true] at hfits
      simpa [startIn] using hfits.1
    rw [u32_eq_mod, u32_eq_mod] at htest
    have hover := hsafe.2
    omega
  rcases Nat.lt_or_ge 1 x.alignment with h1 | h1
  · rcases Nat.lt_or_ge (s.base + x.alignment - 1) 4294967296 with hb | hb
    · obtain ⟨hd, hle, hlt⟩ := startIn_exact h1 hb
      exact hexact (Or.inr hd) hle (by omega)
    · have h0 := startIn_wrapped h1 hb hs
      rcases hsafe.1 with h | h | ⟨hd, hsz⟩
      · omega
      · omega
      · have hmax : max (startIn x s) s.base = s.base := by omega
        exact ⟨Or.inr (hmax.symm ▸ hd), by omega⟩
  · have h0 := startIn_le_one (s := s) h1
    exact hexact (Or.inl h1) (by omega) (by omega)

/-- No sum formed for the request leaves the address space in any of the areas. -/
def Room (x : Request) (areas : List Area) : Prop :=
  ∀ ar ∈ areas, ar.base + ar.size + x.alignment + x.size < 4294967296

theorem Room.fit (h : Room x areas) (v : Layout areas segs) (hn : segs.Nodup) (hs : s ∈ segs)
    (k : Chosen x s) : Fit x s := by
  obtain ⟨l, r, e⟩ := List.append_of_mem hs
  obtain ⟨A, ar, B, p₁, p₂, rfl, hp, -⟩ := v.locate hn e (by simp [k.free])
  have hr := h ar (by simp)
  have hm := (v.tiled ar (by simp)).tiles.mem (show s ∈ ar.pieces by simp [hp])
  refine k.fit (by omega) (by omega) ⟨Or.inr (Or.inl (by omega)), fun hover => ?_⟩
  exfalso
  rcases Nat.lt_or_ge 1 x.alignment with h1 | h1
  · have := (startIn_exact (x := x) (s := s) h1 (by omega)).2.2
    omega
  · rw [startIn_le_one h1] at hover
    omega

theorem room_of_extents (h : Room x areas)
    (he : ∀ e ∈ areas'.map Area.extent, e ∈ areas.map Area.extent) : Room x areas' := by
  intro ar har
  obtain ⟨y, hy, hye⟩ := List.mem_map.mp (he ar.extent (List.mem_map_of_mem har))
  have hb : y.base = ar.base := congrArg Extent.base hye
  have hs : y.size = ar.size := congrArg Extent.size hye
  have := h y hy
  omega

theorem Moves.subset (h : Moves areas areas' c) :
    ∀ e ∈ areas'.map Area.extent, e ∈ areas.map Area.extent := by
  cases h with
  | same h => exact fun e he => h ▸ he
  | lost h hk h' =>
    intro e he
    rw [h', List.map_append] at he
    rw [h, List.map_append, List.map_cons, List.mem_append, List.mem_cons]
    rcases List.mem_append.mp he with he | he
    · exact Or.inl he
    · exact Or.inr (Or.inr he)

def Import.Apart (i j : Import) : Prop :=
  i.base + i.size ≤ j.base ∨ j.base + j.size ≤ i.base

theorem Books.exists_import (k : Books [] o areas) (har : ar ∈ areas) :
    ∃ j ∈ o, j.extent = ar.extent := by
  have h := k.mem_iff.mp (List.mem_map_of_mem har)
  rw [List.nil_append] at h
  exact List.mem_map.mp h

theorem Books.marks_ne (k : Books [] o areas) (har : ar ∈ areas) : ar.marks ≠ none := by
  obtain ⟨j, -, hj⟩ := k.exists_import har
  have h : true = ar.marks.isSome := congrArg Extent.imported hj
  intro hn
  simp [hn] at h

theorem Books.avoids {i : Import} (k : Books [] o areas) (hi : ∀ j ∈ o, i.Apart j) :
    ∀ ar ∈ areas, i.Avoids ar := by
  intro ar har
  obtain ⟨j, hj, he⟩ := k.exists_import har
  have hb : j.base = ar.base := congrArg Extent.base he
  have hs : j.size = ar.size := congrArg Extent.size he
  have := hi j hj
  unfold Import.Apart at this
  unfold Import.Avoids
  omega

theorem Books.insert {i : Import} (k : Books [] o (A ++ B)) (asked p q z : ℕ) :
    Books [] (settle o (.imported asked i)) (A ++ i.area p q z :: B) := by
  unfold Books at *
  rw [List.map_append, List.map_cons]
  refine List.perm_middle.trans (List.Perm.cons _ ?_)
  rwa [← List.map_append]

theorem settle_handed_back (o : List Import) (i : Import) (asked : ℕ) :
    settle (settle o (.imported asked i)) (.importFree i.base i.mapping) = o := by
  simp [settle]

theorem settle_backing (h : ∀ x ∈ c, IsBacking x) : c.foldl settle o = o := by
  induction c generalizing o with
  | nil => rfl
  | cons x c ih =>
    obtain ⟨start, stop, rfl⟩ := h x (by simp)
    exact ih (fun y hy => h y (by simp [hy]))

theorem outstanding_append (calls : List Call) :
    outstanding (calls ++ c) = c.foldl settle (outstanding calls) := by
  unfold outstanding
  rw [List.foldl_append]

theorem Moves.outstanding_subset (h : Moves areas areas' c) : ∀ j ∈ c.foldl settle o, j ∈ o := by
  cases h with
  | same => exact fun j hj => hj
  | lost => exact fun j hj => List.mem_of_mem_eraseP hj

theorem Free.layout {base : ℕ} (h : Free base segs segs' c) (v : Layout areas segs)
    (hn : segs.Nodup) (k : Books res o areas) (hres : ∀ e ∈ res, e.imported = false) :
    ∃ areas', Layout areas' segs' ∧ Books res (c.foldl settle o) areas' := by
  cases h with
  | unknown => exact ⟨areas, v, k⟩
  | @known l r s c e hl hb hc =>
    obtain ⟨A, ar, B, p₁, p₂, rfl, hp, hl', hr'⟩ := v.locate hn e (by simp [hl])
    obtain ⟨areas', v', hm⟩ := v.release_moves hp hl' hr'
    refine ⟨areas', v', ?_⟩
    rw [List.foldl_append, settle_backing hc]
    exact k.moves v hres hm

end
end PvrServices.Arenas
