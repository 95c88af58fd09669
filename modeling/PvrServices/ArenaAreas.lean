import PvrServices.ArenaTransitions
import PvrServices.Tiling

set_option autoImplicit false

/-!
# The areas of an arena

The resource and every imported span are areas: each is tiled by its segments, and a span has
a marker on either side. As long as no sum leaves the address space, the transitions of the
arena keep the areas apart and tiled.
-/
namespace PvrServices.Arenas
open Words HashTable LinkedRing Tiling

/-- A resource, or a span with the addresses of its two markers. -/
structure Area where
  base : ℕ
  size : ℕ
  mapping : Option BmMapping
  marks : Option (ℕ × ℕ)
  pieces : List Seg

def Area.opening (ar : Area) : List Seg :=
  match ar.marks with
  | none => []
  | some (p, _) => [marker ar.base ar.size p]

def Area.closing (ar : Area) : List Seg :=
  match ar.marks with
  | none => []
  | some (_, z) => [marker (u32 (ar.base + ar.size)) 0 z]

def Area.segs (ar : Area) : List Seg := ar.opening ++ ar.pieces ++ ar.closing

structure Area.Tiled (ar : Area) : Prop where
  tiles : Tiles (fun s : Seg => s.base) (fun s => s.size) ar.base ar.pieces (ar.base + ar.size)
  size_pos : 0 < ar.size
  size_lt : ar.size < 4294967296
  end_le : ar.base + ar.size ≤ 4294967296
  plain : ∀ s ∈ ar.pieces, s.type ≠ .span ∧ s.mapping = ar.mapping

/-- The areas in the order of the segment list. A resource is the only area of its arena. -/
structure Layout (areas : List Area) (segs : List Seg) : Prop where
  segs_eq : segs = areas.flatMap Area.segs
  tiled : ∀ ar ∈ areas, ar.Tiled
  apart : areas.Pairwise fun x y => x.base + x.size ≤ y.base
  marked : ∀ ar ∈ areas, ar.marks = none → areas = [ar]

def Area.withPieces (ar : Area) (pieces : List Seg) : Area := { ar with pieces := pieces }

section
variable {areas A B : List Area} {ar : Area} {segs l r f b p₁ p₂ new : List Seg} {s m q n : Seg}
  {lo hi : ℕ}

theorem Area.segs_withPieces (p : List Seg) :
    (ar.withPieces p).segs = ar.opening ++ p ++ ar.closing := rfl

theorem Layout.locate (v : Layout areas segs) (hn : segs.Nodup) (e : segs = l ++ s :: r)
    (hs : s.type ≠ .span) :
    ∃ A ar B p₁ p₂, areas = A ++ ar :: B ∧ ar.pieces = p₁ ++ s :: p₂ ∧
      l = A.flatMap Area.segs ++ ar.opening ++ p₁ ∧
      r = p₂ ++ ar.closing ++ B.flatMap Area.segs := by
  have hm : s ∈ areas.flatMap Area.segs := by
    rw [← v.segs_eq, e]
    simp
  obtain ⟨ar, har, hsar⟩ := List.mem_flatMap.mp hm
  have hp : s ∈ ar.pieces := by
    unfold Area.segs Area.opening Area.closing at hsar
    cases hk : ar.marks with
    | none => simpa [hk] using hsar
    | some k =>
      rw [hk] at hsar
      simp only [List.mem_append, List.mem_singleton] at hsar
      rcases hsar with (rfl | h) | rfl
      · exact absurd rfl hs
      · exact h
      · exact absurd rfl hs
  obtain ⟨A, B, rfl⟩ := List.append_of_mem har
  obtain ⟨p₁, p₂, hp⟩ := List.append_of_mem hp
  have hflat : l ++ s :: r = (A.flatMap Area.segs ++ ar.opening ++ p₁) ++
      s :: (p₂ ++ ar.closing ++ B.flatMap Area.segs) := by
    rw [← e, v.segs_eq]
    simp [Area.segs, hp]
  rw [e, List.nodup_middle, List.nodup_cons, List.mem_append, not_or] at hn
  obtain ⟨hl, -, hr⟩ := (List.append_cons_inj_of_notMem hn.1.1 hn.1.2).mp hflat
  exact ⟨A, ar, B, p₁, p₂, rfl, hp, hl, hr⟩

theorem Layout.withPieces (v : Layout (A ++ ar :: B) segs)
    (ht : Tiles (fun s : Seg => s.base) (fun s => s.size) ar.base new (ar.base + ar.size))
    (hp : ∀ s ∈ new, s.type ≠ .span ∧ s.mapping = ar.mapping) :
    Layout (A ++ ar.withPieces new :: B)
      (A.flatMap Area.segs ++ ar.opening ++ new ++ ar.closing ++ B.flatMap Area.segs) := by
  have har := v.tiled ar (by simp)
  refine ⟨by simp [Area.segs_withPieces], ?_, ?_, ?_⟩
  · intro x hx
    rcases List.mem_append.mp hx with hx | hx
    · exact v.tiled x (by simp [hx])
    · rcases List.mem_cons.mp hx with rfl | hx
      · exact ⟨ht, har.size_pos, har.size_lt, har.end_le, hp⟩
      · exact v.tiled x (by simp [hx])
  · have h := v.apart
    rw [List.pairwise_append, List.pairwise_cons] at h ⊢
    refine ⟨h.1, ⟨h.2.1.1, h.2.1.2⟩, ?_⟩
    intro x hx y hy
    rcases List.mem_cons.mp hy with rfl | hy
    · exact h.2.2 x hx ar (by simp)
    · exact h.2.2 x hx y (by simp [hy])
  · intro x hx hn
    rcases List.mem_append.mp hx with hx | hx
    · have := v.marked x (by simp [hx]) hn
      obtain ⟨y, A, rfl⟩ := List.exists_cons_of_ne_nil (List.ne_nil_of_mem hx)
      simp at this
    · rcases List.mem_cons.mp hx with rfl | hx
      · have := v.marked ar (by simp) hn
        cases A with
        | nil => simp at this ⊢; exact this
        | cons y A => simp at this
      · have := v.marked x (by simp [hx]) hn
        obtain ⟨y, B, rfl⟩ := List.exists_cons_of_ne_nil (List.ne_nil_of_mem hx)
        have hlen := congrArg List.length this
        simp only [List.length_append, List.length_cons, List.length_nil] at hlen
        omega

theorem Layout.remove (v : Layout (A ++ ar :: B) segs) (hk : ar.marks ≠ none) :
    Layout (A ++ B) (A.flatMap Area.segs ++ B.flatMap Area.segs) := by
  refine ⟨by simp, fun x hx => v.tiled x (by simp at hx ⊢; tauto), ?_, ?_⟩
  · exact v.apart.sublist (by simp)
  · intro x hx hn
    have hall := v.marked x (by simp at hx ⊢; tauto) hn
    have har : ar ∈ A ++ ar :: B := by simp
    rw [hall, List.mem_singleton] at har
    rw [har] at hk
    exact absurd hn hk

/-- The request fits into the segment at its aligned start, all sums being exact. -/
structure Fit (x : Request) (s : Seg) : Prop where
  aligned : x.alignment ≤ 1 ∨ x.alignment ∣ max (startIn x s) s.base
  inside : max (startIn x s) s.base + x.size ≤ s.base + s.size

theorem cutFront_tiles (start q : ℕ) (hs : s.base + s.size ≤ 4294967296)
    (hst : start < s.base + s.size) (hpos : 0 < s.size) :
    Tiles (fun s : Seg => s.base) (fun s => s.size) s.base
      ((cutFront s start q).1 ++ [(cutFront s start q).2]) (s.base + s.size) ∧
    (cutFront s start q).2.base = max start s.base ∧
    (cutFront s start q).2.base + (cutFront s start q).2.size = s.base + s.size := by
  unfold cutFront
  by_cases h : start > s.base
  · have h₁ : u32 (s.base + (start - s.base)) = start := by
      rw [u32_of_lt (by omega)]
      omega
    have h₂ : u32Sub s.size (start - s.base) = s.size - (start - s.base) :=
      u32Sub_of_le (by omega)
    rw [if_pos h]
    simp only [rear, h₁, h₂]
    refine ⟨tiles_cons_iff.mpr ⟨rfl, ?_, tiles_singleton_iff.mpr ⟨?_, ?_, ?_⟩⟩, ?_, ?_⟩
    all_goals
      try dsimp only
      omega
  · rw [if_neg h]
    dsimp only
    exact ⟨tiles_singleton_iff.mpr ⟨rfl, hpos, rfl⟩, by omega, rfl⟩

theorem cutBack_tiles (size q : ℕ) (hs : s.base + s.size ≤ 4294967296)
    (hst : 0 < s.size) (hpos : 0 < size) :
    Tiles (fun s : Seg => s.base) (fun s => s.size) s.base
      ((cutBack s size q).1 :: (cutBack s size q).2) (s.base + s.size) ∧
    (cutBack s size q).1.base = s.base ∧ (cutBack s size q).1.size = min size s.size := by
  unfold cutBack
  by_cases h : s.size > size
  · have h₁ : u32 (s.base + size) = s.base + size := u32_of_lt (by omega)
    have h₂ : u32Sub s.size size = s.size - size := u32Sub_of_le (by omega)
    rw [if_pos h]
    simp only [rear, h₁, h₂]
    refine ⟨tiles_cons_iff.mpr ⟨rfl, ?_, tiles_singleton_iff.mpr ⟨?_, ?_, ?_⟩⟩, trivial, ?_⟩
    all_goals
      try dsimp only
      try omega
  · rw [if_neg h]
    dsimp only
    exact ⟨tiles_singleton_iff.mpr ⟨rfl, hst, rfl⟩, rfl, by omega⟩

theorem cutFront_length (s : Seg) (start q : ℕ) : (cutFront s start q).1.length ≤ 1 := by
  unfold cutFront
  split <;> simp

theorem cutBack_length (s : Seg) (size q : ℕ) : (cutBack s size q).2.length ≤ 1 := by
  unfold cutBack
  split <;> simp

theorem cutFront_plain (hf : s.type = .free) (start q : ℕ) :
    ∀ t ∈ (cutFront s start q).1 ++ [(cutFront s start q).2],
      t.type = .free ∧ t.mapping = s.mapping := by
  unfold cutFront rear
  split <;> simp [hf]

theorem cutBack_plain (s : Seg) (size q : ℕ) :
    (cutBack s size q).1.mapping = s.mapping ∧ (cutBack s size q).1.type = s.type ∧
    ∀ t ∈ (cutBack s size q).2, t.type = .free ∧ t.mapping = s.mapping := by
  unfold cutBack rear
  split <;> simp

def Within (x : Request) (s : Seg) : Prop := startIn x s < s.base + s.size

/-- What the pieces of a cut are; the block ends with the segment at the latest. -/
structure ExactCut (x : Request) (s : Seg) (f : List Seg) (m : Seg) (b : List Seg) : Prop where
  tiles : Tiles (fun s : Seg => s.base) (fun s => s.size) s.base (f ++ m :: b) (s.base + s.size)
  base : m.base = max (startIn x s) s.base
  size : m.size = min x.size (s.base + s.size - m.base)
  mapping : m.mapping = s.mapping
  around : ∀ t ∈ f ++ b, t.type = .free ∧ t.mapping = s.mapping
  front : f.length ≤ 1
  back : b.length ≤ 1

theorem Fit.within {x : Request} (h : Fit x s) : Within x s := by
  have h₁ := h.inside
  have h₂ := x.size_pos
  unfold Within
  omega

theorem Cut.exact {x : Request} (k : Cut s (startIn x s) x.size f m b) (hf : s.type = .free)
    (hin : Within x s) (hs : s.base + s.size ≤ 4294967296) (hpos : 0 < s.size) :
    ExactCut x s f m b := by
  obtain ⟨q, q', rfl, hk⟩ := k.cut
  unfold Within at hin
  have hx := x.size_pos
  obtain ⟨t₁, hb₁, he₁⟩ := cutFront_tiles (startIn x s) q hs hin hpos
  have hp₁ := cutFront_plain hf (startIn x s) q
  obtain ⟨t₂, hb₂, hs₂⟩ := cutBack_tiles (s := (cutFront s (startIn x s) q).2) x.size q' (by omega)
    (by omega) hx
  obtain ⟨hm₂, -, hp₂⟩ := cutBack_plain (cutFront s (startIn x s) q).2 x.size q'
  have hlen₂ := cutBack_length (cutFront s (startIn x s) q).2 x.size q'
  rw [← hk] at t₂ hb₂ hs₂ hm₂ hp₂ hlen₂
  have hmid := hp₁ (cutFront s (startIn x s) q).2 (by simp)
  have hbase := hb₂.trans hb₁
  refine ⟨?_, hbase, ?_, hm₂.trans hmid.2, ?_, cutFront_length s _ q, hlen₂⟩
  · obtain ⟨mid, tf, tm⟩ := tiles_append_iff.mp t₁
    obtain ⟨rfl, -, -⟩ := tiles_cons_iff.mp tm
    rw [he₁] at t₂
    exact tiles_append_iff.mpr ⟨_, tf, t₂⟩
  · rw [hs₂]
    dsimp only at hb₂ hbase
    omega
  · intro t ht
    rcases List.mem_append.mp ht with ht | ht
    · exact hp₁ t (by simp [ht])
    · exact ⟨(hp₂ t ht).1, (hp₂ t ht).2.trans hmid.2⟩

theorem absorbPrev_append {c : List Seg} (h : p₁ = [] → ∀ q ∈ c.getLast?, q.type ≠ .free) :
    absorbPrev (c ++ p₁) s = (c ++ (absorbPrev p₁ s).1, (absorbPrev p₁ s).2) := by
  rcases List.eq_nil_or_concat p₁ with rfl | ⟨p, q, rfl⟩
  · rcases List.eq_nil_or_concat c with rfl | ⟨c, q, rfl⟩
    · rfl
    · have hq : q.type ≠ .free := h rfl q (by simp)
      simp [absorbPrev_concat, hq]
  · rw [List.concat_eq_append, ← List.append_assoc, absorbPrev_concat, absorbPrev_concat]
    split <;> simp

theorem absorbNext_append {c : List Seg} (h : p₂ = [] → ∀ q ∈ c.head?, q.type ≠ .free) :
    absorbNext s (p₂ ++ c) = ((absorbNext s p₂).1, (absorbNext s p₂).2 ++ c) := by
  cases p₂ with
  | nil =>
    cases c with
    | nil => rfl
    | cons q c =>
      have hq : q.type ≠ .free := h rfl q (by simp)
      simp [absorbNext_cons, hq]
  | cons q p₂ =>
    rw [List.cons_append, absorbNext_cons, absorbNext_cons]
    split <;> simp

theorem absorbPrev_tiles (t : Tiles (fun s : Seg => s.base) (fun s => s.size) lo
    (p₁ ++ s :: p₂) hi) (hlt : hi - lo < 4294967296) :
    Tiles (fun s : Seg => s.base) (fun s => s.size) lo
      ((absorbPrev p₁ s).1 ++ (absorbPrev p₁ s).2 :: p₂) hi := by
  rcases List.eq_nil_or_concat p₁ with rfl | ⟨p, q, rfl⟩
  · exact t
  · rw [List.concat_eq_append] at t ⊢
    rw [absorbPrev_concat]
    split
    · have hq := t.mem (show q ∈ p ++ [q] ++ s :: p₂ by simp)
      have hs := t.mem (show s ∈ p ++ [q] ++ s :: p₂ by simp)
      rw [show p ++ [q] ++ s :: p₂ = p ++ q :: s :: p₂ by simp, tiles_middle_iff,
        tiles_cons_iff] at t
      obtain ⟨tp, hqs, hb, hss, tr⟩ := t
      have hsize : u32 (s.size + q.size) = s.size + q.size := u32_of_lt (by omega)
      refine tiles_middle_iff.mpr ⟨tp, ?_, ?_⟩
      · dsimp only
        omega
      · rw [hsize, show q.base + (s.size + q.size) = q.base + q.size + s.size by omega]
        exact tr
    · exact t

theorem absorbNext_tiles (t : Tiles (fun s : Seg => s.base) (fun s => s.size) lo
    (p₁ ++ s :: p₂) hi) (hlt : hi - lo < 4294967296) :
    Tiles (fun s : Seg => s.base) (fun s => s.size) lo
      (p₁ ++ (absorbNext s p₂).1 :: (absorbNext s p₂).2) hi := by
  cases p₂ with
  | nil => exact t
  | cons q p₂ =>
    rw [absorbNext_cons]
    split
    · have hs := t.mem (show s ∈ p₁ ++ s :: q :: p₂ by simp)
      rw [tiles_middle_iff, tiles_cons_iff] at t
      obtain ⟨tp, hss, hb, hqs, tr⟩ := t
      have hle := tr.le
      have hsize : u32 (s.size + q.size) = s.size + q.size := u32_of_lt (by omega)
      refine tiles_middle_iff.mpr ⟨tp, ?_, ?_⟩
      · dsimp only
        omega
      · rw [hsize, ← Nat.add_assoc]
        exact tr
    · exact t

/-- The pieces of an area once `s` is coalesced with its free neighbours. -/
def coalesced (p₁ : List Seg) (s : Seg) (p₂ : List Seg) : List Seg :=
  (absorbPrev p₁ s).1 ++ { (absorbNext (absorbPrev p₁ s).2 p₂).1 with type := .free } ::
    (absorbNext (absorbPrev p₁ s).2 p₂).2

theorem absorbPrev_mapping : (absorbPrev p₁ s).2.mapping = s.mapping := by
  unfold absorbPrev
  split
  · rfl
  · split <;> rfl

theorem absorbNext_mapping : (absorbNext s p₂).1.mapping = s.mapping := by
  unfold absorbNext
  split
  · rfl
  · split <;> rfl

theorem mem_absorbPrev {t : Seg} (h : t ∈ (absorbPrev p₁ s).1) : t ∈ p₁ := by
  unfold absorbPrev at h
  split at h
  · exact h
  · split at h
    · exact List.dropLast_subset _ h
    · exact h

theorem mem_absorbNext {t : Seg} (h : t ∈ (absorbNext s p₂).2) : t ∈ p₂ := by
  unfold absorbNext at h
  split at h
  · exact h
  · split at h
    · exact List.mem_cons_of_mem _ h
    · exact h

theorem coalesced_tiles (t : Tiles (fun s : Seg => s.base) (fun s => s.size) lo
    (p₁ ++ s :: p₂) hi) (hlt : hi - lo < 4294967296) :
    Tiles (fun s : Seg => s.base) (fun s => s.size) lo (coalesced p₁ s p₂) hi := by
  have t₁ := absorbNext_tiles (absorbPrev_tiles t hlt) hlt
  rw [tiles_middle_iff] at t₁
  exact tiles_middle_iff.mpr t₁

theorem opening_last (hm : ar.marks = none → A = []) :
    ∀ q ∈ (A.flatMap Area.segs ++ ar.opening).getLast?, q.type ≠ .free := by
  intro q hq
  unfold Area.opening at hq
  cases hk : ar.marks with
  | none =>
    rw [hm hk, hk] at hq
    simp at hq
  | some k =>
    rw [hk] at hq
    obtain rfl : marker ar.base ar.size k.1 = q := by simpa using hq
    simp [marker]

theorem closing_head (hm : ar.marks = none → B = []) :
    ∀ q ∈ (ar.closing ++ B.flatMap Area.segs).head?, q.type ≠ .free := by
  intro q hq
  unfold Area.closing at hq
  cases hk : ar.marks with
  | none =>
    rw [hm hk, hk] at hq
    simp at hq
  | some k =>
    rw [hk] at hq
    obtain rfl : marker (u32 (ar.base + ar.size)) 0 k.2 = q := by simpa using hq
    simp [marker]

/-- Only a segment of a span that is left alone between its markers is handed back. -/
theorem release_area (hp : ∀ t ∈ p₁ ++ p₂, t.type ≠ .span)
    (hm : ar.marks = none → A = [] ∧ B = []) :
    release (A.flatMap Area.segs ++ ar.opening ++ p₁) s (p₂ ++ ar.closing ++ B.flatMap Area.segs) =
      if ar.marks ≠ none ∧ (absorbPrev p₁ s).1 = [] ∧
          (absorbNext (absorbPrev p₁ s).2 p₂).2 = [] then
        (A.flatMap Area.segs ++ B.flatMap Area.segs,
          some ((absorbNext (absorbPrev p₁ s).2 p₂).1.base, s.mapping))
      else
        (A.flatMap Area.segs ++ ar.opening ++ coalesced p₁ s p₂ ++ ar.closing ++
          B.flatMap Area.segs, none) := by
  unfold release
  dsimp only
  rw [absorbPrev_append fun _ => opening_last fun h => (hm h).1, List.append_assoc p₂,
    absorbNext_append fun _ => closing_head fun h => (hm h).2]
  have hmap : (absorbNext (absorbPrev p₁ s).2 p₂).1.mapping = s.mapping :=
    absorbNext_mapping.trans absorbPrev_mapping
  unfold coalesced
  have hp₁ : ∀ t ∈ (absorbPrev p₁ s).1, t.type ≠ .span :=
    fun t ht => hp t (by simp [mem_absorbPrev ht])
  have hp₂ : ∀ t ∈ (absorbNext (absorbPrev p₁ s).2 p₂).2, t.type ≠ .span :=
    fun t ht => hp t (by simp [mem_absorbNext ht])
  generalize (absorbPrev p₁ s).1 = e₁ at hp₁ ⊢
  generalize (absorbNext (absorbPrev p₁ s).2 p₂).2 = e₂ at hp₂ ⊢
  generalize (absorbNext (absorbPrev p₁ s).2 p₂).1 = t at hmap ⊢
  -- a neighbour among the pieces is no marker
  have hleft : e₁ ≠ [] → ∀ c d : List Seg, retire (c ++ e₁) t d =
      (c ++ e₁ ++ { t with type := .free } :: d, none) := by
    intro he c d
    obtain ⟨e, q, rfl⟩ := (List.eq_nil_or_concat e₁).resolve_left he
    rw [List.concat_eq_append] at hp₁ ⊢
    have hq : q.type ≠ .span := hp₁ q (by simp)
    cases d with
    | nil => rw [retire_nil_right]
    | cons n d =>
      rw [← List.append_assoc, retire_concat, if_neg (fun h => hq h.2)]
  have hright : e₂ ≠ [] → ∀ c d : List Seg, retire c t (e₂ ++ d) =
      (c ++ { t with type := .free } :: (e₂ ++ d), none) := by
    intro he c d
    obtain ⟨n, e, rfl⟩ := List.exists_cons_of_ne_nil he
    have hn : n.type ≠ .span := hp₂ n (by simp)
    rcases List.eq_nil_or_concat c with rfl | ⟨c, q, rfl⟩
    · rw [retire_nil_left, List.nil_append]
    · rw [List.concat_eq_append, List.cons_append, retire_concat, if_neg (fun h => hn h.1)]
  by_cases h₁ : e₁ = []
  · by_cases h₂ : e₂ = []
    · subst h₁ h₂
      cases hk : ar.marks with
      | none =>
        obtain ⟨rfl, rfl⟩ := hm hk
        simp [Area.opening, Area.closing, hk]
      | some k =>
        have ho : ar.opening = [marker ar.base ar.size k.1] := by simp [Area.opening, hk]
        have hc : ar.closing = [marker (u32 (ar.base + ar.size)) 0 k.2] := by
          simp [Area.closing, hk]
        rw [ho, hc, List.append_nil, List.nil_append, List.singleton_append, retire_concat,
          if_pos ⟨rfl, rfl⟩, if_pos ⟨by simp, rfl, rfl⟩, hmap]
    · rw [if_neg (fun h => h₂ h.2.2), hright h₂]
      simp
  · rw [if_neg (fun h => h₁ h.2.1), hleft h₁]
    simp

def Import.Avoids (i : Import) (ar : Area) : Prop :=
  i.base + i.size ≤ ar.base ∨ ar.base + ar.size ≤ i.base

def Import.area (i : Import) (p q z : ℕ) : Area :=
  ⟨i.base, i.size, i.mapping, some (p, z), [⟨⟨.free, i.base, i.size, i.mapping⟩, q⟩]⟩

theorem Import.area_segs (i : Import) (p q z : ℕ) : (i.area p q z).segs = spanSegs i p q z := rfl

theorem Import.area_tiled {i : Import} (hpos : 0 < i.size) (hle : i.base + i.size ≤ 4294967296)
    (p q z : ℕ) : (i.area p q z).Tiled := by
  refine ⟨tiles_singleton_iff.mpr ⟨rfl, hpos, rfl⟩, hpos, i.size_lt, hle, ?_⟩
  intro s hs
  rw [List.mem_singleton.mp hs]
  exact ⟨by simp, rfl⟩

theorem exists_place {i : Import} (ha : areas.Pairwise fun x y => x.base + x.size ≤ y.base)
    (hd : ∀ ar ∈ areas, i.Avoids ar) :
    ∃ A B, areas = A ++ B ∧ (∀ ar ∈ A, ar.base + ar.size ≤ i.base) ∧
      ∀ ar ∈ B, i.base + i.size ≤ ar.base := by
  induction areas with
  | nil => exact ⟨[], [], rfl, by simp, by simp⟩
  | cons x areas ih =>
    rw [List.pairwise_cons] at ha
    rcases hd x (by simp) with h | h
    · refine ⟨[], x :: areas, rfl, by simp, ?_⟩
      intro ar har
      rcases List.mem_cons.mp har with rfl | har
      · exact h
      · have := ha.1 ar har
        omega
    · obtain ⟨A, B, rfl, hA, hB⟩ := ih ha.2 (fun ar har => hd ar (by simp [har]))
      exact ⟨x :: A, B, rfl, by simpa using ⟨h, hA⟩, hB⟩

theorem Area.Tiled.base_le (t : ar.Tiled) (hs : s ∈ ar.segs) : s.base ≤ ar.base + ar.size := by
  have hmark : ∀ k, ar.marks = some k → s ∈ ar.opening ++ ar.closing →
      s.base ≤ ar.base + ar.size := by
    intro k hk h
    simp only [Area.opening, Area.closing, hk, List.mem_append, List.mem_singleton] at h
    rcases h with rfl | rfl
    · exact Nat.le_add_right _ _
    · exact u32_le _
  unfold Area.segs at hs
  rw [List.mem_append, List.mem_append] at hs
  cases hk : ar.marks with
  | none =>
    have ho : ar.opening = [] := by simp [Area.opening, hk]
    have hc : ar.closing = [] := by simp [Area.closing, hk]
    rw [ho, hc] at hs
    have := t.tiles.mem (show s ∈ ar.pieces by simpa using hs)
    omega
  | some k =>
    rcases hs with (hs | hs) | hs
    · exact hmark k hk (by simp [hs])
    · have := t.tiles.mem hs
      omega
    · exact hmark k hk (by simp [hs])

theorem Layout.insert {i : Import} (v : Layout areas (l ++ r)) (hp : Placed l r i.base)
    (hm : ∀ ar ∈ areas, ar.marks ≠ none) (hd : ∀ ar ∈ areas, i.Avoids ar) (hpos : 0 < i.size)
    (hle : i.base + i.size ≤ 4294967296) (p q z : ℕ) :
    ∃ A B, areas = A ++ B ∧ Layout (A ++ i.area p q z :: B) (l ++ spanSegs i p q z ++ r) ∧
      l = A.flatMap Area.segs ∧ r = B.flatMap Area.segs := by
  obtain ⟨A, B, rfl, hA, hB⟩ := exists_place v.apart hd
  have heq : l ++ r = A.flatMap Area.segs ++ B.flatMap Area.segs := by
    rw [v.segs_eq, List.flatMap_append]
  have hleft : ∀ s ∈ A.flatMap Area.segs, s.base ≤ i.base := by
    intro s hs
    obtain ⟨ar, har, hs⟩ := List.mem_flatMap.mp hs
    have h₁ := hA ar har
    have h₂ := (v.tiled ar (by simp [har])).base_le hs
    omega
  have hright : ∀ s ∈ (B.flatMap Area.segs).head?, i.base < s.base := by
    intro s hs
    cases B with
    | nil => simp at hs
    | cons ar B =>
      have hk := hm ar (by simp)
      obtain ⟨k, hk⟩ := Option.ne_none_iff_exists'.mp hk
      obtain rfl : marker ar.base ar.size k.1 = s := by
        simpa [Area.segs, Area.opening, hk] using hs
      have := hB ar (by simp)
      exact Nat.lt_of_lt_of_le (by omega) this
  -- no segment lies between the two places
  have hl : l = A.flatMap Area.segs ∧ r = B.flatMap Area.segs := by
    rcases List.append_eq_append_iff.mp heq with ⟨c, hc, hr⟩ | ⟨c, hc, hr⟩
    · cases c with
      | nil => exact ⟨by simpa using hc.symm, by simpa using hr⟩
      | cons s c =>
        have h₁ := hp.lt s (by simp [hr])
        have h₂ := hleft s (by simp [hc])
        omega
    · cases c with
      | nil => exact ⟨by simpa using hc, by simpa using hr.symm⟩
      | cons s c =>
        have h₁ := hright s (by simp [hr])
        have h₂ := hp.le s (by simp [hc])
        omega
  refine ⟨A, B, rfl, ⟨?_, ?_, ?_, ?_⟩, hl⟩
  · rw [hl.1, hl.2, ← i.area_segs]
    simp
  · intro ar har
    rcases List.mem_append.mp har with har | har
    · exact v.tiled ar (by simp [har])
    · rcases List.mem_cons.mp har with rfl | har
      · exact Import.area_tiled hpos hle p q z
      · exact v.tiled ar (by simp [har])
  · have h := v.apart
    rw [List.pairwise_append] at h
    rw [List.pairwise_append, List.pairwise_cons]
    refine ⟨h.1, ⟨hB, h.2.1⟩, ?_⟩
    intro x hx y hy
    rcases List.mem_cons.mp hy with rfl | hy
    · exact hA x hx
    · exact h.2.2 x hx y hy
  · intro ar har hk
    exfalso
    rcases List.mem_append.mp har with har | har
    · exact hm ar (by simp [har]) hk
    · rcases List.mem_cons.mp har with rfl | har
      · exact absurd hk (by simp [Import.area])
      · exact hm ar (by simp [har]) hk

end
end PvrServices.Arenas
