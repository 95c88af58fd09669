import PvrServices.ArenaFailure

set_option autoImplicit false

/-!
# Where a block lies

The block of a successful `RA_Alloc` in any arena, all sums modulo `2^32`: it lies in the free
segment that it was cut from exactly if the sums of the fit test do not mislead.
-/
namespace PvrServices.Arenas
open Words HashTable LinkedRing Tiling Runs

structure Proper (x : Request) (s m : Seg) : Prop where
  aligned : x.alignment ≤ 1 ∨ x.alignment ∣ m.base
  long : x.size ≤ m.size
  inside : u32Sub m.base s.base + m.size ≤ s.size

/-- What a successful call has returned is a live segment inside of one that was free before,
    or inside of the new span. -/
def WellPlaced (a : RaArena) (x : Request) (answer : Option Import)
    (r : Option BmMapping × ℕ) (a' : RaArena) : Prop :=
  ∃ m ∈ segments a', m.type = .live ∧ (m.mapping, m.base) = r ∧ ∃ s, Proper x s m ∧
    (s ∈ segments a ∧ s.type = .free ∨ ∃ i ∈ answer, s = i.segment 0)

/-- No sum formed for a free segment leaves the address space, and no two of them meet. -/
structure Calm (x : Request) (segs : List Seg) : Prop where
  room : ∀ s ∈ segs, s.type = .free → s.base + s.size + x.alignment + x.size < 4294967296
  apart : segs.IsChain fun s t => ¬ (s.type = .free ∧ t.type = .free ∧ Meets s t)

/-- When a block is well placed: the sums do not mislead the test on the segment that is found,
    nor on the new span where nothing is found; behind a refusal of memory, they do not on any
    segment. -/
def Safe (a : RaArena) (x : Request) (answer : Option Import) : Prop :=
  (∀ s ∈ segments a, Found a x s → refusal a.os s.toTag (startIn x s) x.size = none → SafeFit x s) ∧
  (NothingFits x (segments a) → ∀ i ∈ answer, SafeFit x (i.segment 0)) ∧
  (∀ s ∈ segments a, Found a x s → refusal a.os s.toTag (startIn x s) x.size ≠ none →
    ∀ i ∈ answer, SafeFit x (i.segment 0) ∧ Calm x (segments a))

section
variable {a a' : RaArena} {segs segs' l r f b : List Seg} {s t m q : Seg} {bins : ℕ → List ℕ}
  {x : Request} {c : List Call} {os : Os} {n : ℕ} {found : Seg → Prop} {w : Result}
  {start size : ℕ} {answer : Option Import}

theorem Cut.block (k : Cut s start size f m b) (hst : start < 4294967296) :
    m.base = max start s.base ∧
    m.size = min size (if start > s.base then u32Sub s.size (start - s.base) else s.size) := by
  obtain ⟨q, q', rfl, hk⟩ := k.cut
  have hfront : (cutFront s start q).2.base = max start s.base ∧ (cutFront s start q).2.size =
      if start > s.base then u32Sub s.size (start - s.base) else s.size := by
    unfold cutFront
    split
    · rename_i h
      refine ⟨?_, rfl⟩
      dsimp only [rear]
      rw [u32_start hst h]
      omega
    · refine ⟨?_, rfl⟩
      dsimp only
      omega
  have hback : m.base = (cutFront s start q).2.base ∧
      m.size = min size (cutFront s start q).2.size := by
    have hm : m = (cutBack (cutFront s start q).2 size q').1 := congrArg Prod.fst hk
    rw [hm]
    unfold cutBack
    split
    · refine ⟨rfl, ?_⟩
      dsimp only
      omega
    · refine ⟨rfl, ?_⟩
      dsimp only
      omega
  rw [hback.1, hback.2, hfront.1, hfront.2]
  exact ⟨rfl, rfl⟩

theorem Chosen.test (k : Chosen x s) :
    u32 (startIn x s + x.size) ≤ u32 (s.base + s.size) := by
  have hfits := k.fits
  unfold Arenas.fits at hfits
  rw [Bool.and_eq_true] at hfits
  simpa [startIn] using hfits.1

/-- The block is proper exactly if the sums have not misled the test. -/
theorem Cut.proper_iff (k : Cut s (startIn x s) x.size f m b) (c : Chosen x s) (hw : WordSeg s) :
    Proper x s m ↔ SafeFit x s := by
  obtain ⟨hb, hsz⟩ := k.block (startIn_lt hw.1)
  have htest := c.test
  have hN := x.size_lt
  have hpos := x.size_pos
  have hB := hw.1
  have hS := hw.2
  rw [u32_eq_mod, u32_eq_mod] at htest
  have hiff : Proper x s m ↔ (x.alignment ≤ 1 ∨ x.alignment ∣ m.base) ∧ x.size ≤ m.size ∧
      u32Sub m.base s.base + m.size ≤ s.size :=
    ⟨fun h => ⟨h.aligned, h.long, h.inside⟩, fun h => ⟨h.1, h.2.1, h.2.2⟩⟩
  rw [hiff, hb, hsz]
  unfold SafeFit
  -- an exact start: the test decides by the end of the block
  have hexact : (x.alignment ≤ 1 ∨ x.alignment ∣ startIn x s) → s.base ≤ startIn x s →
      startIn x s < 4294967296 → (x.alignment ≤ 1 ∨ s.base + x.alignment - 1 < 4294967296) →
      (((x.alignment ≤ 1 ∨ x.alignment ∣ max (startIn x s) s.base) ∧
        x.size ≤ min x.size (if startIn x s > s.base then u32Sub s.size (startIn x s - s.base)
          else s.size) ∧
        u32Sub (max (startIn x s) s.base) s.base + min x.size (if startIn x s > s.base then
          u32Sub s.size (startIn x s - s.base) else s.size) ≤ s.size) ↔
      (x.alignment ≤ 1 ∨ s.base + x.alignment - 1 < 4294967296 ∨
        x.alignment ∣ s.base ∧ x.size ≤ s.size) ∧
        (4294967296 ≤ startIn x s + x.size → 4294967296 ≤ s.base + s.size)) := by
    intro hal hle hlt hno
    have hmax : max (startIn x s) s.base = startIn x s := by omega
    rw [hmax, u32Sub_of_le hle]
    have hrest : (if startIn x s > s.base then u32Sub s.size (startIn x s - s.base) else s.size) =
        if startIn x s - s.base ≤ s.size then s.size - (startIn x s - s.base)
        else s.size + 4294967296 - (startIn x s - s.base) := by
      split
      · rw [u32Sub_eq_mod hS (by omega)]
        split <;> omega
      · rw [if_pos (by omega)]
        omega
    rw [hrest]
    constructor
    · rintro ⟨-, h₁, h₂⟩
      refine ⟨by omega, fun h => ?_⟩
      split at h₁ <;> omega
    · rintro ⟨-, h⟩
      refine ⟨hal, ?_, ?_⟩ <;> split <;> omega
  rcases Nat.lt_or_ge 1 x.alignment with h1 | h1
  · rcases Nat.lt_or_ge (s.base + x.alignment - 1) 4294967296 with ha | ha
    · obtain ⟨hd, hle, hlt⟩ := startIn_exact h1 ha
      exact hexact (Or.inr hd) hle (by omega) (Or.inr ha)
    · have h0 := startIn_wrapped h1 ha hB
      rw [h0]
      have hmax : max 0 s.base = s.base := by omega
      rw [hmax, if_neg (by omega), u32Sub_of_le le_rfl]
      constructor
      · rintro ⟨h₁, h₂, h₃⟩
        exact ⟨by omega, by omega⟩
      · rintro ⟨h₁, h₂⟩
        rcases h₁ with h | h | ⟨hd, hle⟩
        · omega
        · omega
        · exact ⟨Or.inr hd, by omega, by omega⟩
  · have h0 := startIn_le_one (s := s) h1
    exact hexact (Or.inl h1) (by omega) (by omega) (Or.inl h1)

theorem safeFit_of_room (h : s.base + s.size + x.alignment + x.size < 4294967296) :
    SafeFit x s := by
  refine ⟨Or.inr (Or.inl (by omega)), fun hover => ?_⟩
  exfalso
  rcases Nat.lt_or_ge 1 x.alignment with h1 | h1
  · have := (startIn_exact (x := x) (s := s) h1 (by omega)).2.2
    omega
  · rw [startIn_le_one h1] at hover
    omega

def Covers (segs segs' : List Seg) : Prop :=
  ∀ t ∈ segs', t.type = .free → ∃ s ∈ segs, s.type = .free ∧ s.base ≤ t.base ∧
    t.base + t.size ≤ s.base + s.size

theorem Covers.of_subset (h : ∀ t ∈ segs', t ∈ segs) : Covers segs segs' :=
  fun t ht hf => ⟨t, h t ht, hf, le_rfl, le_rfl⟩

theorem Calm.absorbPrev_eq (h : Calm x (l ++ s :: r)) (hf : s.type = .free) (p : ℕ) :
    absorbPrev l { s with type := .live, ref := p } = (l, { s with type := .live, ref := p }) := by
  rcases List.eq_nil_or_concat l with rfl | ⟨l, q, rfl⟩
  · rfl
  · rw [List.concat_eq_append] at h ⊢
    have hchain := h.apart
    rw [List.isChain_append] at hchain
    rw [absorbPrev_concat, if_neg]
    rintro ⟨hq, hm⟩
    exact hchain.2.2 q (by simp) s (by simp) ⟨hq, hf, hm⟩

theorem Calm.absorbNext_eq (h : Calm x (l ++ s :: r)) (hf : s.type = .free) (p : ℕ) :
    absorbNext { s with type := .live, ref := p } r = ({ s with type := .live, ref := p }, r) := by
  cases r with
  | nil => rfl
  | cons n r =>
    have hchain := h.apart
    rw [List.isChain_append, List.isChain_cons] at hchain
    rw [absorbNext_cons, if_neg]
    rintro ⟨hn, hm⟩
    exact hchain.2.1.1 n (by simp) ⟨hf, hn, hm⟩

theorem Attempt.covers (h : Attempt os found x segs none segs' c n) (hw : WordSegs segs)
    (hc : Calm x segs) : Covers segs segs' := by
  cases h with
  | nothing | kept => exact .of_subset fun t ht => ht
  | @cut l r s _ q e k =>
    have hm : s ∈ segs := by simp [e]
    have hroom := hc.room s hm k.free
    have hfit := k.fit (hw s hm).1 (by omega) (safeFit_of_room hroom)
    have hin := hfit.within
    have hins := hfit.inside
    have hpos := x.size_pos
    unfold Within at hin
    have t := (cutFront_tiles (s := s) (startIn x s) q (by omega) hin ?_).1
    · intro u hu hf
      simp only [List.mem_append, List.mem_cons] at hu
      by_cases hpiece : u ∈ (cutFront s (startIn x s) q).1 ++ [(cutFront s (startIn x s) q).2]
      · obtain ⟨h₁, -, h₂⟩ := t.mem hpiece
        exact ⟨s, hm, k.free, h₁, h₂⟩
      · refine ⟨u, ?_, hf, le_rfl, le_rfl⟩
        simp only [List.mem_append, List.mem_singleton] at hpiece
        rw [e, List.mem_append, List.mem_cons]
        tauto
    · omega
  | @undone l r f b s m _ e k _ _ _ hcut =>
    have hm : s ∈ segs := by simp [e]
    subst e
    obtain ⟨P, N, hP, hN, he⟩ := release_cut (l := l) (r := r) hcut (hw s hm).2
      (startIn_lt (hw s hm).1)
    have hP' : P = (l, { s with type := .live, ref := m.ref }) := by
      rcases hP with rfl | rfl
      · rfl
      · exact hc.absorbPrev_eq k.free m.ref
    have hN' : N = ({ s with type := .live, ref := m.ref }, r) := by
      rw [hP'] at hN
      rcases hN with rfl | rfl
      · rfl
      · exact hc.absorbNext_eq k.free m.ref
    rw [he, hP', hN']
    intro t ht hf
    cases hr : (retire l { s with type := .live, ref := m.ref } r).2 with
    | none =>
      rw [retire_none hr] at ht
      rcases List.mem_append.mp ht with ht | ht
      · exact ⟨t, by simp [ht], hf, le_rfl, le_rfl⟩
      · rcases List.mem_cons.mp ht with rfl | ht
        · exact ⟨s, by simp, k.free, le_rfl, le_rfl⟩
        · exact ⟨t, by simp [ht], hf, le_rfl, le_rfl⟩
    | some v =>
      obtain ⟨l', p, z, r', rfl, rfl, hp, hz⟩ := retire_some hr
      rw [retire_concat, if_pos ⟨hz, hp⟩] at ht
      refine ⟨t, ?_, hf, le_rfl, le_rfl⟩
      simp only [List.mem_append, List.mem_cons] at ht ⊢
      tauto

theorem Proper.widen (h : Proper x t m) (hb : t.base ≤ m.base) (h₁ : s.base ≤ t.base)
    (h₂ : t.base + t.size ≤ s.base + s.size) : Proper x s m := by
  refine ⟨h.aligned, h.long, ?_⟩
  have hin := h.inside
  rw [u32Sub_of_le hb] at hin
  rw [u32Sub_of_le (by omega)]
  omega

def Holds (segs : List Seg) (m : Seg) (r : Option BmMapping × ℕ) : Prop :=
  m ∈ segs ∧ m.type = .live ∧ (m.mapping, m.base) = r

theorem Attempt.block {r : Option BmMapping × ℕ}
    (h : Attempt os found x segs (some r) segs' c n) (hw : WordSegs segs) :
    ∃ s m, s ∈ segs ∧ Chosen x s ∧ found s ∧ refusal os s.toTag (startIn x s) x.size = none ∧
      Holds segs' m r ∧ (Proper x s m ↔ SafeFit x s) ∧ s.base ≤ m.base := by
  obtain ⟨l, r', s, f, m, b, e, k, hf, hr, hcut, rfl, -, rfl⟩ := h.served_of_some
  have hm : s ∈ segs := by simp [e]
  have hb := (hcut.block (startIn_lt (hw s hm).1)).1
  refine ⟨s, { m with type := .live }, hm, k, hf, hr, ⟨by simp, rfl, rfl⟩, ?_, ?_⟩
  · have hiff := hcut.proper_iff k (hw s hm)
    rw [← hiff]
    exact ⟨fun h => ⟨h.aligned, h.long, h.inside⟩, fun h => ⟨h.aligned, h.long, h.inside⟩⟩
  · dsimp only
    omega

theorem Alloc.placed {quantum : ℕ} {imports : Bool} {r : Option BmMapping × ℕ}
    (h : Alloc os found quantum imports x answer segs (some r) segs' c) (hw : WordSegs segs)
    (h₁ : ∀ s ∈ segs, found s → refusal os s.toTag (startIn x s) x.size = none → SafeFit x s)
    (h₂ : NothingFits x segs → ∀ i ∈ answer, SafeFit x (i.segment 0))
    (h₃ : ∀ s ∈ segs, found s → refusal os s.toTag (startIn x s) x.size ≠ none →
      ∀ i ∈ answer, SafeFit x (i.segment 0) ∧ Calm x segs) :
    ∃ m s, Holds segs' m r ∧ Proper x s m ∧
      (s ∈ segs ∧ s.type = .free ∨ ∃ i ∈ answer, s = i.segment 0) := by
  cases h with
  | first h =>
    obtain ⟨s, m, hs, k, hf, hr, hm, hiff, -⟩ := h.block hw
    exact ⟨m, s, hm, hiff.mpr (h₁ s hs hf hr), Or.inl ⟨hs, k.free⟩⟩
  | @second l r' _ c c' i _ n n' p q z h himp ha hp hn hg h' =>
    have hw₁ := h.words hw
    have hw₂ := spanned_words (i := i) (p := p) (q := q) (z := z) hw₁
    obtain ⟨s, m, hs, k, -, -, hm, hiff, hle⟩ := h'.block hw₂
    have hspan : ∀ t : Seg, t = i.segment q → SafeFit x (i.segment 0) → Proper x t m →
        Proper x (i.segment 0) m := by
      rintro t rfl - hpr
      exact ⟨hpr.aligned, hpr.long, hpr.inside⟩
    rcases h.outcome with ⟨hno, hsegs, rfl⟩ | ⟨k', s', hm', hf', hr', hk', rfl⟩
    · have honly := only_span_fits (i := i) (p := p) (q := q) (z := z) (hsegs ▸ hno)
        fun s hs _ => (hw₂ s hs).2
      have hseg := honly s hs k
      have hsafe := h₂ hno i ha
      have hpr : Proper x s m := hiff.mpr (hseg ▸ hsafe)
      exact ⟨m, i.segment 0, hm, hspan s hseg hsafe hpr, Or.inr ⟨i, ha, rfl⟩⟩
    · obtain ⟨hsafe, hcalm⟩ := h₃ s' hm' hf' hr' i ha
      by_cases hseg : s = i.segment q
      · have hpr : Proper x s m := hiff.mpr (hseg ▸ hsafe)
        exact ⟨m, i.segment 0, hm, hspan s hseg hsafe hpr, Or.inr ⟨i, ha, rfl⟩⟩
      · have hold : s ∈ l ++ r' := by
          simp only [spanSegs, List.mem_append, List.mem_cons, List.not_mem_nil, or_false] at hs
          rcases hs with (hs | rfl | rfl | rfl) | hs
          · simp [hs]
          · exact absurd k.free (by simp [marker])
          · exact absurd rfl hseg
          · exact absurd k.free (by simp [marker])
          · simp [hs]
        obtain ⟨t, ht, hft, hlo, hhi⟩ := h.covers hw hcalm s hold k.free
        have hroom := hcalm.room t ht hft
        have hpr : Proper x s m := hiff.mpr (safeFit_of_room (by omega))
        exact ⟨m, t, hm, hpr.widen hle hlo hhi, Or.inl ⟨ht, hft⟩⟩

/-- Where the sums of the fit test do not mislead it, the block of a successful `RA_Alloc` is
    aligned, long enough and inside of one segment that was free. -/
theorem alloc_well_placed {r : Option BmMapping × ℕ} (h : Reached a) (hs : Safe a x answer)
    (hr : raAlloc a x.size x.flags x.alignment answer = some (some r, a')) :
    WellPlaced a x answer r a' := by
  obtain ⟨segs, bins, v, hw⟩ := h.shown
  obtain ⟨w, a₁, segs', bins', c, he, hal, v', hk, hc⟩ := raAlloc_simulated v x answer
  rw [hr] at he
  cases he
  unfold Safe at hs
  rw [v.listed.segments_eq] at hs
  obtain ⟨m, s, hm, hpr, hfrom⟩ := hal.placed hw hs.1 hs.2.1 hs.2.2
  refine ⟨m, ?_, hm.2.1, hm.2.2, s, hpr, ?_⟩
  · rw [v'.listed.segments_eq]
    exact hm.1
  · rw [v.listed.segments_eq]
    exact hfrom

end

theorem alloc_misplaced : Reached sampleArena ∧ ∃ r a',
    raAlloc sampleArena wrappingRequest.size wrappingRequest.flags wrappingRequest.alignment
      (some (sampleImport 4096 4096 (by decide) (by decide))) = some (some r, a') ∧
    ¬ WellPlaced sampleArena wrappingRequest
      (some (sampleImport 4096 4096 (by decide) (by decide))) r a' := by
  have hrun : (raAlloc sampleArena wrappingRequest.size wrappingRequest.flags
      wrappingRequest.alignment (some (sampleImport 4096 4096 (by decide) (by decide)))).map
        (fun r => r.1.map Prod.snd) = some (some 4096) := by
    decide +kernel
  obtain ⟨⟨w, a'⟩, h, hr⟩ := Option.map_eq_some_iff.mp hrun
  obtain ⟨r, rfl, hb⟩ := Option.map_eq_some_iff.mp hr
  refine ⟨sampleArena_reached, r, a', h, ?_⟩
  rintro ⟨m, -, -, hm, s, hpr, -⟩
  have hbase : m.base = 4096 := by rw [← hb, ← hm]
  have hal := hpr.aligned
  rw [hbase] at hal
  revert hal
  decide

/-- A request that fits. -/
theorem alloc_well_placed_sample : ∃ r a',
    raAlloc sampleArena 100 0 8 (some (sampleImport 4096 4096 (by decide) (by decide))) =
      some (some r, a') ∧
    WellPlaced sampleArena (sampleRequest 100 8 (by decide) (by decide) (by decide))
      (some (sampleImport 4096 4096 (by decide) (by decide))) r a' := by
  have hrun : (raAlloc sampleArena 100 0 8
      (some (sampleImport 4096 4096 (by decide) (by decide)))).map (fun r => r.1.isSome) =
        some true := by
    decide +kernel
  obtain ⟨⟨w, a'⟩, h, hr⟩ := Option.map_eq_some_iff.mp hrun
  obtain ⟨r, rfl⟩ := Option.isSome_iff_exists.mp hr
  refine ⟨r, a', h, alloc_well_placed (x := sampleRequest 100 8 (by decide) (by decide) (by decide))
    sampleArena_reached ⟨fun _ hs => absurd hs List.not_mem_nil, fun _ i hi => ?_,
      fun _ hs => absurd hs List.not_mem_nil⟩ h⟩
  obtain rfl := Option.some.inj hi
  refine ⟨Or.inr (Or.inl (by decide +kernel)), fun hover => absurd hover (by decide +kernel)⟩

end PvrServices.Arenas
