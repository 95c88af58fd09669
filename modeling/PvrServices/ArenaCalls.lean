import PvrServices.ArenaTaking

set_option autoImplicit false

/-!
# The calls of an arena

`RA_Create`, `RA_Alloc` and `RA_Free` on the list of segments. Every call comes to an end, with
all linked structures in agreement, whatever the sizes, the alignments and the imports.
-/
namespace PvrServices.Arenas
open Words HashTable LinkedRing

section
variable {a a' : RaArena} {segs l r : List Seg} {s : Seg} {bins : ℕ → List ℕ} {out : List ℕ}
  {p q n i size flags alignment : ℕ}

theorem pvrLog2Loop_le (fuel n l : ℕ) : pvrLog2Loop fuel n l ≤ l + fuel := by
  induction fuel generalizing n l with
  | zero => exact le_rfl
  | succ fuel ih =>
    unfold pvrLog2Loop
    split
    · have h := ih (n >>> 1) (l + 1)
      omega
    · omega

theorem pvrLog2_le (n : ℕ) : pvrLog2 n ≤ 32 := by
  have h := pvrLog2Loop_le 32 (n >>> 1) 0
  rwa [Nat.zero_add] at h

theorem freeListScan_eq (test : Tag → Bool) {last : ℕ} {lo hi : List ℕ} {fuel : ℕ}
    (ring : Ring (nextFreeOf a i) (prevFreeOf a last) 0 (lo ++ hi)) (hf : hi.length < fuel)
    (hp : (hi ++ [0]).head? = some p) :
    freeListScan a test fuel p = some ((hi.find? fun p => test (a.tags p).toTag).getD 0) := by
  induction hi generalizing lo fuel p with
  | nil =>
    obtain ⟨fuel, rfl⟩ : ∃ n, fuel = n + 1 := ⟨fuel - 1, by omega⟩
    obtain rfl : 0 = p := Option.some.inj hp
    simp [freeListScan]
  | cons x hi ih =>
    obtain ⟨fuel, rfl⟩ : ∃ n, fuel = n + 1 := ⟨fuel - 1, by omega⟩
    obtain rfl : x = p := Option.some.inj hp
    have hx0 : x ≠ 0 := by
      rintro rfl
      exact ring.sentinel_not_mem (by simp)
    have hnext := ring.next_cell.1
    rw [nextFreeOf, if_neg hx0] at hnext
    unfold freeListScan
    rw [if_neg hx0]
    by_cases ht : test (a.tags x).toTag = true
    · rw [if_pos ht, List.find?_cons_of_pos (by simpa using ht)]
      rfl
    · have ring' : Ring (nextFreeOf a i) (prevFreeOf a last) 0 ((lo ++ [x]) ++ hi) := by
        simpa using ring
      rw [if_neg ht, List.find?_cons_of_neg (by simpa using ht)]
      exact ih ring' (by simp at hf; omega) hnext

theorem Binned.length_lt (b : Binned a segs bins out) (v : Listed a segs) :
    (bins i).length < a.nextTag := by
  obtain ⟨last, ring⟩ := b.linked i
  have hsub : bins i ⊆ segs.map Seg.ref := by
    intro p hp
    obtain ⟨s, hs, hsp⟩ := b.mem_refs hp
    exact hsp ▸ List.mem_map_of_mem hs
  have hle := (ring.list_nodup.subperm hsub).length_le
  have hlt := v.length_lt
  rw [List.length_map] at hle
  omega

theorem freeListScan_bin (test : Tag → Bool) (b : Binned a segs bins out) (v : Listed a segs) (i : ℕ) :
    (freeListScan a test a.nextTag (a.headFree i) = some 0 ∧
      ∀ p ∈ bins i, test (a.tags p).toTag = false) ∨
    ∃ p ∈ bins i, freeListScan a test a.nextTag (a.headFree i) = some p ∧ p ≠ 0 ∧
      test (a.tags p).toTag = true := by
  obtain ⟨last, ring⟩ := b.linked i
  have hall : Ring (nextFreeOf a i) (prevFreeOf a last) 0 ([] ++ bins i) := ring
  rw [freeListScan_eq test hall (b.length_lt v) (p := a.headFree i) ring.next_sentinel]
  cases hfind : (bins i).find? fun p => test (a.tags p).toTag with
  | none =>
    refine Or.inl ⟨rfl, fun p hp => ?_⟩
    simpa using List.find?_eq_none.mp hfind p hp
  | some p =>
    have hp := List.mem_of_find?_eq_some hfind
    refine Or.inr ⟨p, hp, rfl, ?_, by simpa using List.find?_some hfind⟩
    rintro rfl
    exact ring.sentinel_not_mem hp

theorem binScan_bins (test : Tag → Bool) (b : Binned a segs bins out) (v : Listed a segs) (hn : n ≤ 32) :
    (binScan a test n = some 0 ∧
      ∀ i, 32 - n ≤ i → i < 32 → ∀ p ∈ bins i, test (a.tags p).toTag = false) ∨
    ∃ i p, 32 - n ≤ i ∧ p ∈ bins i ∧ binScan a test n = some p ∧
      test (a.tags p).toTag = true := by
  induction n with
  | zero => exact Or.inl ⟨rfl, fun i h₁ h₂ => by omega⟩
  | succ n ih =>
    unfold binScan
    rw [show freeTableLimit = 32 from rfl]
    rcases freeListScan_bin test b v (32 - (n + 1)) with
      ⟨hs, hnone⟩ | ⟨p, hp, hs, hp0, ht⟩
    · simp only [hs]
      rcases ih (by omega) with ⟨he, hall⟩ | ⟨i, p, hi, hp, he, ht⟩
      · refine Or.inl ⟨he, fun i h₁ h₂ => ?_⟩
        by_cases hin : i = 32 - (n + 1)
        · exact hin ▸ hnone
        · exact hall i (by omega) h₂
      · exact Or.inr ⟨i, p, by omega, hp, he, ht⟩
    · refine Or.inr ⟨32 - (n + 1), p, le_rfl, hp, ?_, ht⟩
      simp only [hs]
      split
      · rename_i h
        exact absurd (Option.some.inj h) hp0
      · rfl

theorem skipBins_spec (b : Binned a segs bins out) (n : ℕ) :
    skipBins a n ≤ n ∧ ∀ i, 32 - n ≤ i → i < 32 - skipBins a n → bins i = [] := by
  induction n with
  | zero => exact ⟨le_rfl, fun i h₁ h₂ => by simp [skipBins] at h₂; omega⟩
  | succ n ih =>
    unfold skipBins
    split
    · rename_i h0
      refine ⟨by omega, fun i h₁ h₂ => ?_⟩
      by_cases hin : i = 32 - (n + 1)
      · obtain ⟨last, ring⟩ := b.linked i
        have h := ring.next_sentinel
        rw [nextFreeOf, if_pos rfl, hin, show a.headFree (32 - (n + 1)) = 0 from h0, ← hin] at h
        cases hb : bins i with
        | nil => rfl
        | cons p t =>
          rw [hb] at h
          have hp0 : p = 0 := by simpa using h
          exact absurd (by simp [hb, hp0]) ring.sentinel_not_mem
      · exact ih.2 i (by omega) h₂
    · exact ⟨le_rfl, fun i h₁ h₂ => by omega⟩

theorem findFree_linked (v : Linked a segs bins out) (size flags alignment : ℕ) :
    (findFree a size flags alignment = some 0 ∧
      ∀ s ∈ segs, s.ref ∉ out → s.type = .free → pvrLog2 size ≤ pvrLog2 s.size →
        pvrLog2 s.size < 32 → fits size flags alignment s.toTag = false) ∨
    ∃ s ∈ segs, findFree a size flags alignment = some s.ref ∧ s.type = .free ∧
      pvrLog2 size ≤ pvrLog2 s.size ∧ fits size flags alignment s.toTag = true := by
  obtain ⟨hskip, hempty⟩ := skipBins_spec v.binned (32 - pvrLog2 size)
  unfold findFree
  rcases binScan_bins (fits size flags alignment) v.binned v.listed
    (n := skipBins a (32 - pvrLog2 size)) (by omega) with ⟨he, hall⟩ | ⟨i, p, hi, hp, he, ht⟩
  · refine Or.inl ⟨he, fun s hs ho hf h₁ h₂ => ?_⟩
    have hm := (v.binned.mem _ s.ref).mpr ⟨s, hs, rfl, ho, hf, rfl⟩
    rw [← v.listed.tag hs]
    refine hall _ ?_ h₂ _ hm
    by_contra hlt
    rw [hempty (pvrLog2 s.size) (by omega) (by omega)] at hm
    cases hm
  · obtain ⟨s, hs, rfl, -, hf, hsi⟩ := (v.binned.mem i p).mp hp
    rw [v.listed.tag hs] at ht
    have hle := pvrLog2_le size
    exact Or.inr ⟨s, hs, he, hf, by omega, ht⟩

def marker (base size q : ℕ) : Seg := ⟨⟨.span, base, size, none⟩, q⟩

theorem Linked.new_tag (v : Linked a segs bins out) (f : Bt → Bt) :
    Linked (modifyTag (tagGranted a) a.nextTag f) segs bins out :=
  v.granted.modify_other (fun t ht => (v.listed.lt t ht).ne) f

theorem buildSpanMarker_cases (v : Linked a segs bins out) (base size : ℕ) :
    (a.os.grants a.os.calls = false ∧ buildSpanMarker a base size = (none, tagRefused a)) ∨
    (a.os.grants a.os.calls = true ∧ ∃ a', buildSpanMarker a base size = (some a.nextTag, a') ∧
      Linked a' segs bins out ∧ rest a' = rest (tagGranted a) ∧
      seg a' a.nextTag = marker base size a.nextTag ∧
      ∀ p, p ≠ a.nextTag → seg a' p = seg a p) := by
  unfold buildSpanMarker
  rw [osAllocTag_eq]
  cases hg : a.os.grants a.os.calls with
  | false => exact Or.inl ⟨rfl, rfl⟩
  | true =>
    refine Or.inr ⟨rfl, _, rfl, v.new_tag _, rfl, ?_, fun p hp => ?_⟩
    · rw [seg, modifyTag_self]
      rfl
    · rw [seg, modifyTag_ne _ hp]
      rfl

theorem buildBt_cases (v : Linked a segs bins out) (base size : ℕ) :
    (a.os.grants a.os.calls = false ∧ buildBt a base size = (none, tagRefused a)) ∨
    (a.os.grants a.os.calls = true ∧ ∃ a' m, buildBt a base size = (some a.nextTag, a') ∧
      Linked a' segs bins out ∧ rest a' = rest (tagGranted a) ∧
      seg a' a.nextTag = ⟨⟨.free, base, size, m⟩, a.nextTag⟩ ∧
      ∀ p, p ≠ a.nextTag → seg a' p = seg a p) := by
  unfold buildBt
  rw [osAllocTag_eq]
  cases hg : a.os.grants a.os.calls with
  | false => exact Or.inl ⟨rfl, rfl⟩
  | true =>
    refine Or.inr ⟨rfl, _, (a.tags a.nextTag).mapping, rfl, v.new_tag _, rfl, ?_, fun p hp => ?_⟩
    · rw [seg, modifyTag_self]
      rfl
    · rw [seg, modifyTag_ne _ hp]
      rfl

theorem Kept.of_granted (h : rest a' = rest (tagGranted a)) : Kept a a' :=
  (Kept.granted a).trans (.of_rest h)

theorem nextTag_of_granted (h : rest a' = rest (tagGranted a)) : a'.nextTag = a.nextTag + 1 :=
  (nextTag_of_rest h :)

theorem calls_of_granted (h : rest a' = rest (tagGranted a)) : a'.calls = a.calls :=
  (calls_of_rest h :)

theorem osCalls_of_granted (h : rest a' = rest (tagGranted a)) : a'.os.calls = a.os.calls + 1 :=
  (congrArg (fun x => x.os.calls) h :)

theorem seg_of_toTag (h : (a'.tags p).toTag = (a.tags p).toTag) : seg a' p = seg a p := by
  rw [seg, h, seg]

theorem insertResource_linked (v : Linked a segs bins []) (base size : ℕ) :
    (a.os.grants a.os.calls = false ∧ insertResource a base size = some (none, tagRefused a)) ∨
    (a.os.grants a.os.calls = true ∧ ∃ a' bins' l r q m,
      insertResource a base size = some (some q, a') ∧ segs = l ++ r ∧ Placed l r base ∧
      Linked a' (l ++ ⟨⟨.free, base, size, m⟩, q⟩ :: r) bins' [] ∧ Kept a a' ∧
      a'.calls = a.calls) := by
  unfold insertResource
  rcases buildBt_cases v base size with ⟨hg, he⟩ | ⟨hg, a₁, m, he, v₁, hr₁, hs₁, -⟩
  · rw [he]
    exact Or.inl ⟨hg, rfl⟩
  · right
    have hfresh : ∀ s ∈ segs, s.ref ≠ a.nextTag := fun s hs => (v.listed.lt s hs).ne
    have w : Splice a₁ segs [a.nextTag] a.nextTag :=
      ⟨v.listed.nextTag_pos.ne', by rw [nextTag_of_granted hr₁]; omega, hfresh,
        Or.inl (by simp)⟩
    obtain ⟨l, r, a₂, rfl, hpl, he₂, v₂, hw₂⟩ := segmentListInsert_linked (v₁.hold hfresh) w
    rw [hs₁] at hpl v₂
    obtain ⟨bins₃, v₃⟩ := freeListInsert_linked v₂ (by simp)
    have hr₃ := rest_freeListInsert (a := a₂) (p := a.nextTag)
    rw [he]
    refine ⟨hg, freeListInsert a₂ a.nextTag, bins₃, l, r, a.nextTag, m, ?_, rfl, hpl, v₃, ?_, ?_⟩
    · simp only [he₂]
    · exact (Kept.of_granted hr₁).trans ((Kept.of_rest hw₂.rest_eq).trans (.of_rest hr₃))
    · rw [calls_of_rest hr₃, calls_of_rest hw₂.rest_eq, calls_of_granted hr₁]

def RefusedSoon (os : Os) : Prop := ∃ k, os.calls ≤ k ∧ k < os.calls + 3 ∧ os.grants k = false

theorem insertResourceSpan_linked (v : Linked a segs bins []) (base size : ℕ) :
    (∃ a', insertResourceSpan a base size = some (none, a') ∧ Linked a' segs bins [] ∧
      Kept a a' ∧ a'.calls = a.calls ∧ RefusedSoon a.os) ∨
    ∃ a' bins' l r x y z m, insertResourceSpan a base size = some (some y, a') ∧
      segs = l ++ r ∧ Placed l r base ∧
      Linked a' (l ++ marker base size x :: ⟨⟨.free, base, size, m⟩, y⟩ ::
        marker (u32 (base + size)) 0 z :: r) bins' [] ∧ Kept a a' ∧ a'.calls = a.calls ∧
      a'.os.calls = a.os.calls + 3 ∧ ¬ RefusedSoon a.os := by
  unfold insertResourceSpan
  have hx : ∀ s ∈ segs, s.ref < a.nextTag := v.listed.lt
  rcases buildSpanMarker_cases v base size with ⟨hg₁, he₁⟩ | ⟨hg₁, a₁, he₁, v₁, hr₁, hs₁, -⟩
  · rw [he₁]
    exact Or.inl ⟨_, rfl, v.refused, .refused a, rfl, _, le_rfl, by omega, hg₁⟩
  have hn₁ := nextTag_of_granted hr₁
  have hk₁ := Kept.of_granted hr₁
  have hc₁ := calls_of_granted hr₁
  have ho₁ := osCalls_of_granted hr₁
  rw [he₁]
  dsimp only
  rcases buildSpanMarker_cases v₁ (u32 (base + size)) 0 with
    ⟨hg₂, he₂⟩ | ⟨hg₂, a₂, he₂, v₂, hr₂, hs₂, ho₂⟩
  · rw [he₂]
    refine Or.inl ⟨_, rfl, osFreeTag_linked v₁.refused fun s hs => (hx s hs).ne, ?_, hc₁, _,
      by omega, by omega, hk₁.grants ▸ hg₂⟩
    exact hk₁.trans ⟨rfl, rfl, rfl⟩
  have hn₂ := nextTag_of_granted hr₂
  have hk₂ := hk₁.trans (.of_granted hr₂)
  have hc₂ := (calls_of_granted hr₂).trans hc₁
  have hoc₂ := osCalls_of_granted hr₂
  rw [he₂]
  dsimp only
  rcases buildBt_cases v₂ base size with ⟨hg₃, he₃⟩ | ⟨hg₃, a₃, m, he₃, v₃, hr₃, hs₃, ho₃⟩
  · rw [he₃]
    have v₄ : Linked (osFreeTag (tagRefused a₂) a₁.nextTag) segs bins [] :=
      osFreeTag_linked v₂.refused fun s hs => by have := hx s hs; omega
    refine Or.inl ⟨_, rfl, osFreeTag_linked v₄ fun s hs => (hx s hs).ne, ?_, hc₂, _,
      by omega, by omega, hk₂.grants ▸ hg₃⟩
    exact hk₂.trans ⟨rfl, rfl, rfl⟩
  have hn₃ := nextTag_of_granted hr₃
  rw [he₃]
  dsimp only
  -- the tags `a.nextTag`, `a₁.nextTag` and `a₂.nextTag` are the start, the end and the segment
  have hstart : seg a₃ a.nextTag = marker base size a.nextTag := by
    rw [ho₃ _ (by omega), ho₂ _ (by omega), hs₁]
  have hend : seg a₃ a₁.nextTag = marker (u32 (base + size)) 0 a₁.nextTag := by
    rw [ho₃ _ (by omega), hs₂]
  have w₄ : Splice a₃ segs [] a.nextTag := by
    refine ⟨v.listed.nextTag_pos.ne', by omega, fun s hs => (hx s hs).ne, Or.inr ?_⟩
    rw [hstart]
    rfl
  obtain ⟨l, r, a₄, rfl, hpl, he₄, v₄, hw₄⟩ := segmentListInsert_linked v₃ w₄
  rw [hstart] at hpl v₄
  have hn₄ := nextTag_of_rest hw₄.rest_eq
  have href : ∀ s ∈ l ++ marker base size a.nextTag :: r, s.ref ≤ a.nextTag := by
    intro s hs
    rcases List.mem_append.mp hs with hs | hs
    · exact (hx s (by simp [hs])).le
    · rcases List.mem_cons.mp hs with rfl | hs
      · exact le_rfl
      · exact (hx s (by simp [hs])).le
  have hfresh : ∀ s ∈ l ++ marker base size a.nextTag :: r, s.ref ≠ a₂.nextTag := by
    intro s hs
    have := href s hs
    omega
  have w₅ : Splice a₄ (l ++ marker base size a.nextTag :: r) [a₂.nextTag] a₂.nextTag :=
    ⟨by omega, by omega, hfresh, Or.inl (by simp)⟩
  obtain ⟨v₅, hw₅⟩ := segmentListInsertAfter_linked (v₄.hold hfresh) w₅
  rw [show (marker base size a.nextTag).ref = a.nextTag from rfl] at v₅ hw₅
  rw [hw₄.seg_eq, hs₃] at v₅
  set t : Seg := ⟨⟨.free, base, size, m⟩, a₂.nextTag⟩ with ht
  have hcons : ∀ c : List Seg, l ++ marker base size a.nextTag :: t :: c =
      (l ++ [marker base size a.nextTag]) ++ t :: c := by simp
  rw [hcons] at v₅
  obtain ⟨bins₆, v₆⟩ := freeListInsert_linked (s := t) v₅ (by simp)
  have htr : t.ref = a₂.nextTag := rfl
  rw [htr] at v₆
  have hr₆ := rest_freeListInsert (a := segmentListInsertAfter a₄ a.nextTag a₂.nextTag)
    (p := a₂.nextTag)
  have hn₆ := (nextTag_of_rest hr₆).trans (nextTag_of_rest hw₅.rest_eq)
  have hend₆ : seg (freeListInsert (segmentListInsertAfter a₄ a.nextTag a₂.nextTag) a₂.nextTag)
      a₁.nextTag = marker (u32 (base + size)) 0 a₁.nextTag := by
    rw [seg_of_toTag (freeListInsert_toTag_ne (by omega)), hw₅.seg_eq, hw₄.seg_eq, hend]
  have w₇ : Splice (freeListInsert (segmentListInsertAfter a₄ a.nextTag a₂.nextTag) a₂.nextTag)
      ((l ++ [marker base size a.nextTag]) ++ t :: r) [] a₁.nextTag := by
    refine ⟨by omega, ?_, ?_, Or.inr (by rw [hend₆]; rfl)⟩
    · omega
    · intro s hs
      rw [← hcons] at hs
      rcases List.mem_append.mp hs with hs | hs
      · have := hx s (by simp [hs])
        omega
      · rcases List.mem_cons.mp hs with rfl | hs
        · simp only [marker]
          omega
        · rcases List.mem_cons.mp hs with rfl | hs
          · simp only [ht]
            omega
          · have := hx s (by simp [hs])
            omega
  obtain ⟨v₇, hw₇⟩ := segmentListInsertAfter_linked (s := t) v₆ w₇
  rw [htr] at v₇ hw₇
  rw [hend₆] at v₇
  have v₈ := (hcons _).symm ▸ v₇
  refine Or.inr ⟨_, bins₆, l, r, a.nextTag, a₂.nextTag, a₁.nextTag, m, ?_, rfl, hpl, v₈, ?_, ?_, ?_, ?_⟩
  · rw [he₄]
  · exact hk₂.trans ((Kept.of_granted hr₃).trans ((Kept.of_rest hw₄.rest_eq).trans
      ((Kept.of_rest hw₅.rest_eq).trans ((Kept.of_rest hr₆).trans (.of_rest hw₇.rest_eq)))))
  · rw [calls_of_rest hw₇.rest_eq, calls_of_rest hr₆, calls_of_rest hw₅.rest_eq,
      calls_of_rest hw₄.rest_eq, calls_of_granted hr₃, hc₂]
  · rw [os_of_rest hw₇.rest_eq, os_of_rest hr₆, os_of_rest hw₅.rest_eq, os_of_rest hw₄.rest_eq,
      osCalls_of_granted hr₃]
    omega
  · rintro ⟨k, hk, hlt, hkf⟩
    rw [hk₁.grants] at hg₂
    rw [hk₂.grants] at hg₃
    obtain h | h | h : k = a.os.calls ∨ k = a₁.os.calls ∨ k = a₂.os.calls := by omega
    · simp [h, hg₁] at hkf
    · simp [h, hg₂] at hkf
    · simp [h, hg₃] at hkf

end
end PvrServices.Arenas
