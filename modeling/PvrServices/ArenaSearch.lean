import PvrServices.ArenaPlacement
import PvrServices.ArenaSaving

set_option autoImplicit false

/-!
# The search of the free table is complete

A request that an arena without an importer refuses, while there is memory for its tags, fits no
free segment of its mapping.
-/
namespace PvrServices.Arenas
open Words HashTable LinkedRing Tiling Runs

def Contains (x : Request) (s : Seg) : Prop :=
  ∃ base, (x.alignment ≤ 1 ∨ x.alignment ∣ base) ∧ s.base ≤ base ∧
    base + x.size ≤ s.base + s.size

/-- The segment serves any request, or its mapping carries exactly the flags of this one. -/
def Serviceable (x : Request) (s : Seg) : Prop :=
  s.mapping = none ∨ ∃ m, s.mapping = some m ∧ m.flags = x.flags

def SumsFit (x : Request) (s : Seg) : Prop :=
  s.base + s.size < 4294967296 ∧ s.base + x.alignment ≤ 4294967296

instance (x : Request) (s : Seg) : Decidable (SumsFit x s) :=
  inferInstanceAs (Decidable (_ ∧ _))

section
variable {a a' : RaArena} {segs segs' : List Seg} {s : Seg} {x : Request} {os : Os} {n : ℕ}
  {found : Seg → Prop} {c : List Call}

theorem startIn_le_of_contains (hw : SumsFit x s) {base : ℕ}
    (hal : x.alignment ≤ 1 ∨ x.alignment ∣ base) (hb : s.base ≤ base) : startIn x s ≤ base := by
  by_cases h1 : 1 < x.alignment
  · have hstart := startIn_exact (x := x) (s := s) h1 (by have := hw.2; omega)
    obtain ⟨k, hk⟩ := hal.resolve_left (by omega)
    obtain ⟨j, hj⟩ := hstart.1
    -- two multiples less than one alignment apart
    have hjk : j ≤ k := by
      by_contra hlt
      have hle : x.alignment * (k + 1) ≤ x.alignment * j := Nat.mul_le_mul_left _ (by omega)
      rw [Nat.mul_succ] at hle
      omega
    rw [hj, hk]
    exact Nat.mul_le_mul_left _ hjk
  · rw [startIn_le_one (by omega)]
    exact hb

theorem fits_of_contains (hw : SumsFit x s) (hserve : Serviceable x s) (hc : Contains x s) :
    fits x.size x.flags x.alignment s.toTag = true := by
  obtain ⟨base, hal, hb, hend⟩ := hc
  have hstart : startIn x s + x.size ≤ s.base + s.size := by
    have hle := startIn_le_of_contains hw hal hb
    omega
  have htest : ¬u32 (s.base + s.size) < u32 (startIn x s + x.size) := by
    have hlt := hw.1
    rw [u32_of_lt hlt, u32_of_lt (by omega)]
    omega
  unfold fits
  rw [Bool.and_eq_true]
  refine ⟨by simpa [startIn] using htest, ?_⟩
  cases hm : s.mapping with
  | none => rfl
  | some m =>
    obtain ⟨m', hm', hflags⟩ := hserve.resolve_left (by simp [hm])
    rw [hm, Option.some.injEq] at hm'
    simp [hm', hflags]

theorem log_mono {m n : ℕ} (hmn : m ≤ n) (hn : n < 4294967296) : pvrLog2 m ≤ pvrLog2 n := by
  rw [pvrLog2_eq (by omega), pvrLog2_eq hn]
  exact Nat.log_mono_right hmn

theorem chosen_of_contains (hsize : s.size < 4294967296) (hw : SumsFit x s)
    (hfree : s.type = .free) (hserve : Serviceable x s) (hc : Contains x s) : Chosen x s := by
  refine ⟨hfree, ?_, fits_of_contains hw hserve hc⟩
  obtain ⟨base, -, hb, hend⟩ := hc
  exact log_mono (by omega) hsize

theorem nothing_contains (h : NothingFits x segs) (hwords : WordSegs segs)
    (hw : ∀ s ∈ segs, s.type = .free → SumsFit x s) :
    ∀ s ∈ segs, s.type = .free → Serviceable x s → ¬Contains x s := by
  intro s hs hfree hserve hc
  have hsize := (hwords s hs).2
  apply h s hs
  · rw [pvrLog2_eq hsize]
    exact log_lt hsize
  · exact chosen_of_contains hsize (hw s hs hfree) hfree hserve hc

theorem refusedSoon_of_refusal {t : Tag} {start size : ℕ} {f : Refusal}
    (h : refusal os t start size = some f) : RefusedSoon os := by
  unfold refusal at h
  dsimp only at h
  generalize (if start > t.base then u32Sub t.size (start - t.base) else t.size) = behind at h
  have hfront : (if start > t.base then 1 else 0) ≤ 1 := by split <;> omega
  have hback : (if behind > size then 1 else 0) ≤ 1 := by split <;> omega
  generalize (if start > t.base then 1 else 0) = front at h hfront
  generalize (if behind > size then 1 else 0) = back at h hback
  split at h
  · rename_i h1
    exact ⟨os.calls, Nat.le_refl _, by omega, h1.2⟩
  split at h
  · rename_i h1
    exact ⟨os.calls + front, by omega, by omega, h1.2⟩
  split at h
  · rename_i h1
    exact ⟨os.calls + front + back, by omega, by omega, h1⟩
  · cases h

theorem Attempt.nothing_of_granted (h : Attempt os found x segs none segs' c n)
    (hg : ¬RefusedSoon os) : NothingFits x segs := by
  cases h with
  | nothing h => exact h
  | kept _ _ _ hr => exact absurd (refusedSoon_of_refusal hr) hg
  | cut _ _ _ _ hr => exact absurd (refusedSoon_of_refusal hr) hg
  | undone _ _ _ hr => exact absurd (refusedSoon_of_refusal hr) hg

/-- An arena without an importer refuses a request, while memory is granted, only if no free
    segment that may serve it contains an aligned block of its size. -/
theorem search_complete (h : Reached a) (himport : a.importAlloc = false)
    (hg : ¬RefusedSoon a.os) (hw : ∀ s ∈ segments a, s.type = .free → SumsFit x s)
    {answer : Option Import}
    (hr : raAlloc a x.size x.flags x.alignment answer = some (none, a')) :
    ∀ s ∈ segments a, s.type = .free → Serviceable x s → ¬Contains x s := by
  obtain ⟨segs, bins, v, hwords⟩ := h.shown
  obtain ⟨w, a₁, segs', bins', c, he, hal, -⟩ := raAlloc_simulated v x answer
  rw [hr] at he
  cases he
  rw [v.listed.segments_eq] at hw ⊢
  rw [himport] at hal
  refine nothing_contains ?_ hwords hw
  cases hal with
  | noImport h => exact h.nothing_of_granted hg
  | noSpan _ _ hi => cases hi
  | second _ _ _ _ hi => cases hi

end

instance (os : Os) : Decidable (RefusedSoon os) :=
  decidable_of_iff (∃ k ∈ List.range 3, os.grants (os.calls + k) = false) (by
    constructor
    · intro h
      obtain ⟨k, hk, hg⟩ := h
      rw [List.mem_range] at hk
      exact ⟨os.calls + k, by omega, by omega, hg⟩
    · intro h
      obtain ⟨k, hle, hlt, hg⟩ := h
      refine ⟨k - os.calls, List.mem_range.mpr (by omega), ?_⟩
      rw [Nat.add_sub_of_le hle]
      exact hg)

theorem search_complete_sample : ∃ a a', Reached a ∧
    raAlloc a pagesRequest.size pagesRequest.flags pagesRequest.alignment none = some (none, a') ∧
    (∃ s ∈ segments a, s.type = .free ∧ Serviceable pagesRequest s) ∧
    ∀ s ∈ segments a, s.type = .free → Serviceable pagesRequest s → ¬Contains pagesRequest s := by
  have hend : (createdResource.bind id).bind (fun a₀ => (exec step a₀ [.alloc pageRequest none]).bind
      fun r => (raAlloc r.2 pagesRequest.size pagesRequest.flags pagesRequest.alignment none).map
        fun w => (w.1.isNone && !r.2.importAlloc && decide (¬RefusedSoon r.2.os) &&
          decide (∀ s ∈ segments r.2, s.type = .free → SumsFit pagesRequest s) &&
          decide (∃ s ∈ segments r.2, s.type = .free ∧ s.mapping = none))) = some true := by
    decide +kernel
  obtain ⟨a₀, hcreate, hend⟩ := Option.bind_eq_some_iff.mp hend
  obtain ⟨x, hx, hxa⟩ := Option.bind_eq_some_iff.mp hcreate
  rw [show x = some a₀ from hxa] at hx
  obtain ⟨r, hr, hend⟩ := Option.bind_eq_some_iff.mp hend
  obtain ⟨w, hw, hfacts⟩ := Option.map_eq_some_iff.mp hend
  simp only [Bool.and_eq_true, Option.isNone_iff_eq_none, Bool.not_eq_true', decide_eq_true_eq]
    at hfacts
  obtain ⟨⟨⟨⟨hnone, himport⟩, hgranted⟩, hsums⟩, s, hs, hfree, hmapping⟩ := hfacts
  have hrefused : raAlloc r.2 pagesRequest.size pagesRequest.flags pagesRequest.alignment none =
      some (none, w.2) := by
    rw [hw, ← hnone]
  have hreached : Reached r.2 := by
    refine ⟨_, _, _, _, _, _, _, _, a₀, r.1, ?_, hx, Run.of_exec hr fun _ _ _ => trivial⟩
    decide
  exact ⟨r.2, w.2, hreached, hrefused, ⟨s, hs, hfree, .inl hmapping⟩,
    search_complete hreached himport hgranted hsums hrefused⟩

end PvrServices.Arenas
