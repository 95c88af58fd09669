import PvrServices.HandleInvariant

set_option autoImplicit false

/-!
# The free list

The list is threaded through `nextIndexPlusOne`, where zero stands for the next entry of the
array. It grows at its end, by released entries and by the entries of a longer array, and
shrinks at its front.
-/
namespace PvrServices.Handles
open Words LinkedRing

section
variable {b b' : HandleBase} {fl : List ℕ}

theorem freeNext_congr {i : ℕ}
    (h : (b'.handleArray i).nextIndexPlusOne = (b.handleArray i).nextIndexPlusOne) :
    freeNext b' i = freeNext b i := by
  rw [freeNext, freeNext, h]

theorem FreeChain.congr (c : FreeChain b fl) (hf : b'.firstFreeIndex = b.firstFreeIndex)
    (hl : b'.lastFreeIndexPlusOne = b.lastFreeIndexPlusOne)
    (hn : ∀ j ∈ fl, (b'.handleArray j).nextIndexPlusOne = (b.handleArray j).nextIndexPlusOne) :
    FreeChain b' fl where
  first := hf.trans c.first
  last := hl.trans c.last
  chain := by
    refine isChain_congr fl ?_ c.chain
    intro i hi j _ hij
    rw [freeNext_congr (hn i ((List.dropLast_sublist fl).subset hi))]
    exact hij
  last_next i hi := by
    rw [hn i (List.mem_of_getLast? hi)]
    exact c.last_next i hi

theorem FreeChain.last_eq (c : FreeChain b fl) {i : ℕ} (h : fl.getLast? = some i) :
    u32Sub b.lastFreeIndexPlusOne 1 = i := by
  rw [c.last, h, parentWord]
  exact handleToIndex_succ i

theorem not_mem_dropLast_of_getLast? {i : ℕ} (hnd : fl.Nodup) (h : fl.getLast? = some i) :
    i ∉ fl.dropLast := by
  rw [← List.dropLast_append_getLast? i h, List.nodup_append] at hnd
  intro hm
  exact hnd.2.2 i hm i (by simp) rfl

theorem FreeChain.join (c : FreeChain b fl) (hnd : fl.Nodup) {fl' : List ℕ} {x : ℕ}
    (hne : fl ≠ []) (hx : fl'.head? = some x) (hf : b'.firstFreeIndex = b.firstFreeIndex)
    (hl : b'.lastFreeIndexPlusOne = parentWord fl'.getLast?)
    (hn : ∀ j, (b'.handleArray j).nextIndexPlusOne =
      if fl.getLast? = some j then x + 1 else (b.handleArray j).nextIndexPlusOne)
    (hdis : ∀ j ∈ fl', j ∉ fl) (hchain : fl'.IsChain (fun i j => freeNext b i = j))
    (hlast : ∀ i ∈ fl'.getLast?, (b.handleArray i).nextIndexPlusOne = 0) :
    FreeChain b' (fl ++ fl') := by
  have hne' : fl' ≠ [] := by
    rintro rfl
    simp at hx
  have hn' : ∀ j ∈ fl', (b'.handleArray j).nextIndexPlusOne =
      (b.handleArray j).nextIndexPlusOne := by
    intro j hj
    rw [hn, if_neg]
    exact fun h => hdis j hj (List.mem_of_getLast? h)
  refine ⟨?_, ?_, ?_, ?_⟩
  · rw [hf, c.first, List.head?_append_of_ne_nil fl hne]
  · rw [hl, List.getLast?_append_of_ne_nil fl hne']
  · rw [List.isChain_append]
    refine ⟨?_, ?_, ?_⟩
    · refine isChain_congr fl ?_ c.chain
      intro i hi j _ hij
      rw [freeNext_congr]
      · exact hij
      · rw [hn, if_neg]
        exact fun h => not_mem_dropLast_of_getLast? hnd h hi
    · refine isChain_congr fl' ?_ hchain
      intro i hi j _ hij
      rw [freeNext_congr (hn' i ((List.dropLast_sublist fl').subset hi))]
      exact hij
    · intro i hi y hy
      rw [hx] at hy
      obtain rfl := Option.some.inj hy
      rw [freeNext, hn, if_pos (Option.mem_def.mp hi)]
      simp
  · intro i hi
    rw [List.getLast?_append_of_ne_nil fl hne'] at hi
    rw [hn' i (List.mem_of_getLast? hi)]
    exact hlast i hi

theorem FreeChain.append (c : FreeChain b fl) (hnd : fl.Nodup) (hc : b.freeHandCount = fl.length)
    {i : ℕ} (hi : i ∉ fl) (hw : i < 4294967295) (hz : (b.handleArray i).nextIndexPlusOne = 0) :
    FreeChain (appendFree b i) (fl ++ [i]) := by
  have hu : u32 (i + 1) = i + 1 := u32_of_lt (by omega)
  unfold appendFree
  dsimp only
  cases hfl : fl with
  | nil =>
    subst hfl
    rw [if_pos (by simpa using hc)]
    exact ⟨rfl, by simpa [parentWord] using hu, by simp, by simpa using hz⟩
  | cons x t =>
    rw [← hfl, if_neg (by simp [hc, hfl])]
    obtain ⟨l, hl⟩ : ∃ l, fl.getLast? = some l := by
      rw [hfl]
      exact ⟨_, List.getLast?_cons⟩
    refine c.join (x := i) hnd (by simp [hfl]) rfl rfl (by simpa [parentWord] using hu) ?_ ?_
      (by simp) (by simpa using hz)
    · intro j
      change ((setHandle b _ _).handleArray j).nextIndexPlusOne = _
      rw [setHandle_apply, c.last_eq hl, hl]
      by_cases hj : j = l
      · subst hj; simp [hu]
      · rw [if_neg hj, if_neg (by simpa using Ne.symm hj)]
    · intro j hj
      rwa [List.mem_singleton.mp hj]

theorem FreeChain.tail {x : ℕ} {t : List ℕ} (c : FreeChain b (x :: t)) (ht : t ≠ [])
    (hf : b'.firstFreeIndex = freeNext b x)
    (hl : b'.lastFreeIndexPlusOne = b.lastFreeIndexPlusOne)
    (hn : ∀ j ∈ t, (b'.handleArray j).nextIndexPlusOne = (b.handleArray j).nextIndexPlusOne) :
    FreeChain b' t := by
  obtain ⟨y, t', rfl⟩ := List.exists_cons_of_ne_nil ht
  have hch := List.isChain_cons_cons.mp c.chain
  have hlast : (x :: y :: t').getLast? = (y :: t').getLast? := by
    rw [List.getLast?_cons_cons]
  have ct : FreeChain { b with firstFreeIndex := freeNext b x } (y :: t') := {
    first := hch.1
    last := by rw [← hlast]; exact c.last
    chain := hch.2
    last_next := by rw [← hlast]; exact c.last_next }
  exact ct.congr hf hl hn

theorem FreeChain.empty_of_first (c : FreeChain b fl) (h : fl = []) : b.firstFreeIndex = 0 := by
  rw [c.first, h]
  rfl

theorem FreeChain.extend (c : FreeChain b fl) (hnd : fl.Nodup)
    (hlt : ∀ i ∈ fl, i < b.totalHandCount) (hp : b.purgingEnabled = false)
    (hsafe : b.firstFreeIndex = 0 → fl = []) {n : ℕ} (hn : b.totalHandCount < n)
    (hw : n ≤ 4294967295) :
    FreeChain (extendHandleArray b n)
      (fl ++ List.range' b.totalHandCount (n - b.totalHandCount)) := by
  obtain ⟨m, hm⟩ : ∃ m, n - b.totalHandCount = m + 1 := ⟨n - b.totalHandCount - 1, by omega⟩
  have hu : u32 (b.totalHandCount + 1) = b.totalHandCount + 1 := u32_of_lt (by omega)
  -- the array is cleared first; that does not concern the old list
  set b₁ : HandleBase := { b with
    handleArray := initNewHandles b n
    freeHandCount := u32 (b.freeHandCount + u32Sub n b.totalHandCount) } with hb₁
  have hz : ∀ j ∈ List.range' b.totalHandCount (n - b.totalHandCount),
      (b₁.handleArray j).nextIndexPlusOne = 0 := by
    intro j hj
    rw [List.mem_range'_1] at hj
    change (initNewHandles b n j).nextIndexPlusOne = 0
    rw [initNewHandles, if_pos (by omega)]
  have hold : ∀ j ∈ fl, (b₁.handleArray j).nextIndexPlusOne =
      (b.handleArray j).nextIndexPlusOne := by
    intro j hj
    have := hlt j hj
    change (initNewHandles b n j).nextIndexPlusOne = _
    rw [initNewHandles, if_neg (by omega)]
  have c₁ : FreeChain b₁ fl := c.congr rfl rfl hold
  have hchain : (List.range' b.totalHandCount (n - b.totalHandCount)).IsChain
      (fun i j => freeNext b₁ i = j) := by
    refine isChain_congr _ ?_ (List.isChain_range' _ _ 1)
    intro i hi j _ hij
    rw [freeNext, if_pos (hz i ((List.dropLast_sublist _).subset hi)), hij]
  have hlast : parentWord (List.range' b.totalHandCount (n - b.totalHandCount)).getLast? = n := by
    rw [List.getLast?_range', if_neg (by omega), parentWord]
    omega
  have hhead : (List.range' b.totalHandCount (n - b.totalHandCount)).head? =
      some b.totalHandCount := by
    rw [hm, List.range'_succ]
    rfl
  have hzlast : ∀ i ∈ (List.range' b.totalHandCount (n - b.totalHandCount)).getLast?,
      (b₁.handleArray i).nextIndexPlusOne = 0 := fun i hi => hz i (List.mem_of_getLast? hi)
  by_cases hf : b.firstFreeIndex = 0
  · have he : extendHandleArray b n = { b₁ with
        firstFreeIndex := b.totalHandCount
        lastFreeIndexPlusOne := n
        totalHandCount := n } := by
      simp [extendHandleArray, appendNewHandles, hf, hp, hb₁]
    rw [he, hsafe hf, List.nil_append]
    exact ⟨by rw [hhead]; rfl, hlast.symm, hchain, hzlast⟩
  · have hne : fl ≠ [] := fun h => hf (c.empty_of_first h)
    obtain ⟨l, hl⟩ : ∃ l, fl.getLast? = some l :=
      ⟨_, List.getLast?_eq_some_getLast hne⟩
    have he : extendHandleArray b n = { (setHandle b₁ l { b₁.handleArray l with
          nextIndexPlusOne := b.totalHandCount + 1 }) with
        lastFreeIndexPlusOne := n
        totalHandCount := n } := by
      simp [extendHandleArray, appendNewHandles, hf, hp, hb₁, setHandle, c.last_eq hl, hu]
    rw [he]
    refine c₁.join (x := b.totalHandCount) hnd hne hhead rfl hlast.symm ?_ ?_ hchain hzlast
    · intro j
      change ((setHandle b₁ l _).handleArray j).nextIndexPlusOne = _
      rw [setHandle_apply, hl]
      by_cases hj : j = l
      · subst hj; simp
      · rw [if_neg hj, if_neg (by simpa using Ne.symm hj)]
    · intro j hj hjfl
      have := hlt j hjfl
      rw [List.mem_range'_1] at hj
      omega

end
end PvrServices.Handles
