import PvrServices.HandleLinks

set_option autoImplicit false

/-!
# What `FreeHandle` does

On a forest the recursion ends, and its effect is a sequence of two kinds of step: an entry
is taken out of the hash table and its parent's list, and later it is retired.
-/
namespace PvrServices.Handles
open Words LinkedRing

/-- The entries that a loop over children frees, in the order in which `FreeHandle` is done with
    them. -/
def freedFrom (freed : HandleBase → ℕ → List ℕ)
    (iterFunc : HandleBase → ℕ → Option (PvrsrvError × HandleBase)) (parent : ℕ) :
    ℕ → HandleBase → ℕ → List ℕ
  | 0, _, _ => []
  | fuel + 1, b, index =>
    if index = parent then []
    else
      let next := (getList b (cell parent index)).next
      freed b index ++
        match iterFunc b index with
        | some (.ok, b) => freedFrom freed iterFunc parent fuel b next
        | _ => []

/-- The entries that `FreeHandle` is called for, in the order in which the calls end. -/
def freedHandles : ℕ → HandleBase → ℕ → List ℕ
  | 0, _, _ => []
  | fuel + 1, b, i =>
    let b := unlinkFromParent (removeFromHash b i) i
    let children := getList b (i, .children)
    freedFrom (freedHandles fuel) (freeHandle fuel) (handleToIndex children.parent) fuel b
      children.next ++ [i]

def visitedFrom (iterFunc : HandleBase → ℕ → Option (PvrsrvError × HandleBase)) (parent : ℕ) :
    ℕ → HandleBase → ℕ → List ℕ
  | 0, _, _ => []
  | fuel + 1, b, index =>
    if index = parent then []
    else
      index :: match iterFunc b index with
        | some (.ok, b') =>
          visitedFrom iterFunc parent fuel b' (getList b (cell parent index)).next
        | _ => []

/-- From `b₀`, the entries of `E` have been taken out and those of `D` retired. -/
inductive FreeSteps (b₀ : HandleBase) : List ℕ → List ℕ → HandleBase → Prop where
  | refl : FreeSteps b₀ [] [] b₀
  | enter {E D : List ℕ} {b : HandleBase} (steps : FreeSteps b₀ E D b) {i : ℕ} (hi : i ∉ E) :
      FreeSteps b₀ (E ++ [i]) D (unlinkFromParent (removeFromHash b i) i)
  | retire {E D : List ℕ} {b : HandleBase} (steps : FreeSteps b₀ E D b) {i : ℕ} (he : i ∈ E)
      (hd : i ∉ D) : FreeSteps b₀ E (D ++ [i]) (retireHandle b i)

theorem FreeSteps.trans {b₀ b b' : HandleBase} {E D E' D' : List ℕ} (h : FreeSteps b₀ E D b)
    (h' : FreeSteps b E' D' b') (hE : ∀ x ∈ E', x ∉ E) (hD : ∀ x ∈ D', x ∉ D) :
    FreeSteps b₀ (E ++ E') (D ++ D') b' := by
  induction h' with
  | refl => simpa using h
  | @enter E' D' b' _ i hi ih =>
    rw [← List.append_assoc]
    refine .enter (ih (fun x hx => hE x (by simp [hx])) hD) ?_
    simp [hi, hE i (by simp)]
  | @retire E' D' b' _ i he hd ih =>
    rw [← List.append_assoc]
    refine .retire (ih hE (fun x hx => hD x (by simp [hx]))) (by simp [he]) ?_
    simp [hd, hD i (by simp)]

theorem FreeSteps.nodup {b₀ b : HandleBase} {E D : List ℕ} (h : FreeSteps b₀ E D b) :
    D.Nodup := by
  induction h with
  | refl => exact .nil
  | enter _ _ ih => exact ih
  | retire _ _ hd ih =>
    rw [List.nodup_append]
    refine ⟨ih, by simp, ?_⟩
    rintro x hx y hy rfl
    exact hd (List.mem_singleton.mp hy ▸ hx)

theorem getList_removeFromHash (b : HandleBase) (i : ℕ) :
    getList (removeFromHash b i) = getList b := by
  unfold removeFromHash
  dsimp only
  split <;> rfl

theorem getList_appendFree (b : HandleBase) (i : ℕ) : getList (appendFree b i) = getList b := by
  unfold appendFree
  dsimp only
  split
  · rfl
  · refine (getList_setHandle _ _ _ ?_ ?_).trans rfl <;> rfl

theorem getList_retireHandle (b : HandleBase) (i : ℕ) :
    getList (retireHandle b i) = getList b := by
  have h₁ : getList (setHandle b i { b.handleArray i with type := .none }) = getList b :=
    getList_setHandle b i _ rfl rfl
  unfold retireHandle
  dsimp only
  split
  · refine (getList_setHandle _ _ _ ?_ ?_).trans h₁ <;> rfl
  · split
    · exact h₁
    · exact (getList_appendFree _ i).trans h₁

structure Subtree (S : ℕ → Prop) (par : ℕ → Option ℕ) (rank : ℕ → ℕ) (i : ℕ) (D : List ℕ) :
    Prop where
  root : i ∈ D
  sub : ∀ j ∈ D, S j
  down : ∀ j p, S j → par j = some p → p ∈ D → j ∈ D
  up : ∀ j ∈ D, j = i ∨ ∃ p ∈ D, par j = some p
  rank_le : ∀ j ∈ D, rank i ≤ rank j

/-- `freeHandle` with this fuel frees every subtree with fewer entries than that, and leaves
    its entries behind as roots without children. Only below `i` need the ranks rise, so `i` may
    have one of its descendants as its parent. -/
def FreesSubtrees (rank : ℕ → ℕ) (fuel : ℕ) : Prop :=
  ∀ (b : HandleBase) (S : ℕ → Prop) (kids : ℕ → List ℕ) (par : ℕ → Option ℕ) (i : ℕ),
    Links (getList b) S kids par →
    (∀ k p, S k → k ≠ i → par k = some p → rank i ≤ rank p → rank p < rank k) → S i →
    (∀ l : List ℕ, l.Nodup → (∀ j ∈ l, S j ∧ rank i ≤ rank j) → l.length < fuel) →
    ∃ (E D : List ℕ) (b' : HandleBase) (kids' : ℕ → List ℕ) (par' : ℕ → Option ℕ),
      freeHandle fuel b i = some (.ok, b') ∧ freedHandles fuel b i = D ∧ FreeSteps b E D b' ∧
      (∀ j, j ∈ E ↔ j ∈ D) ∧ Subtree S par rank i D ∧ Links (getList b') S kids' par' ∧
      (∀ j ∈ D, kids' j = [] ∧ par' j = none) ∧
      ∀ j, S j → j ∉ D → kids' j = (kids j).erase i ∧ par' j = par j

theorem iterate_frees {rank : ℕ → ℕ} {fuel : ℕ} (hfree : FreesSubtrees rank fuel)
    (ks : List ℕ) (n : ℕ) (b : HandleBase) (S : ℕ → Prop) (kids : ℕ → List ℕ)
    (par : ℕ → Option ℕ) (i next : ℕ) (L : Links (getList b) S kids par)
    (hrank : ∀ k p, S k → par k = some p → rank i ≤ rank p → rank p < rank k) (hi : S i)
    (hks : kids i = ks)
    (hn : ks.length < n) (hnext : (ks ++ [i]).head? = some next)
    (hfuel : ∀ l : List ℕ, l.Nodup → (∀ j ∈ l, S j ∧ rank i < rank j) → l.length < fuel) :
    ∃ (E D : List ℕ) (b' : HandleBase) (kids' : ℕ → List ℕ) (par' : ℕ → Option ℕ),
      handleListIterateFrom (freeHandle fuel) i .children .siblings n b next = some (.ok, b') ∧
      freedFrom (freedHandles fuel) (freeHandle fuel) i n b next = D ∧
      visitedFrom (freeHandle fuel) i n b next = ks ∧ FreeSteps b E D b' ∧ (∀ j, j ∈ E ↔ j ∈ D) ∧ (∀ k ∈ ks, k ∈ D) ∧
      (∀ j ∈ D, S j ∧ rank i < rank j) ∧
      (∀ j p, S j → par j = some p → p ∈ D → j ∈ D) ∧
      (∀ j ∈ D, ∃ p, par j = some p ∧ (p = i ∨ p ∈ D)) ∧
      Links (getList b') S kids' par' ∧ kids' i = [] ∧
      (∀ j ∈ D, kids' j = [] ∧ par' j = none) ∧
      ∀ j, S j → j ∉ D → (j ≠ i → kids' j = kids j) ∧ par' j = par j := by
  induction ks generalizing n b kids par next with
  | nil =>
    obtain ⟨n, rfl⟩ : ∃ m, n = m + 1 := ⟨n - 1, by simp at hn; omega⟩
    obtain rfl : i = next := by simpa using hnext
    exact ⟨[], [], b, kids, par, by simp [handleListIterateFrom], by simp [freedFrom],
      by simp [visitedFrom], .refl,
      by simp, by simp, by simp, by simp, by simp, L, hks, by simp, by simp⟩
  | cons k ks ih =>
    obtain ⟨n, rfl⟩ : ∃ m, n = m + 1 := ⟨n - 1, by simp at hn; omega⟩
    obtain rfl : k = next := by simpa using hnext
    have hkm : k ∈ kids i := by rw [hks]; simp
    have hk : S k := L.kid_mem hi hkm
    have hkp : par k = some i := L.kid_parent hi hkm
    have hki : k ≠ i := L.ne_parent hk hkp
    have hrk := hrank k i hk hkp le_rfl
    obtain ⟨E₁, D₁, b₁, kids₁, par₁, hrun₁, hlog₁, hst₁, hED₁, hsub, L₁, hin₁, hout₁⟩ :=
      hfree b S kids par k L (fun x p hx _ hp hle => hrank x p hx hp (hrk.le.trans hle)) hk
        (fun l hl hlr => hfuel l hl (fun j hj => ⟨(hlr j hj).1, hrk.trans_le (hlr j hj).2⟩))
    have hi₁ : i ∉ D₁ := fun h => by have := hsub.rank_le i h; omega
    have hpar₁ : ∀ j p, S j → par₁ j = some p → j ∉ D₁ ∧ par j = some p := by
      intro j p hj hp
      have hjD : j ∉ D₁ := fun h => by simp [(hin₁ j h).2] at hp
      exact ⟨hjD, by rw [← (hout₁ j hj hjD).2, hp]⟩
    have hring := L.ring i hi
    rw [hks] at hring
    have hhead := (Ring.next_cell (s := []) hring).1
    set next' := (getList b (cell i k)).next with hnx
    have hks₁ : kids₁ i = ks := by
      rw [(hout₁ i hi hi₁).1, hks, List.erase_cons_head]
    obtain ⟨E₂, D₂, b₂, kids₂, par₂, hrun₂, hlog₂, hvis₂, hst₂, hED₂, hall₂, hS₂, hdown₂, hup₂, L₂, hnil₂,
        hin₂, hout₂⟩ := ih n b₁ kids₁ par₁ next' L₁
      (fun x p hx hp hle => hrank x p hx (hpar₁ x p hx hp).2 hle) hks₁ (by simp at hn; omega) hhead
    have hdis : ∀ j ∈ D₂, j ∉ D₁ := by
      intro j hj
      obtain ⟨p, hp, -⟩ := hup₂ j hj
      exact (hpar₁ j p (hS₂ j hj).1 hp).1
    refine ⟨E₁ ++ E₂, D₁ ++ D₂, b₂, kids₂, par₂, ?_, ?_, ?_, ?_, ?_, ?_, ?_, ?_, ?_, L₂, hnil₂, ?_, ?_⟩
    · simp only [handleListIterateFrom, if_neg hki, hrun₁]
      exact hrun₂
    · simp only [freedFrom, if_neg hki, hrun₁, hlog₁]
      exact congrArg (D₁ ++ ·) hlog₂
    · simp only [visitedFrom, if_neg hki, hrun₁]
      exact congrArg (k :: ·) hvis₂
    · refine hst₁.trans hst₂ ?_ hdis
      intro x hx h
      exact hdis x ((hED₂ x).mp hx) ((hED₁ x).mp h)
    · intro j
      simp [hED₁, hED₂]
    · intro j hj
      rcases List.mem_cons.mp hj with rfl | hj
      · simp [hsub.root]
      · simp [hall₂ j hj]
    · intro j hj
      rcases List.mem_append.mp hj with h | h
      · exact ⟨hsub.sub j h, hrk.trans_le (hsub.rank_le j h)⟩
      · exact hS₂ j h
    · intro j p hj hp hpD
      by_cases hjD : j ∈ D₁
      · simp [hjD]
      · rcases List.mem_append.mp hpD with h | h
        · exact absurd (hsub.down j p hj hp h) hjD
        · refine List.mem_append_right _ (hdown₂ j p hj ?_ h)
          rw [(hout₁ j hj hjD).2, hp]
    · intro j hj
      rcases List.mem_append.mp hj with h | h
      · rcases hsub.up j h with rfl | ⟨p, hp, hjp⟩
        · exact ⟨i, hkp, Or.inl rfl⟩
        · exact ⟨p, hjp, Or.inr (by simp [hp])⟩
      · obtain ⟨p, hjp, hp⟩ := hup₂ j h
        refine ⟨p, (hpar₁ j p (hS₂ j h).1 hjp).2, hp.imp_right ?_⟩
        exact fun hp => List.mem_append_right _ hp
    · intro j hj
      by_cases hj₂ : j ∈ D₂
      · exact hin₂ j hj₂
      · have hj₁ : j ∈ D₁ := (List.mem_append.mp hj).resolve_right hj₂
        have hji : j ≠ i := fun h => hi₁ (h ▸ hj₁)
        have ho := hout₂ j (hsub.sub j hj₁) hj₂
        rw [ho.1 hji, ho.2]
        exact hin₁ j hj₁
    · intro j hj hjD
      simp only [List.mem_append, not_or] at hjD
      have ho := hout₂ j hj hjD.2
      have ho₁ := hout₁ j hj hjD.1
      refine ⟨fun hji => ?_, ho.2.trans ho₁.2⟩
      rw [ho.1 hji, ho₁.1]
      refine List.erase_of_not_mem (fun h => hji ?_)
      have := L.kid_parent hj h
      rw [hkp] at this
      exact (Option.some.inj this).symm

/-- The entries that the loop over the children of `i` calls its function for. -/
def visitedChildren (fuel : ℕ) (b : HandleBase) (i : ℕ)
    (iterFunc : HandleBase → ℕ → Option (PvrsrvError × HandleBase)) : List ℕ :=
  visitedFrom iterFunc (handleToIndex (getList b (i, .children)).parent) fuel b
    (getList b (i, .children)).next

section
variable {rank : ℕ → ℕ} {fuel i : ℕ} {b b₁ : HandleBase} {S : ℕ → Prop} {kids : ℕ → List ℕ}
  {par : ℕ → Option ℕ}

/-- The loop of `FreeHandle`, once `i` has left the list of its parent. -/
theorem children_frees (hfree : FreesSubtrees rank fuel) (L : Links (getList b) S kids par)
    (hrank : ∀ k p, S k → k ≠ i → par k = some p → rank i ≤ rank p → rank p < rank k) (hi : S i)
    (hfuel : ∀ l : List ℕ, l.Nodup → (∀ j ∈ l, S j ∧ rank i ≤ rank j) → l.length < fuel + 1)
    (hb₁ : unlinkFromParent (removeFromHash b i) i = b₁) :
    ∃ (E D : List ℕ) (b₂ : HandleBase) (kids₂ : ℕ → List ℕ) (par₂ : ℕ → Option ℕ),
      iterateOverChildren fuel b₁ i (freeHandle fuel) = some (.ok, b₂) ∧
      freedFrom (freedHandles fuel) (freeHandle fuel)
        (handleToIndex (getList b₁ (i, .children)).parent) fuel b₁
        (getList b₁ (i, .children)).next = D ∧
      visitedChildren fuel b₁ i (freeHandle fuel) = kids i ∧
      FreeSteps b₁ E D b₂ ∧ (∀ j, j ∈ E ↔ j ∈ D) ∧ (∀ k ∈ kids i, k ∈ D) ∧
      (∀ j ∈ D, S j ∧ rank i < rank j) ∧
      (∀ j p, S j → j ≠ i → par j = some p → p ∈ D → j ∈ D) ∧
      (∀ j ∈ D, ∃ p, par j = some p ∧ (p = i ∨ p ∈ D)) ∧
      Links (getList b₂) S kids₂ par₂ ∧ kids₂ i = [] ∧ par₂ i = none ∧
      (∀ j ∈ D, kids₂ j = [] ∧ par₂ j = none) ∧
      ∀ j, S j → j ∉ D → j ≠ i → kids₂ j = (kids j).erase i ∧ par₂ j = par j := by
  have L₀ : Links (getList (removeFromHash b i)) S kids par := by
    rwa [getList_removeFromHash]
  have L₁ := L₀.unlink hi
  rw [hb₁] at L₁
  have hrank₁ : ∀ k p, S k → Function.update par i none k = some p → rank i ≤ rank p →
      rank p < rank k := by
    intro k p hk hp hle
    by_cases hki : k = i
    · subst hki; simp at hp
    · rw [Function.update_of_ne hki] at hp
      exact hrank k p hk hki hp hle
  have hself : (kids i).erase i = kids i :=
    List.erase_of_not_mem (L.ring i hi).sentinel_not_mem
  have hlen : (kids i).length < fuel := by
    have hnd : (i :: kids i).Nodup := (L.ring i hi).nodup
    have := hfuel (i :: kids i) hnd (by
      intro j hj
      rcases List.mem_cons.mp hj with rfl | hj
      · exact ⟨hi, le_rfl⟩
      · have hji := L.ne_parent (L.kid_mem hi hj) (L.kid_parent hi hj)
        exact ⟨L.kid_mem hi hj,
          (hrank j i (L.kid_mem hi hj) hji (L.kid_parent hi hj) le_rfl).le⟩)
    simp at this
    omega
  have hhead := (L₁.ring i hi).next_sentinel
  rw [hself, cell_self] at hhead
  have hidx : handleToIndex (getList b₁ (i, .children)).parent = i := by
    rw [L₁.head i hi, handleToIndex_succ]
  obtain ⟨E, D, b₂, kids₂, par₂, hrun, hlog, hvis, hst, hED, hall, hS, hdown, hup, L₂, hnil, hin,
      hout⟩ :=
    iterate_frees hfree (kids i) fuel b₁ S (fun j => (kids j).erase i)
      (Function.update par i none) i _ L₁ hrank₁ hi hself hlen hhead (by
        intro l hl hlr
        have hil : i ∉ l := fun h => by have := (hlr i h).2; omega
        have := hfuel (i :: l) (List.nodup_cons.mpr ⟨hil, hl⟩) (by
          intro j hj
          rcases List.mem_cons.mp hj with rfl | hj
          · exact ⟨hi, le_rfl⟩
          · exact ⟨(hlr j hj).1, (hlr j hj).2.le⟩)
        simp at this
        omega)
  have hiD : i ∉ D := fun h => by have := (hS i h).2; omega
  refine ⟨E, D, b₂, kids₂, par₂, ?_, ?_, ?_, hst, hED, hall, hS, ?_, ?_, L₂, hnil, ?_, hin, ?_⟩
  · simp only [iterateOverChildren, handleListIterate, hidx, hrun]
  · rw [hidx, hlog]
  · unfold visitedChildren
    rw [hidx, hvis]
  · intro j p hj hji hp hpD
    exact hdown j p hj (by rwa [Function.update_of_ne hji]) hpD
  · intro j hj
    obtain ⟨p, hjp, hp⟩ := hup j hj
    rw [Function.update_of_ne (fun h : j = i => hiD (h ▸ hj))] at hjp
    exact ⟨p, hjp, hp⟩
  · rw [(hout i hi hiD).2, Function.update_self]
  · intro j hj hjD hji
    have ho := hout j hj hjD
    exact ⟨ho.1 hji, by rw [ho.2, Function.update_of_ne hji]⟩

theorem freeHandle_of_children {b₂ : HandleBase}
    (h : iterateOverChildren fuel (unlinkFromParent (removeFromHash b i) i) i (freeHandle fuel) =
      some (.ok, b₂)) : freeHandle (fuel + 1) b i = some (.ok, retireHandle b₂ i) := by
  simp only [freeHandle, h]

theorem freesSubtrees (rank : ℕ → ℕ) (fuel : ℕ) : FreesSubtrees rank fuel := by
  induction fuel with
  | zero =>
    intro b S kids par i _ _ _ hfuel
    exact absurd (hfuel [] .nil (by simp)) (by simp)
  | succ fuel ih =>
    intro b S kids par i L hrank hi hfuel
    set b₁ := unlinkFromParent (removeFromHash b i) i with hb₁
    obtain ⟨E, D, b₂, kids₂, par₂, hrun, hlog, -, hst, hED, hall, hS, hdown, hup, L₂, hnil, hnone,
        hin, hout⟩ := children_frees ih L hrank hi hfuel rfl
    rw [← hb₁] at hrun hlog hst
    have hiD : i ∉ D := fun h => by have := (hS i h).2; omega
    have hiE : i ∉ E := fun h => hiD ((hED i).mp h)
    refine ⟨i :: E, D ++ [i], retireHandle b₂ i, kids₂, par₂, ?_, ?_, ?_, ?_, ?_, ?_, ?_, ?_⟩
    · exact freeHandle_of_children hrun
    · simp only [freedHandles, ← hb₁, hlog]
    · have h₁ : FreeSteps b ([] ++ [i]) [] b₁ := .enter .refl (by simp)
      have h₂ := h₁.trans hst (by
        intro x hx
        simp only [List.nil_append, List.mem_singleton]
        rintro rfl
        exact hiE hx) (by simp)
      exact .retire h₂ (by simp) (by simpa using hiD)
    · intro j
      simp only [List.mem_cons, hED, List.mem_append, List.not_mem_nil, or_false]
      exact or_comm
    · refine ⟨by simp, ?_, ?_, ?_, ?_⟩
      · intro j hj
        rcases List.mem_append.mp hj with h | h
        · exact (hS j h).1
        · rw [List.mem_singleton.mp h]; exact hi
      · intro j p hj hp hpD
        by_cases hji : j = i
        · simp [hji]
        · rcases List.mem_append.mp hpD with h | h
          · exact List.mem_append_left _ (hdown j p hj hji hp h)
          · rw [List.mem_singleton.mp h] at hp
            exact List.mem_append_left _ (hall j ((L.mem i j hi).mpr ⟨hj, hp⟩))
      · intro j hj
        rcases List.mem_append.mp hj with h | h
        · obtain ⟨p, hjp, hp⟩ := hup j h
          exact Or.inr ⟨p, by simpa [or_comm] using hp, hjp⟩
        · exact Or.inl (List.mem_singleton.mp h)
      · intro j hj
        rcases List.mem_append.mp hj with h | h
        · exact (hS j h).2.le
        · rw [List.mem_singleton.mp h]
    · rwa [getList_retireHandle]
    · intro j hj
      rcases List.mem_append.mp hj with h | h
      · exact hin j h
      · obtain rfl := List.mem_singleton.mp h
        exact ⟨hnil, hnone⟩
    · intro j hj hjD
      simp only [List.mem_append, List.mem_singleton, not_or] at hjD
      exact hout j hj hjD.1 hjD.2

end
end PvrServices.Handles
