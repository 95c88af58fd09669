import PvrServices.HandleBase
import PvrServices.LinkedRing

set_option autoImplicit false

/-!
# The tree of subhandles

`Links` reads the list cells of the handle array as a forest: the children of an entry form a
ring through its own `children` list, and every entry knows its parent.
-/
namespace PvrServices.Handles
open Words LinkedRing

@[simp] theorem setHandle_self (b : HandleBase) (i : ℕ) (h : Handle) :
    (setHandle b i h).handleArray i = h := by simp [setHandle]

theorem setHandle_of_ne (b : HandleBase) {i j : ℕ} (h : Handle) (hj : j ≠ i) :
    (setHandle b i h).handleArray j = b.handleArray j := by
  simp [setHandle, hj]

theorem setHandle_apply (b : HandleBase) (i j : ℕ) (h : Handle) :
    (setHandle b i h).handleArray j = if j = i then h else b.handleArray j := by
  simp [setHandle, Function.update_apply]

theorem setHandle_base (b : HandleBase) (i : ℕ) (h : Handle) :
    setHandle b i h = { b with handleArray := (setHandle b i h).handleArray } := rfl

theorem setHandle_setHandle (b : HandleBase) (i : ℕ) (h h' : Handle) :
    setHandle (setHandle b i h) i h' = setHandle b i h' := by
  simp [setHandle]

theorem getList_setList (b : HandleBase) (p q : ListPtr) (l : HandleList) :
    getList (setList b p l) q = if q = p then l else getList b q := by
  obtain ⟨i, o⟩ := p
  obtain ⟨j, o'⟩ := q
  by_cases hij : j = i
  · subst hij
    cases o <;> cases o' <;> simp [getList, setList, setHandle]
  · cases o <;> cases o' <;> simp [getList, setList, setHandle, hij]

@[simp] theorem getList_setNext_next (b : HandleBase) (p q : ListPtr) (i : ℕ) :
    (getList (setNext b p i) q).next = if q = p then i else (getList b q).next := by
  rw [setNext, getList_setList]
  split <;> rfl

@[simp] theorem getList_setNext_prev (b : HandleBase) (p q : ListPtr) (i : ℕ) :
    (getList (setNext b p i) q).prev = (getList b q).prev := by
  rw [setNext, getList_setList]
  split
  · subst q; rfl
  · rfl

@[simp] theorem getList_setNext_parent (b : HandleBase) (p q : ListPtr) (i : ℕ) :
    (getList (setNext b p i) q).parent = (getList b q).parent := by
  rw [setNext, getList_setList]
  split
  · subst q; rfl
  · rfl

@[simp] theorem getList_setPrev_next (b : HandleBase) (p q : ListPtr) (i : ℕ) :
    (getList (setPrev b p i) q).next = (getList b q).next := by
  rw [setPrev, getList_setList]
  split
  · subst q; rfl
  · rfl

@[simp] theorem getList_setPrev_prev (b : HandleBase) (p q : ListPtr) (i : ℕ) :
    (getList (setPrev b p i) q).prev = if q = p then i else (getList b q).prev := by
  rw [setPrev, getList_setList]
  split <;> rfl

@[simp] theorem getList_setPrev_parent (b : HandleBase) (p q : ListPtr) (i : ℕ) :
    (getList (setPrev b p i) q).parent = (getList b q).parent := by
  rw [setPrev, getList_setList]
  split
  · subst q; rfl
  · rfl

@[simp] theorem getList_setParent_next (b : HandleBase) (p q : ListPtr) (i : ℕ) :
    (getList (setParent b p i) q).next = (getList b q).next := by
  rw [setParent, getList_setList]
  split
  · subst q; rfl
  · rfl

@[simp] theorem getList_setParent_prev (b : HandleBase) (p q : ListPtr) (i : ℕ) :
    (getList (setParent b p i) q).prev = (getList b q).prev := by
  rw [setParent, getList_setList]
  split
  · subst q; rfl
  · rfl

@[simp] theorem getList_setParent_parent (b : HandleBase) (p q : ListPtr) (i : ℕ) :
    (getList (setParent b p i) q).parent = if q = p then i else (getList b q).parent := by
  rw [setParent, getList_setList]
  split <;> rfl

theorem getList_setHandle (b : HandleBase) (i : ℕ) (h : Handle)
    (hc : h.children = (b.handleArray i).children)
    (hs : h.siblings = (b.handleArray i).siblings) : getList (setHandle b i h) = getList b := by
  funext q
  obtain ⟨j, o⟩ := q
  by_cases hij : j = i
  · subst hij
    cases o <;> simp [getList, setHandle, hc, hs]
  · cases o <;> simp [getList, setHandle, hij]

def LinkOnly (b b' : HandleBase) : Prop :=
  ∃ c s : ℕ → HandleList, b' = { b with
    handleArray := fun j => { b.handleArray j with children := c j, siblings := s j } }

theorem LinkOnly.refl (b : HandleBase) : LinkOnly b b :=
  ⟨fun j => (b.handleArray j).children, fun j => (b.handleArray j).siblings, rfl⟩

theorem LinkOnly.trans {b c d : HandleBase} (h : LinkOnly b c) (h' : LinkOnly c d) :
    LinkOnly b d := by
  obtain ⟨c₁, s₁, rfl⟩ := h
  obtain ⟨c₂, s₂, rfl⟩ := h'
  exact ⟨c₂, s₂, rfl⟩

theorem linkOnly_setList (b : HandleBase) (p : ListPtr) (l : HandleList) :
    LinkOnly b (setList b p l) := by
  obtain ⟨i, o⟩ := p
  cases o with
  | children =>
    refine ⟨fun j => if j = i then l else (b.handleArray j).children,
      fun j => (b.handleArray j).siblings, ?_⟩
    simp only [setList, setHandle, HandleBase.mk.injEq, and_true]
    funext j
    by_cases hj : j = i
    · subst hj; simp
    · simp [hj]
  | siblings =>
    refine ⟨fun j => (b.handleArray j).children,
      fun j => if j = i then l else (b.handleArray j).siblings, ?_⟩
    simp only [setList, setHandle, HandleBase.mk.injEq, and_true]
    funext j
    by_cases hj : j = i
    · subst hj; simp
    · simp [hj]

theorem linkOnly_unlinkFromParent (b : HandleBase) (i : ℕ) :
    LinkOnly b (unlinkFromParent b i) := by
  unfold unlinkFromParent handleListRemove
  split
  · exact .refl b
  · exact ((linkOnly_setList _ _ _).trans (linkOnly_setList _ _ _)).trans (linkOnly_setList _ _ _)

theorem linkOnly_adoptChild (b : HandleBase) (p c : ℕ) : LinkOnly b (adoptChild b p c) := by
  unfold adoptChild handleListInsertBefore
  exact ((((linkOnly_setList _ _ _).trans (linkOnly_setList _ _ _)).trans
    (linkOnly_setList _ _ _)).trans (linkOnly_setList _ _ _)).trans (linkOnly_setList _ _ _)

/-- The cell of entry `i` in the ring of the children of `p`. -/
def cell (p i : ℕ) : ListPtr := listPtrFromIndexAndOffset i p .children .siblings

theorem cell_self (p : ℕ) : cell p p = (p, .children) := by
  simp [cell, listPtrFromIndexAndOffset]

theorem cell_of_ne {p i : ℕ} (h : i ≠ p) : cell p i = (i, .siblings) := by
  simp [cell, listPtrFromIndexAndOffset, h]

theorem cell_eq_iff (p i j : ℕ) : cell p i = cell p j ↔ i = j := by
  constructor
  · intro h
    exact congrArg Prod.fst h
  · rintro rfl
    rfl

def parentWord : Option ℕ → ℕ
  | none => 0
  | some p => p + 1

/-- The entries in `S` form a forest: `kids i` are the children of `i` in list order and `par`
    the parent of each entry. -/
structure Links (g : ListPtr → HandleList) (S : ℕ → Prop) (kids : ℕ → List ℕ)
    (par : ℕ → Option ℕ) : Prop where
  ring : ∀ i, S i → Ring (fun x => (g (cell i x)).next) (fun x => (g (cell i x)).prev) i (kids i)
  head : ∀ i, S i → (g (i, .children)).parent = i + 1
  up : ∀ i, S i → (g (i, .siblings)).parent = parentWord (par i)
  root : ∀ i, S i → par i = none → (g (i, .siblings)).next = i
  mem : ∀ i k, S i → (k ∈ kids i ↔ S k ∧ par k = some i)
  parent_mem : ∀ k p, S k → par k = some p → S p
  word : ∀ i, S i → i < 4294967295

section
variable {g : ListPtr → HandleList} {S : ℕ → Prop} {kids : ℕ → List ℕ} {par : ℕ → Option ℕ}

theorem Links.ne_parent (L : Links g S kids par) {i p : ℕ} (hi : S i) (hp : par i = some p) :
    i ≠ p := by
  rintro rfl
  exact (L.ring i hi).sentinel_not_mem ((L.mem i i hi).mpr ⟨hi, hp⟩)

theorem Links.kid_parent (L : Links g S kids par) {i k : ℕ} (hi : S i) (hk : k ∈ kids i) :
    par k = some i := ((L.mem i k hi).mp hk).2

theorem Links.kid_mem (L : Links g S kids par) {i k : ℕ} (hi : S i) (hk : k ∈ kids i) : S k :=
  ((L.mem i k hi).mp hk).1

theorem Links.cell_ne (L : Links g S kids par) {j p : ℕ} (hj : S j) (hp : S p) (hjp : j ≠ p) :
    ∀ x ∈ j :: kids j, ∀ y ∈ p :: kids p, cell j x ≠ cell p y := by
  intro x hx y hy h
  have hxy : x = y := congrArg Prod.fst h
  subst hxy
  by_cases hxj : x = j
  · subst hxj
    rw [cell_self, cell_of_ne hjp] at h
    simp at h
  · by_cases hxp : x = p
    · subst hxp
      rw [cell_self, cell_of_ne hxj] at h
      simp at h
    · have h1 := L.kid_parent hj ((List.mem_cons.mp hx).resolve_left hxj)
      have h2 := L.kid_parent hp ((List.mem_cons.mp hy).resolve_left hxp)
      rw [h1] at h2
      exact hjp (Option.some.inj h2)

theorem Links.not_mem_of_root (L : Links g S kids par) {i j : ℕ} (hi : par i = none) (hj : S j) :
    i ∉ kids j := by
  intro hm
  have hp := L.kid_parent hj hm
  rw [hi] at hp
  cases hp

theorem Links.root_ne_cell (L : Links g S kids par) {p a j : ℕ} (hp : S p) (ha : a ∈ p :: kids p)
    (hj : par j = none) : (j, .siblings) ≠ cell p a := by
  intro h
  have hja : j = a := congrArg Prod.fst h
  rcases List.mem_cons.mp ha with h' | h'
  · rw [h', cell_self] at h
    simp at h
  · exact L.not_mem_of_root hj hp (hja ▸ h')

theorem Links.restrict (L : Links g S kids par) (T : ℕ → Prop) (hT : ∀ i, T i → S i)
    (hup : ∀ k p, T k → par k = some p → T p) (hdown : ∀ k p, T p → S k → par k = some p → T k) :
    Links g T kids par where
  ring i hi := L.ring i (hT i hi)
  head i hi := L.head i (hT i hi)
  up i hi := L.up i (hT i hi)
  root i hi := L.root i (hT i hi)
  mem i k hi := by
    rw [L.mem i k (hT i hi)]
    exact ⟨fun h => ⟨hdown k i hi h.1 h.2, h.2⟩, fun h => ⟨hT k h.1, h.2⟩⟩
  parent_mem k p hk hp := hup k p hk hp
  word i hi := L.word i (hT i hi)

theorem handleToIndex_succ (i : ℕ) : handleToIndex (i + 1) = i := by
  rw [handleToIndex, u32Sub_of_le (by omega)]
  omega

theorem indexToHandle_of_lt {i : ℕ} (h : i < 4294967295) : indexToHandle i = i + 1 :=
  u32_of_lt (by omega)

theorem Links.unlink {b : HandleBase} (L : Links (getList b) S kids par) {i : ℕ} (hi : S i) :
    Links (getList (unlinkFromParent b i)) S (fun j => (kids j).erase i)
      (Function.update par i none) := by
  cases hp : par i with
  | none =>
    have he : unlinkFromParent b i = b := by
      simp [unlinkFromParent, handleListRemove, handleListIsEmpty, L.root i hi hp]
    have hk : ∀ j, S j → i ∉ kids j := fun j hj => L.not_mem_of_root hp hj
    rw [he, show Function.update par i none = par by rw [← hp, Function.update_eq_self]]
    exact {
      ring := fun j hj => by
        rw [List.erase_of_not_mem (hk j hj)]
        exact L.ring j hj
      head := L.head
      up := L.up
      root := L.root
      mem := fun j k hj => by
        rw [List.erase_of_not_mem (hk j hj)]
        exact L.mem j k hj
      parent_mem := L.parent_mem
      word := L.word }
  | some p =>
    have hpS := L.parent_mem i p hi hp
    have hip : i ≠ p := L.ne_parent hi hp
    have hik : i ∈ kids p := (L.mem p i hpS).mpr ⟨hi, hp⟩
    have hring := L.ring p hpS
    have hnd := hring.list_nodup
    obtain ⟨s, t, hst⟩ := List.append_of_mem hik
    have her : (kids p).erase i = s ++ t := by
      rw [hst] at hnd ⊢
      rw [List.erase_append_right _ (by simp [List.nodup_append] at hnd; grind)]
      simp
    have hother : ∀ j, S j → j ≠ p → i ∉ kids j := by
      intro j hj hjp hm
      have := L.kid_parent hj hm
      rw [hp] at this
      exact hjp (Option.some.inj this).symm
    have hci := cell_of_ne hip
    rw [hst] at hring
    obtain ⟨hlast, hpn⟩ := hring.prev_cell
    obtain ⟨hhead, hnp⟩ := hring.next_cell
    simp only [hci] at hlast hpn hhead hnp
    have hni : (getList b (i, .siblings)).next ≠ i := by
      have := hring.next_ne (by simp : i ∈ s ++ i :: t)
      simpa only [hci] using this
    have hup := L.up i hi
    rw [hp] at hup
    -- the three writes: behind, in front of and in the entry itself
    set a := (getList b (i, .siblings)).prev with ha
    set c := (getList b (i, .siblings)).next with hc
    have hcm : c ∈ p :: (s ++ t) := by
      have := List.mem_of_mem_head? hhead
      simp at this ⊢; tauto
    have ham : a ∈ p :: (s ++ t) := by
      have := List.mem_of_getLast? hlast
      simp at this ⊢; tauto
    have hnst : i ∉ s ++ t := by
      have h := hring.nodup
      simp only [List.nodup_cons, List.nodup_append, List.mem_append, List.mem_cons] at h
      grind
    have hai : a ≠ i := by
      rintro hai
      rw [hai] at ham
      rcases List.mem_cons.mp ham with h | h
      · exact hip h
      · exact hnst h
    have he : unlinkFromParent b i = handleListInit (setPrev (setNext b (cell p a) c) (cell p c) a)
        i (i, .siblings) 0 := by
      simp only [unlinkFromParent, handleListRemove, handleListIsEmpty, ← hc, beq_iff_eq, hni,
        ↓reduceIte, hup, parentWord, handleToIndex_succ, ← ha, getList_setNext_prev, cell]
    have hget : ∀ q, getList (unlinkFromParent b i) q =
        if q = (i, .siblings) then ⟨i, i, 0⟩
        else getList (setPrev (setNext b (cell p a) c) (cell p c) a) q := by
      intro q
      rw [he, handleListInit, getList_setList]
    have hnext : ∀ q, (getList (unlinkFromParent b i) q).next =
        if q = (i, .siblings) then i else if q = cell p a then c else (getList b q).next := by
      intro q
      rw [hget]
      split <;> simp
    have hprev : ∀ q, (getList (unlinkFromParent b i) q).prev =
        if q = (i, .siblings) then i else if q = cell p c then a else (getList b q).prev := by
      intro q
      rw [hget]
      split <;> simp
    have hpar : ∀ q, (getList (unlinkFromParent b i) q).parent =
        if q = (i, .siblings) then 0 else (getList b q).parent := by
      intro q
      rw [hget]
      split <;> simp
    have hcell : ∀ j, S j → ∀ x ∈ j :: (kids j).erase i, cell j x ≠ (i, .siblings) := by
      intro j hj x hx h
      rcases List.mem_cons.mp hx with rfl | hx
      · rw [cell_self] at h; simp at h
      · have hxi : x = i := congrArg Prod.fst h
        subst hxi
        have hjnd := (L.ring j hj).list_nodup
        exact List.Nodup.not_mem_erase hjnd hx
    have hapart := fun j hj hjp => L.cell_ne (j := j) (p := p) hj hpS hjp
    have hsub : ∀ x, x ∈ p :: (s ++ t) → x ∈ p :: kids p := by
      intro x hx
      rw [hst]
      simp at hx ⊢; tauto
    refine ⟨?_, ?_, ?_, ?_, ?_, ?_, L.word⟩
    · intro j hj
      by_cases hjp : j = p
      · subst hjp
        rw [her]
        refine hring.remove ?_ ?_
        · intro x hx
          have hxi := hcell j hj x (by rwa [her])
          simp only [hnext, hci, if_neg hxi, cell_eq_iff, ← ha, ← hc]
        · intro x hx
          have hxi := hcell j hj x (by rwa [her])
          simp only [hprev, hci, if_neg hxi, cell_eq_iff, ← ha, ← hc]
      · rw [List.erase_of_not_mem (hother j hj hjp)]
        refine (L.ring j hj).congr ?_ ?_
        · intro x hx
          have hxi := hcell j hj x (by rwa [List.erase_of_not_mem (hother j hj hjp)])
          simp only [hnext, if_neg hxi, if_neg (hapart j hj hjp x hx a (hsub a ham))]
        · intro x hx
          have hxi := hcell j hj x (by rwa [List.erase_of_not_mem (hother j hj hjp)])
          simp only [hprev, if_neg hxi, if_neg (hapart j hj hjp x hx c (hsub c hcm))]
    · intro j hj
      rw [hpar, if_neg (by simp)]
      exact L.head j hj
    · intro j hj
      rw [hpar]
      by_cases hji : j = i
      · subst hji; simp [parentWord]
      · rw [if_neg (by simpa using hji), Function.update_of_ne hji]
        exact L.up j hj
    · intro j hj hroot
      rw [hnext]
      by_cases hji : j = i
      · subst hji; simp
      · rw [Function.update_of_ne hji] at hroot
        rw [if_neg (by simpa using hji), if_neg (L.root_ne_cell hpS (hsub a ham) hroot)]
        exact L.root j hj hroot
    · intro j k hj
      by_cases hki : k = i
      · subst hki
        simp only [Function.update_self, reduceCtorEq, and_false, iff_false]
        exact List.Nodup.not_mem_erase (L.ring j hj).list_nodup
      · rw [Function.update_of_ne hki, List.mem_erase_of_ne hki]
        exact L.mem j k hj
    · intro k q hk hq
      by_cases hki : k = i
      · subst hki; simp at hq
      · rw [Function.update_of_ne hki] at hq
        exact L.parent_mem k q hk hq

/-- A root that is not the parent itself goes to the end of the list of children. -/
theorem Links.adopt {b : HandleBase} (L : Links (getList b) S kids par) {p c : ℕ} (hp : S p)
    (hc : S c) (hroot : par c = none) (hpc : c ≠ p) :
    Links (getList (adoptChild b p c)) S (Function.update kids p (kids p ++ [c]))
      (Function.update par c (some p)) := by
  have hcp : ∀ j, S j → c ∉ kids j := fun j hj => L.not_mem_of_root hroot hj
  have hring := L.ring p hp
  obtain ⟨hlast, hln⟩ := hring.prev_sentinel
  have hself := cell_self p
  simp only [hself] at hlast hln
  set a := (getList b (p, .children)).prev with ha
  have ham : a ∈ p :: kids p := List.mem_of_getLast? hlast
  have hac : a ≠ c := by
    rintro rfl
    rcases List.mem_cons.mp ham with h | h
    · exact hpc h
    · exact hcp p hp h
  have hidx : handleToIndex (b.handleArray p).children.parent = p := by
    have := L.head p hp
    change (b.handleArray p).children.parent = p + 1 at this
    rw [this, handleToIndex_succ]
  have hh : indexToHandle p = p + 1 := indexToHandle_of_lt (L.word p hp)
  have he : adoptChild b p c = setParent (setNext (setNext (setPrev (setPrev b (c, .siblings) a)
      (p, .children) c) (c, .siblings) p) (cell p a) c) (c, .siblings) (p + 1) := by
    simp only [adoptChild, hidx, handleListInsertBefore, hh, ← ha, cell]
  have hcc : ((c, ListOffset.siblings) : ListPtr) ≠ cell p a := fun h =>
    hac (congrArg Prod.fst h).symm
  have hnext : ∀ q, (getList (adoptChild b p c) q).next =
      if q = cell p a then c else if q = (c, .siblings) then p else (getList b q).next := by
    intro q
    rw [he]
    simp
  have hprev : ∀ q, (getList (adoptChild b p c) q).prev =
      if q = (p, .children) then c else if q = (c, .siblings) then a
        else (getList b q).prev := by
    intro q
    rw [he]
    simp
  have hpar : ∀ q, (getList (adoptChild b p c) q).parent =
      if q = (c, .siblings) then p + 1 else (getList b q).parent := by
    intro q
    rw [he]
    simp
  have hcell : ∀ j, S j → ∀ x ∈ j :: kids j, cell j x ≠ (c, .siblings) := by
    intro j hj x hx h
    have hxc : x = c := congrArg Prod.fst h
    rcases List.mem_cons.mp hx with rfl | hx
    · rw [cell_self] at h; simp at h
    · exact hcp j hj (hxc ▸ hx)
  have hapart := fun j hj hjp => L.cell_ne (j := j) (p := p) hj hp hjp
  refine ⟨?_, ?_, ?_, ?_, ?_, ?_, L.word⟩
  · intro j hj
    by_cases hjp : j = p
    · subst hjp
      rw [Function.update_self]
      refine hring.append ?_ ?_ ?_ ?_ ?_ ?_ ?_
      · simp [hpc, hcp j hj]
      · simp only [hself, ← ha, hnext, if_pos]
      · rw [hnext, cell_of_ne hpc, if_neg hcc, if_pos rfl]
      · rw [hprev, cell_of_ne hpc, if_neg (by simp), if_pos rfl, hself]
      · rw [hprev, hself, if_pos rfl]
      · intro x hx hxa
        simp only [hself, ← ha] at hxa
        simp only [hnext, cell_eq_iff, if_neg hxa, if_neg (hcell j hj x hx)]
      · intro x hx hxj
        simp only [hprev, ← hself, cell_eq_iff, if_neg hxj, if_neg (hcell j hj x hx)]
    · rw [Function.update_of_ne hjp]
      refine (L.ring j hj).congr ?_ ?_
      · intro x hx
        rw [hnext, if_neg (hapart j hj hjp x hx a ham), if_neg (hcell j hj x hx)]
      · intro x hx
        rw [hprev, ← hself, if_neg (hapart j hj hjp x hx p (by simp)), if_neg (hcell j hj x hx)]
  · intro j hj
    rw [hpar, if_neg (by simp)]
    exact L.head j hj
  · intro j hj
    rw [hpar]
    by_cases hjc : j = c
    · subst hjc; simp [parentWord]
    · rw [if_neg (by simpa using hjc), Function.update_of_ne hjc]
      exact L.up j hj
  · intro j hj hjr
    by_cases hjc : j = c
    · subst hjc; simp at hjr
    · rw [Function.update_of_ne hjc] at hjr
      rw [hnext, if_neg (L.root_ne_cell hp ham hjr), if_neg (by simpa using hjc)]
      exact L.root j hj hjr
  · intro j k hj
    by_cases hjp : j = p
    · subst hjp
      rw [Function.update_self, List.mem_append, List.mem_singleton, L.mem j k hj]
      by_cases hkc : k = c
      · subst hkc; simp [hc]
      · simp [hkc]
    · rw [Function.update_of_ne hjp, L.mem j k hj]
      by_cases hkc : k = c
      · subst hkc; simp [hroot, Ne.symm hjp]
      · simp [hkc]
  · intro k q hk hq
    by_cases hkc : k = c
    · subst hkc
      rw [Function.update_self] at hq
      exact Option.some.inj hq ▸ hp
    · rw [Function.update_of_ne hkc] at hq
      exact L.parent_mem k q hk hq

theorem Links.addRoot {g' : ListPtr → HandleList} (L : Links g S kids par) {c : ℕ} (hc : ¬ S c)
    (hw : c < 4294967295) (hg : ∀ q : ListPtr, q.1 ≠ c → g' q = g q)
    (hch : g' (c, .children) = ⟨c, c, c + 1⟩) (hsi : g' (c, .siblings) = ⟨c, c, 0⟩) :
    Links g' (fun j => S j ∨ j = c) (Function.update kids c []) (Function.update par c none) := by
  have hcell : ∀ j, S j → ∀ x ∈ j :: kids j, g' (cell j x) = g (cell j x) := by
    intro j hj x hx
    refine hg _ ?_
    change x ≠ c
    rintro rfl
    rcases List.mem_cons.mp hx with rfl | hx
    · exact hc hj
    · exact hc (L.kid_mem hj hx)
  have hne : ∀ j, S j → j ≠ c := fun j hj h => hc (h ▸ hj)
  refine ⟨?_, ?_, ?_, ?_, ?_, ?_, ?_⟩
  · rintro j (hj | rfl)
    · rw [Function.update_of_ne (hne j hj)]
      refine (L.ring j hj).congr ?_ ?_
      · intro x hx; simp only [hcell j hj x hx]
      · intro x hx; simp only [hcell j hj x hx]
    · rw [Function.update_self]
      exact Ring.empty (by simp [cell_self, hch]) (by simp [cell_self, hch])
  · rintro j (hj | rfl)
    · rw [hg _ (hne j hj)]; exact L.head j hj
    · rw [hch]
  · rintro j (hj | rfl)
    · rw [hg _ (hne j hj), Function.update_of_ne (hne j hj)]; exact L.up j hj
    · rw [hsi, Function.update_self]; rfl
  · rintro j (hj | rfl) hr
    · rw [Function.update_of_ne (hne j hj)] at hr
      rw [hg _ (hne j hj)]; exact L.root j hj hr
    · rw [hsi]
  · rintro j k (hj | rfl)
    · rw [Function.update_of_ne (hne j hj), L.mem j k hj]
      by_cases hkc : k = c
      · subst hkc; simp [hc]
      · simp [hkc]
    · simp only [Function.update_self, List.not_mem_nil, false_iff, not_and]
      intro hk hp
      by_cases hkc : k = j
      · subst hkc; simp at hp
      · rw [Function.update_of_ne hkc] at hp
        rcases hk with hk | hk
        · exact hc (L.parent_mem k j hk hp)
        · exact hkc hk
  · rintro k q hk hq
    by_cases hkc : k = c
    · subst hkc; simp at hq
    · rw [Function.update_of_ne hkc] at hq
      rcases hk with hk | hk
      · exact Or.inl (L.parent_mem k q hk hq)
      · exact absurd hk hkc
  · rintro j (hj | rfl)
    · exact L.word j hj
    · exact hw

end
end PvrServices.Handles
