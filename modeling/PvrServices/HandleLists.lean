import Mathlib.Data.Nat.Find
import PvrServices.HandleTeardown

set_option autoImplicit false

/-!
# The lists of children

`AdoptChild`, `UnlinkFromParent` and `FreeHandle` in any order, from any base that a run reaches.
An adoption may put a handle below one of its own descendants; `FreeHandle` ends all the same.
-/
namespace PvrServices.Handles
open Words HashTable LinkedRing Runs

inductive LinkOp where
  | adoptChild (parent child : ℕ)
  | unlinkFromParent (i : ℕ)
  | freeHandle (i : ℕ)
deriving DecidableEq

def linkStep (b : HandleBase) : LinkOp → Option (PvrsrvError × HandleBase)
  | .adoptChild parent child => some (.ok, adoptChild b parent child)
  | .unlinkFromParent i => some (.ok, unlinkFromParent b i)
  | .freeHandle i => freeHandle (freeFuel b) b i

/-- The calls are for live handles, and a handle is adopted that has no parent, as
    `HandleListInsertBefore` asserts, and by another one. -/
def LinkCalled (b : HandleBase) : LinkOp → Prop
  | .adoptChild parent child => Live b parent ∧ Live b child ∧ child ≠ parent ∧
      parentHandle (b.handleArray child) = 0
  | .unlinkFromParent i | .freeHandle i => Live b i

/-- `kids i` is the circular list of the children of `i`, through its own entry. -/
structure ChildLists (b : HandleBase) (kids : ℕ → List ℕ) : Prop where
  ring : ∀ i, Live b i → Ring (fun x => (getList b (cell i x)).next)
    (fun x => (getList b (cell i x)).prev) i (kids i)
  head : ∀ i, Live b i → (b.handleArray i).children.parent = i + 1
  mem : ∀ p k, Live b p → k ∈ kids p → Live b k ∧ parentHandle (b.handleArray k) = p + 1
  parent : ∀ k, Live b k → parentHandle (b.handleArray k) ≠ 0 →
    ∃ p, Live b p ∧ parentHandle (b.handleArray k) = p + 1 ∧ k ∈ kids p ∧
      ∀ q, Live b q → k ∈ kids q → q = p

/-- `FreeHandle` ends, and its loop is called once for each child, frees it, and leaves the list
    empty. -/
def FreesChildren (b : HandleBase) (i : ℕ) (kids : List ℕ) : Prop :=
  let b₁ := unlinkFromParent (removeFromHash b i) i
  let fuel := b.totalHandCount + 1
  ∃ b₂, iterateOverChildren fuel b₁ i (freeHandle fuel) = some (.ok, b₂) ∧
    visitedChildren fuel b₁ i (freeHandle fuel) = kids ∧ (∀ k ∈ kids, ¬ Live b₂ k) ∧
    (b₂.handleArray i).children = ⟨i, i, i + 1⟩ ∧
    freeHandle (freeFuel b) b i = some (.ok, retireHandle b₂ i)

section
variable {b b' b₀ : HandleBase} {g : Ghost} {S : ℕ → Prop} {kids : ℕ → List ℕ}
  {par : ℕ → Option ℕ} {i j k p c : ℕ} {l : List (Op × Answer)}
  {l' : List (LinkOp × PvrsrvError)}

def climb (par : ℕ → Option ℕ) : ℕ → ℕ → Option ℕ
  | 0, j => some j
  | n + 1, j => (par j).bind (climb par n)

open Classical in
/-- One more than the number of parents from `j` to `i`, and 0 where they do not lead there. -/
noncomputable def below (par : ℕ → Option ℕ) (i j : ℕ) : ℕ :=
  if h : ∃ n, climb par n j = some i then Nat.find h + 1 else 0

theorem below_self : below par i i = 1 := by
  classical
  have h : ∃ n, climb par n i = some i := ⟨0, rfl⟩
  have h0 : Nat.find h = 0 := (Nat.find_eq_zero h).mpr rfl
  unfold below
  rw [dif_pos h, h0]

theorem below_parent (hki : k ≠ i) (hp : par k = some p) (hle : below par i i ≤ below par i p) :
    below par i p < below par i k := by
  classical
  have hpi : ∃ n, climb par n p = some i := by
    by_contra hno
    rw [below_self] at hle
    unfold below at hle
    rw [dif_neg hno] at hle
    omega
  have hclimb (n : ℕ) : climb par (n + 1) k = climb par n p := by
    rw [climb, hp, Option.bind_some]
  have hk : ∃ n, climb par n k = some i := hpi.imp' (· + 1) fun n hn => (hclimb n).trans hn
  unfold below
  rw [dif_pos hpi, dif_pos hk]
  cases hfind : Nat.find hk with
  | zero =>
    have h0 : climb par 0 k = some i := hfind ▸ Nat.find_spec hk
    exact absurd (Option.some.inj h0) hki
  | succ n =>
    have hn : climb par (n + 1) k = some i := hfind ▸ Nat.find_spec hk
    have := Nat.find_min' hpi ((hclimb n).symm.trans hn)
    omega

structure Linked (b : HandleBase) (kids : ℕ → List ℕ) (par : ℕ → Option ℕ) : Prop where
  links : Links (getList b) (Live b) kids par
  wf : Wf hashFuncDefault b.hashTab

theorem Inv.linked (v : Inv b g) : Linked b g.kids g.par := by
  refine ⟨v.core.links.restrict _ (fun i h => h.busy) (fun k p hk hp => ?_) ?_, v.hashed.wf⟩
  · exact v.core.live_parent hk hp
  · exact fun k p _ hk hp => v.core.live_of_parent hk hp

theorem Linked.childLists (h : Linked b kids par) : ChildLists b kids := by
  have L := h.links
  refine ⟨L.ring, L.head, fun p k hp hk => ?_, fun k hk hne => ?_⟩
  · refine ⟨L.kid_mem hp hk, ?_⟩
    have hup := L.up k (L.kid_mem hp hk)
    rwa [L.kid_parent hp hk] at hup
  · have hup := L.up k hk
    cases hpar : par k with
    | none =>
      rw [hpar] at hup
      exact absurd hup hne
    | some p =>
      rw [hpar] at hup
      have hp := L.parent_mem k p hk hpar
      refine ⟨p, hp, hup, (L.mem p k hp).mpr ⟨hk, hpar⟩, fun q hq hkq => ?_⟩
      exact Option.some.inj ((L.kid_parent hq hkq).symm.trans hpar)

theorem Linked.of_linkOnly (h : Linked b kids par) (ho : LinkOnly b b') {kids' : ℕ → List ℕ}
    {par' : ℕ → Option ℕ} (L : Links (getList b') (Live b) kids' par') : Linked b' kids' par' := by
  obtain ⟨x, y, rfl⟩ := ho
  exact ⟨L, h.wf⟩

theorem Linked.adoptChild (h : Linked b kids par) (hc : LinkCalled b (.adoptChild p c)) :
    ∃ kids' par', Linked (Handles.adoptChild b p c) kids' par' := by
  obtain ⟨hp, hl, hne, hroot⟩ := hc
  have hnone : par c = none := by
    have hup := h.links.up c hl
    cases hpar : par c with
    | none => rfl
    | some q =>
      rw [hpar] at hup
      exact absurd (hup.symm.trans hroot) (Nat.succ_ne_zero q)
  exact ⟨_, _, h.of_linkOnly (linkOnly_adoptChild b p c) (h.links.adopt hp hl hnone hne)⟩

theorem Linked.unlinkFromParent (h : Linked b kids par) (hi : Live b i) :
    ∃ kids' par', Linked (Handles.unlinkFromParent b i) kids' par' :=
  ⟨_, _, h.of_linkOnly (linkOnly_unlinkFromParent b i) (h.links.unlink hi)⟩

theorem fewer_live {q : ℕ → Prop} {m : List ℕ} (hm : m.Nodup) (h : ∀ j ∈ m, Live b j ∧ q j) :
    m.length < freeFuel b :=
  length_lt_freeFuel hm fun j hj => (h j hj).1.1

theorem Linked.freeHandle (h : Linked b kids par) (hi : Live b i) : ∃ b' kids' par',
    Handles.freeHandle (freeFuel b) b i = some (.ok, b') ∧ Linked b' kids' par' := by
  obtain ⟨E, D, b', kids', par', hrun, -, hst, -, hsub, L, hin, hout⟩ :=
    freesSubtrees (below par i) (freeFuel b) b (Live b) kids par i h.links
      (fun k p _ hki hp hle => below_parent hki hp hle) hi (fun m hm hl => fewer_live hm hl)
  have f := hst.freed h.wf
  refine ⟨b', kids', par', hrun, ?_, f.wf⟩
  refine L.restrict _ (fun j hj => ((f.live_iff j).mp hj).1) (fun k q hk hq => ?_)
    fun k q hq hk hkq => (f.live_iff k).mpr ⟨hk, fun hkD => ?_⟩
  · obtain ⟨hl, hkD⟩ := (f.live_iff k).mp hk
    rw [(hout k hl hkD).2] at hq
    exact (f.live_iff q).mpr ⟨h.links.parent_mem k q hl hq, fun hqD => hkD (hsub.down k q hl hq hqD)⟩
  · rw [(hin k hkD).2] at hkq
    cases hkq

theorem Linked.freesChildren (h : Linked b kids par) (hi : Live b i) :
    FreesChildren b i (kids i) := by
  obtain ⟨E, D, b₂, kids₂, par₂, hrun, -, hvis, hst, -, hall, -, -, -, L, hnil, -, -, -⟩ :=
    children_frees (freesSubtrees (below par i) (b.totalHandCount + 1)) h.links
      (fun k p _ hki hp hle => below_parent hki hp hle) hi (fun m hm hl => fewer_live hm hl) rfl
  have f₁ := (Freed.refl h.wf).enter (i := i) List.not_mem_nil
  have f := hst.freed f₁.wf
  have hring := L.ring i hi
  rw [hnil] at hring
  have hnext := hring.next_sentinel
  have hprev := hring.prev_sentinel.1
  have hhead := L.head i hi
  simp only [List.nil_append, List.head?_cons, List.getLast?_singleton, Option.some.injEq,
    cell_self, getList] at hnext hprev hhead
  refine ⟨b₂, hrun, hvis, fun k hk hl => ((f.live_iff k).mp hl).2 (hall k hk), ?_,
    freeHandle_of_children hrun⟩
  rw [← hhead, HandleList.mk.injEq]
  exact ⟨hprev.symm, hnext.symm, rfl⟩

theorem Linked.step (h : Linked b kids par) {op : LinkOp} (hc : LinkCalled b op) :
    ∃ b' kids' par', linkStep b op = some (.ok, b') ∧ Linked b' kids' par' := by
  cases op with
  | adoptChild p c =>
    obtain ⟨kids', par', h'⟩ := h.adoptChild hc
    exact ⟨_, kids', par', rfl, h'⟩
  | unlinkFromParent i =>
    obtain ⟨kids', par', h'⟩ := h.unlinkFromParent hc
    exact ⟨_, kids', par', rfl, h'⟩
  | freeHandle i => exact h.freeHandle hc

theorem linkStep_sameBlock {op : LinkOp} {e : PvrsrvError} (hs : linkStep b op = some (e, b')) :
    SameBlock b b' := by
  cases op with
  | adoptChild p c =>
    cases hs
    exact adoptChild_sameBlock b p c
  | unlinkFromParent i =>
    cases hs
    exact unlinkFromParent_sameBlock b i
  | freeHandle i => exact freeHandle_sameBlock b i e b' hs

/-- From every base that is reached without growing the array over entry 0 or out of its block and
    without closing a batch over a released handle, every sequence of list operations ends, with
    each answer `PVRSRV_OK`, and keeps the entries in the block and the lists of children. -/
theorem childLists_over_runs (created : Created b₀) (run : Run step Harmless b₀ l b)
    (ops : Run linkStep LinkCalled b l' b') :
    Held b' ∧ (∃ kids, ChildLists b' kids ∧ ∀ i, Live b' i → FreesChildren b' i (kids i)) ∧
    ∀ op, LinkCalled b' op → ∃ b'', linkStep b' op = some (.ok, b'') := by
  obtain ⟨g, t⟩ := created.tracks_run run
  obtain ⟨kids, par, h⟩ := ops.invariant (fun b => ∃ kids par, Linked b kids par)
    ⟨g.kids, g.par, t.inv.linked⟩ (by
      rintro s op r t ⟨kids, par, h⟩ hop hs
      obtain ⟨b', kids', par', hs', h'⟩ := h.step hop
      rw [hs] at hs'
      rw [(Prod.mk.inj (Option.some.inj hs')).2]
      exact ⟨kids', par', h'⟩)
  have hb := ops.invariant Held (created.held_run run) fun _ _ _ _ hb _ hs =>
    hb.same (linkStep_sameBlock hs)
  refine ⟨hb, ⟨kids, h.childLists, fun i hi => h.freesChildren hi⟩, fun op hop => ?_⟩
  obtain ⟨b'', -, -, hs, -⟩ := h.step hop
  exact ⟨b'', hs⟩

instance (b : HandleBase) (op : LinkOp) : Decidable (LinkCalled b op) :=
  match op with
  | .adoptChild _ _ => inferInstanceAs (Decidable (_ ∧ _ ∧ _ ∧ _))
  | .unlinkFromParent i | .freeHandle i => inferInstanceAs (Decidable (Live b i))

def familyOps : List Op :=
  [.alloc 7 memInfoType plainFlag, .allocSub 8 memInfoType plainFlag 1,
    .allocSub 9 memInfoType plainFlag 1, .alloc 10 memInfoType plainFlag]

def cycleOps : List LinkOp :=
  [.unlinkFromParent 2, .adoptChild 0 3, .adoptChild 1 0, .freeHandle 0]

theorem childLists_over_sample : ∃ l b l' b', exec step sampleBase familyOps = some (l, b) ∧
    exec linkStep b cycleOps = some (l', b') ∧ Held b' ∧
    (∃ kids, ChildLists b' kids ∧ ∀ i, Live b' i → FreesChildren b' i (kids i)) ∧
    ∀ op, LinkCalled b' op → ∃ b'', linkStep b' op = some (.ok, b'') := by
  have hrun : ((exec step sampleBase familyOps).bind fun r => (exec linkStep r.2 cycleOps).map
      fun _ => allows linkStep (fun b op => decide (LinkCalled b op)) r.2 cycleOps) = some true := by
    decide +kernel
  obtain ⟨⟨l, b⟩, h, hlinks⟩ := Option.bind_eq_some_iff.mp hrun
  obtain ⟨⟨l', b'⟩, h', hallows⟩ := Option.map_eq_some_iff.mp hlinks
  exact ⟨l, b, l', b', h, h', childLists_over_runs sampleBase_created
    (run_of_clear h (by decide +kernel))
    ((Run.of_allowed h' (allowed_of_allows hallows)).mono fun _ _ => of_decide_eq_true)⟩

/-- The only child of handle 257 is behind the array. -/
theorem childLists_lost : ∃ l b, exec step sampleBase overrunOps = some (l, b) ∧
    Run step (fun _ _ => True) sampleBase l b ∧ ¬ ∃ kids, ChildLists b kids := by
  have hrun : (exec step sampleBase overrunOps).map (fun r => (decide (Live r.2 256),
      (r.2.handleArray 256).children.next, r.2.totalHandCount)) = some (true, 257, 257) := by
    decide +kernel
  obtain ⟨⟨l, b⟩, h, hr⟩ := Option.map_eq_some_iff.mp hrun
  simp only [Prod.mk.injEq, decide_eq_true_eq] at hr
  obtain ⟨hlive, hnext, htotal⟩ := hr
  refine ⟨l, b, h, Run.of_exec h fun _ _ _ => trivial, ?_⟩
  rintro ⟨kids, hlists⟩
  have hhead := (hlists.ring 256 hlive).next_sentinel
  simp only [cell_self, getList, hnext] at hhead
  have hmem : 257 ∈ kids 256 := by
    cases hk : kids 256 with
    | nil => simp [hk] at hhead
    | cons k t =>
      rw [hk, List.cons_append, List.head?_cons] at hhead
      rw [← Option.some.inj hhead]
      exact List.mem_cons_self
  have hlt := (hlists.mem 256 257 hlive hmem).1.1
  omega

end
end PvrServices.Handles
