import PvrServices.ArenaFailure
import PvrServices.ArenaSaving

set_option autoImplicit false

/-!
# Whether an arena may be deleted

The loop of `RA_TestDelete` looks at the first segment and does not move on: behind a free one it
does not end, and a span marker counts as a block.
-/
namespace PvrServices.Arenas
open Words HashTable LinkedRing Tiling Runs

def raTestDelete (a : RaArena) : ℕ → Option (Bool × RaArena)
  | 0 => none
  | fuel + 1 =>
    if a.headSegment = 0 then some (true, a)
    else if (a.tags a.headSegment).type ≠ .free then some (false, a)
    else raTestDelete a fuel

/-- The bases of the blocks that are out, one for each allocation that was not freed. -/
def recordHeld (held : List ℕ) : Op × Result → List ℕ
  | (.alloc _ _, some (_, base)) => base :: held
  | (.alloc _ _, none) => held
  | (.free base _, _) => held.erase base

def TestsRight (a : RaArena) (held : List ℕ) : Prop :=
  ∃ fuel answer, raTestDelete a fuel = some (answer, a) ∧ (answer = true ↔ held = [])

/-- The first segment is not free, and no segment is left without a block. -/
structure HeadTells (a : RaArena) (held : List ℕ) : Prop where
  head : ∀ s ∈ (segments a).head?, s.type ≠ .free
  empty : held = [] → segments a = []

section
variable {a a' : RaArena} {segs segs' : List Seg} {s : Seg} {bins : ℕ → List ℕ} {x : Request}
  {os : Os} {n : ℕ} {found : Seg → Prop} {c : List Call} {w : Result} {held : List ℕ}
  {answer : Option Import}

theorem Attempt.turnover_any (h : Attempt os found x segs w segs' c n) :
    Turnover (fun _ _ => True) x (lives segs) (lives segs') w := by
  cases h with
  | nothing | kept => exact .none rfl
  | @cut l r s _ q e k =>
    have hcut := lives_cutFront k.free (startIn x s) q
    rw [lives_append] at hcut
    apply Turnover.none
    rw [e, List.append_cons, lives_append, lives_append, lives_append, List.append_assoc (lives l),
      hcut, lives_append, lives_cons_other (by simp [k.free])]
    simp
  | undone e k hf hr hn hcut =>
    obtain ⟨hlf, hlb⟩ := hcut.lives k.free
    apply Turnover.none
    rw [e, lives_release, lives_append, lives_append, lives_append, hlf, hlb,
      lives_cons_other (by simp [k.free])]
    simp
  | @served l r f b s m n e k hf hr hcut =>
    obtain ⟨hlf, hlb⟩ := hcut.lives k.free
    rw [e]
    refine .block (L := lives l) (R := lives r) (m := { m with type := .live }) ?_ ?_ trivial
    · rw [lives_append, lives_cons_other (by simp [k.free])]
    · rw [lives_append, lives_append, lives_cons_live rfl, lives_append, hlf, hlb]
      simp

theorem Turnover.eq_of_none {P : Request → Seg → Prop} {live live' : List Seg}
    (h : Turnover P x live live' Option.none) : live' = live := by
  generalize hw : (Option.none : Result) = w at h
  cases h with
  | none h => exact h
  | block => cases hw

theorem Alloc.turnover_any {quantum : ℕ} {imports : Bool}
    (h : Alloc os found quantum imports x answer segs w segs' c) :
    Turnover (fun _ _ => True) x (lives segs) (lives segs') w := by
  cases h with
  | first h => exact h.turnover_any
  | noImport h => exact h.turnover_any
  | noSpan h => exact h.turnover_any
  | @second l r segs'' c c' i _ _ _ p q z h _ _ _ _ _ h' =>
    have hfirst := h.turnover_any.eq_of_none
    have hsecond := h'.turnover_any
    rw [lives_append, lives_append, lives_spanSegs, List.append_nil, ← lives_append, hfirst]
      at hsecond
    exact hsecond

def Holding (held : List ℕ) (segs : List Seg) : Prop :=
  ((lives segs).map fun s => s.base).Perm held

theorem Holding.alloc (hold : Holding held segs) {ans : Option Import}
    (h : Turnover (fun _ _ => True) x (lives segs) (lives segs') w) :
    Holding (recordHeld held (.alloc x ans, w)) segs' := by
  unfold Holding at hold ⊢
  cases h with
  | none h => rwa [h]
  | @block L R m h h' =>
    rw [h, List.map_append] at hold
    rw [h', List.map_append, List.map_cons]
    exact List.perm_middle.trans (hold.cons m.base)

theorem Holding.free {base : ℕ} {backing : Bool} (hold : Holding held segs)
    (h : Free base segs segs' c) : Holding (recordHeld held (.free base backing, w)) segs' := by
  unfold Holding at hold ⊢
  change (List.map _ (lives segs')).Perm (held.erase base)
  cases h with
  | unknown h =>
    have hnot : base ∉ (lives segs).map fun s => s.base := by
      intro hmem
      obtain ⟨s, hs, hb⟩ := List.mem_map.mp hmem
      exact h s (mem_lives.mp hs).1 (mem_lives.mp hs).2 hb
    rw [hold.mem_iff] at hnot
    rw [List.erase_of_not_mem hnot]
    exact hold
  | @known l r s c e hl hb hc =>
    have herase := hold.erase base
    rw [e, lives_append, lives_cons_live hl, List.map_append, List.map_cons, hb] at herase
    rw [lives_release, List.map_append]
    generalize ((lives l).map fun s => s.base) = left at herase ⊢
    generalize ((lives r).map fun s => s.base) = right at herase ⊢
    have hmiddle : (left ++ base :: right).Perm (base :: (left ++ right)) := List.perm_middle
    have hrest := hmiddle.erase base
    rw [List.erase_cons_head] at hrest
    exact hrest.symm.trans herase

theorem holding_over_run {a₀ : RaArena} {l : List (Op × Result)}
    (h₀ : ∃ segs bins, Linked a₀ segs bins [] ∧ lives segs = [])
    (run : Run step (fun _ _ => True) a₀ l a) :
    ∃ segs bins, Linked a segs bins [] ∧ Holding (l.foldl recordHeld []) segs := by
  refine run.ledger (fun a held => ∃ segs bins, Linked a segs bins [] ∧ Holding held segs)
    recordHeld [] ?_ ?_
  · obtain ⟨segs, bins, v, hlive⟩ := h₀
    refine ⟨segs, bins, v, ?_⟩
    unfold Holding
    rw [hlive]
    exact .refl _
  · intro a held op w a' hinv _ hs
    obtain ⟨segs, bins, v, hold⟩ := hinv
    cases op with
    | alloc x answer =>
      obtain ⟨w', a₁, segs', bins', c, he, hal, v', -⟩ := raAlloc_simulated v x answer
      rw [step, he] at hs
      cases hs
      exact ⟨segs', bins', v', hold.alloc hal.turnover_any⟩
    | free base backing =>
      obtain ⟨segs', bins', c, hf, v', -⟩ := raFree_simulated v base backing
      cases hs
      exact ⟨segs', bins', v', hold.free hf⟩

theorem raCreate_holds_none {os : Os} {memory : ℕ → Bt} {base size quantum : ℕ}
    {mapping : Option BmMapping} {imports backing : Bool}
    (h : raCreate os memory base size mapping quantum imports backing = some (some a)) :
    ∃ segs bins, Linked a segs bins [] ∧ lives segs = [] := by
  obtain ⟨segs, bins, v, -, -, -, -, hnone, hone⟩ := raCreate_linked h
  refine ⟨segs, bins, v, ?_⟩
  cases Nat.eq_zero_or_pos size with
  | inl hzero => rw [hnone hzero, lives_nil]
  | inr hpos =>
    obtain ⟨q, hq⟩ := hone hpos
    rw [hq, lives_cons_other (by simp), lives_nil]

theorem raTestDelete_empty (v : Listed a []) (fuel : ℕ) :
    raTestDelete a (fuel + 1) = some (true, a) := by
  have hhead : a.headSegment = 0 := by
    change nextOf a 0 = 0
    simpa using v.order.next_sentinel.symm
  rw [raTestDelete, if_pos hhead]

theorem headSegment_ne_zero (v : Listed a (s :: segs)) : a.headSegment ≠ 0 := by
  rw [v.head_eq]
  exact v.ref_ne_zero (by simp)

theorem raTestDelete_busy (v : Listed a (s :: segs)) (hs : s.type ≠ .free) (fuel : ℕ) :
    raTestDelete a (fuel + 1) = some (false, a) := by
  have htype : (a.tags a.headSegment).type ≠ .free := by
    rw [v.head_eq, v.tag (s := s) (by simp)]
    exact hs
  rw [raTestDelete, if_neg (headSegment_ne_zero v), if_pos htype]

/-- The first segment is free in each round, so the loop goes on for ever. -/
theorem raTestDelete_free (v : Listed a (s :: segs)) (hs : s.type = .free) (fuel : ℕ) :
    raTestDelete a fuel = none := by
  have htype : ¬(a.tags a.headSegment).type ≠ .free := by
    rw [v.head_eq, v.tag (s := s) (by simp), hs]
    simp
  induction fuel with
  | zero => rfl
  | succ fuel ih => rw [raTestDelete, if_neg (headSegment_ne_zero v), if_neg htype, ih]

theorem testsRight_iff (v : Linked a segs bins []) (hold : Holding held segs) :
    TestsRight a held ↔ HeadTells a held := by
  have hsegs := v.listed.segments_eq
  have hlisted := v.listed
  cases hl : segs with
  | nil =>
    rw [hl] at hsegs hlisted hold
    have hheld : held = [] := List.nil_perm.mp hold
    constructor
    · intro _
      exact ⟨by simp [hsegs], fun _ => hsegs⟩
    · intro _
      exact ⟨1, true, raTestDelete_empty hlisted 0, by simp [hheld]⟩
  | cons s r =>
    rw [hl] at hsegs hlisted
    constructor
    · intro hright
      obtain ⟨fuel, answer, htest, hanswer⟩ := hright
      have hs : s.type ≠ .free := by
        intro hs
        rw [raTestDelete_free hlisted hs fuel] at htest
        cases htest
      refine ⟨by simpa [hsegs] using hs, fun hnone => ?_⟩
      cases fuel with
      | zero => cases htest
      | succ fuel =>
        rw [raTestDelete_busy hlisted hs fuel, Option.some.injEq, Prod.mk.injEq] at htest
        rw [← htest.1] at hanswer
        exact absurd (hanswer.mpr hnone) (by simp)
    · intro hhead
      have hs : s.type ≠ .free := hhead.head s (by simp [hsegs])
      refine ⟨1, false, raTestDelete_busy hlisted hs 0, ?_⟩
      constructor
      · intro hfalse
        cases hfalse
      · intro hnone
        have hempty := hhead.empty hnone
        rw [hsegs] at hempty
        cases hempty

/-- Over any run the test answers for the blocks that are out exactly if the first segment is not
    free and no segment is left without a block. -/
theorem test_delete_iff {os : Os} {memory : ℕ → Bt} {base size quantum : ℕ}
    {mapping : Option BmMapping} {imports backing : Bool} {a₀ : RaArena} {l : List (Op × Result)}
    (hcreate : raCreate os memory base size mapping quantum imports backing = some (some a₀))
    (run : Run step (fun _ _ => True) a₀ l a) :
    TestsRight a (l.foldl recordHeld []) ↔ HeadTells a (l.foldl recordHeld []) := by
  obtain ⟨segs, bins, v, hold⟩ := holding_over_run (raCreate_holds_none hcreate) run
  exact testsRight_iff v hold

/-- Where spans go back with their last block, the test of an importing arena is right. -/
theorem test_delete_over_spans {os : Os} {memory : ℕ → Bt} {base quantum : ℕ}
    {mapping : Option BmMapping} {backing : Bool} {a₀ : RaArena} {l : List (Op × Result)}
    (hcreate : raCreate os memory base 0 mapping quantum true backing = some (some a₀))
    (hq : 0 < quantum) (hplenty : ∀ n, os.grants n = true)
    (run : Run step (fun a op => Granted a op ∧ Unwrapped a op) a₀ l a) :
    TestsRight a (l.foldl recordHeld []) := by
  have I := spanInv_over_run (spanInv_of_created hcreate hq hplenty) run
  obtain ⟨segs, bins, v, hold⟩ :=
    holding_over_run (raCreate_holds_none hcreate) (run.mono fun _ _ _ => trivial)
  apply (testsRight_iff v hold).mpr
  obtain ⟨segs', bins', areas, v', y, k, hh, hused⟩ := I.shown
  have hsegs := v.listed.segments_eq
  have heq : segs' = segs := by rw [← hsegs, ← v'.listed.segments_eq]
  rw [heq] at y hh
  cases areas with
  | nil =>
    have hnil : segs = [] := y.segs_eq
    exact ⟨by simp [hsegs, hnil], fun _ => by rw [hsegs, hnil]⟩
  | cons ar areas =>
    have hmarks := k.marks_ne (List.mem_cons_self (a := ar))
    obtain ⟨marks, hsome⟩ := Option.ne_none_iff_exists'.mp hmarks
    constructor
    · intro s hs
      rw [hsegs, y.segs_eq, List.flatMap_cons, Area.segs, Area.opening, hsome] at hs
      simp only [List.cons_append, List.head?_cons, Option.mem_def, Option.some.injEq] at hs
      rw [← hs]
      simp [marker]
    · intro hnone
      obtain ⟨s, hs, hl⟩ := (hused ar List.mem_cons_self).live
      have hlives : s ∈ lives segs := by
        rw [y.lives_eq]
        exact List.mem_flatMap.mpr ⟨ar, List.mem_cons_self, mem_lives.mpr ⟨hs, hl⟩⟩
      have hmem := hold.mem_iff.mp (List.mem_map_of_mem hlives)
      rw [hnone] at hmem
      cases hmem

end

theorem test_delete_over_sample : ∃ l a, exec step sampleArena sampleOps = some (l, a) ∧
    TestsRight a (l.foldl recordHeld []) := by
  obtain ⟨⟨l, a⟩, h⟩ := Option.isSome_iff_exists.mp
    (show (exec step sampleArena sampleOps).isSome = true by decide +kernel)
  exact ⟨l, a, h, test_delete_over_spans sampleArena_eq (by decide) (fun _ => rfl)
    (Run.of_allowed h (by decide +kernel))⟩

/-- While the first page of two is live, the test says so. -/
theorem test_delete_sample : ∃ a₀ l a, createdResource = some (some a₀) ∧
    exec step a₀ [.alloc pageRequest none] = some (l, a) ∧
    (TestsRight a (l.foldl recordHeld []) ↔ HeadTells a (l.foldl recordHeld [])) ∧
    HeadTells a (l.foldl recordHeld []) := by
  have hend : (createdResource.bind id).bind (fun a₀ =>
      (exec step a₀ [.alloc pageRequest none]).map fun r =>
        (r.1.foldl recordHeld [], (segments r.2).head?.map fun s => s.type)) =
      some ([4096], some .live) := by
    decide +kernel
  obtain ⟨a₀, hcreate, hend⟩ := Option.bind_eq_some_iff.mp hend
  obtain ⟨y, hy, hya⟩ := Option.bind_eq_some_iff.mp hcreate
  rw [show y = some a₀ from hya] at hy
  obtain ⟨r, hr, hfacts⟩ := Option.map_eq_some_iff.mp hend
  rw [Prod.mk.injEq] at hfacts
  have hiff := test_delete_iff hy (Run.of_exec hr fun _ _ _ => trivial)
  refine ⟨a₀, r.1, r.2, hy, hr, hiff, ?_, ?_⟩
  · intro s hs
    rw [Option.mem_def] at hs
    rw [hs] at hfacts
    have htype : s.type = .live := Option.some.inj hfacts.2
    rw [htype]
    simp
  · intro hnone
    rw [hfacts.1] at hnone
    cases hnone

/-- Behind a fresh resource the test does not end; and a span that a failed allocation has left
    behind passes for a block. -/
theorem test_delete_wrong :
    (∃ a, createdResource = some (some a) ∧ ¬TestsRight a []) ∧
    ∃ l a, exec step sampleArena
        [.alloc misfitRequest (some (sampleImport 4096 4096 (by decide) (by decide)))] = some (l, a) ∧
      l.foldl recordHeld [] = [] ∧ raTestDelete a 1 = some (false, a) ∧ ¬TestsRight a [] := by
  constructor
  · have hend : (createdResource.bind id).map (fun a => (segments a).head?.map fun s => s.type) =
        some (some .free) := by
      decide +kernel
    obtain ⟨a, hcreate, hhead⟩ := Option.map_eq_some_iff.mp hend
    obtain ⟨y, hy, hya⟩ := Option.bind_eq_some_iff.mp hcreate
    rw [show y = some a from hya] at hy
    refine ⟨a, hy, fun hright => ?_⟩
    obtain ⟨segs, bins, v, hold⟩ := holding_over_run (raCreate_holds_none hy) .refl
    obtain ⟨s, hs, htype⟩ := Option.map_eq_some_iff.mp hhead
    exact ((testsRight_iff v hold).mp hright).head s hs htype
  · have hend : (exec step sampleArena
        [.alloc misfitRequest (some (sampleImport 4096 4096 (by decide) (by decide)))]).map
        (fun r => (r.1.foldl recordHeld [], (raTestDelete r.2 1).map Prod.fst,
          (segments r.2).isEmpty)) = some ([], some false, false) := by
      decide +kernel
    obtain ⟨r, hr, hfacts⟩ := Option.map_eq_some_iff.mp hend
    simp only [Prod.mk.injEq] at hfacts
    have htest : raTestDelete r.2 1 = some (false, r.2) := by
      have hfst := hfacts.2.1
      unfold raTestDelete at hfst ⊢
      split
      · rename_i hzero
        rw [if_pos hzero] at hfst
        cases hfst
      · rename_i hzero
        rw [if_neg hzero] at hfst
        split
        · rfl
        · rename_i hfree
          rw [if_neg hfree] at hfst
          cases hfst
    obtain ⟨segs, bins, v, hold⟩ := holding_over_run (raCreate_holds_none sampleArena_eq)
      (Run.of_exec hr fun _ _ _ => trivial)
    rw [hfacts.1] at hold
    refine ⟨r.1, r.2, hr, hfacts.1, htest, fun hright => ?_⟩
    have hempty := ((testsRight_iff v hold).mp hright).empty rfl
    rw [hempty] at hfacts
    exact absurd hfacts.2.2 (by simp)

end PvrServices.Arenas
