import Mathlib.Algebra.Ring.Nat
import Mathlib.Data.Nat.Log
import PvrServices.ArenaRuns

set_option autoImplicit false

/-!
# The arena over its runs

While no sum leaves the address space, every arena that is reached is sound: its lists, bins
and hash table agree, its segments tile the areas and its live segments are the blocks.
-/
namespace PvrServices.Arenas
open Words HashTable LinkedRing Tiling Runs

/-- An arena as `RA_Create` returns it: with one resource, or with an import callback. -/
inductive Created : RaArena → List Extent → Prop where
  | resource {os : Os} {memory : ℕ → Bt} {base size quantum : ℕ} {mapping : Option BmMapping}
      {backing : Bool} {a : RaArena}
      (h : raCreate os memory base size mapping quantum false backing = some (some a))
      (hq : 0 < quantum) (hs : 0 < size) (hr : size + quantum - 1 < 4294967296)
      (he : base + resourceSize quantum size < 4294967296) :
      Created a [⟨base, resourceSize quantum size, mapping, false⟩]
  | imports {os : Os} {memory : ℕ → Bt} {base quantum : ℕ} {mapping : Option BmMapping}
      {backing : Bool} {a : RaArena}
      (h : raCreate os memory base 0 mapping quantum true backing = some (some a)) : Created a []

/-- No sum that the call forms leaves the address space, and an import lies clear of the
    outstanding ones. -/
def Exact (a : RaArena) : Op → Prop
  | .alloc x answer =>
    (∀ s ∈ segments a, s.base + s.size + x.alignment + x.size < 4294967296) ∧
    ∀ i ∈ answer, 0 < i.size ∧ i.base + i.size + x.alignment + x.size < 4294967296 ∧
      ∀ j ∈ outstanding a.calls, i.Apart j
  | .free _ _ => True

instance (i j : Import) : Decidable (i.Apart j) := inferInstanceAs (Decidable (_ ∨ _))

instance (a : RaArena) (op : Op) : Decidable (Exact a op) :=
  match op with
  | .alloc _ _ => inferInstanceAs (Decidable (_ ∧ _))
  | .free _ _ => inferInstanceAs (Decidable True)

/-- The lists, the bins and the hash table of an arena agree with its areas and blocks. -/
structure Sound (res : List Extent) (blocks : Blocks) (a : RaArena) : Prop where
  linked : Ring (nextOf a) (prevOf a) 0 ((segments a).map Seg.ref)
  sorted : (segments a).Pairwise fun s t => s.base ≤ t.base
  parts : ∃ areas, Layout areas (segments a) ∧ Books res (outstanding a.calls) areas
  apart : (lives (segments a)).Pairwise fun s t => s.base + s.size ≤ t.base
  held : Held Serves blocks (lives (segments a))
  bins : ∃ bins : ℕ → List ℕ,
    (∀ i, ∃ last, Ring (nextFreeOf a i) (prevFreeOf a last) 0 (bins i)) ∧
    ∀ i p, p ∈ bins i ↔
      ∃ s ∈ segments a, s.ref = p ∧ s.type = .free ∧ Nat.log 2 s.size = i ∧ i < freeTableLimit
  binned : ∀ s ∈ segments a, s.type = .free → Nat.log 2 s.size < freeTableLimit
  hash : ∀ base p, p ≠ 0 → (hashRetrieveExtended hashBase a.segmentHash base = p ↔
    ∃ s ∈ segments a, s.ref = p ∧ s.type = .live ∧ s.base = base)
  answers : ∀ op, (step a op).isSome

structure Inv (res : List Extent) (a : RaArena) (blocks : Blocks) : Prop where
  shown : ∃ segs bins areas, Linked a segs bins [] ∧ Layout areas segs ∧
    Books res (outstanding a.calls) areas ∧ Held Serves blocks (lives segs)
  below : ∀ e ∈ res ++ (outstanding a.calls).map Import.extent, e.base + e.size < 4294967296
  initial : ∀ e ∈ res, e.imported = false
  single : a.importAlloc = true → res = []

section
variable {a a' : RaArena} {segs segs' : List Seg} {s : Seg} {bins : ℕ → List ℕ} {x : Request}
  {areas : List Area} {ar : Area} {res : List Extent} {c : List Call} {os : Os} {n : ℕ}
  {found : Seg → Prop}
  {blocks : Blocks} {o : List Import} {w : Result}

theorem pvrLog2Loop_eq (fuel n l : ℕ) (h : n < 2 ^ fuel) :
    pvrLog2Loop fuel n l = if n = 0 then l else l + Nat.log 2 n + 1 := by
  induction fuel generalizing n l with
  | zero =>
    obtain rfl : n = 0 := by simpa using h
    rfl
  | succ fuel ih =>
    unfold pvrLog2Loop
    by_cases h0 : n = 0
    · simp [h0]
    · have hhalf : n >>> 1 = n / 2 := by simp [Nat.shiftRight_eq_div_pow]
      rw [if_pos (Nat.pos_of_ne_zero h0), if_neg h0, hhalf, ih _ _ (by omega)]
      by_cases h1 : n / 2 = 0
      · obtain rfl : n = 1 := by omega
        simp
      · rw [if_neg h1, Nat.log_of_one_lt_of_le (b := 2) (n := n) (by omega) (by omega)]
        omega

theorem pvrLog2_eq {n : ℕ} (h : n < 4294967296) : pvrLog2 n = Nat.log 2 n := by
  have hhalf : n >>> 1 = n / 2 := by simp [Nat.shiftRight_eq_div_pow]
  unfold pvrLog2
  rw [hhalf, pvrLog2Loop_eq _ _ _ (by omega)]
  by_cases h1 : n / 2 = 0
  · rw [if_pos h1]
    exact (Nat.log_of_lt (by omega)).symm
  · rw [if_neg h1, Nat.log_of_one_lt_of_le (b := 2) (n := n) (by omega) (by omega)]
    omega

theorem log_lt {n : ℕ} (h : n < 4294967296) : Nat.log 2 n < freeTableLimit := by
  by_cases h0 : n = 0
  · simp [h0, freeTableLimit]
  · exact Nat.log_lt_of_lt_pow h0 h

theorem Area.sorted (t : ar.Tiled) (h : ar.base + ar.size < 4294967296) :
    ar.segs.Pairwise (fun s t => s.base ≤ t.base) ∧ ∀ s ∈ ar.segs, ar.base ≤ s.base := by
  have hp : ar.pieces.Pairwise fun s t => s.base ≤ t.base :=
    t.tiles.pairwise.imp fun h => by omega
  have hm : ∀ s ∈ ar.pieces, ar.base ≤ s.base ∧ s.base ≤ ar.base + ar.size := by
    intro s hs
    have := t.tiles.mem hs
    omega
  unfold Area.segs Area.opening Area.closing
  cases ar.marks with
  | none => exact ⟨by simpa using hp, by simpa using fun s hs => (hm s hs).1⟩
  | some k =>
    have he : u32 (ar.base + ar.size) = ar.base + ar.size := u32_of_lt h
    constructor
    · simp only [marker, he, List.nil_append, List.cons_append, List.pairwise_cons,
        List.pairwise_append, List.mem_append, List.mem_singleton]
      refine ⟨?_, hp, ⟨by simp, .nil⟩, ?_⟩
      · rintro s (hs | rfl)
        · exact (hm s hs).1
        · exact Nat.le_add_right _ _
      · rintro s hs t rfl
        exact (hm s hs).2
    · simp only [marker, he, List.nil_append, List.cons_append, List.mem_append,
        List.mem_cons, List.not_mem_nil, or_false]
      rintro s (rfl | hs | rfl)
      · exact Nat.le_refl _
      · exact (hm s hs).1
      · exact Nat.le_add_right _ _

theorem Layout.sorted (v : Layout areas segs)
    (h : ∀ ar ∈ areas, ar.base + ar.size < 4294967296) :
    segs.Pairwise fun s t => s.base ≤ t.base := by
  rw [v.segs_eq, List.pairwise_flatMap]
  refine ⟨fun ar har => (Area.sorted (v.tiled ar har) (h ar har)).1, v.apart.imp_of_mem ?_⟩
  intro y z hy hz hyz s hs t ht
  have h₁ := (v.tiled y hy).base_le hs
  have h₂ := (Area.sorted (v.tiled z hz) (h z hz)).2 t ht
  omega

theorem Layout.size_lt (v : Layout areas segs) (hn : segs.Nodup) (hs : s ∈ segs)
    (ht : s.type ≠ .span) : s.size < 4294967296 := by
  obtain ⟨l, r, e⟩ := List.append_of_mem hs
  obtain ⟨A, ar, B, p₁, p₂, rfl, hp, -⟩ := v.locate hn e ht
  have har := v.tiled ar (by simp)
  have hm := har.tiles.mem (show s ∈ ar.pieces by simp [hp])
  have hlt := har.size_lt
  omega

theorem Books.below (k : Books res o areas)
    (h : ∀ e ∈ res ++ o.map Import.extent, e.base + e.size < 4294967296) :
    ∀ ar ∈ areas, ar.base + ar.size < 4294967296 :=
  fun ar har => h ar.extent (k.mem_iff.mp (List.mem_map_of_mem har))

theorem Hashed.retrieve {h : Table ℕ} (v : Hashed h segs [])
    (hn : (lives segs).Pairwise fun s t => s.base ≠ t.base) (base : ℕ) {p : ℕ} (hp : p ≠ 0) :
    hashRetrieveExtended hashBase h base = p ↔
      ∃ s ∈ segs, s.ref = p ∧ s.type = .live ∧ s.base = base := by
  have hinj : ∀ s ∈ lives segs, ∀ t ∈ lives segs, s.base = t.base → s = t := by
    have hmap : ((lives segs).map fun s => s.base).Nodup :=
      List.Pairwise.map _ (fun _ _ h => h) hn
    intro s hs t ht he
    exact List.inj_on_of_nodup_map hmap hs ht he
  have w : Wf hashBase h := by
    refine v.homed.wf ?_
    intro k p q hp hq
    obtain ⟨s, hs, rfl, -, hl, hb⟩ := (v.mem k p).mp hp
    obtain ⟨t, ht, rfl, -, hl', hb'⟩ := (v.mem k q).mp hq
    rw [hinj s (mem_lives.mpr ⟨hs, hl⟩) t (mem_lives.mpr ⟨ht, hl'⟩) (hb.trans hb'.symm)]
  rw [retrieve_eq]
  have hl : (h.lookup hashBase base).getD 0 = p ↔ h.lookup hashBase base = some p := by
    cases h.lookup hashBase base with
    | none => simpa using fun h => hp h.symm
    | some q => simp
  rw [hl, w.lookup_eq_some_iff, v.mem]
  simp

theorem step_isSome (v : Linked a segs bins []) (op : Op) : (step a op).isSome := by
  cases op with
  | alloc x answer =>
    obtain ⟨w, a', segs', bins', c, he, -⟩ := raAlloc_simulated v x answer
    rw [step, he]
    rfl
  | free => rfl

theorem Inv.sound (I : Inv res a blocks) : Sound res blocks a := by
  obtain ⟨segs, bins, areas, v, w, k, hh⟩ := I.shown
  have hs := v.listed.segments_eq
  have hn := v.listed.nodup
  have hlt : ∀ s ∈ segs, s.type = .free → s.size < 4294967296 :=
    fun s h hf => w.size_lt hn h (by simp [hf])
  rw [← hs] at w hh
  refine ⟨?_, w.sorted (k.below I.below), ⟨areas, w, k⟩, w.lives_apart, hh, ?_, ?_, ?_, ?_⟩
  · rw [hs]
    exact v.listed.order
  · refine ⟨bins, v.binned.linked, fun i p => ?_⟩
    rw [v.binned.mem, hs]
    constructor
    · rintro ⟨s, h, rfl, -, hf, rfl⟩
      refine ⟨s, h, rfl, hf, (pvrLog2_eq (hlt s h hf)).symm, ?_⟩
      rw [pvrLog2_eq (hlt s h hf)]
      exact log_lt (hlt s h hf)
    · rintro ⟨s, h, rfl, hf, rfl, -⟩
      exact ⟨s, h, rfl, by simp, hf, pvrLog2_eq (hlt s h hf)⟩
  · intro s h hf
    rw [hs] at h
    exact log_lt (hlt s h hf)
  · intro base p hp
    have := v.hashed
    rw [← hs] at this
    exact this.retrieve w.lives_nodup base hp
  · exact step_isSome v

theorem Attempt.settle_subset (h : Attempt os found x segs w segs' c n) :
    ∀ j ∈ c.foldl settle o, j ∈ o := by
  have hback : ∀ b, ∀ j ∈ (handBack b).foldl settle o, j ∈ o := by
    intro b j hj
    cases b with
    | none => exact hj
    | some b => exact List.mem_of_mem_eraseP hj
  cases h with
  | nothing | kept | cut | served => exact fun j hj => hj
  | undone => exact hback _

theorem Alloc.settle_subset {quantum : ℕ} {imports : Bool} {answer : Option Import}
    (h : Alloc os found quantum imports x answer segs w segs' c) :
    ∀ j ∈ c.foldl settle o, j ∈ o ∨ answer = some j := by
  intro j hj
  cases h with
  | first h | noImport h => exact Or.inl (h.settle_subset j hj)
  | noSpan h =>
    rw [List.foldl_append, List.foldl_cons, List.foldl_cons, settle_handed_back, List.foldl_nil] at hj
    exact Or.inl (h.settle_subset j hj)
  | @second l r segs'' c c' i _ _ _ p q z h himp ha hp hn _ h' =>
    rw [List.foldl_append, List.foldl_cons] at hj
    rcases List.mem_cons.mp (h'.settle_subset j hj) with rfl | hj
    · exact Or.inr ha
    · exact Or.inl (h.settle_subset j hj)

theorem Free.settle_subset {base : ℕ} (h : Free base segs segs' c) :
    ∀ j ∈ c.foldl settle o, j ∈ o := by
  intro j hj
  cases h with
  | unknown => exact hj
  | @known l r s c e hl hb hc =>
    rw [List.foldl_append, settle_backing hc] at hj
    cases hr : (release l s r).2 with
    | none => simpa [hr, handBack] using hj
    | some b =>
      rw [hr] at hj
      exact List.mem_of_mem_eraseP hj

theorem Layout.room (v : Layout areas segs)
    (h : ∀ s ∈ segs, s.base + s.size + x.alignment + x.size < 4294967296) : Room x areas := by
  intro ar har
  have t := v.tiled ar har
  have hpos := t.size_pos
  obtain ⟨s, hs, he⟩ := t.tiles.exists_end (by omega)
  have hm : s ∈ segs := by
    rw [v.segs_eq, List.mem_flatMap]
    exact ⟨ar, har, by simp [Area.segs, hs]⟩
  have := h s hm
  omega

theorem Inv.step {op : Op} (I : Inv res a blocks) (h : Exact a op)
    (hs : step a op = some (w, a')) : Inv res a' (record blocks (op, w)) := by
  obtain ⟨segs, bins, areas, v, y, k, hh⟩ := I.shown
  have hn := v.listed.nodup
  cases op with
  | alloc x answer =>
    obtain ⟨hroom, hans⟩ := h
    rw [v.listed.segments_eq] at hroom
    obtain ⟨w', a₁, segs', bins', c, he, hal, v', hk, hc⟩ := raAlloc_simulated v x answer
    rw [Arenas.step, he] at hs
    cases hs
    obtain ⟨areas₁, segs₁, o₁, c₁, os₁, n, y₁, hn₁, hfit, k₁, hlive, hat, hset⟩ :=
      hal.last_attempt y hn k I.initial I.single (y.room hroom) hans
    have hin : ∀ s ∈ segs₁, Chosen x s → True → Within x s :=
      fun s hs k _ => (hfit s hs k).within
    have ht := hat.turnover y₁ hn₁ hin fun s hs k _ f m b kx => kx.serves (hfit s hs k)
    obtain ⟨areas', y', hm⟩ := hat.layout y₁ hn₁ hin
    rw [hlive] at ht
    refine ⟨⟨segs', bins', areas', v', y', ?_, hh.turnover ht y'.lives_nodup⟩, ?_, I.initial, ?_⟩
    · rw [hc, outstanding_append, hset]
      exact k₁.moves y₁ I.initial hm
    · intro e hm
      rw [hc, outstanding_append] at hm
      rcases List.mem_append.mp hm with hm | hm
      · exact I.below e (by simp [hm])
      · obtain ⟨j, hj, rfl⟩ := List.mem_map.mp hm
        rcases hal.settle_subset j hj with hj | hj
        · exact I.below _ (List.mem_append_right _ (List.mem_map_of_mem hj))
        · have := (hans j hj).2.1
          change j.base + j.size < 4294967296
          omega
    · rw [hk.importAlloc]
      exact I.single
  | free base backing =>
    obtain ⟨segs', bins', c, hf, v', hk, hc⟩ := raFree_simulated v base backing
    cases hs
    obtain ⟨areas', y', k'⟩ := hf.layout y hn k I.initial
    refine ⟨⟨segs', bins', areas', v', y', ?_, hf.held hh y.lives_nodup⟩, ?_, I.initial, ?_⟩
    · rw [hc, outstanding_append]
      exact k'
    · intro e hm
      rw [hc, outstanding_append] at hm
      rcases List.mem_append.mp hm with hm | hm
      · exact I.below e (by simp [hm])
      · obtain ⟨j, hj, rfl⟩ := List.mem_map.mp hm
        exact I.below _ (List.mem_append_right _ (List.mem_map_of_mem (hf.settle_subset j hj)))
    · rw [hk.importAlloc]
      exact I.single

theorem Held.empty {P : Request → Seg → Prop} (h : ∀ s ∈ segs, s.type ≠ .live) :
    Held P (fun _ => none) (lives segs) := by
  refine ⟨fun s hs => absurd (mem_lives.mp hs).2 (h s (mem_lives.mp hs).1), ?_⟩
  intro b x hx
  cases hx

theorem Created.inv (c : Created a res) : Inv res a (fun _ => none) := by
  cases c with
  | @resource os memory base size quantum mapping backing _ h hq hs hr he =>
    obtain ⟨segs, bins, v, hc, hi, -, -, -, hsegs⟩ := raCreate_linked h
    obtain ⟨q, rfl⟩ := hsegs hs
    have hpos : 0 < resourceSize quantum size := by
      unfold resourceSize
      rw [u32_of_lt hr]
      exact Nat.mul_pos (Nat.div_pos (by omega) hq) hq
    have y : Layout [⟨base, resourceSize quantum size, mapping, none,
        [⟨⟨.free, base, resourceSize quantum size, mapping⟩, q⟩]⟩]
        [⟨⟨.free, base, resourceSize quantum size, mapping⟩, q⟩] := by
      refine ⟨rfl, ?_, List.pairwise_singleton _ _, ?_⟩
      · intro ar har
        obtain rfl := List.mem_singleton.mp har
        refine ⟨tiles_singleton_iff.mpr ⟨rfl, hpos, rfl⟩, hpos, ?_, ?_, by simp⟩
        · dsimp only
          omega
        · exact he.le
      · intro ar har _
        rw [List.mem_singleton.mp har]
    refine ⟨⟨_, bins, _, v, y, ?_, .empty (by simp)⟩, ?_, by simp, by simp [hi]⟩
    · rw [hc]
      exact .refl _
    · rw [hc]
      simpa [outstanding] using he
  | imports h =>
    obtain ⟨segs, bins, v, hc, hi, -, -, hsegs, -⟩ := raCreate_linked h
    obtain rfl := hsegs rfl
    refine ⟨⟨_, bins, [], v, ⟨rfl, by simp, .nil, by simp⟩, ?_, .empty (by simp)⟩, ?_, by simp, by simp⟩
    · rw [hc]
      exact .refl _
    · rw [hc]
      simp [outstanding]

theorem Created.inv_run {l : List (Op × Result)} (c : Created a res)
    (run : Run Arenas.step Exact a l a') : Inv res a' (l.foldl record fun _ => none) :=
  run.ledger (Inv res) record _ c.inv fun _ _ _ _ _ I h hs => I.step h hs

/-- Every arena that is reached is sound. -/
theorem arena_sound_over_runs {l : List (Op × Result)} (c : Created a res)
    (run : Run step Exact a l a') : Sound res (l.foldl record fun _ => none) a' :=
  (c.inv_run run).sound

end

def sampleArena : RaArena where
  quantum := 4096
  importAlloc := true
  backingStoreFree := true
  headFree := fun _ => 0
  headSegment := 0
  tailSegment := 0
  segmentHash := ⟨fun _ => [], 64, 0, 64⟩
  tags := fun _ => ⟨⟨.span, 0, 0, none⟩, 0, 0, 0, 0⟩
  nextTag := 1
  calls := []
  os := ⟨fun _ => true, 3⟩

theorem sampleArena_eq : raCreate ⟨fun _ => true, 0⟩ (fun _ => ⟨⟨.span, 0, 0, none⟩, 0, 0, 0, 0⟩)
    0 0 none 4096 true true = some (some sampleArena) := rfl

theorem sampleArena_created : Created sampleArena [] := .imports sampleArena_eq

def sampleRequest (size alignment : ℕ) (hs : 0 < size) (hlt : size < 4294967296)
    (ha : alignment < 4294967296) : Request := ⟨size, 0, alignment, hs, hlt, ha⟩

def sampleImport (base size : ℕ) (hb : base < 4294967296) (hs : size < 4294967296) : Import :=
  ⟨base, size, some ⟨1, 0⟩, hb, hs⟩

/-- A page at a multiple of 3000: the importer is asked for one page, which is not enough. -/
def misfitRequest : Request := sampleRequest 4096 3000 (by decide) (by decide) (by decide)

/-- An alignment of all but one page: rounding up to it wraps to address 0. -/
def wrappingRequest : Request := sampleRequest 100 4294963201 (by decide) (by decide) (by decide)

def pageRequest : Request := sampleRequest 4096 0 (by decide) (by decide) (by decide)

def pagesRequest : Request := sampleRequest 5000 0 (by decide) (by decide) (by decide)

def smallRequest : Request := sampleRequest 1000 0 (by decide) (by decide) (by decide)

def splitRequest : Request := sampleRequest 1000 3000 (by decide) (by decide) (by decide)

def scarceRequest : Request := sampleRequest 4096 1 (by decide) (by decide) (by decide)

def pagesImport : Import := sampleImport 65536 8192 (by decide) (by decide)

def sampleOps : List Op :=
  [.alloc (sampleRequest 100 8 (by decide) (by decide) (by decide))
      (some (sampleImport 4096 8192 (by decide) (by decide))),
    .alloc (sampleRequest 4096 4096 (by decide) (by decide) (by decide)) none,
    .free 4096 true]

def wrappingOps : List Op :=
  [.alloc (sampleRequest 4294967295 0 (by decide) (by decide) (by decide))
    (some (sampleImport 4096 4096 (by decide) (by decide)))]

theorem arena_sound_over_sample : ∃ l a, exec step sampleArena sampleOps = some (l, a) ∧
    Sound [] (l.foldl record fun _ => none) a := by
  obtain ⟨⟨l, a⟩, h⟩ := Option.isSome_iff_exists.mp
    (show (exec step sampleArena sampleOps).isSome = true by decide +kernel)
  exact ⟨l, a, h, arena_sound_over_runs sampleArena_created (Run.of_allowed h (by decide +kernel))⟩

end PvrServices.Arenas
