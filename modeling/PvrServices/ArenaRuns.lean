import PvrServices.ArenaBooks
import PvrServices.Runs

set_option autoImplicit false

/-!
# Runs of `RA_Alloc` and `RA_Free`

The blocks that are out are known from the calls and their answers. In every arena that is
reached they are the live segments.
-/
namespace PvrServices.Arenas
open Words HashTable LinkedRing Tiling Runs

inductive Op where
  | alloc (x : Request) (answer : Option Import)
  | free (base : ℕ) (backing : Bool)

def step (a : RaArena) : Op → Option (Result × RaArena)
  | .alloc x answer => raAlloc a x.size x.flags x.alignment answer
  | .free base backing => some (none, raFree a base backing)

/-- The segments from `p` on, along the `pNextSegment` pointers. -/
def segmentWalk (a : RaArena) : ℕ → ℕ → List Seg
  | 0, _ => []
  | fuel + 1, p =>
    if p = 0 then [] else seg a p :: segmentWalk a fuel (a.tags p).nextSegment

def segments (a : RaArena) : List Seg := segmentWalk a a.nextTag a.headSegment

def lives (segs : List Seg) : List Seg := segs.filter fun s => s.type = .live

abbrev Blocks := ℕ → Option Request

def record (blocks : Blocks) : Op × Result → Blocks
  | (.alloc x _, some (_, base)) => Function.update blocks base (some x)
  | (.alloc _ _, none) => blocks
  | (.free base _, _) => Function.update blocks base none

/-- The block is as long as requested and starts where the alignment allows. -/
structure Serves (x : Request) (s : Seg) : Prop where
  size : s.size = x.size
  aligned : x.alignment ≤ 1 ∨ x.alignment ∣ s.base

/-- The live segments are the blocks, each with what `P` says of it and its request. -/
structure Held (P : Request → Seg → Prop) (blocks : Blocks) (live : List Seg) : Prop where
  served : ∀ s ∈ live, ∃ x, blocks s.base = some x ∧ P x s
  held : ∀ b x, blocks b = some x → ∃ s ∈ live, s.base = b

inductive Turnover (P : Request → Seg → Prop) (x : Request) (live live' : List Seg) :
    Result → Prop where
  | none (h : live' = live) : Turnover P x live live' none
  | block {L R : List Seg} {m : Seg} (h : live = L ++ R) (h' : live' = L ++ m :: R)
      (hm : P x m) : Turnover P x live live' (some (m.mapping, m.base))

section
variable {a a' : RaArena} {segs segs' l r f b : List Seg} {s m : Seg} {bins : ℕ → List ℕ}
  {x : Request} {areas : List Area} {res : List Extent} {c : List Call} {os : Os} {n : ℕ}
  {found : Seg → Prop}
  {blocks : Blocks} {base : ℕ} {P : Request → Seg → Prop}

theorem segmentWalk_listed (v : Listed a (l ++ s :: r)) {fuel : ℕ} (hf : r.length < fuel) :
    segmentWalk a fuel s.ref = s :: r := by
  induction r generalizing l s fuel with
  | nil =>
    obtain ⟨fuel, rfl⟩ : ∃ k, fuel = k + 1 := ⟨fuel - 1, by omega⟩
    rw [segmentWalk, if_neg (v.ref_ne_zero (by simp)), v.seg_eq s (by simp), v.next_eq_zero]
    cases fuel <;> simp [segmentWalk]
  | cons t r ih =>
    obtain ⟨fuel, rfl⟩ : ∃ k, fuel = k + 1 := ⟨fuel - 1, by omega⟩
    rw [segmentWalk, if_neg (v.ref_ne_zero (by simp)), v.seg_eq s (by simp), v.next_eq]
    rw [ih (l := l ++ [s]) (by simpa using v) (by simpa using hf)]

theorem Listed.segments_eq (v : Listed a segs) : segments a = segs := by
  have hlen := v.length_lt
  unfold segments
  cases segs with
  | nil =>
    have hh : a.headSegment = 0 := by
      change nextOf a 0 = 0
      simpa using v.order.next_sentinel.symm
    rw [hh]
    cases a.nextTag <;> simp [segmentWalk]
  | cons s r =>
    rw [v.head_eq]
    exact segmentWalk_listed (l := []) v (by simp at hlen; omega)

@[simp] theorem lives_nil : lives [] = [] := rfl

@[simp] theorem lives_append : lives (l ++ r) = lives l ++ lives r := List.filter_append l r

theorem lives_cons_live (h : s.type = .live) : lives (s :: r) = s :: lives r := by
  simp [lives, h]

theorem lives_cons_other (h : s.type ≠ .live) : lives (s :: r) = lives r := by
  simp [lives, h]

theorem lives_of_free (h : ∀ t ∈ l, t.type = .free) : lives l = [] := by
  unfold lives
  rw [List.filter_eq_nil_iff]
  intro t ht
  simp [h t ht]

theorem mem_lives : s ∈ lives segs ↔ s ∈ segs ∧ s.type = .live := by
  simp [lives]

theorem lives_absorbPrev : lives (absorbPrev l s).1 = lives l := by
  rcases List.eq_nil_or_concat l with rfl | ⟨l, q, rfl⟩
  · rfl
  · rw [List.concat_eq_append, absorbPrev_concat]
    split
    · rename_i h
      rw [lives_append, lives_cons_other (by simp [h.1])]
      simp
    · rfl

theorem lives_absorbNext : lives (absorbNext s r).2 = lives r := by
  cases r with
  | nil => rfl
  | cons n r =>
    rw [absorbNext_cons]
    split
    · rename_i h
      rw [lives_cons_other (by simp [h.1])]
    · rfl

theorem lives_retire : lives (retire l s r).1 = lives l ++ lives r := by
  have hkeep : lives (l ++ { s with type := .free } :: r) = lives l ++ lives r := by
    rw [lives_append, lives_cons_other (by simp)]
  rcases List.eq_nil_or_concat l with rfl | ⟨l, q, rfl⟩
  · rw [retire_nil_left]
    exact hkeep
  · rw [List.concat_eq_append] at hkeep ⊢
    cases r with
    | nil =>
      rw [retire_nil_right]
      exact hkeep
    | cons n r =>
      rw [retire_concat]
      split
      · rename_i h
        rw [lives_append, lives_append, lives_cons_other (s := q) (by simp [h.2]),
          lives_cons_other (s := n) (by simp [h.1])]
        simp
      · exact hkeep

theorem lives_release : lives (release l s r).1 = lives l ++ lives r := by
  unfold release
  dsimp only
  rw [lives_retire, lives_absorbPrev, lives_absorbNext]

theorem lives_cutFront (hf : s.type = .free) (start q : ℕ) :
    lives ((cutFront s start q).1 ++ [(cutFront s start q).2]) = [] :=
  lives_of_free fun t ht => (cutFront_plain hf start q t ht).1

theorem ExactCut.lives (k : ExactCut x s f m b) :
    Arenas.lives f = [] ∧ Arenas.lives b = [] :=
  ⟨lives_of_free fun t ht => (k.around t (by simp [ht])).1,
    lives_of_free fun t ht => (k.around t (by simp [ht])).1⟩

theorem ExactCut.serves (k : ExactCut x s f m b) (hfit : Fit x s) :
    Serves x { m with type := .live } := by
  have hin := hfit.inside
  have hb := k.base
  constructor
  · dsimp only
    rw [k.size]
    omega
  · dsimp only
    rw [hb]
    exact hfit.aligned

theorem Attempt.turnover {w : Result} (h : Attempt os found x segs w segs' c n)
    (v : Layout areas segs) (hn : segs.Nodup) (hin : ∀ s ∈ segs, Chosen x s → found s → Within x s)
    (hP : ∀ s ∈ segs, Chosen x s → found s → ∀ f m b, ExactCut x s f m b → P x { m with type := .live }) :
    Turnover P x (lives segs) (lives segs') w := by
  cases h with
  | nothing | kept => exact .none rfl
  | @cut l r s _ q e k hf =>
    have hc := lives_cutFront k.free (startIn x s) q
    refine .none ?_
    rw [lives_append] at hc
    rw [e, List.append_cons, lives_append, lives_append, lives_append, List.append_assoc (lives l),
      hc, lives_append, lives_cons_other (by simp [k.free])]
    simp
  | @undone l r f b s m _ e k hf _ _ hcut =>
    have hs : s ∈ segs := by simp [e]
    have kx := hcut.exact k.free (hin s hs k hf) (v.end_le hn hs (by simp [k.free]))
      (v.size_pos hn hs (by simp [k.free]))
    refine .none ?_
    rw [lives_release, e, lives_append, lives_append, lives_append, kx.lives.1, kx.lives.2,
      lives_cons_other (by simp [k.free])]
    simp
  | @served l r f b s m _ e k hf _ hcut =>
    have hs : s ∈ segs := by simp [e]
    have kx := hcut.exact k.free (hin s hs k hf) (v.end_le hn hs (by simp [k.free]))
      (v.size_pos hn hs (by simp [k.free]))
    refine .block (m := { m with type := .live }) (L := lives l) (R := lives r) ?_ ?_
      (hP s hs k hf f m b kx)
    · rw [e, lives_append, lives_cons_other (by simp [k.free])]
    · rw [lives_append, lives_append, kx.lives.1, lives_cons_live rfl, lives_append, kx.lives.2]
      simp

theorem lives_spanSegs (i : Import) (p q z : ℕ) : lives (spanSegs i p q z) = [] := rfl

/-- The last attempt of an allocation whose sums are exact and whose import lies clear of all
    others: the segments it starts from fit exactly. -/
theorem Alloc.last_attempt {o : List Import} {quantum : ℕ} {imports : Bool}
    {answer : Option Import} {w : Result}
    (h : Alloc os found quantum imports x answer segs w segs' c) (v : Layout areas segs)
    (hn : segs.Nodup) (k : Books res o areas) (hres : ∀ e ∈ res, e.imported = false)
    (hi : imports = true → res = []) (hroom : Room x areas)
    (hans : ∀ i, answer = some i → 0 < i.size ∧
      i.base + i.size + x.alignment + x.size < 4294967296 ∧ ∀ j ∈ o, i.Apart j) :
    ∃ areas₁ segs₁ o₁ c₁ os₁ n, Layout areas₁ segs₁ ∧ segs₁.Nodup ∧
      (∀ s ∈ segs₁, Chosen x s → Fit x s) ∧ Books res o₁ areas₁ ∧ lives segs₁ = lives segs ∧
      Attempt os₁ (fun _ => True) x segs₁ w segs' c₁ n ∧ c.foldl settle o = c₁.foldl settle o₁ := by
  have hfit : ∀ s ∈ segs, Chosen x s → Fit x s := fun s hs => hroom.fit v hn hs
  cases h with
  | first h | noImport h =>
    exact ⟨areas, segs, o, _, os, _, v, hn, hfit, k, rfl, h.forget, rfl⟩
  | noSpan h =>
    refine ⟨areas, segs, o, _, os, _, v, hn, hfit, k, rfl, h.forget, ?_⟩
    rw [List.foldl_append, List.foldl_cons, List.foldl_cons, settle_handed_back, List.foldl_nil]
  | @second l r segs'' c c' i _ _ _ p q z h himp ha hp hn' _ h' =>
    obtain ⟨areas₁, v₁, hm⟩ := h.layout v hn fun s hs k _ => (hfit s hs k).within
    have hlive : lives (l ++ r) = lives segs := by
      have ht := h.turnover v hn (fun s hs k _ => (hfit s hs k).within)
        fun s hs k _ f m b kx => kx.serves (hfit s hs k)
      generalize hw : (none : Result) = w₁ at ht
      cases ht with
      | none h => exact h
      | block => cases hw
    have k₁ := k.moves v hres hm
    obtain ⟨hpos, hlt, hapart⟩ := hans i ha
    obtain rfl := hi himp
    have hd := k₁.avoids (i := i) (fun j hj => hapart j (hm.outstanding_subset j hj))
    obtain ⟨A, B, rfl, v₂, -⟩ := v₁.insert hp (fun ar har => k₁.marks_ne har) hd hpos (by omega) p q z
    have hroom₁ := room_of_extents hroom hm.subset
    have hroom₂ : Room x (A ++ i.area p q z :: B) := by
      intro ar har
      rcases List.mem_append.mp har with har | har
      · exact hroom₁ ar (by simp [har])
      · rcases List.mem_cons.mp har with rfl | har
        · exact hlt
        · exact hroom₁ ar (by simp [har])
    refine ⟨_, _, _, c', _, _, v₂, hn', fun s hs => hroom₂.fit v₂ hn' hs,
      k₁.insert (i := i) (importSize quantum x.size x.alignment) p q z, ?_, h', ?_⟩
    · rw [lives_append, lives_append, lives_spanSegs, ← hlive, lives_append]
      simp
    · rw [List.foldl_append, List.foldl_cons]

theorem Area.lives_segs (ar : Area) : lives ar.segs = lives ar.pieces := by
  have ho : lives ar.opening = [] := by
    unfold Area.opening
    split <;> rfl
  have hc : lives ar.closing = [] := by
    unfold Area.closing
    split <;> rfl
  unfold Area.segs
  rw [lives_append, lives_append, ho, hc]
  simp

theorem Layout.lives_eq (v : Layout areas segs) :
    lives segs = areas.flatMap fun ar => lives ar.pieces := by
  rw [v.segs_eq]
  clear v
  induction areas with
  | nil => rfl
  | cons ar areas ih =>
    rw [List.flatMap_cons, lives_append, ih, ar.lives_segs, List.flatMap_cons]

theorem Layout.lives_apart (v : Layout areas segs) :
    (lives segs).Pairwise fun s t => s.base + s.size ≤ t.base := by
  rw [v.lives_eq, List.pairwise_flatMap]
  refine ⟨fun ar har => (v.tiled ar har).tiles.pairwise.sublist List.filter_sublist, ?_⟩
  refine v.apart.imp_of_mem ?_
  intro y z hy hz hyz s hs t ht
  have h₁ := (v.tiled y hy).tiles.mem (mem_lives.mp hs).1
  have h₂ := (v.tiled z hz).tiles.mem (mem_lives.mp ht).1
  omega

theorem Layout.lives_pos (v : Layout areas segs) (hs : s ∈ lives segs) : 0 < s.size := by
  rw [v.lives_eq] at hs
  obtain ⟨ar, har, hs⟩ := List.mem_flatMap.mp hs
  exact ((v.tiled ar har).tiles.mem (mem_lives.mp hs).1).2.1

theorem Layout.lives_nodup (v : Layout areas segs) :
    (lives segs).Pairwise fun s t => s.base ≠ t.base := by
  refine v.lives_apart.imp_of_mem ?_
  intro s t hs _ hst
  have := v.lives_pos hs
  omega

theorem base_ne_of_nodup {L R : List Seg}
    (h : (L ++ s :: R).Pairwise fun s t => s.base ≠ t.base) :
    ∀ t ∈ L ++ R, t.base ≠ s.base := by
  rw [List.pairwise_append, List.pairwise_cons] at h
  intro t ht
  rcases List.mem_append.mp ht with ht | ht
  · exact h.2.2 t ht s (by simp)
  · exact (h.2.1.1 t ht).symm

theorem Held.turnover {live live' : List Seg} {w : Result} {answer : Option Import}
    (k : Held P blocks live) (t : Turnover P x live live' w)
    (hn : live'.Pairwise fun s t => s.base ≠ t.base) :
    Held P (record blocks (.alloc x answer, w)) live' := by
  cases t with
  | none h => exact h ▸ k
  | @block L R m h h' hm =>
    subst h h'
    have hne := base_ne_of_nodup hn
    constructor
    · intro s hs
      by_cases he : s ∈ L ++ R
      · obtain ⟨y, hy, hs⟩ := k.served s he
        refine ⟨y, ?_, hs⟩
        simp only [record]
        rw [Function.update_of_ne (hne s he)]
        exact hy
      · obtain rfl : s = m := by
          simp only [List.mem_append, List.mem_cons] at hs he
          tauto
        exact ⟨x, by simp [record], hm⟩
    · intro b y hb
      simp only [record] at hb
      by_cases he : b = m.base
      · exact ⟨m, by simp, he.symm⟩
      · rw [Function.update_of_ne he] at hb
        obtain ⟨s, hs, hsb⟩ := k.held b y hb
        refine ⟨s, ?_, hsb⟩
        rw [List.mem_append] at hs
        simp only [List.mem_append, List.mem_cons]
        tauto

theorem Held.release {L R : List Seg} (k : Held P blocks (L ++ s :: R)) (hb : s.base = base)
    (hn : (L ++ s :: R).Pairwise fun s t => s.base ≠ t.base) :
    Held P (Function.update blocks base none) (L ++ R) := by
  have hne := base_ne_of_nodup hn
  constructor
  · intro t ht
    obtain ⟨x, hx, hs⟩ := k.served t (by simp at ht ⊢; tauto)
    refine ⟨x, ?_, hs⟩
    rwa [Function.update_of_ne (hb ▸ hne t ht)]
  · intro b x hx
    by_cases he : b = base
    · rw [he, Function.update_self] at hx
      cases hx
    · rw [Function.update_of_ne he] at hx
      obtain ⟨t, ht, htb⟩ := k.held b x hx
      refine ⟨t, ?_, htb⟩
      have hts : t ≠ s := by
        rintro rfl
        exact he (htb.symm.trans hb)
      simp only [List.mem_append, List.mem_cons] at ht ⊢
      tauto

theorem Held.unknown {live : List Seg} (k : Held P blocks live) (h : ∀ s ∈ live, s.base ≠ base) :
    Held P (Function.update blocks base none) live := by
  constructor
  · intro t ht
    obtain ⟨x, hx, hs⟩ := k.served t ht
    exact ⟨x, by rwa [Function.update_of_ne (h t ht)], hs⟩
  · intro b x hx
    by_cases he : b = base
    · rw [he, Function.update_self] at hx
      cases hx
    · rw [Function.update_of_ne he] at hx
      exact k.held b x hx

theorem Free.held {backing : Bool} {w : Result} (h : Free base segs segs' c)
    (k : Held P blocks (lives segs)) (hn : (lives segs).Pairwise fun s t => s.base ≠ t.base) :
    Held P (record blocks (.free base backing, w)) (lives segs') := by
  cases h with
  | unknown h =>
    exact k.unknown fun s hs => h s (mem_lives.mp hs).1 (mem_lives.mp hs).2
  | @known l r s c e hl hb =>
    rw [e, lives_append, lives_cons_live hl] at k hn
    rw [lives_release]
    exact k.release hb hn

theorem hashCreateExtended_homed {K : Type} {hash : K → ℕ} {os os' : Os} {n : ℕ} {t : Table K}
    (hn : 0 < n) (h : hashCreateExtended os n = (some t, os')) :
    Homed hash t ∧ t.entries = [] ∧ os'.grants = os.grants := by
  have ht : t = ⟨fun _ => [], n, 0, n⟩ ∧ os'.grants = os.grants := by
    unfold hashCreateExtended at h
    split at h
    · cases h
    · rename_i os₁ h₁
      split at h
      · cases h
      · rename_i os₂ h₂
        cases h
        have g₁ := osAllocMem_grants os
        have g₂ := osAllocMem_grants os₁
        rw [h₁] at g₁
        rw [h₂] at g₂
        exact ⟨rfl, g₂.trans g₁⟩
  obtain ⟨rfl, hg⟩ := ht
  exact ⟨⟨hn, hn, by simp, by simp⟩, by simp [Table.entries], hg⟩

theorem Linked.empty (h₀ : ∀ i, a.headFree i = 0) (h₁ : a.headSegment = 0)
    (h₂ : a.tailSegment = 0) (hn : 0 < a.nextTag) (hh : Homed hashBase a.segmentHash)
    (he : a.segmentHash.entries = []) : Linked a [] (fun _ => []) [] := by
  refine ⟨⟨by simp, .empty ?_ ?_, by simp, hn⟩, ⟨fun i => ⟨0, .empty ?_ ?_⟩, by simp⟩, ⟨hh, ?_⟩⟩
  · simp [nextOf, h₁]
  · simp [prevOf, h₂]
  · simp [nextFreeOf, h₀]
  · simp [prevFreeOf]
  · simp [he]

def resourceSize (quantum size : ℕ) : ℕ := u32 (size + quantum - 1) / quantum * quantum

theorem raCreate_linked {os : Os} {memory : ℕ → Bt} {size quantum : ℕ}
    {mapping : Option BmMapping} {imports backing : Bool}
    (h : raCreate os memory base size mapping quantum imports backing = some (some a)) :
    ∃ segs bins, Linked a segs bins [] ∧ a.calls = [] ∧ a.importAlloc = imports ∧
      a.quantum = quantum ∧ a.os.grants = os.grants ∧
      (size = 0 → segs = []) ∧
      (0 < size → ∃ q, segs = [⟨⟨.free, base, resourceSize quantum size, mapping⟩, q⟩]) := by
  unfold raCreate at h
  split at h
  · cases h
  rename_i os₁ h₁
  split at h
  · cases h
  rename_i hash os₂ h₂
  obtain ⟨hhomed, hentries, hg₂⟩ :
      Homed hashBase hash ∧ hash.entries = [] ∧ os₂.grants = os₁.grants :=
    hashCreateExtended_homed (by decide) h₂
  have hg : os₂.grants = os.grants := by
    rw [hg₂]
    simpa [h₁] using osAllocMem_grants os
  dsimp only at h
  generalize hb : RaArena.mk quantum imports backing (fun _ => 0) 0 0 hash memory 1 [] os₂ = b at h
  have hempty : Linked b [] (fun _ => []) [] := by
    subst hb
    exact .empty (fun _ => rfl) rfl rfl Nat.one_pos hhomed hentries
  split at h
  · rename_i hsize
    split at h
    · cases h
    · cases h
    rename_i bt c he
    rcases insertResource_linked hempty base (u32 (size + quantum - 1) / quantum * quantum) with
      ⟨-, he'⟩ | ⟨-, a', bins', l, r, q, m, he', hlr, -, v, k, hc⟩
    · rw [he] at he'
      cases he'
    · rw [he] at he'
      cases he'
      obtain ⟨rfl, rfl⟩ := List.append_eq_nil_iff.mp hlr.symm
      have v' := v.set_mapping mapping
      cases h
      refine ⟨_, bins', v', ?_, ?_, ?_, ?_, by omega, fun _ => ⟨bt, rfl⟩⟩
      · exact hc.trans (by rw [← hb])
      · exact k.importAlloc.trans (by rw [← hb])
      · exact k.quantum.trans (by rw [← hb])
      · exact k.grants.trans (by rw [← hb]; exact hg)
  · rename_i hsize
    cases h
    subst hb
    exact ⟨[], _, hempty, rfl, rfl, rfl, hg, fun _ => rfl, fun h => absurd h hsize⟩

end
end PvrServices.Arenas
