import PvrServices.ArenaJoined

set_option autoImplicit false

/-!
# The backing store of a freed block

`_FreeBT` rounds the block outwards to whole pages and draws each end that leaves the merged free
region in by one page. While free neighbours are joined, these are the pages of the block that no
live block shares.
-/
namespace PvrServices.Arenas
open Words HashTable LinkedRing Tiling Runs

def Overlaps (quantum p : ℕ) (s : Seg) : Prop := p < s.base + s.size ∧ s.base < p + quantum

def backingRange : Call → Option (ℕ × ℕ)
  | .backingStoreFree start stop => some (start, stop)
  | _ => none

def Reported (quantum p : ℕ) (d : List Call) : Prop :=
  ∃ g ∈ d.filterMap backingRange, g.1 ≤ p ∧ p + quantum ≤ g.2

/-- What the calls `d` of a free report, where `t` is the region that the block `s` has become. -/
structure ReportsPages (res : List Extent) (a : RaArena) (s t : Seg) (d : List Call) : Prop where
  once : (d.filterMap backingRange).length ≤ 1
  aligned : ∀ g ∈ d.filterMap backingRange, a.quantum ∣ g.1 ∧ a.quantum ∣ g.2 ∧ g.1 < g.2
  inside : ∀ g ∈ d.filterMap backingRange, t.base ≤ g.1 ∧ g.2 ≤ t.base + t.size
  pages : ∀ p, a.quantum ∣ p → (Reported a.quantum p d ↔
    Overlaps a.quantum p s ∧ t.base ≤ p ∧ p + a.quantum ≤ t.base + t.size)
  shared : ∀ e ∈ res ++ (outstanding a.calls).map Import.extent, e.base ≤ s.base →
    s.base + s.size ≤ e.base + e.size → ∀ p, a.quantum ∣ p → Overlaps a.quantum p s →
    e.base ≤ p → p + a.quantum ≤ e.base + e.size →
    (Reported a.quantum p d ↔
      ∀ u ∈ segments a, u.type = .live → u ≠ s → ¬Overlaps a.quantum p u)

def FreesPages (res : List Extent) (a : RaArena) (s : Seg) : Prop :=
  ∃ l r d, segments a = l ++ s :: r ∧ (raFree a s.base true).calls = a.calls ++ d ∧
    ReportsPages res a s (merged l s r) d

section
variable {a : RaArena} {segs l r p₁ p₂ : List Seg} {s t u : Seg} {bins : ℕ → List ℕ}
  {areas A B : List Area} {ar : Area} {q lo hi base size p : ℕ} {res : List Extent}

theorem page_le {m n : ℕ} (hm : q ∣ m) (hn : q ∣ n) (h : m < n + q) : m ≤ n := by
  obtain ⟨i, hi⟩ := hm
  obtain ⟨j, hj⟩ := hn
  rw [hi, hj] at h ⊢
  rw [← Nat.mul_succ] at h
  exact Nat.mul_le_mul_left q (Nat.le_of_lt_succ (Nat.lt_of_mul_lt_mul_left h))

theorem roundedStart_spec (hq : 0 < q) (hlo : lo ≤ base) (hsum : base + q ≤ 4294967296) :
    q ∣ roundedStart q base lo ∧ lo ≤ roundedStart q base lo ∧
      ∀ p, q ∣ p → lo ≤ p → base < p + q → roundedStart q base lo ≤ p := by
  have hdiv : q ∣ base / q * q := Nat.dvd_mul_left q _
  have hle := Nat.div_mul_le_self base q
  have hlt := Nat.lt_div_mul_add hq (a := base)
  unfold roundedStart
  dsimp only
  split
  · rename_i hout
    rw [u32_of_lt (by omega)]
    refine ⟨Nat.dvd_add hdiv (Nat.dvd_refl q), by omega, ?_⟩
    intro p hp hlop _
    have hnext : q ∣ base / q * q + q := Nat.dvd_add hdiv (Nat.dvd_refl q)
    exact page_le hnext hp (by omega)
  · refine ⟨hdiv, by omega, ?_⟩
    intro p hp _ hbp
    exact page_le hdiv hp (by omega)

theorem roundedEnd_spec (hq : 0 < q) (hhi : base + size ≤ hi) (hpos : 0 < size)
    (hsum : base + size + q ≤ 4294967296) :
    q ∣ roundedEnd q base size hi ∧ roundedEnd q base size hi ≤ hi ∧
      roundedEnd q base size hi < base + size + q ∧
      ∀ p, q ∣ p → p + q ≤ hi → p < base + size → p + q ≤ roundedEnd q base size hi := by
  have hu : u32 (base + size + q - 1) = base + size + q - 1 := u32_of_lt (by omega)
  have hdiv : q ∣ (base + size + q - 1) / q * q := Nat.dvd_mul_left q _
  have hle := Nat.div_mul_le_self (base + size + q - 1) q
  have hlt := Nat.lt_div_mul_add hq (a := base + size + q - 1)
  unfold roundedEnd
  dsimp only
  rw [hu]
  generalize (base + size + q - 1) / q * q = stop at hdiv hle hlt ⊢
  have hone : q ≤ stop := Nat.le_of_dvd (by omega) hdiv
  split
  · rename_i hout
    rw [u32Sub_of_le hone]
    refine ⟨Nat.dvd_sub hdiv (Nat.dvd_refl q), by omega, by omega, ?_⟩
    intro p hp hpi hps
    have hpq : q ∣ p + q := Nat.dvd_add hp (Nat.dvd_refl q)
    have hlast : q ∣ stop - q := Nat.dvd_sub hdiv (Nat.dvd_refl q)
    exact page_le hpq hlast (by omega)
  · refine ⟨hdiv, by omega, by omega, ?_⟩
    intro p hp _ hps
    exact page_le (Nat.dvd_add hp (Nat.dvd_refl q)) hdiv (by omega)

theorem page_between (hq : 0 < q) (hlo : lo ≤ base) (hhi : base + size ≤ hi) (hpos : 0 < size)
    (hsum : base + size + q ≤ 4294967296) (hp : q ∣ p) :
    roundedStart q base lo ≤ p ∧ p + q ≤ roundedEnd q base size hi ↔
      (p < base + size ∧ base < p + q) ∧ lo ≤ p ∧ p + q ≤ hi := by
  obtain ⟨hsd, hsl, hsp⟩ := roundedStart_spec hq hlo (by omega)
  obtain ⟨hed, hel, hes, hep⟩ := roundedEnd_spec hq hhi hpos hsum
  constructor
  · intro hbetween
    have hnext := Nat.lt_div_mul_add hq (a := base)
    have hfloor : base / q * q ≤ roundedStart q base lo := by
      unfold roundedStart
      dsimp only
      split
      · rw [u32_of_lt (by omega)]
        omega
      · exact Nat.le_refl _
    omega
  · intro hpage
    exact ⟨hsp p hp hpage.2.1 hpage.1.2, hep p hp hpage.2.2 hpage.1.1⟩

theorem merged_below (h : Joined (p₁ ++ s :: p₂))
    (ht : Tiles (fun s : Seg => s.base) (fun s => s.size) lo (p₁ ++ s :: p₂) hi)
    (hplain : ∀ u ∈ p₁, u.type ≠ .span) (hhi : hi < 4294967296) :
    lo ≤ (absorbPrev p₁ s).2.base ∧ (absorbPrev p₁ s).2.base ≤ s.base ∧
      (absorbPrev p₁ s).2.base + (absorbPrev p₁ s).2.size = s.base + s.size ∧
      ((absorbPrev p₁ s).2.base = lo ∨
        ∃ z ∈ p₁, z.type = .live ∧ z.base + z.size = (absorbPrev p₁ s).2.base) ∧
      ∀ u ∈ p₁, u.type = .live → u.base + u.size ≤ (absorbPrev p₁ s).2.base := by
  have hlive : ∀ u ∈ p₁, u.type ≠ .free → u.type = .live := by
    intro u hu hf
    cases hty : u.type with
    | span => exact absurd hty (hplain u hu)
    | free => exact absurd hty hf
    | live => rfl
  obtain ⟨htl, hpos, htr⟩ := tiles_middle_iff.mp ht
  have hle := htr.le
  rcases List.eq_nil_or_concat p₁ with hnil | ⟨k, q, hk⟩
  · rw [hnil] at htl
    rw [hnil, absorbPrev_nil]
    dsimp only
    have hlo := tiles_nil_iff.mp htl
    exact ⟨by omega, Nat.le_refl _, rfl, .inl hlo.symm, by simp⟩
  rw [List.concat_eq_append] at hk
  have hjl := (joined_middle.mp h).1
  rw [hk] at htl hjl
  obtain ⟨htk, hqpos, hend⟩ := tiles_middle_iff.mp htl
  have hmeet : q.base + q.size = s.base := tiles_nil_iff.mp hend
  have hlok := htk.le
  rw [hk, absorbPrev_concat]
  by_cases hq : q.type = .free
  · have hmeets : Meets q s := by
      unfold Meets
      rw [u32_of_lt (by omega), hmeet]
    rw [if_pos ⟨hq, hmeets⟩]
    dsimp only
    rw [u32_of_lt (by omega)]
    refine ⟨hlok, by omega, by omega, ?_, ?_⟩
    · rcases List.eq_nil_or_concat k with hnil | ⟨k', z, hk'⟩
      · rw [hnil] at htk
        exact .inl (tiles_nil_iff.mp htk).symm
      · rw [List.concat_eq_append] at hk'
        right
        refine ⟨z, by simp [hk'], ?_, ?_⟩
        · apply hlive z (by simp [hk, hk'])
          intro hz
          exact (joined_append.mp hjl).2.2 z (by simp [hk']) q (by simp) hz hq
        · rw [hk'] at htk
          exact tiles_nil_iff.mp (tiles_middle_iff.mp htk).2.2
    · intro u hu hul
      rcases List.mem_append.mp hu with hu | hu
      · exact (htk.mem hu).2.2
      · rw [List.mem_singleton.mp hu, hq] at hul
        cases hul
  · rw [if_neg (fun hc => hq hc.1)]
    dsimp only
    refine ⟨by omega, Nat.le_refl _, rfl, .inr ⟨q, by simp, ?_, hmeet⟩, ?_⟩
    · exact hlive q (by simp [hk]) hq
    · intro u hu _
      exact (htl.mem hu).2.2

theorem merged_above (hr : Joined p₂)
    (ht : Tiles (fun s : Seg => s.base) (fun s => s.size) (s.base + s.size) p₂ hi)
    (hplain : ∀ u ∈ p₂, u.type ≠ .span) (hhi : hi < 4294967296) :
    (absorbNext s p₂).1.base = s.base ∧
      s.base + s.size ≤ s.base + (absorbNext s p₂).1.size ∧
      s.base + (absorbNext s p₂).1.size ≤ hi ∧
      (s.base + (absorbNext s p₂).1.size = hi ∨
        ∃ z ∈ p₂, z.type = .live ∧ z.base = s.base + (absorbNext s p₂).1.size) ∧
      ∀ u ∈ p₂, u.type = .live → s.base + (absorbNext s p₂).1.size ≤ u.base := by
  have hlive : ∀ u ∈ p₂, u.type ≠ .free → u.type = .live := by
    intro u hu hf
    cases hty : u.type with
    | span => exact absurd hty (hplain u hu)
    | free => exact absurd hty hf
    | live => rfl
  cases p₂ with
  | nil =>
    have hend := tiles_nil_iff.mp ht
    rw [absorbNext_nil]
    dsimp only
    exact ⟨rfl, Nat.le_refl _, by omega, .inl hend, by simp⟩
  | cons q k =>
    obtain ⟨hbase, hqpos, htk⟩ := tiles_cons_iff.mp ht
    have hle := htk.le
    obtain ⟨hhead, hjk⟩ := List.isChain_cons.mp hr
    rw [absorbNext_cons]
    by_cases hq : q.type = .free
    · have hmeets : Meets s q := by
        unfold Meets
        rw [u32_of_lt (by omega)]
        exact hbase.symm
      rw [if_pos ⟨hq, hmeets⟩]
      dsimp only
      rw [u32_of_lt (by omega)]
      refine ⟨rfl, by omega, by omega, ?_, ?_⟩
      · cases k with
        | nil =>
          have hend := tiles_nil_iff.mp htk
          left
          omega
        | cons z k =>
          right
          have hz := (tiles_cons_iff.mp htk).1
          exact ⟨z, by simp, hlive z (by simp) (hhead z (by simp) hq), by omega⟩
      · intro u hu hul
        rcases List.mem_cons.mp hu with hu | hu
        · rw [hu, hq] at hul
          cases hul
        · have hub := (htk.mem hu).1
          omega
    · rw [if_neg (fun hc => hq hc.1)]
      dsimp only
      refine ⟨rfl, Nat.le_refl _, by omega, .inr ⟨q, by simp, hlive q (by simp) hq, hbase⟩, ?_⟩
      intro u hu _
      exact (ht.mem hu).1

theorem Layout.merged_eq (v : Layout (A ++ ar :: B) segs) :
    merged (A.flatMap Area.segs ++ ar.opening ++ p₁) s
      (p₂ ++ ar.closing ++ B.flatMap Area.segs) = (absorbNext (absorbPrev p₁ s).2 p₂).1 := by
  unfold merged
  rw [absorbPrev_append fun _ => opening_last fun hk => (v.marks_none hk).1, List.append_assoc p₂,
    absorbNext_append fun _ => closing_head fun hk => (v.marks_none hk).2]

theorem filterMap_handBack (g : Option (ℕ × Option BmMapping)) :
    (handBack g).filterMap backingRange = [] := by
  cases g with
  | none => rfl
  | some g => rfl

theorem ranges_eq (t u : Tag) (g : Option (ℕ × Option BmMapping)) :
    (backingCalls q true t u ++ handBack g).filterMap backingRange =
      if roundedStart q t.base u.base < roundedEnd q t.base t.size (u32 (u.base + u.size)) then
        [(roundedStart q t.base u.base, roundedEnd q t.base t.size (u32 (u.base + u.size)))]
      else [] := by
  rw [List.filterMap_append, filterMap_handBack, List.append_nil, backingCalls, cond_true]
  split <;> rfl

theorem reported_iff (hq : 0 < q) (t u : Tag) (g : Option (ℕ × Option BmMapping)) :
    Reported q p (backingCalls q true t u ++ handBack g) ↔ roundedStart q t.base u.base ≤ p ∧
      p + q ≤ roundedEnd q t.base t.size (u32 (u.base + u.size)) := by
  unfold Reported
  rw [ranges_eq]
  split
  · simp
  · simp only [List.not_mem_nil, false_and, exists_false, false_iff]
    omega

theorem raFree_live (v : Linked a segs bins [])
    (hdistinct : (lives segs).Pairwise fun s t => s.base ≠ t.base) (hs : s ∈ segs)
    (hl : s.type = .live) :
    ∃ l r, segs = l ++ s :: r ∧ (raFree a s.base true).calls = a.calls ++
      (backingCalls a.quantum (a.backingStoreFree && true) s.toTag (merged l s r).toTag ++
        handBack (release l s r).2) := by
  obtain ⟨-, ⟨hnone, -⟩ | ⟨l, t, r, bins', e, htl, hb, -, hc⟩⟩ := raFree_cases v s.base true
  · exact absurd rfl (hnone s hs hl)
  · have hmap : ((lives segs).map fun s => s.base).Nodup :=
      List.Pairwise.map _ (fun _ _ h => h) hdistinct
    have hts : t = s := List.inj_on_of_nodup_map hmap (mem_lives.mpr ⟨by simp [e], htl⟩)
      (mem_lives.mpr ⟨hs, hl⟩) hb
    rw [hts] at e hc
    exact ⟨l, r, e, hc⟩

theorem Layout.extent_eq (v : Layout (A ++ ar :: B) segs) (hs : s ∈ ar.pieces) {y : Area}
    (hy : y ∈ A ++ ar :: B) (hlo : y.base ≤ s.base) (hhi : s.base + s.size ≤ y.base + y.size) :
    y = ar := by
  have hm := (v.tiled ar (by simp)).tiles.mem hs
  have hap := v.apart
  rw [List.pairwise_append, List.pairwise_cons] at hap
  rcases List.mem_append.mp hy with hy | hy
  · have hya := hap.2.2 y hy ar List.mem_cons_self
    omega
  · rcases List.mem_cons.mp hy with hy | hy
    · exact hy
    · have hay := hap.2.1.1 y hy
      omega

theorem Inv.freesPages {blocks : Blocks} (I : Inv res a blocks) (hj : Joined (segments a))
    (hq : 0 < a.quantum) (hcallback : a.backingStoreFree = true) (hs : s ∈ segments a)
    (hl : s.type = .live) (hsum : s.base + s.size + a.quantum ≤ 4294967296) :
    FreesPages res a s := by
  obtain ⟨segs, bins, areas, v, y, k, hh⟩ := I.shown
  have hsegs := v.listed.segments_eq
  rw [hsegs] at hj hs
  have hn := v.listed.nodup
  obtain ⟨l, r, e, hcalls⟩ := raFree_live v y.lives_nodup hs hl
  rw [hcallback, Bool.and_self] at hcalls
  refine ⟨l, r, _, hsegs.trans e, hcalls, ?_⟩
  obtain ⟨A, ar, B, p₁, p₂, hareas, hpieces, hleft, hright⟩ := y.locate hn e (by simp [hl])
  rw [hareas] at y k
  have hend := k.below I.below ar (by simp)
  have hplain := (y.tiled ar (by simp)).plain
  have htiles := (y.tiled ar (by simp)).tiles
  rw [hpieces] at htiles
  have hjp : Joined (p₁ ++ s :: p₂) := by
    have hsplit : segs = (A.flatMap Area.segs ++ ar.opening) ++ (p₁ ++ s :: p₂) ++
        (ar.closing ++ B.flatMap Area.segs) := by
      rw [e, hleft, hright]
      simp
    rw [hsplit] at hj
    exact (joined_append.mp (joined_append.mp hj).1).2.1
  obtain ⟨hlo, hbase, hstop, hlow, hlower⟩ := merged_below hjp htiles
    (fun u hu => (hplain u (by simp [hpieces, hu])).1) hend
  have htiles' := absorbPrev_tiles htiles (by have := htiles.le; omega)
  obtain ⟨hbase', hle, hhi, hhigh, hupper⟩ := merged_above (joined_middle.mp hjp).2.1
    (tiles_middle_iff.mp htiles').2.2 (fun u hu => (hplain u (by simp [hpieces, hu])).1) hend
  have hmerged : merged l s r = (absorbNext (absorbPrev p₁ s).2 p₂).1 := by
    rw [hleft, hright]
    exact y.merged_eq
  rw [← hmerged] at hbase' hle hhi hhigh hupper
  generalize merged l s r = t at *
  generalize (absorbPrev p₁ s).2 = n at *
  have hpos := (htiles.mem (x := s) (by simp)).2.1
  have hu : u32 (t.base + t.size) = t.base + t.size := u32_of_lt (by omega)
  have hranges := ranges_eq (q := a.quantum) s.toTag t.toTag (release l s r).2
  rw [hu] at hranges
  obtain ⟨hstart, hfloor, -⟩ := roundedStart_spec hq (show t.base ≤ s.base by omega) (by omega)
  obtain ⟨hstop', hceil, -⟩ := roundedEnd_spec hq
    (show s.base + s.size ≤ t.base + t.size by omega) hpos hsum
  have hpages : ∀ p, a.quantum ∣ p → (Reported a.quantum p
      (backingCalls a.quantum true s.toTag t.toTag ++ handBack (release l s r).2) ↔
      Overlaps a.quantum p s ∧ t.base ≤ p ∧ p + a.quantum ≤ t.base + t.size) := by
    intro p hp
    rw [reported_iff hq, hu]
    exact page_between hq (by omega) (by omega) hpos hsum hp
  generalize backingCalls a.quantum true s.toTag t.toTag ++ handBack (release l s r).2 = d
    at hranges hpages ⊢
  refine ⟨?_, ?_, ?_, hpages, ?_⟩
  · rw [hranges]
    split <;> simp
  · intro g hg
    rw [hranges] at hg
    split at hg
    · rename_i hlt
      rw [List.mem_singleton.mp hg]
      exact ⟨hstart, hstop', hlt⟩
    · cases hg
  · intro g hg
    rw [hranges] at hg
    split at hg
    · rw [List.mem_singleton.mp hg]
      exact ⟨hfloor, hceil⟩
    · cases hg
  · intro x hx hxlo hxhi p hp hover hplo hphi
    obtain ⟨y', hy', hye⟩ := List.mem_map.mp (k.mem_iff.mpr hx)
    rw [← hye] at hxlo hxhi hplo hphi
    have hyar : y' = ar := y.extent_eq (s := s) (by simp [hpieces]) hy' hxlo hxhi
    rw [hyar] at hplo hphi
    rw [hpages p hp]
    constructor
    · intro hin u hu hul hus hou
      rw [hsegs] at hu
      have hmem := mem_lives.mpr ⟨hu, hul⟩
      rw [y.lives_eq, List.mem_flatMap] at hmem
      obtain ⟨z, hz, huz⟩ := hmem
      have hup := (mem_lives.mp huz).1
      have huz' := (y.tiled z hz).tiles.mem hup
      unfold Overlaps at hou
      by_cases hzar : z = ar
      · rw [hzar, hpieces, List.mem_append, List.mem_cons] at hup
        rcases hup with hup | hup | hup
        · have hb := hlower u hup hul
          omega
        · exact hus hup
        · have hb := hupper u hup hul
          omega
      · have hap := y.apart
        rw [List.pairwise_append, List.pairwise_cons] at hap
        rcases List.mem_append.mp hz with hz | hz
        · have hza := hap.2.2 z hz ar List.mem_cons_self
          omega
        · rcases List.mem_cons.mp hz with hz | hz
          · exact hzar hz
          · have haz := hap.2.1.1 z hz
            omega
    · intro hnone
      refine ⟨hover, ?_, ?_⟩
      · by_contra hlt
        obtain ⟨z, hz, hzl, hze⟩ := hlow.resolve_left (by
          change ar.base ≤ p at hplo
          omega)
        have hzpos := (htiles.mem (x := z) (by simp [hz])).2.1
        apply hnone z (by rw [hsegs, e, hleft]; simp [hz]) hzl
        · intro hzs
          rw [hzs] at hze
          omega
        · unfold Overlaps at hover ⊢
          omega
      · by_contra hlt
        obtain ⟨z, hz, hzl, hzb⟩ := hhigh.resolve_left (by
          change p + a.quantum ≤ ar.base + ar.size at hphi
          omega)
        have hzpos := (htiles.mem (x := z) (by simp [hz])).2.1
        apply hnone z (by rw [hsegs, e, hright]; simp [hz]) hzl
        · intro hzs
          rw [hzs] at hzb
          omega
        · unfold Overlaps at hover ⊢
          omega

/-- Over every run in which no sum wraps and no allocation leaves two free pieces of one segment,
    the free of a block with its backing store reports its pages. -/
theorem pages_over_runs {a₀ : RaArena} {log : List (Op × Result)} (hc : Created a₀ res)
    (run : Run step (fun a op => Exact a op ∧ KeepsJoined a op) a₀ log a) (hq : 0 < a.quantum)
    (hcallback : a.backingStoreFree = true) :
    ∀ s ∈ segments a, s.type = .live → s.base + s.size + a.quantum ≤ 4294967296 →
      FreesPages res a s := by
  obtain ⟨I, hj⟩ := joined_over_run hc run
  intro s hs hl hsum
  exact I.freesPages hj hq hcallback hs hl hsum

end
/-- Two pages from address 4096 on with a backing-store callback, from an allocator that refuses
    one call. -/
def createdBacked (refused : ℕ) : Option (Option RaArena) :=
  raCreate ⟨fun n => n ≠ refused, 0⟩ (fun _ => ⟨⟨.span, 0, 0, none⟩, 0, 0, 0, 0⟩) 4096 8192 none
    4096 false true

theorem createdBacked_created {refused : ℕ} {a : RaArena}
    (h : createdBacked refused = some (some a)) : Created a [⟨4096, 8192, none, false⟩] := by
  have hsize : resourceSize 4096 8192 = 8192 := by decide +kernel
  have hc : Created a [⟨4096, resourceSize 4096 8192, none, false⟩] := by
    refine .resource (show raCreate _ _ 4096 8192 none 4096 false true = some (some a) from h)
      (by decide) (by decide) (by decide) ?_
    rw [hsize]
    decide
  rw [hsize] at hc
  exact hc

/-- Of two blocks in one page the first has been freed: with the second the page is reported. -/
theorem pages_over_sample : ∃ a₀ log a, createdBacked 100 = some (some a₀) ∧
    exec step a₀ [.alloc smallRequest none, .alloc smallRequest none, .free 4096 true] =
      some (log, a) ∧
    (raFree a 5096 true).calls = [.backingStoreFree 4096 8192] ∧
    ∀ s ∈ segments a, s.type = .live → s.base + s.size + a.quantum ≤ 4294967296 →
      FreesPages [⟨4096, 8192, none, false⟩] a s := by
  have hend : ((createdBacked 100).bind id).bind (fun a₀ => (exec step a₀
      [.alloc smallRequest none, .alloc smallRequest none, .free 4096 true]).map fun r =>
        (decide (Allowed step (fun a op => Exact a op ∧ KeepsJoined a op) a₀
          [.alloc smallRequest none, .alloc smallRequest none, .free 4096 true]), r.2.quantum,
          r.2.backingStoreFree, (raFree r.2 5096 true).calls)) =
      some (true, 4096, true, [.backingStoreFree 4096 8192]) := by
    decide +kernel
  obtain ⟨a₀, hcreate, hend⟩ := Option.bind_eq_some_iff.mp hend
  obtain ⟨y, hy, hya⟩ := Option.bind_eq_some_iff.mp hcreate
  rw [show y = some a₀ from hya] at hy
  obtain ⟨r, hr, hfacts⟩ := Option.map_eq_some_iff.mp hend
  simp only [Prod.mk.injEq, decide_eq_true_eq] at hfacts
  exact ⟨a₀, r.1, r.2, hy, hr, hfacts.2.2.2, pages_over_runs (createdBacked_created hy)
    (Run.of_allowed hr hfacts.1) (by rw [hfacts.2.1]; decide) hfacts.2.2.1⟩

/-- The back split of the first request is refused. The block of the second one, the only one that
    there ever was, is freed, and its page is not reported: the pieces of the page are not joined. -/
theorem page_not_reported : ∃ a₀ log a s, createdBacked 5 = some (some a₀) ∧
    exec step a₀ [.alloc splitRequest none, .alloc smallRequest none] = some (log, a) ∧
    Run step Exact a₀ log a ∧ s ∈ segments a ∧ s.type = .live ∧
    ¬FreesPages [⟨4096, 8192, none, false⟩] a s := by
  have hend : ((createdBacked 5).bind id).bind (fun a₀ => (exec step a₀
      [.alloc splitRequest none, .alloc smallRequest none]).map fun r =>
        (decide (Allowed step Exact a₀ [.alloc splitRequest none, .alloc smallRequest none]),
          r.2.quantum, (lives (segments r.2)).map fun s => (s.base, s.size),
          r.2.calls.isEmpty && (raFree r.2 4096 true).calls.isEmpty)) =
      some (true, 4096, [(4096, 1000)], true) := by
    decide +kernel
  obtain ⟨a₀, hcreate, hend⟩ := Option.bind_eq_some_iff.mp hend
  obtain ⟨y, hy, hya⟩ := Option.bind_eq_some_iff.mp hcreate
  rw [show y = some a₀ from hya] at hy
  obtain ⟨r, hr, hfacts⟩ := Option.map_eq_some_iff.mp hend
  simp only [Prod.mk.injEq, decide_eq_true_eq, Bool.and_eq_true, List.isEmpty_iff] at hfacts
  obtain ⟨hallowed, hquantum, hlives, hcalls, hfreed⟩ := hfacts
  obtain ⟨s, hlist, hplace⟩ := List.map_eq_singleton_iff.mp hlives
  rw [Prod.mk.injEq] at hplace
  have hs := mem_lives.mp (show s ∈ lives (segments r.2) by simp [hlist])
  refine ⟨a₀, r.1, r.2, s, hy, hr, Run.of_allowed hr hallowed, hs.1, hs.2, fun hpages => ?_⟩
  obtain ⟨left, right, d, -, hd, hreports⟩ := hpages
  rw [hplace.1, hcalls, hfreed, List.nil_append] at hd
  have hover : Overlaps r.2.quantum 4096 s := by
    unfold Overlaps
    omega
  have hreported := (hreports.shared ⟨4096, 8192, none, false⟩ (by simp) (by
    change 4096 ≤ s.base
    omega) (by
    change s.base + s.size ≤ 4096 + 8192
    omega) 4096 ⟨1, ((Nat.mul_one _).trans hquantum).symm⟩ hover (Nat.le_refl _) (by rw [hquantum]; decide)).mpr (by
      intro u hu hul hus
      have hmem := mem_lives.mpr ⟨hu, hul⟩
      rw [hlist, List.mem_singleton] at hmem
      exact absurd hmem hus)
  rw [← hd] at hreported
  obtain ⟨g, hg, -⟩ := hreported
  cases hg

end PvrServices.Arenas
