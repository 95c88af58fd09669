import PvrServices.ArenaReturn

set_option autoImplicit false

/-!
# Failed allocations

What a failed `RA_Alloc` leaves behind, in any arena and for any request: the sums are those of
the source, modulo `2^32`.
-/
namespace PvrServices.Arenas
open Words HashTable LinkedRing Tiling Runs

def WordSegs (segs : List Seg) : Prop := ∀ s ∈ segs, s.base < 4294967296 ∧ s.size < 4294967296

def tags (segs : List Seg) : List Tag := segs.map Seg.toTag

/-- The second list comes from the first one by joining free neighbours that meet. -/
inductive Coalesces : List Tag → List Tag → Prop where
  | refl (t : List Tag) : Coalesces t t
  | join {l r t : List Tag} {q s : Tag} (m : Option BmMapping) (hq : q.type = .free)
      (hs : s.type = .free) (h : u32 (q.base + q.size) = s.base)
      (k : Coalesces (l ++ ⟨.free, q.base, u32 (q.size + s.size), m⟩ :: r) t) :
      Coalesces (l ++ q :: s :: r) t

def Vacant (segs : List Seg) (s : Seg) : Prop :=
  ∃ l p mid n r, segs = l ++ p :: (mid ++ n :: r) ∧ p.type = .span ∧ n.type = .span ∧ s ∈ mid ∧
    ∀ t ∈ mid, t.type = .free

/-- The arena is as it was before: the same live segments, also in the hash table, and the same
    free ones, none of them split; no import is left over. -/
structure Unchanged (a a' : RaArena) : Prop where
  live : lives (segments a') = lives (segments a)
  free : Coalesces (tags (segments a)) (tags (segments a'))
  hash : ∀ e, e ∈ a'.segmentHash.entries ↔ e ∈ a.segmentHash.entries
  imports : outstanding a'.calls = outstanding a.calls

section
variable {a a' : RaArena} {segs segs' l r f b : List Seg} {s m q : Seg} {bins : ℕ → List ℕ}
  {x : Request} {c : List Call} {os : Os} {n : ℕ} {found : Seg → Prop} {w : Result}
  {start size : ℕ}

theorem u32Sub_lt {a b : ℕ} (ha : a < 4294967296) : u32Sub a b < 4294967296 := by
  unfold u32Sub
  split <;> omega

theorem startIn_lt (h : s.base < 4294967296) : startIn x s < 4294967296 := by
  unfold startIn alignedBase
  split
  · exact Nat.lt_of_le_of_lt (Nat.div_mul_le_self _ _) (u32_lt _)
  · exact h

theorem u32_start {base : ℕ} (hst : start < 4294967296) (h : start > base) :
    u32 (base + (start - base)) = start := by
  rw [u32_of_lt (by omega)]
  omega

theorem u32_rest {n : ℕ} (hs : size < 4294967296) (hn : n < 4294967296) :
    u32 (u32Sub size n + n) = size := by
  rw [u32Sub_eq_mod hs hn, u32_eq_mod]
  omega

theorem u32_three {n d : ℕ} (hs : size < 4294967296) (hd : d < 4294967296)
    (h : n < u32Sub size d) : u32 (u32 (n + d) + u32Sub (u32Sub size d) n) = size := by
  rw [u32Sub_of_le h.le, u32_eq_mod, u32_eq_mod]
  rw [u32Sub_eq_mod hs hd] at h ⊢
  omega

theorem absorbPrev_meets (hq : q.type = .free) (hm : Meets q s) :
    absorbPrev (l ++ [q]) s = (l, { s with base := q.base, size := u32 (s.size + q.size) }) := by
  rw [absorbPrev_concat, if_pos ⟨hq, hm⟩]

theorem absorbNext_meets (hq : q.type = .free) (hm : Meets s q) :
    absorbNext s (q :: r) = ({ s with size := u32 (s.size + q.size) }, r) := by
  rw [absorbNext_cons, if_pos ⟨hq, hm⟩]

/-- Giving back the middle of a cut gives the whole segment back: it is taken together with the
    neighbours of the segment, or with the pieces that were cut off. -/
theorem release_cut (k : Cut s start size f m b) (hs : s.size < 4294967296)
    (hst : start < 4294967296) :
    ∃ P N, (P = (l, { s with type := .live, ref := m.ref }) ∨
        P = absorbPrev l { s with type := .live, ref := m.ref }) ∧
      (N = (P.2, r) ∨ N = absorbNext P.2 r) ∧
      release (l ++ f) { m with type := .live } (b ++ r) = retire P.1 N.1 N.2 := by
  obtain ⟨q, q', rfl, hk⟩ := k.cut
  unfold release
  dsimp only
  by_cases h : start > s.base
  · have hd : start - s.base < 4294967296 := by omega
    have hcut : cutFront s start q = ([{ s with type := .free, size := start - s.base }],
        rear s (start - s.base) q) := if_pos h
    rw [hcut] at hk ⊢
    dsimp only at hk ⊢
    -- the piece in front is taken in
    have hprev : ∀ t : Seg, t.base = u32 (s.base + (start - s.base)) →
        absorbPrev (l ++ [{ s with type := .free, size := start - s.base }]) t =
          (l, { t with base := s.base, size := u32 (t.size + (start - s.base)) }) :=
      fun t ht => absorbPrev_meets rfl ht.symm
    by_cases h' : (rear s (start - s.base) q).size > size
    · have hback : cutBack (rear s (start - s.base) q) size q' =
          ({ rear s (start - s.base) q with size := size },
            [rear (rear s (start - s.base) q) size q']) := if_pos h'
      rw [hback, Prod.mk.injEq] at hk
      obtain ⟨rfl, rfl⟩ := hk
      refine ⟨(l, { s with type := .live, ref := q }), ({ s with type := .live, ref := q }, r),
        Or.inl rfl, Or.inl rfl, ?_⟩
      rw [hprev _ rfl, List.singleton_append, absorbNext_meets rfl]
      · dsimp only [rear] at h' ⊢
        rw [u32_three hs hd h']
      · unfold Meets rear
        dsimp only
        rw [u32_eq_mod, u32_eq_mod, u32_eq_mod, u32_eq_mod]
        omega
    · have hback : cutBack (rear s (start - s.base) q) size q' =
          (rear s (start - s.base) q, []) := if_neg h'
      rw [hback, Prod.mk.injEq] at hk
      obtain ⟨rfl, rfl⟩ := hk
      refine ⟨(l, { s with type := .live, ref := q }), _, Or.inl rfl, Or.inr rfl, ?_⟩
      rw [hprev _ rfl, List.nil_append]
      dsimp only [rear]
      rw [u32_rest hs hd]
  · have hcut : cutFront s start q = ([], s) := if_neg h
    rw [hcut] at hk ⊢
    dsimp only at hk ⊢
    rw [List.append_nil]
    by_cases h' : s.size > size
    · have hback : cutBack s size q' = ({ s with size := size }, [rear s size q']) := if_pos h'
      rw [hback, Prod.mk.injEq] at hk
      obtain ⟨rfl, rfl⟩ := hk
      have hsub : u32Sub s.size size = s.size - size := u32Sub_of_le (by omega)
      refine ⟨_, _, Or.inr rfl, Or.inl rfl, ?_⟩
      have hkeep : ∀ t : Seg, t.base = s.base → t.size = size →
          absorbNext t (rear s size q' :: r) = ({ t with size := s.size }, r) := by
        intro t hb hsz
        rw [absorbNext_meets rfl (by unfold Meets rear; rw [hb, hsz])]
        dsimp only [rear]
        rw [hsz, hsub, u32_of_lt (by omega)]
        congr
        omega
      rcases List.eq_nil_or_concat l with rfl | ⟨l, p, rfl⟩
      · rw [absorbPrev_nil, absorbPrev_nil, List.singleton_append]
        dsimp only
        rw [hkeep { s with type := .live, size := size } rfl rfl]
      · rw [List.concat_eq_append, absorbPrev_concat, absorbPrev_concat]
        by_cases hc : p.type = .free ∧ Meets p s
        · have hm₁ : p.type = .free ∧ Meets p { s with size := size, type := .live } := hc
          have hm₂ : p.type = .free ∧ Meets p { s with type := .live } := hc
          rw [if_pos hm₁, if_pos hm₂, List.singleton_append, absorbNext_meets rfl]
          · dsimp only [rear]
            have hsum : u32 (u32 (size + p.size) + u32Sub s.size size) = u32 (s.size + p.size) := by
              rw [hsub, u32_eq_mod, u32_eq_mod, u32_eq_mod]
              omega
            rw [hsum]
          · have hmeets : u32 (p.base + p.size) = s.base := hc.2
            unfold Meets rear
            dsimp only
            rw [u32_eq_mod] at hmeets
            rw [u32_eq_mod, u32_eq_mod, u32_eq_mod]
            omega
        · have hm₁ : ¬ (p.type = .free ∧ Meets p { s with size := size, type := .live }) := hc
          have hm₂ : ¬ (p.type = .free ∧ Meets p { s with type := .live }) := hc
          rw [if_neg hm₁, if_neg hm₂, List.singleton_append]
          dsimp only
          rw [hkeep { s with type := .live, size := size } rfl rfl]
    · have hback : cutBack s size q' = (s, []) := if_neg h'
      rw [hback, Prod.mk.injEq] at hk
      obtain ⟨rfl, rfl⟩ := hk
      exact ⟨_, _, Or.inr rfl, Or.inr rfl, rfl⟩

theorem Coalesces.trans {t u v : List Tag} (h : Coalesces t u) (k : Coalesces u v) :
    Coalesces t v := by
  induction h with
  | refl => exact k
  | join m hq hs hm _ ih => exact .join m hq hs hm (ih k)

theorem coalesces_prev (hs : { s with type := .free }.type = .free) :
    Coalesces (tags (l ++ { s with type := .free } :: r))
      (tags ((absorbPrev l s).1 ++ { (absorbPrev l s).2 with type := .free } :: r)) := by
  rcases List.eq_nil_or_concat l with rfl | ⟨l, p, rfl⟩
  · exact .refl _
  · rw [List.concat_eq_append, absorbPrev_concat]
    split
    · rename_i h
      have k : Coalesces (tags l ++ p.toTag :: { s with type := .free }.toTag :: tags r)
          (tags l ++ ⟨.free, p.base, u32 (p.size + s.size), s.mapping⟩ :: tags r) :=
        .join s.mapping h.1 hs h.2 (.refl _)
      simpa [tags, Nat.add_comm] using k
    · exact .refl _

theorem coalesces_next :
    Coalesces (tags (l ++ { s with type := .free } :: r))
      (tags (l ++ { (absorbNext s r).1 with type := .free } :: (absorbNext s r).2)) := by
  cases r with
  | nil => exact .refl _
  | cons n r =>
    rw [absorbNext_cons]
    split
    · rename_i h
      have k : Coalesces (tags l ++ { s with type := .free }.toTag :: n.toTag :: tags r)
          (tags l ++ ⟨.free, s.base, u32 (s.size + n.size), s.mapping⟩ :: tags r) :=
        .join s.mapping rfl h.1 h.2 (.refl _)
      simpa [tags] using k
    · exact .refl _

theorem retire_none (h : (retire l s r).2 = none) :
    (retire l s r).1 = l ++ { s with type := .free } :: r := by
  rcases List.eq_nil_or_concat l with rfl | ⟨l, p, rfl⟩
  · rfl
  · rw [List.concat_eq_append] at h ⊢
    cases r with
    | nil => simp
    | cons n r =>
      rw [retire_concat] at h ⊢
      split at h
      · cases h
      · rename_i hc
        rw [if_neg hc]

theorem retire_some {v : ℕ × Option BmMapping} (h : (retire l s r).2 = some v) :
    ∃ l' p n r', l = l' ++ [p] ∧ r = n :: r' ∧ p.type = .span ∧ n.type = .span := by
  rcases List.eq_nil_or_concat l with rfl | ⟨l, p, rfl⟩
  · cases h
  · rw [List.concat_eq_append] at h ⊢
    cases r with
    | nil => simp at h
    | cons n r =>
      rw [retire_concat] at h
      split at h
      · rename_i hc
        exact ⟨l, p, n, r, rfl, rfl, hc.2, hc.1⟩
      · cases h

theorem absorbPrev_split : ∃ mid, l = (absorbPrev l s).1 ++ mid ∧ ∀ t ∈ mid, t.type = .free := by
  rcases List.eq_nil_or_concat l with rfl | ⟨l, p, rfl⟩
  · exact ⟨[], rfl, by simp⟩
  · rw [List.concat_eq_append, absorbPrev_concat]
    split
    · rename_i h
      exact ⟨[p], rfl, by simpa using h.1⟩
    · exact ⟨[], by simp, by simp⟩

theorem absorbNext_split : ∃ mid, r = mid ++ (absorbNext s r).2 ∧ ∀ t ∈ mid, t.type = .free := by
  cases r with
  | nil => exact ⟨[], rfl, by simp⟩
  | cons n r =>
    rw [absorbNext_cons]
    split
    · rename_i h
      exact ⟨[n], rfl, by simpa using h.1⟩
    · exact ⟨[], by simp, by simp⟩

/-- A released cut leaves the segment as it was, or coalesced with its neighbours. -/
theorem release_cut_kept (k : Cut s start size f m b) (hf : s.type = .free)
    (hs : s.size < 4294967296) (hst : start < 4294967296) (hv : ¬ Vacant (l ++ s :: r) s) :
    (release (l ++ f) { m with type := .live } (b ++ r)).2 = none ∧
      Coalesces (tags (l ++ s :: r)) (tags (release (l ++ f) { m with type := .live } (b ++ r)).1) := by
  obtain ⟨P, N, hP, hN, he⟩ := release_cut (l := l) (r := r) k hs hst
  rw [he]
  have hsplit₁ : ∃ mid, l = P.1 ++ mid ∧ ∀ t ∈ mid, t.type = .free := by
    rcases hP with rfl | rfl
    · exact ⟨[], by simp, by simp⟩
    · exact absorbPrev_split
  have hsplit₂ : ∃ mid, r = mid ++ N.2 ∧ ∀ t ∈ mid, t.type = .free := by
    rcases hN with rfl | rfl
    · exact ⟨[], by simp, by simp⟩
    · exact absorbNext_split
  have hnone : (retire P.1 N.1 N.2).2 = none := by
    cases hr : (retire P.1 N.1 N.2).2 with
    | none => rfl
    | some v =>
      obtain ⟨mid₁, hl, h₁⟩ := hsplit₁
      obtain ⟨mid₂, hr', h₂⟩ := hsplit₂
      obtain ⟨l', p, n, r', hp, hn, hpt, hnt⟩ := retire_some hr
      refine absurd ⟨l', p, mid₁ ++ s :: mid₂, n, r', ?_, hpt, hnt, by simp, ?_⟩ hv
      · rw [hl, hr', hp, hn]
        simp
      · intro t ht
        rcases List.mem_append.mp ht with ht | ht
        · exact h₁ t ht
        · rcases List.mem_cons.mp ht with rfl | ht
          · exact hf
          · exact h₂ t ht
  refine ⟨hnone, ?_⟩
  rw [retire_none hnone]
  have hstart : tags (l ++ s :: r) = tags (l ++ { ({ s with type := .live, ref := m.ref } : Seg) with
      type := .free } :: r) := by
    simp [tags, ← hf]
  rw [hstart]
  have k₁ : Coalesces (tags (l ++ { ({ s with type := .live, ref := m.ref } : Seg) with
      type := .free } :: r)) (tags (P.1 ++ { P.2 with type := .free } :: r)) := by
    rcases hP with rfl | rfl
    · exact .refl _
    · exact coalesces_prev rfl
  refine k₁.trans ?_
  rcases hN with rfl | rfl
  · exact .refl _
  · exact coalesces_next

theorem Cut.lives (k : Cut s start size f m b) (hf : s.type = .free) :
    Arenas.lives f = [] ∧ Arenas.lives b = [] := by
  obtain ⟨q, q', rfl, hk⟩ := k.cut
  have hp := cutFront_plain hf start q
  have hb := (cutBack_plain (cutFront s start q).2 size q').2.2
  rw [← hk] at hb
  exact ⟨lives_of_free fun t ht => (hp t (by simp [ht])).1, lives_of_free fun t ht => (hb t ht).1⟩

def Spares (os : Os) (x : Request) (segs : List Seg) (s : Seg) : Prop :=
  (refusal os s.toTag (startIn x s) x.size = some .back → startIn x s ≤ s.base) ∧
  (refusal os s.toTag (startIn x s) x.size = some .bucket → ¬ Vacant segs s)

theorem Attempt.spared (h : Attempt os found x segs none segs' c n) (hw : WordSegs segs)
    (hs : ∀ s ∈ segs, found s → Spares os x segs s) :
    Arenas.lives segs' = Arenas.lives segs ∧ Coalesces (tags segs) (tags segs') ∧ c = [] := by
  cases h with
  | nothing | kept => exact ⟨rfl, .refl _, rfl⟩
  | @cut l r s _ q e k hf hr =>
    have hm : s ∈ segs := by simp [e]
    have hle := (hs s hm hf).1 hr
    have hcut : cutFront s (startIn x s) q = ([], s) := if_neg (by omega)
    have he : l ++ (cutFront s (startIn x s) q).1 ++ (cutFront s (startIn x s) q).2 :: r = segs := by
      rw [hcut, List.append_nil, e]
    rw [he]
    exact ⟨rfl, .refl _, rfl⟩
  | @undone l r f b s m _ e k hf hr _ hcut =>
    have hm : s ∈ segs := by simp [e]
    have hv := (hs s hm hf).2 hr
    subst e
    obtain ⟨hback, hco⟩ := release_cut_kept hcut k.free (hw s hm).2 (startIn_lt (hw s hm).1) hv
    refine ⟨?_, hco, by rw [hback]; rfl⟩
    obtain ⟨hlf, hlb⟩ := hcut.lives k.free
    rw [lives_release, lives_append, lives_append, lives_append, hlf, hlb,
      lives_cons_other (by simp [k.free])]
    simp

theorem release_span {i : Import} {p q z : ℕ}
    (k : Cut (i.segment q) start size f m b) (hst : start < 4294967296) :
    release (l ++ [marker i.base i.size p] ++ f) { m with type := .live }
      (b ++ marker (u32 (i.base + i.size)) 0 z :: r) = (l ++ r, some (i.base, i.mapping)) := by
  obtain ⟨P, N, hP, hN, he⟩ := release_cut (l := l ++ [marker i.base i.size p])
    (r := marker (u32 (i.base + i.size)) 0 z :: r) k i.size_lt hst
  have hprev : P = (l ++ [marker i.base i.size p], { i.segment q with type := .live, ref := m.ref }) := by
    rcases hP with rfl | rfl
    · rfl
    · rw [absorbPrev_concat, if_neg]
      simp [marker]
  have hnext : N = (P.2, marker (u32 (i.base + i.size)) 0 z :: r) := by
    rcases hN with rfl | rfl
    · rfl
    · rw [absorbNext_cons, if_neg]
      simp [marker]
  rw [he, hnext, hprev, retire_concat, if_pos ⟨rfl, rfl⟩]
  rfl

theorem Attempt.span_handed_back {i : Import} {p q z : ℕ}
    (h : Attempt os found x (l ++ spanSegs i p q z ++ r) none segs' c n)
    (honly : ∀ s ∈ l ++ spanSegs i p q z ++ r, Chosen x s → s = i.segment q)
    (hn : (l ++ spanSegs i p q z ++ r).Nodup) (hc : Chosen x (i.segment q))
    (hr : refusal os (i.segment q).toTag (startIn x (i.segment q)) x.size = none ∨
      refusal os (i.segment q).toTag (startIn x (i.segment q)) x.size = some .bucket) :
    segs' = l ++ r ∧ c = [.importFree i.base i.mapping] := by
  have hmem : i.segment q ∈ l ++ spanSegs i p q z ++ r := by simp [spanSegs, Import.segment]
  have hlog : pvrLog2 (i.segment q).size < 32 := by
    rw [pvrLog2_eq (n := (i.segment q).size) i.size_lt]
    exact log_lt i.size_lt
  cases h with
  | nothing h => exact absurd hc (h _ hmem hlog)
  | kept e k _ hr' =>
    obtain rfl := honly _ (by simp [e]) k
    rcases hr with hr | hr <;> rw [hr] at hr' <;> cases hr'
  | cut q e k _ hr' =>
    obtain rfl := honly _ (by simp [e]) k
    rcases hr with hr | hr <;> rw [hr] at hr' <;> cases hr'
  | @undone l' r' f b s m _ e k _ _ _ hcut =>
    obtain rfl := honly _ (by simp [e]) k
    have hsplit : l ++ spanSegs i p q z ++ r = (l ++ [marker i.base i.size p]) ++
        i.segment q :: (marker (u32 (i.base + i.size)) 0 z :: r) := by
      simp [spanSegs, Import.segment]
    rw [hsplit] at e hn
    rw [List.nodup_middle, List.nodup_cons, List.mem_append, not_or] at hn
    obtain ⟨rfl, -, rfl⟩ := (List.append_cons_inj_of_notMem hn.1.1 hn.1.2).mp e
    rw [release_span hcut (startIn_lt i.base_lt)]
    exact ⟨rfl, rfl⟩

theorem refusal_eq_none {t : Tag} (hg : ¬ RefusedSoon os) : refusal os t start size = none := by
  have hgrants (k : ℕ) (hk : k < 3) : ¬ os.grants (os.calls + k) = false := fun h =>
    hg ⟨os.calls + k, by omega, by omega, h⟩
  unfold refusal
  dsimp only
  rw [if_neg fun h => hgrants 0 (by omega) h.2, if_neg, if_neg]
  · rw [Nat.add_assoc]
    apply hgrants
    split
    all_goals split
    all_goals omega
  · rintro ⟨-, h⟩
    revert h
    apply hgrants
    split
    all_goals omega

theorem Attempt.ne_none {i : Import} {p q z : ℕ}
    (h : Attempt os found x (l ++ spanSegs i p q z ++ r) none segs' c n)
    (hc : Chosen x (i.segment q)) (hg : ¬ RefusedSoon os) : False := by
  have hmem : i.segment q ∈ l ++ spanSegs i p q z ++ r := by simp [spanSegs, Import.segment]
  have hlog : pvrLog2 (i.segment q).size < 32 := by
    rw [pvrLog2_eq (n := (i.segment q).size) i.size_lt]
    exact log_lt i.size_lt
  cases h with
  | nothing h => exact h _ hmem hlog hc
  | kept _ _ _ hr | cut _ _ _ _ hr | undone _ _ _ hr =>
    rw [refusal_eq_none hg] at hr
    cases hr

def WordSeg (s : Seg) : Prop := s.base < 4294967296 ∧ s.size < 4294967296

theorem wordSegs_append : WordSegs (l ++ r) ↔ WordSegs l ∧ WordSegs r := List.forall_mem_append

theorem wordSegs_cons : WordSegs (s :: r) ↔ WordSeg s ∧ WordSegs r := List.forall_mem_cons

theorem cutFront_words (hs : WordSeg s) (hst : start < 4294967296) (q : ℕ) :
    WordSegs (cutFront s start q).1 ∧ WordSeg (cutFront s start q).2 := by
  unfold cutFront
  split
  · refine ⟨wordSegs_cons.mpr ⟨⟨hs.1, ?_⟩, by simp [WordSegs]⟩, u32_lt _, u32Sub_lt hs.2⟩
    dsimp only
    omega
  · exact ⟨by simp [WordSegs], hs⟩

theorem cutBack_words (hs : WordSeg s) (q : ℕ) :
    WordSeg (cutBack s size q).1 ∧ WordSegs (cutBack s size q).2 := by
  unfold cutBack
  split
  · refine ⟨⟨hs.1, ?_⟩, wordSegs_cons.mpr ⟨⟨u32_lt _, u32Sub_lt hs.2⟩, by simp [WordSegs]⟩⟩
    have := hs.2
    dsimp only
    omega
  · exact ⟨hs, by simp [WordSegs]⟩

theorem Cut.words (k : Cut s start size f m b) (hs : WordSeg s) (hst : start < 4294967296) :
    WordSegs f ∧ WordSeg m ∧ WordSegs b := by
  obtain ⟨q, q', rfl, hk⟩ := k.cut
  obtain ⟨h₁, h₂⟩ := cutFront_words hs hst q
  have h₃ : WordSeg (cutBack (cutFront s start q).2 size q').1 ∧
      WordSegs (cutBack (cutFront s start q).2 size q').2 := cutBack_words h₂ q'
  rw [← hk] at h₃
  exact ⟨h₁, h₃⟩

theorem absorbPrev_words (hl : WordSegs l) (hs : WordSeg s) :
    WordSegs (absorbPrev l s).1 ∧ WordSeg (absorbPrev l s).2 := by
  rcases List.eq_nil_or_concat l with rfl | ⟨l, p, rfl⟩
  · exact ⟨hl, hs⟩
  · rw [List.concat_eq_append] at hl ⊢
    rw [absorbPrev_concat]
    rw [wordSegs_append, wordSegs_cons] at hl
    split
    · exact ⟨hl.1, hl.2.1.1, u32_lt _⟩
    · exact ⟨wordSegs_append.mpr ⟨hl.1, wordSegs_cons.mpr hl.2⟩, hs⟩

theorem absorbNext_words (hr : WordSegs r) (hs : WordSeg s) :
    WordSeg (absorbNext s r).1 ∧ WordSegs (absorbNext s r).2 := by
  cases r with
  | nil => exact ⟨hs, hr⟩
  | cons n r =>
    rw [absorbNext_cons]
    rw [wordSegs_cons] at hr
    split
    · exact ⟨⟨hs.1, u32_lt _⟩, hr.2⟩
    · exact ⟨hs, wordSegs_cons.mpr hr⟩

theorem retire_words (hl : WordSegs l) (hs : WordSeg s) (hr : WordSegs r) :
    WordSegs (retire l s r).1 := by
  cases h : (retire l s r).2 with
  | none =>
    rw [retire_none h]
    exact wordSegs_append.mpr ⟨hl, wordSegs_cons.mpr ⟨hs, hr⟩⟩
  | some v =>
    obtain ⟨l', p, n, r', rfl, rfl, hp, hn⟩ := retire_some h
    rw [retire_concat, if_pos ⟨hn, hp⟩]
    exact wordSegs_append.mpr ⟨(wordSegs_append.mp hl).1, (wordSegs_cons.mp hr).2⟩

theorem release_words (hl : WordSegs l) (hs : WordSeg s) (hr : WordSegs r) :
    WordSegs (release l s r).1 := by
  obtain ⟨h₁, h₂⟩ := absorbPrev_words hl hs
  obtain ⟨h₃, h₄⟩ := absorbNext_words hr h₂
  exact retire_words h₁ h₃ h₄

theorem Attempt.words (h : Attempt os found x segs w segs' c n) (hw : WordSegs segs) :
    WordSegs segs' := by
  cases h with
  | nothing | kept => exact hw
  | @cut l r s _ q e k =>
    rw [e, wordSegs_append, wordSegs_cons] at hw
    obtain ⟨h₁, h₂⟩ := cutFront_words hw.2.1 (startIn_lt (x := x) hw.2.1.1) q
    rw [wordSegs_append, wordSegs_append, wordSegs_cons]
    exact ⟨⟨hw.1, h₁⟩, h₂, hw.2.2⟩
  | @undone l r f b s m _ e k _ _ _ hcut =>
    rw [e, wordSegs_append, wordSegs_cons] at hw
    obtain ⟨h₁, h₂, h₃⟩ := hcut.words hw.2.1 (startIn_lt hw.2.1.1)
    exact release_words (wordSegs_append.mpr ⟨hw.1, h₁⟩) h₂ (wordSegs_append.mpr ⟨h₃, hw.2.2⟩)
  | @served l r f b s m _ e k _ _ hcut =>
    rw [e, wordSegs_append, wordSegs_cons] at hw
    obtain ⟨h₁, h₂, h₃⟩ := hcut.words hw.2.1 (startIn_lt hw.2.1.1)
    rw [wordSegs_append, wordSegs_append, wordSegs_cons, wordSegs_append]
    exact ⟨⟨hw.1, h₁⟩, h₂, h₃, hw.2.2⟩

theorem spanSegs_words (i : Import) (p q z : ℕ) : WordSegs (spanSegs i p q z) := by
  intro s hs
  simp only [spanSegs, List.mem_cons, List.not_mem_nil, or_false] at hs
  rcases hs with rfl | rfl | rfl
  · exact ⟨i.base_lt, i.size_lt⟩
  · exact ⟨i.base_lt, i.size_lt⟩
  · exact ⟨u32_lt _, Nat.two_pow_pos 32⟩

theorem spanned_words {i : Import} {p q z : ℕ} (h : WordSegs (l ++ r)) :
    WordSegs (l ++ spanSegs i p q z ++ r) := by
  rw [wordSegs_append] at h
  rw [wordSegs_append, wordSegs_append]
  exact ⟨⟨h.1, spanSegs_words i p q z⟩, h.2⟩

theorem Alloc.words {quantum : ℕ} {imports : Bool} {answer : Option Import}
    (h : Alloc os found quantum imports x answer segs w segs' c) (hw : WordSegs segs) :
    WordSegs segs' := by
  cases h with
  | first h | noImport h | noSpan h => exact h.words hw
  | second p q z h _ _ _ _ _ h' => exact h'.words (spanned_words (h.words hw))

theorem Free.words {base : ℕ} (h : Free base segs segs' c) (hw : WordSegs segs) :
    WordSegs segs' := by
  cases h with
  | unknown => exact hw
  | known e =>
    rw [e, wordSegs_append, wordSegs_cons] at hw
    exact release_words hw.1 hw.2.1 hw.2.2

end

def Reached (a : RaArena) : Prop :=
  ∃ os memory base size mapping quantum imports backing a₀ l, base < 4294967296 ∧
    raCreate os memory base size mapping quantum imports backing = some (some a₀) ∧
    Run step (fun _ _ => True) a₀ l a

theorem Reached.shown {a : RaArena} (h : Reached a) :
    ∃ segs bins, Linked a segs bins [] ∧ WordSegs segs := by
  obtain ⟨os, memory, base, size, mapping, quantum, imports, backing, a₀, l, hb, hc, run⟩ := h
  refine run.invariant (fun a => ∃ segs bins, Linked a segs bins [] ∧ WordSegs segs) ?_ ?_
  · obtain ⟨segs, bins, v, -, -, -, -, h₀, h₁⟩ := raCreate_linked hc
    refine ⟨segs, bins, v, ?_⟩
    rcases Nat.eq_zero_or_pos size with hz | hz
    · rw [h₀ hz]
      simp [WordSegs]
    · obtain ⟨q, hq⟩ := h₁ hz
      rw [hq]
      refine wordSegs_cons.mpr ⟨⟨hb, ?_⟩, by simp [WordSegs]⟩
      exact Nat.lt_of_le_of_lt (Nat.div_mul_le_self _ _) (u32_lt _)
  · rintro b op w t ⟨segs, bins, v, hw⟩ - hs
    cases op with
    | alloc x answer =>
      obtain ⟨w', a', segs', bins', c, he, hal, v', -⟩ := raAlloc_simulated v x answer
      rw [step, he] at hs
      cases hs
      exact ⟨segs', bins', v', hal.words hw⟩
    | free base backing =>
      obtain ⟨segs', bins', c, hf, v', -⟩ := raFree_simulated v base backing
      cases hs
      exact ⟨segs', bins', v', hf.words hw⟩

/-- When a failed `RA_Alloc` leaves nothing behind. The first attempt is not refused memory for
    a second cut, nor for a bucket where it would give a whole span back. If the importer then
    returns a span, either there is no memory for its three tags, or the span fits the request
    and is not refused memory for a cut; behind a refusal in the first attempt none of the three
    requests is refused that cutting a segment makes at most. -/
def Restores (a : RaArena) (x : Request) (answer : Option Import) : Prop :=
  (∀ s ∈ segments a, Found a x s → Spares a.os x (segments a) s) ∧
  (a.importAlloc = true → ∀ i ∈ answer,
    (NothingFits x (segments a) → RefusedSoon a.os ∨ Chosen x (i.segment 0) ∧
      (refusal ⟨a.os.grants, a.os.calls + 3⟩ (i.segment 0).toTag (startIn x (i.segment 0)) x.size =
          none ∨
        refusal ⟨a.os.grants, a.os.calls + 3⟩ (i.segment 0).toTag (startIn x (i.segment 0)) x.size =
          some .bucket)) ∧
    (∀ s ∈ segments a, Found a x s → refusal a.os s.toTag (startIn x s) x.size ≠ none →
      ∀ k, NextRefused a.os k → RefusedSoon ⟨a.os.grants, k + 1⟩ ∨
        Chosen x (i.segment 0) ∧ ¬ RefusedSoon ⟨a.os.grants, k + 4⟩))

section
variable {a a' : RaArena} {segs segs' : List Seg} {x : Request} {c : List Call} {os : Os} {n : ℕ}
  {found : Seg → Prop} {answer : Option Import}

theorem Attempt.outcome (h : Attempt os found x segs none segs' c n) :
    (NothingFits x segs ∧ segs' = segs ∧ n = os.calls) ∨
    ∃ k s, s ∈ segs ∧ found s ∧ refusal os s.toTag (startIn x s) x.size ≠ none ∧
      NextRefused os k ∧ n = k + 1 := by
  cases h with
  | nothing h => exact Or.inl ⟨h, rfl, rfl⟩
  | kept e k hf hr hn => exact Or.inr ⟨_, _, by simp [e], hf, by simp [hr], hn, rfl⟩
  | cut q e k hf hr hn => exact Or.inr ⟨_, _, by simp [e], hf, by simp [hr], hn, rfl⟩
  | undone e k hf hr hn => exact Or.inr ⟨_, _, by simp [e], hf, by simp [hr], hn, rfl⟩

theorem Import.chosen_congr {i : Import} (h : Chosen x (i.segment 0)) (q : ℕ) :
    Chosen x (i.segment q) := ⟨h.free, h.bin, h.fits⟩

/-- On the list of segments, a failed allocation joins free neighbours at most. -/
theorem Alloc.unchanged {quantum : ℕ} {imports : Bool}
    (h : Alloc os found quantum imports x answer segs none segs' c) (hw : WordSegs segs)
    (hs : ∀ s ∈ segs, found s → Spares os x segs s)
    (hi : imports = true → ∀ i ∈ answer,
      (NothingFits x segs → RefusedSoon os ∨ Chosen x (i.segment 0) ∧
        (refusal ⟨os.grants, os.calls + 3⟩ (i.segment 0).toTag (startIn x (i.segment 0)) x.size =
            none ∨
          refusal ⟨os.grants, os.calls + 3⟩ (i.segment 0).toTag (startIn x (i.segment 0)) x.size =
            some .bucket)) ∧
      (∀ s ∈ segs, found s → refusal os s.toTag (startIn x s) x.size ≠ none →
        ∀ k, NextRefused os k → RefusedSoon ⟨os.grants, k + 1⟩ ∨
          Chosen x (i.segment 0) ∧ ¬ RefusedSoon ⟨os.grants, k + 4⟩)) (o : List Import) :
    lives segs' = lives segs ∧ Coalesces (tags segs) (tags segs') ∧ c.foldl settle o = o := by
  cases h with
  | noImport h =>
    obtain ⟨hl, hc, rfl⟩ := h.spared hw hs
    exact ⟨hl, hc, rfl⟩
  | noSpan h =>
    obtain ⟨hl, hc, rfl⟩ := h.spared hw hs
    exact ⟨hl, hc, settle_handed_back o _ (importSize quantum x.size x.alignment)⟩
  | @second l r _ c c' i _ n n' p q z h himp ha hp hn hg h' =>
    obtain ⟨hl, hc, rfl⟩ := h.spared hw hs
    obtain ⟨hnone, hrefused⟩ := hi himp i ha
    have hw' := spanned_words (i := i) (p := p) (q := q) (z := z) (h.words hw)
    rcases h.outcome with ⟨hno, hsegs, rfl⟩ | ⟨k, s, hm, hf, hr, hk, rfl⟩
    · rcases hnone hno with hsoon | ⟨hch, hcut⟩
      · exact absurd hsoon hg
      · have honly := only_span_fits (i := i) (p := p) (q := q) (z := z) (hsegs ▸ hno)
          fun s hs _ => (hw' s hs).2
        obtain ⟨rfl, rfl⟩ := h'.span_handed_back honly hn (Import.chosen_congr hch q) hcut
        exact ⟨hl, hc, settle_handed_back o i (importSize quantum x.size x.alignment)⟩
    · rcases hrefused s hm hf hr k hk with hsoon | ⟨hch, hgr⟩
      · exact absurd hsoon hg
      · exact absurd h' fun h' => h'.ne_none (Import.chosen_congr hch q) hgr

theorem Hashed.mem_lives {h : Table ℕ} (v : Hashed h segs []) (e : ℕ × ℕ) :
    e ∈ h.entries ↔ ∃ s ∈ lives segs, s.base = e.1 ∧ s.ref = e.2 := by
  rw [v.mem e.1 e.2]
  constructor
  · rintro ⟨s, hs, hr, -, hl, hb⟩
    exact ⟨s, Arenas.mem_lives.mpr ⟨hs, hl⟩, hb, hr⟩
  · rintro ⟨s, hs, hb, hr⟩
    obtain ⟨hs, hl⟩ := Arenas.mem_lives.mp hs
    exact ⟨s, hs, hr, by simp, hl, hb⟩

/-- A failed `RA_Alloc` leaves any arena as it was. -/
theorem alloc_failure_restores (h : Reached a) (hr : Restores a x answer)
    (hf : raAlloc a x.size x.flags x.alignment answer = some (none, a')) : Unchanged a a' := by
  obtain ⟨segs, bins, v, hw⟩ := h.shown
  obtain ⟨w, a₁, segs', bins', c, he, hal, v', hk, hc⟩ := raAlloc_simulated v x answer
  rw [hf] at he
  cases he
  have hs := v.listed.segments_eq
  unfold Restores at hr
  rw [hs] at hr
  obtain ⟨hl, hco, hset⟩ := hal.unchanged hw hr.1 hr.2 (outstanding a.calls)
  have hs' := v'.listed.segments_eq
  refine ⟨by rw [hs, hs', hl], by rw [hs, hs']; exact hco, fun e => ?_, ?_⟩
  · rw [v'.hashed.mem_lives, v.hashed.mem_lives, hl]
  · rw [hc, outstanding_append, hset]

end

theorem sampleArena_reached : Reached sampleArena :=
  ⟨_, _, _, _, _, _, _, _, sampleArena, [], by decide, sampleArena_eq, .refl⟩

def scarceArena : RaArena := { sampleArena with os := ⟨fun k => k != 8 && k != 9, 3⟩ }

/-- The arena behind the first allocation: a live page and a free one. -/
def scarceUsed : RaArena :=
  ((raAlloc scarceArena 4096 0 1 (some pagesImport)).map Prod.snd).getD scarceArena

def livePage : Seg := ⟨⟨.live, 65536, 4096, some ⟨1, 0⟩⟩, 3⟩
def freePage : Seg := ⟨⟨.free, 69632, 4096, some ⟨1, 0⟩⟩, 4⟩

theorem scarceUsed_segments : segments scarceUsed =
    [marker 65536 8192 1, livePage, freePage, marker 73728 0 2] := by
  decide +kernel

theorem scarceUsed_reached : Reached scarceUsed := by
  have hrun : (raAlloc scarceArena 4096 0 1 (some pagesImport)).isSome = true := by
    decide +kernel
  obtain ⟨⟨w, a⟩, ha⟩ := Option.isSome_iff_exists.mp hrun
  have hused : scarceUsed = a := by
    unfold scarceUsed
    rw [ha]
    rfl
  have hs : step scarceArena (.alloc scarceRequest (some pagesImport)) = some (w, a) := ha
  rw [hused]
  exact ⟨⟨fun k => k != 8 && k != 9, 0⟩, fun _ => ⟨⟨.span, 0, 0, none⟩, 0, 0, 0, 0⟩, 0, 0, none, 4096,
    true, true, scarceArena, _, by decide, rfl, .snoc .refl trivial hs⟩

theorem freePage_not_vacant : ¬ Vacant (segments scarceUsed) freePage := by
  rw [scarceUsed_segments]
  rintro ⟨l, p, mid, n, r, e, hp, -, hmem, hfree⟩
  rcases l with _ | ⟨a, _ | ⟨b, _ | ⟨c, l⟩⟩⟩
  · obtain ⟨rfl, hrest⟩ := List.cons.inj e
    cases mid with
    | nil => cases hmem
    | cons t mid =>
      obtain ⟨rfl, -⟩ := List.cons.inj hrest
      exact absurd (hfree livePage List.mem_cons_self) (by decide)
  · have hl : livePage = p := (List.cons.inj (List.cons.inj e).2).1
    rw [← hl] at hp
    cases hp
  · have hl : freePage = p := (List.cons.inj (List.cons.inj (List.cons.inj e).2).2).1
    rw [← hl] at hp
    cases hp
  · have hnil := congrArg List.length e
    simp at hnil
    omega

/-- The hash bucket of the block is refused behind the live page, and then the first tag of the span
    that the importer returns. -/
theorem alloc_failure_restores_sample : ∃ a',
    raAlloc scarceUsed scarceRequest.size scarceRequest.flags scarceRequest.alignment
      (some (sampleImport 131072 4096 (by decide) (by decide))) = some (none, a') ∧
    Unchanged scarceUsed a' := by
  have hrun : (raAlloc scarceUsed scarceRequest.size scarceRequest.flags scarceRequest.alignment
      (some (sampleImport 131072 4096 (by decide) (by decide)))).map (fun r => decide (r.1 = none)) =
        some true := by decide +kernel
  obtain ⟨⟨w, a'⟩, h, hw⟩ := Option.map_eq_some_iff.mp hrun
  obtain rfl : w = none := of_decide_eq_true hw
  have hfound : findFree scarceUsed scarceRequest.size scarceRequest.flags scarceRequest.alignment =
      some 4 := by decide +kernel
  have hbucket : refusal scarceUsed.os freePage.toTag (startIn scarceRequest freePage)
      scarceRequest.size = some .bucket := by decide +kernel
  refine ⟨a', h, alloc_failure_restores (x := scarceRequest) scarceUsed_reached ⟨?_, ?_⟩ h⟩
  · intro s hs hf
    rw [Found, hfound, Option.some.injEq] at hf
    have hpage : s = freePage := by
      rw [scarceUsed_segments] at hs
      simp only [List.mem_cons, List.not_mem_nil, or_false] at hs
      rcases hs with rfl | rfl | rfl | rfl <;> first | rfl | exact absurd hf (by decide)
    rw [hpage]
    refine ⟨fun hback => ?_, fun _ => freePage_not_vacant⟩
    rw [hbucket] at hback
    cases hback
  · intro _ i hi
    refine ⟨fun hno => ?_, fun s _ _ _ k hk => .inl ?_⟩
    · have hchosen : Chosen scarceRequest freePage := ⟨rfl, by decide +kernel, by decide +kernel⟩
      exact absurd hchosen (hno freePage (by rw [scarceUsed_segments]; simp) (by decide +kernel))
    · have hcalls : scarceUsed.os.calls = 8 := by decide +kernel
      have hgrants : scarceUsed.os.grants 8 = false ∧ scarceUsed.os.grants 9 = false := by
        decide +kernel
      have hk8 : k = 8 := by
        by_contra hne
        have hle := hk.le
        rw [hcalls] at hle
        have := hk.granted 8 (by omega) (by omega)
        rw [hgrants.1] at this
        cases this
      rw [hk8]
      exact ⟨9, le_rfl, Nat.lt_add_of_pos_right (by omega), hgrants.2⟩

/-- A span that does not fit the alignment stays behind a failed allocation. -/
theorem alloc_failure_leaks : Reached sampleArena ∧ ∃ a',
    raAlloc sampleArena misfitRequest.size misfitRequest.flags misfitRequest.alignment
      (some (sampleImport 4096 4096 (by decide) (by decide))) = some (none, a') ∧
    ¬ Unchanged sampleArena a' := by
  have hrun : (raAlloc sampleArena misfitRequest.size misfitRequest.flags misfitRequest.alignment
      (some (sampleImport 4096 4096 (by decide) (by decide)))).map
        (fun r => (r.1, (outstanding r.2.calls).length)) = some (none, 1) := by
    decide +kernel
  obtain ⟨⟨w, a'⟩, h, hr⟩ := Option.map_eq_some_iff.mp hrun
  obtain ⟨rfl, hlen⟩ := Prod.mk.inj hr
  refine ⟨sampleArena_reached, a', h, fun hu => ?_⟩
  have himp : outstanding a'.calls = [] := hu.imports
  simp [himp] at hlen

end PvrServices.Arenas
