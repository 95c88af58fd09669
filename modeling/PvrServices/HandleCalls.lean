import PvrServices.HandleAlloc

set_option autoImplicit false

/-! # The calls that allocate and release single handles -/
namespace PvrServices.Handles
open Words HashTable LinkedRing

section
variable {b b' : HandleBase} {g g' : Ghost}

theorem Inv.withFailures (v : Inv b g) (n : ℕ) (hn : n < 4294967296) :
    Inv { b with batchHandAllocFailures := n } g where
  toShape := v.toShape.congr rfl rfl rfl rfl rfl rfl rfl
  hashed := v.hashed
  batch := v.batch.of_entries rfl rfl rfl rfl (fun _ h => h)
  failures_lt := hn
  notLost := v.notLost

theorem addBatchFailure_eq (b : HandleBase) : addBatchFailure b = { b with
    batchHandAllocFailures := if handlesBatched b then u32 (b.batchHandAllocFailures + 1)
      else b.batchHandAllocFailures } := by
  unfold addBatchFailure
  split <;> rfl

theorem dropBatchFailure_eq (b : HandleBase) : dropBatchFailure b = { b with
    batchHandAllocFailures := if handlesBatched b then u32Sub b.batchHandAllocFailures 1
      else b.batchHandAllocFailures } := by
  unfold dropBatchFailure
  split <;> rfl

theorem Inv.addBatchFailure (v : Inv b g) : Inv (addBatchFailure b) g := by
  rw [addBatchFailure_eq]
  refine v.withFailures _ ?_
  split
  · exact u32_lt _
  · exact v.failures_lt

theorem u32Sub_u32_succ {n : ℕ} (h : n < 4294967296) : u32Sub (u32 (n + 1)) 1 = n := by
  rcases Nat.lt_or_ge (n + 1) 4294967296 with h' | h'
  · rw [u32_of_lt h', u32Sub_of_le (by omega)]
    omega
  · obtain rfl : n = 4294967295 := by omega
    rw [u32_eq_mod]
    exact u32Sub_zero_one

theorem dropBatchFailure_failures (hb : b'.handBatchSize = b.handBatchSize)
    (hf : b'.batchHandAllocFailures = (Handles.addBatchFailure b).batchHandAllocFailures)
    (hlt : b.batchHandAllocFailures < 4294967296) :
    (dropBatchFailure b').batchHandAllocFailures = b.batchHandAllocFailures := by
  rw [dropBatchFailure_eq, hf, addBatchFailure_eq]
  simp only [handlesBatched, hb]
  by_cases h : (b.handBatchSize != 0) = true
  · simp only [h, ↓reduceIte]
    exact u32Sub_u32_succ hlt
  · simp only [h, Bool.false_eq_true, ↓reduceIte]

theorem Allocated.hashed {p : ℕ} {e : Entry} {k : List ℕ} (a : Allocated b g p e k b' g')
    (hh : Hashed b.hashTab (entries b g))
    (hfree : e.flag.multi = false → b.hashTab.lookup hashFuncDefault k = none)
    (e' : Entry) (hflag : e'.flag = e.flag) (hkey : e'.key = k) {m : ℕ → Option Entry}
    (hm : ∀ i, m i = if i = p then some e' else entries b g i) : Hashed b'.hashTab m := by
  have hnone : entries b g p = none :=
    entries_eq_none_iff.mpr (fun h => a.fresh h.busy)
  have hold : ∀ i e₀, i ≠ p → (m i = some e₀ ↔ entries b g i = some e₀) := by
    intro i e₀ hi
    rw [hm, if_neg hi]
  rcases a.hashTab with ⟨hmulti, ht⟩ | ⟨hmulti, os, os', hr⟩
  · rw [ht]
    refine ⟨hh.wf, fun k' v => (hh.lookup k' v).trans ?_⟩
    refine exists_congr (fun i => exists_congr (fun e₀ => ?_))
    by_cases hi : i = p
    · subst hi
      rw [hnone, hm, if_pos rfl]
      simp only [reduceCtorEq, false_and, Option.some.injEq, false_iff, not_and]
      rintro rfl h
      rw [hflag, hmulti] at h
      simp at h
    · rw [hold i e₀ hi]
  · obtain ⟨-, -, hw, hl⟩ := hh.wf.insert (hfree hmulti) hr
    refine ⟨hw, fun k' v => ?_⟩
    rw [hl, if_pos rfl]
    by_cases hk : k' = k
    · subst hk
      rw [Function.update_self]
      have hno := (hh.lookup k' v).not.mp (by rw [hfree hmulti]; simp)
      constructor
      · intro h
        exact ⟨p, e', by rw [hm, if_pos rfl], by rw [hflag, hmulti], hkey, (Option.some.inj h).symm⟩
      · rintro ⟨i, e₀, hi, hmul, hke, hv⟩
        by_cases hip : i = p
        · rw [hv, hip]
        · exact absurd ⟨i, e₀, (hold i e₀ hip).mp hi, hmul, hke, hv⟩ hno
    · rw [Function.update_of_ne hk, hh.lookup]
      refine exists_congr (fun i => exists_congr (fun e₀ => ?_))
      by_cases hi : i = p
      · subst hi
        rw [hnone, hm, if_pos rfl]
        simp only [reduceCtorEq, false_and, Option.some.injEq, false_iff, not_and]
        rintro rfl - h
        exact absurd (h.symm.trans hkey) hk
      · rw [hold i e₀ hi]

theorem Shape.relink (s : Shape b g) (h : LinkOnly b b') {kids : ℕ → List ℕ}
    {par : ℕ → Option ℕ} (L : Links (getList b') (Busy b g) kids par)
    (older : ∀ k p, Busy b g k → par k = some p → g.rank p < g.rank k)
    (dead : ∀ i ∈ g.batch, (b.handleArray i).type = .none → kids i = [] ∧ par i = none) :
    Shape b' { g with kids := kids, par := par } := by
  obtain ⟨c, l, rfl⟩ := h
  have k := s.core
  refine ⟨⟨k.total_le, k.max_le, L, older, k.rank_lt, k.batch_lt, k.batch_next,
    k.batch_sorted, k.batch_flag, dead, k.plain⟩, ⟨s.pool.nodup, s.pool.mem, s.pool.count⟩,
    fun hp => ?_, fun hp hl => ?_⟩
  · exact (s.chain hp).congr rfl rfl (fun _ _ => rfl)
  · exact ⟨(s.scan hp hl).clean, (s.scan hp hl).first⟩

/-- The new handle `p` becomes the youngest child of `q`. -/
def Ghost.adopted (g : Ghost) (q p : ℕ) : Ghost :=
  { g with
    kids := Function.update g.kids q (g.kids q ++ [p])
    par := Function.update g.par p (some q) }

theorem Allocated.adopt {p q : ℕ} {e : Entry} {k : List ℕ} (a : Allocated b g p e k b' g')
    (hq : Live b' q) (hp : Live b' p) (hqp : q ≠ p) :
    Shape (adoptChild b' q p) (g'.adopted q p) ∧
      BatchOpen (adoptChild b' q p) (g'.adopted q p) ∧ LinkOnly b' (adoptChild b' q p) ∧
      ∀ i, entries (adoptChild b' q p) (g'.adopted q p) i =
        if i = p then some { e with parent := some q } else entries b g i := by
  have c := a.shape.core
  have hlink := linkOnly_adoptChild b' q p
  have L := c.links.adopt hq.busy hp.busy a.root (Ne.symm hqp)
  have s := a.shape.relink hlink L (by
    intro x y hx hy
    by_cases hxp : x = p
    · subst hxp
      rw [Function.update_self] at hy
      obtain rfl := Option.some.inj hy
      exact a.newest q hq.busy hqp
    · rw [Function.update_of_ne hxp] at hy
      exact c.older x y hx hy) (by
    intro i hi ht
    have hiq : i ≠ q := by
      rintro rfl
      exact hq.2 ht
    have hip : i ≠ p := by
      rintro rfl
      exact hp.2 ht
    rw [Function.update_of_ne hiq, Function.update_of_ne hip]
    exact c.dead i hi ht)
  refine ⟨s, ?_, hlink, ?_⟩
  · obtain ⟨cc, ss, he⟩ := hlink
    rw [he]
    exact a.batch.of_entries rfl rfl rfl rfl (fun _ h => h)
  · intro i
    obtain ⟨cc, ss, he⟩ := hlink
    rw [he]
    have hi := a.content i
    have hlive : Live { b' with handleArray := fun j =>
        { b'.handleArray j with children := cc j, siblings := ss j } } i ↔ Live b' i := Iff.rfl
    by_cases hip : i = p
    · subst hip
      rw [if_pos rfl] at hi ⊢
      obtain ⟨hl, h₁, h₂, h₃, -, h₅⟩ := entries_eq_some_iff.mp hi
      exact entries_eq_some_iff.mpr ⟨hl, h₁, h₂, h₃, (Function.update_self i _ g'.par).symm, h₅⟩
    · rw [if_neg hip] at hi ⊢
      rw [← hi]
      by_cases hl : Live b' i
      · rw [entries, if_pos (hlive.mpr hl), entries, if_pos hl]
        simp only [Ghost.adopted, Function.update_of_ne hip]
        rfl
      · rw [entries_eq_none_iff.mpr hl, entries_eq_none_iff, hlive]
        exact hl

/-- What an allocation for `e` returns and does to the finite map. -/
inductive AllocOutcome (b : HandleBase) (g : Ghost) (e : Entry) (m : ℕ → Option Entry) :
    PvrsrvError → ℕ → Prop where
  | failed {err : PvrsrvError} (herr : err ≠ .ok) (same : ∀ i, m i = entries b g i) :
      AllocOutcome b g e m err 0
  | shared {i : ℕ} {e₀ : Entry} (he : entries b g i = some e₀) (data : e₀.data = e.data)
      (type : e₀.type = e.type) (old : e₀.flag.shared = true) (new : e.flag.shared = true)
      (parent : e.parent.isSome = true → e₀.parent = e.parent) (same : ∀ i, m i = entries b g i) :
      AllocOutcome b g e m .ok (i + 1)
  | fresh {i : ℕ} (hi : ¬ Busy b g i) (upd : ∀ j, m j = if j = i then some e else entries b g j) :
      AllocOutcome b g e m .ok (i + 1)

structure AllocCall (b : HandleBase) (g : Ghost) (e : Entry) (err : PvrsrvError) (h : ℕ)
    (b' : HandleBase) (g' : Ghost) : Prop where
  inv : Inv b' g'
  outcome : AllocOutcome b g e (entries b' g') err h
  handBatchSize : b'.handBatchSize = b.handBatchSize
  purgingEnabled : b'.purgingEnabled = b.purgingEnabled
  failures : b'.batchHandAllocFailures =
    if err = .ok then b.batchHandAllocFailures else (addBatchFailure b).batchHandAllocFailures

theorem addBatchFailure_same (b : HandleBase) (g : Ghost) :
    entries (addBatchFailure b) g = entries b g ∧
      handlesBatched (addBatchFailure b) = handlesBatched b ∧
      (addBatchFailure b).handBatchSize = b.handBatchSize ∧
      (addBatchFailure b).purgingEnabled = b.purgingEnabled := by
  rw [addBatchFailure_eq]
  exact ⟨entries_congr rfl rfl, rfl, rfl, rfl⟩

theorem AllocFailed.call (a : AllocFailed (addBatchFailure b) g b' g') (v : Inv b g) (e : Entry)
    {err : PvrsrvError} (herr : err ≠ .ok) : AllocCall b g e err 0 b' g' := by
  obtain ⟨hent, -, hs, hp⟩ := addBatchFailure_same b g
  have hcont : ∀ i, entries b' g' i = entries b g i := fun i => by rw [a.content, hent]
  refine ⟨⟨⟨a.shape, ?_⟩, a.batch, ?_, a.lost.trans v.notLost⟩, .failed herr hcont,
    a.frame.handBatchSize.trans hs, a.frame.purgingEnabled.trans hp, ?_⟩
  · rw [a.hashTab, show entries b' g' = entries b g from funext hcont, addBatchFailure_eq]
    exact v.hashed
  · rw [a.frame.batchHandAllocFailures]
    exact v.addBatchFailure.failures_lt
  · rw [if_neg herr, a.frame.batchHandAllocFailures]

theorem Inv.refused (v : Inv b g) (e : Entry) {err : PvrsrvError} (herr : err ≠ .ok) :
    AllocCall b g e err 0 (Handles.addBatchFailure b) g := by
  refine AllocFailed.call ?_ v e herr
  exact ⟨v.addBatchFailure.toShape, v.addBatchFailure.batch, rfl, fun _ => rfl, fun _ _ => rfl, rfl,
    ⟨rfl, rfl, rfl, rfl⟩⟩

theorem Inv.dropped (s : Sound b' g') (o : BatchOpen b' g') (hl : g'.lost = false) (v : Inv b g) {e : Entry} {h : ℕ}
    (hs : b'.handBatchSize = b.handBatchSize) (hp : b'.purgingEnabled = b.purgingEnabled)
    (hf : b'.batchHandAllocFailures = (Handles.addBatchFailure b).batchHandAllocFailures)
    (ho : AllocOutcome b g e (entries b' g') .ok h) :
    AllocCall b g e .ok h (dropBatchFailure b') g' := by
  have hfail := dropBatchFailure_failures hs hf v.failures_lt
  have v' : Inv { b' with batchHandAllocFailures := b.batchHandAllocFailures } g' := {
    toShape := s.toShape.congr rfl rfl rfl rfl rfl rfl rfl
    hashed := s.hashed
    batch := o.of_entries rfl rfl rfl rfl (fun _ h => h)
    failures_lt := v.failures_lt
    notLost := hl }
  have he : dropBatchFailure b' =
      { b' with batchHandAllocFailures := b.batchHandAllocFailures } := by
    rw [← hfail, dropBatchFailure_eq]
  rw [he]
  exact ⟨v', ho, hs, hp, rfl⟩

theorem Inv.found (v : Inv b g) {data : ℕ} {type : HandleType} {parent : ℕ}
    (hf : findHandle b data type parent ≠ 0) :
    ∃ i e₀, findHandle b data type parent = i + 1 ∧ entries b g i = some e₀ ∧
      e₀.data = data ∧ e₀.type = type ∧ e₀.flag.multi = false ∧
      (if e₀.flag.priv then parentWord e₀.parent else 0) = parent ∧
      getHandleStructure b (i + 1) type = .ok i := by
  obtain ⟨i, hi⟩ := Nat.exists_eq_succ_of_ne_zero hf
  obtain ⟨e₀, he, hm, hk⟩ := (findHandle_eq_iff v.hashed data type parent i).mp hi
  obtain ⟨hd, ht, hp⟩ := initKey_inj.mp hk
  refine ⟨i, e₀, hi, he, hd, ht, hm, hp, ?_⟩
  exact (getHandleStructure_eq_ok_iff v.core _ _ _).mpr ⟨rfl, e₀, he, Or.inr ht.symm⟩

/-- A key that the search is not made for, or not found, is not in the table. -/
theorem Hashed.key_free {m : ℕ → Option Entry} (v : Hashed b.hashTab m) {data key : ℕ}
    {type : HandleType} {multi : Bool}
    (hfound : ¬(if multi then 0 else findHandle b data type key) ≠ 0) (hm : multi = false) :
    b.hashTab.lookup hashFuncDefault (initKey data type key) = none := by
  simp only [hm, Bool.false_eq_true, ↓reduceIte, not_not] at hfound
  exact (findHandle_eq_zero_iff v data type key).mp hfound

theorem Inv.pvrsrvAllocHandle (v : Inv b g) (data : ℕ) {type : HandleType} (htype : type ≠ .none)
    (flag : AllocFlag) : ∃ err h b' g', pvrsrvAllocHandle b data type flag = some (err, h, b') ∧
      AllocCall b g ⟨data, type, flag, none, handlesBatched b⟩ err h b' g' := by
  have w := v.addBatchFailure
  obtain ⟨hent, hbat, hs, hp⟩ := addBatchFailure_same b g
  unfold Handles.pvrsrvAllocHandle
  dsimp only
  by_cases hfound : (if flag.multi then 0
      else findHandle (Handles.addBatchFailure b) data type 0) ≠ 0
  · rw [if_pos hfound]
    cases hm : flag.multi with
    | true => simp [hm] at hfound
    | false =>
      simp only [hm, Bool.false_eq_true, ↓reduceIte] at hfound ⊢
      obtain ⟨i, e₀, hf, he, hd, ht, -, -, hget⟩ := w.found hfound
      rw [hf, hget]
      dsimp only
      have hflag := (entries_eq_some_iff.mp he).2.2.2.1
      rw [← hflag]
      rw [hent] at he
      split
      · rename_i hsh
        simp only [Bool.and_eq_true] at hsh
        refine ⟨_, _, _, g, rfl, Inv.dropped w.toSound w.batch v.notLost v hs hp rfl ?_⟩
        exact .shared he hd ht hsh.1 hsh.2 (by simp) (fun i => by rw [hent])
      · exact ⟨_, _, _, g, rfl, v.refused _ (by simp)⟩
  · rw [if_neg hfound]
    have hfree := fun hm : flag.multi = false => w.hashed.key_free hfound hm
    rcases w.toShape.allocHandle w.batch v.notLost data htype flag 0 with
      ⟨err, b', g', he, hne, hf⟩ | ⟨p, b', g', he, ha⟩
    · rw [he]
      refine ⟨err, 0, b', g', ?_, hf.call v _ hne⟩
      cases err <;> first | exact absurd rfl hne | rfl
    · rw [he]
      rw [hbat] at ha
      have hh := ha.hashed w.hashed hfree ⟨data, type, flag, none, handlesBatched b⟩ rfl
        (by simp [Entry.key, parentWord]) ha.content
      refine ⟨.ok, p + 1, _, g', rfl, Inv.dropped ⟨ha.shape, hh⟩ ha.batch (ha.lost.trans v.notLost) v
        (ha.frame.handBatchSize.trans hs) (ha.frame.purgingEnabled.trans hp)
        ha.frame.batchHandAllocFailures ?_⟩
      refine .fresh (fun hb => ha.fresh ?_) (fun j => by rw [ha.content, hent])
      rw [addBatchFailure_eq]
      exact hb

theorem Inv.pvrsrvAllocSubHandle (v : Inv b g) (data : ℕ) {type : HandleType}
    (htype : type ≠ .none) (flag : AllocFlag) (parent : ℕ) :
    ∃ err h b' g', pvrsrvAllocSubHandle b data type flag parent = some (err, h, b') ∧
      AllocCall b g ⟨data, type, flag, some (handleToIndex parent), handlesBatched b⟩ err h b' g' ∧
      (err = .ok → ∃ q e, parent = q + 1 ∧ entries b g q = some e) := by
  have w := v.addBatchFailure
  obtain ⟨hent, hbat, hs, hp⟩ := addBatchFailure_same b g
  unfold Handles.pvrsrvAllocSubHandle
  dsimp only
  cases hget : getHandleStructure (Handles.addBatchFailure b) parent .none with
  | error err => exact ⟨_, _, _, g, rfl, v.refused _ (by simp), by simp⟩
  | ok q =>
    obtain ⟨rfl, eq, heq, -⟩ := (getHandleStructure_eq_ok_iff w.core _ _ _).mp hget
    have heq' : entries b g q = some eq := by rw [← hent, heq]
    have hlq : Live (Handles.addBatchFailure b) q := (entries_eq_some_iff.mp heq).1
    rw [handleToIndex_succ]
    set key := if flag.priv then q + 1 else 0 with hkey
    dsimp only
    by_cases hfound : (if flag.multi then 0
        else findHandle (Handles.addBatchFailure b) data type key) ≠ 0
    · rw [if_pos hfound]
      cases hm : flag.multi with
      | true => simp [hm] at hfound
      | false =>
        simp only [hm, Bool.false_eq_true, ↓reduceIte] at hfound ⊢
        obtain ⟨i, e₀, hf, he, hd, ht, -, -, hgeti⟩ := w.found hfound
        rw [hf, hgeti, handleToIndex_succ]
        dsimp only
        obtain ⟨hli, -, -, hflag, hpar, -⟩ := entries_eq_some_iff.mp he
        rw [← hflag, w.core.parent_word hli.busy, ← hpar]
        rw [hent] at he
        split
        · rename_i hsh
          simp only [Bool.and_eq_true, beq_iff_eq] at hsh
          refine ⟨_, _, _, g, rfl, Inv.dropped w.toSound w.batch v.notLost v hs hp rfl ?_,
            fun _ => ⟨q, eq, rfl, heq'⟩⟩
          refine .shared he hd ht hsh.1.1 hsh.1.2 (fun _ => ?_) (fun i => by rw [hent])
          cases hep : e₀.parent with
          | none => simp [hep, parentWord] at hsh
          | some q' =>
            simp only [hep, parentWord, Nat.add_right_cancel_iff] at hsh
            rw [hsh.2]
        · exact ⟨_, _, _, g, rfl, v.refused _ (by simp), by simp⟩
    · rw [if_neg hfound]
      have hfree := fun hm : flag.multi = false => w.hashed.key_free hfound hm
      rcases w.toShape.allocHandle w.batch v.notLost data htype flag key with
        ⟨err, b', g', he, hne, hf⟩ | ⟨p, b', g', he, ha⟩
      · rw [he]
        refine ⟨err, 0, b', g', ?_, hf.call v _ hne, fun h => absurd h hne⟩
        cases err <;> first | exact absurd rfl hne | rfl
      · rw [he]
        rw [hbat] at ha
        have hqp : q ≠ p := by
          rintro rfl
          exact ha.fresh hlq.busy
        have hcq := ha.content q
        rw [if_neg hqp, heq] at hcq
        have hcp := ha.content p
        rw [if_pos rfl] at hcp
        obtain ⟨s', o', hlink, hcont⟩ := ha.adopt (entries_eq_some_iff.mp hcq).1
          (entries_eq_some_iff.mp hcp).1 hqp
        have hh := ha.hashed w.hashed hfree
          ⟨data, type, flag, some q, handlesBatched b⟩ rfl
          (by
            simp only [Entry.key, parentWord, hkey]) hcont
        simp only [handleToIndex_succ]
        have htab : (adoptChild b' q p).hashTab = b'.hashTab := by
          obtain ⟨cc, ss, hlk⟩ := hlink
          rw [hlk]
        have hfields : (adoptChild b' q p).handBatchSize = b'.handBatchSize ∧
            (adoptChild b' q p).purgingEnabled = b'.purgingEnabled ∧
            (adoptChild b' q p).batchHandAllocFailures = b'.batchHandAllocFailures := by
          obtain ⟨cc, ss, hlk⟩ := hlink
          rw [hlk]
          exact ⟨rfl, rfl, rfl⟩
        rw [← htab] at hh
        refine ⟨.ok, p + 1, _, g'.adopted q p, rfl, Inv.dropped ⟨s', hh⟩ o'
          (ha.lost.trans v.notLost) v
          (hfields.1.trans (ha.frame.handBatchSize.trans hs))
          (hfields.2.1.trans (ha.frame.purgingEnabled.trans hp))
          (hfields.2.2.trans ha.frame.batchHandAllocFailures) ?_, fun _ => ⟨q, eq, rfl, heq'⟩⟩
        refine .fresh (fun hb => ha.fresh ?_) (fun j => by rw [hcont, hent])
        rw [addBatchFailure_eq]
        exact hb

theorem Released.inv {i : ℕ} {D : List ℕ} (v : Inv b g) (r : Released b g i D b' g') :
    Inv b' g' where
  toSound := r.sound
  batch := by
    refine v.batch.of_entries r.base.firstBatchIndexPlusOne r.base.handBatchSize r.batch r.rank ?_
    rintro j ⟨h₁, h₂ | h₂⟩
    · have h := r.content j
      have hl : Live b' j := ⟨h₁, h₂⟩
      by_contra hn
      have hnl : ¬ Live b j := fun h => hn h.busy
      rw [entries_eq_none_iff.mpr hnl, ite_self] at h
      exact entries_eq_none_iff.mp h hl
    · rw [r.batch] at h₂
      exact v.core.batch_busy h₂
  failures_lt := by
    rw [r.base.batchHandAllocFailures]
    exact v.failures_lt
  notLost := r.lost.trans v.notLost

inductive ReleaseCall (b : HandleBase) (g : Ghost) (h : ℕ) (type : HandleType) :
    PvrsrvError → HandleBase → Ghost → Prop where
  | refused (hr : ∀ i, getHandleStructure b h type ≠ .ok i) : ReleaseCall b g h type .errorGeneric b g
  | released {i : ℕ} {D : List ℕ} {b' : HandleBase} {g' : Ghost}
      (hr : getHandleStructure b h type = .ok i) (inv : Inv b' g') (r : Released b g i D b' g') :
      ReleaseCall b g h type .ok b' g'

theorem getHandleStructure_error {b : HandleBase} {h : ℕ} {type : HandleType} {e : PvrsrvError}
    (hr : getHandleStructure b h type = .error e) : e = .errorGeneric := by
  unfold getHandleStructure at hr
  dsimp only at hr
  repeat' split at hr
  all_goals simp_all

theorem Inv.pvrsrvReleaseHandle (v : Inv b g) (h : ℕ) (type : HandleType) :
    ∃ e b' g', pvrsrvReleaseHandle b h type = some (e, b') ∧ ReleaseCall b g h type e b' g' := by
  unfold Handles.pvrsrvReleaseHandle
  cases hget : getHandleStructure b h type with
  | error e =>
    obtain rfl := getHandleStructure_error hget
    exact ⟨_, _, g, rfl, .refused (by simp [hget])⟩
  | ok i =>
    obtain ⟨-, e, he, -⟩ := (getHandleStructure_eq_ok_iff v.core h type i).mp hget
    obtain ⟨D, b', g', hrun, r⟩ := v.toSound.release (entries_eq_some_iff.mp he).1
    exact ⟨_, _, g', hrun, .released hget (r.inv v) r⟩

theorem Inv.pvrsrvLookupAndReleaseHandle (v : Inv b g) (h : ℕ) (type : HandleType) :
    ∃ e d b' g', pvrsrvLookupAndReleaseHandle b h type = some (e, d, b') ∧
      ReleaseCall b g h type e b' g' ∧
      ∀ i, getHandleStructure b h type = .ok i → d = (b.handleArray i).data := by
  unfold Handles.pvrsrvLookupAndReleaseHandle
  cases hget : getHandleStructure b h type with
  | error e =>
    obtain rfl := getHandleStructure_error hget
    exact ⟨_, _, _, g, rfl, .refused (by simp [hget]), by simp⟩
  | ok i =>
    obtain ⟨-, e, he, -⟩ := (getHandleStructure_eq_ok_iff v.core h type i).mp hget
    obtain ⟨D, b', g', hrun, r⟩ := v.toSound.release (entries_eq_some_iff.mp he).1
    dsimp only
    rw [hrun]
    refine ⟨_, _, _, g', rfl, .released hget (r.inv v) r, ?_⟩
    rintro j hj
    obtain rfl : i = j := by simpa using hj
    rfl

end
end PvrServices.Handles
