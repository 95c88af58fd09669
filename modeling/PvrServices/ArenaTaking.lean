import PvrServices.ArenaFreeing

set_option autoImplicit false

/-!
# Taking a segment

`alloc_from_bt` on the list of segments: at most two cuts, each of which needs a boundary tag,
and a bucket of the hash table for what is left in between.
-/
namespace PvrServices.Arenas
open Words HashTable LinkedRing

def rear (s : Seg) (n q : ℕ) : Seg :=
  ⟨⟨.free, u32 (s.base + n), u32Sub s.size n, s.mapping⟩, q⟩

/-- What lies in front of `start`, and what is cut off there. -/
def cutFront (s : Seg) (start q : ℕ) : List Seg × Seg :=
  if start > s.base then
    ([{ s with type := .free, size := start - s.base }], rear s (start - s.base) q)
  else ([], s)

def cutBack (s : Seg) (size q : ℕ) : Seg × List Seg :=
  if s.size > size then ({ s with size := size }, [rear s size q]) else (s, [])

/-- The memory that a failed `alloc_from_bt` did not get. -/
inductive Refusal where
  | front
  | back
  | bucket
deriving DecidableEq, Repr

/-- The first request for memory of `alloc_from_bt` that the allocator refuses. -/
def refusal (os : Os) (t : Tag) (start size : ℕ) : Option Refusal :=
  let behind := if start > t.base then u32Sub t.size (start - t.base) else t.size
  let front := if start > t.base then 1 else 0
  let back := if behind > size then 1 else 0
  if start > t.base ∧ os.grants os.calls = false then some .front
  else if behind > size ∧ os.grants (os.calls + front) = false then some .back
  else if os.grants (os.calls + front + back) = false then some .bucket
  else none

structure Kept (a a' : RaArena) : Prop where
  quantum : a'.quantum = a.quantum
  importAlloc : a'.importAlloc = a.importAlloc
  grants : a'.os.grants = a.os.grants

/-- The next call that the allocator refuses is the `k`-th one. -/
structure NextRefused (os : Os) (k : ℕ) : Prop where
  le : os.calls ≤ k
  refused : os.grants k = false
  granted : ∀ j, os.calls ≤ j → j < k → os.grants j = true

section
variable {a a' : RaArena} {segs l r : List Seg} {s : Seg} {bins : ℕ → List ℕ} {out : List ℕ}
  {p q n start size : ℕ}

@[simp] theorem rear_ref : (rear s n q).ref = q := rfl

theorem Kept.refl (a : RaArena) : Kept a a := ⟨rfl, rfl, rfl⟩

theorem Kept.trans {b c : RaArena} (h : Kept a b) (k : Kept b c) : Kept a c :=
  ⟨k.quantum.trans h.quantum, k.importAlloc.trans h.importAlloc, k.grants.trans h.grants⟩

theorem Kept.of_rest (h : rest a' = rest a) : Kept a a' :=
  ⟨(congrArg RaArena.quantum h :), (congrArg RaArena.importAlloc h :),
    (congrArg (fun x => x.os.grants) h :)⟩

theorem rest_calls {c : List Call} (h : rest a' = { rest a with calls := c }) :
    Kept a a' ∧ a'.os = a.os ∧ a'.calls = c :=
  ⟨⟨(congrArg RaArena.quantum h :), (congrArg RaArena.importAlloc h :),
    (congrArg (fun x => x.os.grants) h :)⟩, (congrArg RaArena.os h :),
    (congrArg RaArena.calls h :)⟩

theorem calls_of_rest (h : rest a' = rest a) : a'.calls = a.calls :=
  (congrArg RaArena.calls h :)

theorem os_of_rest (h : rest a' = rest a) : a'.os = a.os := (congrArg RaArena.os h :)

def tagGranted (a : RaArena) : RaArena :=
  { a with os := { a.os with calls := a.os.calls + 1 }, nextTag := a.nextTag + 1 }

def tagRefused (a : RaArena) : RaArena := { a with os := { a.os with calls := a.os.calls + 1 } }

theorem osAllocTag_eq : osAllocTag a =
    if a.os.grants a.os.calls then (some a.nextTag, tagGranted a) else (none, tagRefused a) := by
  unfold osAllocTag osAllocMem
  cases a.os.grants a.os.calls <;> rfl

theorem Linked.granted (v : Linked a segs bins out) : Linked (tagGranted a) segs bins out :=
  v.of_eq rfl rfl rfl rfl rfl (Nat.le_succ _)

theorem Linked.refused (v : Linked a segs bins out) : Linked (tagRefused a) segs bins out :=
  v.of_eq rfl rfl rfl rfl rfl le_rfl

theorem segmentSplit_refused (h : a.os.grants a.os.calls = false) :
    segmentSplit a p n = (none, tagRefused a) := by
  unfold segmentSplit
  rw [osAllocTag_eq, h]
  rfl

theorem segmentSplit_linked (v : Linked a (l ++ s :: r) bins out) (ho : s.ref ∈ out) (n : ℕ)
    (h : a.os.grants a.os.calls = true) :
    ∃ a', segmentSplit a s.ref n = (some a.nextTag, a') ∧
      Linked a' (l ++ { s with size := n } :: rear s n a.nextTag :: r) bins (a.nextTag :: out) ∧
      rest a' = rest (tagGranted a) := by
  have hlt : ∀ t ∈ l ++ s :: r, t.ref ≠ a.nextTag := fun t ht => (v.listed.lt t ht).ne
  have v₁ := v.granted.hold hlt
  have w : Splice (tagGranted a) (l ++ s :: r) (a.nextTag :: out) a.nextTag :=
    ⟨v.listed.nextTag_pos.ne', Nat.lt_succ_self _, hlt, Or.inl (by simp)⟩
  obtain ⟨v₂, hw⟩ := segmentListInsertAfter_linked v₁ w
  set b := segmentListInsertAfter (tagGranted a) s.ref a.nextTag with hb
  have hs₂ : s ∈ l ++ s :: seg (tagGranted a) a.nextTag :: r := by simp
  have hc : l ++ s :: seg (tagGranted a) a.nextTag :: r =
      (l ++ [s]) ++ seg (tagGranted a) a.nextTag :: r := by simp
  have v₃ := Linked.modify_out (s := seg (tagGranted a) a.nextTag) (t := rear s n a.nextTag)
    (hc ▸ v₂) List.mem_cons_self (f := fun t => { t with
      type := .free
      size := u32Sub (b.tags s.ref).size n
      base := u32 ((b.tags s.ref).base + n)
      mapping := (b.tags s.ref).mapping }) ?_ rfl fun _ => ⟨rfl, rfl, rfl, rfl⟩
  · have v₄ := Linked.modify_out (s := s) (l := l) (r := rear s n a.nextTag :: r)
      (t := { s with size := n }) (by simpa using v₃) (by simp [ho])
      (f := fun t => { t with size := n }) ?_ rfl fun _ => ⟨rfl, rfl, rfl, rfl⟩
    · refine ⟨_, ?_, v₄, hw.rest_eq⟩
      unfold segmentSplit
      rw [osAllocTag_eq, h, if_pos rfl]
      rfl
    · have hs₃ : s ∈ (l ++ [s]) ++ rear s n a.nextTag :: r := by simp
      have ht := v₃.listed.tag hs₃
      exact congrArg (fun t : Tag => { t with size := n }) ht
  · rw [v₂.listed.size hs₂, v₂.listed.base hs₂, v₂.listed.mapping hs₂]
    rfl

theorem Kept.granted (a : RaArena) : Kept a (tagGranted a) := ⟨rfl, rfl, rfl⟩

theorem Kept.refused (a : RaArena) : Kept a (tagRefused a) := ⟨rfl, rfl, rfl⟩

theorem eta_free (h : s.type = .free) : { s with type := .free } = s := by
  rw [← h]

theorem frontSplit_linked (v : Linked a (l ++ s :: r) bins [s.ref]) (hf : s.type = .free)
    (start : ℕ) :
    (start > s.base ∧ a.os.grants a.os.calls = false ∧ ∃ a' bins',
      frontSplit a s.ref start = (none, a') ∧ Linked a' (l ++ s :: r) bins' [] ∧
      rest a' = rest (tagRefused a)) ∨
    ((start > s.base → a.os.grants a.os.calls = true) ∧ ∃ a' bins' q,
      frontSplit a s.ref start = (some (cutFront s start q).2.ref, a') ∧
      Linked a' (l ++ (cutFront s start q).1 ++ (cutFront s start q).2 :: r) bins'
        [(cutFront s start q).2.ref] ∧
      rest a' = rest (if start > s.base then tagGranted a else a)) := by
  have hs : s ∈ l ++ s :: r := by simp
  have hbase := v.listed.base hs
  by_cases hst : start > s.base
  · cases hg : a.os.grants a.os.calls with
    | false =>
      left
      obtain ⟨bins', v'⟩ := freeListInsert_linked v.refused (by simp)
      rw [eta_free hf] at v'
      refine ⟨hst, rfl, _, bins', ?_, v', rest_freeListInsert⟩
      unfold frontSplit
      rw [hbase, if_pos hst, segmentSplit_refused hg]
    | true =>
      right
      obtain ⟨b, hb, v₁, hr⟩ := segmentSplit_linked v (by simp) (start - s.base) hg
      have hne : s.ref ≠ a.nextTag := (v.listed.lt s hs).ne
      -- the front part goes into its bin, the rear stays in hand
      have v₂ : Linked b (l ++ { s with size := start - s.base } ::
          rear s (start - s.base) a.nextTag :: r) bins ([s.ref] ++ [a.nextTag]) := by
        refine ⟨v₁.listed, ⟨v₁.binned.linked, fun i p => ?_⟩, ⟨v₁.hashed.homed, fun i p => ?_⟩⟩
        · rw [v₁.binned.mem]
          simp [and_comm]
        · rw [v₁.hashed.mem]
          simp [and_comm]
      obtain ⟨bins', v₃⟩ := freeListInsert_linked
        (s := { s with size := start - s.base }) v₂ (by simpa using hne)
      refine ⟨fun _ => rfl, freeListInsert b s.ref, bins', a.nextTag, ?_, ?_, ?_⟩
      · unfold frontSplit
        rw [hbase, if_pos hst, hb]
        simp [cutFront, hst, rear]
      · simpa [cutFront, hst, rear] using v₃
      · rw [rest_freeListInsert, hr, if_pos hst]
  · right
    refine ⟨fun h => absurd h hst, a, bins, 0, ?_, ?_, ?_⟩
    · unfold frontSplit
      rw [hbase, if_neg hst]
      simp [cutFront, hst]
    · simpa [cutFront, hst] using v
    · rw [if_neg hst]

theorem backSplit_linked (v : Linked a (l ++ s :: r) bins [s.ref]) (hf : s.type = .free)
    (size : ℕ) :
    (s.size > size ∧ a.os.grants a.os.calls = false ∧ ∃ a' bins',
      backSplit a s.ref size = (false, a') ∧ Linked a' (l ++ s :: r) bins' [] ∧
      rest a' = rest (tagRefused a)) ∨
    ((s.size > size → a.os.grants a.os.calls = true) ∧ ∃ a' bins' q,
      backSplit a s.ref size = (true, a') ∧
      Linked a' (l ++ (cutBack s size q).1 :: ((cutBack s size q).2 ++ r)) bins' [s.ref] ∧
      rest a' = rest (if s.size > size then tagGranted a else a)) := by
  have hs : s ∈ l ++ s :: r := by simp
  have hsize := v.listed.size hs
  by_cases hst : s.size > size
  · cases hg : a.os.grants a.os.calls with
    | false =>
      left
      obtain ⟨bins', v'⟩ := freeListInsert_linked v.refused (by simp)
      rw [eta_free hf] at v'
      refine ⟨hst, rfl, _, bins', ?_, v', rest_freeListInsert⟩
      unfold backSplit
      rw [hsize, if_pos hst, segmentSplit_refused hg]
    | true =>
      right
      obtain ⟨b, hb, v₁, hr⟩ := segmentSplit_linked v (by simp) size hg
      have hne : a.nextTag ≠ s.ref := (v.listed.lt s hs).ne'
      have v₁' : Linked b ((l ++ [{ s with size := size }]) ++ rear s size a.nextTag :: r) bins
          ((rear s size a.nextTag).ref :: [s.ref]) := by simpa using v₁
      obtain ⟨bins', v₂⟩ := freeListInsert_linked v₁' (by simpa using hne)
      refine ⟨fun _ => rfl, freeListInsert b a.nextTag, bins', a.nextTag, ?_, ?_, ?_⟩
      · unfold backSplit
        rw [hsize, if_pos hst, hb]
      · have he : { rear s size a.nextTag with type := .free } = rear s size a.nextTag := rfl
        rw [he] at v₂
        simpa [cutBack, hst] using v₂
      · rw [rest_freeListInsert, hr, if_pos hst]
  · right
    refine ⟨fun h => absurd h hst, a, bins, 0, ?_, ?_, ?_⟩
    · unfold backSplit
      rw [hsize, if_neg hst]
    · simpa [cutBack, hst] using v
    · rw [if_neg hst]

theorem cutBack_ref (s : Seg) (size q : ℕ) : (cutBack s size q).1.ref = s.ref := by
  unfold cutBack
  split <;> rfl

theorem cutFront_type (hf : s.type = .free) (start q : ℕ) : (cutFront s start q).2.type = .free := by
  unfold cutFront
  split
  · rfl
  · exact hf

/-- A segment in hand goes live if the hash table takes it, and is given back if not. -/
theorem enterLive_linked (v : Linked a (l ++ s :: r) bins [s.ref]) :
    (a.os.grants a.os.calls = false ∧ ∃ a' bins',
      enterLive a s.ref = (none, a') ∧
      Linked a' (release l { s with type := .live } r).1 bins' [] ∧ Kept a a' ∧
      a'.os.calls = a.os.calls + 1 ∧
      a'.calls = a.calls ++ handBack (release l { s with type := .live } r).2) ∨
    (a.os.grants a.os.calls = true ∧ ∃ a' bins',
      enterLive a s.ref = (some (s.mapping, s.base), a') ∧
      Linked a' (l ++ { s with type := .live } :: r) bins' [] ∧ Kept a a' ∧
      a'.calls = a.calls) := by
  have hs : s ∈ l ++ s :: r := by simp
  have v₁ := v.modify_out (by simp) (f := fun t => { t with type := .live })
    (t := { s with type := .live })
    (congrArg (fun t : Tag => { t with type := .live }) (v.listed.tag hs)) rfl
    fun _ => ⟨rfl, rfl, rfl, rfl⟩
  have hs₁ : ({ s with type := .live } : Seg) ∈ l ++ { s with type := .live } :: r := by simp
  have hbase : ((modifyTag a s.ref fun t => { t with type := .live }).tags s.ref).base = s.base :=
    (v₁.listed.base hs₁ :)
  have hmap : ((modifyTag a s.ref fun t => { t with type := .live }).tags s.ref).mapping =
      s.mapping := (v₁.listed.mapping hs₁ :)
  have hfresh : (s.base, s.ref) ∉ a.segmentHash.entries := by
    intro hm
    obtain ⟨-, -, -, ho, -⟩ := (v.hashed.mem _ _).mp hm
    exact ho (by simp)
  have hhash : (modifyTag a s.ref fun t => { t with type := .live }).segmentHash =
      a.segmentHash := rfl
  have hos : (modifyTag a s.ref fun t => { t with type := .live }).os = a.os := rfl
  have hk : Kept a (modifyTag a s.ref fun t => { t with type := .live }) := ⟨rfl, rfl, rfl⟩
  have hc : (modifyTag a s.ref fun t => { t with type := .live }).calls = a.calls := rfl
  unfold enterLive
  generalize modifyTag a s.ref (fun t => { t with type := .live }) = b at *
  dsimp only
  rw [hbase, hos, hhash]
  rcases hr : hashInsertExtended hashBase a.os a.segmentHash s.base s.ref with ⟨ok, h', os'⟩
  obtain ⟨hg, hok, hfalse, htrue⟩ := v.hashed.homed.insert hfresh hr
  have hkept : Kept a { b with segmentHash := h', os := os' } := ⟨hk.quantum, hk.importAlloc, hg⟩
  cases ok with
  | false =>
    left
    obtain ⟨rfl, hos'⟩ := hfalse rfl
    have v₂ : Linked { b with segmentHash := a.segmentHash, os := os' }
        (l ++ { s with type := .live } :: r) bins [s.ref] :=
      v₁.of_eq rfl rfl rfl rfl hhash.symm le_rfl
    obtain ⟨bins', v₃, hrest⟩ := freeBt_linked v₂ false
    obtain ⟨hk', ho', hc'⟩ := rest_calls hrest
    refine ⟨hok.symm, _, bins', rfl, v₃, hkept.trans hk', ?_, ?_⟩
    · rw [ho']
      exact congrArg Os.calls hos'
    · rw [hc', Bool.and_false, backingCalls, cond_false, List.nil_append]
      exact congrArg (· ++ _) hc
  | true =>
    right
    obtain ⟨hw, hmem⟩ := htrue rfl
    refine ⟨hok.symm, _, bins, by rw [hmap], ?_, hkept, hc⟩
    have hb := v₁.binned
    refine ⟨v₁.listed.congr (fun _ _ => rfl) (fun _ _ => rfl) (fun _ _ => rfl) le_rfl,
      ⟨hb.linked, fun i p => ?_⟩, ⟨hw, fun x p => ?_⟩⟩
    · rw [hb.mem]
      constructor
      · rintro ⟨t, ht, rfl, -, h⟩
        exact ⟨t, ht, rfl, by simp, h⟩
      · rintro ⟨t, ht, rfl, -, h⟩
        refine ⟨t, ht, rfl, ?_, h⟩
        intro hts
        have he := v₁.listed.ref_inj ht hs₁ (by simpa using hts)
        rw [he] at h
        cases h.1
    · rw [hmem, ← hhash, v₁.hashed.mem]
      constructor
      · rintro (h | ⟨t, ht, rfl, -, h⟩)
        · rw [Prod.mk.injEq] at h
          exact ⟨_, hs₁, h.2.symm, by simp, rfl, h.1.symm⟩
        · exact ⟨t, ht, rfl, by simp, h⟩
      · rintro ⟨t, ht, rfl, -, htl, rfl⟩
        by_cases hts : t.ref = s.ref
        · left
          rw [v₁.listed.ref_inj ht hs₁ hts]
        · exact Or.inr ⟨t, ht, rfl, by simpa using hts, htl, rfl⟩

/-- The segments that `alloc_from_bt` puts in the place of `s`, `m` being the one to go live. -/
structure Cut (s : Seg) (start size : ℕ) (f : List Seg) (m : Seg) (b : List Seg) : Prop where
  cut : ∃ q q', f = (cutFront s start q).1 ∧
    (m, b) = cutBack (cutFront s start q).2 size q'

theorem allocFromBt_linked (v : Linked a (l ++ s :: r) bins []) (hf : s.type = .free)
    (start size : ℕ) :
    ∃ a' bins', Kept a a' ∧
      (refusal a.os s.toTag start size ≠ none → ∃ k, NextRefused a.os k ∧ a'.os.calls = k + 1) ∧
      match refusal a.os s.toTag start size with
      | some .front =>
        allocFromBt a s.ref start size = (none, a') ∧ Linked a' (l ++ s :: r) bins' [] ∧
          a'.calls = a.calls ∧ start > s.base
      | some .back => ∃ q, allocFromBt a s.ref start size = (none, a') ∧
          Linked a' (l ++ (cutFront s start q).1 ++ (cutFront s start q).2 :: r) bins' [] ∧
          a'.calls = a.calls
      | some .bucket => ∃ f m b, Cut s start size f m b ∧
          allocFromBt a s.ref start size = (none, a') ∧
          Linked a' (release (l ++ f) { m with type := .live } (b ++ r)).1 bins' [] ∧
          a'.calls = a.calls ++ handBack (release (l ++ f) { m with type := .live } (b ++ r)).2
      | none => ∃ f m b, Cut s start size f m b ∧
          allocFromBt a s.ref start size = (some (m.mapping, m.base), a') ∧
          Linked a' (l ++ f ++ { m with type := .live } :: (b ++ r)) bins' [] ∧
          a'.calls = a.calls := by
  obtain ⟨bins₁, v₁⟩ := freeListRemove_linked v (by simp) hf (by simp)
  have hr₁ := rest_freeListRemove (a := a) (p := s.ref)
  have hos₁ := os_of_rest hr₁
  have hkept₁ := Kept.of_rest hr₁
  have hcalls₁ := calls_of_rest hr₁
  unfold allocFromBt refusal
  generalize freeListRemove a s.ref = a₁ at v₁ hos₁ hkept₁ hcalls₁ ⊢
  dsimp only
  rcases frontSplit_linked v₁ hf start with
    ⟨hst, hg, a₂, bins₂, he, v₂, hr₂⟩ | ⟨hg, a₂, bins₂, q, he, v₂, hr₂⟩
  · rw [hos₁] at hg
    refine ⟨a₂, bins₂, hkept₁.trans ((Kept.refused a₁).trans (.of_rest hr₂)), ?_⟩
    have hcall : a₂.os.calls = a.os.calls + 1 := by
      rw [os_of_rest hr₂, ← hos₁]
      rfl
    rw [if_pos ⟨hst, hg⟩, he]
    exact ⟨fun _ => ⟨_, ⟨le_rfl, hg, fun j _ _ => by omega⟩, hcall⟩, rfl, v₂, (calls_of_rest hr₂).trans hcalls₁, hst⟩
  have hbehind : (cutFront s start q).2.size =
      if start > s.base then u32Sub s.size (start - s.base) else s.size := by
    unfold cutFront
    split <;> rfl
  have hk₂ : Kept a₁ a₂ := by
    refine Kept.trans ?_ (.of_rest hr₂)
    split
    · exact .granted a₁
    · exact .refl a₁
  have hcalls₂ : a₂.calls = a₁.calls := by
    rw [calls_of_rest hr₂]
    split <;> rfl
  have hos₂ : a₂.os.calls = a.os.calls + if start > s.base then 1 else 0 := by
    rw [os_of_rest hr₂, ← hos₁]
    split <;> rfl
  have hgrants₂ : a₂.os.grants = a.os.grants := (hkept₁.trans hk₂).grants
  -- a call has been made only if there was something to cut
  have hgranted : ∀ j, a.os.calls ≤ j → j < a.os.calls + (if start > s.base then 1 else 0) →
      a.os.grants j = true := by
    intro j hj hlt
    split at hlt
    · rename_i hst
      obtain rfl : j = a.os.calls := by omega
      rw [← hos₁]
      exact hg hst
    · omega
  rw [if_neg (fun h => by rw [hos₁] at hg; simp [hg h.1] at h), he, ← hbehind]
  have hf₂ := cutFront_type hf start q
  generalize hcut : cutFront s start q = c at v₂ hbehind hf₂ ⊢
  obtain ⟨f, m⟩ := c
  dsimp only at v₂ hbehind hf₂ ⊢
  rcases backSplit_linked v₂ hf₂ size with
    ⟨hst, hg', a₃, bins₃, he', v₃, hr₃⟩ | ⟨hg', a₃, bins₃, q', he', v₃, hr₃⟩
  · rw [hgrants₂, hos₂] at hg'
    refine ⟨a₃, bins₃, hkept₁.trans (hk₂.trans ((Kept.refused a₂).trans (.of_rest hr₃))), ?_⟩
    have hcall : a₃.os.calls = a₂.os.calls + 1 := by
      rw [os_of_rest hr₃]
      rfl
    rw [if_pos ⟨hst, hg'⟩, he']
    exact ⟨fun _ => ⟨_, ⟨Nat.le_add_right _ _, hg', hgranted⟩, by omega⟩, q, rfl, by rw [hcut]; exact v₃, (calls_of_rest hr₃).trans (hcalls₂.trans hcalls₁)⟩
  have hk₃ : Kept a₂ a₃ := by
    refine Kept.trans ?_ (.of_rest hr₃)
    split
    · exact .granted a₂
    · exact .refl a₂
  have hcalls₃ : a₃.calls = a₂.calls := by
    rw [calls_of_rest hr₃]
    split <;> rfl
  have hos₃ : a₃.os.calls = a₂.os.calls + if m.size > size then 1 else 0 := by
    rw [os_of_rest hr₃]
    split <;> rfl
  have hkept₃ := hkept₁.trans (hk₂.trans hk₃)
  have hgranted₃ : ∀ j, a.os.calls ≤ j → j < a₃.os.calls → a.os.grants j = true := by
    intro j hj hlt
    rcases Nat.lt_or_ge j a₂.os.calls with h | h
    · exact hgranted j hj (hos₂ ▸ h)
    · rw [hos₃] at hlt
      split at hlt
      · rename_i hst
        obtain rfl : j = a₂.os.calls := by omega
        rw [← hgrants₂]
        exact hg' hst
      · omega
  rw [if_neg (fun h => by rw [hgrants₂, hos₂] at hg'; simp [hg' h.1] at h), he', ← hos₂, ← hos₃]
  have hmref := cutBack_ref m size q'
  have hc : Cut s start size f (cutBack m size q').1 (cutBack m size q').2 :=
    ⟨q, q', by rw [hcut], by rw [hcut]⟩
  rw [← hmref] at v₃ ⊢
  dsimp only
  rcases enterLive_linked v₃ with
    ⟨hg₄, a₄, bins₄, he₄, v₄, hk₄, hcall₄, hcalls₄⟩ | ⟨hg₄, a₄, bins₄, he₄, v₄, hk₄, hcalls₄⟩
  · rw [hkept₃.grants] at hg₄
    refine ⟨a₄, bins₄, hkept₃.trans hk₄, ?_⟩
    rw [if_pos hg₄]
    exact ⟨fun _ => ⟨_, ⟨by omega, hg₄, hgranted₃⟩, by omega⟩, f, _, _, hc, he₄, v₄, by rw [hcalls₄, hcalls₃, hcalls₂, hcalls₁]⟩
  · rw [hkept₃.grants] at hg₄
    refine ⟨a₄, bins₄, hkept₃.trans hk₄, ?_⟩
    rw [if_neg (by simp [hg₄])]
    exact ⟨fun h => absurd rfl h, f, _, _, hc, he₄, v₄, by rw [hcalls₄, hcalls₃, hcalls₂, hcalls₁]⟩

end
end PvrServices.Arenas
