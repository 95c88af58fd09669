import PvrServices.ArenaSegments

set_option autoImplicit false

/-!
# Giving a segment back

`_FreeBT` on the list of segments: the freed segment takes in its free neighbours, and a
segment that is left between two span markers goes back to the importer with them.
-/
namespace PvrServices.Arenas
open Words HashTable LinkedRing

def Meets (q s : Seg) : Prop := u32 (q.base + q.size) = s.base

instance (q s : Seg) : Decidable (Meets q s) := inferInstanceAs (Decidable (_ = _))

def absorbPrev (l : List Seg) (s : Seg) : List Seg × Seg :=
  match l.getLast? with
  | none => (l, s)
  | some q =>
    if q.type = .free ∧ Meets q s then
      (l.dropLast, { s with base := q.base, size := u32 (s.size + q.size) })
    else (l, s)

def absorbNext (s : Seg) (r : List Seg) : Seg × List Seg :=
  match r with
  | [] => (s, r)
  | n :: r' =>
    if n.type = .free ∧ Meets s n then ({ s with size := u32 (s.size + n.size) }, r') else (s, r)

/-- The segment between its neighbours, and what `pImportFree` is called with if they are both
    span markers. -/
def retire (l : List Seg) (s : Seg) (r : List Seg) : List Seg × Option (ℕ × Option BmMapping) :=
  match l.getLast?, r with
  | some p, n :: r' =>
    if n.type = .span ∧ p.type = .span then (l.dropLast ++ r', some (s.base, s.mapping))
    else (l ++ { s with type := .free } :: r, none)
  | _, _ => (l ++ { s with type := .free } :: r, none)

def release (l : List Seg) (s : Seg) (r : List Seg) : List Seg × Option (ℕ × Option BmMapping) :=
  let p := absorbPrev l s
  let n := absorbNext p.2 r
  retire p.1 n.1 n.2

def handBack : Option (ℕ × Option BmMapping) → List Call
  | none => []
  | some (base, mapping) => [.importFree base mapping]

def IsBacking (c : Call) : Prop := ∃ start stop, c = .backingStoreFree start stop

def merged (l : List Seg) (s : Seg) (r : List Seg) : Seg := (absorbNext (absorbPrev l s).2 r).1

/-- What the backing-store callback is called with when `s` is freed and `t` is what it has become;
    `wanted` tells that there is a callback and that the caller asks for it. -/
def backingCalls (quantum : ℕ) (wanted : Bool) (s t : Tag) : List Call :=
  bif wanted then
    if roundedStart quantum s.base t.base < roundedEnd quantum s.base s.size (u32 (t.base + t.size))
    then [.backingStoreFree (roundedStart quantum s.base t.base)
      (roundedEnd quantum s.base s.size (u32 (t.base + t.size)))]
    else []
  else []

section
variable {a a' : RaArena} {segs l r : List Seg} {s q n : Seg} {bins : ℕ → List ℕ} {out : List ℕ}

@[simp] theorem absorbPrev_nil : absorbPrev [] s = ([], s) := rfl

theorem absorbPrev_concat : absorbPrev (l ++ [q]) s =
    if q.type = .free ∧ Meets q s then
      (l, { s with base := q.base, size := u32 (s.size + q.size) })
    else (l ++ [q], s) := by
  simp [absorbPrev]

@[simp] theorem absorbNext_nil : absorbNext s [] = (s, []) := rfl

theorem absorbNext_cons : absorbNext s (n :: r) =
    if n.type = .free ∧ Meets s n then ({ s with size := u32 (s.size + n.size) }, r)
    else (s, n :: r) := rfl

@[simp] theorem retire_nil_left : retire [] s r = ({ s with type := .free } :: r, none) := rfl

@[simp] theorem retire_nil_right : retire l s [] = (l ++ [{ s with type := .free }], none) := by
  unfold retire
  cases l.getLast? <;> rfl

theorem retire_concat : retire (l ++ [q]) s (n :: r) =
    if n.type = .span ∧ q.type = .span then (l ++ r, some (s.base, s.mapping))
    else (l ++ [q] ++ { s with type := .free } :: n :: r, none) := by
  simp [retire]

theorem absorbPrev_ref : (absorbPrev l s).2.ref = s.ref := by
  unfold absorbPrev
  split
  · rfl
  · split <;> rfl

theorem absorbNext_ref : (absorbNext s r).1.ref = s.ref := by
  unfold absorbNext
  split
  · rfl
  · split <;> rfl

theorem Linked.swallow (v : Linked a (l ++ q :: r) bins out) (hf : q.type = .free)
    (ho : q.ref ∉ out) :
    ∃ bins', Linked (segmentListRemove (freeListRemove a q.ref) q.ref) (l ++ r) bins' out ∧
      rest (segmentListRemove (freeListRemove a q.ref) q.ref) = rest a ∧
      (∀ p, ((segmentListRemove (freeListRemove a q.ref) q.ref).tags p).toTag =
        (a.tags p).toTag) ∧ ∀ t ∈ l ++ r, t.ref ≠ q.ref := by
  obtain ⟨bins', v₁⟩ := freeListRemove_linked v (by simp) hf ho
  obtain ⟨v₂, hw⟩ := segmentListRemove_linked v₁ (Or.inl (by simp))
  have hne : ∀ t ∈ l ++ r, t.ref ≠ q.ref := fun t ht => v.listed.ref_ne ht
  refine ⟨bins', v₂.drop hne, ?_, fun p => ?_, hne⟩
  · rw [hw.rest_eq, rest_freeListRemove]
  · rw [hw.toTag, freeListRemove_toTag]

theorem osFreeTag_linked {p : ℕ} (v : Linked a segs bins out) (hp : ∀ s ∈ segs, s.ref ≠ p) :
    Linked (osFreeTag a p) segs bins out :=
  v.modify_other hp _

/-- A segment takes the room of a neighbour that is in no list any more, and the tag of the neighbour
    goes. -/
theorem Linked.grow (v : Linked a (l ++ s :: r) bins [s.ref]) {f : Bt → Bt} {t : Seg}
    (htag : (f (a.tags s.ref)).toTag = t.toTag) (href : t.ref = s.ref) (hf : KeepsLinks f) {p : ℕ}
    (hp : ∀ u ∈ l ++ s :: r, u.ref ≠ p) :
    Linked (osFreeTag (modifyTag a s.ref f) p) (l ++ t :: r) bins [s.ref] := by
  refine osFreeTag_linked (v.modify_out (by simp) htag href hf) fun u hu => ?_
  rcases List.mem_append.mp hu with hl | hr
  · exact hp u (by simp [hl])
  · rcases List.mem_cons.mp hr with rfl | hr
    · rw [href]
      exact hp s (by simp)
    · exact hp u (by simp [hr])

theorem mergePrev_linked (v : Linked a (l ++ s :: r) bins [s.ref]) :
    ∃ bins', Linked (mergePrev a s.ref)
        ((absorbPrev l s).1 ++ (absorbPrev l s).2 :: r) bins' [s.ref] ∧
      rest (mergePrev a s.ref) = rest a := by
  have hs : s ∈ l ++ s :: r := by simp
  rcases List.eq_nil_or_concat l with rfl | ⟨l, q, rfl⟩
  · have h0 : (a.tags s.ref).prevSegment = 0 := v.listed.prev_eq_zero
    refine ⟨bins, ?_⟩
    unfold mergePrev
    simpa [h0] using v
  · rw [List.concat_eq_append] at v hs ⊢
    have vl : Linked a (l ++ q :: (s :: r)) bins [s.ref] := by simpa using v
    have hq : q ∈ l ++ q :: (s :: r) := by simp
    have hqs : q.ref ≠ s.ref := v.listed.ref_ne (by simp)
    have hprev : (a.tags s.ref).prevSegment = q.ref := vl.listed.prev_eq
    have hcond : (q.ref ≠ 0 ∧ isFree a q.ref = true ∧
        u32 ((a.tags q.ref).base + (a.tags q.ref).size) = (a.tags s.ref).base) ↔
        q.type = .free ∧ Meets q s := by
      rw [vl.listed.base hq, vl.listed.size hq, v.listed.base hs]
      simp [isFree, vl.listed.type hq, vl.listed.ref_ne_zero hq, Meets]
    unfold mergePrev
    simp only [hprev]
    rw [absorbPrev_concat]
    by_cases hc : q.type = .free ∧ Meets q s
    · rw [if_pos (hcond.mpr hc), if_pos hc]
      obtain ⟨bins', v₁, hr, ht, hne⟩ := vl.swallow hc.1 (by simpa using hqs)
      generalize segmentListRemove (freeListRemove a q.ref) q.ref = b at v₁ hr ht ⊢
      have hs₁ : s ∈ l ++ s :: r := by simp
      have hqt := ht q.ref
      rw [vl.listed.tag hq] at hqt
      refine ⟨bins', v₁.grow (f := fun t => { t with
          base := (b.tags q.ref).base
          size := u32 (t.size + (b.tags q.ref).size) })
        (t := { s with base := q.base, size := u32 (s.size + q.size) }) ?_ rfl
        (fun _ => ⟨rfl, rfl, rfl, rfl⟩) hne, hr⟩
      simp [v₁.listed.type hs₁, v₁.listed.size hs₁, v₁.listed.mapping hs₁,
        congrArg Tag.base hqt, congrArg Tag.size hqt]
    · rw [if_neg (fun h => hc (hcond.mp h)), if_neg hc]
      exact ⟨bins, v, rfl⟩

theorem mergeNext_linked (v : Linked a (l ++ s :: r) bins [s.ref]) :
    ∃ bins', Linked (mergeNext a s.ref)
        (l ++ (absorbNext s r).1 :: (absorbNext s r).2) bins' [s.ref] ∧
      rest (mergeNext a s.ref) = rest a := by
  have hs : s ∈ l ++ s :: r := by simp
  cases r with
  | nil =>
    have h0 : (a.tags s.ref).nextSegment = 0 := v.listed.next_eq_zero
    refine ⟨bins, ?_⟩
    unfold mergeNext
    simpa [h0] using v
  | cons q r =>
    have vl : Linked a ((l ++ [s]) ++ q :: r) bins [s.ref] := by simpa using v
    have hq : q ∈ (l ++ [s]) ++ q :: r := by simp
    have hqs : q.ref ≠ s.ref := v.listed.ref_ne (by simp)
    have hnext : (a.tags s.ref).nextSegment = q.ref := v.listed.next_eq
    have hcond : (q.ref ≠ 0 ∧ isFree a q.ref = true ∧
        u32 ((a.tags s.ref).base + (a.tags s.ref).size) = (a.tags q.ref).base) ↔
        q.type = .free ∧ Meets s q := by
      rw [vl.listed.base hq, v.listed.size hs, v.listed.base hs]
      simp [isFree, vl.listed.type hq, vl.listed.ref_ne_zero hq, Meets]
    unfold mergeNext
    simp only [hnext]
    rw [absorbNext_cons]
    by_cases hc : q.type = .free ∧ Meets s q
    · rw [if_pos (hcond.mpr hc), if_pos hc]
      obtain ⟨bins', v₁, hr, ht, hne⟩ := vl.swallow hc.1 (by simpa using hqs)
      generalize segmentListRemove (freeListRemove a q.ref) q.ref = b at v₁ hr ht ⊢
      have v₁' : Linked b (l ++ s :: r) bins' [s.ref] := by simpa using v₁
      have hs₁ : s ∈ l ++ s :: r := by simp
      have hqt := ht q.ref
      rw [vl.listed.tag hq] at hqt
      refine ⟨bins', v₁'.grow (f := fun t => { t with
          size := u32 (t.size + (b.tags q.ref).size) })
        (t := { s with size := u32 (s.size + q.size) }) ?_ rfl (fun _ => ⟨rfl, rfl, rfl, rfl⟩)
        (by simpa using hne), hr⟩
      simp [v₁'.listed.type hs₁, v₁'.listed.base hs₁, v₁'.listed.size hs₁,
        v₁'.listed.mapping hs₁, congrArg Tag.size hqt]
    · rw [if_neg (fun h => hc (hcond.mp h)), if_neg hc]
      exact ⟨bins, v, rfl⟩

/-- Anything but the lists may change under them, as long as no address is given out twice. -/
theorem Linked.of_eq (v : Linked a segs bins out) (ht : a'.tags = a.tags)
    (hf : a'.headFree = a.headFree) (hh : a'.headSegment = a.headSegment)
    (hl : a'.tailSegment = a.tailSegment) (hs : a'.segmentHash = a.segmentHash)
    (hn : a.nextTag ≤ a'.nextTag) : Linked a' segs bins out := by
  refine ⟨v.listed.congr (fun s _ => by rw [ht]) (fun x _ => ?_) (fun x _ => ?_) hn,
    v.binned.congr hf (fun s _ => by rw [ht]) (fun s _ => by rw [ht]), hs ▸ v.hashed⟩
  · rw [nextOf, ht, hh, nextOf]
  · rw [prevOf, ht, hl, prevOf]

theorem isBacking_of_mem {quantum : ℕ} {wanted : Bool} {t u : Tag} :
    ∀ x ∈ backingCalls quantum wanted t u, IsBacking x := by
  intro x hx
  cases wanted with
  | false => cases hx
  | true =>
    unfold backingCalls at hx
    rw [cond_true] at hx
    split at hx
    · exact ⟨_, _, List.mem_singleton.mp hx⟩
    · cases hx

theorem freeBackingStore_eq (p : ℕ) (t : Tag) (backing : Bool) :
    freeBackingStore a p t.base t.size backing = { a with
      calls := a.calls ++ backingCalls a.quantum (a.backingStoreFree && backing) t
        (a.tags p).toTag } := by
  have hnone : a = { a with calls := a.calls ++ [] } := by rw [List.append_nil]
  unfold freeBackingStore backingCalls
  by_cases hw : a.backingStoreFree = true ∧ backing = true
  · have htrue : (a.backingStoreFree && backing) = true := by simpa using hw
    rw [if_pos hw, htrue, cond_true]
    dsimp only
    split
    · rfl
    · exact hnone
  · have hfalse : (a.backingStoreFree && backing) = false := by simpa using hw
    rw [if_neg hw, hfalse, cond_false]
    exact hnone

theorem retireBt_linked (v : Linked a (l ++ s :: r) bins [s.ref]) :
    ∃ bins', Linked (retireBt a s.ref) (retire l s r).1 bins' [] ∧
      rest (retireBt a s.ref) =
        { rest a with calls := a.calls ++ handBack (retire l s r).2 } := by
  have hs : s ∈ l ++ s :: r := by simp
  have hinsert : ∃ bins', Linked (freeListInsert a s.ref) (l ++ { s with type := .free } :: r)
      bins' [] ∧ rest (freeListInsert a s.ref) = { rest a with calls := a.calls ++ [] } := by
    obtain ⟨bins', h⟩ := freeListInsert_linked v (by simp)
    exact ⟨bins', h, by rw [rest_freeListInsert]; simp [rest]⟩
  cases r with
  | nil =>
    have h0 : (a.tags s.ref).nextSegment = 0 := v.listed.next_eq_zero
    unfold retireBt
    simpa [h0, handBack] using hinsert
  | cons n r =>
    have hnext : (a.tags s.ref).nextSegment = n.ref := v.listed.next_eq
    rcases List.eq_nil_or_concat l with rfl | ⟨l, q, rfl⟩
    · have h0 : (a.tags s.ref).prevSegment = 0 := v.listed.prev_eq_zero
      unfold retireBt
      simpa [h0, handBack] using hinsert
    · rw [List.concat_eq_append] at v hs hinsert ⊢
      have vn : Linked a ((l ++ [q, s]) ++ n :: r) bins [s.ref] := by simpa using v
      have vq : Linked a (l ++ q :: (s :: n :: r)) bins [s.ref] := by simpa using v
      have hn : n ∈ (l ++ [q, s]) ++ n :: r := by simp
      have hq : q ∈ l ++ q :: (s :: n :: r) := by simp
      have hprev : (a.tags s.ref).prevSegment = q.ref := vq.listed.prev_eq
      have hcond : (n.ref ≠ 0 ∧ isSpan a n.ref = true ∧ q.ref ≠ 0 ∧ isSpan a q.ref = true) ↔
          n.type = .span ∧ q.type = .span := by
        simp [isSpan, vn.listed.type hn, vq.listed.type hq, vn.listed.ref_ne_zero hn,
          vq.listed.ref_ne_zero hq]
      unfold retireBt
      simp only [hnext, hprev]
      rw [retire_concat]
      by_cases hc : n.type = .span ∧ q.type = .span
      · rw [if_pos (hcond.mpr hc), if_pos hc]
        obtain ⟨v₁, w₁⟩ := segmentListRemove_linked vn (Or.inr hc.1)
        obtain ⟨v₂, w₂⟩ := segmentListRemove_linked (l := l) (s := q) (r := s :: r)
          (by simpa using v₁) (Or.inr hc.2)
        obtain ⟨v₃, w₃⟩ := segmentListRemove_linked (l := l) (s := s) (r := r) v₂
          (Or.inl (by simp))
        have w := w₁.trans (w₂.trans w₃)
        have hbase := congrArg Tag.base (w.toTag s.ref)
        have hmap := congrArg Tag.mapping (w.toTag s.ref)
        rw [v.listed.base hs] at hbase
        rw [v.listed.mapping hs] at hmap
        have hcalls := (congrArg RaArena.calls w.rest_eq :)
        have hr := w.rest_eq
        have v₄ := (v₃.drop fun t ht => v₂.listed.ref_ne ht)
        generalize segmentListRemove (segmentListRemove (segmentListRemove a n.ref) q.ref) s.ref =
          b at hbase hmap hcalls hr v₄ ⊢
        have hfresh : ∀ t ∈ l ++ r, t.ref ≠ n.ref ∧ t.ref ≠ q.ref ∧ t.ref ≠ s.ref := by
          intro t ht
          have ht' : t ∈ l ∨ t ∈ r := by simpa using ht
          exact ⟨vn.listed.ref_ne (by simp; tauto), vq.listed.ref_ne (by simp; tauto),
            v.listed.ref_ne (by simp; tauto)⟩
        refine ⟨bins, ?_, ?_⟩
        · refine osFreeTag_linked ?_ fun t ht => (hfresh t ht).2.2
          refine osFreeTag_linked ?_ fun t ht => (hfresh t ht).2.1
          refine osFreeTag_linked ?_ fun t ht => (hfresh t ht).1
          exact v₄.of_eq rfl rfl rfl rfl rfl le_rfl
        · simp only [rest_osFreeTag, hbase, hmap, handBack]
          rw [← hr, ← (show b.calls = a.calls from hcalls)]
          rfl
      · rw [if_neg (fun h => hc (hcond.mp h)), if_neg hc]
        exact hinsert

theorem freeBt_linked (v : Linked a (l ++ s :: r) bins [s.ref]) (backing : Bool) :
    ∃ bins', Linked (freeBt a s.ref backing) (release l s r).1 bins' [] ∧
      rest (freeBt a s.ref backing) = { rest a with
        calls := a.calls ++ (backingCalls a.quantum (a.backingStoreFree && backing) s.toTag
          (merged l s r).toTag ++ handBack (release l s r).2) } := by
  have hs : s ∈ l ++ s :: r := by simp
  have htag : (a.tags s.ref).toTag = s.toTag := v.listed.tag hs
  obtain ⟨b₁, v₁, r₁⟩ := mergePrev_linked v
  have href₁ := absorbPrev_ref (l := l) (s := s)
  rw [← href₁] at v₁
  obtain ⟨b₂, v₂, r₂⟩ := mergeNext_linked v₁
  have href₂ := absorbNext_ref (s := (absorbPrev l s).2) (r := r)
  rw [href₁] at v₂ r₂ href₂
  have hmerged : ((mergeNext (mergePrev a s.ref) s.ref).tags s.ref).toTag =
      (merged l s r).toTag := by
    have h := v₂.listed.tag (s := merged l s r) (by simp [merged])
    rwa [merged, href₂] at h
  have hrest : rest (mergeNext (mergePrev a s.ref) s.ref) = rest a := r₂.trans r₁
  have hcalls : (mergeNext (mergePrev a s.ref) s.ref).calls = a.calls :=
    (congrArg RaArena.calls hrest :)
  have hback : backingCalls (mergeNext (mergePrev a s.ref) s.ref).quantum
      ((mergeNext (mergePrev a s.ref) s.ref).backingStoreFree && backing) s.toTag
      ((mergeNext (mergePrev a s.ref) s.ref).tags s.ref).toTag =
      backingCalls a.quantum (a.backingStoreFree && backing) s.toTag (merged l s r).toTag := by
    have hquantum : (mergeNext (mergePrev a s.ref) s.ref).quantum = a.quantum :=
      (congrArg RaArena.quantum hrest :)
    have hcallback : (mergeNext (mergePrev a s.ref) s.ref).backingStoreFree = a.backingStoreFree :=
      (congrArg RaArena.backingStoreFree hrest :)
    rw [hmerged, hquantum, hcallback]
  have heq := freeBackingStore_eq (a := mergeNext (mergePrev a s.ref) s.ref) s.ref s.toTag backing
  rw [hback] at heq
  generalize backingCalls a.quantum (a.backingStoreFree && backing) s.toTag
    (merged l s r).toTag = c at heq ⊢
  have v₃ : Linked (freeBackingStore (mergeNext (mergePrev a s.ref) s.ref) s.ref
      s.base s.size backing) _ _ _ :=
    v₂.of_eq (by rw [heq]) (by rw [heq]) (by rw [heq]) (by rw [heq]) (by rw [heq]) (by rw [heq])
  rw [← href₂] at v₃
  obtain ⟨b₃, v₄, r₃⟩ := retireBt_linked v₃
  rw [href₂] at v₄ r₃
  have hfree : freeBt a s.ref backing = retireBt (freeBackingStore
      (mergeNext (mergePrev a s.ref) s.ref) s.ref s.base s.size backing) s.ref := by
    unfold freeBt
    rw [show (a.tags s.ref).base = s.base from congrArg Tag.base htag,
      show (a.tags s.ref).size = s.size from congrArg Tag.size htag]
  rw [hfree]
  refine ⟨b₃, v₄, ?_⟩
  have hrest' : rest (freeBackingStore (mergeNext (mergePrev a s.ref) s.ref) s.ref
      s.base s.size backing) = { rest a with calls := a.calls ++ c } := by
    rw [heq, ← hcalls, ← hrest]
    rfl
  have hcalls' : (freeBackingStore (mergeNext (mergePrev a s.ref) s.ref) s.ref
      s.base s.size backing).calls = a.calls ++ c := by
    rw [heq, hcalls]
  rw [r₃, hrest', hcalls', ← List.append_assoc]
  rfl

end
end PvrServices.Arenas
