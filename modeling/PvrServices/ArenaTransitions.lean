import PvrServices.ArenaCalls

set_option autoImplicit false

/-!
# The arena as a list of segments

What `RA_Alloc` and `RA_Free` may do to the list of segments, the order of the bins and the
addresses of the tags left open. The calls of the arena are simulated by these transitions.
-/
namespace PvrServices.Arenas
open Words HashTable LinkedRing

structure Request where
  size : ℕ
  flags : ℕ
  alignment : ℕ
  size_pos : 0 < size
  size_lt : size < 4294967296
  alignment_lt : alignment < 4294967296

structure Chosen (x : Request) (s : Seg) : Prop where
  free : s.type = .free
  bin : pvrLog2 x.size ≤ pvrLog2 s.size
  fits : fits x.size x.flags x.alignment s.toTag = true

def NothingFits (x : Request) (segs : List Seg) : Prop :=
  ∀ s ∈ segs, pvrLog2 s.size < 32 → ¬ Chosen x s

def startIn (x : Request) (s : Seg) : ℕ := alignedBase s.base x.alignment

/-- What an allocation returns: nothing, or the mapping and the base. -/
abbrev Result := Option (Option BmMapping × ℕ)

/-- `_AttemptAllocAligned` with the allocator in the state `os`, and the number of its calls
    afterwards; `found` is what is known of the segment that the search finds. -/
inductive Attempt (os : Os) (found : Seg → Prop) (x : Request) (segs : List Seg) :
    Result → List Seg → List Call → ℕ → Prop where
  | nothing (h : NothingFits x segs) : Attempt os found x segs none segs [] os.calls
  | kept {l r : List Seg} {s : Seg} {n : ℕ} (e : segs = l ++ s :: r) (c : Chosen x s)
      (hf : found s) (hr : refusal os s.toTag (startIn x s) x.size = some .front)
      (hn : NextRefused os n) : Attempt os found x segs none segs [] (n + 1)
  | cut {l r : List Seg} {s : Seg} {n : ℕ} (q : ℕ) (e : segs = l ++ s :: r) (c : Chosen x s)
      (hf : found s) (hr : refusal os s.toTag (startIn x s) x.size = some .back)
      (hn : NextRefused os n) :
      Attempt os found x segs none
        (l ++ (cutFront s (startIn x s) q).1 ++ (cutFront s (startIn x s) q).2 :: r) [] (n + 1)
  | undone {l r f b : List Seg} {s m : Seg} {n : ℕ} (e : segs = l ++ s :: r) (c : Chosen x s)
      (hf : found s) (hr : refusal os s.toTag (startIn x s) x.size = some .bucket)
      (hn : NextRefused os n) (k : Cut s (startIn x s) x.size f m b) :
      Attempt os found x segs none (release (l ++ f) { m with type := .live } (b ++ r)).1
        (handBack (release (l ++ f) { m with type := .live } (b ++ r)).2) (n + 1)
  | served {l r f b : List Seg} {s m : Seg} {n : ℕ} (e : segs = l ++ s :: r) (c : Chosen x s)
      (hf : found s) (hr : refusal os s.toTag (startIn x s) x.size = none) (k : Cut s (startIn x s) x.size f m b) :
      Attempt os found x segs (some (m.mapping, m.base))
        (l ++ f ++ { m with type := .live } :: (b ++ r)) [] n

def spanSegs (i : Import) (p q z : ℕ) : List Seg :=
  [marker i.base i.size p, ⟨⟨.free, i.base, i.size, i.mapping⟩, q⟩,
    marker (u32 (i.base + i.size)) 0 z]

/-- `RA_Alloc`; `answer` is what the import callback returns if it is called. -/
inductive Alloc (os : Os) (found : Seg → Prop) (quantum : ℕ) (imports : Bool) (x : Request)
    (answer : Option Import) (segs : List Seg) : Result → List Seg → List Call → Prop where
  | first {r : Option BmMapping × ℕ} {segs' : List Seg} {c : List Call} {n : ℕ}
      (h : Attempt os found x segs (some r) segs' c n) :
      Alloc os found quantum imports x answer segs (some r) segs' c
  | noImport {segs' : List Seg} {c : List Call} {n : ℕ} (h : Attempt os found x segs none segs' c n)
      (hi : imports = false ∨ answer = none) :
      Alloc os found quantum imports x answer segs none segs' c
  | noSpan {segs' : List Seg} {c : List Call} {i : Import} {n : ℕ}
      (h : Attempt os found x segs none segs' c n) (hs : RefusedSoon ⟨os.grants, n⟩)
      (hi : imports = true) (ha : answer = some i) :
      Alloc os found quantum imports x answer segs none segs'
        (c ++ [.imported (importSize quantum x.size x.alignment) i, .importFree i.base i.mapping])
  | second {l r segs'' : List Seg} {c c' : List Call} {i : Import} {res : Result} {n n' : ℕ}
      (p q z : ℕ) (h : Attempt os found x segs none (l ++ r) c n) (hi : imports = true)
      (ha : answer = some i) (hp : Placed l r i.base) (hn : (l ++ spanSegs i p q z ++ r).Nodup)
      (hg : ¬ RefusedSoon ⟨os.grants, n⟩)
      (h' : Attempt ⟨os.grants, n + 3⟩ (fun _ => True) x (l ++ spanSegs i p q z ++ r) res segs''
        c' n') :
      Alloc os found quantum imports x answer segs res segs''
        (c ++ .imported (importSize quantum x.size x.alignment) i :: c')

inductive Free (base : ℕ) (segs : List Seg) : List Seg → List Call → Prop where
  | unknown (h : ∀ s ∈ segs, s.type = .live → s.base ≠ base) : Free base segs segs []
  | known {l r : List Seg} {s : Seg} {c : List Call} (e : segs = l ++ s :: r)
      (hl : s.type = .live) (hb : s.base = base) (hc : ∀ x ∈ c, IsBacking x) :
      Free base segs (release l s r).1 (c ++ handBack (release l s r).2)

def Found (a : RaArena) (x : Request) (s : Seg) : Prop :=
  findFree a x.size x.flags x.alignment = some s.ref

section
variable {a a' : RaArena} {segs l r : List Seg} {s : Seg} {bins : ℕ → List ℕ} {out : List ℕ}
  {x : Request} {p q n i : ℕ}

theorem scarce_of_refusal {os : Os} {t : Tag} {start size : ℕ} {f : Refusal}
    (h : refusal os t start size = some f) : ∃ k, os.grants k = false := by
  by_contra hn
  have hg : ∀ k, os.grants k = true := by simpa using hn
  simp [refusal, hg] at h

theorem chosen_of_findFree (v : Linked a segs bins [])
    (h : findFree a x.size x.flags x.alignment = some p) (hp : p ≠ 0) :
    ∃ l s r, segs = l ++ s :: r ∧ s.ref = p ∧ Chosen x s := by
  rcases findFree_linked v x.size x.flags x.alignment with
    ⟨he, -⟩ | ⟨s, hs, he, hf, hb, ht⟩
  · rw [h] at he
    exact absurd (Option.some.inj he) hp
  · obtain ⟨l, r, rfl⟩ := List.append_of_mem hs
    rw [h] at he
    exact ⟨l, s, r, rfl, (Option.some.inj he).symm, hf, hb, ht⟩

theorem nothingFits_of_findFree (v : Linked a segs bins [])
    (h : findFree a x.size x.flags x.alignment = some 0) : NothingFits x segs := by
  rcases findFree_linked v x.size x.flags x.alignment with
    ⟨-, hall⟩ | ⟨s, hs, he, -⟩
  · intro s hs hlt c
    have := hall s hs (by simp) c.free c.bin hlt
    rw [c.fits] at this
    cases this
  · rw [h] at he
    exact absurd (Option.some.inj he).symm (v.listed.ref_ne_zero hs)

theorem findFree_some (v : Linked a segs bins []) (x : Request) :
    ∃ p, findFree a x.size x.flags x.alignment = some p := by
  rcases findFree_linked v x.size x.flags x.alignment with
    ⟨he, -⟩ | ⟨s, -, he, -⟩
  · exact ⟨_, he⟩
  · exact ⟨_, he⟩

theorem attempt_nothing (h : findFree a x.size x.flags x.alignment = some 0) :
    attemptAllocAligned a x.size x.flags x.alignment = some (none, a) := by
  unfold attemptAllocAligned
  rw [h]
  rfl

theorem attempt_found (v : Listed a segs) (hs : s ∈ segs)
    (h : findFree a x.size x.flags x.alignment = some s.ref) :
    attemptAllocAligned a x.size x.flags x.alignment =
      some (allocFromBt a s.ref (startIn x s) x.size) := by
  unfold attemptAllocAligned startIn
  rw [h]
  split
  · rename_i h1
    cases h1
  · rename_i h1
    exact absurd (Option.some.inj h1) (v.ref_ne_zero hs)
  · rename_i bt _ h1
    rw [← Option.some.inj h1, v.base hs]

/-- `_AttemptAllocAligned` comes to an end and makes one of the transitions. -/
theorem attempt_simulated (v : Linked a segs bins []) (x : Request) :
    ∃ res a' segs' bins' c, attemptAllocAligned a x.size x.flags x.alignment = some (res, a') ∧
      Attempt a.os (Found a x) x segs res segs' c a'.os.calls ∧ Linked a' segs' bins' [] ∧
      Kept a a' ∧ a'.calls = a.calls ++ c := by
  obtain ⟨p, hp⟩ := findFree_some v x
  by_cases h0 : p = 0
  · rw [h0] at hp
    exact ⟨none, a, segs, bins, [], attempt_nothing hp, .nothing (nothingFits_of_findFree v hp), v,
      .refl a, by simp⟩
  obtain ⟨l, s, r, rfl, rfl, c⟩ := chosen_of_findFree v hp h0
  rw [attempt_found v.listed (by simp) hp]
  obtain ⟨a', bins', hk, hn, hm⟩ := allocFromBt_linked v c.free (startIn x s) x.size
  cases hr : refusal a.os s.toTag (startIn x s) x.size with
  | none =>
    rw [hr] at hm
    obtain ⟨f, m, b, hcut, he, v', hcalls⟩ := hm
    exact ⟨_, a', _, bins', [], by rw [he], .served rfl c hp hr hcut, v', hk, by simp [hcalls]⟩
  | some w =>
    obtain ⟨k, hn', hcalls'⟩ := hn (by simp [hr])
    rw [hr] at hm
    cases w with
    | front =>
      obtain ⟨he, v', hcalls, -⟩ := hm
      refine ⟨_, a', _, bins', [], by rw [he], ?_, v', hk, by simp [hcalls]⟩
      rw [hcalls']
      exact .kept rfl c hp hr hn'
    | back =>
      obtain ⟨q, he, v', hcalls⟩ := hm
      refine ⟨_, a', _, bins', [], by rw [he], ?_, v', hk, by simp [hcalls]⟩
      rw [hcalls']
      exact .cut q rfl c hp hr hn'
    | bucket =>
      obtain ⟨f, m, b, hcut, he, v', hcalls⟩ := hm
      refine ⟨_, a', _, bins', _, by rw [he], ?_, v', hk, hcalls⟩
      rw [hcalls']
      exact .undone rfl c hp hr hn' hcut

theorem Attempt.forget {os : Os} {found : Seg → Prop} {segs' : List Seg} {c : List Call}
    {w : Result} (h : Attempt os found x segs w segs' c n) :
    Attempt os (fun _ => True) x segs w segs' c n := by
  cases h with
  | nothing h => exact .nothing h
  | kept e k _ hr hn => exact .kept e k trivial hr hn
  | cut q e k _ hr hn => exact .cut q e k trivial hr hn
  | undone e k _ hr hn hcut => exact .undone e k trivial hr hn hcut
  | served e k _ hr hcut => exact .served e k trivial hr hcut

theorem Linked.set_calls (v : Linked a segs bins out) (c : List Call) :
    Linked { a with calls := c } segs bins out :=
  v.of_eq rfl rfl rfl rfl rfl le_rfl

/-- Behind a successful import either its span is given back or a second attempt is made. -/
theorem allocFromImport_simulated (v : Linked a segs bins []) (x : Request) (i : Import) :
    ∃ res a' segs' bins' c,
      allocFromImport a x.size x.flags x.alignment i = some (res, a') ∧
      Linked a' segs' bins' [] ∧ Kept a a' ∧
      a'.calls = a.calls ++ .imported (importSize a.quantum x.size x.alignment) i :: c ∧
      ((res = none ∧ RefusedSoon a.os ∧ segs' = segs ∧
          c = [.importFree i.base i.mapping]) ∨
        ∃ l r p q z n, segs = l ++ r ∧ Placed l r i.base ∧ (l ++ spanSegs i p q z ++ r).Nodup ∧
          ¬ RefusedSoon a.os ∧ Attempt ⟨a.os.grants, a.os.calls + 3⟩ (fun _ => True) x (l ++ spanSegs i p q z ++ r) res
            segs' c n) := by
  unfold allocFromImport
  dsimp only
  have v₁ := v.set_calls (a.calls ++ [.imported (importSize a.quantum x.size x.alignment) i])
  have k₁ : Kept a { a with
      calls := a.calls ++ [.imported (importSize a.quantum x.size x.alignment) i] } :=
    ⟨rfl, rfl, rfl⟩
  rcases insertResourceSpan_linked v₁ i.base i.size with
    ⟨a₂, he, v₂, k₂, hc₂, hs⟩ | ⟨a₂, bins₂, l, r, p, q, z, m, he, hlr, hp, v₂, k₂, hc₂, ho₂, hg₂⟩
  · rw [he]
    refine ⟨none, _, segs, bins, [.importFree i.base i.mapping], rfl, v₂.set_calls _,
      k₁.trans (k₂.trans ⟨rfl, rfl, rfl⟩), ?_, Or.inl ⟨rfl, hs, rfl, rfl⟩⟩
    simp [hc₂]
  · rw [he]
    have hcons : ∀ t : Seg, l ++ marker i.base i.size p :: t ::
        marker (u32 (i.base + i.size)) 0 z :: r =
        (l ++ [marker i.base i.size p]) ++ t ::
          (marker (u32 (i.base + i.size)) 0 z :: r) := by simp
    rw [hcons] at v₂
    have v₃ := v₂.set_mapping i.mapping
    have hspan : (l ++ [marker i.base i.size p]) ++
        ({ toTag := ⟨.free, i.base, i.size, i.mapping⟩, ref := q } : Seg) ::
          (marker (u32 (i.base + i.size)) 0 z :: r) = l ++ spanSegs i p q z ++ r := by
      simp [spanSegs]
    rw [hspan] at v₃
    have k₃ : Kept a (modifyTag a₂ q fun t => { t with mapping := i.mapping }) :=
      k₁.trans (k₂.trans ⟨rfl, rfl, rfl⟩)
    have hc₃ : (modifyTag a₂ q fun t => { t with mapping := i.mapping }).calls =
        a.calls ++ [.imported (importSize a.quantum x.size x.alignment) i] := hc₂
    have ho₃ : (modifyTag a₂ q fun t => { t with mapping := i.mapping }).os.calls =
        a.os.calls + 3 := ho₂
    dsimp only
    generalize modifyTag a₂ q (fun t => { t with mapping := i.mapping }) = a₃ at v₃ k₃ hc₃ ho₃ ⊢
    obtain ⟨res, a₄, segs₄, bins₄, c, he₄, h₄, v₄, k₄, hc₄⟩ := attempt_simulated v₃ x
    have hos : a₃.os = ⟨a.os.grants, a.os.calls + 3⟩ := by rw [← k₃.grants, ← ho₃]
    rw [hos] at h₄
    refine ⟨res, a₄, segs₄, bins₄, c, he₄, v₄, k₃.trans k₄, ?_,
      Or.inr ⟨l, r, p, q, z, _, hlr, hp, v₃.listed.nodup, hg₂, h₄.forget⟩⟩
    rw [hc₄, hc₃]
    simp

/-- `RA_Alloc` comes to an end and makes one of the transitions. -/
theorem raAlloc_simulated (v : Linked a segs bins []) (x : Request) (answer : Option Import) :
    ∃ res a' segs' bins' c, raAlloc a x.size x.flags x.alignment answer = some (res, a') ∧
      Alloc a.os (Found a x) a.quantum a.importAlloc x answer segs res segs' c ∧
      Linked a' segs' bins' [] ∧ Kept a a' ∧ a'.calls = a.calls ++ c := by
  obtain ⟨res, a₁, segs₁, bins₁, c₁, he₁, h₁, v₁, k₁, hc₁⟩ := attempt_simulated v x
  unfold raAlloc
  rw [he₁]
  cases res with
  | some w => exact ⟨_, _, _, bins₁, c₁, rfl, .first h₁, v₁, k₁, hc₁⟩
  | none =>
    dsimp only
    rw [k₁.importAlloc]
    cases hi : a.importAlloc with
    | false => exact ⟨_, _, _, bins₁, c₁, rfl, .noImport h₁ (Or.inl rfl), v₁, k₁, hc₁⟩
    | true =>
      cases answer with
      | none => exact ⟨_, _, _, bins₁, c₁, rfl, .noImport h₁ (Or.inr rfl), v₁, k₁, hc₁⟩
      | some i =>
        obtain ⟨res, a₂, segs₂, bins₂, c₂, he₂, v₂, k₂, hc₂, h₂⟩ :=
          allocFromImport_simulated v₁ x i
        rw [hc₁, k₁.quantum] at hc₂
        have hos : a₁.os = ⟨a.os.grants, a₁.os.calls⟩ := by rw [← k₁.grants]
        refine ⟨res, a₂, segs₂, bins₂,
          c₁ ++ .imported (importSize a.quantum x.size x.alignment) i :: c₂, he₂, ?_, v₂,
          k₁.trans k₂, by rw [hc₂, List.append_assoc]⟩
        rcases h₂ with ⟨rfl, hs, rfl, rfl⟩ | ⟨l, r, p, q, z, n, rfl, hp, hn, hg, h₂⟩
        · rw [hos] at hs
          exact .noSpan h₁ hs rfl rfl
        · rw [k₁.grants] at h₂
          rw [hos] at hg
          exact .second p q z h₁ rfl rfl hp hn hg h₂

/-- `RA_Free` changes nothing, or it gives back a live segment of the base. -/
theorem raFree_cases (v : Linked a segs bins []) (base : ℕ) (backing : Bool) :
    Kept a (raFree a base backing) ∧
    (((∀ s ∈ segs, s.type = .live → s.base ≠ base) ∧ Linked (raFree a base backing) segs bins [] ∧
        (raFree a base backing).calls = a.calls) ∨
      ∃ l s r bins', segs = l ++ s :: r ∧ s.type = .live ∧ s.base = base ∧
        Linked (raFree a base backing) (release l s r).1 bins' [] ∧
        (raFree a base backing).calls = a.calls ++
          (backingCalls a.quantum (a.backingStoreFree && backing) s.toTag (merged l s r).toTag ++
            handBack (release l s r).2)) := by
  unfold raFree
  rcases hr : hashRemoveExtended hashBase a.os a.segmentHash base with ⟨w, h', os'⟩
  obtain ⟨hg, hw, ⟨rfl, hn, rfl, rfl⟩ | ⟨hmem, hrest⟩⟩ := v.hashed.homed.remove hr
  · refine ⟨⟨rfl, rfl, rfl⟩, Or.inl ⟨?_, v.of_eq rfl rfl rfl rfl rfl le_rfl, rfl⟩⟩
    intro s hs hl hb
    exact hn s.ref ((v.hashed.mem base s.ref).mpr ⟨s, hs, rfl, by simp, hl, hb⟩)
  · obtain ⟨s, hs, rfl, -, hl, hb⟩ := (v.hashed.mem base w).mp hmem
    obtain ⟨l, r, rfl⟩ := List.append_of_mem hs
    have h0 := v.listed.ref_ne_zero hs
    have v₁ : Linked { a with segmentHash := h', os := os' } (l ++ s :: r) bins [s.ref] := by
      refine ⟨v.listed.congr (fun _ _ => rfl) (fun _ _ => rfl) (fun _ _ => rfl) le_rfl,
        ⟨v.binned.linked, fun i p => ?_⟩, ⟨hw, fun b p => ?_⟩⟩
      · rw [v.binned.mem]
        constructor
        · rintro ⟨t, ht, rfl, -, hf, hi⟩
          refine ⟨t, ht, rfl, ?_, hf, hi⟩
          intro hts
          rw [v.listed.ref_inj ht hs (by simpa using hts), hl] at hf
          cases hf
        · rintro ⟨t, ht, rfl, -, h⟩
          exact ⟨t, ht, rfl, by simp, h⟩
      · rw [hrest, v.hashed.mem]
        constructor
        · rintro ⟨⟨t, ht, rfl, -, htl, rfl⟩, hne⟩
          refine ⟨t, ht, rfl, ?_, htl, rfl⟩
          intro hts
          rw [v.listed.ref_inj ht hs (by simpa using hts), hb] at hne
          exact hne rfl
        · rintro ⟨t, ht, rfl, hts, htl, rfl⟩
          refine ⟨⟨t, ht, rfl, by simp, htl, rfl⟩, ?_⟩
          intro he
          exact hts (by simp [(Prod.mk.inj he).2])
    obtain ⟨bins', v₂, hrest'⟩ := freeBt_linked v₁ backing
    obtain ⟨hk, -, hcalls⟩ := rest_calls hrest'
    have hk₁ : Kept a { a with segmentHash := h', os := os' } := ⟨rfl, rfl, hg⟩
    split
    · rename_i heq
      exact absurd (congrArg Prod.fst heq) h0
    · rename_i heq
      simp only [Prod.mk.injEq] at heq
      obtain ⟨rfl, rfl, rfl⟩ := heq
      exact ⟨hk₁.trans hk, Or.inr ⟨l, s, r, bins', rfl, hl, hb, v₂, hcalls⟩⟩

theorem raFree_simulated (v : Linked a segs bins []) (base : ℕ) (backing : Bool) :
    ∃ segs' bins' c, Free base segs segs' c ∧ Linked (raFree a base backing) segs' bins' [] ∧
      Kept a (raFree a base backing) ∧ (raFree a base backing).calls = a.calls ++ c := by
  obtain ⟨hk, ⟨hnone, v', hc⟩ | ⟨l, s, r, bins', e, hl, hb, v', hc⟩⟩ := raFree_cases v base backing
  · exact ⟨segs, bins, [], .unknown hnone, v', hk, by rw [hc, List.append_nil]⟩
  · exact ⟨_, bins', _, .known e hl hb isBacking_of_mem, v', hk, hc⟩

end
end PvrServices.Arenas
