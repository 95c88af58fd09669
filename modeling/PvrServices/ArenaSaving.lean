import PvrServices.ArenaContract
import PvrServices.ArenaLive
import PvrServices.ArenaReturn

set_option autoImplicit false

/-!
# Saving and restoring the live segments

The walk over the live segments comes to its end exactly if the last segment of the list is not
live: behind a live last segment the handle is null, which stands for the start. What is counted,
saved and put back is exact as long as the image of the live segments is smaller than the address
space.
-/
namespace PvrServices.Arenas
open Words HashTable LinkedRing Tiling Runs Memory

def savedSize : List Seg → ℕ
  | [] => 0
  | s :: r => 4 + s.size + savedSize r

def Reports (a : RaArena) (n size : ℕ) : Prop :=
  ∀ c mem, pvrsrvSaveRestoreLiveSegments n (some a) c mem none =
    some (.ok, size, ⟨mem, none, 0, size⟩)

def restored (a : RaArena) (saved mem' : ℕ → UInt8) : ℕ → UInt8 := fun i =>
  if ∃ s ∈ lives (segments a), s.base ≤ i ∧ i < s.base + s.size then saved i else mem' i

/-- The walk finds each live segment once, in the order of the addresses, and ends. In a buffer of
    the reported size no call leaves the buffer, and what is saved while all segments are mapped is
    put back. -/
structure SavesLive (a : RaArena) : Prop where
  iterates : ∃ n ds, collect a n startDetails = some ds ∧
    ds.map place = (lives (segments a)).map placeOf ∧
    ds.Pairwise fun d e => d.cpuPhyAddr + d.uiSize ≤ e.cpuPhyAddr
  restores : ∃ n size, Reports a n size ∧
    (∀ c mem bytes, c.bufSize = size →
      (pvrsrvSaveRestoreLiveSegments n (some a) c mem (some ⟨bytes, size⟩)).isSome = true) ∧
    ∀ maps : ℕ → ℕ → Bool, (∀ s ∈ lives (segments a), maps s.base s.size = true) →
      ∀ mem mem' bytes, ∃ bytes',
        pvrsrvSaveRestoreLiveSegments n (some a) ⟨size, true, maps⟩ mem (some ⟨bytes, size⟩) =
          some (.ok, size, ⟨mem, some ⟨bytes', size⟩, size, size⟩) ∧
        pvrsrvSaveRestoreLiveSegments n (some a) ⟨size, false, maps⟩ mem'
          (some ⟨bytes', size⟩) =
          some (.ok, size, ⟨restored a mem mem', some ⟨bytes', size⟩, size, size⟩)

/-- What the importer promises: spans inside of the address space, clear of the outstanding ones. -/
def Promised (a : RaArena) : Op → Prop
  | .alloc _ answer => ∀ i ∈ answer, 0 < i.size ∧ i.base + i.size ≤ 4294967296 ∧
      ∀ j ∈ outstanding a.calls, i.Apart j
  | .free _ _ => True

/-- The request is cut from the inside of a free segment: of the one that the search finds, or of
    the new span where nothing is found. Behind a refusal of memory, when any segment may be taken,
    no sum that the call forms leaves the address space. -/
def CutsInside (a : RaArena) : Op → Prop
  | .alloc x answer =>
    (∀ s ∈ segments a, Found a x s → Within x s) ∧
    (NothingFits x (segments a) → ∀ i ∈ answer, Chosen x (i.segment 0) → Within x (i.segment 0)) ∧
    ((∃ s ∈ segments a, Found a x s ∧ refusal a.os s.toTag (startIn x s) x.size ≠ none) →
      ∀ i ∈ answer, i.base + i.size + x.alignment + x.size < 4294967296 ∧
        ∀ s ∈ segments a, s.base + s.size + x.alignment + x.size < 4294967296)
  | .free _ _ => True

/-- The segments lie in areas that are the resources and the outstanding spans. -/
structure Tidy (res : List Extent) (a : RaArena) : Prop where
  shown : ∃ segs bins areas, Linked a segs bins [] ∧ Layout areas segs ∧
    Books res (outstanding a.calls) areas
  initial : ∀ e ∈ res, e.imported = false
  single : a.importAlloc = true → res = []

section
variable {a a' : RaArena} {segs segs' l r : List Seg} {s : Seg} {x : Request} {res : List Extent}
  {areas : List Area} {c : List Call} {os : Os} {found : Seg → Prop} {o : List Import} {w : Result}
  {ds : List SegmentDetails} {n : ℕ}

theorem Alloc.layout {quantum : ℕ} {imports : Bool} {answer : Option Import}
    (h : Alloc os found quantum imports x answer segs w segs' c) (v : Layout areas segs)
    (hn : segs.Nodup) (k : Books res o areas) (hres : ∀ e ∈ res, e.imported = false)
    (hi : imports = true → res = [])
    (hin : ∀ s ∈ segs, Chosen x s → found s → Within x s)
    (hans : ∀ i, answer = some i → 0 < i.size ∧ i.base + i.size ≤ 4294967296 ∧
      ∀ j ∈ o, i.Apart j)
    (hspan : NothingFits x segs → ∀ i, answer = some i →
      Chosen x (i.segment 0) → Within x (i.segment 0))
    (hroom : (∃ s ∈ segs, found s ∧ refusal os s.toTag (startIn x s) x.size ≠ none) →
      ∀ i, answer = some i → i.base + i.size + x.alignment + x.size < 4294967296 ∧
        Room x areas) :
    ∃ areas', Layout areas' segs' ∧ Books res (c.foldl settle o) areas' := by
  have hsame {w : Result} {segs₁ : List Seg} {c₁ : List Call} {n : ℕ}
      (h : Attempt os found x segs w segs₁ c₁ n) :
      ∃ areas₁, Layout areas₁ segs₁ ∧ Books res (c₁.foldl settle o) areas₁ := by
    obtain ⟨areas₁, v₁, hm⟩ := h.layout v hn hin
    exact ⟨areas₁, v₁, k.moves v hres hm⟩
  have hlast (hrefused : ∃ s ∈ segs, found s ∧ refusal os s.toTag (startIn x s) x.size ≠ none)
      (i : Import) (ha : answer = some i) :
      ∃ areas', Layout areas' segs' ∧ Books res (c.foldl settle o) areas' := by
    obtain ⟨hlt, hrooms⟩ := hroom hrefused i ha
    obtain ⟨hpos, -, hapart⟩ := hans i ha
    obtain ⟨areas₁, segs₁, o₁, c₁, os₁, m, v₁, hn₁, hfit, k₁, -, hat, hset⟩ :=
      h.last_attempt v hn k hres hi hrooms (by
        intro j hj
        rw [ha, Option.some.injEq] at hj
        rw [← hj]
        exact ⟨hpos, hlt, hapart⟩)
    obtain ⟨areas', v', hm⟩ := hat.layout v₁ hn₁ fun s hs hc _ => (hfit s hs hc).within
    rw [hset]
    exact ⟨areas', v', k₁.moves v₁ hres hm⟩
  cases h with
  | first h | noImport h => exact hsame h
  | noSpan h =>
    rw [List.foldl_append, List.foldl_cons, List.foldl_cons, settle_handed_back, List.foldl_nil]
    exact hsame h
  | @second l r segs'' c c' i _ _ _ p q z h himp ha hp hn' hg h' =>
    generalize hlr : l ++ r = segs₁ at h
    cases h with
    | nothing hnone =>
      rw [← hlr] at v hnone hspan
      obtain ⟨hpos, hle, hapart⟩ := hans i ha
      have hres₀ := hi himp
      rw [hres₀] at k hres ⊢
      obtain ⟨A, B, hAB, v₂, -⟩ := v.insert hp (fun ar har => k.marks_ne har) (k.avoids hapart)
        hpos hle p q z
      rw [hAB] at k
      have honly := only_span_fits (i := i) (p := p) (q := q) (z := z) hnone
        fun s hs ht => v₂.size_lt hn' hs ht
      have hin' : ∀ s ∈ l ++ spanSegs i p q z ++ r, Chosen x s → True → Within x s := by
        intro s hs hc _
        have heq := honly s hs hc
        rw [heq] at hc ⊢
        exact hspan hnone i ha ⟨hc.free, hc.bin, hc.fits⟩
      obtain ⟨areas', v', hm⟩ := h'.layout v₂ hn' hin'
      refine ⟨areas', v', ?_⟩
      exact (k.insert (importSize quantum x.size x.alignment) p q z).moves v₂ hres hm
    | kept e _ hf hr => exact hlast ⟨_, by simp [e], hf, by rw [hr]; simp⟩ i ha
    | cut _ e _ hf hr => exact hlast ⟨_, by simp [e], hf, by rw [hr]; simp⟩ i ha
    | undone e _ hf hr => exact hlast ⟨_, by simp [e], hf, by rw [hr]; simp⟩ i ha

theorem Tidy.step {op : Op} (I : Tidy res a) (hp : Promised a op) (hc : CutsInside a op)
    (hs : Arenas.step a op = some (w, a')) : Tidy res a' := by
  obtain ⟨segs, bins, areas, v, y, k⟩ := I.shown
  have hn := v.listed.nodup
  cases op with
  | alloc x answer =>
    obtain ⟨hfound, hspan, hroom⟩ := hc
    rw [v.listed.segments_eq] at hfound hspan hroom
    obtain ⟨w', a₁, segs', bins', c, he, hal, v', hk, hcalls⟩ := raAlloc_simulated v x answer
    rw [Arenas.step, he] at hs
    cases hs
    obtain ⟨areas', y', k'⟩ := hal.layout y hn k I.initial I.single
      (fun s hs _ hf => hfound s hs hf) hp hspan fun hex i hi =>
        ⟨(hroom hex i hi).1, y.room (hroom hex i hi).2⟩
    refine ⟨⟨segs', bins', areas', v', y', ?_⟩, I.initial, ?_⟩
    · rw [hcalls, outstanding_append]
      exact k'
    · rw [hk.importAlloc]
      exact I.single
  | free base backing =>
    obtain ⟨segs', bins', c, hf, v', hk, hcalls⟩ := raFree_simulated v base backing
    cases hs
    obtain ⟨areas', y', k'⟩ := hf.layout y hn k I.initial
    refine ⟨⟨segs', bins', areas', v', y', ?_⟩, I.initial, ?_⟩
    · rw [hcalls, outstanding_append]
      exact k'
    · rw [hk.importAlloc]
      exact I.single

theorem Created.tidy (c : Created a res) : Tidy res a := by
  have I := c.inv
  obtain ⟨segs, bins, areas, v, y, k, -⟩ := I.shown
  exact ⟨⟨segs, bins, areas, v, y, k⟩, I.initial, I.single⟩

theorem imageSize_eq {live : List Seg} (h : ds.map place = live.map placeOf) :
    imageSize ds = savedSize live := by
  induction ds generalizing live with
  | nil =>
    cases live with
    | nil => rfl
    | cons s live => cases h
  | cons d ds ih =>
    cases live with
    | nil => cases h
    | cons s live =>
      obtain ⟨hd, hds⟩ := List.cons.inj h
      rw [imageSize_cons, ih hds, (Prod.mk.inj hd).2]
      rfl

theorem exists_of_places {P : ℕ × ℕ → Prop} {live : List Seg}
    (h : ds.map place = live.map placeOf) :
    (∃ d ∈ ds, P (place d)) ↔ ∃ s ∈ live, P (placeOf s) := by
  have hmap : (∃ q ∈ ds.map place, P q) ↔ ∃ q ∈ live.map placeOf, P q := by rw [h]
  simpa using hmap

theorem pairwise_of_places {R : ℕ × ℕ → ℕ × ℕ → Prop} {live : List Seg}
    (h : ds.map place = live.map placeOf) :
    (ds.Pairwise fun d e => R (place d) (place e)) ↔
      live.Pairwise fun s t => R (placeOf s) (placeOf t) := by
  rw [← List.pairwise_map, h, List.pairwise_map]

theorem call_eq (hds : collect a n startDetails = some ds) (c : SaveCall) (mem : ℕ → UInt8)
    (b : Buffer) : pvrsrvSaveRestoreLiveSegments n (some a) c mem (some b) =
      (transferAll c ds ⟨mem, some b, 0, 0⟩).map fun r =>
        (r.1, if r.1 = .ok ∧ r.2.buffer.isNone then r.2.bytesSaved else c.bufSize, r.2) := by
  unfold pvrsrvSaveRestoreLiveSegments
  dsimp only
  rw [saveRestoreLoop_eq hds]
  cases transferAll c ds ⟨mem, some b, 0, 0⟩ with
  | none => rfl
  | some r =>
    obtain ⟨e, t⟩ := r
    cases e with
    | ok => cases ht : t.buffer <;> simp [ht]
    | _ => rfl

theorem reports_of_collect (hds : collect a n startDetails = some ds) :
    Reports a n (u32 (imageSize ds)) := by
  intro c mem
  have hcount := transferAll_count (c := c) (t := ⟨mem, none, 0, 0⟩) ds rfl 0
    (u32_of_lt (Nat.zero_lt_succ _)).symm
  rw [Nat.zero_add] at hcount
  unfold pvrsrvSaveRestoreLiveSegments
  dsimp only
  rw [saveRestoreLoop_eq hds, hcount]
  rfl

/-- The walk comes to its end, and the sum of the sizes does not wrap. -/
theorem Listed.savesLive (v : Listed a segs) (hend : EndsDead segs)
    (hsum : savedSize (lives segs) < 4294967296)
    (hord : (lives segs).Pairwise fun s t => s.base + s.size ≤ t.base) : SavesLive a := by
  have hsegs := v.segments_eq
  obtain ⟨ds, hds, hplaces⟩ := Listed.collect (l := []) v v.at_start hend (Nat.lt_succ_self _)
  have hsize := imageSize_eq hplaces
  have hlt : imageSize ds < 4294967296 := by
    rw [hsize]
    exact hsum
  have hreport := reports_of_collect hds
  rw [u32_of_lt hlt] at hreport
  constructor
  · refine ⟨_, ds, hds, by rw [hsegs, hplaces], ?_⟩
    exact (pairwise_of_places (R := fun q r => q.1 + q.2 ≤ r.1) hplaces).mpr hord
  · refine ⟨_, imageSize ds, hreport, ?_, ?_⟩
    · intro c mem bytes hc
      rw [call_eq hds, Option.isSome_map]
      apply transferAll_isSome (t := ⟨mem, some ⟨bytes, imageSize ds⟩, 0, 0⟩) rfl le_rfl
      · rw [hc]
        exact (Nat.zero_add _).le
      · exact hc.le
      · rw [hc]
        exact hlt
    · intro maps hmaps mem mem' bytes
      have hall : ∀ d ∈ ds, maps d.cpuPhyAddr d.uiSize = true := by
        intro d hd
        by_contra hnot
        obtain ⟨s, hs, hmap⟩ := (exists_of_places (P := fun q => ¬maps q.1 q.2 = true)
          hplaces).mp ⟨d, hd, hnot⟩
        rw [hsegs] at hmaps
        exact hmap (hmaps s hs)
      have hroom : 0 + imageSize ds ≤ imageSize ds := (Nat.zero_add _).le
      refine ⟨store bytes 0 (image mem ds), ?_, ?_⟩
      · rw [call_eq hds, transferAll_save (b := ⟨bytes, imageSize ds⟩) rfl hall rfl rfl hroom le_rfl
          hlt, Nat.zero_add]
        rfl
      · have himage : copy (store bytes 0 (image mem ds)) 0 (imageSize ds) = image mem ds := by
          have hcopy := copy_store bytes 0 (image mem ds)
          rwa [image_length] at hcopy
        rw [call_eq hds, transferAll_restore (b := ⟨store bytes 0 (image mem ds), imageSize ds⟩) rfl hall rfl rfl hroom le_rfl hlt
          himage, Nat.zero_add]
        have hback : putBack mem mem' ds = restored a mem mem' := by
          funext i
          unfold putBack restored
          rw [hsegs]
          congr 1
          exact propext (exists_of_places
            (P := fun q => q.1 ≤ i ∧ i < q.1 + q.2) hplaces)
        rw [hback]
        rfl

/-- The walk does not end, or the buffer is too small for what is saved. -/
theorem Listed.of_savesLive (v : Listed a segs) (h : SavesLive a) :
    EndsDead segs ∧ savedSize (lives segs) < 4294967296 := by
  have hsegs := v.segments_eq
  obtain ⟨n, ds, hds, hplaces, -⟩ := h.iterates
  rw [hsegs] at hplaces
  constructor
  · by_contra hend
    have hne : segs ≠ [] := by
      intro hnil
      rw [hnil] at hend
      exact hend fun s hs => by cases hs
    rw [Listed.collect_loops (l := []) v hne v.at_start hend n] at hds
    cases hds
  · obtain ⟨m, size, hreport, -, hback⟩ := h.restores
    obtain ⟨bytes', hsave, -⟩ := hback (fun _ _ => true) (fun _ _ => rfl) (fun _ => 0)
      (fun _ => 0) fun _ => 0
    obtain ⟨ds', hds'⟩ : ∃ ds', Arenas.collect a m startDetails = some ds' := by
      have hcall := hreport ⟨0, false, fun _ _ => true⟩ fun _ => 0
      unfold pvrsrvSaveRestoreLiveSegments at hcall
      dsimp only at hcall
      cases hloop : saveRestoreLoop a ⟨0, false, fun _ _ => true⟩ m startDetails
          ⟨fun _ => 0, none, 0, 0⟩ with
      | none =>
        rw [hloop] at hcall
        cases hcall
      | some r =>
        obtain ⟨e, t⟩ := r
        rw [hloop] at hcall
        have hok : e = .ok := by
          cases e <;> first | rfl | cases (Prod.mk.inj (Option.some.inj hcall)).1
        rw [hok] at hloop
        exact collect_of_saveRestoreLoop hloop
    have hsame : ds' = ds := by
      have h₁ := collect_mono hds' (Nat.le_max_left m n)
      have h₂ := collect_mono hds (Nat.le_max_right m n)
      exact Option.some.inj (h₁.symm.trans h₂)
    rw [hsame] at hds'
    have hsize : size = u32 (imageSize ds) := by
      have hcall := (hreport ⟨0, false, fun _ _ => true⟩ fun _ => 0).symm.trans
        (reports_of_collect hds' ⟨0, false, fun _ _ => true⟩ fun _ => 0)
      exact (Prod.mk.inj (Prod.mk.inj (Option.some.inj hcall)).2).1
    rw [call_eq hds'] at hsave
    obtain ⟨r, hr, hrok⟩ := Option.map_eq_some_iff.mp hsave
    obtain ⟨e, t⟩ := r
    have hok : e = .ok := (Prod.mk.inj hrok).1
    rw [hok] at hr
    have hroom := transferAll_room (t := ⟨fun _ => 0, some ⟨fun _ => 0, size⟩, 0, 0⟩) rfl rfl
      (Nat.zero_le _) hr
    rw [← imageSize_eq hplaces]
    have hlt := u32_lt (imageSize ds)
    dsimp only at hroom
    omega

/-- An arena that a run of calls reaches, each of which cuts its block from the inside of a free
    segment, is walked, saved and restored exactly if its last segment is not live and the image of
    its live segments is smaller than the address space. -/
theorem saves_live_over_runs {a₀ : RaArena} {l : List (Op × Result)} (c : Created a₀ res)
    (run : Run Arenas.step (fun a op => Promised a op ∧ CutsInside a op) a₀ l a) :
    SavesLive a ↔ EndsDead (segments a) ∧ savedSize (lives (segments a)) < 4294967296 := by
  have I : Tidy res a := run.invariant (Tidy res) c.tidy fun s op r t I hok hs =>
    I.step hok.1 hok.2 hs
  obtain ⟨segs, bins, areas, v, y, -⟩ := I.shown
  rw [v.listed.segments_eq]
  exact ⟨v.listed.of_savesLive, fun h => v.listed.savesLive h.1 h.2 y.lives_apart⟩

end

instance (a : RaArena) (op : Op) : Decidable (Promised a op) :=
  match op with
  | .alloc _ _ => inferInstanceAs (Decidable (∀ i ∈ _, _ ∧ _ ∧ _))
  | .free _ _ => inferInstanceAs (Decidable True)

instance (a : RaArena) (op : Op) : Decidable (CutsInside a op) :=
  match op with
  | .alloc x _ =>
    have (s : Seg) : Decidable (Found a x s) := inferInstanceAs (Decidable (_ = _))
    have (s : Seg) : Decidable (Within x s) := inferInstanceAs (Decidable (_ < _))
    have : Decidable (NothingFits x (segments a)) :=
      inferInstanceAs (Decidable (∀ s ∈ segments a, _))
    inferInstanceAs (Decidable (_ ∧ _ ∧ _))
  | .free _ _ => inferInstanceAs (Decidable True)

/-- What `RA_Create` makes of two pages from address 4096 on. -/
def createdResource : Option (Option RaArena) :=
  raCreate ⟨fun _ => true, 0⟩ (fun _ => ⟨⟨.span, 0, 0, none⟩, 0, 0, 0, 0⟩) 4096 8192 none 4096
    false false

def resourceArena : RaArena := (createdResource.bind id).getD sampleArena

theorem resourceArena_created : Created resourceArena [⟨4096, 8192, none, false⟩] := by
  have hsome : (createdResource.bind id).isSome = true := by decide +kernel
  obtain ⟨a, ha⟩ := Option.isSome_iff_exists.mp hsome
  obtain ⟨x, hx, hxa⟩ := Option.bind_eq_some_iff.mp ha
  have hres : resourceArena = a := by
    unfold resourceArena
    rw [ha]
    rfl
  rw [hres]
  rw [show x = some a from hxa] at hx
  have hsize : resourceSize 4096 8192 = 8192 := by decide +kernel
  have hc : Created a [⟨4096, resourceSize 4096 8192, none, false⟩] := by
    refine .resource (show raCreate _ _ 4096 8192 none 4096 false false = some (some a) from hx)
      (by decide) (by decide) (by decide) ?_
    rw [hsize]
    decide
  rw [hsize] at hc
  exact hc

/-- One of the two pages is live, and the last segment is free. -/
theorem saves_live_over_sample : ∃ l a,
    exec step resourceArena [.alloc pageRequest none] = some (l, a) ∧ SavesLive a ∧
      (lives (segments a)).map placeOf = [(4096, 4096)] := by
  have hend : (exec step resourceArena [.alloc pageRequest none]).map (fun r =>
      (decide (EndsDead (segments r.2)), (lives (segments r.2)).map placeOf,
        savedSize (lives (segments r.2)))) = some (true, [(4096, 4096)], 4100) := by
    decide +kernel
  obtain ⟨r, hr, hfacts⟩ := Option.map_eq_some_iff.mp hend
  obtain ⟨hdead, hrest⟩ := Prod.mk.inj hfacts
  obtain ⟨hplaces, hsize⟩ := Prod.mk.inj hrest
  have hrun : Run step (fun a op => Promised a op ∧ CutsInside a op) resourceArena r.1 r.2 :=
    Run.of_allowed hr (by decide +kernel)
  refine ⟨r.1, r.2, hr, ?_, hplaces⟩
  apply (saves_live_over_runs resourceArena_created hrun).mpr
  exact ⟨of_decide_eq_true hdead, by rw [hsize]; decide⟩

/-- Both pages are live in one segment each: the walk starts again behind the second. -/
theorem walk_starts_again : ∃ l a,
    Run step (fun a op => Promised a op ∧ CutsInside a op) resourceArena l a ∧ ¬SavesLive a := by
  have hend : (exec step resourceArena [.alloc pageRequest none, .alloc pageRequest none]).map
      (fun r => decide (EndsDead (segments r.2))) = some false := by
    decide +kernel
  obtain ⟨r, hr, hdead⟩ := Option.map_eq_some_iff.mp hend
  have hrun : Run step (fun a op => Promised a op ∧ CutsInside a op) resourceArena r.1 r.2 :=
    Run.of_allowed hr (by decide +kernel)
  refine ⟨r.1, r.2, hrun, fun hsaves => ?_⟩
  have I : Tidy [⟨4096, 8192, none, false⟩] r.2 :=
    hrun.invariant (Tidy _) resourceArena_created.tidy fun s op w t I hok hs =>
      I.step hok.1 hok.2 hs
  obtain ⟨segs, bins, areas, v, -⟩ := I.shown
  have hsegs := v.listed.segments_eq
  rw [hsegs] at hdead
  exact of_decide_eq_false hdead (v.listed.of_savesLive hsaves).1

end PvrServices.Arenas
