import PvrServices.ArenaSpans

set_option autoImplicit false

/-!
# Spans over runs

A span goes back to the importer with its last block, unless a sum of `RA_Alloc` has wrapped:
a span that the second attempt does not accept is not given back.
-/
namespace PvrServices.Arenas
open Words HashTable LinkedRing Tiling Runs

/-- What the importer promises: spans that are quantum-aligned, long enough, clear of the
    outstanding ones and mapped with the flags of the request. -/
def Granted (a : RaArena) : Op → Prop
  | .alloc x answer =>
    (x.alignment ≤ 1 ∨ x.alignment ∣ a.quantum ∨ a.quantum < x.alignment) ∧
    ∀ i ∈ answer, a.quantum ∣ i.base ∧ importSize a.quantum x.size x.alignment ≤ i.size ∧
      0 < i.size ∧ i.base + i.size ≤ 4294967296 ∧ i.mapping.map BmMapping.flags = some x.flags ∧
      ∀ j ∈ outstanding a.calls, i.Apart j
  | .free _ _ => True

instance (a : RaArena) (op : Op) : Decidable (Granted a op) :=
  match op with
  | .alloc _ _ => inferInstanceAs (Decidable (_ ∧ _))
  | .free _ _ => inferInstanceAs (Decidable True)

def grownSize (quantum : ℕ) (x : Request) : ℕ :=
  if x.alignment > quantum then x.size + (x.alignment - 1) else x.size

/-- The request starts inside the segment that the search finds; or nothing fits and the
    importer, asked for a size that has not wrapped, returns a span that ends below the end of
    the address space, unless the block ends there as well. -/
def Unwrapped (a : RaArena) : Op → Prop
  | .alloc x answer =>
    (∀ s ∈ segments a, Found a x s → Within x s) ∧
    (NothingFits x (segments a) → ∀ i ∈ answer, grownSize a.quantum x + a.quantum - 1 < 4294967296 ∧
      (i.base + i.size < 4294967296 ∨ alignedBase i.base x.alignment + x.size = 4294967296))
  | .free _ _ => True

/-- The outstanding spans are the ones with blocks in them, and a span went back for each
    call of the import-free callback. -/
structure Returned (blocks : Blocks) (a : RaArena) : Prop where
  matched : ∀ c base mapping d, a.calls = c ++ .importFree base mapping :: d →
    ∃ i ∈ outstanding c, i.base = base ∧ i.mapping = mapping
  apart : (outstanding a.calls).Pairwise Import.Apart
  kept : ∀ i ∈ outstanding a.calls, ∃ b x, blocks b = some x ∧ i.base ≤ b ∧ b < i.base + i.size
  placed : ∀ b x, blocks b = some x → ∃ i ∈ outstanding a.calls, i.base ≤ b ∧ b < i.base + i.size
  all_back : (∀ b, blocks b = none) → outstanding a.calls = [] ∧ segments a = [] ∧
    a.segmentHash.entries = [] ∧ raDelete a = some []

/-- A step takes a span away from the outstanding ones only when it frees the last block in it. -/
def ReturnsLast (blocks : Blocks) (a a' : RaArena) (op : Op) : Prop :=
  ∀ i ∈ outstanding a.calls, i ∈ outstanding a'.calls ∨ ∃ b backing, op = .free b backing ∧
    blocks b ≠ none ∧ (i.base ≤ b ∧ b < i.base + i.size) ∧
    ∀ b', b' ≠ b → blocks b' ≠ none → b' < i.base ∨ i.base + i.size ≤ b'

structure SpanInv (a : RaArena) (blocks : Blocks) : Prop where
  shown : ∃ segs bins areas, Linked a segs bins [] ∧ Layout areas segs ∧
    Books [] (outstanding a.calls) areas ∧ Held (fun _ _ => True) blocks (lives segs) ∧
    ∀ ar ∈ areas, ar.Used
  matched : ∀ c base mapping d, a.calls = c ++ .importFree base mapping :: d →
    ∃ i ∈ outstanding c, i.base = base ∧ i.mapping = mapping
  quantum_pos : 0 < a.quantum
  plenty : ∀ k, a.os.grants k = true

section
variable {a a' : RaArena} {segs segs' : List Seg} {s : Seg} {bins : ℕ → List ℕ} {x : Request}
  {areas : List Area} {ar : Area} {c : List Call} {blocks : Blocks} {o : List Import} {w : Result}
  {i : Import} {quantum : ℕ}

theorem le_roundUp {n q : ℕ} (h : 0 < q) : n ≤ (n + q - 1) / q * q := by
  have hdm := Nat.div_add_mod (n + q - 1) q
  have hmod := Nat.mod_lt (n + q - 1) h
  rw [Nat.mul_comm] at hdm
  omega

theorem le_importSize (hq : 0 < quantum) (h : grownSize quantum x + quantum - 1 < 4294967296) :
    grownSize quantum x ≤ importSize quantum x.size x.alignment ∧
      quantum ≤ importSize quantum x.size x.alignment := by
  have hgrown : (if x.alignment > quantum then u32 (x.size + (x.alignment - 1)) else x.size) =
      grownSize quantum x := by
    unfold grownSize at h ⊢
    split
    · rename_i hal
      rw [if_pos hal] at h
      exact u32_of_lt (by omega)
    · rfl
  have hpos : 0 < grownSize quantum x := by
    have := x.size_pos
    unfold grownSize
    split <;> omega
  unfold importSize
  simp only [hgrown]
  rw [u32_of_lt h]
  have hle := le_roundUp (n := grownSize quantum x) hq
  refine ⟨hle, Nat.le_of_dvd (by omega) (Nat.dvd_mul_left _ _)⟩

theorem startIn_span (q : ℕ) (hal : x.alignment ≤ 1 ∨ x.alignment ∣ quantum ∨ quantum < x.alignment)
    (hq : 0 < quantum) (hb : quantum ∣ i.base)
    (hg : grownSize quantum x ≤ i.size) (hQ : quantum ≤ i.size)
    (hend : i.base + i.size ≤ 4294967296) :
    i.base ≤ startIn x (i.segment q) ∧ startIn x (i.segment q) + x.size ≤ i.base + i.size := by
  have hseg : (i.segment q).base = i.base := rfl
  rcases Nat.lt_or_ge 1 x.alignment with h1 | h1
  · rcases Nat.lt_or_ge quantum x.alignment with hlt | hge
    · have hgs : grownSize quantum x = x.size + (x.alignment - 1) := if_pos hlt
      have := x.size_pos
      obtain ⟨-, hle, hst⟩ := startIn_exact (x := x) (s := i.segment q) h1 (by omega)
      omega
    · have hdvd : x.alignment ∣ i.base := by
        rcases hal with h | h | h
        · omega
        · exact Nat.dvd_trans h hb
        · omega
      have hgs : grownSize quantum x = x.size := if_neg (by omega)
      obtain ⟨hd, hle, hst⟩ := startIn_exact (x := x) (s := i.segment q) h1 (by omega)
      -- two multiples of the alignment less than one alignment apart
      have heq : startIn x (i.segment q) = i.base := by
        have hsub := Nat.dvd_sub hd hdvd
        have hz := Nat.eq_zero_of_dvd_of_lt hsub (by omega)
        omega
      omega
  · have hgs : grownSize quantum x = x.size := if_neg (by omega)
    rw [startIn_le_one h1]
    omega

theorem Import.chosen (q : ℕ) (h₁ : i.base ≤ startIn x (i.segment q))
    (h₂ : startIn x (i.segment q) + x.size ≤ i.base + i.size)
    (hflags : i.mapping.map BmMapping.flags = some x.flags)
    (htop : i.base + i.size < 4294967296 ∨ alignedBase i.base x.alignment + x.size = 4294967296) :
    Chosen x (i.segment q) ∧ Within x (i.segment q) := by
  have hseg : startIn x (i.segment q) = alignedBase i.base x.alignment := rfl
  have hpos := x.size_pos
  refine ⟨⟨rfl, ?_, ?_⟩, ?_⟩
  · rw [pvrLog2_eq x.size_lt, pvrLog2_eq (n := (i.segment q).size) i.size_lt]
    exact Nat.log_mono_right (show x.size ≤ i.size by omega)
  · obtain ⟨m, hm, hmf⟩ := Option.map_eq_some_iff.mp hflags
    have htest : ¬ u32 (i.base + i.size) < u32 (alignedBase i.base x.alignment + x.size) := by
      rw [u32_eq_mod, u32_eq_mod]
      omega
    unfold fits
    simp [Import.segment, htest, hm, hmf]
  · change startIn x (i.segment q) < i.base + i.size
    omega

theorem matched_append {calls : List Call}
    (h : ∀ c base mapping d, calls = c ++ .importFree base mapping :: d →
      ∃ i ∈ outstanding c, i.base = base ∧ i.mapping = mapping)
    (h' : ∀ d base mapping e, c = d ++ .importFree base mapping :: e →
      ∃ i ∈ outstanding (calls ++ d), i.base = base ∧ i.mapping = mapping) :
    ∀ d base mapping e, calls ++ c = d ++ .importFree base mapping :: e →
      ∃ i ∈ outstanding d, i.base = base ∧ i.mapping = mapping := by
  intro d base mapping e he
  rcases List.append_eq_append_iff.mp he with ⟨d', rfl, hd⟩ | ⟨d', hc, hd⟩
  · exact h' d' base mapping e hd
  · cases d' with
    | nil =>
      obtain rfl : calls = d := by simpa using hc
      simpa using h' [] base mapping e (by simpa using hd.symm)
    | cons y d' =>
      rw [List.cons_append, List.cons.injEq] at hd
      rw [← hd.1] at hc
      exact h d base mapping d' hc

theorem no_importFree (h : c = [] ∨ ∃ asked i, c = [.imported asked i]) (d : List Call) (base : ℕ)
    (mapping : Option BmMapping) (e : List Call) : c ≠ d ++ .importFree base mapping :: e := by
  rintro rfl
  rcases h with h | ⟨asked, i, h⟩
  · simp at h
  · have hm : Call.importFree base mapping ∈ [Call.imported asked i] := by simp [← h]
    simp at hm

theorem settle_imports (h : c = [] ∨ ∃ asked i, c = [.imported asked i]) :
    ∀ j ∈ o, j ∈ c.foldl settle o := by
  rcases h with rfl | ⟨asked, i, rfl⟩
  · exact fun j hj => hj
  · exact fun j hj => List.mem_cons_of_mem _ hj

theorem HandsBack.matched {live : List Seg} {base : ℕ} {calls : List Call}
    (h : HandsBack (outstanding calls) live base c) (hc : ∀ d y e, c = d ++ y :: e →
      ∀ b mapping, y = .importFree b mapping → d.foldl settle (outstanding calls) =
        outstanding calls) :
    ∀ d b mapping e, c = d ++ .importFree b mapping :: e →
      ∃ i ∈ outstanding (calls ++ d), i.base = b ∧ i.mapping = mapping := by
  intro d b mapping e he
  rw [outstanding_append, hc d _ e he b mapping rfl]
  exact h.known b mapping (by simp [he])

theorem Free.before {base : ℕ} (h : Free base segs segs' c) :
    ∀ d y e, c = d ++ y :: e → ∀ b mapping, y = .importFree b mapping → d.foldl settle o = o := by
  rintro d y e he b mapping rfl
  cases h with
  | unknown => simp at he
  | @known l r s c _ hl hb hc =>
    refine settle_backing fun z hz => ?_
    cases hr : (release l s r).2 with
    | none =>
      rw [hr, handBack, List.append_nil] at he
      exact hc z (by simp [he, hz])
    | some p =>
      rw [hr, handBack] at he
      rcases List.append_eq_append_iff.mp he with ⟨d', rfl, hd⟩ | ⟨d', hc', hd⟩
      · cases d' with
        | nil => exact hc z (by simpa using hz)
        | cons y d' => simp at hd
      · exact hc z (by simp [hc', hz])

theorem SpanInv.step {op : Op} (I : SpanInv a blocks) (hg : Granted a op) (hu : Unwrapped a op)
    (hs : step a op = some (w, a')) :
    SpanInv a' (record blocks (op, w)) ∧ ReturnsLast blocks a a' op := by
  obtain ⟨segs, bins, areas, v, y, k, hh, hused⟩ := I.shown
  have hn := v.listed.nodup
  cases op with
  | alloc x answer =>
    obtain ⟨hal, hans⟩ := hg
    obtain ⟨hin, hfresh⟩ := hu
    rw [v.listed.segments_eq] at hin hfresh
    obtain ⟨w', a₁, segs', bins', c, he, hal', v', hk, hc⟩ := raAlloc_simulated v x answer
    rw [Arenas.step, he] at hs
    cases hs
    obtain ⟨areas', y', k', hused', ht, hcalls⟩ := hal'.used I.plenty y hn k hused
      (fun s h _ hf => hin s h hf) (fun hnone i hi => by
        obtain ⟨hb, hsize, hpos, hend, hflags, hap⟩ := hans i hi
        obtain ⟨hround, htop⟩ := hfresh hnone i hi
        obtain ⟨h₁, h₂⟩ := le_importSize I.quantum_pos hround
        refine ⟨hpos, hend, hap, fun q => ?_⟩
        obtain ⟨h₃, h₄⟩ := startIn_span q hal I.quantum_pos hb (by omega) (by omega) hend
        exact Import.chosen q h₃ h₄ hflags htop)
    refine ⟨⟨⟨segs', bins', areas', v', y', ?_, hh.turnover ht y'.lives_nodup, hused'⟩, ?_, ?_, ?_⟩, ?_⟩
    · rw [hc, outstanding_append]
      exact k'
    · rw [hc]
      exact matched_append I.matched fun d b m e h => absurd h (no_importFree hcalls d b m e)
    · rw [hk.quantum]
      exact I.quantum_pos
    · rw [hk.grants]
      exact I.plenty
    · intro j hj
      left
      rw [hc, outstanding_append]
      exact settle_imports hcalls j hj
  | free base backing =>
    obtain ⟨segs', bins', c, hf, v', hk, hc⟩ := raFree_simulated v base backing
    cases hs
    obtain ⟨areas', y', k', hused', hback⟩ := hf.used y hn k hused
    refine ⟨⟨⟨segs', bins', areas', v', y', ?_, hf.held hh y.lives_nodup, hused'⟩, ?_, ?_, ?_⟩, ?_⟩
    · rw [hc, outstanding_append]
      exact k'
    · rw [hc]
      exact matched_append I.matched (hback.matched hf.before)
    · rw [hk.quantum]
      exact I.quantum_pos
    · rw [hk.grants]
      exact I.plenty
    · intro j hj
      rcases hback.last j hj with h | ⟨⟨s, hs, hsb⟩, hrange, hothers⟩
      · left
        rw [hc, outstanding_append]
        exact h
      · right
        refine ⟨base, backing, rfl, ?_, hrange, ?_⟩
        · obtain ⟨z, hz, -⟩ := hh.served s hs
          rw [← hsb, hz]
          simp
        · intro b' hne hb'
          obtain ⟨z, hz⟩ := Option.ne_none_iff_exists'.mp hb'
          obtain ⟨t, ht, htb⟩ := hh.held b' z hz
          have := hothers t ht (htb ▸ hne)
          rwa [htb] at this

theorem SpanInv.returned (I : SpanInv a blocks) : Returned blocks a := by
  obtain ⟨segs, bins, areas, v, y, k, hh, hused⟩ := I.shown
  have hperm : (areas.map Area.extent).Perm ((outstanding a.calls).map Import.extent) := by
    simpa [Books] using k
  refine ⟨I.matched, ?_, ?_, ?_, ?_⟩
  · have hap : (areas.map Area.extent).Pairwise fun e f =>
        e.base + e.size ≤ f.base ∨ f.base + f.size ≤ e.base :=
      List.Pairwise.map _ (fun _ _ h => h) (y.apart.imp fun h => Or.inl h)
    exact List.Pairwise.of_map Import.extent (fun _ _ h => h)
      ((hperm.pairwise_iff fun h => Or.symm h).mp hap)
  · intro i hi
    obtain ⟨ar, har, he⟩ := List.mem_map.mp (hperm.mem_iff.mpr (List.mem_map_of_mem hi))
    have hb : ar.base = i.base := congrArg Extent.base he
    have hsz : ar.size = i.size := congrArg Extent.size he
    obtain ⟨s, hs, hl⟩ := (hused ar har).live
    have hm : s ∈ lives segs := by
      rw [y.lives_eq]
      exact List.mem_flatMap.mpr ⟨ar, har, mem_lives.mpr ⟨hs, hl⟩⟩
    obtain ⟨x, hx, -⟩ := hh.served s hm
    have := (y.tiled ar har).tiles.mem hs
    exact ⟨s.base, x, hx, by omega, by omega⟩
  · intro b x hx
    obtain ⟨s, hs, rfl⟩ := hh.held b x hx
    obtain ⟨ar, har, -, hlo, hhi⟩ := y.area_of_live hs
    obtain ⟨i, hi, he⟩ := k.exists_import har
    have hb : i.base = ar.base := congrArg Extent.base he
    have hsz : i.size = ar.size := congrArg Extent.size he
    exact ⟨i, hi, by omega, by omega⟩
  · intro hnone
    have hlive : lives segs = [] := by
      rw [List.eq_nil_iff_forall_not_mem]
      intro s hs
      obtain ⟨x, hx, -⟩ := hh.served s hs
      rw [hnone] at hx
      cases hx
    have hareas : areas = [] := by
      rw [List.eq_nil_iff_forall_not_mem]
      intro ar har
      obtain ⟨s, hs, hl⟩ := (hused ar har).live
      have hm : s ∈ lives segs := by
        rw [y.lives_eq]
        exact List.mem_flatMap.mpr ⟨ar, har, mem_lives.mpr ⟨hs, hl⟩⟩
      simp [hlive] at hm
    subst hareas
    have hout : outstanding a.calls = [] := by simpa using hperm.symm
    obtain rfl : segs = [] := by simpa using y.segs_eq
    refine ⟨hout, v.listed.segments_eq, ?_, ?_⟩
    · rw [List.eq_nil_iff_forall_not_mem]
      rintro ⟨b, p⟩ hm
      obtain ⟨s, hs, -⟩ := (v.hashed.mem b p).mp hm
      simp at hs
    · have hh : a.headSegment = 0 := by
        change nextOf a 0 = 0
        simpa using v.listed.order.next_sentinel.symm
      unfold raDelete raDeleteLoop
      rw [if_pos hh]

theorem spanInv_of_created {os : Os} {memory : ℕ → Bt} {base : ℕ} {mapping : Option BmMapping}
    {backing : Bool}
    (h : raCreate os memory base 0 mapping quantum true backing = some (some a))
    (hq : 0 < quantum) (hplenty : ∀ n, os.grants n = true) : SpanInv a (fun _ => none) := by
  obtain ⟨segs, bins, v, hc, -, hqa, hg, hsegs, -⟩ := raCreate_linked h
  obtain rfl := hsegs rfl
  refine ⟨⟨[], bins, [], v, ⟨rfl, by simp, .nil, by simp⟩, ?_, .empty (by simp), by simp⟩, ?_, ?_, ?_⟩
  · rw [hc]
    exact .refl _
  · intro c b m d he
    rw [hc] at he
    simp at he
  · rw [hqa]
    exact hq
  · rw [hg]
    exact hplenty

theorem spanInv_over_run {l : List (Op × Result)} (I : SpanInv a (fun _ => none))
    (run : Run Arenas.step (fun a op => Granted a op ∧ Unwrapped a op) a l a') :
    SpanInv a' (l.foldl record fun _ => none) :=
  run.ledger SpanInv record _ I fun _ _ _ _ _ I h hs => (I.step h.1 h.2 hs).1

/-- Spans go back with their last block, over all runs in which no sum wraps. -/
theorem spans_returned_over_runs {os : Os} {memory : ℕ → Bt} {base : ℕ}
    {mapping : Option BmMapping} {backing : Bool} {l : List (Op × Result)}
    (h : raCreate os memory base 0 mapping quantum true backing = some (some a))
    (hq : 0 < quantum) (hplenty : ∀ n, os.grants n = true)
    (run : Run Arenas.step (fun a op => Granted a op ∧ Unwrapped a op) a l a') :
    Returned (l.foldl record fun _ => none) a' ∧
    ∀ op w a'', Granted a' op → Unwrapped a' op → Arenas.step a' op = some (w, a'') →
      ReturnsLast (l.foldl record fun _ => none) a' a'' op := by
  have I := spanInv_over_run (spanInv_of_created h hq hplenty) run
  exact ⟨I.returned, fun op w a'' hg hu hs => (I.step hg hu hs).2⟩

end

instance (x : Request) (s : Seg) : Decidable (Chosen x s) :=
  decidable_of_iff (s.type = .free ∧ pvrLog2 x.size ≤ pvrLog2 s.size ∧
    fits x.size x.flags x.alignment s.toTag = true)
    ⟨fun h => ⟨h.1, h.2.1, h.2.2⟩, fun h => ⟨h.free, h.bin, h.fits⟩⟩

instance (a : RaArena) (op : Op) : Decidable (Unwrapped a op) :=
  match op with
  | .alloc x _ =>
    have (s : Seg) : Decidable (Found a x s) := inferInstanceAs (Decidable (_ = _))
    have (s : Seg) : Decidable (Within x s) := inferInstanceAs (Decidable (_ < _))
    have : Decidable (NothingFits x (segments a)) :=
      inferInstanceAs (Decidable (∀ s ∈ segments a, _ → _))
    inferInstanceAs (Decidable (_ ∧ _))
  | .free _ _ => inferInstanceAs (Decidable True)

theorem spans_returned_over_sample : ∃ l a, exec step sampleArena sampleOps = some (l, a) ∧
    Returned (l.foldl record fun _ => none) a := by
  obtain ⟨⟨l, a⟩, h⟩ := Option.isSome_iff_exists.mp
    (show (exec step sampleArena sampleOps).isSome = true by decide +kernel)
  exact ⟨l, a, h, (spans_returned_over_runs sampleArena_eq (by decide) (fun _ => rfl)
    (Run.of_allowed h (by decide +kernel))).1⟩

theorem span_not_returned : ∃ l a, exec step sampleArena wrappingOps = some (l, a) ∧
    Run step Granted sampleArena l a ∧ ¬ Returned (l.foldl record fun _ => none) a := by
  have hrun : (exec step sampleArena wrappingOps).map
      (fun r => (r.1.map Prod.snd, (outstanding r.2.calls).isEmpty)) = some ([none], false) := by
    decide +kernel
  obtain ⟨⟨l, a⟩, h, hr⟩ := Option.map_eq_some_iff.mp hrun
  refine ⟨l, a, h, Run.of_allowed h (by decide +kernel), fun hret => ?_⟩
  have hl := exec_zip h
  rw [(Prod.mk.inj hr).1] at hl
  have hout : (outstanding a.calls).isEmpty = false := (Prod.mk.inj hr).2
  rw [hl] at hret
  have := (hret.all_back fun b => rfl).1
  simp [this] at hout

end PvrServices.Arenas
