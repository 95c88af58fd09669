import PvrServices.HashTable

set_option autoImplicit false

/-!
The hash table is a set of buckets. It behaves as a finite map as long as no present key is
inserted again.
-/
namespace PvrServices.HashTable
open Words

section
variable {K : Type} [DecidableEq K] {hash : K → ℕ} {h : Table K} {os : Os} {k : K}

def Table.entries (h : Table K) : List (K × ℕ) := (List.range h.size).flatMap h.bucketTable

def Table.lookup (hash : K → ℕ) (h : Table K) (k : K) : Option ℕ :=
  ((h.bucketTable (keyToIndex hash k h.size)).find? (fun e => e.1 = k)).map Prod.snd

/-- Every bucket sits in the chain of its key, and none is there twice. -/
structure Homed (hash : K → ℕ) (h : Table K) : Prop where
  size_pos : 0 < h.size
  minimumSize_pos : 0 < h.minimumSize
  home : ∀ i < h.size, ∀ e ∈ h.bucketTable i, keyToIndex hash e.1 h.size = i
  nodup : ∀ i < h.size, (h.bucketTable i).Nodup

/-- Every bucket sits in the chain of its key, and no key sits there twice. -/
structure Wf (hash : K → ℕ) (h : Table K) : Prop where
  size_pos : 0 < h.size
  minimumSize_pos : 0 < h.minimumSize
  home : ∀ i < h.size, ∀ e ∈ h.bucketTable i, keyToIndex hash e.1 h.size = i
  distinct : ∀ i < h.size, ((h.bucketTable i).map Prod.fst).Nodup

omit [DecidableEq K] in
theorem keyToIndex_lt (hash : K → ℕ) (k : K) {size : ℕ} (hs : 0 < size) : keyToIndex hash k size < size :=
  Nat.mod_lt _ hs

omit [DecidableEq K] in
theorem Homed.mem_entries (w : Homed hash h) (e : K × ℕ) :
    e ∈ h.entries ↔ e ∈ h.bucketTable (keyToIndex hash e.1 h.size) := by
  unfold Table.entries
  rw [List.mem_flatMap]
  constructor
  · rintro ⟨i, hi, he⟩
    rwa [w.home i (List.mem_range.mp hi) e he]
  · intro he
    exact ⟨_, List.mem_range.mpr (keyToIndex_lt hash e.1 w.size_pos), he⟩

omit [DecidableEq K] in
theorem Homed.entries_nodup (w : Homed hash h) : h.entries.Nodup := by
  unfold Table.entries
  rw [List.nodup_flatMap]
  refine ⟨fun i hi => w.nodup i (List.mem_range.mp hi), ?_⟩
  refine List.nodup_range.pairwise_of_forall_ne ?_
  intro i hi j hj hij e hei hej
  have hie := w.home i (List.mem_range.mp hi) e hei
  have hje := w.home j (List.mem_range.mp hj) e hej
  exact hij (hie.symm.trans hje)

omit [DecidableEq K] in
theorem foldlM_chainInsert {n : ℕ} (hn : n ≠ 0) (es : List (K × ℕ)) (t : ℕ → List (K × ℕ)) :
    es.foldlM (fun table e => chainInsert hash table n e) t =
      some (fun i => (es.filter (fun e => keyToIndex hash e.1 n = i)).reverse ++ t i) := by
  induction es generalizing t with
  | nil => rfl
  | cons e es ih =>
    have hstep : chainInsert hash t n e =
        some (Function.update t (keyToIndex hash e.1 n) (e :: t (keyToIndex hash e.1 n))) := by
      simp [chainInsert, hn]
    rw [List.foldlM_cons, hstep, Option.bind_eq_bind, Option.bind_some, ih]
    congr 1
    funext i
    by_cases hi : keyToIndex hash e.1 n = i
    · subst hi
      simp
    · simp [hi, Ne.symm hi]

omit [DecidableEq K] in
theorem rehash_eq {n : ℕ} (hn : n ≠ 0) (h : Table K) :
    rehash hash h.bucketTable h.size n =
      some (fun i => (h.entries.filter (fun e => keyToIndex hash e.1 n = i)).reverse) := by
  unfold rehash
  rw [foldlM_chainInsert hn]
  simp [Table.entries]

omit [DecidableEq K] in
theorem rehash_zero {e : K × ℕ} (he : e ∈ h.entries) :
    rehash hash h.bucketTable h.size 0 = none := by
  unfold rehash
  change h.entries.foldlM _ _ = none
  cases hl : h.entries with
  | nil => simp [hl] at he
  | cons x l => simp [chainInsert]

omit [DecidableEq K] in
theorem Homed.resize (w : Homed hash h) (os : Os) {n : ℕ} (hn : n = 0 → ∃ e, e ∈ h.entries) :
    Homed hash (resize hash os h n).1 ∧
      ∀ e, e ∈ (resize hash os h n).1.entries ↔ e ∈ h.entries := by
  unfold HashTable.resize
  split
  · exact ⟨w, fun _ => Iff.rfl⟩
  split
  · exact ⟨w, fun _ => Iff.rfl⟩
  by_cases h0 : n = 0
  · obtain ⟨e, he⟩ := hn h0
    subst h0
    rw [rehash_zero he]
    exact ⟨w, fun _ => Iff.rfl⟩
  · rw [rehash_eq h0]
    have hm : ∀ e i, e ∈ (h.entries.filter (fun e => keyToIndex hash e.1 n = i)).reverse ↔
        e ∈ h.entries ∧ keyToIndex hash e.1 n = i := by
      intro e i
      simp
    have w' : Homed hash ({ h with
        bucketTable := fun i =>
          (h.entries.filter (fun e => keyToIndex hash e.1 n = i)).reverse
        size := n } : Table K) := by
      refine ⟨Nat.pos_of_ne_zero h0, w.minimumSize_pos, fun i _ e he => ((hm e i).mp he).2, ?_⟩
      intro i _
      rw [List.nodup_reverse]
      exact w.entries_nodup.filter _
    refine ⟨w', fun e => ?_⟩
    rw [w'.mem_entries]
    simp [hm]

omit [DecidableEq K] in
theorem resize_grants (hash : K → ℕ) (h : Table K) (os : Os) (n : ℕ) : (resize hash os h n).2.grants = os.grants := by
  unfold resize
  split
  · rfl
  · split
    · rename_i os' heq
      exact congrArg (fun p => p.2.grants) heq.symm
    · rename_i os' heq
      have hos : os'.grants = os.grants := congrArg (fun p => p.2.grants) heq.symm
      split <;> exact hos

omit [DecidableEq K] in
theorem Homed.setChain (w : Homed hash h) {i : ℕ} {l : List (K × ℕ)}
    (hhome : ∀ e ∈ l, keyToIndex hash e.1 h.size = i) (hnodup : l.Nodup) (c : ℕ) :
    Homed hash { h with bucketTable := Function.update h.bucketTable i l, count := c } ∧
    ∀ e, e ∈ Table.entries { h with
      bucketTable := Function.update h.bucketTable i l
      count := c } ↔ if keyToIndex hash e.1 h.size = i then e ∈ l else e ∈ h.entries := by
  set t : Table K := { h with bucketTable := Function.update h.bucketTable i l, count := c } with ht
  have wt : Homed hash t := by
    refine ⟨w.size_pos, w.minimumSize_pos, fun j hj e he => ?_, fun j hj => ?_⟩
    · by_cases hji : j = i
      · simp only [ht, hji, Function.update_self] at he
        exact (hhome e he).trans hji.symm
      · simp only [ht, Function.update_of_ne hji] at he
        exact w.home j hj e he
    · by_cases hji : j = i
      · simpa only [ht, hji, Function.update_self] using hnodup
      · simpa only [ht, Function.update_of_ne hji] using w.nodup j hj
  refine ⟨wt, fun e => ?_⟩
  rw [wt.mem_entries, w.mem_entries]
  by_cases hik : keyToIndex hash e.1 h.size = i
  · rw [if_pos hik]
    simp only [ht, hik, Function.update_self]
  · rw [if_neg hik]
    simp only [ht, Function.update_of_ne hik]

omit [DecidableEq K] in
theorem Homed.cons (w : Homed hash h) {v : ℕ} (hk : (k, v) ∉ h.entries) (c : ℕ) :
    Homed hash { h with
      bucketTable := Function.update h.bucketTable (keyToIndex hash k h.size)
        ((k, v) :: h.bucketTable (keyToIndex hash k h.size))
      count := c } ∧
    ∀ e, e ∈ Table.entries { h with
      bucketTable := Function.update h.bucketTable (keyToIndex hash k h.size)
        ((k, v) :: h.bucketTable (keyToIndex hash k h.size))
      count := c } ↔ e = (k, v) ∨ e ∈ h.entries := by
  have hlt := keyToIndex_lt hash k w.size_pos
  have hnew : (k, v) ∉ h.bucketTable (keyToIndex hash k h.size) :=
    fun hm => hk ((w.mem_entries (k, v)).mpr hm)
  have hhome : ∀ e ∈ (k, v) :: h.bucketTable (keyToIndex hash k h.size),
      keyToIndex hash e.1 h.size = keyToIndex hash k h.size := by
    intro e he
    rcases List.mem_cons.mp he with rfl | he
    · rfl
    · exact w.home _ hlt e he
  obtain ⟨wt, hmem⟩ := w.setChain hhome (List.nodup_cons.mpr ⟨hnew, w.nodup _ hlt⟩) c
  refine ⟨wt, fun e => (hmem e).trans ?_⟩
  by_cases hik : keyToIndex hash e.1 h.size = keyToIndex hash k h.size
  · rw [if_pos hik, List.mem_cons, w.mem_entries, hik]
  · have hek : e ≠ (k, v) := fun he => hik (by rw [he])
    rw [if_neg hik]
    exact (or_iff_right hek).symm

omit [DecidableEq K] in
theorem Homed.insert (w : Homed hash h) {v : ℕ} (hk : (k, v) ∉ h.entries) {ok : Bool}
    {h' : Table K} {os' : Os} (hr : hashInsertExtended hash os h k v = (ok, h', os')) :
    os'.grants = os.grants ∧ ok = os.grants os.calls ∧
      (ok = false → h' = h ∧ os' = { os with calls := os.calls + 1 }) ∧
      (ok = true → Homed hash h' ∧ ∀ e, e ∈ h'.entries ↔ e = (k, v) ∨ e ∈ h.entries) := by
  unfold hashInsertExtended osAllocMem at hr
  cases hg : os.grants os.calls with
  | false =>
    simp only [hg, Prod.mk.injEq] at hr
    obtain ⟨rfl, rfl, rfl⟩ := hr
    exact ⟨rfl, rfl, fun _ => ⟨rfl, rfl⟩, by simp⟩
  | true =>
    have hs : h.size ≠ 0 := Nat.pos_iff_ne_zero.mp w.size_pos
    simp only [hg, chainInsert, hs, ↓reduceIte] at hr
    generalize u32 (h.count + 1) = c at hr
    obtain ⟨wt, hmem⟩ := w.cons hk c
    set t : Table K := { h with
      bucketTable := Function.update h.bucketTable (keyToIndex hash k h.size)
        ((k, v) :: h.bucketTable (keyToIndex hash k h.size))
      count := c } with ht
    have hr' := wt.resize ⟨os.grants, os.calls + 1⟩ (n := u32 (h.size <<< 1))
      (fun _ => ⟨(k, v), (hmem _).mpr (Or.inl rfl)⟩)
    have hgr := resize_grants hash t ⟨os.grants, os.calls + 1⟩ (u32 (h.size <<< 1))
    split at hr
    · simp only [Prod.mk.injEq] at hr
      obtain ⟨rfl, rfl, rfl⟩ := hr
      exact ⟨hgr, rfl, by simp, fun _ => ⟨hr'.1, fun e => (hr'.2 e).trans (hmem e)⟩⟩
    · simp only [Prod.mk.injEq] at hr
      obtain ⟨rfl, rfl, rfl⟩ := hr
      exact ⟨rfl, rfl, by simp, fun _ => ⟨wt, hmem⟩⟩

theorem Homed.erase (w : Homed hash h) {v : ℕ}
    (hf : (h.bucketTable (keyToIndex hash k h.size)).find? (fun e => e.1 = k) = some (k, v))
    (c : ℕ) :
    Homed hash { h with
      bucketTable := Function.update h.bucketTable (keyToIndex hash k h.size)
        ((h.bucketTable (keyToIndex hash k h.size)).eraseP (fun e => e.1 = k))
      count := c } ∧
    ∀ e, e ∈ Table.entries { h with
      bucketTable := Function.update h.bucketTable (keyToIndex hash k h.size)
        ((h.bucketTable (keyToIndex hash k h.size)).eraseP (fun e => e.1 = k))
      count := c } ↔ e ∈ h.entries ∧ e ≠ (k, v) := by
  have hlt := keyToIndex_lt hash k w.size_pos
  have herase : (h.bucketTable (keyToIndex hash k h.size)).eraseP (fun e => e.1 = k) =
      (h.bucketTable (keyToIndex hash k h.size)).erase (k, v) := by
    obtain ⟨hv, l, r, hlr, hl⟩ := List.find?_eq_some_iff_append.mp hf
    rw [hlr, List.eraseP_append_right _ (by simpa using hl), List.eraseP_cons_of_pos (by simp),
      List.erase_append_right _ ?_, List.erase_cons_head]
    intro hm
    simpa using hl _ hm
  rw [herase]
  have hhome : ∀ e ∈ (h.bucketTable (keyToIndex hash k h.size)).erase (k, v),
      keyToIndex hash e.1 h.size = keyToIndex hash k h.size :=
    fun e he => w.home _ hlt e (List.mem_of_mem_erase he)
  obtain ⟨wt, hmem⟩ := w.setChain hhome ((w.nodup _ hlt).erase _) c
  refine ⟨wt, fun e => (hmem e).trans ?_⟩
  by_cases hik : keyToIndex hash e.1 h.size = keyToIndex hash k h.size
  · rw [if_pos hik, (w.nodup _ hlt).mem_erase_iff, w.mem_entries, hik]
    exact and_comm
  · have hek : e ≠ (k, v) := fun he => hik (by rw [he])
    rw [if_neg hik]
    exact (and_iff_left hek).symm

/-- A removal reports a bucket of the key and deletes exactly it. -/
theorem Homed.remove (w : Homed hash h) {v : ℕ} {h' : Table K} {os' : Os}
    (hr : hashRemoveExtended hash os h k = (v, h', os')) :
    os'.grants = os.grants ∧ Homed hash h' ∧
      ((v = 0 ∧ (∀ u, (k, u) ∉ h.entries) ∧ h' = h ∧ os' = os) ∨
        ((k, v) ∈ h.entries ∧ ∀ e, e ∈ h'.entries ↔ e ∈ h.entries ∧ e ≠ (k, v))) := by
  unfold hashRemoveExtended at hr
  generalize u32Sub h.count 1 = c at hr
  cases hf : (h.bucketTable (keyToIndex hash k h.size)).find? (fun e => e.1 = k) with
  | none =>
    simp only [hf, Prod.mk.injEq] at hr
    obtain ⟨rfl, rfl, rfl⟩ := hr
    refine ⟨rfl, w, Or.inl ⟨rfl, ?_, rfl, rfl⟩⟩
    intro u hu
    have hm := (w.mem_entries (k, u)).mp hu
    simpa using List.find?_eq_none.mp hf _ hm
  | some e =>
    obtain ⟨x, y⟩ := e
    obtain rfl : x = k := by simpa using List.find?_some hf
    obtain ⟨wt, hmem⟩ := w.erase hf c
    have hx := (w.mem_entries (x, y)).mpr (List.mem_of_find?_eq_some hf)
    simp only [hf] at hr
    set t : Table K := { h with
      bucketTable := Function.update h.bucketTable (keyToIndex hash x h.size)
        ((h.bucketTable (keyToIndex hash x h.size)).eraseP (fun e => e.1 = x))
      count := c } with ht
    have hmin := wt.minimumSize_pos
    have hr' := wt.resize os (n := max (h.size >>> 1) h.minimumSize)
      (fun h0 => absurd h0 (by change 0 < h.minimumSize at hmin; omega))
    have hgr := resize_grants hash t os (max (h.size >>> 1) h.minimumSize)
    split at hr
    · simp only [Prod.mk.injEq] at hr
      obtain ⟨rfl, rfl, rfl⟩ := hr
      exact ⟨hgr, hr'.1, Or.inr ⟨hx, fun e => (hr'.2 e).trans (hmem e)⟩⟩
    · simp only [Prod.mk.injEq] at hr
      obtain ⟨rfl, rfl, rfl⟩ := hr
      exact ⟨rfl, wt, Or.inr ⟨hx, hmem⟩⟩

theorem hashRemoveExtended_fst (os : Os) (h : Table K) (k : K) :
    (hashRemoveExtended hash os h k).1 = hashRetrieveExtended hash h k := by
  unfold hashRemoveExtended hashRetrieveExtended
  dsimp only
  cases (h.bucketTable (keyToIndex hash k h.size)).find? (fun e => e.1 = k) with
  | none => rfl
  | some e => rfl

theorem Homed.retrieve (w : Homed hash h) (k : K) :
    (hashRetrieveExtended hash h k = 0 ∧ ∀ u, (k, u) ∉ h.entries) ∨
      (k, hashRetrieveExtended hash h k) ∈ h.entries := by
  cases hr : hashRemoveExtended hash ⟨fun _ => true, 0⟩ h k with
  | mk v rest =>
    have hv : v = hashRetrieveExtended hash h k := by
      rw [← hashRemoveExtended_fst ⟨fun _ => true, 0⟩ h k, hr]
    rw [← hv]
    cases (w.remove hr).2.2 with
    | inl hnone => exact .inl ⟨hnone.1, hnone.2.1⟩
    | inr hsome => exact .inr hsome.1

omit [DecidableEq K] in
theorem Wf.homed (w : Wf hash h) : Homed hash h :=
  ⟨w.size_pos, w.minimumSize_pos, w.home, fun i hi => (w.distinct i hi).of_map⟩

omit [DecidableEq K] in
theorem Homed.wf (w : Homed hash h)
    (hd : ∀ k u v, (k, u) ∈ h.entries → (k, v) ∈ h.entries → u = v) : Wf hash h := by
  refine ⟨w.size_pos, w.minimumSize_pos, w.home, fun i hi => ?_⟩
  refine List.Nodup.map_on ?_ (w.nodup i hi)
  rintro ⟨x, u⟩ hu ⟨y, v⟩ hv rfl
  have he : ∀ z, (x, z) ∈ h.bucketTable i → (x, z) ∈ h.entries := by
    intro z hz
    rw [w.mem_entries, w.home i hi _ hz]
    exact hz
  rw [hd x u v (he u hu) (he v hv)]

theorem find?_key_eq_some_iff {l : List (K × ℕ)} (hl : (l.map Prod.fst).Nodup) (e : K × ℕ) :
    l.find? (fun x => x.1 = e.1) = some e ↔ e ∈ l := by
  constructor
  · exact List.mem_of_find?_eq_some
  · intro he
    induction l with
    | nil => simp at he
    | cons x l ih =>
      rw [List.map_cons, List.nodup_cons] at hl
      by_cases hx : x.1 = e.1
      · have : x = e := by
          rcases List.mem_cons.mp he with rfl | he
          · rfl
          · exact absurd (hx ▸ List.mem_map_of_mem (f := Prod.fst) he) hl.1
        simp [this]
      · rw [List.find?_cons_of_neg (by simpa using hx)]
        exact ih hl.2 ((List.mem_cons.mp he).resolve_left (fun h => hx (h ▸ rfl)))

theorem Wf.lookup_eq_some_iff (w : Wf hash h) (k : K) (v : ℕ) :
    h.lookup hash k = some v ↔ (k, v) ∈ h.entries := by
  have hd := w.distinct _ (keyToIndex_lt hash k w.size_pos)
  have hf := find?_key_eq_some_iff hd (k, v)
  rw [w.homed.mem_entries]
  unfold Table.lookup
  constructor
  · intro hl
    obtain ⟨⟨x, y⟩, he, rfl⟩ := Option.map_eq_some_iff.mp hl
    obtain rfl : x = k := by simpa using List.find?_some he
    exact List.mem_of_find?_eq_some he
  · intro hm
    rw [hf.mpr hm]
    rfl

theorem Wf.unique (w : Wf hash h) (k : K) (u v : ℕ) (hu : (k, u) ∈ h.entries)
    (hv : (k, v) ∈ h.entries) : u = v := by
  have hl := (w.lookup_eq_some_iff k u).mpr hu
  rw [(w.lookup_eq_some_iff k v).mpr hv] at hl
  exact (Option.some.inj hl).symm

theorem retrieve_eq : hashRetrieveExtended hash h k = (h.lookup hash k).getD 0 := by
  unfold hashRetrieveExtended Table.lookup
  cases (h.bucketTable (keyToIndex hash k h.size)).find? (fun e => e.1 = k) <;> rfl

/-- An insertion either changes nothing or adds the one binding. -/
theorem Wf.insert (w : Wf hash h) (hk : h.lookup hash k = none) {v : ℕ} {ok : Bool}
    {h' : Table K} {os' : Os} (hr : hashInsertExtended hash os h k v = (ok, h', os')) :
    os'.grants = os.grants ∧ ok = os.grants os.calls ∧ Wf hash h' ∧
      h'.lookup hash = if ok then Function.update (h.lookup hash) k (some v)
        else h.lookup hash := by
  have hn : ∀ u, (k, u) ∉ h.entries := by
    intro u hu
    rw [(w.lookup_eq_some_iff k u).mpr hu] at hk
    cases hk
  obtain ⟨hg, hok, hf, ht⟩ := w.homed.insert (hn v) hr
  cases ok with
  | false =>
    obtain ⟨rfl, -⟩ := hf rfl
    exact ⟨hg, hok, w, rfl⟩
  | true =>
    obtain ⟨wt, hmem⟩ := ht rfl
    have w' : Wf hash h' := by
      refine wt.wf ?_
      intro x y z hy hz
      rcases (hmem _).mp hy with hy | hy <;> rcases (hmem _).mp hz with hz | hz
      · rw [Prod.mk.injEq] at hy hz
        exact hy.2.trans hz.2.symm
      · exact absurd ((Prod.mk.inj hy).1 ▸ hz) (hn z)
      · exact absurd ((Prod.mk.inj hz).1 ▸ hy) (hn y)
      · exact w.unique x y z hy hz
    refine ⟨hg, hok, w', ?_⟩
    funext x
    apply Option.ext
    intro y
    rw [w'.lookup_eq_some_iff, hmem]
    by_cases hx : x = k
    · subst hx
      simp [hn, eq_comm]
    · simp [hx, w.lookup_eq_some_iff]

theorem Wf.remove (w : Wf hash h) {v : ℕ} {h' : Table K} {os' : Os}
    (hr : hashRemoveExtended hash os h k = (v, h', os')) :
    os'.grants = os.grants ∧ v = (h.lookup hash k).getD 0 ∧ Wf hash h' ∧
      h'.lookup hash = Function.update (h.lookup hash) k none := by
  obtain ⟨hg, wt, ⟨rfl, hn, rfl, -⟩ | ⟨hv, hmem⟩⟩ := w.homed.remove hr
  · have hl : h'.lookup hash k = none := by
      rw [Option.eq_none_iff_forall_ne_some]
      intro u hu
      exact hn u ((w.lookup_eq_some_iff k u).mp hu)
    exact ⟨hg, by simp [hl], w, by rw [← hl, Function.update_eq_self]⟩
  · have hl := (w.lookup_eq_some_iff k v).mpr hv
    have w' : Wf hash h' :=
      wt.wf fun x y z hy hz => w.unique x y z ((hmem _).mp hy).1 ((hmem _).mp hz).1
    refine ⟨hg, by simp [hl], w', ?_⟩
    funext x
    apply Option.ext
    intro y
    rw [w'.lookup_eq_some_iff, hmem]
    by_cases hx : x = k
    · subst hx
      have hu : (x, y) ∈ h.entries → y = v := fun hy => w.unique x y v hy hv
      simp only [Function.update_self]
      constructor
      · rintro ⟨hy, hne⟩
        exact absurd (by rw [hu hy]) hne
      · intro hy
        cases hy
    · simp [hx, w.lookup_eq_some_iff]

end
end PvrServices.HashTable
