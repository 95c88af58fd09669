import PvrServices.HashTableKeys
import PvrServices.Runs

set_option autoImplicit false

/-!
# Runs of a hash table

Any sequence of insertions, removals and searches, each allocation succeeding or not. A table is
the finite map of the insertions and removals that were reported done.
-/
namespace PvrServices.HashTable
open Words Chains Runs

inductive Op (κ : Type) where
  | insert (k : κ) (v : ℕ)
  | remove (k : κ)
  | retrieve (k : κ)

inductive Reply where
  | inserted (ok : Bool)
  | value (v : ℕ)
deriving DecidableEq

structure State (κ : Type) where
  table : Table κ
  os : Os

namespace Keys
variable {κ : Type} (keys : Keys κ)

def step (s : State κ) : Op κ → Option (Reply × State κ)
  | .insert k v =>
    let r := keys.hashInsertExtended s.os s.table k v
    some (.inserted r.1, ⟨r.2.1, r.2.2⟩)
  | .remove k =>
    let r := keys.hashRemoveExtended s.os s.table k
    some (.value r.1, ⟨r.2.1, r.2.2⟩)
  | .retrieve k => some (.value (keys.hashRetrieveExtended s.table k), s)

/-- The finite map with the binding of one key, and of all keys that are the same, replaced. -/
def bind (m : κ → Option ℕ) (k : κ) (v : Option ℕ) : κ → Option ℕ :=
  fun x => bif keys.pfnKeyComp k x then v else m x

def record (m : κ → Option ℕ) : Op κ × Reply → κ → Option ℕ
  | (.insert k v, .inserted true) => keys.bind m k (some v)
  | (.remove k, _) => keys.bind m k none
  | _ => m

def Answers (m : κ → Option ℕ) : Op κ → Reply → Prop
  | .insert _ _, r => ∃ ok, r = .inserted ok
  | .remove k, r => r = .value ((m k).getD 0)
  | .retrieve k, r => r = .value ((m k).getD 0)

def bytes (h : Table κ) : ℕ := 4 * h.size + (8 + keys.uKeySize) * h.entries.length

/-- No key is inserted while it is present, and a bucket is only granted where there is room for it
    in the address space. -/
def Allowed (s : State κ) : Op κ → Prop
  | .insert k _ => (∀ e ∈ s.table.entries, keys.pfnKeyComp e.1 k = false) ∧
      (s.os.grants s.os.calls = true →
        keys.bytes s.table + (8 + keys.uKeySize) ≤ 4294967296)
  | _ => True

/-- A table fresh from `HASH_Create_Extended`, whose chain heads fit the address space. -/
structure Created (initialLen : ℕ) (s : State κ) : Prop where
  len_pos : 1 ≤ initialLen
  len_fits : 4 * initialLen < 4294967296
  created : ∃ os : Os, hashCreateExtended os initialLen = (some s.table, s.os)

def Binds (es : List (κ × ℕ)) (m : κ → Option ℕ) : Prop :=
  ∀ x v, m x = some v ↔ ∃ e ∈ es, keys.pfnKeyComp e.1 x = true ∧ e.2 = v

structure Stands (initialLen : ℕ) (m : κ → Option ℕ) (h : Table κ) : Prop where
  home : ∀ i < h.size, ∀ e ∈ h.bucketTable i, keys.pfnHashFunc e.1 h.size % h.size = i
  distinct : h.entries.Pairwise fun a b => keys.pfnKeyComp a.1 b.1 = false
  count : h.count = h.entries.length
  minimumSize : h.minimumSize = initialLen
  minimumSize_le : h.minimumSize ≤ h.size
  binds : keys.Binds h.entries m
  retrieve : ∀ x, keys.hashRetrieveExtended h x = (m x).getD 0

instance (s : State κ) (op : Op κ) : Decidable (keys.Allowed s op) :=
  match op with
  | .insert _ _ => inferInstanceAs (Decidable (_ ∧ _))
  | .remove _ => inferInstanceAs (Decidable True)
  | .retrieve _ => inferInstanceAs (Decidable True)

variable {keys} {h : Table κ} {k : κ} {v : ℕ} {os : Os} {m : κ → Option ℕ}

theorem Binds.perm {es fs : List (κ × ℕ)} (b : Binds keys es m) (hperm : fs.Perm es) :
    Binds keys fs m := by
  intro x v
  rw [b x v]
  apply exists_congr
  intro e
  rw [hperm.mem_iff]

theorem Binds.eq_none {es : List (κ × ℕ)} (b : Binds keys es m)
    (h : ∀ e ∈ es, keys.pfnKeyComp e.1 k = false) : m k = none := by
  rw [Option.eq_none_iff_forall_ne_some]
  intro v hv
  obtain ⟨e, he, hcomp, -⟩ := (b k v).mp hv
  rw [h e he] at hcomp
  cases hcomp

theorem Placed.retrieve (p : Placed keys h) (agree : keys.Agree) (b : Binds keys h.entries m)
    (k : κ) : keys.hashRetrieveExtended h k = (m k).getD 0 := by
  unfold hashRetrieveExtended
  cases hfind : (h.bucketTable (keys.keyToIndex k h.size)).find?
      (fun e => keys.pfnKeyComp e.1 k) with
  | none => rw [b.eq_none (p.find?_eq_none agree hfind)]; rfl
  | some e =>
    obtain ⟨he, hcomp⟩ := p.find?_eq_some agree hfind
    rw [(b k e.2).mpr ⟨e, he, hcomp, rfl⟩]
    rfl

theorem Placed.cons (p : Placed keys h) (agree : keys.Agree)
    (habsent : ∀ e ∈ h.entries, keys.pfnKeyComp e.1 k = false) (v : ℕ) {t : Table κ}
    (hsize : t.size = h.size) (hmin : t.minimumSize = h.minimumSize)
    (htable : t.bucketTable = Function.update h.bucketTable (keys.keyToIndex k h.size)
      ((k, v) :: h.bucketTable (keys.keyToIndex k h.size)))
    (hcount : t.count = h.count + 1) :
    Placed keys t ∧ t.entries.Perm ((k, v) :: h.entries) := by
  have hlt : keys.keyToIndex k h.size < h.size := Nat.mod_lt _ p.size_pos
  have hperm : t.entries.Perm ((k, v) :: h.entries) := by
    rw [Table.entries, Table.entries, hsize, htable]
    apply flatMap_perm_cons List.nodup_range (List.mem_range.mpr hlt)
    · rw [Function.update_self]
    · intro j hj
      rw [Function.update_of_ne hj]
  refine ⟨p.of_perm agree hperm hmin (hsize ▸ p.minimumSize_le) ?_ ?_ ?_, hperm⟩
  · intro i hi e he
    rw [htable] at he
    rw [hsize] at hi ⊢
    by_cases hik : i = keys.keyToIndex k h.size
    · rw [hik, Function.update_self] at he
      cases List.mem_cons.mp he with
      | inl hek => rw [hek, hik]
      | inr he => exact hik ▸ p.home _ hlt e he
    · rw [Function.update_of_ne hik] at he
      exact p.home i hi e he
  · apply List.Pairwise.cons _ p.distinct
    intro e he
    exact agree.symm_false (habsent e he)
  · rw [hcount, p.count_eq, List.length_cons]

theorem Placed.erase (p : Placed keys h) (agree : keys.Agree) {e : κ × ℕ}
    (hfind : (h.bucketTable (keys.keyToIndex k h.size)).find?
      (fun e => keys.pfnKeyComp e.1 k) = some e) {t : Table κ}
    (hsize : t.size = h.size) (hmin : t.minimumSize = h.minimumSize)
    (htable : t.bucketTable = Function.update h.bucketTable (keys.keyToIndex k h.size)
      ((h.bucketTable (keys.keyToIndex k h.size)).eraseP (fun e => keys.pfnKeyComp e.1 k)))
    (hcount : t.count = h.count - 1) :
    Placed keys t ∧ h.entries.Perm (e :: t.entries) ∧
      ∀ x ∈ t.entries, keys.pfnKeyComp e.1 x.1 = false := by
  have hlt : keys.keyToIndex k h.size < h.size := Nat.mod_lt _ p.size_pos
  obtain ⟨hcomp, l, r, hchain, hbefore⟩ := List.find?_eq_some_iff_append.mp hfind
  have herase : (h.bucketTable (keys.keyToIndex k h.size)).eraseP
      (fun e => keys.pfnKeyComp e.1 k) = l ++ r := by
    rw [hchain, List.eraseP_append_right _ (by simpa using hbefore)]
    simp [hcomp]
  rw [herase] at htable
  have hperm : h.entries.Perm (e :: t.entries) := by
    rw [Table.entries, Table.entries, hsize, htable]
    apply flatMap_perm_cons List.nodup_range (List.mem_range.mpr hlt)
    · rw [Function.update_self, hchain]
      exact List.perm_middle
    · intro j hj
      rw [Function.update_of_ne hj]
  have hdistinct : (e :: t.entries).Pairwise fun a b => keys.pfnKeyComp a.1 b.1 = false := by
    exact (hperm.pairwise_iff agree.symm_false).mp p.distinct
  refine ⟨p.of_perm agree .rfl hmin (hsize ▸ p.minimumSize_le) ?_ hdistinct.of_cons ?_, hperm,
    fun x hx => List.rel_of_pairwise_cons hdistinct hx⟩
  · intro i hi x hx
    rw [htable] at hx
    rw [hsize] at hi ⊢
    by_cases hik : i = keys.keyToIndex k h.size
    · rw [hik, Function.update_self] at hx
      rw [hik]
      apply p.home _ hlt x
      rw [hchain]
      cases List.mem_append.mp hx with
      | inl hl => exact List.mem_append_left _ hl
      | inr hr => exact List.mem_append_right _ (List.mem_cons_of_mem _ hr)
    · rw [Function.update_of_ne hik] at hx
      exact p.home i hi x hx
  · rw [hcount, p.count_eq, hperm.length_eq, List.length_cons]
    rfl

theorem no_binding {es : List (κ × ℕ)} {x : κ} {u : ℕ}
    (h : ∀ e ∈ es, keys.pfnKeyComp e.1 x = false) :
    ¬∃ e ∈ es, keys.pfnKeyComp e.1 x = true ∧ e.2 = u := by
  intro hex
  obtain ⟨e, he, hcomp, -⟩ := hex
  rw [h e he] at hcomp
  cases hcomp

theorem Binds.insert {es fs : List (κ × ℕ)} (b : Binds keys es m) (agree : keys.Agree)
    (habsent : ∀ e ∈ es, keys.pfnKeyComp e.1 k = false) (hperm : fs.Perm ((k, v) :: es)) :
    Binds keys fs (keys.bind m k (some v)) := by
  refine Binds.perm ?_ hperm
  intro x u
  unfold bind
  cases hx : keys.pfnKeyComp k x with
  | true =>
    have hnone := no_binding (u := u) fun e he =>
      agree.trans_false (habsent e he) (agree.symm _ _ hx)
    simp [hx, hnone]
  | false => simp [hx, b x u]

theorem Binds.remove_absent {es : List (κ × ℕ)} (b : Binds keys es m) (agree : keys.Agree)
    (habsent : ∀ e ∈ es, keys.pfnKeyComp e.1 k = false) :
    Binds keys es (keys.bind m k none) := by
  intro x u
  unfold bind
  cases hx : keys.pfnKeyComp k x with
  | true =>
    have hnone := no_binding (u := u) fun e he =>
      agree.trans_false (habsent e he) (agree.symm _ _ hx)
    simp [hnone]
  | false => exact b x u

theorem Binds.remove {es fs : List (κ × ℕ)} {e : κ × ℕ} (b : Binds keys es m)
    (agree : keys.Agree) (hperm : es.Perm (e :: fs)) (hcomp : keys.pfnKeyComp e.1 k = true)
    (hdistinct : ∀ x ∈ fs, keys.pfnKeyComp e.1 x.1 = false) :
    Binds keys fs (keys.bind m k none) := by
  have hrest : ∀ x, keys.pfnKeyComp k x = true → ∀ y ∈ fs, keys.pfnKeyComp y.1 x = false := by
    intro x hx y hy
    apply agree.trans_false (agree.symm_false (hdistinct y hy))
    exact agree.symm _ _ (agree.trans _ _ _ hcomp hx)
  have hgone : ∀ x, keys.pfnKeyComp k x = false → keys.pfnKeyComp e.1 x = false := by
    intro x hx
    exact agree.symm_false (agree.trans_false (agree.symm_false hx) hcomp)
  intro x u
  unfold bind
  cases hx : keys.pfnKeyComp k x with
  | true => simp [no_binding (u := u) (hrest x hx)]
  | false => simp [b.perm hperm.symm x u, hgone x hx]

theorem Placed.insert (p : Placed keys h) (agree : keys.Agree) (b : Binds keys h.entries m)
    (habsent : ∀ e ∈ h.entries, keys.pfnKeyComp e.1 k = false)
    (hroom : os.grants os.calls = true → keys.bytes h + (8 + keys.uKeySize) ≤ 4294967296)
    {ok : Bool} {t : Table κ} {os' : Os}
    (hi : keys.hashInsertExtended os h k v = (ok, t, os')) :
    Placed keys t ∧ t.minimumSize = h.minimumSize ∧ (ok = false → t = h) ∧
      Binds keys t.entries (keys.record m (.insert k v, .inserted ok)) := by
  unfold hashInsertExtended osAllocMem at hi
  cases hgrant : os.grants os.calls with
  | false =>
    simp only [hgrant, Prod.mk.injEq] at hi
    obtain ⟨rfl, rfl, rfl⟩ := hi
    exact ⟨p, rfl, fun _ => rfl, b⟩
  | true =>
    have hfits := hroom hgrant
    have hpos := p.size_pos
    have hnum : 8 * h.entries.length ≤ (8 + keys.uKeySize) * h.entries.length :=
      Nat.mul_le_mul_right _ (Nat.le_add_right _ _)
    unfold bytes at hfits
    have hc : u32 (h.count + 1) = h.count + 1 := by
      apply u32_of_lt
      rw [p.count_eq]
      omega
    simp only [hgrant, chainInsert, Nat.ne_of_gt hpos, ↓reduceIte, hc] at hi
    generalize ht : ({ h with
      bucketTable := Function.update h.bucketTable
        (HashTable.keyToIndex (keys.hashAt h.size) k h.size)
        ((k, v) :: h.bucketTable (HashTable.keyToIndex (keys.hashAt h.size) k h.size))
      count := h.count + 1 } : Table κ) = u at hi
    have hcons := p.cons agree habsent v (t := u) (by rw [← ht]) (by rw [← ht]) (by rw [← ht]; rfl)
      (by rw [← ht])
    have hmin : u.minimumSize = h.minimumSize := by rw [← ht]
    have hsize : u.size = h.size := by rw [← ht]
    have hbinds := b.insert (v := v) agree habsent hcons.2
    split at hi
    · rename_i hgrow
      rw [u32_of_lt (by rw [Nat.shiftLeft_eq, p.count_eq]; omega), Nat.shiftLeft_eq] at hgrow
      have hnew : u32 (h.size <<< 1) = 2 * h.size := by
        rw [Nat.shiftLeft_eq, u32_of_lt]
        · omega
        · rw [p.count_eq] at hgrow
          omega
      simp only [hnew, Prod.mk.injEq] at hi
      obtain ⟨rfl, rfl, rfl⟩ := hi
      have hresize := hcons.1.resize agree ⟨os.grants, os.calls + 1⟩ (n := 2 * h.size) (by
        have hle := p.minimumSize_le
        omega)
      exact ⟨hresize.1, hresize.2.2.trans hmin, Bool.noConfusion, hbinds.perm hresize.2.1⟩
    · simp only [Prod.mk.injEq] at hi
      obtain ⟨rfl, rfl, rfl⟩ := hi
      exact ⟨hcons.1, hmin, Bool.noConfusion, hbinds⟩

/-- A removal answers the value that the key is bound to and deletes exactly its bucket. -/
theorem Placed.remove (p : Placed keys h) (agree : keys.Agree) (b : Binds keys h.entries m)
    {t : Table κ} {os' : Os} (hr : keys.hashRemoveExtended os h k = (v, t, os')) :
    Placed keys t ∧ t.minimumSize = h.minimumSize ∧ v = (m k).getD 0 ∧
      Binds keys t.entries (keys.bind m k none) := by
  unfold hashRemoveExtended at hr
  cases hfind : (h.bucketTable (keys.keyToIndex k h.size)).find?
      (fun e => keys.pfnKeyComp e.1 k) with
  | none =>
    have habsent := p.find?_eq_none agree hfind
    simp only [hfind, Prod.mk.injEq] at hr
    obtain ⟨rfl, rfl, rfl⟩ := hr
    have hvalue : 0 = (m k).getD 0 := by rw [b.eq_none habsent]; rfl
    exact ⟨p, rfl, hvalue, b.remove_absent agree habsent⟩
  | some e =>
    obtain ⟨he, hcomp⟩ := p.find?_eq_some agree hfind
    have hvalue : m k = some e.2 := (b k e.2).mpr ⟨e, he, hcomp, rfl⟩
    have hlength : 1 ≤ h.count := by
      rw [p.count_eq]
      exact List.length_pos_of_mem he
    simp only [hfind, u32Sub_of_le hlength] at hr
    generalize ht : ({ h with
      bucketTable := Function.update h.bucketTable (keys.keyToIndex k h.size)
        ((h.bucketTable (keys.keyToIndex k h.size)).eraseP fun e => keys.pfnKeyComp e.1 k)
      count := h.count - 1 } : Table κ) = u at hr
    have herase := p.erase agree hfind (t := u) (by rw [← ht]) (by rw [← ht]) (by rw [← ht])
      (by rw [← ht])
    have hmin : u.minimumSize = h.minimumSize := by rw [← ht]
    have hbinds := b.remove agree herase.2.1 hcomp herase.2.2
    split at hr
    · simp only [Prod.mk.injEq] at hr
      obtain ⟨rfl, rfl, rfl⟩ := hr
      have hresize := herase.1.resize agree os (n := max (h.size >>> 1) h.minimumSize) (by
        rw [hmin]
        exact Nat.le_max_right _ _)
      rw [hvalue]
      exact ⟨hresize.1, hresize.2.2.trans hmin, rfl, hbinds.perm hresize.2.1⟩
    · simp only [Prod.mk.injEq] at hr
      obtain ⟨rfl, rfl, rfl⟩ := hr
      rw [hvalue]
      exact ⟨herase.1, hmin, rfl, hbinds⟩

variable {initialLen : ℕ}

/-- What every step keeps: a well-placed table, and the finite map that it is. -/
structure Kept (keys : Keys κ) (initialLen : ℕ) (s : State κ) (m : κ → Option ℕ) : Prop where
  placed : Placed keys s.table
  minimumSize : s.table.minimumSize = initialLen
  binds : keys.Binds s.table.entries m

theorem Kept.stands {s : State κ} (kept : Kept keys initialLen s m) (agree : keys.Agree) :
    keys.Stands initialLen m s.table where
  home := kept.placed.home
  distinct := kept.placed.distinct
  count := kept.placed.count_eq
  minimumSize := kept.minimumSize
  minimumSize_le := kept.placed.minimumSize_le
  binds := kept.binds
  retrieve := kept.placed.retrieve agree kept.binds

theorem Created.kept {s : State κ} (c : Created initialLen s) :
    Kept keys initialLen s fun _ => none := by
  obtain ⟨os, hos⟩ := c.created
  unfold hashCreateExtended osAllocMem at hos
  have htable : s.table = ⟨fun _ => [], initialLen, 0, initialLen⟩ := by
    cases hfirst : os.grants os.calls <;> cases hsecond : os.grants (os.calls + 1) <;>
      simp [hfirst, hsecond] at hos
    exact hos.1.symm
  have hentries : s.table.entries = [] := by
    rw [htable, Table.entries]
    simp
  refine ⟨⟨?_, ?_, ?_, ?_, ?_⟩, ?_, ?_⟩
  · rw [htable]
    exact c.len_pos
  · have heq : s.table.minimumSize = s.table.size := by rw [htable]
    exact Nat.le_of_eq heq
  · intro i _ e he
    rw [htable] at he
    cases he
  · rw [hentries]
    exact .nil
  · rw [hentries, htable]
    rfl
  · rw [htable]
  · intro x v
    rw [hentries]
    simp

theorem Kept.step {s t : State κ} {op : Op κ} {r : Reply} (kept : Kept keys initialLen s m)
    (agree : keys.Agree) (allowed : keys.Allowed s op) (hs : keys.step s op = some (r, t)) :
    Kept keys initialLen t (keys.record m (op, r)) ∧ Answers m op r ∧
      (r = .inserted false → t.table = s.table) := by
  cases op with
  | insert k v =>
    simp only [Keys.step, Option.some.injEq, Prod.mk.injEq] at hs
    obtain ⟨rfl, rfl⟩ := hs
    have hinsert := kept.placed.insert agree kept.binds allowed.1 allowed.2 (v := v) rfl
    refine ⟨⟨hinsert.1, hinsert.2.1.trans kept.minimumSize, hinsert.2.2.2⟩, ⟨_, rfl⟩, ?_⟩
    intro hfalse
    exact hinsert.2.2.1 (Reply.inserted.inj hfalse)
  | remove k =>
    simp only [Keys.step, Option.some.injEq, Prod.mk.injEq] at hs
    obtain ⟨rfl, rfl⟩ := hs
    have hremove : Placed keys _ ∧ _ := kept.placed.remove agree kept.binds
      (show keys.hashRemoveExtended s.os s.table k = (_, _, _) from rfl)
    refine ⟨⟨hremove.1, hremove.2.1.trans kept.minimumSize, hremove.2.2.2⟩, ?_, ?_⟩
    · exact congrArg Reply.value hremove.2.2.1
    · intro hfalse
      cases hfalse
  | retrieve k =>
    simp only [Keys.step, Option.some.injEq, Prod.mk.injEq] at hs
    obtain ⟨rfl, rfl⟩ := hs
    refine ⟨kept, ?_, fun _ => rfl⟩
    exact congrArg Reply.value (kept.placed.retrieve agree kept.binds k)

/-- Over every run of a table it stands for the finite map that the reported operations build, and
    the next operation answers as that map does; an insertion that is refused changes nothing. -/
theorem finite_map_over_runs (agree : keys.Agree) {s₀ s : State κ} {log : List (Op κ × Reply)}
    (c : Created initialLen s₀) (run : Run keys.step keys.Allowed s₀ log s) :
    keys.Stands initialLen (log.foldl keys.record fun _ => none) s.table ∧
      ∀ op r t, keys.Allowed s op → keys.step s op = some (r, t) →
        Answers (log.foldl keys.record fun _ => none) op r ∧
          (r = .inserted false → t.table = s.table) := by
  have kept := run.ledger (Kept keys initialLen) keys.record (fun _ => none) c.kept
    fun s m op r t hkept hallowed hs => (hkept.step agree hallowed hs).1
  refine ⟨kept.stands agree, ?_⟩
  intro op r t hallowed hs
  exact (kept.step agree hallowed hs).2

end Keys

def firstWordKeys : Keys (ℕ × ℕ) where
  uKeySize := 8
  pfnHashFunc k _ := hashFuncDefault [k.1]
  pfnKeyComp a b := a.1 = b.1

theorem firstWordKeys_agree : firstWordKeys.Agree where
  refl a := by simp [firstWordKeys]
  symm a b h := by simpa [firstWordKeys, eq_comm] using h
  trans a b c hab hbc := by
    simp only [firstWordKeys, decide_eq_true_eq] at hab hbc ⊢
    exact hab.trans hbc
  hash a b hab size := by
    simp only [firstWordKeys, decide_eq_true_eq] at hab ⊢
    rw [hab]

def sampleStart : State (ℕ × ℕ) where
  table := ⟨fun _ => [], 1, 0, 1⟩
  os := ⟨fun n => n ≠ 5 ∧ n ≠ 8, 2⟩

def sampleOps : List (Op (ℕ × ℕ)) :=
  [.insert (3, 0) 7, .insert (4, 0) 8, .insert (5, 0) 9, .insert (6, 0) 10, .retrieve (3, 6),
    .remove (4, 1), .remove (3, 0), .remove (5, 0), .retrieve (3, 0), .insert (4, 2) 11]

theorem sampleStart_created : Keys.Created 1 sampleStart :=
  ⟨Nat.le_refl 1, by decide, ⟨fun n => n ≠ 5 ∧ n ≠ 8, 0⟩, rfl⟩

/-- The table of the sample grows, stays small when it cannot grow, loses nothing to the refused
    bucket, shrinks, and binds one key at the end. -/
theorem finite_map_over_sample : ∃ (log : List (Op (ℕ × ℕ) × Reply)) (s : State (ℕ × ℕ)),
    log.map Prod.snd = [.inserted true, .inserted true, .inserted true, .inserted false, .value 7,
      .value 8, .value 7, .value 9, .value 0, .inserted true] ∧
    (s.table.entries, s.table.size) = ([((4, 2), 11)], 2) ∧
    firstWordKeys.Stands 1 (log.foldl firstWordKeys.record fun _ => none) s.table := by
  have hexec : (exec firstWordKeys.step sampleStart sampleOps).map
      (fun p => (p.1.map Prod.snd, p.2.table.entries, p.2.table.size)) =
      some ([.inserted true, .inserted true, .inserted true, .inserted false, .value 7, .value 8,
        .value 7, .value 9, .value 0, .inserted true], [((4, 2), 11)], 2) := by
    decide +kernel
  obtain ⟨p, hp, hend⟩ := Option.map_eq_some_iff.mp hexec
  rw [Prod.mk.injEq] at hend
  have hallowed : Allowed firstWordKeys.step firstWordKeys.Allowed sampleStart sampleOps := by
    decide +kernel
  exact ⟨p.1, p.2, hend.1, hend.2, (Keys.finite_map_over_runs firstWordKeys_agree
    sampleStart_created (Run.of_allowed hp hallowed)).1⟩

end PvrServices.HashTable
