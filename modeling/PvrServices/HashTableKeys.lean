import PvrServices.Chains
import PvrServices.HashTableMap

set_option autoImplicit false

/-!
# The hash table under the callbacks of its creator

`HASH_Create_Extended` is given the size of a key, a hash function and a comparison. Here the
three are parameters, so that two keys with different words may be the same key.
-/
namespace PvrServices.HashTable
open Words Chains

/-- What a table is created with besides its length. `pfnHashFunc` is also told the length of the
    table. -/
structure Keys (κ : Type) where
  uKeySize : ℕ
  pfnHashFunc : κ → ℕ → ℕ
  pfnKeyComp : κ → κ → Bool

namespace Keys
variable {κ : Type} (keys : Keys κ)

def hashAt (size : ℕ) (k : κ) : ℕ := keys.pfnHashFunc k size

def keyToIndex (k : κ) (size : ℕ) : ℕ := HashTable.keyToIndex (keys.hashAt size) k size

def hashInsertExtended (os : Os) (h : Table κ) (k : κ) (v : ℕ) : Bool × Table κ × Os :=
  match osAllocMem os with
  | (false, os) => (false, h, os)
  | (true, os) =>
    match chainInsert (keys.hashAt h.size) h.bucketTable h.size (k, v) with
    | none => (false, h, os)
    | some table =>
      let h := { h with bucketTable := table, count := u32 (h.count + 1) }
      let (h, os) :=
        if u32 (h.count <<< 1) > h.size then
          resize (keys.hashAt (u32 (h.size <<< 1))) os h (u32 (h.size <<< 1))
        else (h, os)
      (true, h, os)

def hashRemoveExtended (os : Os) (h : Table κ) (k : κ) : ℕ × Table κ × Os :=
  let index := keys.keyToIndex k h.size
  match (h.bucketTable index).find? (fun e => keys.pfnKeyComp e.1 k) with
  | none => (0, h, os)
  | some e =>
    let chain := (h.bucketTable index).eraseP (fun e => keys.pfnKeyComp e.1 k)
    let h := { h with
      bucketTable := Function.update h.bucketTable index chain
      count := u32Sub h.count 1 }
    let (h, os) :=
      if h.size > u32 (h.count <<< 2) ∧ h.size > h.minimumSize then
        resize (keys.hashAt (max (h.size >>> 1) h.minimumSize)) os h
          (max (h.size >>> 1) h.minimumSize)
      else (h, os)
    (e.2, h, os)

def hashRetrieveExtended (h : Table κ) (k : κ) : ℕ :=
  match (h.bucketTable (keys.keyToIndex k h.size)).find? (fun e => keys.pfnKeyComp e.1 k) with
  | none => 0
  | some e => e.2

end Keys

/-- The callbacks that compare keys by equality and hash them whatever the length. -/
def wordKeys {K : Type} [DecidableEq K] (hash : K → ℕ) : Keys K where
  uKeySize := 4
  pfnHashFunc k _ := hash k
  pfnKeyComp a b := a = b

section
variable {K : Type} [DecidableEq K] (hash : K → ℕ)

theorem wordKeys_insert (os : Os) (h : Table K) (k : K) (v : ℕ) :
    (wordKeys hash).hashInsertExtended os h k v = hashInsertExtended hash os h k v := rfl

theorem wordKeys_remove (os : Os) (h : Table K) (k : K) :
    (wordKeys hash).hashRemoveExtended os h k = hashRemoveExtended hash os h k := rfl

theorem wordKeys_retrieve (h : Table K) (k : K) :
    (wordKeys hash).hashRetrieveExtended h k = hashRetrieveExtended hash h k := rfl

end

/-- The comparison tells whether two keys are the same, and the same keys hash equally. -/
structure Keys.Agree {κ : Type} (keys : Keys κ) : Prop where
  refl : ∀ a, keys.pfnKeyComp a a = true
  symm : ∀ a b, keys.pfnKeyComp a b = true → keys.pfnKeyComp b a = true
  trans : ∀ a b c, keys.pfnKeyComp a b = true → keys.pfnKeyComp b c = true →
    keys.pfnKeyComp a c = true
  hash : ∀ a b, keys.pfnKeyComp a b = true →
    ∀ size, keys.pfnHashFunc a size = keys.pfnHashFunc b size

namespace Keys
variable {κ : Type} {keys : Keys κ} {h : Table κ} {k : κ}

theorem Agree.keyToIndex (agree : keys.Agree) {a b : κ} (hab : keys.pfnKeyComp a b = true)
    (size : ℕ) : keys.keyToIndex a size = keys.keyToIndex b size :=
  congrArg (fun x => x % size) (agree.hash a b hab size)

theorem Agree.symm_false (agree : keys.Agree) {a b : κ} (hab : keys.pfnKeyComp a b = false) :
    keys.pfnKeyComp b a = false := by
  by_contra hba
  rw [Bool.not_eq_false] at hba
  rw [agree.symm _ _ hba] at hab
  cases hab

theorem Agree.trans_false (agree : keys.Agree) {a b c : κ} (hab : keys.pfnKeyComp a b = false)
    (hcb : keys.pfnKeyComp c b = true) : keys.pfnKeyComp a c = false := by
  by_contra hac
  rw [Bool.not_eq_false] at hac
  rw [agree.trans _ _ _ hac hcb] at hab
  cases hab

/-- Every bucket sits in the chain of its key, no two have the same key, and the count and the
    size are right. -/
structure Placed (keys : Keys κ) (h : Table κ) : Prop where
  minimumSize_pos : 0 < h.minimumSize
  minimumSize_le : h.minimumSize ≤ h.size
  home : ∀ i < h.size, ∀ e ∈ h.bucketTable i, keys.keyToIndex e.1 h.size = i
  distinct : h.entries.Pairwise fun a b => keys.pfnKeyComp a.1 b.1 = false
  count_eq : h.count = h.entries.length

theorem Placed.size_pos (p : Placed keys h) : 0 < h.size :=
  Nat.lt_of_lt_of_le p.minimumSize_pos p.minimumSize_le

theorem Placed.mem_entries (p : Placed keys h) (e : κ × ℕ) :
    e ∈ h.entries ↔ e ∈ h.bucketTable (keys.keyToIndex e.1 h.size) := by
  rw [Table.entries, List.mem_flatMap]
  constructor
  · intro he
    obtain ⟨i, hi, he⟩ := he
    rw [p.home i (List.mem_range.mp hi) e he]
    exact he
  · intro he
    exact ⟨_, List.mem_range.mpr (Nat.mod_lt _ p.size_pos), he⟩

theorem Placed.find?_eq_some (p : Placed keys h) (agree : keys.Agree) {e : κ × ℕ} :
    (h.bucketTable (keys.keyToIndex k h.size)).find? (fun e => keys.pfnKeyComp e.1 k) = some e →
      e ∈ h.entries ∧ keys.pfnKeyComp e.1 k = true := by
  intro hfind
  have hcomp : keys.pfnKeyComp e.1 k = true := by simpa using List.find?_some hfind
  refine ⟨?_, hcomp⟩
  rw [p.mem_entries, agree.keyToIndex hcomp]
  exact List.mem_of_find?_eq_some hfind

theorem Placed.find?_eq_none (p : Placed keys h) (agree : keys.Agree) :
    (h.bucketTable (keys.keyToIndex k h.size)).find? (fun e => keys.pfnKeyComp e.1 k) = none →
      ∀ e ∈ h.entries, keys.pfnKeyComp e.1 k = false := by
  intro hfind e he
  by_contra hcomp
  rw [Bool.not_eq_false] at hcomp
  rw [p.mem_entries, agree.keyToIndex hcomp] at he
  exact List.find?_eq_none.mp hfind e he hcomp

/-- A table with other chains, as long as they hold the same buckets in their places. -/
theorem Placed.of_perm (p : Placed keys h) (agree : keys.Agree) {h' : Table κ}
    {es : List (κ × ℕ)} (hes : h'.entries.Perm es) (hmin : h'.minimumSize = h.minimumSize)
    (hsize : h.minimumSize ≤ h'.size)
    (hhome : ∀ i < h'.size, ∀ e ∈ h'.bucketTable i, keys.keyToIndex e.1 h'.size = i)
    (hdistinct : es.Pairwise fun a b => keys.pfnKeyComp a.1 b.1 = false)
    (hcount : h'.count = es.length) : Placed keys h' := by
  exact {
    minimumSize_pos := hmin ▸ p.minimumSize_pos
    minimumSize_le := hmin ▸ hsize
    home := hhome
    distinct := (hes.pairwise_iff agree.symm_false).mpr hdistinct
    count_eq := by rw [hcount, hes.length_eq] }

theorem Placed.resize (p : Placed keys h) (agree : keys.Agree) (os : Os) {n : ℕ}
    (hn : h.minimumSize ≤ n) :
    Placed keys (HashTable.resize (keys.hashAt n) os h n).1 ∧
      (HashTable.resize (keys.hashAt n) os h n).1.entries.Perm h.entries ∧
      (HashTable.resize (keys.hashAt n) os h n).1.minimumSize = h.minimumSize := by
  have hpos : 0 < n := Nat.lt_of_lt_of_le p.minimumSize_pos hn
  unfold HashTable.resize
  split
  · exact ⟨p, .rfl, rfl⟩
  split
  · exact ⟨p, .rfl, rfl⟩
  rw [rehash_eq (by omega)]
  have hperm := flatMap_filter_perm (fun e => keys.keyToIndex e.1 n) h.entries
    fun e _ => Nat.mod_lt _ hpos
  refine ⟨p.of_perm agree hperm rfl hn ?_ p.distinct p.count_eq, hperm, rfl⟩
  intro i _ e he
  rw [List.mem_reverse, List.mem_filter] at he
  exact of_decide_eq_true he.2

end Keys
end PvrServices.HashTable
