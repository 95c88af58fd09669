import PvrServices.Words
import PvrServices.Services
import Mathlib.Data.List.Nodup
import Mathlib.Logic.Function.Basic

set_option autoImplicit false

/-!
# The chained hash table of `hash.c`

Keys are compared by equality and reduced by a hash function, as the two
callbacks of `HASH_Create_Extended` do. Values are words; 0 means "not found".
-/
namespace PvrServices.HashTable
open Words

/-- `struct HASH_TABLE`: `bucketTable i` is the chain that starts at `ppBucketTable[i]`. -/
structure Table (K : Type) where
  bucketTable : ℕ → List (K × ℕ)
  size : ℕ
  count : ℕ
  minimumSize : ℕ

def hashPart (w : ℕ) : ℕ :=
  let w := u32 w
  let w := u32 (w + u32 (w <<< 12))
  let w := w ^^^ (w >>> 22)
  let w := u32 (w + u32 (w <<< 4))
  let w := w ^^^ (w >>> 9)
  let w := u32 (w + u32 (w <<< 10))
  let w := w ^^^ (w >>> 2)
  let w := u32 (w + u32 (w <<< 7))
  w ^^^ (w >>> 12)

def hashFuncDefault (key : List ℕ) : ℕ :=
  key.foldl (fun acc w => u32 (acc + hashPart w)) 0

section
variable {K : Type} [DecidableEq K] (hash : K → ℕ)

def keyToIndex (k : K) (size : ℕ) : ℕ := hash k % size

def chainInsert (table : ℕ → List (K × ℕ)) (size : ℕ) (e : K × ℕ) :
    Option (ℕ → List (K × ℕ)) :=
  if size = 0 then none
  else
    let index := keyToIndex hash e.1 size
    some (Function.update table index (e :: table index))

/-- `_Rehash`: every bucket of the old table in turn goes to the head of its new chain. It
    can only fail at the first bucket, before anything is moved. -/
def rehash (old : ℕ → List (K × ℕ)) (oldSize newSize : ℕ) : Option (ℕ → List (K × ℕ)) :=
  ((List.range oldSize).flatMap old).foldlM (fun table e => chainInsert hash table newSize e)
    (fun _ => [])

def resize (os : Os) (h : Table K) (newSize : ℕ) : Table K × Os :=
  if newSize = h.size then (h, os)
  else
    match osAllocMem os with
    | (false, os) => (h, os)
    | (true, os) =>
      match rehash hash h.bucketTable h.size newSize with
      | none => (h, os)
      | some table => ({ h with bucketTable := table, size := newSize }, os)

def hashCreateExtended (os : Os) (initialLen : ℕ) : Option (Table K) × Os :=
  match osAllocMem os with
  | (false, os) => (none, os)
  | (true, os) =>
    match osAllocMem os with
    | (false, os) => (none, os)
    | (true, os) => (some ⟨fun _ => [], initialLen, 0, initialLen⟩, os)

def hashInsertExtended (os : Os) (h : Table K) (k : K) (v : ℕ) : Bool × Table K × Os :=
  match osAllocMem os with
  | (false, os) => (false, h, os)
  | (true, os) =>
    match chainInsert hash h.bucketTable h.size (k, v) with
    | none => (false, h, os)
    | some table =>
      let h := { h with bucketTable := table, count := u32 (h.count + 1) }
      let (h, os) :=
        if u32 (h.count <<< 1) > h.size then resize hash os h (u32 (h.size <<< 1)) else (h, os)
      (true, h, os)

def hashRemoveExtended (os : Os) (h : Table K) (k : K) : ℕ × Table K × Os :=
  let index := keyToIndex hash k h.size
  match (h.bucketTable index).find? (fun e => e.1 = k) with
  | none => (0, h, os)
  | some e =>
    let chain := (h.bucketTable index).eraseP (fun e => e.1 = k)
    let h := { h with
      bucketTable := Function.update h.bucketTable index chain
      count := u32Sub h.count 1 }
    let (h, os) :=
      if h.size > u32 (h.count <<< 2) ∧ h.size > h.minimumSize then
        resize hash os h (max (h.size >>> 1) h.minimumSize)
      else (h, os)
    (e.2, h, os)

def hashRetrieveExtended (h : Table K) (k : K) : ℕ :=
  match (h.bucketTable (keyToIndex hash k h.size)).find? (fun e => e.1 = k) with
  | none => 0
  | some e => e.2

end
end PvrServices.HashTable
