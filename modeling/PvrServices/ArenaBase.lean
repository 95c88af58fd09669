import PvrServices.HashTable

set_option autoImplicit false

/-!
# The resource arena of `ra.c`

Boundary tags live in a memory of tags; address 0 is the null pointer and no address is given
out twice. A result `none` stands for a walk along the links that does not come to an end.
-/
namespace PvrServices.Arenas
open Words HashTable

/-- The types of a boundary tag: `btt_span`, `btt_free`, `btt_live`. -/
inductive BtType where
  | span
  | free
  | live
deriving DecidableEq, Repr

/-- What the arena reads of a `struct BM_MAPPING`: which one it is, and its `ui32Flags`. -/
structure BmMapping where
  ref : ℕ
  flags : ℕ
deriving DecidableEq, Repr

structure Tag where
  type : BtType
  base : ℕ
  size : ℕ
  mapping : Option BmMapping
deriving DecidableEq, Repr

structure Bt extends Tag where
  nextSegment : ℕ
  prevSegment : ℕ
  nextFree : ℕ
  prevFree : ℕ

/-- A span as the import callback returns it, base and actual size in words. -/
structure Import where
  base : ℕ
  size : ℕ
  mapping : Option BmMapping
  base_lt : base < 4294967296
  size_lt : size < 4294967296
deriving DecidableEq

/-- What the arena asks of its callbacks, the successful imports with their size and result. -/
inductive Call where
  | imported (asked : ℕ) (i : Import)
  | importFree (base : ℕ) (mapping : Option BmMapping)
  | backingStoreFree (start stop : ℕ)
deriving DecidableEq

/-- `struct RA_ARENA`, with the calls made so far and the answers of the allocator to come.
    `importAlloc` tells a caller's callback from `_RequestAllocFail`. -/
structure RaArena where
  quantum : ℕ
  importAlloc : Bool
  backingStoreFree : Bool
  headFree : ℕ → ℕ
  headSegment : ℕ
  tailSegment : ℕ
  segmentHash : Table ℕ
  tags : ℕ → Bt
  nextTag : ℕ
  calls : List Call
  os : Os

def freeTableLimit : ℕ := 32
def minimumHashSize : ℕ := 64

def hashBase (base : ℕ) : ℕ := hashFuncDefault [base]

def modifyTag (a : RaArena) (p : ℕ) (f : Bt → Bt) : RaArena :=
  { a with tags := Function.update a.tags p (f (a.tags p)) }

def osAllocTag (a : RaArena) : Option ℕ × RaArena :=
  match osAllocMem a.os with
  | (false, os) => (none, { a with os := os })
  | (true, os) => (some a.nextTag, { a with os := os, nextTag := a.nextTag + 1 })

def osFreeTag (a : RaArena) (p : ℕ) : RaArena :=
  modifyTag a p (fun _ => ⟨⟨.span, 0, 0, none⟩, 0, 0, 0, 0⟩)

def pvrLog2Loop : ℕ → ℕ → ℕ → ℕ
  | 0, _, l => l
  | fuel + 1, n, l => if n > 0 then pvrLog2Loop fuel (n >>> 1) (l + 1) else l

def pvrLog2 (n : ℕ) : ℕ := pvrLog2Loop 32 (n >>> 1) 0

/-- A write to `pNextSegment`, which is the head of the list where there is no tag before. -/
def setNextSegment (a : RaArena) (p q : ℕ) : RaArena :=
  if p = 0 then { a with headSegment := q }
  else modifyTag a p fun t => { t with nextSegment := q }

/-- A write to `pPrevSegment`, which is the tail of the list where there is no tag behind. -/
def setPrevSegment (a : RaArena) (p q : ℕ) : RaArena :=
  if p = 0 then { a with tailSegment := q }
  else modifyTag a p fun t => { t with prevSegment := q }

def segmentListInsertAfter (a : RaArena) (insertionPoint bt : ℕ) : RaArena :=
  let a := modifyTag a bt fun t => { t with
    nextSegment := (a.tags insertionPoint).nextSegment
    prevSegment := insertionPoint }
  let a := setPrevSegment a (a.tags insertionPoint).nextSegment bt
  modifyTag a insertionPoint fun t => { t with nextSegment := bt }

def segmentListScan (a : RaArena) (base : ℕ) : ℕ → ℕ → Option ℕ
  | 0, _ => none
  | fuel + 1, scan =>
    let next := (a.tags scan).nextSegment
    if next ≠ 0 ∧ base ≥ (a.tags next).base then segmentListScan a base fuel next
    else some scan

def segmentListInsert (a : RaArena) (bt : ℕ) : Option RaArena :=
  if a.headSegment = 0 then
    some (modifyTag { a with headSegment := bt, tailSegment := bt } bt
      fun t => { t with nextSegment := 0, prevSegment := 0 })
  else if (a.tags bt).base < (a.tags a.headSegment).base then
    let a := modifyTag a bt fun t => { t with nextSegment := a.headSegment }
    let a := modifyTag a a.headSegment fun t => { t with prevSegment := bt }
    let a := { a with headSegment := bt }
    some (modifyTag a bt fun t => { t with prevSegment := 0 })
  else
    match segmentListScan a (a.tags bt).base a.nextTag a.headSegment with
    | none => none
    | some scan => some (segmentListInsertAfter a scan bt)

def segmentListRemove (a : RaArena) (bt : ℕ) : RaArena :=
  let a := setNextSegment a (a.tags bt).prevSegment (a.tags bt).nextSegment
  setPrevSegment a (a.tags bt).nextSegment (a.tags bt).prevSegment

def segmentSplit (a : RaArena) (bt size : ℕ) : Option ℕ × RaArena :=
  match osAllocTag a with
  | (none, a) => (none, a)
  | (some neighbour, a) =>
    let a := modifyTag a neighbour fun t => { t with
      prevSegment := bt
      nextSegment := (a.tags bt).nextSegment }
    let a := setPrevSegment a (a.tags bt).nextSegment neighbour
    let a := modifyTag a bt fun t => { t with nextSegment := neighbour }
    let a := modifyTag a neighbour fun t => { t with
      type := .free
      size := u32Sub (a.tags bt).size size
      base := u32 ((a.tags bt).base + size)
      mapping := (a.tags bt).mapping }
    let a := modifyTag a bt fun t => { t with size := size }
    (some neighbour, a)

def setHeadFree (a : RaArena) (index p : ℕ) : RaArena :=
  { a with headFree := Function.update a.headFree index p }

/-- A write to `pNextFree`, which is the head of the bin where there is no tag before. -/
def setNextFree (a : RaArena) (index p q : ℕ) : RaArena :=
  if p = 0 then setHeadFree a index q else modifyTag a p fun t => { t with nextFree := q }

/-- A write to `pPrevFree`; a bin has no pointer to its last tag. -/
def setPrevFree (a : RaArena) (p q : ℕ) : RaArena :=
  if p = 0 then a else modifyTag a p fun t => { t with prevFree := q }

def freeListInsert (a : RaArena) (bt : ℕ) : RaArena :=
  let index := pvrLog2 (a.tags bt).size
  let a := modifyTag a bt fun t => { t with
    type := .free
    nextFree := a.headFree index
    prevFree := 0 }
  setHeadFree (setPrevFree a (a.headFree index) bt) index bt

def freeListRemove (a : RaArena) (bt : ℕ) : RaArena :=
  let index := pvrLog2 (a.tags bt).size
  let a := setPrevFree a (a.tags bt).nextFree (a.tags bt).prevFree
  setNextFree a index (a.tags bt).prevFree (a.tags bt).nextFree

def buildSpanMarker (a : RaArena) (base size : ℕ) : Option ℕ × RaArena :=
  match osAllocTag a with
  | (none, a) => (none, a)
  | (some bt, a) => (some bt, modifyTag a bt fun t => { t with
      type := .span
      base := base
      size := size
      mapping := none })

def buildBt (a : RaArena) (base size : ℕ) : Option ℕ × RaArena :=
  match osAllocTag a with
  | (none, a) => (none, a)
  | (some bt, a) => (some bt, modifyTag a bt fun t => { t with
      type := .free
      base := base
      size := size })

def insertResource (a : RaArena) (base size : ℕ) : Option (Option ℕ × RaArena) :=
  match buildBt a base size with
  | (none, a) => some (none, a)
  | (some bt, a) =>
    match segmentListInsert a bt with
    | none => none
    | some a => some (some bt, freeListInsert a bt)

def insertResourceSpan (a : RaArena) (base size : ℕ) : Option (Option ℕ × RaArena) :=
  match buildSpanMarker a base size with
  | (none, a) => some (none, a)
  | (some spanStart, a) =>
    match buildSpanMarker a (u32 (base + size)) 0 with
    | (none, a) => some (none, osFreeTag a spanStart)
    | (some spanEnd, a) =>
      match buildBt a base size with
      | (none, a) => some (none, osFreeTag (osFreeTag a spanEnd) spanStart)
      | (some bt, a) =>
        match segmentListInsert a spanStart with
        | none => none
        | some a =>
          let a := segmentListInsertAfter a spanStart bt
          let a := freeListInsert a bt
          some (some bt, segmentListInsertAfter a bt spanEnd)

def isFree (a : RaArena) (p : ℕ) : Bool := (a.tags p).type == .free
def isSpan (a : RaArena) (p : ℕ) : Bool := (a.tags p).type == .span

def mergePrev (a : RaArena) (bt : ℕ) : RaArena :=
  let neighbour := (a.tags bt).prevSegment
  if neighbour ≠ 0 ∧ isFree a neighbour ∧
      u32 ((a.tags neighbour).base + (a.tags neighbour).size) = (a.tags bt).base then
    let a := freeListRemove a neighbour
    let a := segmentListRemove a neighbour
    let a := modifyTag a bt fun t => { t with
      base := (a.tags neighbour).base
      size := u32 (t.size + (a.tags neighbour).size) }
    osFreeTag a neighbour
  else a

def mergeNext (a : RaArena) (bt : ℕ) : RaArena :=
  let neighbour := (a.tags bt).nextSegment
  if neighbour ≠ 0 ∧ isFree a neighbour ∧
      u32 ((a.tags bt).base + (a.tags bt).size) = (a.tags neighbour).base then
    let a := freeListRemove a neighbour
    let a := segmentListRemove a neighbour
    let a := modifyTag a bt fun t => { t with size := u32 (t.size + (a.tags neighbour).size) }
    osFreeTag a neighbour
  else a

/-- `uRoundedStart` of `_FreeBT`: the first multiple of the quantum that is all free. -/
def roundedStart (quantum origBase base : ℕ) : ℕ :=
  let start := origBase / quantum * quantum
  if start < base then u32 (start + quantum) else start

def roundedEnd (quantum origBase origSize stop : ℕ) : ℕ :=
  let rounded := u32 (origBase + origSize + quantum - 1) / quantum * quantum
  if rounded > stop then u32Sub rounded quantum else rounded

def freeBackingStore (a : RaArena) (bt origBase origSize : ℕ) (backing : Bool) : RaArena :=
  if a.backingStoreFree ∧ backing then
    let t := a.tags bt
    let start := roundedStart a.quantum origBase t.base
    let stop := roundedEnd a.quantum origBase origSize (u32 (t.base + t.size))
    if start < stop then { a with calls := a.calls ++ [.backingStoreFree start stop] } else a
  else a

/-- The last step of `_FreeBT`: a segment between two span markers goes back to the importer,
    any other one into the free table. -/
def retireBt (a : RaArena) (bt : ℕ) : RaArena :=
  let next := (a.tags bt).nextSegment
  let prev := (a.tags bt).prevSegment
  if next ≠ 0 ∧ isSpan a next ∧ prev ≠ 0 ∧ isSpan a prev then
    let a := segmentListRemove a next
    let a := segmentListRemove a prev
    let a := segmentListRemove a bt
    let a := { a with
      calls := a.calls ++ [.importFree (a.tags bt).base (a.tags bt).mapping] }
    osFreeTag (osFreeTag (osFreeTag a next) prev) bt
  else freeListInsert a bt

def freeBt (a : RaArena) (bt : ℕ) (backing : Bool) : RaArena :=
  let origBase := (a.tags bt).base
  let origSize := (a.tags bt).size
  let a := mergeNext (mergePrev a bt) bt
  retireBt (freeBackingStore a bt origBase origSize backing) bt

/-- The front split of `alloc_from_bt`: the segment to go on with. -/
def frontSplit (a : RaArena) (bt start : ℕ) : Option ℕ × RaArena :=
  if start > (a.tags bt).base then
    match segmentSplit a bt (start - (a.tags bt).base) with
    | (none, a) => (none, freeListInsert a bt)
    | (some next, a) => (some next, freeListInsert a bt)
  else (some bt, a)

def backSplit (a : RaArena) (bt size : ℕ) : Bool × RaArena :=
  if (a.tags bt).size > size then
    match segmentSplit a bt size with
    | (none, a) => (false, freeListInsert a bt)
    | (some next, a) => (true, freeListInsert a next)
  else (true, a)

def enterLive (a : RaArena) (bt : ℕ) : Option (Option BmMapping × ℕ) × RaArena :=
  let a := modifyTag a bt fun t => { t with type := .live }
  match hashInsertExtended hashBase a.os a.segmentHash (a.tags bt).base bt with
  | (false, hash, os) => (none, freeBt { a with segmentHash := hash, os := os } bt false)
  | (true, hash, os) =>
    (some ((a.tags bt).mapping, (a.tags bt).base), { a with segmentHash := hash, os := os })

def allocFromBt (a : RaArena) (bt start size : ℕ) :
    Option (Option BmMapping × ℕ) × RaArena :=
  let a := freeListRemove a bt
  match frontSplit a bt start with
  | (none, a) => (none, a)
  | (some bt, a) =>
    match backSplit a bt size with
    | (false, a) => (none, a)
    | (true, a) => enterLive a bt

def alignedBase (base alignment : ℕ) : ℕ :=
  if alignment > 1 then u32 (base + alignment - 1) / alignment * alignment else base

/-- The tests that `_AttemptAllocAligned` makes on a free segment. -/
def fits (size flags alignment : ℕ) (t : Tag) : Bool :=
  !(u32 (t.base + t.size) < u32 (alignedBase t.base alignment + size)) &&
    match t.mapping with
    | none => true
    | some m => m.flags == flags

def freeListScan (a : RaArena) (test : Tag → Bool) : ℕ → ℕ → Option ℕ
  | 0, _ => none
  | fuel + 1, p =>
    if p = 0 then some 0
    else if test (a.tags p).toTag then some p
    else freeListScan a test fuel (a.tags p).nextFree

def binScan (a : RaArena) (test : Tag → Bool) : ℕ → Option ℕ
  | 0 => some 0
  | n + 1 =>
    match freeListScan a test a.nextTag (a.headFree (freeTableLimit - (n + 1))) with
    | some 0 => binScan a test n
    | r => r

def skipBins (a : RaArena) : ℕ → ℕ
  | 0 => 0
  | n + 1 => if a.headFree (freeTableLimit - (n + 1)) = 0 then skipBins a n else n + 1

def findFree (a : RaArena) (size flags alignment : ℕ) : Option ℕ :=
  binScan a (fits size flags alignment) (skipBins a (freeTableLimit - pvrLog2 size))

def attemptAllocAligned (a : RaArena) (size flags alignment : ℕ) :
    Option (Option (Option BmMapping × ℕ) × RaArena) :=
  match findFree a size flags alignment with
  | none => none
  | some 0 => some (none, a)
  | some bt => some (allocFromBt a bt (alignedBase (a.tags bt).base alignment) size)

def raCreate (os : Os) (memory : ℕ → Bt) (base size : ℕ) (mapping : Option BmMapping)
    (quantum : ℕ) (importAlloc backingStoreFree : Bool) : Option (Option RaArena) :=
  match osAllocMem os with
  | (false, _) => some none
  | (true, os) =>
    match hashCreateExtended os minimumHashSize with
    | (none, _) => some none
    | (some hash, os) =>
      let a : RaArena := {
        quantum := quantum
        importAlloc := importAlloc
        backingStoreFree := backingStoreFree
        headFree := fun _ => 0
        headSegment := 0
        tailSegment := 0
        segmentHash := hash
        tags := memory
        nextTag := 1
        calls := []
        os := os }
      if size > 0 then
        let size := u32 (size + quantum - 1) / quantum * quantum
        match insertResource a base size with
        | none => none
        | some (none, _) => some none
        | some (some bt, a) =>
          some (some (modifyTag a bt fun t => { t with mapping := mapping }))
      else some (some a)

def importSize (quantum size alignment : ℕ) : ℕ :=
  let size := if alignment > quantum then u32 (size + (alignment - 1)) else size
  u32 (size + quantum - 1) / quantum * quantum

def allocFromImport (a : RaArena) (size flags alignment : ℕ) (i : Import) :
    Option (Option (Option BmMapping × ℕ) × RaArena) :=
  let asked := importSize a.quantum size alignment
  let a := { a with calls := a.calls ++ [.imported asked i] }
  match insertResourceSpan a i.base i.size with
  | none => none
  | some (none, a) =>
    some (none, { a with calls := a.calls ++ [.importFree i.base i.mapping] })
  | some (some bt, a) =>
    attemptAllocAligned (modifyTag a bt fun t => { t with mapping := i.mapping })
      size flags alignment

/-- `RA_Alloc`; `answer` is what the import callback returns if it is called. -/
def raAlloc (a : RaArena) (size flags alignment : ℕ) (answer : Option Import) :
    Option (Option (Option BmMapping × ℕ) × RaArena) :=
  match attemptAllocAligned a size flags alignment with
  | none => none
  | some (some r, a) => some (some r, a)
  | some (none, a) =>
    match a.importAlloc, answer with
    | true, some i => allocFromImport a size flags alignment i
    | _, _ => some (none, a)

def raFree (a : RaArena) (base : ℕ) (backing : Bool) : RaArena :=
  match hashRemoveExtended hashBase a.os a.segmentHash base with
  | (0, hash, os) => { a with segmentHash := hash, os := os }
  | (bt, hash, os) => freeBt { a with segmentHash := hash, os := os } bt backing

def raDeleteLoop : ℕ → RaArena → Option (List BtType)
  | 0, _ => none
  | fuel + 1, a =>
    if a.headSegment = 0 then some []
    else
      let bt := a.headSegment
      (raDeleteLoop fuel (osFreeTag (segmentListRemove a bt) bt)).map
        (fun types => (a.tags bt).type :: types)

/-- `RA_Delete` up to the release of the arena; it asserts that each segment is free. -/
def raDelete (a : RaArena) : Option (List BtType) :=
  raDeleteLoop (a.nextTag + 1) { a with headFree := fun _ => 0 }

end PvrServices.Arenas
