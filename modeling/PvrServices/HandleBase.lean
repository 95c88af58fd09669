import PvrServices.HashTable

set_option autoImplicit false

/-!
# The handle base of `handle.c`

The handle array is a memory of entries: `totalHandCount` of them belong to the base, and a
write behind them is a write behind the array. Its block has a size of its own, and an entry that
does not lie in it is not there (`Held`). A result `none` stands for undefined behaviour (a null
entry pointer) or for a recursion that does not come to an end.
-/
namespace PvrServices.Handles
open Words HashTable

inductive HandleType where
  | none | perprocData | devNode | devMemContext | devMemHeap | memInfo | syncInfo | dispInfo
  | dispSwapChain | bufInfo | dispBuffer | bufBuffer | sgxHwRenderContext | sgxHwTransferContext
  | sgxHw2dContext | sharedPbDesc | memInfoRef | sharedSysMemInfo | sharedEventObject
  | eventObjectConnect | mmapInfo | socTimer
deriving DecidableEq, Repr

def HandleType.code : HandleType → ℕ
  | none => 0 | perprocData => 1 | devNode => 2 | devMemContext => 3 | devMemHeap => 4
  | memInfo => 5 | syncInfo => 6 | dispInfo => 7 | dispSwapChain => 8 | bufInfo => 9
  | dispBuffer => 10 | bufBuffer => 11 | sgxHwRenderContext => 12 | sgxHwTransferContext => 13
  | sgxHw2dContext => 14 | sharedPbDesc => 15 | memInfoRef => 16 | sharedSysMemInfo => 17
  | sharedEventObject => 18 | eventObjectConnect => 19 | mmapInfo => 20 | socTimer => 21

structure AllocFlag where
  shared : Bool
  multi : Bool
  priv : Bool
deriving DecidableEq, Repr

structure InternalFlag where
  batched : Bool
  partiallyFree : Bool
deriving DecidableEq, Repr

structure HandleList where
  prev : ℕ
  next : ℕ
  parent : ℕ

structure Handle where
  type : HandleType
  data : ℕ
  nextIndexPlusOne : ℕ
  internalFlag : InternalFlag
  flag : AllocFlag
  index : ℕ
  children : HandleList
  siblings : HandleList

/-- `struct PVRSRV_HANDLE_BASE`, with the answers of the allocator to come; `blockSize` is the number
    of bytes that `psHandleArray` points to. -/
structure HandleBase where
  handleArray : ℕ → Handle
  blockSize : ℕ
  hashTab : Table (List ℕ)
  freeHandCount : ℕ
  firstFreeIndex : ℕ
  maxIndexPlusOne : ℕ
  totalHandCount : ℕ
  lastFreeIndexPlusOne : ℕ
  handBatchSize : ℕ
  totalHandCountPreBatch : ℕ
  firstBatchIndexPlusOne : ℕ
  batchHandAllocFailures : ℕ
  purgingEnabled : Bool
  os : Os

def handleBlockSize : ℕ := 256
def handleHashTabInitSize : ℕ := 32
def defaultMaxIndexPlusOne : ℕ := 0xffffffff
def handleStructSize : ℕ := 48

/-- Every entry that the base counts lies in the block of the array. -/
def Held (b : HandleBase) : Prop :=
  b.totalHandCount * handleStructSize ≤ b.blockSize ∧ b.blockSize < 4294967296

def indexIsValid (b : HandleBase) (i : ℕ) : Bool := i < b.totalHandCount
def indexToHandle (i : ℕ) : ℕ := u32 (i + 1)
def handleToIndex (h : ℕ) : ℕ := u32Sub h 1
def handlesBatched (b : HandleBase) : Bool := b.handBatchSize != 0

def handleStructIsFree (h : Handle) : Bool :=
  h.type == .none && !h.internalFlag.batched && !h.internalFlag.partiallyFree

def setHandle (b : HandleBase) (i : ℕ) (h : Handle) : HandleBase :=
  { b with handleArray := Function.update b.handleArray i h }

/-- The two lists of an entry; the source addresses them by their offset. -/
inductive ListOffset where
  | children
  | siblings
deriving DecidableEq, Repr

/-- The address of a list: an entry and an offset in it. -/
abbrev ListPtr := ℕ × ListOffset

def getList (b : HandleBase) (p : ListPtr) : HandleList :=
  match p.2 with
  | .children => (b.handleArray p.1).children
  | .siblings => (b.handleArray p.1).siblings

def setList (b : HandleBase) (p : ListPtr) (l : HandleList) : HandleBase :=
  match p.2 with
  | .children => setHandle b p.1 { b.handleArray p.1 with children := l }
  | .siblings => setHandle b p.1 { b.handleArray p.1 with siblings := l }

def setPrev (b : HandleBase) (p : ListPtr) (i : ℕ) : HandleBase :=
  setList b p { getList b p with prev := i }
def setNext (b : HandleBase) (p : ListPtr) (i : ℕ) : HandleBase :=
  setList b p { getList b p with next := i }
def setParent (b : HandleBase) (p : ListPtr) (h : ℕ) : HandleBase :=
  setList b p { getList b p with parent := h }

def handleListInit (b : HandleBase) (index : ℕ) (p : ListPtr) (parent : ℕ) : HandleBase :=
  setList b p { prev := index, next := index, parent := parent }

def initParentList (b : HandleBase) (i : ℕ) : HandleBase :=
  handleListInit b i (i, .children) (indexToHandle i)

def initChildEntry (b : HandleBase) (i : ℕ) : HandleBase :=
  handleListInit b i (i, .siblings) 0

def handleListIsEmpty (b : HandleBase) (index : ℕ) (p : ListPtr) : Bool :=
  (getList b p).next == index

def parentHandle (h : Handle) : ℕ := h.siblings.parent

def listPtrFromIndexAndOffset (i p : ℕ) (po eo : ListOffset) : ListPtr :=
  (i, if i = p then po else eo)

def handleListInsertBefore (b : HandleBase) (insIndex : ℕ) (ins : ListPtr) (po : ListOffset)
    (entryIndex : ℕ) (entry : ListPtr) (eo : ListOffset) (parentIndex : ℕ) : HandleBase :=
  let prevIns := listPtrFromIndexAndOffset (getList b ins).prev parentIndex po eo
  let b := setPrev b entry (getList b ins).prev
  let b := setPrev b ins entryIndex
  let b := setNext b entry insIndex
  let b := setNext b prevIns entryIndex
  setParent b entry (indexToHandle parentIndex)

def adoptChild (b : HandleBase) (parent child : ℕ) : HandleBase :=
  let parentIndex := handleToIndex (b.handleArray parent).children.parent
  handleListInsertBefore b parentIndex (parent, .children) .children child (child, .siblings)
    .siblings parentIndex

def handleListRemove (b : HandleBase) (entryIndex : ℕ) (entry : ListPtr)
    (eo po : ListOffset) : HandleBase :=
  if handleListIsEmpty b entryIndex entry then b
  else
    let parentIndex := handleToIndex (getList b entry).parent
    let prev := listPtrFromIndexAndOffset (getList b entry).prev parentIndex po eo
    let next := listPtrFromIndexAndOffset (getList b entry).next parentIndex po eo
    let b := setNext b prev (getList b entry).next
    let b := setPrev b next (getList b entry).prev
    handleListInit b entryIndex entry 0

def unlinkFromParent (b : HandleBase) (i : ℕ) : HandleBase :=
  handleListRemove b i (i, .siblings) .siblings .children

def handleListIterateFrom (iterFunc : HandleBase → ℕ → Option (PvrsrvError × HandleBase))
    (parent : ℕ) (po eo : ListOffset) :
    ℕ → HandleBase → ℕ → Option (PvrsrvError × HandleBase)
  | 0, _, _ => none
  | fuel + 1, b, index =>
    if index = parent then some (.ok, b)
    else
      let next := (getList b (listPtrFromIndexAndOffset index parent po eo)).next
      match iterFunc b index with
      | none => none
      | some (.ok, b) => handleListIterateFrom iterFunc parent po eo fuel b next
      | some (e, b) => some (e, b)

def handleListIterate (fuel : ℕ) (b : HandleBase) (head : ListPtr) (po eo : ListOffset)
    (iterFunc : HandleBase → ℕ → Option (PvrsrvError × HandleBase)) :
    Option (PvrsrvError × HandleBase) :=
  handleListIterateFrom iterFunc (handleToIndex (getList b head).parent) po eo fuel b
    (getList b head).next

def iterateOverChildren (fuel : ℕ) (b : HandleBase) (parent : ℕ)
    (iterFunc : HandleBase → ℕ → Option (PvrsrvError × HandleBase)) :
    Option (PvrsrvError × HandleBase) :=
  handleListIterate fuel b (parent, .children) .children .siblings iterFunc

def parentIfPrivate (h : Handle) : ℕ := if h.flag.priv then parentHandle h else 0

def initKey (data : ℕ) (type : HandleType) (parent : ℕ) : List ℕ := [data, type.code, parent]

def getHandleStructure (b : HandleBase) (h : ℕ) (type : HandleType) : Except PvrsrvError ℕ :=
  let index := handleToIndex h
  if !indexIsValid b index then .error .errorGeneric
  else if (b.handleArray index).type = .none then .error .errorGeneric
  else if type ≠ .none ∧ type ≠ (b.handleArray index).type then .error .errorGeneric
  else .ok index

def findHandle (b : HandleBase) (data : ℕ) (type : HandleType) (parent : ℕ) : ℕ :=
  hashRetrieveExtended hashFuncDefault b.hashTab (initKey data type parent)

/-- The first part of `FreeHandle`: the entry leaves the hash table, unless it was never put
    there or has left it already. -/
def removeFromHash (b : HandleBase) (i : ℕ) : HandleBase :=
  let h := b.handleArray i
  if !h.flag.multi && !h.internalFlag.partiallyFree then
    let (_, hashTab, os) := hashRemoveExtended hashFuncDefault b.os b.hashTab
      (initKey h.data h.type (parentIfPrivate h))
    { b with hashTab := hashTab, os := os }
  else b

def appendFree (b : HandleBase) (i : ℕ) : HandleBase :=
  let b :=
    if b.freeHandCount = 0 then { b with firstFreeIndex := i }
    else
      let last := u32Sub b.lastFreeIndexPlusOne 1
      setHandle b last { b.handleArray last with nextIndexPlusOne := u32 (i + 1) }
  { b with lastFreeIndexPlusOne := u32 (i + 1) }

def retireHandle (b : HandleBase) (i : ℕ) : HandleBase :=
  let b := setHandle b i { b.handleArray i with type := .none }
  let flags := (b.handleArray i).internalFlag
  if flags.batched && !flags.partiallyFree then
    setHandle b i { b.handleArray i with internalFlag := { flags with partiallyFree := true } }
  else
    let b := if b.purgingEnabled then b else appendFree b i
    { b with freeHandCount := u32 (b.freeHandCount + 1) }

/-- `FreeHandle`; the fuel bounds both the depth of the recursion and the loops in it. -/
def freeHandle : ℕ → HandleBase → ℕ → Option (PvrsrvError × HandleBase)
  | 0, _, _ => none
  | fuel + 1, b, i =>
    let b := unlinkFromParent (removeFromHash b i) i
    match iterateOverChildren fuel b i (freeHandle fuel) with
    | none => none
    | some (.ok, b) => some (.ok, retireHandle b i)
    | some (e, b) => some (e, b)

/-- More than the number of entries, so never what ends a run on a well formed base. -/
def freeFuel (b : HandleBase) : ℕ := b.totalHandCount + 2

/-- `ReallocMem` of a block of `size` bytes, with the size of the block that it leaves. -/
def reallocMem (os : Os) (size newSize oldSize : ℕ) : PvrsrvError × ℕ × Os :=
  if newSize = oldSize then (.ok, size, os)
  else if newSize ≠ 0 then
    match osAllocMem os with
    | (false, os) => (.errorOutOfMemory, size, os)
    | (true, os) => (.ok, newSize, os)
  else (.ok, 0, os)

/-- `ReallocHandleArray`. The sizes come round at 2^32, and then the block holds fewer entries. -/
def reallocHandleArray (b : HandleBase) (newCount oldCount : ℕ) : PvrsrvError × HandleBase :=
  let (e, size, os) := reallocMem b.os b.blockSize (u32 (newCount * handleStructSize))
    (u32 (oldCount * handleStructSize))
  (e, { b with blockSize := size, os := os })

/-- The new size that `IncreaseHandleArraySize` settles on, if the limit allows one. -/
def newTotalHandCount (b : HandleBase) (delta : ℕ) : Option ℕ :=
  let newTotal := u32 (b.totalHandCount + roundUpToMultiple delta handleBlockSize)
  if newTotal > b.maxIndexPlusOne ∨ newTotal ≤ b.totalHandCount then
    if u32Sub b.maxIndexPlusOne b.totalHandCount < delta then none
    else some b.maxIndexPlusOne
  else some newTotal

/-- The array with its entries from the old size up to the new one reset. -/
def initNewHandles (b : HandleBase) (newTotal : ℕ) : ℕ → Handle := fun i =>
  if b.totalHandCount ≤ i ∧ i < newTotal then
    { b.handleArray i with
      type := .none
      internalFlag := ⟨false, false⟩
      nextIndexPlusOne := 0 }
  else b.handleArray i

/-- The new entries join the free list; a list that starts at entry 0 counts as empty. -/
def appendNewHandles (b : HandleBase) (newTotal : ℕ) : HandleBase :=
  let b :=
    if b.firstFreeIndex = 0 then { b with firstFreeIndex := b.totalHandCount }
    else if b.purgingEnabled then b
    else
      let last := u32Sub b.lastFreeIndexPlusOne 1
      setHandle b last { b.handleArray last with
        nextIndexPlusOne := u32 (b.totalHandCount + 1) }
  if b.purgingEnabled then b else { b with lastFreeIndexPlusOne := newTotal }

/-- What `IncreaseHandleArraySize` does to a base once it has the memory. -/
def extendHandleArray (b : HandleBase) (newTotal : ℕ) : HandleBase :=
  let b := { b with
    handleArray := initNewHandles b newTotal
    freeHandCount := u32 (b.freeHandCount + u32Sub newTotal b.totalHandCount) }
  { appendNewHandles b newTotal with totalHandCount := newTotal }

def increaseHandleArraySize (b : HandleBase) (delta : ℕ) : PvrsrvError × HandleBase :=
  match newTotalHandCount b delta with
  | none => (.errorOutOfMemory, b)
  | some newTotal =>
    match reallocHandleArray b newTotal b.totalHandCount with
    | (.ok, b) => (.ok, extendHandleArray b newTotal)
    | (e, b) => (e, b)

def ensureFreeHandles (b : HandleBase) (free : ℕ) : PvrsrvError × HandleBase :=
  if free > b.freeHandCount then increaseHandleArraySize b (u32Sub free b.freeHandCount)
  else (.ok, b)

/-- The scan of `AllocHandle` in purging mode over the entries from `i` on: the index it stops
    at and the entry it looked at last. -/
def scanFree (array : ℕ → Handle) : ℕ → ℕ → Option ℕ → ℕ × Option ℕ
  | 0, i, p => (i, p)
  | n + 1, i, _ =>
    if handleStructIsFree (array i) then (i, some i) else scanFree array n (i + 1) (some i)

/-- The index that `AllocHandle` picks and the entry it is about to write. -/
def pickFree (b : HandleBase) : ℕ × Option ℕ :=
  if b.purgingEnabled then
    scanFree b.handleArray (b.totalHandCount - b.firstFreeIndex) b.firstFreeIndex none
  else (b.firstFreeIndex, some b.firstFreeIndex)

def popFree (b : HandleBase) (newIndex p : ℕ) : HandleBase :=
  let b := { b with freeHandCount := u32Sub b.freeHandCount 1 }
  if b.purgingEnabled then b
  else if b.freeHandCount = 0 then { b with lastFreeIndexPlusOne := 0, firstFreeIndex := 0 }
  else { b with
    firstFreeIndex :=
      if (b.handleArray p).nextIndexPlusOne = 0 then u32 (newIndex + 1)
      else (b.handleArray p).nextIndexPlusOne - 1 }

def initHandle (b : HandleBase) (newIndex p : ℕ) (data : ℕ) (type : HandleType)
    (flag : AllocFlag) : HandleBase :=
  let b := setHandle b p { b.handleArray p with
    type := type
    data := data
    internalFlag := ⟨false, false⟩
    flag := flag
    index := newIndex }
  let b := initChildEntry (initParentList b p) p
  if handlesBatched b then
    let b := setHandle b p { b.handleArray p with
      nextIndexPlusOne := b.firstBatchIndexPlusOne
      internalFlag := { (b.handleArray p).internalFlag with batched := true } }
    { b with firstBatchIndexPlusOne := u32 (newIndex + 1) }
  else setHandle b p { b.handleArray p with nextIndexPlusOne := 0 }

def allocHandle (b : HandleBase) (data : ℕ) (type : HandleType) (flag : AllocFlag)
    (parent : ℕ) : Option (PvrsrvError × ℕ × HandleBase) :=
  match ensureFreeHandles b 1 with
  | (.ok, b) =>
    let (newIndex, newHandle) := pickFree b
    let b := if b.purgingEnabled then { b with firstFreeIndex := 0 } else b
    let h := indexToHandle newIndex
    let (inserted, b) :=
      if flag.multi then (true, b)
      else
        let (inserted, hashTab, os) := hashInsertExtended hashFuncDefault b.os b.hashTab
          (initKey data type parent) h
        (inserted, { b with hashTab := hashTab, os := os })
    if !inserted then some (.errorGeneric, 0, b)
    else
      match newHandle with
      | none => none
      | some p => some (.ok, h, initHandle (popFree b newIndex p) newIndex p data type flag)
  | (e, b) => some (e, 0, b)

def addBatchFailure (b : HandleBase) : HandleBase :=
  if handlesBatched b then { b with batchHandAllocFailures := u32 (b.batchHandAllocFailures + 1) }
  else b

def dropBatchFailure (b : HandleBase) : HandleBase :=
  if handlesBatched b then { b with batchHandAllocFailures := u32Sub b.batchHandAllocFailures 1 }
  else b

def pvrsrvAllocHandle (b : HandleBase) (data : ℕ) (type : HandleType) (flag : AllocFlag) :
    Option (PvrsrvError × ℕ × HandleBase) :=
  let b := addBatchFailure b
  let found := if flag.multi then 0 else findHandle b data type 0
  if found ≠ 0 then
    match getHandleStructure b found type with
    | .error e => some (e, 0, b)
    | .ok i =>
      if (b.handleArray i).flag.shared && flag.shared then some (.ok, found, dropBatchFailure b)
      else some (.errorGeneric, 0, b)
  else
    match allocHandle b data type flag 0 with
    | none => none
    | some (.ok, h, b) => some (.ok, h, dropBatchFailure b)
    | some (e, _, b) => some (e, 0, b)

def pvrsrvAllocSubHandle (b : HandleBase) (data : ℕ) (type : HandleType) (flag : AllocFlag)
    (parent : ℕ) : Option (PvrsrvError × ℕ × HandleBase) :=
  let b := addBatchFailure b
  let parentKey := if flag.priv then parent else 0
  match getHandleStructure b parent .none with
  | .error _ => some (.errorGeneric, 0, b)
  | .ok _ =>
    let found := if flag.multi then 0 else findHandle b data type parentKey
    if found ≠ 0 then
      match getHandleStructure b found type with
      | .error e => some (e, 0, b)
      | .ok i =>
        if ((b.handleArray i).flag.shared && flag.shared) &&
            parentHandle (b.handleArray (handleToIndex found)) == parent then
          some (.ok, found, dropBatchFailure b)
        else some (.errorGeneric, 0, b)
    else
      match allocHandle b data type flag parentKey with
      | none => none
      | some (.ok, h, b) =>
        some (.ok, h, dropBatchFailure (adoptChild b (handleToIndex parent) (handleToIndex h)))
      | some (e, _, b) => some (e, 0, b)

def pvrsrvFindHandle (b : HandleBase) (data : ℕ) (type : HandleType) : Except PvrsrvError ℕ :=
  let h := findHandle b data type 0
  if h = 0 then .error .errorGeneric else .ok h

def pvrsrvLookupHandle (b : HandleBase) (h : ℕ) (type : HandleType) : Except PvrsrvError ℕ :=
  match getHandleStructure b h type with
  | .error e => .error e
  | .ok i => .ok (b.handleArray i).data

def ancestorLoop (b : HandleBase) (ancestor : ℕ) : ℕ → ℕ → Option (Except PvrsrvError Unit)
  | 0, _ => none
  | fuel + 1, i =>
    if parentHandle (b.handleArray i) = ancestor then some (.ok ())
    else
      match getHandleStructure b (parentHandle (b.handleArray i)) .none with
      | .error _ => some (.error .errorGeneric)
      | .ok p => ancestorLoop b ancestor fuel p

def pvrsrvLookupSubHandle (fuel : ℕ) (b : HandleBase) (h : ℕ) (type : HandleType)
    (ancestor : ℕ) : Option (Except PvrsrvError ℕ) :=
  match getHandleStructure b h type with
  | .error e => some (.error e)
  | .ok i =>
    match ancestorLoop b ancestor fuel i with
    | none => none
    | some (.error e) => some (.error e)
    | some (.ok _) => some (.ok (b.handleArray i).data)

def pvrsrvLookupAndReleaseHandle (b : HandleBase) (h : ℕ) (type : HandleType) :
    Option (PvrsrvError × ℕ × HandleBase) :=
  match getHandleStructure b h type with
  | .error e => some (e, 0, b)
  | .ok i =>
    match freeHandle (freeFuel b) b i with
    | none => none
    | some (e, b') => some (e, (b.handleArray i).data, b')

def pvrsrvReleaseHandle (b : HandleBase) (h : ℕ) (type : HandleType) :
    Option (PvrsrvError × HandleBase) :=
  match getHandleStructure b h type with
  | .error e => some (e, b)
  | .ok i => freeHandle (freeFuel b) b i

def pvrsrvNewHandleBatch (b : HandleBase) (batchSize : ℕ) : PvrsrvError × HandleBase :=
  if handlesBatched b then (.errorGeneric, b)
  else if batchSize = 0 then (.errorInvalidParams, b)
  else
    match ensureFreeHandles b batchSize with
    | (.ok, b) =>
      (.ok, { b with handBatchSize := batchSize, totalHandCountPreBatch := b.totalHandCount })
    | (e, b) => (e, b)

def setUnbatchedHandle (b : HandleBase) (i : ℕ) : HandleBase :=
  setHandle b i { b.handleArray i with
    internalFlag := { (b.handleArray i).internalFlag with batched := false } }

def batchLoop (commitBatch : Bool) : ℕ → HandleBase → ℕ → Option HandleBase
  | 0, _, _ => none
  | fuel + 1, b, indexPlusOne =>
    if indexPlusOne = 0 then some b
    else
      let i := indexPlusOne - 1
      let next := (b.handleArray i).nextIndexPlusOne
      let b := setHandle b i { b.handleArray i with nextIndexPlusOne := 0 }
      let partiallyFree := (b.handleArray i).internalFlag.partiallyFree
      if !commitBatch || partiallyFree then
        let b := if partiallyFree then b else setUnbatchedHandle b i
        match freeHandle (freeFuel b) b i with
        | none => none
        | some (_, b) => batchLoop commitBatch fuel b next
      else batchLoop commitBatch fuel (setUnbatchedHandle b i) next

def pvrsrvHandleBatchCommitOrRelease (b : HandleBase) (commit : Bool) :
    Option (PvrsrvError × HandleBase) :=
  if !handlesBatched b then some (.errorInvalidParams, b)
  else
    let commitBatch := commit && b.batchHandAllocFailures == 0
    match batchLoop commitBatch (freeFuel b) b b.firstBatchIndexPlusOne with
    | none => none
    | some b =>
      let b := { b with
        handBatchSize := 0
        firstBatchIndexPlusOne := 0
        totalHandCountPreBatch := 0
        batchHandAllocFailures := 0 }
      -- the counter tested here was cleared by the line above, as in the source
      if b.batchHandAllocFailures ≠ 0 ∧ commit then some (.errorGeneric, b) else some (.ok, b)

def pvrsrvCommitHandleBatch (b : HandleBase) : Option (PvrsrvError × HandleBase) :=
  pvrsrvHandleBatchCommitOrRelease b true

def pvrsrvReleaseHandleBatch (b : HandleBase) : Option HandleBase :=
  (pvrsrvHandleBatchCommitOrRelease b false).map Prod.snd

def freeAllLoop : ℕ → HandleBase → ℕ → Option (PvrsrvError × HandleBase)
  | 0, b, _ => some (.ok, b)
  | n + 1, b, i =>
    if (b.handleArray i).type ≠ .none then
      match freeHandle (freeFuel b) b i with
      | none => none
      | some (.ok, b) =>
        if b.freeHandCount = b.totalHandCount then some (.ok, b) else freeAllLoop n b (i + 1)
      | some (e, b) => some (e, b)
    else freeAllLoop n b (i + 1)

def freeAllHandles (b : HandleBase) : Option (PvrsrvError × HandleBase) :=
  if b.freeHandCount = b.totalHandCount then some (.ok, b) else freeAllLoop b.totalHandCount b 0

/-- `FreeHandleBase` up to `HASH_Delete`: the result and the base as it is then. -/
def freeHandleBase (b : HandleBase) : Option (PvrsrvError × HandleBase) :=
  match if handlesBatched b then pvrsrvReleaseHandleBatch b else some b with
  | none => none
  | some b => freeAllHandles b

def pvrsrvSetMaxHandle (b : HandleBase) (maxHandle : ℕ) : PvrsrvError × HandleBase :=
  if handlesBatched b then (.errorInvalidParams, b)
  else if maxHandle = 0 ∨ maxHandle > defaultMaxIndexPlusOne then (.errorInvalidParams, b)
  else if b.totalHandCount ≠ 0 then (.errorInvalidParams, b)
  else (.ok, { b with maxIndexPlusOne := maxHandle })

def pvrsrvEnableHandlePurging (b : HandleBase) : PvrsrvError × HandleBase :=
  if b.purgingEnabled then (.ok, b)
  else if b.totalHandCount ≠ 0 then (.errorInvalidParams, b)
  else (.ok, { b with purgingEnabled := true })

def scanUsed (array : ℕ → Handle) : ℕ → ℕ
  | 0 => 0
  | n + 1 => if handleStructIsFree (array n) then scanUsed array n else n + 1

def pvrsrvPurgeHandles (b : HandleBase) : PvrsrvError × HandleBase :=
  if !b.purgingEnabled then (.errorNotSupported, b)
  else if handlesBatched b then (.errorInvalidParams, b)
  else
    let handle := scanUsed b.handleArray b.totalHandCount
    let newHandCount := roundUpToMultiple handle handleBlockSize
    if newHandCount ≥ handle ∧ newHandCount ≤ b.totalHandCount / 2 then
      let delta := u32Sub b.totalHandCount newHandCount
      match reallocHandleArray b newHandCount b.totalHandCount with
      | (.ok, b) =>
        (.ok, { b with
          totalHandCount := newHandCount
          freeHandCount := u32Sub b.freeHandCount delta
          firstFreeIndex := 0 })
      | (e, b) => (e, b)
    else (.ok, b)

/-- `PVRSRVAllocHandleBase`; `junk` is what the memory of handle arrays happens to hold. -/
def pvrsrvAllocHandleBase (os : Os) (junk : ℕ → Handle) : Except PvrsrvError HandleBase :=
  match osAllocMem os with
  | (false, _) => .error .errorOutOfMemory
  | (true, os) =>
    match hashCreateExtended (K := List ℕ) os handleHashTabInitSize with
    | (none, _) => .error .errorGeneric
    | (some hashTab, os) =>
      .ok {
        handleArray := junk
        blockSize := 0
        hashTab := hashTab
        freeHandCount := 0
        firstFreeIndex := 0
        maxIndexPlusOne := defaultMaxIndexPlusOne
        totalHandCount := 0
        lastFreeIndexPlusOne := 0
        handBatchSize := 0
        totalHandCountPreBatch := 0
        firstBatchIndexPlusOne := 0
        batchHandAllocFailures := 0
        purgingEnabled := false
        os := os }

end PvrServices.Handles
