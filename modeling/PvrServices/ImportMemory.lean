import PvrServices.BufferStore

set_option autoImplicit false

/-!
# Imported memory

`BM_ImportMemory` and `BM_FreeMemory`: the memory behind a span of the import arena. The size of
the memory, of the device addresses and of the mapping differ by the flags of the request.
-/
namespace PvrServices.BufferStore
open Words Mmaps OsAreas BlockHeap
open BufferManager (Origin backingstoreSysmemNoncontig backingstoreLocalmemContig)

structure ImportCall where
  size : ℕ
  flags : ℕ
  mapping : Option ℕ
  area : Option ℕ
  cpuVAddr : ℕ
  frame : ℕ → ℕ
  localAddr : Option ℕ
  devVAddr : Option ℕ

def ImportCall.frames (c : ImportCall) (n : ℕ) : List ℕ := (List.range (pageCount n)).map c.frame

def newMapping (c : ImportCall) : Mapping :=
  ⟨.env, false, 0, 0, 0, [], pageAlign c.size, 0, c.flags⟩

def pSize (heap : BmHeap) (m : Mapping) : ℕ :=
  if hasFlag m.flags memDummy then heap.dataPageSize else m.size

def halve (m : Mapping) : Mapping :=
  if hasFlag m.flags memInterleaved then { m with size := m.size / 2 } else m

def localAlloc (s : Store) (addr n : ℕ) : Option Store :=
  if (s.locals addr).isSome ∨ addr ≥ 4294967296 ∨ addr + n > 4294967296 then none
  else some { s with locals := Function.update s.locals addr (some n) }

def localFree (s : Store) (addr : ℕ) : Store :=
  { s with locals := Function.update s.locals addr none }

def failMappingAlloc (s : Store) (p : ℕ) : Option (ℕ × Store) :=
  (s.freeMapping p).map fun s => (0, s)

def freeLocal (s : Store) (heap : BmHeap) (m : Mapping) (cpuVAddr : ℕ) : Option Store :=
  (if cpuVAddr ≠ 0 then releaseArea s heap.attribs m.hOSMemHandle (pSize heap m) else some s).map
    fun s => localFree s m.cpuPAddr

def undoMemory (s : Store) (heap : BmHeap) (m : Mapping) : Option Store :=
  if hasFlag heap.attribs backingstoreSysmemNoncontig then
    releaseArea s heap.attribs m.hOSMemHandle (pSize heap m)
  else freeLocal s heap m m.cpuVAddr

def failDevMemAlloc (s : Store) (heap : BmHeap) (p : ℕ) (m : Mapping) : Option (ℕ × Store) :=
  if m.cpuVAddr = 0 ∧ m.hOSMemHandle = 0 then failMappingAlloc s p
  else (undoMemory s heap (halve m)).bind fun s => failMappingAlloc s p

def importDevMem (s : Store) (heap : BmHeap) (c : ImportCall) (p : ℕ) (m : Mapping) :
    Option (ℕ × Store) := do
  let (r, s) ← devMemoryAlloc s m c.flags c.devVAddr
  if r.1 then (s.writeMapping p r.2).map fun s => (p, s) else failDevMemAlloc s heap p r.2

def importPages (s : Store) (heap : BmHeap) (c : ImportCall) (p : ℕ) (m : Mapping) :
    Option (ℕ × Store) := do
  let n := pSize heap m
  let (a, s) ← makeArea s heap.attribs n (.pages (c.frames n)) c.area
  if a = 0 then failMappingAlloc s p
  else importDevMem s heap c p { m with
    cpuVAddr := areaCpuVAddr heap.attribs a c.cpuVAddr
    hOSMemHandle := a
    origin := .env }

def importLocal (s : Store) (heap : BmHeap) (c : ImportCall) (p : ℕ) (m : Mapping) :
    Option ℕ → Option (ℕ × Store)
  | none => failMappingAlloc s p
  | some addr => do
    let n := pSize heap m
    let s ← localAlloc s addr n
    let (a, s) ← makeArea s heap.attribs n (.phys addr) c.area
    let m := { m with
      cpuPAddr := addr
      cpuVAddr := areaCpuVAddr heap.attribs a c.cpuVAddr
      hOSMemHandle := a }
    if a = 0 then failDevMemAlloc s heap p m
    else importDevMem s heap c p { m with origin := .contiguous }

def bmImportMemory (s : Store) (heap : BmHeap) (c : ImportCall) : Option (ℕ × Store) := do
  let m := newMapping c
  let (p, s) ← s.allocMapping m c.mapping
  if p = 0 then some (0, s)
  else if hasFlag heap.attribs backingstoreSysmemNoncontig then importPages s heap c p m
  else if hasFlag heap.attribs backingstoreLocalmemContig then
    importLocal s heap c p m c.localAddr
  else failMappingAlloc s p

def freeBacking (s : Store) (heap : BmHeap) (m : Mapping) : Option Store :=
  if hasFlag heap.attribs backingstoreSysmemNoncontig then
    releaseArea s heap.attribs m.hOSMemHandle (pSize heap m)
  else if hasFlag heap.attribs backingstoreLocalmemContig then
    (releaseArea s heap.attribs m.hOSMemHandle (pSize heap m)).map fun s => localFree s m.cpuPAddr
  else some s

def bmFreeMemory (s : Store) (heap : BmHeap) (p : ℕ) : Option Store := do
  let m ← s.mappingAt p
  let s ← freeBacking (devMemoryFree s m) heap (halve m)
  s.freeMapping p

def Owns (t : Store) (m : Mapping) (addr : ℕ) : Prop :=
  match m.origin with
  | .env => ∃ b list, t.areas.blocks m.hOSMemHandle = some b ∧ b.content.kind = .pages list ∧
      addr ∈ list
  | .contiguous => ∃ n, t.locals m.cpuPAddr = some n ∧ m.cpuPAddr ≤ addr ∧ addr < m.cpuPAddr + n
  | _ => False

/-- Every page-table entry of the mapping refers to a page that was allocated for it. -/
def Backed (t : Store) (m : Mapping) : Prop :=
  ∀ k, k < pageCount m.size → ∃ addr,
    t.ptes (m.devVAddr / pageSize + k) = some (.page addr) ∧ Owns t m addr

/-- The mapping is as the import has left it, whatever else has happened; the arena that it was added
    to is written into it since. -/
structure Later (t u : Store) (p : ℕ) (m : Mapping) : Prop where
  mapping : ∃ arena, u.mappingAt p = some { m with arena := arena }
  area : ∃ b b', t.areas.blocks m.hOSMemHandle = some b ∧ u.areas.blocks m.hOSMemHandle = some b' ∧
    b'.size = b.size ∧ b'.content.kind = b.content.kind
  device : u.device m.devVAddr = t.device m.devVAddr
  locals : u.locals m.cpuPAddr = t.locals m.cpuPAddr

/-- The device range is unmapped, and the memory is freed once, as large as it was allocated. -/
structure FreesAll (u v : Store) (p : ℕ) (m : Mapping) : Prop where
  unmapped : ∀ k, k < pageCount m.size → v.ptes (m.devVAddr / pageSize + k) = none
  range : v.device m.devVAddr = none
  mapping : v.mappings.blocks p = none
  area : v.areas.blocks m.hOSMemHandle = none
  told : ∀ b, u.areas.blocks m.hOSMemHandle = some b →
    v.areas.events = u.areas.events ++ [.free m.hOSMemHandle b.size]
  locals : m.origin = .contiguous → v.locals m.cpuPAddr = none

def Store.frames (s : Store) (a : ℕ) : Option (List ℕ) :=
  (s.areas.blocks a).bind fun b =>
    match b.content.kind with
    | .pages list => some list
    | _ => none

/-- The mappings, the pages, the local memory and the device addresses are as before. -/
structure GivenBack (s t : Store) : Prop where
  mappings : t.mappings.blocks = s.mappings.blocks
  frames : t.frames = s.frames
  locals : t.locals = s.locals
  device : t.device = s.device
  ptes : t.ptes = s.ptes

/-- What an import leaves, and what `BM_FreeMemory` makes of it in the state `u`. -/
def Keeps (s : Store) (heap : BmHeap) (r : ℕ × Store) (u : Store) : Prop :=
  if r.1 = 0 then GivenBack s r.2
  else ∃ m v, r.2.mappingAt r.1 = some m ∧ Backed r.2 m ∧
    bmFreeMemory u heap r.1 = some v ∧ FreesAll u v r.1 m

structure Made (heap : BmHeap) (c : ImportCall) : Prop where
  mapping : c.mapping ≠ none
  area : mapType heap.attribs ≠ .other ∧ c.area ≠ none
  memory : hasFlag heap.attribs backingstoreSysmemNoncontig = true ∨
    (hasFlag heap.attribs backingstoreLocalmemContig = true ∧ c.localAddr ≠ none)
  device : c.devVAddr ≠ none

structure LocalLost (heap : BmHeap) (c : ImportCall) : Prop where
  mapping : c.mapping ≠ none
  memory : hasFlag heap.attribs backingstoreSysmemNoncontig = false
  locals : hasFlag heap.attribs backingstoreLocalmemContig = true ∧ c.localAddr ≠ none
  area : mapType heap.attribs = .other ∨ c.area = none

/-- No local memory is left without an area, memory that is interleaved and not a dummy is empty,
    and no process has the area mapped when it is freed. -/
structure Provided (heap : BmHeap) (c : ImportCall) (u : Store) : Prop where
  found : ¬LocalLost heap c
  sized : Made heap c → hasFlag c.flags memInterleaved = true →
    hasFlag c.flags memDummy = false → pageAlign c.size = 0
  unmapped : Made heap c → MapType.listed (mapType heap.attribs) = true → ∀ a b, c.area = some a →
    u.areas.blocks a = some b → b.content.mapped = false

variable {s t u v : Store} {heap : BmHeap} {c : ImportCall} {p n k addr : ℕ} {m : Mapping}
  {r : ℕ × Store} {g : Option ℕ}

def memorySize (heap : BmHeap) (c : ImportCall) : ℕ := pSize heap (newMapping c)

@[simp] theorem halve_hOSMemHandle (m : Mapping) : (halve m).hOSMemHandle = m.hOSMemHandle := by
  unfold halve
  split <;> rfl

@[simp] theorem halve_cpuPAddr (m : Mapping) : (halve m).cpuPAddr = m.cpuPAddr := by
  unfold halve
  split <;> rfl

@[simp] theorem halve_flags (m : Mapping) : (halve m).flags = m.flags := by
  unfold halve
  split <;> rfl

theorem devSize_whole (c : ImportCall) (m : Mapping) (hm : m.size = pageAlign c.size) :
    (devSize m c.flags).size % 4096 = 0 := by
  have hmod := pageAlign_mod c.size
  rw [devSize_eq, hm]
  dsimp only
  split
  · rw [u32_eq_mod]
    omega
  · exact hmod

inductive Laid (heap : BmHeap) (c : ImportCall) (t : Store) (m : Mapping) (n : ℕ) : Prop where
  | pages (sys : hasFlag heap.attribs backingstoreSysmemNoncontig = true)
      (origin : m.origin = .env)
      (area : t.areas.blocks m.hOSMemHandle = some ⟨n, ⟨.pages (c.frames n), false⟩⟩)
      (entries : ∀ k, k < pageCount m.size → t.ptes (m.devVAddr / pageSize + k) =
        some ((AreaKind.pages (c.frames n)).page (u32 (0 + k * pAdvance c.flags))))
  | locals (sys : hasFlag heap.attribs backingstoreSysmemNoncontig = false)
      (contig : hasFlag heap.attribs backingstoreLocalmemContig = true)
      (origin : m.origin = .contiguous)
      (area : t.areas.blocks m.hOSMemHandle = some ⟨n, ⟨.phys m.cpuPAddr, false⟩⟩)
      (live : t.locals m.cpuPAddr = some n) (addr_lt : m.cpuPAddr < 4294967296)
      (fits : m.cpuPAddr + n ≤ 4294967296)
      (entries : ∀ k, k < pageCount m.size → t.ptes (m.devVAddr / pageSize + k) =
        some (.page (u32 (m.cpuPAddr + k * pAdvance c.flags))))

structure Imported (heap : BmHeap) (c : ImportCall) (p : ℕ) (t : Store) (m : Mapping) : Prop where
  pos : p ≠ 0
  mapping : t.mappingAt p = some m
  flags : m.flags = c.flags
  size : m.size = (devSize (newMapping c) c.flags).size
  handle : c.area = some m.hOSMemHandle
  aligned : m.devVAddr % 4096 = 0
  fits : m.devVAddr + m.size ≤ 4294967296
  device : t.device m.devVAddr = some m.size
  laid : Laid heap c t m (memorySize heap c)

structure Ready (s u : Store) (c : ImportCall) (p : ℕ) (m : Mapping) : Prop where
  fresh : s.mappings.blocks p = none
  mapping : u.mappings.blocks p = some ⟨bmMappingSize, newMapping c⟩
  others : ∀ q, q ≠ p → u.mappings.blocks q = s.mappings.blocks q
  size : m.size = pageAlign c.size
  flags : m.flags = c.flags
  handle : c.area = some m.hOSMemHandle
  device : u.device = s.device
  ptes : u.ptes = s.ptes

theorem Ready.freed (hr : Ready s u c p m) (hm : v.mappings = u.mappings)
    (hf : v.freeMapping p = some t) : t.mappings.blocks = s.mappings.blocks := by
  have hspec := (Store.freeMapping_spec hf).2
  rw [hm] at hspec
  funext q
  by_cases hq : q = p
  · rw [hq, hspec.gone, hr.fresh]
  · rw [hspec.others q hq, hr.others q hq]

theorem frames_congr (hb : t.areas.blocks = s.areas.blocks) : t.frames = s.frames := by
  funext a
  unfold Store.frames
  rw [hb]

theorem frames_phys {a : ℕ} (ha : Allocates s.areas t.areas a n ⟨.phys addr, false⟩) :
    t.frames = s.frames := by
  funext q
  unfold Store.frames
  by_cases hq : q = a
  · rw [hq, ha.new, ha.fresh]
    rfl
  · rw [ha.others q hq]

theorem givenBack_of_freed (hr : Ready s u c p m) (hmap : v.mappings = u.mappings)
    (hdevice : v.device = u.device) (hptes : v.ptes = u.ptes) (hframes : v.frames = s.frames)
    (hlocals : v.locals = s.locals) (hf : v.freeMapping p = some t) : GivenBack s t := by
  have hrest := (Store.freeMapping_spec hf).1
  refine ⟨hr.freed hmap hf, ?_, ?_, ?_, ?_⟩
  · rw [← hframes]
    apply frames_congr
    rw [hrest]
  · rw [hrest]
    exact hlocals
  · rw [hrest]
    exact hdevice.trans hr.device
  · rw [hrest]
    exact hptes.trans hr.ptes

theorem failPages_back {a : ℕ} (hr : Ready s u c p m) (hlocals : u.locals = s.locals)
    (hknown : mapType heap.attribs ≠ .other)
    (ha : Allocates s.areas u.areas a n ⟨.pages (c.frames n), false⟩)
    (hm : m.hOSMemHandle = a) (hsys : hasFlag heap.attribs backingstoreSysmemNoncontig = true)
    (hfail : failDevMemAlloc u heap p (devSize m c.flags) = some r) :
    r.1 = 0 ∧ GivenBack s r.2 := by
  unfold failDevMemAlloc at hfail
  rw [devSize_hOSMemHandle, hm, if_neg fun h => ha.pos h.2] at hfail
  obtain ⟨w, hw, hfail⟩ := Option.bind_eq_some_iff.mp hfail
  unfold undoMemory at hw
  rw [if_pos hsys, halve_hOSMemHandle, devSize_hOSMemHandle, hm,
    releaseArea_free ha.new hknown fun _ => rfl] at hw
  obtain ⟨hrest, hfrees⟩ := Store.freeArea_spec hw
  obtain ⟨x, hx, heq⟩ := Option.map_eq_some_iff.mp hfail
  have hback := ha.freed rfl hfrees
  rw [← heq]
  refine ⟨rfl, givenBack_of_freed hr ?_ ?_ ?_ (frames_congr hback) ?_ hx⟩
  · rw [hrest]
  · rw [hrest]
  · rw [hrest]
  · rw [hrest]
    exact hlocals

theorem failLocal_back {a : ℕ} (hr : Ready s u c p m)
    (hlocals : u.locals = Function.update s.locals addr (some n)) (hfree : s.locals addr = none)
    (hknown : mapType heap.attribs ≠ .other)
    (ha : Allocates s.areas u.areas a n ⟨.phys addr, false⟩) (hm : m.hOSMemHandle = a)
    (haddr : m.cpuPAddr = addr) (hsys : hasFlag heap.attribs backingstoreSysmemNoncontig = false)
    (hfail : failDevMemAlloc u heap p (devSize m c.flags) = some r) :
    r.1 = 0 ∧ GivenBack s r.2 := by
  have hback : Function.update u.locals addr none = s.locals := by
    rw [hlocals, Function.update_idem, ← hfree]
    exact Function.update_eq_self _ _
  unfold failDevMemAlloc at hfail
  rw [devSize_hOSMemHandle, hm, if_neg fun h => ha.pos h.2] at hfail
  obtain ⟨w, hw, hfail⟩ := Option.bind_eq_some_iff.mp hfail
  obtain ⟨x, hx, heq⟩ := Option.map_eq_some_iff.mp hfail
  unfold undoMemory at hw
  rw [if_neg (Bool.eq_false_iff.mp hsys)] at hw
  unfold freeLocal at hw
  obtain ⟨w', hw', hw⟩ := Option.map_eq_some_iff.mp hw
  unfold localFree at hw
  rw [halve_hOSMemHandle, devSize_hOSMemHandle, hm] at hw'
  rw [halve_cpuPAddr, devSize_cpuPAddr, haddr] at hw
  have hw'' : w' = { u with areas := w'.areas } ∧ w'.frames = s.frames := by
    split at hw'
    · rw [releaseArea_free ha.new hknown fun _ => rfl] at hw'
      obtain ⟨hrest, hfrees⟩ := Store.freeArea_spec hw'
      exact ⟨hrest, frames_congr (ha.freed rfl hfrees)⟩
    · rw [← Option.some.inj hw']
      exact ⟨rfl, frames_phys ha⟩
  obtain ⟨hrest, hframes⟩ := hw''
  rw [← heq]
  refine ⟨rfl, givenBack_of_freed hr ?_ ?_ ?_ ?_ ?_ hx⟩
  · rw [← hw, hrest]
  · rw [← hw, hrest]
  · rw [← hw, hrest]
  · rw [← hframes, ← hw]
    rfl
  · rw [← hw, ← hback, hrest]

inductive ImportEnds (s : Store) (heap : BmHeap) (c : ImportCall) : ℕ × Store → Prop where
  | failed {t : Store} (back : GivenBack s t) (how : ¬Made heap c) (found : ¬LocalLost heap c) :
      ImportEnds s heap c (0, t)
  | lost {t : Store} (left : t.locals ≠ s.locals) (how : LocalLost heap c) :
      ImportEnds s heap c (0, t)
  | made {p : ℕ} {t : Store} {m : Mapping} (imported : Imported heap c p t m)
      (how : Made heap c) : ImportEnds s heap c (p, t)

theorem Made.not_lost (hm : Made heap c) : ¬LocalLost heap c := by
  intro hl
  cases hl.area with
  | inl hother => exact hm.area.1 hother
  | inr hnone => exact hm.area.2 hnone

theorem lost_of_pages (hsys : hasFlag heap.attribs backingstoreSysmemNoncontig = true) :
    ¬LocalLost heap c := fun hl => Bool.noConfusion (hsys.symm.trans hl.memory)

/-- The import has its device addresses and has mapped its memory. -/
theorem imported_of_mapped {w : ℕ} (hp : p ≠ 0) (hr : Ready s u c p m)
    (haligned : w % 4096 = 0)
    (hfits : w + (devSize m c.flags).size ≤ 4294967296)
    (hdevice : v.device w = some (devSize m c.flags).size)
    (hlaid : Laid heap c v { devSize m c.flags with devVAddr := w } (memorySize heap c))
    (hw : v.writeMapping p { devSize m c.flags with devVAddr := w } = some t) :
    Imported heap c p t { devSize m c.flags with devVAddr := w } := by
  obtain ⟨hrest, hwritten, -⟩ := Store.writeMapping_spec hw
  obtain ⟨b, -, hb⟩ := hwritten
  refine ⟨hp, Store.mappingAt_eq_some.mpr ⟨_, hb⟩, ?_, ?_, ?_, haligned, hfits, ?_, ?_⟩
  · exact (devSize_flags m c.flags).trans hr.flags
  · dsimp only
    rw [devSize_eq, devSize_eq, hr.size]
    rfl
  · dsimp only
    rw [devSize_hOSMemHandle]
    exact hr.handle
  · rw [hrest]
    exact hdevice
  · cases hlaid with
    | pages sys origin area entries =>
      refine .pages sys origin ?_ ?_
      · rw [hrest]
        exact area
      · rw [hrest]
        exact entries
    | locals sys contig origin area live addr_lt fits entries =>
      refine .locals sys contig origin ?_ ?_ addr_lt fits ?_
      · rw [hrest]
        exact area
      · rw [hrest]
        exact live
      · rw [hrest]
        exact entries

theorem importDevMem_pages {a : ℕ} (hp : p ≠ 0) (hmapping : c.mapping ≠ none)
    (hr : Ready s u c p m) (hlocals : u.locals = s.locals) (hknown : mapType heap.attribs ≠ .other)
    (ha : Allocates s.areas u.areas a (memorySize heap c)
      ⟨.pages (c.frames (memorySize heap c)), false⟩) (hm : m.hOSMemHandle = a)
    (horigin : m.origin = .env) (hsys : hasFlag heap.attribs backingstoreSysmemNoncontig = true)
    (hi : importDevMem u heap c p m = some r) : ImportEnds s heap c r := by
  unfold importDevMem at hi
  obtain ⟨⟨b, x⟩, hx, hi⟩ := Option.bind_eq_some_iff.mp hi
  have harea : c.area ≠ none := by
    rw [hr.handle]
    exact Option.some_ne_none _
  cases devMemoryAlloc_spec hx with
  | inl hnone =>
    obtain ⟨hdevice, hb, hxu⟩ := hnone
    rw [hb, hxu] at hi
    obtain ⟨h0, hback⟩ := failPages_back hr hlocals hknown ha hm hsys hi
    obtain ⟨q, t⟩ := r
    obtain rfl : q = 0 := h0
    exact .failed hback (fun hmade => hmade.device hdevice) (lost_of_pages hsys)
  | inr hsome =>
    obtain ⟨w, hdevice, -, haligned, hfits, hb, hmap⟩ := hsome
    rw [hb] at hi
    obtain ⟨t, ht, heq⟩ := Option.map_eq_some_iff.mp hi
    unfold devMap at hmap
    dsimp only at hmap
    rw [devSize_origin, horigin] at hmap
    unfold mmuMapShadow at hmap
    dsimp only at hmap
    rw [devSize_hOSMemHandle, hm, ha.new] at hmap
    have hx' := (Option.some.inj hmap).symm
    rw [← heq]
    have hwhole := pageCount_whole (devSize_whole c m hr.size)
    refine .made (imported_of_mapped hp hr haligned hfits ?_ ?_ ht)
      ⟨hmapping, ⟨hknown, harea⟩, .inl hsys, by rw [hdevice]; exact Option.some_ne_none w⟩
    · rw [hx']
      exact Function.update_self _ _ _
    · refine .pages hsys ((devSize_origin m c.flags).trans horigin) ?_ fun k hk => ?_
      · dsimp only
        rw [hx', devSize_hOSMemHandle, hm]
        exact ha.new
      · rw [hx']
        exact mapLoop_at (by omega) (by omega) hk

theorem importDevMem_local {a : ℕ} (hp : p ≠ 0) (hmapping : c.mapping ≠ none)
    (hr : Ready s u c p m)
    (hlocals : u.locals = Function.update s.locals addr (some (memorySize heap c)))
    (hfree : s.locals addr = none) (hlt : addr < 4294967296)
    (hfit : addr + memorySize heap c ≤ 4294967296) (hfound : c.localAddr = some addr)
    (hknown : mapType heap.attribs ≠ .other)
    (ha : Allocates s.areas u.areas a (memorySize heap c) ⟨.phys addr, false⟩)
    (hm : m.hOSMemHandle = a) (haddr : m.cpuPAddr = addr) (horigin : m.origin = .contiguous)
    (hsys : hasFlag heap.attribs backingstoreSysmemNoncontig = false)
    (hlocal : hasFlag heap.attribs backingstoreLocalmemContig = true)
    (hi : importDevMem u heap c p m = some r) : ImportEnds s heap c r := by
  unfold importDevMem at hi
  obtain ⟨⟨b, x⟩, hx, hi⟩ := Option.bind_eq_some_iff.mp hi
  have harea : c.area ≠ none := by
    rw [hr.handle]
    exact Option.some_ne_none _
  have haddr' : c.localAddr ≠ none := by
    rw [hfound]
    exact Option.some_ne_none addr
  cases devMemoryAlloc_spec hx with
  | inl hnone =>
    obtain ⟨hdevice, hb, hxu⟩ := hnone
    rw [hb, hxu] at hi
    obtain ⟨h0, hback⟩ := failLocal_back hr hlocals hfree hknown ha hm haddr hsys hi
    obtain ⟨q, t⟩ := r
    obtain rfl : q = 0 := h0
    refine .failed hback (fun hmade => hmade.device hdevice) fun hlost => ?_
    exact hlost.area.elim hknown harea
  | inr hsome =>
    obtain ⟨w, hdevice, -, haligned, hfits, hb, hmap⟩ := hsome
    rw [hb] at hi
    obtain ⟨t, ht, heq⟩ := Option.map_eq_some_iff.mp hi
    unfold devMap at hmap
    dsimp only at hmap
    rw [devSize_origin, horigin] at hmap
    unfold mmuMapPages at hmap
    dsimp only at hmap
    have hx' := (Option.some.inj hmap).symm
    rw [← heq]
    have hwhole := pageCount_whole (devSize_whole c m hr.size)
    refine .made (imported_of_mapped hp hr haligned hfits ?_ ?_ ht)
      ⟨hmapping, ⟨hknown, harea⟩, .inr ⟨hlocal, haddr'⟩,
        by rw [hdevice]; exact Option.some_ne_none w⟩
    · rw [hx']
      exact Function.update_self _ _ _
    · refine .locals hsys hlocal ((devSize_origin m c.flags).trans horigin) ?_ ?_ ?_ ?_ ?_
      · dsimp only
        rw [hx', devSize_hOSMemHandle, devSize_cpuPAddr, hm, haddr]
        exact ha.new
      · dsimp only
        rw [hx', devSize_cpuPAddr, haddr]
        dsimp only
        rw [hlocals]
        exact Function.update_self _ _ _
      · dsimp only
        rw [devSize_cpuPAddr, haddr]
        exact hlt
      · dsimp only
        rw [devSize_cpuPAddr, haddr]
        exact hfit
      · intro k hk
        dsimp only
        rw [hx', devSize_cpuPAddr, haddr]
        exact mapLoop_at (by omega) hlt hk

theorem ready_of_new (ha : Allocates s.mappings u.mappings p bmMappingSize (newMapping c))
    (hu : u = { s with mappings := u.mappings }) (hmap : v.mappings = u.mappings)
    (hdevice : v.device = u.device) (hptes : v.ptes = u.ptes) (hsize : m.size = pageAlign c.size)
    (hflags : m.flags = c.flags) (hhandle : c.area = some m.hOSMemHandle) : Ready s v c p m := by
  refine ⟨ha.fresh, ?_, fun q hq => ?_, hsize, hflags, hhandle, ?_, ?_⟩
  · rw [hmap]
    exact ha.new
  · rw [hmap]
    exact ha.others q hq
  · rw [hdevice, hu]
  · rw [hptes, hu]

theorem failMappingAlloc_back (ha : Allocates s.mappings u.mappings p bmMappingSize (newMapping c))
    (hu : u = { s with mappings := u.mappings }) (hf : failMappingAlloc u p = some r) :
    r.1 = 0 ∧ GivenBack s r.2 := by
  obtain ⟨t, ht, heq⟩ := Option.map_eq_some_iff.mp hf
  obtain ⟨hrest, hfrees⟩ := Store.freeMapping_spec ht
  rw [← heq]
  refine ⟨rfl, ha.freed rfl hfrees, frames_congr ?_, ?_, ?_, ?_⟩
  · rw [hrest, hu]
  · rw [hrest, hu]
  · rw [hrest, hu]
  · rw [hrest, hu]

theorem importPages_ends (ha : Allocates s.mappings u.mappings p bmMappingSize (newMapping c))
    (hu : u = { s with mappings := u.mappings }) (hmapping : c.mapping ≠ none)
    (hsys : hasFlag heap.attribs backingstoreSysmemNoncontig = true)
    (hi : importPages u heap c p (newMapping c) = some r) : ImportEnds s heap c r := by
  unfold importPages at hi
  obtain ⟨⟨a, v⟩, hv, hi⟩ := Option.bind_eq_some_iff.mp hi
  obtain ⟨hrest, hcases⟩ := makeArea_spec hv
  dsimp only at hi
  cases hcases with
  | inl hnone =>
    obtain ⟨h0, hvu, hwhy⟩ := hnone
    rw [if_pos h0, hvu] at hi
    obtain ⟨hr, hback⟩ := failMappingAlloc_back ha hu hi
    obtain ⟨q, t⟩ := r
    obtain rfl : q = 0 := hr
    refine .failed hback (fun hmade => ?_) (lost_of_pages hsys)
    exact hwhy.elim hmade.area.1 hmade.area.2
  | inr hnew =>
    obtain ⟨harea, hknown, hnew⟩ := hnew
    rw [if_neg hnew.pos] at hi
    have hareas : u.areas = s.areas := by rw [hu]
    have hlocals : v.locals = s.locals := by rw [hrest, hu]
    rw [hareas] at hnew
    refine importDevMem_pages ha.pos hmapping (ready_of_new ha hu ?_ ?_ ?_ rfl rfl harea) hlocals
      hknown hnew rfl rfl hsys hi
    · rw [hrest]
    · rw [hrest]
    · rw [hrest]

theorem importLocal_ends (ha : Allocates s.mappings u.mappings p bmMappingSize (newMapping c))
    (hu : u = { s with mappings := u.mappings }) (hmapping : c.mapping ≠ none)
    (hsys : hasFlag heap.attribs backingstoreSysmemNoncontig = false)
    (hlocal : hasFlag heap.attribs backingstoreLocalmemContig = true)
    (hi : importLocal u heap c p (newMapping c) c.localAddr = some r) : ImportEnds s heap c r := by
  cases haddr : c.localAddr with
  | none =>
    rw [haddr] at hi
    obtain ⟨hr, hback⟩ := failMappingAlloc_back ha hu hi
    obtain ⟨q, t⟩ := r
    obtain rfl : q = 0 := hr
    refine .failed hback (fun hmade => ?_) fun hlost => hlost.locals.2 haddr
    cases hmade.memory with
    | inl h => exact Bool.noConfusion (hsys.symm.trans h)
    | inr h => exact h.2 haddr
  | some addr =>
    rw [haddr] at hi
    unfold importLocal at hi
    obtain ⟨w, hw, hi⟩ := Option.bind_eq_some_iff.mp hi
    unfold localAlloc at hw
    split at hw
    · cases hw
    · rename_i hanswer
      obtain ⟨hlive, hbounds⟩ := not_or.mp hanswer
      obtain ⟨hlt, hfit⟩ := not_or.mp hbounds
      have hwu := (Option.some.inj hw).symm
      have hfree : s.locals addr = none := by
        have hsame : u.locals = s.locals := by rw [hu]
        rw [← hsame]
        simpa using hlive
      obtain ⟨⟨a, v⟩, hv, hi⟩ := Option.bind_eq_some_iff.mp hi
      obtain ⟨hrest, hcases⟩ := makeArea_spec hv
      have hlocals : v.locals = Function.update s.locals addr (some (memorySize heap c)) := by
        rw [hrest, hwu, hu]
        rfl
      dsimp only at hi
      cases hcases with
      | inl hnone =>
        obtain ⟨h0, hvw, hwhy⟩ := hnone
        rw [if_pos h0] at hi
        unfold failDevMemAlloc at hi
        have hnothing : areaCpuVAddr heap.attribs a c.cpuVAddr = 0 := if_pos (.inl h0)
        dsimp only at hi
        rw [if_pos ⟨hnothing, h0⟩] at hi
        obtain ⟨x, hx, heq⟩ := Option.map_eq_some_iff.mp hi
        have hxv := (Store.freeMapping_spec hx).1
        have hfound : c.localAddr ≠ none := by
          rw [haddr]
          exact Option.some_ne_none addr
        rw [← heq]
        refine .lost (fun hsame => ?_) ⟨hmapping, hsys, ⟨hlocal, hfound⟩, hwhy⟩
        have hat := congrFun hsame addr
        rw [hxv] at hat
        dsimp only at hat
        rw [hlocals, Function.update_self, hfree] at hat
        cases hat
      | inr hnew =>
        obtain ⟨harea, hknown, hnew⟩ := hnew
        rw [if_neg hnew.pos] at hi
        have hareas : w.areas = s.areas := by rw [hwu, hu]
        rw [hareas] at hnew
        refine importDevMem_local ha.pos hmapping (ready_of_new ha hu ?_ ?_ ?_ rfl rfl harea)
          hlocals hfree (Nat.lt_of_not_le hlt) (Nat.le_of_not_lt hfit) haddr hknown hnew rfl rfl rfl
          hsys hlocal hi
        · rw [hrest, hwu]
        · rw [hrest, hwu]
        · rw [hrest, hwu]

theorem import_ends (hi : bmImportMemory s heap c = some r) : ImportEnds s heap c r := by
  unfold bmImportMemory at hi
  obtain ⟨⟨p, u⟩, hu, hi⟩ := Option.bind_eq_some_iff.mp hi
  obtain ⟨hrest, hcases⟩ := Store.allocMapping_spec hu
  dsimp only at hi
  cases hcases with
  | inl hnone =>
    obtain ⟨hgrant, h0, hus⟩ := hnone
    rw [if_pos h0] at hi
    rw [← Option.some.inj hi, hus]
    exact .failed ⟨rfl, rfl, rfl, rfl, rfl⟩ (fun hmade => hmade.mapping hgrant)
      fun hlost => hlost.mapping hgrant
  | inr hnew =>
    obtain ⟨hgrant, hnew⟩ := hnew
    have hmapping : c.mapping ≠ none := by
      rw [hgrant]
      exact Option.some_ne_none p
    rw [if_neg hnew.pos] at hi
    cases hsys : hasFlag heap.attribs backingstoreSysmemNoncontig with
    | true =>
      rw [hsys, if_pos rfl] at hi
      exact importPages_ends hnew hrest hmapping hsys hi
    | false =>
      rw [hsys, if_neg Bool.false_ne_true] at hi
      cases hlocal : hasFlag heap.attribs backingstoreLocalmemContig with
      | true =>
        rw [hlocal, if_pos rfl] at hi
        exact importLocal_ends hnew hrest hmapping hsys hlocal hi
      | false =>
        rw [hlocal, if_neg Bool.false_ne_true] at hi
        obtain ⟨hr, hback⟩ := failMappingAlloc_back hnew hrest hi
        obtain ⟨q, t⟩ := r
        obtain rfl : q = 0 := hr
        refine .failed hback (fun hmade => ?_) fun hlost => ?_
        · cases hmade.memory with
          | inl h => exact Bool.noConfusion (hsys.symm.trans h)
          | inr h => exact Bool.noConfusion (hlocal.symm.trans h.1)
        · exact Bool.noConfusion (hlocal.symm.trans hlost.locals.1)

theorem pAdvance_dummy {flags : ℕ} (hd : hasFlag flags memDummy = true) : pAdvance flags = 0 := by
  unfold pAdvance
  rw [if_pos hd]

theorem pAdvance_pages {flags : ℕ} (hd : hasFlag flags memDummy = false) :
    pAdvance flags = 4096 := by
  unfold pAdvance
  rw [hd]
  rfl

theorem memorySize_dummy (hd : hasFlag c.flags memDummy = true) :
    memorySize heap c = heap.dataPageSize := by
  unfold memorySize pSize
  exact if_pos hd

theorem memorySize_pages (hd : hasFlag c.flags memDummy = false) :
    memorySize heap c = pageAlign c.size := by
  unfold memorySize pSize
  exact if_neg (Bool.eq_false_iff.mp hd)

/-- The request is for memory that an interleaved mapping can be laid over. -/
def Sized (c : ImportCall) : Prop :=
  hasFlag c.flags memInterleaved = true → hasFlag c.flags memDummy = false → pageAlign c.size = 0

theorem Imported.size_eq (hi : Imported heap c p t m) : m.size =
    if hasFlag c.flags memInterleaved then u32 (pageAlign c.size * 2) else pageAlign c.size := by
  rw [hi.size, devSize_eq]
  rfl

/-- The pages of the mapping are among those of the memory, unless it is a dummy. -/
theorem Imported.size_le (hi : Imported heap c p t m) (hs : Sized c)
    (hd : hasFlag c.flags memDummy = false) : m.size = pageAlign c.size := by
  rw [hi.size_eq]
  split
  · rename_i hinter
    rw [hs hinter hd, Nat.zero_mul]
    exact u32_of_lt (by omega)
  · rfl

theorem frames_at (hk : k < pageCount n) :
    (AreaKind.pages (c.frames n)).page (4096 * k) = .page (c.frame k) := by
  have hindex : 4096 * k / pageSize = k := by
    unfold pageSize
    omega
  unfold AreaKind.page ImportCall.frames
  dsimp only
  rw [hindex, List.getElem?_map, List.getElem?_range hk]
  rfl

theorem mem_frames (hk : k < pageCount n) : c.frame k ∈ c.frames n :=
  List.mem_map.mpr ⟨k, List.mem_range.mpr hk, rfl⟩

theorem Imported.backed (hi : Imported heap c p t m) (hs : Sized c) : Backed t m := by
  have hpages := pageCount_whole (pageAlign_mod c.size)
  have hlt := pageAlign_lt c.size
  have hone : 0 < pageCount heap.dataPageSize := by
    have hpos := heap.dataPageSize_pos
    unfold pageCount pageSize
    omega
  intro k hk
  cases hi.laid with
  | pages sys origin area entries =>
    -- the dummy page is the first one, and otherwise there is one page for each entry
    have hentry : ∃ j, j < pageCount (memorySize heap c) ∧
        u32 (0 + k * pAdvance c.flags) = 4096 * j := by
      cases hd : hasFlag c.flags memDummy with
      | true =>
        rw [memorySize_dummy hd, pAdvance_dummy hd]
        exact ⟨0, hone, u32_of_lt (by omega)⟩
      | false =>
        rw [hi.size_le hs hd] at hk
        rw [memorySize_pages hd, pAdvance_pages hd]
        refine ⟨k, hk, ?_⟩
        rw [u32_of_lt (by omega)]
        omega
    obtain ⟨j, hj, hoffset⟩ := hentry
    refine ⟨c.frame j, ?_, ?_⟩
    · rw [entries k hk, hoffset, frames_at hj]
    · unfold Owns
      rw [origin]
      exact ⟨_, _, area, rfl, mem_frames hj⟩
  | locals sys contig origin area live addr_lt fits entries =>
    refine ⟨_, entries k hk, ?_⟩
    unfold Owns
    rw [origin]
    refine ⟨_, live, ?_⟩
    cases hd : hasFlag c.flags memDummy with
    | true =>
      have hpos := heap.dataPageSize_pos
      rw [memorySize_dummy hd, pAdvance_dummy hd, Nat.mul_zero, Nat.add_zero, u32_of_lt addr_lt]
      omega
    | false =>
      rw [hi.size_le hs hd] at hk
      rw [memorySize_pages hd] at fits ⊢
      rw [pAdvance_pages hd, u32_of_lt (by omega)]
      omega

theorem devMemoryFree_spec (hd : u.device m.devVAddr = some m.size) :
    devMemoryFree u m = { u with
      device := Function.update u.device m.devVAddr none
      ptes := unmapLoop (pageCount m.size) m.devVAddr u.ptes } := by
  unfold devMemoryFree mmuFree
  rw [hd]
  rfl

theorem Imported.told (hi : Imported heap c p t m) :
    pSize heap (halve m) = if hasFlag c.flags memDummy then heap.dataPageSize
      else if hasFlag c.flags memInterleaved then m.size / 2 else m.size := by
  unfold pSize
  rw [halve_flags, hi.flags]
  unfold halve
  rw [hi.flags]
  split
  · rfl
  · split
    · rfl
    · rfl

theorem Imported.told_eq (hi : Imported heap c p t m) (hs : Sized c) :
    pSize heap (halve m) = memorySize heap c := by
  rw [hi.told]
  cases hd : hasFlag c.flags memDummy with
  | true => rw [memorySize_dummy hd, if_pos rfl]
  | false =>
    rw [memorySize_pages hd, if_neg Bool.false_ne_true, hi.size_le hs hd]
    split
    · rename_i hinter
      rw [hs hinter hd]
    · rfl

theorem Imported.area (hi : Imported heap c p t m) :
    ∃ kind, t.areas.blocks m.hOSMemHandle = some ⟨memorySize heap c, ⟨kind, false⟩⟩ := by
  cases hi.laid with
  | pages sys origin area entries => exact ⟨_, area⟩
  | locals sys contig origin area live addr_lt fits entries => exact ⟨_, area⟩

theorem Later.area_eq (hl : Later t u p m) (hi : Imported heap c p t m) :
    ∃ x, u.areas.blocks m.hOSMemHandle = some ⟨memorySize heap c, x⟩ := by
  obtain ⟨b, b', hb, hb', hsize, -⟩ := hl.area
  obtain ⟨kind, hkind⟩ := hi.area
  rw [hkind] at hb
  have hsize' : b'.size = memorySize heap c := by rw [hsize, ← Option.some.inj hb]
  refine ⟨b'.content, ?_⟩
  rw [hb', ← hsize']

theorem Later.device_eq (hl : Later t u p m) (hi : Imported heap c p t m) :
    u.device m.devVAddr = some m.size := hl.device.trans hi.device

theorem freeBacking_eq (hi : Imported heap c p t m) :
    freeBacking v heap (halve m) =
      (releaseArea v heap.attribs m.hOSMemHandle (pSize heap (halve m))).map fun s =>
        if m.origin = .contiguous then localFree s m.cpuPAddr else s := by
  unfold freeBacking
  rw [halve_hOSMemHandle, halve_cpuPAddr]
  cases hi.laid with
  | pages sys origin area entries =>
    rw [if_pos sys, origin]
    exact Option.map_id'.symm
  | locals sys contig origin area live addr_lt fits entries =>
    rw [if_neg (Bool.eq_false_iff.mp sys), if_pos contig, origin]
    rfl

/-- What is left when the device addresses of a mapping are freed. -/
def unmapped (u : Store) (m : Mapping) : Store :=
  { u with
    device := Function.update u.device m.devVAddr none
    ptes := unmapLoop (pageCount m.size) m.devVAddr u.ptes }

/-- `BM_FreeMemory` does not look at the arena of a mapping. -/
theorem freeBacking_arena (u : Store) (heap : BmHeap) (m : Mapping) (arena : Bool) :
    freeBacking (devMemoryFree u { m with arena := arena }) heap (halve { m with arena := arena }) =
      freeBacking (devMemoryFree u m) heap (halve m) := by
  have hhalve : halve { m with arena := arena } = { halve m with arena := arena } := by
    unfold halve
    split
    · rfl
    · rfl
  rw [hhalve]
  rfl

theorem bmFreeMemory_eq (hi : Imported heap c p t m) (hl : Later t u p m) :
    bmFreeMemory u heap p =
      ((releaseArea (unmapped u m) heap.attribs m.hOSMemHandle (pSize heap (halve m))).map fun s =>
        if m.origin = .contiguous then localFree s m.cpuPAddr else s).bind fun s =>
          s.freeMapping p := by
  obtain ⟨arena, hm⟩ := hl.mapping
  unfold bmFreeMemory
  rw [hm, Option.bind_eq_bind, Option.bind_some, freeBacking_arena,
    devMemoryFree_spec (hl.device_eq hi), freeBacking_eq hi]
  rfl

theorem Imported.pages_fit (hi : Imported heap c p t m) :
    m.devVAddr + 4096 * pageCount m.size ≤ 4294967296 := by
  have hwhole : m.size % 4096 = 0 := by
    rw [hi.size]
    exact devSize_whole c (newMapping c) rfl
  rw [pageCount_whole hwhole]
  exact hi.fits

/-- A mapping that no process has mapped is given back with all its memory. -/
theorem Imported.frees (hi : Imported heap c p t m) (hl : Later t u p m) (hs : Sized c)
    (hknown : mapType heap.attribs ≠ .other)
    (hmapped : MapType.listed (mapType heap.attribs) = true → ∀ b,
      u.areas.blocks m.hOSMemHandle = some b → b.content.mapped = false) :
    ∃ v, bmFreeMemory u heap p = some v ∧ FreesAll u v p m := by
  obtain ⟨x, hx⟩ := hl.area_eq hi
  have hx' : (unmapped u m).areas.blocks m.hOSMemHandle = some ⟨memorySize heap c, x⟩ := hx
  have hlive : (unmapped u m).areas.blocks m.hOSMemHandle ≠ none := by
    rw [hx']
    exact Option.some_ne_none _
  obtain ⟨w, hw⟩ := Store.freeArea_some (n := pSize heap (halve m)) hlive
  obtain ⟨hrest, hfrees⟩ := Store.freeArea_spec hw
  obtain ⟨arena, hm⟩ := hl.mapping
  obtain ⟨z, hz⟩ := Store.mappingAt_eq_some.mp hm
  have hw' : releaseArea (unmapped u m) heap.attribs m.hOSMemHandle (pSize heap (halve m)) =
      some w := (releaseArea_free hx' hknown fun h => hmapped h _ hx).trans hw
  let y := if m.origin = .contiguous then localFree w m.cpuPAddr else w
  have hy : y = { w with locals := y.locals } := by
    dsimp only [y]
    split
    · rfl
    · rfl
  have hmappings : y.mappings.blocks p ≠ none := by
    have hsame : y.mappings.blocks p = u.mappings.blocks p := by
      rw [hy, hrest]
      rfl
    rw [hsame, hz]
    exact Option.some_ne_none _
  obtain ⟨v, hv⟩ := Store.freeMapping_some hmappings
  obtain ⟨hvy, hvfree⟩ := Store.freeMapping_spec hv
  refine ⟨v, ?_, ?_, ?_, hvfree.gone, ?_, ?_, ?_⟩
  · rw [bmFreeMemory_eq hi hl, hw']
    exact hv
  · intro k hk
    have hptes : v.ptes = unmapLoop (pageCount m.size) m.devVAddr u.ptes := by
      rw [hvy, hy, hrest]
      rfl
    rw [hptes]
    exact unmapLoop_at hi.pages_fit hk
  · have hdevice : v.device = Function.update u.device m.devVAddr none := by
      rw [hvy, hy, hrest]
      rfl
    rw [hdevice]
    exact Function.update_self _ _ _
  · rw [hvy, hy]
    exact hfrees.gone
  · intro b hb
    rw [hx] at hb
    rw [← Option.some.inj hb, hvy, hy]
    dsimp only
    rw [hfrees.events, hi.told_eq hs]
    rfl
  · intro horigin
    have hlocals : y.locals = Function.update w.locals m.cpuPAddr none := by
      dsimp only [y]
      rw [if_pos horigin]
      rfl
    rw [hvy]
    dsimp only
    rw [hlocals]
    exact Function.update_self _ _ _

def sampleImport (flags : ℕ) : ImportCall :=
  ⟨4096, flags, some 16, some 32, 65536, fun i => 1048576 + 8192 * i, none, some 65536⟩

end PvrServices.BufferStore
