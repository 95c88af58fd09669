import PvrServices.MapMemorySizes

set_option autoImplicit false

/-!
# What the mapping calls leave behind

A call that returns `PVRSRV_OK` has to leave its memory info with a resource item of the process,
and a call that returns an error has to leave everything as it was.
-/
namespace PvrServices.MapMemory
open Words BlockHeap WrapPages Runs
variable {s t u v : Maps} {m p q d y n : ℕ} {i i' : MemInfo} {e : PvrsrvError}
  {r : Except PvrsrvError ℕ × Maps} {k : Taken} {c : WrapCall} {x : Item} {grant : Option ℕ}

def Releases (s : Maps) (x : Item) (m : ℕ) : Prop :=
  match x.pfnFreeResource with
  | .unmapDeviceMemory => ∃ z, mapDataAt s.heap x.pvParam = some z ∧ z.psMemInfo = m
  | _ => x.pvParam = m

/-- A live item of the process releases the memory info, which knows it. -/
def OwnedBy (s : Maps) (process : ℕ) (pfn : Callback) (m : ℕ) : Prop :=
  ∃ p x i, p ≠ 0 ∧ s.items p = some x ∧ x.process = process ∧ x.pfnFreeResource = pfn ∧
    Releases s x m ∧ memInfoAt s.heap m = some i ∧ i.hResItem = p

/-- The blocks with the counts in them, the sync table, the buffers, the pages, the heaps, the items
    and the device addresses are as before, and what was freed went back to its allocator. -/
structure AsBefore (s t : Maps) : Prop where
  blocks : t.heap.blocks = s.heap.blocks
  rest : t = { s with heap := t.heap }
  freed : ClassesSince usesVmalloc s.heap.events t.heap.events

def Meets (s : Maps) (process : ℕ) (pfn : Callback) : Except PvrsrvError ℕ × Maps → Prop
  | (.ok m, t) => OwnedBy t process pfn m
  | (.error _, t) => AsBefore s t

def HeapAnswers.Found (a : HeapAnswers) (s : Maps) (context : ℕ) : Prop :=
  (a.perContext = false ∧ a.shared = true) ∨
    (a.perContext = true ∧ (s.mappingHeaps context = true ∨ a.created = true))

def HeapAnswers.Makes (a : HeapAnswers) (s : Maps) (context : ℕ) : Prop :=
  a.perContext = true ∧ s.mappingHeaps context = false ∧ a.created = true

def WrapCall.firstPage (c : WrapCall) : Option ℕ :=
  if c.linAddr = 0 then c.extSysPAddr
  else c.pageList.bind fun _ => c.acquired.map Pages.physAddr

def WrapCall.Buffered (c : WrapCall) : Prop := c.memInfo ≠ none ∧ c.wrap ≠ none

def WrapCall.Synced (c : WrapCall) (s : Maps) : Prop :=
  ∃ a, c.firstPage = some a ∧ (s.syncTable a ≠ 0 ∨ (c.sync.Made ∧ c.sync.inserted = true))

def WrapCall.Lost (c : WrapCall) (s : Maps) : Prop :=
  ∃ a, c.firstPage = some a ∧ s.syncTable a = 0 ∧ c.sync.Made ∧ c.sync.inserted = false

/-- `BM_Wrap` fails and leaves something, or the allocation of the data of a new sync info does. -/
def WrapCall.Strays (c : WrapCall) (s : Maps) : Prop :=
  c.memInfo ≠ none ∧ ((c.wrap = none ∧ c.stray ≠ none) ∨
    (c.wrap ≠ none ∧ ∃ a, c.firstPage = some a ∧ s.syncTable a = 0 ∧ c.sync.Strays))

/-- The registration succeeds where a wrap gets as far, a new sync info gets into the table, no
    step fails behind a new heap, and an error of the buffer manager leaves nothing. -/
structure WrapCall.Provided (c : WrapCall) (s : Maps) : Prop where
  registers : c.firstPage ≠ none → c.heap.Found s c.context → c.Buffered → c.Synced s →
    c.item ≠ none
  inserts : c.firstPage ≠ none → c.heap.Found s c.context → c.Buffered → ¬c.Lost s
  heap : c.firstPage ≠ none → c.heap.Makes s c.context → c.Buffered ∧ (c.Synced s ∨ c.Lost s)
  strays : c.firstPage ≠ none → c.heap.Found s c.context → ¬c.Strays s

/-- `BM_Wrap` fails and leaves something. -/
structure MapCall.Strays (f : MapCall) (src : MemInfo) : Prop where
  pages : ¬(src.pageCount ≠ 0 ∧ f.pagesFound = false)
  mapData : f.mapData ≠ none
  memInfo : f.memInfo ≠ none
  wrap : f.wrap = none
  stray : f.stray ≠ none

/-- The registration succeeds where a mapping gets as far, one that fails has no more than 1024
    pages, and an error of the buffer manager leaves nothing. -/
structure MapCall.Provided (f : MapCall) (s : Maps) : Prop where
  registers : ∀ src, f.src ≠ 0 → f.dstHeap ≠ 0 → memInfoAt s.heap f.src = some src →
    f.pageList ≠ none → ¬f.Fails src → f.item ≠ none
  sized : f.Sized s
  strays : ∀ src, f.src ≠ 0 → f.dstHeap ≠ 0 → memInfoAt s.heap f.src = some src →
    f.pageList ≠ none → ¬f.Strays src

def ClassCall.Strays (c : ClassCall) : Prop := c.memInfo ≠ none ∧ c.wrap = none ∧ c.stray ≠ none

/-- The registration succeeds where the mapping gets as far, no step fails behind a new heap, and an
    error of the buffer manager leaves nothing. -/
structure ClassCall.Provided (c : ClassCall) (s : Maps) : Prop where
  registers : c.classBuffer ≠ 0 → c.context ≠ 0 → c.bufferAddr ≠ none →
    c.heap.Found s c.context → c.memInfo ≠ none → c.wrap ≠ none → c.item ≠ none
  heap : c.classBuffer ≠ 0 → c.context ≠ 0 → c.bufferAddr ≠ none →
    c.heap.Makes s c.context → c.memInfo ≠ none ∧ c.wrap ≠ none
  strays : c.classBuffer ≠ 0 → c.context ≠ 0 → c.bufferAddr ≠ none →
    c.heap.Found s c.context → ¬c.Strays

def Provided (s : Maps) : MapOp → Prop
  | .wrap c => c.Provided s
  | .map f => f.Provided s
  | .mapClass c => c.Provided s
  | _ => True

theorem register_cases (hm : memInfoAt s.heap m = some i) (hr : register s m x grant = some r) :
    ∃ t p, r = (.ok m, t) ∧ memInfoAt t.heap m = some { i with hResItem := p } ∧
      (∀ q, q ≠ m → t.heap.blocks q = s.heap.blocks q) ∧
      ((grant = none ∧ p = 0) ∨ (grant ≠ none ∧ p ≠ 0 ∧ t.items p = some x)) := by
  unfold register at hr
  obtain ⟨⟨p, u⟩, hu, hr⟩ := Option.bind_eq_some_iff.mp hr
  obtain ⟨j, hj, hr⟩ := Option.bind_eq_some_iff.mp hr
  obtain ⟨v, hv, hend⟩ := Option.bind_eq_some_iff.mp hr
  have hheap := registerRes_heap hu
  rw [hheap] at hj
  obtain rfl : i = j := Option.some.inj (hm.symm.trans hj)
  obtain ⟨hwrite, hvu⟩ := Maps.write_spec hv
  rw [hheap] at hwrite
  obtain ⟨b, -, hnew, hothers, -⟩ := Heap.write_spec hwrite
  refine ⟨v, p, (Option.some.inj hend).symm, memInfoAt_eq_some.mpr ⟨_, hnew⟩, hothers, ?_⟩
  cases grant with
  | none => exact .inl ⟨rfl, (Prod.mk.inj (Option.some.inj hu)).1.symm⟩
  | some q =>
    unfold registerRes at hu
    dsimp only at hu
    split at hu
    · cases hu
    · rename_i hfree
      obtain ⟨hp, hs⟩ := Prod.mk.inj (Option.some.inj hu)
      refine .inr ⟨Option.some_ne_none q, hp ▸ (not_or.mp hfree).1, ?_⟩
      rw [hvu, ← hs, ← hp]
      exact Function.update_self ..

/-- What a wrap has taken since `s`: its page list and its pages. -/
structure Taking (s u : Maps) (k : Taken) : Prop where
  others : ∀ q, (k.list = 0 ∨ q ≠ k.list) → u.heap.blocks q = s.heap.blocks q
  fresh : k.list ≠ 0 → s.heap.blocks k.list = none
  live : k.list ≠ 0 → u.heap.blocks k.list ≠ none
  pages : (k.pages = 0 ∧ u.pinned = s.pinned) ∨ (k.pages ≠ 0 ∧ s.pinned k.pages = false ∧
    u.pinned = Function.update s.pinned k.pages true)
  rest : u = { s with
    heap := u.heap
    pinned := u.pinned
    mappingHeaps := u.mappingHeaps
    strays := u.strays }

structure Back (s t : Maps) : Prop where
  blocks : t.heap.blocks = s.heap.blocks
  rest : t = { s with heap := t.heap, mappingHeaps := t.mappingHeaps, strays := t.strays }

theorem Taking.restored (hk : Taking s u k) (hr : Restored u v) : Taking s v k := by
  have hb := hr.blocks
  have hv := hr.rest
  refine ⟨fun q hq => ?_, hk.fresh, fun h0 => ?_, ?_, ?_⟩
  · rw [hb]
    exact hk.others q hq
  · rw [hb]
    exact hk.live h0
  · rw [hv]
    exact hk.pages
  · have hrest := hk.rest
    rw [hv, hrest]

variable {f : MapCall} {src : MemInfo} {list : ℕ} {ps : List ℕ}

/-- What a mapping has taken since `s`: the blocks `ps`, where they are there. -/
structure Over (s u : Maps) (ps : List ℕ) : Prop where
  fresh : ∀ q, q ∈ ps → q ≠ 0 → s.heap.blocks q = none
  others : ∀ q, (q ∉ ps ∨ q = 0) → u.heap.blocks q = s.heap.blocks q
  rest : u = { s with heap := u.heap, strays := u.strays }

theorem Over.refl : Over s s [] := by
  refine ⟨fun q hq => ?_, fun _ _ => rfl, rfl⟩
  cases hq

theorem Over.restored (ho : Over s u []) : Restored s u :=
  ⟨funext fun q => ho.others q (.inl (List.not_mem_nil)), ho.rest⟩

theorem Over.of_mem {qs : List ℕ} (ho : Over s u ps) (hmem : ∀ q, q ≠ 0 → (q ∈ qs ↔ q ∈ ps)) :
    Over s u qs := by
  refine ⟨fun q hq hq0 => ho.fresh q ((hmem q hq0).mp hq) hq0, fun q hq => ?_, ho.rest⟩
  apply ho.others q
  by_cases hq0 : q = 0
  · exact .inr hq0
  · exact .inl fun hin => (hq.resolve_right hq0) ((hmem q hq0).mpr hin)

theorem Over.alloc {x : Content} (ho : Over s u ps) (ha : u.alloc x grant = some (p, v)) :
    Over s v (p :: ps) := by
  obtain ⟨hrest, hcases⟩ := Maps.alloc_spec ha
  cases hcases with
  | inl hnone =>
    obtain ⟨-, hp, hv⟩ := hnone
    rw [hv, hp]
    refine ho.of_mem fun q hq => ?_
    rw [List.mem_cons, or_iff_right hq]
  | inr hnew =>
    obtain ⟨-, hnew⟩ := hnew
    refine ⟨fun q hq hq0 => ?_, fun q hq => ?_, by rw [hrest, ho.rest]⟩
    · by_cases hin : q ∈ ps
      · exact ho.fresh q hin hq0
      · have hqp := (List.mem_cons.mp hq).resolve_right hin
        rw [← ho.others q (.inl hin), hqp, hnew.fresh]
    · have hqp : q ≠ p := by
        intro heq
        cases hq with
        | inl hnot => exact hnot (heq ▸ List.mem_cons_self)
        | inr h0 => exact hnew.pos (heq.symm.trans h0)
      rw [hnew.others q hqp]
      exact ho.others q (hq.imp_left fun hnot hin => hnot (List.mem_cons_of_mem p hin))

theorem Over.free {size : ℕ} (ho : Over s u (p :: ps)) (hf : freeIfThere u p size = some v) :
    Over s v ps := by
  unfold freeIfThere at hf
  split at hf
  · rename_i h0
    rw [← Option.some.inj hf]
    refine ho.of_mem fun q hq => ?_
    rw [List.mem_cons, h0, or_iff_right hq]
  · rename_i h0
    obtain ⟨hfree, hrest⟩ := Maps.free_spec hf
    have hspec := Heap.free_spec hfree
    refine ⟨fun q hq => ho.fresh q (List.mem_cons_of_mem p hq), fun q hq => ?_, ?_⟩
    · by_cases hqp : q = p
      · rw [hqp, hspec.gone, ho.fresh p List.mem_cons_self h0]
      · rw [hspec.others q hqp]
        refine ho.others q (hq.imp_left fun hnot hin => ?_)
        exact hnot ((List.mem_cons.mp hin).resolve_left hqp)
    · rw [hrest, ho.rest]

theorem Over.strand (ho : Over s u ps) (stray : Option ℕ) : Over s (u.strand stray) ps := by
  refine ⟨ho.fresh, fun q hq => ?_, ?_⟩
  · rw [u.strand_heap]
    exact ho.others q hq
  · rw [u.strand_eq, ho.rest]

variable {g : ClassCall}

/-- A mapping of the memory of a display device gets as far as its memory info. -/
def ClassCall.Reaches (g : ClassCall) (s : Maps) : Prop :=
  g.classBuffer ≠ 0 ∧ g.context ≠ 0 ∧ g.bufferAddr ≠ none ∧ g.heap.Found s g.context

def sampleWrap (item : Option ℕ) : WrapCall :=
  ⟨1, 5, 4096, 65552, none, some 256, some ⟨300, 7⟩, ⟨false, true, false⟩, some 512,
    some ⟨600, 0⟩, none, ⟨some 700, some 800, some ⟨900, 0⟩, none, true⟩, item⟩

end PvrServices.MapMemory
