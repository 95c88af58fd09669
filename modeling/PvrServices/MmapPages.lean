import PvrServices.OsAreas

set_option autoImplicit false

/-!
# The pages of a mapping

`DoMapToUser` looks for the pages of an area in two ways: from the page number in the offset of the
mapping on, or page by page in the root of the area. Areas carry what `mm.c` and its callers see to:
physical pages that are there for all their bytes.
-/
namespace PvrServices.Mmaps
open Words OsAreas

def rangeToPages (bytes : ℕ) : ℕ := u32 (bytes + (pageSize - 1)) / pageSize

def maxMmapHandle : ℕ := 2147483647

structure PageList (pages : List ℕ) (byteSize : ℕ) : Prop where
  aligned : ∀ p ∈ pages, p % pageSize = 0
  word : ∀ p ∈ pages, p < 4294967296
  length : rangeToPages byteSize ≤ pages.length
  covered : byteSize ≤ pageSize * rangeToPages byteSize

/-- A range of physical addresses; `PVR_ASSERT(CpuPAddr.uiAddr)` keeps it out of page 0. -/
structure PhysRange (addr byteSize : ℕ) : Prop where
  pos : pageSize ≤ addr
  word : addr + byteSize ≤ 4294967296

/-- What is there behind an area that is not within another one. -/
def RootData (byteSize : ℕ) : AreaData → Prop
  | .ioRemap addr => PhysRange addr byteSize
  | .externalKvContig addr => PhysRange addr byteSize
  | .io addr => PhysRange addr byteSize
  | .externalKv pages => PageList pages byteSize
  | .vmalloc pages => PageList pages byteSize
  | .allocPages pages => PageList pages byteSize
  | .subAlloc _ _ => False

def rangePages (addr byteSize : ℕ) : List ℕ :=
  (List.range ((addr % pageSize + byteSize + (pageSize - 1)) / pageSize)).map
    fun i => addr / pageSize + i

def listPages (pages : List ℕ) (byteSize : ℕ) : List ℕ :=
  (pages.take (rangeToPages byteSize)).map fun p => p / pageSize

def rootPages (byteSize : ℕ) : AreaData → List ℕ
  | .ioRemap addr => rangePages addr byteSize
  | .externalKvContig addr => rangePages addr byteSize
  | .io addr => rangePages addr byteSize
  | .externalKv pages => listPages pages byteSize
  | .vmalloc pages => listPages pages byteSize
  | .allocPages pages => listPages pages byteSize
  | .subAlloc _ _ => []

structure RootArea where
  data : AreaData
  byteSize : ℕ
  valid : RootData byteSize data

/-- An area that a process may map: a root, or a part of one. -/
inductive MapArea where
  | root (r : RootArea)
  | sub (r : RootArea) (byteOffset byteSize : ℕ) (inside : byteOffset + byteSize ≤ r.byteSize)

def MapArea.rootArea : MapArea → RootArea
  | .root r => r
  | .sub r _ _ _ => r

def MapArea.byteOffset : MapArea → ℕ
  | .root _ => 0
  | .sub _ byteOffset _ _ => byteOffset

def MapArea.byteSize : MapArea → ℕ
  | .root r => r.byteSize
  | .sub _ _ byteSize _ => byteSize

def MapArea.data : MapArea → AreaData
  | .root r => r.data
  | .sub r byteOffset _ _ => .subAlloc r.data byteOffset

def MapArea.linuxMemArea (m : MapArea) (rest : LinuxMemArea) : LinuxMemArea :=
  { rest with data := m.data, byteSize := m.byteSize }

variable {pages : List ℕ} {addr byteSize n i x : ℕ} {d : AreaData} {m : MapArea}

theorem MapArea.inside (m : MapArea) : m.byteOffset + m.byteSize ≤ m.rootArea.byteSize := by
  cases m with
  | root r => exact Nat.le_of_eq (Nat.zero_add _)
  | sub r o b h => exact h

theorem pageSize_eq : pageSize = 4096 := rfl

theorem rangeToPages_le (bytes : ℕ) : rangeToPages bytes ≤ 1048575 := by
  have hlt := u32_lt (bytes + (pageSize - 1))
  unfold rangeToPages
  rw [pageSize_eq] at hlt ⊢
  omega

theorem PageList.pages_eq (h : PageList pages byteSize) :
    rangeToPages byteSize = (byteSize + 4095) / 4096 := by
  have hcov := h.covered
  unfold rangeToPages at hcov ⊢
  rw [pageSize_eq] at hcov ⊢
  by_cases hlt : byteSize + (4096 - 1) < 4294967296
  · rw [u32_of_lt hlt]
  · exfalso
    rw [u32_eq_mod] at hcov
    omega

theorem PageList.page (h : PageList pages byteSize) (x : ℕ) :
    u32 (pages.getD (x / pageSize) 0 + x % pageSize) / pageSize =
      pages.getD (x / pageSize) 0 / pageSize ∧
    u32 (pages.getD (x / pageSize) 0 + x % pageSize) % pageSize = x % pageSize := by
  have hpage : pages.getD (x / pageSize) 0 % 4096 = 0 ∧
      pages.getD (x / pageSize) 0 < 4294967296 := by
    by_cases hin : x / pageSize < pages.length
    · have hmem : pages.getD (x / pageSize) 0 ∈ pages := by
        rw [List.getD_eq_getElem _ _ hin]
        exact List.getElem_mem hin
      exact ⟨h.aligned _ hmem, h.word _ hmem⟩
    · rw [List.getD_eq_default _ _ (Nat.not_lt.mp hin)]
      decide
  rw [pageSize_eq] at hpage ⊢
  have hsum : pages.getD (x / 4096) 0 + x % 4096 < 4294967296 := by omega
  rw [u32_of_lt hsum]
  omega

/-- The pages in the range of a root that a mapping within `byteSize` bytes from `x` on may touch:
    `n` of them, where `CheckSize` lets `n` pages through. -/
structure Reach (d : AreaData) (rootSize x n : ℕ) : Prop where
  wrap : x + pageSize * n < 4294967296
  page : ∀ i < n, linuxMemAreaToCpuPfn d (x + pageSize * i) ∈ rootPages rootSize d
  contig : linuxMemAreaPhysIsContig d = true → ∀ i < n,
    linuxMemAreaToCpuPfn d (x + pageSize * i) = linuxMemAreaToCpuPfn d x + i
  physical : linuxMemAreaPhysIsContig d = true → linuxMemAreaToCpuPfn d x < 1048576

theorem mem_rangePages {p : ℕ} : p ∈ rangePages addr byteSize ↔
    addr / pageSize ≤ p ∧ p < addr / pageSize + (addr % pageSize + byteSize + 4095) / pageSize := by
  unfold rangePages
  rw [List.mem_map]
  constructor
  · rintro ⟨i, hi, rfl⟩
    have hlt := List.mem_range.mp hi
    rw [pageSize_eq] at hlt ⊢
    omega
  · intro hp
    refine ⟨p - addr / pageSize, List.mem_range.mpr ?_, by omega⟩
    rw [pageSize_eq] at hp ⊢
    omega

theorem PhysRange.reach (h : PhysRange addr byteSize) (hd : ∀ x, linuxMemAreaToCpuPAddr d x = u32 (addr + x))
    (hr : rootPages byteSize d = rangePages addr byteSize) {s : ℕ} (hin : x + s ≤ byteSize)
    (hn : pageSize * n ≤ s + linuxMemAreaToCpuPAddr d x % pageSize + 4095) :
    Reach d byteSize x n := by
  have hpos := h.pos
  have hword := h.word
  rw [pageSize_eq] at hpos hn
  by_cases hx : addr + x < 4294967296
  · have hfirst : linuxMemAreaToCpuPAddr d x = addr + x := by rw [hd, u32_of_lt hx]
    rw [hfirst] at hn
    have hpfn (i : ℕ) (hi : i < n) :
        linuxMemAreaToCpuPfn d (x + pageSize * i) = (addr + x) / 4096 + i := by
      unfold linuxMemAreaToCpuPfn
      rw [hd, pageSize_eq, u32_of_lt (by omega)]
      omega
    have hbase : linuxMemAreaToCpuPfn d x = (addr + x) / 4096 := by
      unfold linuxMemAreaToCpuPfn
      rw [hfirst, pageSize_eq]
    refine ⟨?_, fun i hi => ?_, fun _ i hi => ?_, fun _ => ?_⟩
    · rw [pageSize_eq]
      omega
    · rw [hr, hpfn i hi, mem_rangePages, pageSize_eq]
      omega
    · rw [hpfn i hi, hbase]
    · rw [hbase]
      omega
  · -- the empty end of a range that goes up to the last address
    have hzero : linuxMemAreaToCpuPAddr d x = 0 := by
      rw [hd, u32_eq_mod]
      omega
    rw [hzero] at hn
    have hnone : n = 0 := by omega
    refine ⟨?_, fun i hi => by omega, fun _ i hi => by omega, fun _ => ?_⟩
    · rw [hnone]
      omega
    · unfold linuxMemAreaToCpuPfn
      rw [hzero]
      decide

theorem PageList.reach (h : PageList pages byteSize)
    (hd : ∀ x, linuxMemAreaToCpuPAddr d x = u32 (pages.getD (x / pageSize) 0 + x % pageSize))
    (hr : rootPages byteSize d = listPages pages byteSize)
    (hc : linuxMemAreaPhysIsContig d = false) {s : ℕ} (hin : x + s ≤ byteSize)
    (hn : pageSize * n ≤ s + linuxMemAreaToCpuPAddr d x % pageSize + 4095) :
    Reach d byteSize x n := by
  have hcount := h.pages_eq
  have hle := rangeToPages_le byteSize
  rw [hd, (h.page x).2] at hn
  rw [pageSize_eq] at hn
  refine ⟨?_, fun i hi => ?_, fun hcontig => ?_, fun hcontig => ?_⟩
  · rw [pageSize_eq]
    omega
  · have hindex : (x + pageSize * i) / pageSize = x / 4096 + i := by
      rw [pageSize_eq]
      omega
    have hlt : x / 4096 + i < rangeToPages byteSize := by omega
    have hlen : x / 4096 + i < pages.length := Nat.lt_of_lt_of_le hlt h.length
    unfold linuxMemAreaToCpuPfn
    rw [hd, (h.page _).1, hindex, hr]
    unfold listPages
    rw [List.mem_map]
    refine ⟨pages.getD (x / 4096 + i) 0, ?_, rfl⟩
    rw [List.getD_eq_getElem _ _ hlen, List.mem_take_iff_getElem]
    exact ⟨x / 4096 + i, lt_min hlt hlen, rfl⟩
  · rw [hc] at hcontig
    cases hcontig
  · rw [hc] at hcontig
    cases hcontig

theorem RootArea.reach (r : RootArea) {s : ℕ} (hin : x + s ≤ r.byteSize)
    (hn : pageSize * n ≤ s + linuxMemAreaToCpuPAddr r.data x % pageSize + 4095) :
    Reach r.data r.byteSize x n := by
  obtain ⟨d, b, valid⟩ := r
  cases d with
  | ioRemap a => exact PhysRange.reach valid (fun _ => rfl) rfl hin hn
  | externalKvContig a => exact PhysRange.reach valid (fun _ => rfl) rfl hin hn
  | io a => exact PhysRange.reach valid (fun _ => rfl) rfl hin hn
  | externalKv ps => exact PageList.reach valid (fun _ => rfl) rfl rfl hin hn
  | vmalloc ps => exact PageList.reach valid (fun _ => rfl) rfl rfl hin hn
  | allocPages ps => exact PageList.reach valid (fun _ => rfl) rfl rfl hin hn
  | subAlloc p o => cases valid

theorem RootArea.byteSize_le (r : RootArea) : r.byteSize < 4294967296 := by
  obtain ⟨d, b, valid⟩ := r
  have hrange {a : ℕ} (h : PhysRange a b) : b < 4294967296 := by
    have hpos := h.pos
    have hword := h.word
    rw [pageSize_eq] at hpos
    omega
  have hlist {ps : List ℕ} (h : PageList ps b) : b < 4294967296 := by
    have hcov := h.covered
    have hle := rangeToPages_le b
    rw [pageSize_eq] at hcov
    omega
  cases d with
  | ioRemap a => exact hrange valid
  | externalKvContig a => exact hrange valid
  | io a => exact hrange valid
  | externalKv ps => exact hlist valid
  | vmalloc ps => exact hlist valid
  | allocPages ps => exact hlist valid
  | subAlloc p o => cases valid

theorem MapArea.cpuPAddr (m : MapArea) (hx : m.byteOffset + x < 4294967296) :
    linuxMemAreaToCpuPAddr m.data x =
      linuxMemAreaToCpuPAddr m.rootArea.data (m.byteOffset + x) := by
  cases m with
  | root r =>
    change linuxMemAreaToCpuPAddr r.data x = linuxMemAreaToCpuPAddr r.data (0 + x)
    rw [Nat.zero_add]
  | sub r o b h =>
    have hlt : o + x < 4294967296 := hx
    change linuxMemAreaToCpuPAddr r.data (u32 (o + x)) = linuxMemAreaToCpuPAddr r.data (o + x)
    rw [u32_of_lt hlt]

theorem MapArea.physIsContig (m : MapArea) :
    linuxMemAreaPhysIsContig m.data = linuxMemAreaPhysIsContig m.rootArea.data := by
  cases m with
  | root r => rfl
  | sub r o b h => rfl

theorem MapArea.reach (m : MapArea) {rest : LinuxMemArea}
    (hn : checkSize (m.linuxMemArea rest) (pageSize * n) = true) :
    Reach m.rootArea.data m.rootArea.byteSize m.byteOffset n := by
  have hsize := m.rootArea.byteSize_le
  have hin := m.inside
  have hfirst : linuxMemAreaToCpuPAddr m.data 0 =
      linuxMemAreaToCpuPAddr m.rootArea.data m.byteOffset := m.cpuPAddr (by omega)
  unfold checkSize determineUsersSizeAndByteOffset MapArea.linuxMemArea at hn
  dsimp only at hn
  rw [hfirst, decide_eq_true_eq] at hn
  refine m.rootArea.reach hin (Nat.le_trans hn ?_)
  have hle := u32_le (m.byteSize +
    linuxMemAreaToCpuPAddr m.rootArea.data m.byteOffset % pageSize + (pageSize - 1))
  unfold pageAlign
  rw [pageSize_eq] at hle ⊢
  omega

theorem doMapToUser_root (k : KernelMap) (pgoff size : ℕ) (r : RootArea) (x : ℕ) :
    doMapToUser k pgoff size r.data x =
      if pfnIsPhysical pgoff && k.ioRemapPfnRange then
        some ((List.range (size / pageSize)).map fun i => pgoff + i)
      else if (pagesOf r.data x size).all k.pfnValid &&
          (List.range (pagesOf r.data x size).length).all k.vmInsertPage then
        some (pagesOf r.data x size)
      else none := by
  obtain ⟨d, b, valid⟩ := r
  cases d with
  | subAlloc p o => cases valid
  | ioRemap _ | externalKvContig _ | io _ | externalKv _ | vmalloc _ | allocPages _ => rfl

theorem MapArea.doMapToUser_eq (m : MapArea) (k : KernelMap) (pgoff size : ℕ) :
    doMapToUser k pgoff size m.data 0 =
      doMapToUser k pgoff size m.rootArea.data m.byteOffset := by
  cases m with
  | root r => rfl
  | sub r o b h =>
    have hlt := r.byteSize_le
    change doMapToUser k pgoff size r.data (u32 (o + 0)) = doMapToUser k pgoff size r.data o
    rw [Nat.add_zero, u32_of_lt (by omega)]

theorem Reach.pagesOf_eq {rootSize : ℕ} (h : Reach d rootSize x n) :
    pagesOf d x (pageSize * n) =
      (List.range n).map fun i => linuxMemAreaToCpuPfn d (x + pageSize * i) := by
  have hwrap := h.wrap
  have hcount : (u32 (x + pageSize * n) - x + (pageSize - 1)) / pageSize = n := by
    rw [u32_of_lt hwrap, pageSize_eq]
    omega
  unfold pagesOf
  rw [hcount]
  apply List.map_congr_left
  intro i hi
  have hlt := List.mem_range.mp hi
  rw [u32_of_lt]
  rw [pageSize_eq] at hwrap ⊢
  omega

theorem Reach.fast_eq {rootSize : ℕ} (h : Reach d rootSize x n)
    (hc : linuxMemAreaPhysIsContig d = true) :
    ((List.range n).map fun i => linuxMemAreaToCpuPfn d x + i) =
      (List.range n).map fun i => linuxMemAreaToCpuPfn d (x + pageSize * i) := by
  apply List.map_congr_left
  intro i hi
  exact (h.contig hc i (List.mem_range.mp hi)).symm

theorem MapArea.pfn (m : MapArea) (hx : m.byteOffset + x < 4294967296) :
    linuxMemAreaToCpuPfn m.data x = linuxMemAreaToCpuPfn m.rootArea.data (m.byteOffset + x) := by
  unfold linuxMemAreaToCpuPfn
  rw [m.cpuPAddr hx]

/-- A mapping of `n` pages of an area, at the offset `pgoff`. -/
structure MapsRight (k : KernelMap) (m : MapArea) (pgoff n : ℕ) : Prop where
  /-- Page `i` is that of the byte `i * PAGE_SIZE` of the area. -/
  pages : ∀ l, doMapToUser k pgoff (pageSize * n) m.data 0 = some l →
    l = (List.range n).map fun i => linuxMemAreaToCpuPfn m.data (pageSize * i)
  within : ∀ l, doMapToUser k pgoff (pageSize * n) m.data 0 = some l →
    ∀ p ∈ l, p ∈ rootPages m.rootArea.byteSize m.rootArea.data
  /-- The pages of the first path are those of the second one. -/
  paths : linuxMemAreaPhysIsContig m.data = true →
    ((List.range n).map fun i => pgoff + i) =
      pagesOf m.rootArea.data m.byteOffset (pageSize * n)
  mapped : (∀ p, k.pfnValid p = true) → (∀ i, k.vmInsertPage i = true) →
    (doMapToUser k pgoff (pageSize * n) m.data 0).isSome

/-- The page number in the offset decides on the path as the kind of the area does. -/
theorem MapArea.mmapOffset (m : MapArea) (rest : LinuxMemArea) {handle : ℕ}
    (hh : handle ≤ maxMmapHandle) (h : Reach m.rootArea.data m.rootArea.byteSize m.byteOffset n) :
    pfnIsPhysical (newMMapOffset (m.linuxMemArea rest) handle) =
      linuxMemAreaPhysIsContig m.rootArea.data ∧
    (linuxMemAreaPhysIsContig m.rootArea.data = true →
      newMMapOffset (m.linuxMemArea rest) handle =
        linuxMemAreaToCpuPfn m.rootArea.data m.byteOffset) := by
  have hsize := m.rootArea.byteSize_le
  have hin := m.inside
  have hpfn : linuxMemAreaToCpuPfn m.data 0 =
      linuxMemAreaToCpuPfn m.rootArea.data m.byteOffset := m.pfn (by omega)
  have hoffset : newMMapOffset (m.linuxMemArea rest) handle =
      if linuxMemAreaPhysIsContig m.rootArea.data then
        linuxMemAreaToCpuPfn m.rootArea.data m.byteOffset
      else handleToMMapOffset handle := by
    unfold newMMapOffset MapArea.linuxMemArea
    dsimp only
    rw [m.physIsContig, hpfn]
  rw [hoffset]
  cases hc : linuxMemAreaPhysIsContig m.rootArea.data with
  | true =>
    have hlow := h.physical hc
    refine ⟨?_, fun _ => rfl⟩
    rw [if_pos rfl]
    unfold pfnIsPhysical lastPhysicalPfn
    rw [decide_eq_true_eq]
    omega
  | false =>
    refine ⟨?_, fun hfalse => by cases hfalse⟩
    unfold maxMmapHandle at hh
    have hspecial : pfnIsSpecial handle = false := by
      unfold pfnIsSpecial firstSpecialPfn lastPhysicalPfn
      rw [Bool.and_eq_false_iff, decide_eq_false_iff_not]
      exact .inl (by omega)
    have hvalue : handleToMMapOffset handle = handle + 2147483648 := by
      unfold handleToMMapOffset firstSpecialPfn lastPhysicalPfn
      rw [hspecial, if_neg Bool.false_ne_true, u32_of_lt (by omega)]
    rw [if_neg Bool.false_ne_true, hvalue]
    unfold pfnIsPhysical lastPhysicalPfn
    rw [decide_eq_false_iff_not]
    omega

theorem MapArea.maps (m : MapArea) (rest : LinuxMemArea) (k : KernelMap) {handle : ℕ}
    (hh : handle ≤ maxMmapHandle)
    (hn : checkSize (m.linuxMemArea rest) (pageSize * n) = true) :
    MapsRight k m (newMMapOffset (m.linuxMemArea rest) handle) n := by
  have hreach := m.reach hn
  obtain ⟨hphysical, hpgoff⟩ := m.mmapOffset rest hh hreach
  have hslow := hreach.pagesOf_eq
  -- whichever path is taken, these are the pages
  have hmap : doMapToUser k (newMMapOffset (m.linuxMemArea rest) handle) (pageSize * n) m.data 0 =
      if linuxMemAreaPhysIsContig m.rootArea.data && k.ioRemapPfnRange ||
          (((pagesOf m.rootArea.data m.byteOffset (pageSize * n)).all k.pfnValid) &&
            (List.range (pagesOf m.rootArea.data m.byteOffset (pageSize * n)).length).all
              k.vmInsertPage) then
        some ((List.range n).map fun i =>
          linuxMemAreaToCpuPfn m.rootArea.data (m.byteOffset + pageSize * i))
      else none := by
    have hpages : pageSize * n / pageSize = n := by
      rw [pageSize_eq]
      omega
    rw [m.doMapToUser_eq, doMapToUser_root, hphysical, hpages]
    cases hfast : linuxMemAreaPhysIsContig m.rootArea.data && k.ioRemapPfnRange with
    | true =>
      have hcontig := (Bool.and_eq_true_iff.mp hfast).1
      rw [if_pos rfl, Bool.true_or, if_pos rfl, hpgoff hcontig, hreach.fast_eq hcontig]
    | false => rw [if_neg Bool.false_ne_true, Bool.false_or, hslow]
  have hpfn : ((List.range n).map fun i =>
      linuxMemAreaToCpuPfn m.rootArea.data (m.byteOffset + pageSize * i)) =
      (List.range n).map fun i => linuxMemAreaToCpuPfn m.data (pageSize * i) := by
    apply List.map_congr_left
    intro i hi
    have hwrap := hreach.wrap
    have hlt := List.mem_range.mp hi
    refine (m.pfn ?_).symm
    rw [pageSize_eq] at hwrap ⊢
    omega
  refine ⟨fun l hl => ?_, fun l hl p hp => ?_, fun hcontig => ?_, fun hvalid hinsert => ?_⟩
  · rw [hmap] at hl
    split at hl
    · rw [← Option.some.inj hl, hpfn]
    · cases hl
  · rw [hmap] at hl
    split at hl
    · rw [← Option.some.inj hl] at hp
      obtain ⟨i, hi, rfl⟩ := List.mem_map.mp hp
      exact hreach.page i (List.mem_range.mp hi)
    · cases hl
  · rw [m.physIsContig] at hcontig
    rw [hslow, hpgoff hcontig, hreach.fast_eq hcontig]
  · rw [hmap, if_pos]
    · rfl
    · rw [Bool.or_eq_true, Bool.and_eq_true, Bool.and_eq_true]
      exact .inr ⟨List.all_eq_true.mpr fun p _ => hvalid p,
        List.all_eq_true.mpr fun i _ => hinsert i⟩

def Consecutive (l : List ℕ) : Prop := ∀ i < l.length, l.getD i 0 = l.headD 0 + i

theorem consecutive_rangePages (addr byteSize : ℕ) : Consecutive (rangePages addr byteSize) := by
  intro i hi
  unfold rangePages at hi ⊢
  rw [List.length_map, List.length_range] at hi
  have hpos : 0 < (addr % pageSize + byteSize + (pageSize - 1)) / pageSize := by omega
  have hhead : ((List.range ((addr % pageSize + byteSize + (pageSize - 1)) / pageSize)).map
      fun i => addr / pageSize + i).headD 0 = addr / pageSize := by
    rw [List.headD_eq_head?_getD, List.head?_map, List.head?_range, if_neg (by omega)]
    rfl
  rw [hhead, List.getD_eq_getElem _ _ (by rw [List.length_map, List.length_range]; exact hi),
    List.getElem_map, List.getElem_range]

theorem RootArea.consecutive (r : RootArea) (hc : linuxMemAreaPhysIsContig r.data = true) :
    Consecutive (rootPages r.byteSize r.data) := by
  obtain ⟨d, b, valid⟩ := r
  cases d with
  | ioRemap a | externalKvContig a | io a => exact consecutive_rangePages a b
  | externalKv ps | vmalloc ps | allocPages ps => cases hc
  | subAlloc p o => cases valid

theorem PageList.length_listPages (h : PageList pages byteSize) :
    (listPages pages byteSize).length = rangeToPages byteSize := by
  unfold listPages
  rw [List.length_map, List.length_take, Nat.min_eq_left h.length]

theorem PageList.listPages_getD (h : PageList pages byteSize) {j : ℕ}
    (hj : j < rangeToPages byteSize) :
    (listPages pages byteSize).getD j 0 = pages.getD j 0 / 4096 := by
  have hjp : j < pages.length := Nat.lt_of_lt_of_le hj h.length
  rw [List.getD_eq_getElem _ _ (by rw [h.length_listPages]; exact hj), List.getD_eq_getElem _ _ hjp]
  unfold listPages
  rw [List.getElem_map, List.getElem_take]
  rfl

theorem headD_eq_getD (l : List ℕ) : l.headD 0 = l.getD 0 0 := by
  cases l with
  | nil => rfl
  | cons p ps => rfl

/-- Pages that are found contiguous follow one another; one that came round would be page 0. -/
theorem PageList.follow (h : PageList pages byteSize) (hpos : ∀ p ∈ pages, pageSize ≤ p)
    (hcontig : pagesAreContiguous pages byteSize = true) {j : ℕ}
    (hj : j < rangeToPages byteSize) : pages.getD j 0 = pages.getD 0 0 + 4096 * j := by
  have hcount := h.pages_eq
  have hstep (j : ℕ) (hj : j < rangeToPages byteSize) :
      pages.getD j 0 = u32 (pages.headD 0 + 4096 * j) := by
    unfold pagesAreContiguous at hcontig
    have hall := List.all_eq_true.mp hcontig j (List.mem_range.mpr (by
      rw [pageSize_eq]
      omega))
    exact of_decide_eq_true hall
  have hin (j : ℕ) (hj : j < rangeToPages byteSize) :
      4096 ≤ pages.getD j 0 ∧ pages.getD j 0 % 4096 = 0 ∧ pages.getD j 0 < 4294967296 := by
    have hjp : j < pages.length := Nat.lt_of_lt_of_le hj h.length
    have hmem : pages.getD j 0 ∈ pages := by
      rw [List.getD_eq_getElem _ _ hjp]
      exact List.getElem_mem hjp
    exact ⟨hpos _ hmem, h.aligned _ hmem, h.word _ hmem⟩
  induction j with
  | zero => rfl
  | succ j ih =>
    have hprev := ih (by omega)
    have hnext := hstep (j + 1) hj
    have hpage := hin (j + 1) hj
    have hbefore := hin j (by omega)
    rw [headD_eq_getD, u32_eq_mod] at hnext
    omega

/-- `NewExternalKVLinuxMemArea` finds pages contiguous that follow one another. -/
theorem PageList.consecutive (h : PageList pages byteSize) (hpos : ∀ p ∈ pages, pageSize ≤ p)
    (hc : linuxMemAreaPhysIsContig (externalData pages byteSize false) = true) :
    Consecutive (listPages pages byteSize) := by
  have hcontig : pagesAreContiguous pages byteSize = true := by
    unfold externalData at hc
    rw [Bool.false_or] at hc
    by_contra hnot
    rw [if_neg hnot] at hc
    cases hc
  intro i hi
  rw [h.length_listPages] at hi
  rw [headD_eq_getD, h.listPages_getD hi, h.listPages_getD (Nat.zero_lt_of_lt hi),
    h.follow hpos hcontig hi]
  omega

/-- Every root and every area taken from one, every list of pages handed to `mm.c`, and every number
    of pages that `CheckSize` lets through. -/
theorem mapped_pages_right (m : MapArea) (rest : LinuxMemArea) (k : KernelMap) (handle n : ℕ)
    (hh : handle ≤ maxMmapHandle)
    (hn : checkSize (m.linuxMemArea rest) (pageSize * n) = true) :
    MapsRight k m (newMMapOffset (m.linuxMemArea rest) handle) n ∧
    (linuxMemAreaPhysIsContig m.data = true →
      Consecutive (rootPages m.rootArea.byteSize m.rootArea.data)) ∧
    ∀ pages byteSize, PageList pages byteSize → (∀ p ∈ pages, pageSize ≤ p) →
      linuxMemAreaPhysIsContig (externalData pages byteSize false) = true →
      Consecutive (listPages pages byteSize) := by
  refine ⟨m.maps rest k hh hn, fun hc => ?_, fun pages byteSize h hpos hc => ?_⟩
  · rw [m.physIsContig] at hc
    exact m.rootArea.consecutive hc
  · exact h.consecutive hpos hc

def sampleRoot : RootArea where
  data := .allocPages [0x90000000, 0x80005000, 0x80001000]
  byteSize := 12000
  valid := ⟨by decide +kernel, by decide +kernel, by decide +kernel, by decide +kernel⟩

def sampleSub : MapArea := .sub sampleRoot 4000 5000 (by decide +kernel)

theorem mapped_pages_sample :
    MapsRight ⟨true, fun _ => true, fun _ => true⟩ sampleSub 2147483657 3 ∧
    doMapToUser ⟨true, fun _ => true, fun _ => true⟩ 2147483657 12288 sampleSub.data 0 =
      some [0x90000, 0x80005, 0x80001] := by
  have hoff : newMMapOffset (sampleSub.linuxMemArea ⟨.io 0, 0, .cached, true, []⟩) 9 =
      2147483657 := by decide +kernel
  have hright := (mapped_pages_right sampleSub ⟨.io 0, 0, .cached, true, []⟩
    ⟨true, fun _ => true, fun _ => true⟩ 9 3 (by decide +kernel) (by decide +kernel)).1
  rw [hoff] at hright
  exact ⟨hright, by decide +kernel⟩

end PvrServices.Mmaps
