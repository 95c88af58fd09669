import Mathlib.Algebra.Ring.Nat
import Mathlib.Data.Nat.Bitwise
import PvrServices.BlockHeap
import PvrServices.OsAreas
import PvrServices.Runs

set_option autoImplicit false

/-!
# Page tables

`mmu.c`. A context has a page directory and a list of page-table structures, one for each 4 MB of
device addresses; `MMU_Alloc` takes a range of addresses and makes the page tables it misses. A page
stands for its memory, its kernel address and its handle alike.
-/
namespace PvrServices.MmuTables
open Words BlockHeap Runs
open OsAreas (hasFlag memUserSuppliedDevvaddr)

def mmuPageShift : ℕ := 12
def mmuPageSize : ℕ := 4096
def mmuPtShift : ℕ := 10
def mmuPtSize : ℕ := 1024
def mmuPdeValid : ℕ := 1
def mmuPteValid : ℕ := 1
def uint32MaxValue : ℕ := 4294967295

def mmuTableBytes : ℕ := 4194304

abbrev Table : Type := ℕ → ℕ

structure PtInfo where
  hPTPageOSMemHandle : ℕ
  ptPageCpuVAddr : ℕ
deriving DecidableEq, Repr

def PtInfo.missing (info : PtInfo) : Bool :=
  info.hPTPageOSMemHandle = 0 && info.ptPageCpuVAddr = 0

structure MmuContext where
  pvPDCpuVAddr : ℕ → ℕ
  apsPTInfoList : ℕ → Option PtInfo

inductive HeapType where
  | perContext
  | kernel
  | shared
  | sharedExported
deriving DecidableEq, Repr

def HeapType.isShared : HeapType → Bool
  | .shared => true
  | .sharedExported => true
  | _ => false

structure MmuHeap where
  psMMUContext : ℕ
  psVMArena : ℕ
  devMemHeapType : HeapType
  psLocalDevMemArena : Bool
deriving DecidableEq, Repr

/-- The contexts of a device, the pages and local-memory blocks that are handed out, and the live
    segments of each arena of device addresses. -/
structure Mmu where
  context : ℕ → MmuContext
  pvMMUContextList : List ℕ
  pages : Heap Table
  segments : ℕ → ℕ → Option ℕ

structure AllocCall where
  uSize : ℕ
  uFlags : ℕ
  devVAddr : ℕ
  vmRange : Option ℕ
  sysData : Bool
  ptInfo : ℕ → Bool
  page : ℕ → Option ℕ
  linear : ℕ → Bool
  stale : ℕ → Table

def Mmu.slot (s : Mmu) (x k : ℕ) : Option PtInfo := (s.context x).apsPTInfoList k

def Mmu.entry (s : Mmu) (x k : ℕ) : ℕ := (s.context x).pvPDCpuVAddr k

def Mmu.setSlot (s : Mmu) (x k : ℕ) (info : Option PtInfo) : Mmu :=
  { s with context := Function.update s.context x { s.context x with
      apsPTInfoList := Function.update (s.context x).apsPTInfoList k info } }

def Mmu.setEntry (s : Mmu) (x k v : ℕ) : Mmu :=
  { s with context := Function.update s.context x { s.context x with
      pvPDCpuVAddr := Function.update (s.context x).pvPDCpuVAddr k v } }

def setEntries (k v : ℕ) : List ℕ → Mmu → Mmu
  | [], s => s
  | x :: xs, s => setEntries k v xs (s.setEntry x k v)

def MmuHeap.targets (h : MmuHeap) (s : Mmu) : List ℕ :=
  if h.devMemHeapType.isShared then s.pvMMUContextList else [h.psMMUContext]

def pdeOf (p : ℕ) : ℕ := p <<< mmuPageShift ||| mmuPdeValid

def pdIndex (a : ℕ) : ℕ := a >>> (mmuPageShift + mmuPtShift)

def ptIndex (a : ℕ) : ℕ := a / mmuPageSize % mmuPtSize

def ptPageCount (devVAddr ui32Size : ℕ) : ℕ :=
  let sHighDevVAddr :=
    if uint32MaxValue - devVAddr < u32 (ui32Size + mmuTableBytes - 1) then uint32MaxValue
    else u32 (devVAddr + ui32Size + mmuTableBytes - 1)
  u32Sub (pdIndex sHighDevVAddr) (pdIndex devVAddr)

def allocPtInfo (h : MmuHeap) (c : AllocCall) (i k : ℕ) (s : Mmu) : Bool × Mmu :=
  if (s.slot h.psMMUContext k).isSome then (true, s)
  else if c.ptInfo i then (true, s.setSlot h.psMMUContext k (some ⟨0, 0⟩))
  else (false, s)

def enterTable (h : MmuHeap) (k p : ℕ) (info : PtInfo) (s : Mmu) : Option (Bool × Mmu) := do
  let pages ← s.pages.write p fun _ => 0
  let s : Mmu := { s.setSlot h.psMMUContext k (some info) with pages := pages }
  some (true, setEntries k (pdeOf p) (h.targets s) s)

def systemTable (h : MmuHeap) (c : AllocCall) (i k : ℕ) (s : Mmu) : Option (Bool × Mmu) := do
  let r ← s.pages.alloc mmuPageSize c.stale (c.page i)
  if r.1 = 0 then some (false, { s with pages := r.2 })
  else enterTable h k r.1 ⟨r.1, r.1⟩ { s with pages := r.2 }

/-- A block of local memory; `OSMapPhysToLin` leaves the handle empty. -/
def localTable (h : MmuHeap) (c : AllocCall) (i k : ℕ) (s : Mmu) : Option (Bool × Mmu) := do
  let r ← s.pages.alloc mmuPageSize c.stale (c.page i)
  if r.1 = 0 then some (false, { s with pages := r.2 })
  else if c.linear i then enterTable h k r.1 ⟨0, r.1⟩ { s with pages := r.2 }
  else some (false, { s.setSlot h.psMMUContext k (some ⟨0, 0⟩) with pages := r.2 })

def allocTable (h : MmuHeap) (c : AllocCall) (i k : ℕ) (s : Mmu) : Option (Bool × Mmu) :=
  if h.psLocalDevMemArena then localTable h c i k s else systemTable h c i k s

def Mmu.missing (s : Mmu) (x k : ℕ) : Bool := (s.slot x k).all PtInfo.missing

def tableRound (h : MmuHeap) (c : AllocCall) (i k : ℕ) (s : Mmu) : Option (Bool × Mmu) :=
  if (allocPtInfo h c i k s).1 then
    if (allocPtInfo h c i k s).2.missing h.psMMUContext k then
      allocTable h c i k (allocPtInfo h c i k s).2
    else some (true, (allocPtInfo h c i k s).2)
  else some (false, (allocPtInfo h c i k s).2)

def tableRounds (h : MmuHeap) (c : AllocCall) (pd : ℕ) : ℕ → ℕ → Mmu → Option (Bool × Mmu)
  | 0, _, s => some (true, s)
  | n + 1, i, s => do
    let r ← tableRound h c i (pd + i) s
    if r.1 then tableRounds h c pd n (i + 1) r.2 else some (false, r.2)

def deferredAllocPagetables (h : MmuHeap) (c : AllocCall) (devVAddr : ℕ) (s : Mmu) :
    Option (Bool × Mmu) :=
  if c.sysData then tableRounds h c (pdIndex devVAddr) (ptPageCount devVAddr c.uSize) 0 s
  else some (false, s)

def Mmu.setSegment (s : Mmu) (arena a : ℕ) (size : Option ℕ) : Mmu :=
  { s with segments :=
      Function.update s.segments arena (Function.update (s.segments arena) a size) }

/-- A range of the heap's own arena, given back when the page tables cannot be made. -/
def allocRange (h : MmuHeap) (c : AllocCall) (a : ℕ) (s : Mmu) : Option ((Bool × ℕ) × Mmu) := do
  let r ← deferredAllocPagetables h c a (s.setSegment h.psVMArena a (some c.uSize))
  some ((r.1, a), if r.1 then r.2 else r.2.setSegment h.psVMArena a none)

def mmuAlloc (h : MmuHeap) (c : AllocCall) (s : Mmu) : Option ((Bool × ℕ) × Mmu) :=
  if hasFlag c.uFlags memUserSuppliedDevvaddr then
    (deferredAllocPagetables h c c.devVAddr s).map fun r => ((r.1, c.devVAddr), r.2)
  else c.vmRange.elim (some ((false, c.devVAddr), s)) fun a =>
    if (s.segments h.psVMArena a).isSome then none else allocRange h c a s

def translate (s : Mmu) (x a : ℕ) : Option ℕ := do
  guard ((s.entry x (pdIndex a)) &&& mmuPdeValid ≠ 0)
  let table ← s.pages.blocks (s.entry x (pdIndex a) >>> mmuPageShift)
  guard (table.content (ptIndex a) &&& mmuPteValid ≠ 0)
  some (table.content (ptIndex a) >>> mmuPageShift)

def mmuGetPhysPageAddr (s : Mmu) (h : MmuHeap) (a : ℕ) : Option ℕ :=
  (s.slot h.psMMUContext (pdIndex a)).elim (some 0) fun info =>
    (s.pages.blocks info.ptPageCpuVAddr).map fun table =>
      table.content (ptIndex a) >>> mmuPageShift <<< mmuPageShift

section
variable {h : MmuHeap} {c : AllocCall} {s t u : Mmu} {x y i j k p : ℕ} {info : Option PtInfo}

theorem slot_setSlot : (s.setSlot x k info).slot y j = if y = x ∧ j = k then info else s.slot y j := by
  unfold Mmu.setSlot Mmu.slot
  dsimp only
  by_cases hy : y = x
  · rw [hy, Function.update_self]
    dsimp only
    by_cases hj : j = k
    · rw [hj, Function.update_self, if_pos ⟨rfl, rfl⟩]
    · rw [Function.update_of_ne hj, if_neg fun h => hj h.2]
  · rw [Function.update_of_ne hy, if_neg fun h => hy h.1]

theorem entry_setSlot : (s.setSlot x k info).entry y j = s.entry y j := by
  unfold Mmu.setSlot Mmu.entry
  dsimp only
  by_cases hy : y = x
  · rw [hy, Function.update_self]
  · rw [Function.update_of_ne hy]

theorem slot_setEntry {v : ℕ} : (s.setEntry x k v).slot y j = s.slot y j := by
  unfold Mmu.setEntry Mmu.slot
  dsimp only
  by_cases hy : y = x
  · rw [hy, Function.update_self]
  · rw [Function.update_of_ne hy]

theorem entry_setEntry {v : ℕ} :
    (s.setEntry x k v).entry y j = if y = x ∧ j = k then v else s.entry y j := by
  unfold Mmu.setEntry Mmu.entry
  dsimp only
  by_cases hy : y = x
  · rw [hy, Function.update_self]
    dsimp only
    by_cases hj : j = k
    · rw [hj, Function.update_self, if_pos ⟨rfl, rfl⟩]
    · rw [Function.update_of_ne hj, if_neg fun h => hj h.2]
  · rw [Function.update_of_ne hy, if_neg fun h => hy h.1]

theorem setEntries_frame {v : ℕ} {l : List ℕ} : (setEntries k v l s).segments = s.segments ∧
    (setEntries k v l s).pvMMUContextList = s.pvMMUContextList ∧
    (setEntries k v l s).pages = s.pages ∧
    ∀ y j, (setEntries k v l s).slot y j = s.slot y j := by
  induction l generalizing s with
  | nil => exact ⟨rfl, rfl, rfl, fun y j => rfl⟩
  | cons x xs ih =>
    obtain ⟨hsegments, hlist, hpages, hslots⟩ := ih (s := s.setEntry x k v)
    exact ⟨hsegments, hlist, hpages, fun y j => (hslots y j).trans slot_setEntry⟩

theorem setEntries_entry {v : ℕ} {l : List ℕ} :
    (setEntries k v l s).entry y j = if y ∈ l ∧ j = k then v else s.entry y j := by
  induction l generalizing s with
  | nil =>
    rw [if_neg fun h => List.not_mem_nil h.1]
    rfl
  | cons x xs ih =>
    have hrest := ih (s := s.setEntry x k v)
    have hcons : setEntries k v (x :: xs) s = setEntries k v xs (s.setEntry x k v) := rfl
    rw [hcons, hrest, entry_setEntry]
    by_cases hj : j = k
    · by_cases hmem : y ∈ xs
      · rw [if_pos ⟨hmem, hj⟩, if_pos ⟨List.mem_cons_of_mem x hmem, hj⟩]
      · rw [if_neg fun h => hmem h.1]
        by_cases hy : y = x
        · have hhead : y ∈ x :: xs := by
            rw [hy]
            exact List.mem_cons_self
          rw [if_pos ⟨hy, hj⟩, if_pos ⟨hhead, hj⟩]
        · rw [if_neg fun h => hy h.1, if_neg]
          intro h
          cases List.mem_cons.mp h.1 with
          | inl heq => exact hy heq
          | inr hin => exact hmem hin
    · rw [if_neg fun h => hj h.2, if_neg fun h => hj h.2, if_neg fun h => hj h.2]

/-- The slot has a page, and it is entered in every directory of the heap. -/
def Tabled (h : MmuHeap) (k : ℕ) (s : Mmu) : Prop :=
  ∃ info, s.slot h.psMMUContext k = some info ∧ info.ptPageCpuVAddr ≠ 0 ∧
    s.pages.blocks info.ptPageCpuVAddr ≠ none ∧
    ∀ x ∈ h.targets s, s.entry x k = pdeOf info.ptPageCpuVAddr

/-- What `_DeferredAllocPagetables` asserts of a slot, for every directory of the heap. -/
def Agreed (h : MmuHeap) (k : ℕ) (s : Mmu) : Prop :=
  (s.missing h.psMMUContext k = true ∧ ∀ x ∈ h.targets s, s.entry x k = 0) ∨ Tabled h k s

structure Sound (s : Mmu) : Prop where
  live : ∀ x k info, s.slot x k = some info → info.ptPageCpuVAddr ≠ 0 →
    s.pages.blocks info.ptPageCpuVAddr ≠ none
  null : s.pages.blocks 0 = none
  bounded : ∃ n, ∀ p, n ≤ p → s.pages.blocks p = none

def Found (s t : Mmu) : Prop :=
  ∀ p, s.pages.blocks p = none → t.pages.blocks p ≠ none →
    ∃ x k info, t.slot x k = some info ∧ info.ptPageCpuVAddr = p ∧ p ≠ 0

/-- Only missing tables of the slots in `K` change. -/
structure Within (h : MmuHeap) (K : ℕ → Prop) (s t : Mmu) : Prop where
  list : t.pvMMUContextList = s.pvMMUContextList
  pages : ∀ p b, s.pages.blocks p = some b → t.pages.blocks p = some b
  slots : ∀ x j, x ≠ h.psMMUContext ∨ ¬K j → t.slot x j = s.slot x j
  built : ∀ x j, s.missing x j = false → t.slot x j = s.slot x j
  entries : ∀ x j, x ∉ h.targets s ∨ ¬K j → t.entry x j = s.entry x j
  set : ∀ x j, s.entry x j ≠ 0 → t.entry x j = s.entry x j

theorem pdeOf_ne_zero : pdeOf p ≠ 0 := by
  unfold pdeOf mmuPdeValid
  intro h
  have hone := (Nat.or_eq_zero_iff.mp h).2
  cases hone

theorem missing_of_slot {info : PtInfo} (hs : s.slot x k = some info)
    (hp : info.ptPageCpuVAddr ≠ 0) : s.missing x k = false := by
  unfold Mmu.missing PtInfo.missing
  rw [hs]
  simp [hp]

theorem Tabled.built (ht : Tabled h k s) : s.missing h.psMMUContext k = false := by
  obtain ⟨info, hslot, hpage, -, -⟩ := ht
  exact missing_of_slot hslot hpage

theorem Agreed.tabled (ha : Agreed h k s) (hb : s.missing h.psMMUContext k = false) :
    Tabled h k s := by
  cases ha with
  | inl hm =>
    rw [hb] at hm
    cases hm.1
  | inr ht => exact ht

theorem MmuHeap.targets_eq (hlist : t.pvMMUContextList = s.pvMMUContextList) :
    h.targets t = h.targets s := by
  unfold MmuHeap.targets
  rw [hlist]

section
variable {K L : ℕ → Prop}

theorem Within.refl : Within h K s s :=
  ⟨rfl, fun _ _ hp => hp, fun _ _ _ => rfl, fun _ _ _ => rfl, fun _ _ _ => rfl,
    fun _ _ _ => rfl⟩

theorem Within.missing_eq (hw : Within h K s t) (hb : s.missing x k = false) :
    t.missing x k = false := by
  unfold Mmu.missing at hb ⊢
  rw [hw.built x k hb]
  exact hb

theorem Within.trans (hw : Within h K s t) (hv : Within h K t u) : Within h K s u where
  list := hv.list.trans hw.list
  pages p b hp := hv.pages p b (hw.pages p b hp)
  slots x j hx := (hv.slots x j hx).trans (hw.slots x j hx)
  built x j hb := (hv.built x j (hw.missing_eq hb)).trans (hw.built x j hb)
  entries x j hx := by
    rw [← MmuHeap.targets_eq (h := h) hw.list] at hx
    rw [hv.entries x j hx]
    rw [MmuHeap.targets_eq (h := h) hw.list] at hx
    exact hw.entries x j hx
  set x j h0 := by
    have hone := hw.set x j h0
    rw [← hone] at h0
    exact (hv.set x j h0).trans hone

theorem Within.mono (hw : Within h K s t) (hK : ∀ j, K j → L j) : Within h L s t where
  list := hw.list
  pages := hw.pages
  slots x j hx := hw.slots x j (hx.imp_right fun hn hk => hn (hK j hk))
  built := hw.built
  entries x j hx := hw.entries x j (hx.imp_right fun hn hk => hn (hK j hk))
  set := hw.set

theorem Within.live (hw : Within h K s t) (hp : s.pages.blocks p ≠ none) :
    t.pages.blocks p ≠ none := by
  obtain ⟨b, hb⟩ := Option.ne_none_iff_exists'.mp hp
  rw [hw.pages p b hb]
  exact Option.some_ne_none b

theorem Within.tabled {g : MmuHeap} (hw : Within h K s t) (ht : Tabled g k s) : Tabled g k t := by
  have hbuilt := hw.built _ _ ht.built
  obtain ⟨info, hslot, hpage, hlive, hentry⟩ := ht
  refine ⟨info, hbuilt.trans hslot, hpage, hw.live hlive, ?_⟩
  intro x hx
  rw [MmuHeap.targets_eq hw.list] at hx
  have hold := hentry x hx
  have hne : s.entry x k ≠ 0 := by
    rw [hold]
    exact pdeOf_ne_zero
  exact (hw.set x k hne).trans hold

theorem Within.agreed {g : MmuHeap} (hw : Within h K s t) (hk : ¬K k) (ha : Agreed g k s) :
    Agreed g k t := by
  cases ha with
  | inr ht => exact .inr (hw.tabled ht)
  | inl hm =>
    refine .inl ⟨?_, ?_⟩
    · unfold Mmu.missing
      rw [hw.slots _ k (.inr hk)]
      exact hm.1
    · intro x hx
      rw [MmuHeap.targets_eq hw.list] at hx
      rw [hw.entries x k (.inr hk)]
      exact hm.2 x hx

theorem Found.refl : Found s s := fun _ hp hn => absurd hp hn

theorem Found.trans (hf : Found s t) (hg : Found t u) (hw : Within h K t u) : Found s u := by
  intro p hp hn
  by_cases ht : t.pages.blocks p = none
  · exact hg p ht hn
  · obtain ⟨x, k, info, hslot, hpage, h0⟩ := hf p hp ht
    have hb : t.missing x k = false := by
      apply missing_of_slot hslot
      rw [hpage]
      exact h0
    exact ⟨x, k, info, (hw.built x k hb).trans hslot, hpage, h0⟩

theorem Within.translate_eq {a q : ℕ} (hw : Within h K s t) (hq : translate s x a = some q) :
    translate t x a = some q := by
  unfold translate at hq ⊢
  obtain ⟨w, hvalid, hq⟩ := Option.bind_eq_some_iff.mp hq
  obtain ⟨table, htable, hq⟩ := Option.bind_eq_some_iff.mp hq
  have hne : s.entry x (pdIndex a) ≠ 0 := by
    intro h0
    rw [h0] at hvalid
    cases hvalid
  rw [hw.set x _ hne, hvalid, hw.pages _ table htable]
  exact hq

theorem Within.mmuGetPhysPageAddr_eq {g : MmuHeap} {a q : ℕ} (hw : Within h K s t) (hl : Sound s)
    (h0 : q ≠ 0) (hq : mmuGetPhysPageAddr s g a = some q) :
    mmuGetPhysPageAddr t g a = some q := by
  unfold mmuGetPhysPageAddr at hq ⊢
  cases hslot : s.slot g.psMMUContext (pdIndex a) with
  | none =>
    rw [hslot] at hq
    exact absurd (Option.some.inj hq).symm h0
  | some info =>
    rw [hslot] at hq
    obtain ⟨table, htable, hval⟩ := Option.map_eq_some_iff.mp hq
    have hp : info.ptPageCpuVAddr ≠ 0 := by
      intro hnull
      rw [hnull, hl.null] at htable
      cases htable
    have hkept := hw.pages _ table htable
    rw [hw.built _ _ (missing_of_slot hslot hp), hslot]
    change (t.pages.blocks info.ptPageCpuVAddr).map _ = some q
    rw [hkept, Option.map_some, hval]

end
end

end PvrServices.MmuTables
