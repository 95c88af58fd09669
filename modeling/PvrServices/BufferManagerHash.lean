import Mathlib.Data.List.Nodup
import PvrServices.BufferManagerBase
import PvrServices.HashTableMap
import PvrServices.KeyedList
import PvrServices.Runs

set_option autoImplicit false

/-!
# The buffer hash

The hash table of a context leads from an address to a buffer that was wrapped there in one piece.
Two wraps of one address that differ in size are two buffers under one key, and `HASH_Remove` takes
the one that is found first.
-/
namespace PvrServices.BufferManager
open Words OsAreas HashTable KeyedList Runs

def Bm.contextOf (s : Bm) (b : BmBuf) : Option ℕ := do
  let m ← s.mappings b.mapping
  let heap ← s.heaps m.heap
  some heap.context

def Bm.hashed (s : Bm) (b : BmBuf) : Bool :=
  (s.mappings b.mapping).any fun m => m.origin.hashed

/-- The buffer belongs into the table of the context `x`. -/
def Bm.inTable (s : Bm) (x : ℕ) (b : BmBuf) : Prop :=
  s.contextOf b = some x ∧ s.hashed b = true

/-- The entries of each table are the live buffers that were wrapped in one piece, each under the
    address where it was, and a search finds one of them or nothing. -/
structure HashSound (s : Bm) : Prop where
  entries : ∀ x ctx, s.contexts x = some ctx → ∀ k p, (k, p) ∈ ctx.bufferHash.entries ↔
    ∃ b ∈ s.bufs, s.inTable x b ∧ b.cpuPAddr = k ∧ b.ptr = p
  found : ∀ x ctx, s.contexts x = some ctx → ∀ k,
    hashRetrieveExtended hashAddress ctx.bufferHash k = 0 ∨
      ∃ b ∈ s.bufs, b.cpuPAddr = k ∧ b.ptr = hashRetrieveExtended hashAddress ctx.bufferHash k

def WrapOrFree (_ : Bm) : BmOp → Prop
  | .wrap _ => True
  | .free _ => True
  | _ => False

/-- A search under the address of the buffer `p` finds it, if the buffer is in a table and loses
    its last reference. -/
def FirstOfKey (s : Bm) (p : ℕ) : Prop :=
  ∀ b, s.findBuf p = some b → u32Sub b.refCount 1 = 0 → ∀ x, s.inTable x b →
    ∀ ctx, s.contexts x = some ctx →
      hashRetrieveExtended hashAddress ctx.bufferHash b.cpuPAddr = p

/-- A buffer is found under its address when its last reference is dropped. -/
def FreesFirst (s : Bm) : BmOp → Prop
  | .free i => ∀ info, s.memInfos i = some info → FirstOfKey s info.hBuffer
  | _ => True

/-- The contexts as they are made, before any memory is wrapped. -/
structure Fresh (s : Bm) : Prop where
  bufs : s.bufs = []
  owned : ∀ x ctx, s.contexts x = some ctx → ∀ h ∈ ctx.heaps, ∀ heap, s.heaps h = some heap →
    heap.context = x
  homed : ∀ x ctx, s.contexts x = some ctx → Homed hashAddress ctx.bufferHash
  empty : ∀ x ctx, s.contexts x = some ctx → ctx.bufferHash.entries = []

structure HashInv (s : Bm) : Prop where
  nodup : (s.bufs.map BmBuf.ptr).Nodup
  pos : ∀ b ∈ s.bufs, b.ptr ≠ 0
  placed : ∀ b ∈ s.bufs, ∃ m, s.mappings b.mapping = some m ∧ m.arena = none
  based : ∀ b ∈ s.bufs, ∃ x ctx, s.contextOf b = some x ∧ s.contexts x = some ctx
  apart : ∀ b ∈ s.bufs, ∀ b' ∈ s.bufs, b.mapping = b'.mapping → b.ptr = b'.ptr
  owned : ∀ x ctx, s.contexts x = some ctx → ∀ h ∈ ctx.heaps, ∀ heap, s.heaps h = some heap →
    heap.context = x
  counted : ∀ x ctx, s.contexts x = some ctx →
    (s.bufs.countP fun b => s.contextOf b = some x) ≤ ctx.refCount
  homed : ∀ x ctx, s.contexts x = some ctx → Homed hashAddress ctx.bufferHash
  entries : ∀ x ctx, s.contexts x = some ctx → ∀ k p, (k, p) ∈ ctx.bufferHash.entries ↔
    ∃ b ∈ s.bufs, s.inTable x b ∧ b.cpuPAddr = k ∧ b.ptr = p

section
variable {s s' : Bm} {b b' : BmBuf} {m : BmMapping} {c : WrapCall} {p q x flags : ℕ}
  {ctx : BmContext} {heap : BmHeap}

theorem Fresh.inv (h : Fresh s) : HashInv s where
  nodup := by simp [h.bufs]
  pos := by simp [h.bufs]
  placed := by simp [h.bufs]
  based := by simp [h.bufs]
  apart := by simp [h.bufs]
  owned := h.owned
  counted := by simp [h.bufs]
  homed := h.homed
  entries := by
    intro x ctx hctx k p
    simp [h.bufs, h.empty x ctx hctx]

theorem HashInv.sound (h : HashInv s) : HashSound s where
  entries := h.entries
  found := by
    intro x ctx hctx k
    cases (h.homed x ctx hctx).retrieve k with
    | inl hnone => exact .inl hnone.1
    | inr hsome =>
      right
      obtain ⟨b, hb, -, hk, hp⟩ := (h.entries x ctx hctx k _).mp hsome
      exact ⟨b, hb, hk, hp⟩

structure Same (s s' : Bm) : Prop where
  heaps : s'.heaps = s.heaps
  contexts : s'.contexts = s.contexts
  bufs : s'.bufs = s.bufs

theorem findBuf_mem (h : s.findBuf p = some b) : b ∈ s.bufs ∧ b.ptr = p :=
  ⟨List.mem_of_find?_eq_some h, by simpa using List.find?_some h⟩

theorem not_mem_of_findBuf (h : (s.findBuf p).isSome = false) : ∀ b ∈ s.bufs, b.ptr ≠ p := by
  intro b hb hp
  have hnone : s.findBuf p = none := by simpa using h
  have := List.find?_eq_none.mp hnone b hb
  simp [hp] at this

theorem ptr_inj (h : (s.bufs.map BmBuf.ptr).Nodup) (hb : b ∈ s.bufs) (hb' : b' ∈ s.bufs)
    (hp : b.ptr = b'.ptr) : b = b' :=
  List.inj_on_of_nodup_map h hb hb' hp

theorem contextOf_congr (hm : s'.mappings b.mapping = s.mappings b.mapping)
    (hh : s'.heaps = s.heaps) : s'.contextOf b = s.contextOf b := by
  unfold Bm.contextOf
  rw [hm, hh]

theorem hashed_congr (hm : s'.mappings b.mapping = s.mappings b.mapping) :
    s'.hashed b = s.hashed b := by
  unfold Bm.hashed
  rw [hm]

theorem contextOf_eq (hm : s.mappings b.mapping = some m) (hheap : s.heaps m.heap = some heap) :
    s.contextOf b = some heap.context := by
  unfold Bm.contextOf
  rw [hm, Option.bind_eq_bind, Option.bind_some, hheap, Option.bind_eq_bind, Option.bind_some]

theorem freeBuf_same (hm : s.mappings b.mapping = some m) (ha : m.arena = none)
    (h : freeBuf s b flags = some s') :
    Same s s' ∧ ∀ r, r ≠ b.mapping → s'.mappings r = s.mappings r := by
  have hset (os : OsData) : Same s ({ s with os := os }.setMapping b.mapping none) ∧
      ∀ r, r ≠ b.mapping →
        ({ s with os := os }.setMapping b.mapping none).mappings r = s.mappings r := by
    refine ⟨⟨rfl, rfl, rfl⟩, fun r hr => ?_⟩
    exact Function.update_of_ne hr _ _
  unfold freeBuf at h
  simp only [hm, Option.bind_eq_bind, Option.bind_some] at h
  split at h
  · split at h
    · rw [← Option.some.inj h]
      exact ⟨⟨rfl, rfl, rfl⟩, fun r _ => rfl⟩
    · rw [← Option.some.inj h]
      exact hset s.os
  · obtain ⟨os, -, h⟩ := Option.bind_eq_some_iff.mp h
    unfold freeMemory at h
    split at h
    · simp [ha] at h
    · obtain ⟨os', -, h⟩ := Option.bind_eq_some_iff.mp h
      rw [← Option.some.inj h]
      exact hset os'

/-- Wrapping leaves every live mapping alone and puts the new buffer into a fresh one. -/
structure Wraps (s s' : Bm) (c : WrapCall) (p : ℕ) (r : Option BmBuf) : Prop where
  same : Same s s'
  kept : ∀ q m, s.mappings q = some m → s'.mappings q = some m
  new : ∀ b, r = some b → b.ptr = p ∧ s.mappings b.mapping = none ∧
    b.cpuPAddr = u32 (c.cpuPAddr + c.offset) ∧
    ∃ m, s'.mappings b.mapping = some m ∧ m.arena = none ∧ m.heap = c.heap ∧ m.origin = c.origin

theorem Wraps.failed {os : OsData} : Wraps s { s with os := os } c p none :=
  ⟨⟨rfl, rfl, rfl⟩, fun _ _ hq => hq, by simp⟩

theorem wrapMapped_wraps {a v : ℕ} {r : Option BmBuf} (hq : s.mappings q = none)
    (h : wrapMapped s c flags p q a v = some (r, s')) : Wraps s s' c p r := by
  have hkept (os : OsData) (x : BmMapping) (r : ℕ) (m : BmMapping) (hr : s.mappings r = some m) :
      ({ s with os := os }.setMapping q (some x)).mappings r = some m := by
    have hne : r ≠ q := by
      rintro rfl
      rw [hq] at hr
      cases hr
    exact (Function.update_of_ne hne _ _).trans hr
  unfold wrapMapped at h
  obtain ⟨⟨handle, os⟩, -, h⟩ := Option.bind_eq_some_iff.mp h
  cases handle with
  | error e =>
    obtain ⟨os', -, h⟩ := Option.bind_eq_some_iff.mp h
    rw [Option.some.injEq, Prod.mk.injEq] at h
    rw [← h.1, ← h.2]
    exact .failed
  | ok handle =>
    dsimp only at h
    split at h
    · rw [Option.some.injEq, Prod.mk.injEq] at h
      rw [← h.1, ← h.2]
      exact ⟨⟨rfl, rfl, rfl⟩, hkept os _, by simp⟩
    · rw [Option.some.injEq, Prod.mk.injEq] at h
      rw [← h.1, ← h.2]
      refine ⟨⟨rfl, rfl, rfl⟩, hkept os _, fun b hb => ?_⟩
      rw [← Option.some.inj hb]
      exact ⟨rfl, hq, rfl, _, Function.update_self _ _ _, rfl, rfl, rfl⟩

theorem wrapMemory_wraps {r : Option BmBuf} (h : wrapMemory s c flags p = some (r, s')) :
    Wraps s s' c p r := by
  unfold wrapMemory at h
  split at h
  · rw [Option.some.injEq, Prod.mk.injEq] at h
    rw [← h.1, ← h.2]
    exact .failed
  · rename_i q hq
    split at h
    · cases h
    · rename_i hfresh
      have hnone : s.mappings q = none := by
        simpa using (not_or.mp hfresh).2
      obtain ⟨⟨area, os⟩, -, h⟩ := Option.bind_eq_some_iff.mp h
      dsimp only at h
      split at h
      · obtain ⟨os', -, h⟩ := Option.bind_eq_some_iff.mp h
        rw [Option.some.injEq, Prod.mk.injEq] at h
        rw [← h.1, ← h.2]
        exact .failed
      · obtain ⟨os', -, h⟩ := Option.bind_eq_some_iff.mp h
        rw [Option.some.injEq, Prod.mk.injEq] at h
        rw [← h.1, ← h.2]
        exact .failed
      · have hw := wrapMapped_wraps (s := { s with os := os }) hnone h
        exact ⟨⟨hw.same.heaps, hw.same.contexts, hw.same.bufs⟩, hw.kept, hw.new⟩

theorem inTable_congr (hm : s'.mappings b.mapping = s.mappings b.mapping)
    (hh : s'.heaps = s.heaps) : s'.inTable x b ↔ s.inTable x b := by
  unfold Bm.inTable
  rw [contextOf_congr hm hh, hashed_congr hm]

/-- The mappings of the buffers stay, and nothing else that the tables depend on changes. -/
theorem HashInv.of_same (h : HashInv s) (hs : Same s s')
    (hk : ∀ q m, s.mappings q = some m → s'.mappings q = some m) : HashInv s' := by
  have hmap (b : BmBuf) (hb : b ∈ s.bufs) : s'.mappings b.mapping = s.mappings b.mapping := by
    obtain ⟨m, hm, -⟩ := h.placed b hb
    rw [hk _ m hm, hm]
  have hcount (x : ℕ) : (s.bufs.countP fun b => s'.contextOf b = some x) =
      s.bufs.countP fun b => s.contextOf b = some x := by
    refine List.countP_congr fun b hb => ?_
    rw [contextOf_congr (hmap b hb) hs.heaps]
  constructor
  · rw [hs.bufs]
    exact h.nodup
  · rw [hs.bufs]
    exact h.pos
  · intro b hb
    rw [hs.bufs] at hb
    rw [hmap b hb]
    exact h.placed b hb
  · intro b hb
    rw [hs.bufs] at hb
    rw [contextOf_congr (hmap b hb) hs.heaps, hs.contexts]
    exact h.based b hb
  · rw [hs.bufs]
    exact h.apart
  · rw [hs.contexts, hs.heaps]
    exact h.owned
  · intro x ctx hctx
    rw [hs.contexts] at hctx
    rw [hs.bufs, hcount x]
    exact h.counted x ctx hctx
  · rw [hs.contexts]
    exact h.homed
  · intro x ctx hctx k p
    rw [hs.contexts] at hctx
    rw [h.entries x ctx hctx k p, hs.bufs]
    constructor
    · rintro ⟨b, hb, ht, hrest⟩
      exact ⟨b, hb, (inTable_congr (hmap b hb) hs.heaps).mpr ht, hrest⟩
    · rintro ⟨b, hb, ht, hrest⟩
      exact ⟨b, hb, (inTable_congr (hmap b hb) hs.heaps).mp ht, hrest⟩

theorem setContext_cases {ctx' cy : BmContext} {y : ℕ}
    (hy : (s.setContext x (some ctx')).contexts y = some cy) :
    (y = x ∧ cy = ctx') ∨ (y ≠ x ∧ s.contexts y = some cy) := by
  unfold Bm.setContext at hy
  dsimp only at hy
  by_cases hyx : y = x
  · rw [hyx, Function.update_self] at hy
    exact .inl ⟨hyx, (Option.some.inj hy).symm⟩
  · rw [Function.update_of_ne hyx] at hy
    exact .inr ⟨hyx, hy⟩

/-- Heaps belong to their context when it is another version of it. -/
theorem HashInv.owned_set (h : HashInv s) {ctx' cy : BmContext} (hctx : s.contexts x = some ctx)
    (hheaps : ctx'.heaps = ctx.heaps) {y : ℕ}
    (hy : (s.setContext x (some ctx')).contexts y = some cy) :
    ∀ g ∈ cy.heaps, ∀ heap, s.heaps g = some heap → heap.context = y := by
  intro g hg heap hheap
  cases setContext_cases hy with
  | inl heq =>
    rw [heq.1]
    rw [heq.2, hheaps] at hg
    exact h.owned x ctx hctx g hg heap hheap
  | inr hold => exact h.owned y cy hold.2 g hg heap hheap

/-- A table changes, with the count of its context, in a way that suits the buffers. -/
theorem HashInv.setContext (h : HashInv s) {ctx' : BmContext} (hctx : s.contexts x = some ctx)
    (hheaps : ctx'.heaps = ctx.heaps)
    (hcount : (s.bufs.countP fun b => s.contextOf b = some x) ≤ ctx'.refCount)
    (hhomed : Homed hashAddress ctx'.bufferHash)
    (hentries : ∀ k p, (k, p) ∈ ctx'.bufferHash.entries ↔
      ∃ b ∈ s.bufs, s.inTable x b ∧ b.cpuPAddr = k ∧ b.ptr = p) :
    HashInv (s.setContext x (some ctx')) := by
  constructor
  · exact h.nodup
  · exact h.pos
  · exact h.placed
  · intro b hb
    obtain ⟨y, cy, hby, hcy⟩ := h.based b hb
    by_cases hyx : y = x
    · rw [hyx] at hby
      exact ⟨x, ctx', hby, Function.update_self _ _ _⟩
    · exact ⟨y, cy, hby, (Function.update_of_ne hyx _ _).trans hcy⟩
  · exact h.apart
  · exact fun y cy hy => h.owned_set hctx hheaps hy
  · intro y cy hy
    cases setContext_cases hy with
    | inl heq =>
      rw [heq.1, heq.2]
      exact hcount
    | inr hold => exact h.counted y cy hold.2
  · intro y cy hy
    cases setContext_cases hy with
    | inl heq =>
      rw [heq.2]
      exact hhomed
    | inr hold => exact h.homed y cy hold.2
  · intro y cy hy k p
    cases setContext_cases hy with
    | inl heq =>
      rw [heq.1, heq.2]
      exact hentries k p
    | inr hold => exact h.entries y cy hold.2 k p

theorem mem_setRefCount {n : ℕ} : b' ∈ (s.setRefCount p n).bufs ↔
    ∃ b ∈ s.bufs, (if b.ptr = p then { b with refCount := n } else b) = b' := by
  unfold Bm.setRefCount
  rw [List.mem_map]

theorem refCounted_fields {n : ℕ} {b : BmBuf} :
    (if b.ptr = p then { b with refCount := n } else b).ptr = b.ptr ∧
      (if b.ptr = p then { b with refCount := n } else b).mapping = b.mapping ∧
      (if b.ptr = p then { b with refCount := n } else b).cpuPAddr = b.cpuPAddr := by
  split <;> exact ⟨rfl, rfl, rfl⟩

theorem contextOf_eq_of_mapping (h : b'.mapping = b.mapping) : s.contextOf b' = s.contextOf b := by
  unfold Bm.contextOf
  rw [h]

theorem inTable_of_mapping (h : b'.mapping = b.mapping) : s.inTable x b' ↔ s.inTable x b := by
  unfold Bm.inTable Bm.hashed
  rw [contextOf_eq_of_mapping h, h]

theorem HashInv.setRefCount (h : HashInv s) (p n : ℕ) : HashInv (s.setRefCount p n) := by
  have hold (b' : BmBuf) (hb' : b' ∈ (s.setRefCount p n).bufs) : ∃ b ∈ s.bufs,
      b'.ptr = b.ptr ∧ b'.mapping = b.mapping ∧ b'.cpuPAddr = b.cpuPAddr := by
    obtain ⟨b, hb, heq⟩ := mem_setRefCount.mp hb'
    rw [← heq]
    exact ⟨b, hb, refCounted_fields⟩
  have hnew (b : BmBuf) (hb : b ∈ s.bufs) : ∃ b' ∈ (s.setRefCount p n).bufs,
      b'.ptr = b.ptr ∧ b'.mapping = b.mapping ∧ b'.cpuPAddr = b.cpuPAddr :=
    ⟨_, mem_setRefCount.mpr ⟨b, hb, rfl⟩, refCounted_fields⟩
  constructor
  · have hptr : (s.setRefCount p n).bufs.map BmBuf.ptr = s.bufs.map BmBuf.ptr := by
      unfold Bm.setRefCount
      rw [List.map_map]
      exact List.map_congr_left fun b _ => refCounted_fields.1
    rw [hptr]
    exact h.nodup
  · intro b' hb'
    obtain ⟨b, hb, hp, -⟩ := hold b' hb'
    rw [hp]
    exact h.pos b hb
  · intro b' hb'
    obtain ⟨b, hb, -, hm, -⟩ := hold b' hb'
    rw [hm]
    exact h.placed b hb
  · intro b' hb'
    obtain ⟨b, hb, -, hm, -⟩ := hold b' hb'
    have hc : (s.setRefCount p n).contextOf b' = s.contextOf b := contextOf_eq_of_mapping (s := s) hm
    rw [hc]
    exact h.based b hb
  · intro b' hb' d' hd' heq
    obtain ⟨b, hb, hp, hm, -⟩ := hold b' hb'
    obtain ⟨d, hd, hdp, hdm, -⟩ := hold d' hd'
    rw [hp, hdp]
    exact h.apart b hb d hd (by rw [← hm, heq, hdm])
  · exact h.owned
  · intro x ctx hctx
    refine le_trans (le_of_eq ?_) (h.counted x ctx hctx)
    unfold Bm.setRefCount
    rw [List.countP_map]
    refine List.countP_congr fun b _ => ?_
    have hc := contextOf_eq_of_mapping (s := s) (refCounted_fields (p := p) (n := n) (b := b)).2.1
    change decide (s.contextOf _ = some x) = true ↔ _
    rw [hc]
  · exact h.homed
  · intro x ctx hctx k r
    rw [h.entries x ctx hctx k r]
    constructor
    · rintro ⟨b, hb, ht, hk, hr⟩
      obtain ⟨b', hb', hp, hm, hc⟩ := hnew b hb
      exact ⟨b', hb', (inTable_of_mapping (s := s) hm).mpr ht, hc.trans hk, hp.trans hr⟩
    · rintro ⟨b', hb', ht, hk, hr⟩
      obtain ⟨b, hb, hp, hm, hc⟩ := hold b' hb'
      exact ⟨b, hb, (inTable_of_mapping (s := s) hm).mp ht, hc.symm.trans hk, hp.symm.trans hr⟩

theorem countP_context_cons : ((b :: s.bufs).countP fun d => s.contextOf d = some x) =
    (s.bufs.countP fun d => s.contextOf d = some x) +
      if s.contextOf b = some x then 1 else 0 := by
  rw [List.countP_cons]
  simp only [decide_eq_true_eq]

/-- A new buffer of the context `x` that the table of that context knows, if it is to. -/
theorem HashInv.add (h : HashInv s) {ctx' : BmContext} (hctx : s.contexts x = some ctx)
    (h0 : b.ptr ≠ 0) (hptr : ∀ d ∈ s.bufs, d.ptr ≠ b.ptr)
    (hm : ∃ m, s.mappings b.mapping = some m ∧ m.arena = none)
    (hmap : ∀ d ∈ s.bufs, d.mapping ≠ b.mapping) (hc : s.contextOf b = some x)
    (hheaps : ctx'.heaps = ctx.heaps) (hcount : ctx'.refCount = ctx.refCount + 1)
    (hhomed : Homed hashAddress ctx'.bufferHash)
    (hentries : ∀ k p, (k, p) ∈ ctx'.bufferHash.entries ↔
      (s.hashed b = true ∧ k = b.cpuPAddr ∧ p = b.ptr) ∨ (k, p) ∈ ctx.bufferHash.entries) :
    HashInv { s.setContext x (some ctx') with bufs := b :: s.bufs } := by
  have hbased (y : ℕ) (cy : BmContext) (hy : s.contexts y = some cy) :
      ∃ cz, (s.setContext x (some ctx')).contexts y = some cz := by
    by_cases hyx : y = x
    · rw [hyx]
      exact ⟨ctx', Function.update_self _ _ _⟩
    · exact ⟨cy, (Function.update_of_ne hyx _ _).trans hy⟩
  constructor
  · rw [List.map_cons, List.nodup_cons]
    refine ⟨fun hmem => ?_, h.nodup⟩
    obtain ⟨d, hd, hdb⟩ := List.mem_map.mp hmem
    exact hptr d hd hdb
  · intro d hd
    cases List.mem_cons.mp hd with
    | inl heq =>
      rw [heq]
      exact h0
    | inr hd => exact h.pos d hd
  · intro d hd
    cases List.mem_cons.mp hd with
    | inl heq =>
      rw [heq]
      exact hm
    | inr hd => exact h.placed d hd
  · intro d hd
    cases List.mem_cons.mp hd with
    | inl heq =>
      rw [heq]
      obtain ⟨cz, hz⟩ := hbased x ctx hctx
      exact ⟨x, cz, hc, hz⟩
    | inr hd =>
      obtain ⟨y, cy, hdy, hy⟩ := h.based d hd
      obtain ⟨cz, hz⟩ := hbased y cy hy
      exact ⟨y, cz, hdy, hz⟩
  · intro d hd e he hde
    cases List.mem_cons.mp hd with
    | inl hdb =>
      cases List.mem_cons.mp he with
      | inl heb => rw [hdb, heb]
      | inr he => exact absurd (by rw [← hde, hdb]) (hmap e he)
    | inr hd =>
      cases List.mem_cons.mp he with
      | inl heb => exact absurd (by rw [hde, heb]) (hmap d hd)
      | inr he => exact h.apart d hd e he hde
  · exact fun y cy hy => h.owned_set hctx hheaps hy
  · intro y cy hy
    have hcons := countP_context_cons (s := s) (b := b) (x := y)
    refine le_trans (le_of_eq hcons) ?_
    cases setContext_cases hy with
    | inl heq =>
      have hle := h.counted x ctx hctx
      rw [heq.1, heq.2, hcount, if_pos hc]
      omega
    | inr hold =>
      have hne : s.contextOf b ≠ some y := by
        rw [hc]
        exact fun heq => hold.1 (Option.some.inj heq).symm
      have hle := h.counted y cy hold.2
      rw [if_neg hne]
      exact hle
  · intro y cy hy
    cases setContext_cases hy with
    | inl heq =>
      rw [heq.2]
      exact hhomed
    | inr hold => exact h.homed y cy hold.2
  · intro y cy hy k p
    have hin (d : BmBuf) : Bm.inTable { s.setContext x (some ctx') with bufs := b :: s.bufs } y d ↔
        s.inTable y d := Iff.rfl
    cases setContext_cases hy with
    | inl heq =>
      rw [heq.1] at hin ⊢
      rw [heq.2, hentries, h.entries x ctx hctx]
      constructor
      · rintro (⟨hh, hk, hp⟩ | ⟨d, hd, ht, hrest⟩)
        · exact ⟨b, List.mem_cons_self, ⟨hc, hh⟩, hk.symm, hp.symm⟩
        · exact ⟨d, List.mem_cons_of_mem _ hd, ht, hrest⟩
      · rintro ⟨d, hd, ht, hk, hp⟩
        cases List.mem_cons.mp hd with
        | inl hdb =>
          rw [hdb] at ht hk hp
          exact .inl ⟨ht.2, hk.symm, hp.symm⟩
        | inr hd => exact .inr ⟨d, hd, ht, hk, hp⟩
    | inr hold =>
      rw [h.entries y cy hold.2]
      constructor
      · rintro ⟨d, hd, hrest⟩
        exact ⟨d, List.mem_cons_of_mem _ hd, hrest⟩
      · rintro ⟨d, hd, ht, hrest⟩
        cases List.mem_cons.mp hd with
        | inl hdb =>
          have hty : s.contextOf b = some y := by
            rw [← hdb]
            exact ht.1
          rw [hc] at hty
          exact absurd (Option.some.inj hty).symm hold.1
        | inr hd => exact ⟨d, hd, ht, hrest⟩

theorem HashInv.destroy (h : HashInv s) (hctx : s.contexts x = some ctx)
    (hnone : ∀ d ∈ s.bufs, s.contextOf d ≠ some x) :
    HashInv (bmDestroyContextCallBack s x ctx) := by
  have hof (d : BmBuf) (hd : d ∈ s.bufs) :
      (bmDestroyContextCallBack s x ctx).contextOf d = s.contextOf d := by
    obtain ⟨y, cy, hdy, -⟩ := h.based d hd
    rw [hdy]
    unfold Bm.contextOf at hdy ⊢
    obtain ⟨m, hm, hdy⟩ := Option.bind_eq_some_iff.mp hdy
    obtain ⟨heap, hheap, hy⟩ := Option.bind_eq_some_iff.mp hdy
    have hleft : m.heap ∉ ctx.heaps := fun hin => by
      refine hnone d hd (contextOf_eq hm hheap ▸ ?_)
      rw [h.owned x ctx hctx _ hin heap hheap]
    have hheap' : (bmDestroyContextCallBack s x ctx).heaps m.heap = some heap :=
      (if_neg hleft).trans hheap
    change ((bmDestroyContextCallBack s x ctx).mappings d.mapping).bind _ = some y
    have hm' : (bmDestroyContextCallBack s x ctx).mappings d.mapping = some m := hm
    rw [hm', Option.bind_some]
    change ((bmDestroyContextCallBack s x ctx).heaps m.heap).bind _ = some y
    rw [hheap', Option.bind_some]
    exact hy
  have hold (y : ℕ) (cy : BmContext)
      (hy : (bmDestroyContextCallBack s x ctx).contexts y = some cy) :
      y ≠ x ∧ s.contexts y = some cy := by
    unfold bmDestroyContextCallBack at hy
    dsimp only at hy
    by_cases hyx : y = x
    · rw [hyx, Function.update_self] at hy
      cases hy
    · rw [Function.update_of_ne hyx] at hy
      exact ⟨hyx, hy⟩
  constructor
  · exact h.nodup
  · exact h.pos
  · exact h.placed
  · intro d hd
    obtain ⟨y, cy, hdy, hy⟩ := h.based d hd
    have hyx : y ≠ x := fun hyx => hnone d hd (by rw [hdy, hyx])
    exact ⟨y, cy, (hof d hd).trans hdy, (Function.update_of_ne hyx _ _).trans hy⟩
  · exact h.apart
  · intro y cy hy g hg heap hheap
    refine h.owned y cy (hold y cy hy).2 g hg heap ?_
    unfold bmDestroyContextCallBack at hheap
    dsimp only at hheap
    split at hheap
    · cases hheap
    · exact hheap
  · intro y cy hy
    refine le_trans (le_of_eq ?_) (h.counted y cy (hold y cy hy).2)
    exact List.countP_congr fun d hd => by rw [hof d hd]
  · intro y cy hy
    exact h.homed y cy (hold y cy hy).2
  · intro y cy hy k p
    rw [h.entries y cy (hold y cy hy).2]
    have hin (d : BmBuf) (hd : d ∈ s.bufs) :
        (bmDestroyContextCallBack s x ctx).inTable y d ↔ s.inTable y d := by
      unfold Bm.inTable
      rw [hof d hd]
      rfl
    constructor
    · rintro ⟨d, hd, ht, hrest⟩
      exact ⟨d, hd, (hin d hd).mpr ht, hrest⟩
    · rintro ⟨d, hd, ht, hrest⟩
      exact ⟨d, hd, (hin d hd).mp ht, hrest⟩

theorem HashInv.drop (h : HashInv s) {ctx' : BmContext} (hb : b ∈ s.bufs)
    (hc : s.contextOf b = some x) (hctx : s.contexts x = some ctx) (hh : s'.heaps = s.heaps)
    (hm : ∀ q, q ≠ b.mapping → s'.mappings q = s.mappings q)
    (hbufs : s'.bufs = s.bufs.filter fun d => d.ptr ≠ b.ptr)
    (hctxs : s'.contexts = (s.setContext x (some ctx')).contexts) (hheaps : ctx'.heaps = ctx.heaps)
    (hcount : ctx'.refCount = ctx.refCount) (hhomed : Homed hashAddress ctx'.bufferHash)
    (hentries : ∀ k p, (k, p) ∈ ctx'.bufferHash.entries ↔
      (k, p) ∈ ctx.bufferHash.entries ∧ p ≠ b.ptr) :
    HashInv s' ∧ (s'.bufs.countP fun d => s'.contextOf d = some x) + 1 ≤ ctx.refCount := by
  have hmem (d : BmBuf) : d ∈ s'.bufs ↔ d ∈ s.bufs ∧ d.ptr ≠ b.ptr := by
    rw [hbufs, List.mem_filter, decide_eq_true_eq]
  have hmap (d : BmBuf) (hd : d ∈ s'.bufs) : s'.mappings d.mapping = s.mappings d.mapping := by
    obtain ⟨hd, hne⟩ := (hmem d).mp hd
    exact hm _ fun heq => hne (h.apart d hd b hb heq)
  have hof (d : BmBuf) (hd : d ∈ s'.bufs) : s'.contextOf d = s.contextOf d :=
    contextOf_congr (hmap d hd) hh
  have hle (y : ℕ) : (s'.bufs.countP fun d => s'.contextOf d = some y) +
      (if s.contextOf b = some y then 1 else 0) ≤ s.bufs.countP fun d => s.contextOf d = some y := by
    have hsplit := countP_dropKey h.nodup hb
      fun d : BmBuf => decide (s.contextOf d = some y)
    have heq : dropKey BmBuf.ptr s.bufs b.ptr = s'.bufs := hbufs.symm
    have hcongr : (s'.bufs.countP fun d => s'.contextOf d = some y) =
        s'.bufs.countP fun d => s.contextOf d = some y :=
      List.countP_congr fun d hd => by rw [hof d hd]
    rw [heq] at hsplit
    simp only [decide_eq_true_eq] at hsplit
    rw [hcongr, hsplit]
  have hcases (y : ℕ) (cy : BmContext) (hy : s'.contexts y = some cy) :
      (y = x ∧ cy = ctx') ∨ (y ≠ x ∧ s.contexts y = some cy) := by
    rw [hctxs] at hy
    exact setContext_cases hy
  have hlast : (s'.bufs.countP fun d => s'.contextOf d = some x) + 1 ≤ ctx.refCount := by
    have hx := hle x
    rw [if_pos hc] at hx
    exact le_trans hx (h.counted x ctx hctx)
  refine ⟨?_, hlast⟩
  constructor
  · rw [hbufs]
    exact dropKey_nodup h.nodup b.ptr
  · intro d hd
    exact h.pos d ((hmem d).mp hd).1
  · intro d hd
    rw [hmap d hd]
    exact h.placed d ((hmem d).mp hd).1
  · intro d hd
    obtain ⟨y, cy, hdy, hy⟩ := h.based d ((hmem d).mp hd).1
    rw [hof d hd, hctxs]
    by_cases hyx : y = x
    · rw [hyx] at hdy
      exact ⟨x, ctx', hdy, Function.update_self _ _ _⟩
    · exact ⟨y, cy, hdy, (Function.update_of_ne hyx _ _).trans hy⟩
  · intro d hd e he
    exact h.apart d ((hmem d).mp hd).1 e ((hmem e).mp he).1
  · intro y cy hy g hg heap hheap
    rw [hh] at hheap
    rw [hctxs] at hy
    exact h.owned_set hctx hheaps hy g hg heap hheap
  · intro y cy hy
    cases hcases y cy hy with
    | inl heq =>
      rw [heq.1, heq.2, hcount]
      omega
    | inr hold =>
      have hy' := hle y
      have hold' := h.counted y cy hold.2
      omega
  · intro y cy hy
    cases hcases y cy hy with
    | inl heq =>
      rw [heq.2]
      exact hhomed
    | inr hold => exact h.homed y cy hold.2
  · have hin (y : ℕ) (d : BmBuf) (hd : d ∈ s'.bufs) : s'.inTable y d ↔ s.inTable y d :=
      inTable_congr (hmap d hd) hh
    have hback (y k p : ℕ) : (∃ d ∈ s'.bufs, s'.inTable y d ∧ d.cpuPAddr = k ∧ d.ptr = p) ↔
        (∃ d ∈ s.bufs, s.inTable y d ∧ d.cpuPAddr = k ∧ d.ptr = p) ∧ p ≠ b.ptr := by
      constructor
      · rintro ⟨d, hd, ht, hk, hp⟩
        refine ⟨⟨d, ((hmem d).mp hd).1, (hin y d hd).mp ht, hk, hp⟩, ?_⟩
        rw [← hp]
        exact ((hmem d).mp hd).2
      · rintro ⟨⟨d, hd, ht, hk, hp⟩, hne⟩
        have hd' : d ∈ s'.bufs := (hmem d).mpr ⟨hd, by rw [hp]; exact hne⟩
        exact ⟨d, hd', (hin y d hd').mpr ht, hk, hp⟩
    intro y cy hy k p
    rw [hback]
    cases hcases y cy hy with
    | inl heq => rw [heq.1, heq.2, hentries, h.entries x ctx hctx]
    | inr hold =>
      rw [h.entries y cy hold.2]
      refine ⟨fun hex => ⟨hex, ?_⟩, fun hex => hex.1⟩
      obtain ⟨d, hd, ht, -, hp⟩ := hex
      rintro hpb
      have hdb : d = b := ptr_inj h.nodup hd hb (by rw [hp, hpb])
      have hty := ht.1
      rw [hdb, hc] at hty
      exact hold.1 (Option.some.inj hty).symm

theorem HashInv.putCtx (h : HashInv s) (hctx : s.contexts x = some ctx)
    (hcount : (s.bufs.countP fun d => s.contextOf d = some x) + 1 ≤ ctx.refCount)
    (hs : pvrPutCtx s x = some s') : HashInv s' := by
  unfold pvrPutCtx at hs
  simp only [hctx, Option.bind_eq_bind, Option.bind_some] at hs
  split at hs
  · cases hs
  · rename_i hone
    unfold bmDestroyContext at hs
    split at hs
    · rw [← Option.some.inj hs]
      refine h.destroy hctx fun d hd hdx => ?_
      have hpos : 0 < s.bufs.countP fun d => s.contextOf d = some x :=
        List.countP_pos_iff.mpr ⟨d, hd, by simpa using hdx⟩
      omega
    · cases hs
  · rename_i n hn
    rw [← Option.some.inj hs]
    refine h.setContext hctx rfl ?_ (h.homed x ctx hctx) (h.entries x ctx hctx)
    dsimp only
    omega

/-- A freed buffer is out of its table and its mapping before its context loses a reference. -/
theorem bmFreeLast_parts (h : HashInv s) (hb : b ∈ s.bufs) (hs : bmFreeLast s b flags = some s') :
    ∃ x ctx table mem s₁, s.contextOf b = some x ∧ s.contexts x = some ctx ∧
      (if s.hashed b then
        table = (hashRemoveExtended hashAddress mem ctx.bufferHash b.cpuPAddr).2.1
      else table = ctx.bufferHash) ∧
      s₁.heaps = s.heaps ∧ (∀ q, q ≠ b.mapping → s₁.mappings q = s.mappings q) ∧
      (s₁.bufs = s.bufs.filter fun d => d.ptr ≠ b.ptr) ∧
      s₁.contexts = (s.setContext x (some { ctx with bufferHash := table })).contexts ∧
      pvrPutCtx s₁ x = some s' := by
  obtain ⟨m, hm, ha⟩ := h.placed b hb
  obtain ⟨x, ctx, hc, hctx⟩ := h.based b hb
  unfold bmFreeLast at hs
  simp only [hm, Option.bind_eq_bind, Option.bind_some] at hs
  obtain ⟨heap, hheap, hs⟩ := Option.bind_eq_some_iff.mp hs
  have hx : heap.context = x := by
    rw [contextOf_eq hm hheap] at hc
    exact Option.some.inj hc
  obtain ⟨s₂, hremove, hs⟩ := Option.bind_eq_some_iff.mp hs
  obtain ⟨s₃, hfree, hs⟩ := Option.bind_eq_some_iff.mp hs
  have hhashed : s.hashed b = m.origin.hashed := by
    unfold Bm.hashed
    rw [hm, Option.any_some]
  rw [hx] at hremove hs
  unfold wrapRemove at hremove
  simp only [hctx, Option.bind_eq_bind, Option.bind_some] at hremove
  cases horigin : m.origin.hashed with
  | true =>
    rw [if_pos horigin] at hremove
    rw [← Option.some.inj hremove] at hfree
    obtain ⟨hsame, hmaps⟩ := freeBuf_same (m := m) (by exact hm) ha hfree
    refine ⟨x, ctx, _, s.mem, { s₃ with bufs := s₃.bufs.filter fun d => d.ptr ≠ b.ptr }, hc, hctx,
      ?_, hsame.heaps, hmaps, ?_, hsame.contexts, hs⟩
    · rw [hhashed, horigin]
      rfl
    · dsimp only
      rw [hsame.bufs]
      rfl
  | false =>
    rw [if_neg (by rw [horigin]; decide)] at hremove
    rw [← Option.some.inj hremove] at hfree
    obtain ⟨hsame, hmaps⟩ := freeBuf_same hm ha hfree
    refine ⟨x, ctx, ctx.bufferHash, s.mem, { s₃ with bufs := s₃.bufs.filter fun d => d.ptr ≠ b.ptr },
      hc, hctx, ?_, hsame.heaps, hmaps, ?_, ?_, hs⟩
    · rw [hhashed, horigin]
      rfl
    · dsimp only
      rw [hsame.bufs]
    · dsimp only
      rw [hsame.contexts]
      exact (Function.update_eq_self_iff.mpr hctx.symm).symm

theorem HashInv.remove_entries (h : HashInv s) (hb : b ∈ s.bufs)
    (hctx : s.contexts x = some ctx) {mem : Os}
    (hfirst : hashRetrieveExtended hashAddress ctx.bufferHash b.cpuPAddr = b.ptr) :
    Homed hashAddress (hashRemoveExtended hashAddress mem ctx.bufferHash b.cpuPAddr).2.1 ∧
      ∀ k p, (k, p) ∈
          (hashRemoveExtended hashAddress mem ctx.bufferHash b.cpuPAddr).2.1.entries ↔
        (k, p) ∈ ctx.bufferHash.entries ∧ p ≠ b.ptr := by
  have hv : (hashRemoveExtended hashAddress mem ctx.bufferHash b.cpuPAddr).1 =
      hashRetrieveExtended hashAddress ctx.bufferHash b.cpuPAddr :=
    hashRemoveExtended_fst mem ctx.bufferHash b.cpuPAddr
  cases hr : hashRemoveExtended hashAddress mem ctx.bufferHash b.cpuPAddr with
  | mk v rest =>
    rw [hr, hfirst] at hv
    dsimp only at hv
    obtain ⟨-, hhomed, hcase⟩ := (h.homed x ctx hctx).remove hr
    refine ⟨hhomed, fun k p => ?_⟩
    obtain ⟨h0, -⟩ | ⟨-, hmem⟩ := hcase
    · exact absurd (hv.symm.trans h0) (h.pos b hb)
    · rw [hmem, hv]
      refine and_congr_right fun hkp => ?_
      rw [not_iff_not, Prod.mk.injEq]
      refine ⟨fun heq => heq.2, fun hp => ⟨?_, hp⟩⟩
      obtain ⟨d, hd, -, hk, hdp⟩ := (h.entries x ctx hctx k p).mp hkp
      have hdb : d = b := ptr_inj h.nodup hd hb (by rw [hdp, hp])
      rw [← hk, hdb]

theorem HashInv.freeLast (h : HashInv s) (hb : b ∈ s.bufs)
    (hfirst : ∀ x, s.inTable x b → ∀ ctx, s.contexts x = some ctx →
      hashRetrieveExtended hashAddress ctx.bufferHash b.cpuPAddr = b.ptr)
    (hs : bmFreeLast s b flags = some s') : HashInv s' := by
  obtain ⟨x, ctx, table, mem, s₁, hc, hctx, htable, hheaps, hmaps, hbufs, hctxs, hput⟩ :=
    bmFreeLast_parts h hb hs
  have htab : Homed hashAddress table ∧ ∀ k p, (k, p) ∈ table.entries ↔
      (k, p) ∈ ctx.bufferHash.entries ∧ p ≠ b.ptr := by
    cases hhash : s.hashed b with
    | true =>
      rw [hhash, if_pos rfl] at htable
      rw [htable]
      exact h.remove_entries hb hctx (hfirst x ⟨hc, hhash⟩ ctx hctx)
    | false =>
      rw [hhash, if_neg (by decide)] at htable
      rw [htable]
      refine ⟨h.homed x ctx hctx, fun k p => ⟨fun hkp => ⟨hkp, ?_⟩, fun hkp => hkp.1⟩⟩
      rintro hp
      obtain ⟨d, hd, ht, -, hdp⟩ := (h.entries x ctx hctx k p).mp hkp
      have hdb : d = b := ptr_inj h.nodup hd hb (by rw [hdp, hp])
      rw [hdb] at ht
      rw [ht.2] at hhash
      cases hhash
  obtain ⟨hinv, hcount⟩ := h.drop hb hc hctx hheaps hmaps hbufs hctxs rfl rfl htab.1 htab.2
  have hctx₁ : s₁.contexts x = some { ctx with bufferHash := table } := by
    rw [hctxs]
    exact Function.update_self _ _ _
  exact hinv.putCtx hctx₁ hcount hput

/-- The entry of another buffer goes instead, and the one of the freed buffer stays. -/
theorem HashInv.not_sound (h : HashInv s) (hb : b ∈ s.bufs) (ht : s.inTable x b)
    (hctx : s.contexts x = some ctx)
    (hother : hashRetrieveExtended hashAddress ctx.bufferHash b.cpuPAddr ≠ b.ptr)
    (hs : bmFreeLast s b flags = some s') : ¬HashSound s' := by
  obtain ⟨y, cy, table, mem, s₁, hc, hcy, htable, hheaps, hmaps, hbufs, hctxs, hput⟩ :=
    bmFreeLast_parts h hb hs
  have hyx : y = x := Option.some.inj (hc.symm.trans ht.1)
  rw [hyx] at hc hcy hctxs hput
  have hcx : cy = ctx := Option.some.inj (hcy.symm.trans hctx)
  rw [hcx] at htable hctxs
  rw [ht.2, if_pos rfl] at htable
  have hentry : (b.cpuPAddr, b.ptr) ∈ ctx.bufferHash.entries :=
    (h.entries x ctx hctx _ _).mpr ⟨b, hb, ht, rfl, rfl⟩
  -- another buffer lies under the same key
  have hv : (hashRemoveExtended hashAddress mem ctx.bufferHash b.cpuPAddr).1 =
      hashRetrieveExtended hashAddress ctx.bufferHash b.cpuPAddr :=
    hashRemoveExtended_fst mem ctx.bufferHash b.cpuPAddr
  have hleft : (b.cpuPAddr, b.ptr) ∈ table.entries ∧
      ∃ d ∈ s.bufs, d.ptr ≠ b.ptr ∧ s.contextOf d = some x := by
    rw [htable]
    cases hr : hashRemoveExtended hashAddress mem ctx.bufferHash b.cpuPAddr with
    | mk v rest =>
      rw [hr] at hv
      obtain ⟨-, -, hcase⟩ := (h.homed x ctx hctx).remove hr
      obtain ⟨-, hnone, -⟩ | ⟨hmem, hiff⟩ := hcase
      · exact absurd hentry (hnone b.ptr)
      · have hvb : v ≠ b.ptr := by
          rw [show v = _ from hv]
          exact hother
        obtain ⟨d, hd, htd, -, hdp⟩ := (h.entries x ctx hctx _ _).mp hmem
        refine ⟨(hiff _).mpr ⟨hentry, fun heq => hvb (Prod.mk.inj heq).2.symm⟩, d, hd, ?_, htd.1⟩
        rw [hdp]
        exact hvb
  obtain ⟨hstale, d, hd, hdb, hdx⟩ := hleft
  -- so the context lives on
  have htwo : 2 ≤ ctx.refCount := by
    have hcount := h.counted x ctx hctx
    have hsplit := countP_dropKey h.nodup hb
      fun e : BmBuf => decide (s.contextOf e = some x)
    have hin : d ∈ dropKey BmBuf.ptr s.bufs b.ptr := mem_dropKey.mpr ⟨hd, hdb⟩
    have hpos : 0 < (dropKey BmBuf.ptr s.bufs b.ptr).countP
        fun e => decide (s.contextOf e = some x) :=
      List.countP_pos_iff.mpr ⟨d, hin, by simpa using hdx⟩
    simp only [decide_eq_true_eq, if_pos hc] at hsplit
    omega
  have hctx₁ : s₁.contexts x = some { ctx with bufferHash := table } := by
    rw [hctxs]
    exact Function.update_self _ _ _
  unfold pvrPutCtx at hput
  simp only [hctx₁, Option.bind_eq_bind, Option.bind_some] at hput
  intro hsound
  split at hput
  · rename_i h0
    omega
  · rename_i h1
    omega
  · rw [← Option.some.inj hput] at hsound
    obtain ⟨e, he, -, -, hp⟩ :=
      (hsound.entries x _ (Function.update_self _ _ _) b.cpuPAddr b.ptr).mp hstale
    have he : e ∈ s₁.bufs := he
    rw [hbufs, List.mem_filter, decide_eq_true_eq] at he
    exact he.2 hp

theorem HashInv.entered (h : HashInv s) {t : Bm} {table : Table ℕ} {r : Option (ℕ × ℕ)}
    (hctx : s.contexts x = some ctx) (hs : wrapEntered t x flags b = some (r, s'))
    (h0 : b.ptr ≠ 0) (hptr : ∀ d ∈ s.bufs, d.ptr ≠ b.ptr)
    (hm : ∃ m, s.mappings b.mapping = some m ∧ m.arena = none)
    (hmap : ∀ d ∈ s.bufs, d.mapping ≠ b.mapping) (hc : s.contextOf b = some x)
    (hheaps : t.heaps = s.heaps) (hbufs : t.bufs = s.bufs) (hmaps : t.mappings = s.mappings)
    (hctxs : t.contexts = (s.setContext x (some { ctx with bufferHash := table })).contexts)
    (hhomed : Homed hashAddress table)
    (hentries : ∀ k p, (k, p) ∈ table.entries ↔
      (s.hashed b = true ∧ k = b.cpuPAddr ∧ p = b.ptr) ∨ (k, p) ∈ ctx.bufferHash.entries) :
    HashInv s' := by
  have hx : t.contexts x = some { ctx with bufferHash := table } := by
    rw [hctxs]
    exact Function.update_self _ _ _
  unfold wrapEntered pvrGetCtx at hs
  simp only [hx, Option.bind_eq_bind, Option.bind_some, Option.some.injEq, Prod.mk.injEq] at hs
  have hadd : HashInv { s.setContext x (some ⟨ctx.heaps, table, ctx.refCount + 1⟩) with
      bufs := b :: s.bufs } :=
    h.add hctx h0 hptr hm hmap hc rfl rfl hhomed hentries
  rw [← hs.2]
  refine hadd.of_same ⟨hheaps, ?_, ?_⟩ fun q m hq => ?_
  · change Function.update t.contexts x _ = Function.update s.contexts x _
    rw [hctxs]
    exact Function.update_idem _ _ _
  · change b :: t.bufs = b :: s.bufs
    rw [hbufs]
  · change t.mappings q = some m
    rw [hmaps]
    exact hq

theorem hashAddress_of_hashed (c : WrapCall) (h : c.origin.hashed = true) :
    u32 (c.cpuPAddr + c.offset) = c.hashAddress := by
  unfold WrapCall.hashAddress WrapCall.cpuPAddr
  cases hc : c.physContig with
  | true => rw [if_pos rfl]
  | false =>
    unfold WrapCall.origin at h
    rw [hc] at h
    split at h <;> simp [Origin.hashed] at h

theorem HashInv.wrapNew (h : HashInv s) {r : Option (ℕ × ℕ)} (hheap : s.heaps c.heap = some heap)
    (hctx : s.contexts heap.context = some ctx)
    (hs : wrapNew s c heap.context flags = some (r, s')) : HashInv s' := by
  unfold BufferManager.wrapNew at hs
  split at hs
  · rw [Option.some.injEq, Prod.mk.injEq] at hs
    rw [← hs.2]
    exact h
  · rename_i p hp
    split at hs
    · cases hs
    · rename_i hfresh
      obtain ⟨hp0, hfind⟩ := not_or.mp hfresh
      obtain ⟨⟨r₁, s₁⟩, hwrap, hs⟩ := Option.bind_eq_some_iff.mp hs
      have hw := wrapMemory_wraps hwrap
      have hinv : HashInv s₁ := h.of_same hw.same hw.kept
      cases r₁ with
      | none =>
        rw [Option.some.injEq, Prod.mk.injEq] at hs
        rw [← hs.2]
        exact hinv
      | some b =>
        obtain ⟨hbp, hnone, hkey, m, hm, harena, hmheap, horigin⟩ := hw.new b rfl
        have hheap₁ : s₁.heaps m.heap = some heap := by
          rw [hw.same.heaps, hmheap]
          exact hheap
        have hctx₁ : s₁.contexts heap.context = some ctx := by
          rw [hw.same.contexts]
          exact hctx
        have hc : s₁.contextOf b = some heap.context := contextOf_eq hm hheap₁
        have hhashed : s₁.hashed b = c.origin.hashed := by
          unfold Bm.hashed
          rw [hm, Option.any_some, horigin]
        have h0 : b.ptr ≠ 0 := by
          rw [hbp]
          exact hp0
        have hptr : ∀ d ∈ s₁.bufs, d.ptr ≠ b.ptr := by
          rw [hw.same.bufs, hbp]
          exact not_mem_of_findBuf (Bool.eq_false_iff.mpr hfind)
        have hmap : ∀ d ∈ s₁.bufs, d.mapping ≠ b.mapping := by
          rw [hw.same.bufs]
          intro d hd heq
          obtain ⟨md, hmd, -⟩ := h.placed d hd
          rw [heq, hnone] at hmd
          cases hmd
        dsimp only at hs
        unfold wrapInsert at hs
        simp only [hm, hctx₁, Option.bind_eq_bind, Option.bind_some, horigin] at hs
        split at hs
        · rename_i hhash
          have hfresh : (c.hashAddress, b.ptr) ∉ ctx.bufferHash.entries := by
            intro hmem
            obtain ⟨d, hd, -, -, hdp⟩ := (hinv.entries _ ctx hctx₁ _ _).mp hmem
            exact hptr d hd hdp
          have hhomed := hinv.homed _ ctx hctx₁
          split at hs
          · rename_i table mem hins
            obtain ⟨-, -, hkept, -⟩ := hhomed.insert hfresh hins
            obtain ⟨hsame, hmaps⟩ : Same s s' ∧ ∀ q, q ≠ b.mapping →
                s'.mappings q = s₁.mappings q := by
              obtain ⟨s₂, hfree, hs⟩ := Option.map_eq_some_iff.mp hs
              rw [Prod.mk.injEq] at hs
              obtain ⟨hsame, hmaps⟩ := freeBuf_same (m := m) (by exact hm) harena hfree
              rw [← hs.2]
              refine ⟨⟨hsame.heaps.trans hw.same.heaps, ?_, hsame.bufs.trans hw.same.bufs⟩, hmaps⟩
              rw [hsame.contexts, ← hw.same.contexts, (hkept rfl).1]
              exact Function.update_eq_self_iff.mpr hctx₁.symm
            refine h.of_same hsame fun q m hq => ?_
            have hne : q ≠ b.mapping := by
              intro heq
              rw [heq, hnone] at hq
              cases hq
            rw [hmaps q hne]
            exact hw.kept q m hq
          · rename_i table mem hins
            obtain ⟨hhomed', hentries⟩ := (hhomed.insert hfresh hins).2.2.2 rfl
            refine hinv.entered hctx₁ hs h0 hptr ⟨m, hm, harena⟩ hmap hc rfl rfl rfl rfl hhomed' ?_
            intro k q
            rw [hentries, Prod.mk.injEq, hhashed, hkey, hashAddress_of_hashed c hhash]
            simp only [hhash, true_and]
        · rename_i hhash
          refine hinv.entered hctx₁ hs h0 hptr ⟨m, hm, harena⟩ hmap hc rfl rfl rfl ?_
            (hinv.homed _ ctx hctx₁) ?_
          · exact (Function.update_eq_self_iff.mpr hctx₁.symm).symm
          · intro k q
            rw [hhashed]
            simp only [hhash, false_and, false_or, Bool.false_eq_true]

theorem HashInv.wrap (h : HashInv s) {r : Option (ℕ × ℕ)} (hs : bmWrap s c = some (r, s')) :
    HashInv s' := by
  unfold bmWrap at hs
  obtain ⟨heap, hheap, hs⟩ := Option.bind_eq_some_iff.mp hs
  obtain ⟨ctx, hctx, hs⟩ := Option.bind_eq_some_iff.mp hs
  obtain ⟨again, -, hs⟩ := Option.bind_eq_some_iff.mp hs
  split at hs
  · unfold wrapAgain at hs
    obtain ⟨b, -, hs⟩ := Option.bind_eq_some_iff.mp hs
    rw [Option.some.injEq, Prod.mk.injEq] at hs
    rw [← hs.2]
    exact h.setRefCount _ _
  · exact h.wrapNew hheap hctx hs

theorem refCounted_mem {n : ℕ} (hb : s.findBuf p = some b) :
    { b with refCount := n } ∈ (s.setRefCount p n).bufs := by
  obtain ⟨hmem, hp⟩ := findBuf_mem hb
  exact mem_setRefCount.mpr ⟨b, hmem, if_pos hp⟩

theorem HashInv.free (h : HashInv s) (hs : bmFree s p flags = some s') :
    (FirstOfKey s p → HashInv s') ∧ (¬FirstOfKey s p → ¬HashSound s') := by
  unfold bmFree at hs
  obtain ⟨b, hb, hs⟩ := Option.bind_eq_some_iff.mp hs
  have hp := (findBuf_mem hb).2
  dsimp only at hs
  split at hs
  · rename_i h0
    have hr := h.setRefCount p (u32Sub b.refCount 1)
    have hmem := refCounted_mem (n := u32Sub b.refCount 1) hb
    refine ⟨fun hfirst => hr.freeLast hmem (fun x ht ctx hctx => ?_) hs, fun hnot hsound => ?_⟩
    · exact (hfirst b hb h0 x ht ctx hctx).trans hp.symm
    · refine hnot fun d hd _ x ht ctx hctx => ?_
      have hdb : d = b := Option.some.inj (hd.symm.trans hb)
      rw [hdb] at ht ⊢
      by_contra hother
      refine hr.not_sound hmem (x := x) ht hctx ?_ hs hsound
      exact fun heq => hother (heq.trans hp)
  · rename_i h0
    rw [← Option.some.inj hs]
    refine ⟨fun _ => h.setRefCount p _, fun hnot => absurd ?_ hnot⟩
    intro d hd hzero
    have hdb : d = b := Option.some.inj (hd.symm.trans hb)
    rw [hdb] at hzero
    exact absurd hzero h0

theorem HashInv.setMemInfo (h : HashInv s) (i : ℕ) (r : Option MemInfo) :
    HashInv (s.setMemInfo i r) :=
  h.of_same ⟨rfl, rfl, rfl⟩ fun _ _ hq => hq

theorem HashInv.wrapMem (h : HashInv s) {r : Except PvrsrvError ℕ}
    (hs : wrapMem s c = some (r, s')) : HashInv s' := by
  unfold BufferManager.wrapMem at hs
  split at hs
  · rw [Option.some.injEq, Prod.mk.injEq] at hs
    rw [← hs.2]
    exact h
  · split at hs
    · cases hs
    · obtain ⟨⟨r₁, s₁⟩, hwrap, hs⟩ := Option.map_eq_some_iff.mp hs
      have hinv := h.wrap hwrap
      rw [← (Prod.mk.inj hs).2]
      cases r₁ with
      | none => exact hinv
      | some r₁ => exact hinv.setMemInfo _ _

/-- A free keeps the tables right exactly if the buffer is found first. -/
theorem HashInv.freeDeviceMem (h : HashInv s) {i : ℕ} (hs : freeDeviceMem s i = some s') :
    (FreesFirst s (.free i) → HashInv s') ∧ (¬FreesFirst s (.free i) → ¬HashSound s') := by
  unfold BufferManager.freeDeviceMem at hs
  obtain ⟨info, hinfo, hs⟩ := Option.bind_eq_some_iff.mp hs
  obtain ⟨s₁, hfree, hs⟩ := Option.bind_eq_some_iff.mp hs
  obtain ⟨hgood, hbad⟩ := h.free hfree
  have hiff : FreesFirst s (.free i) ↔ FirstOfKey s info.hBuffer := by
    refine ⟨fun hall => hall info hinfo, fun hfirst j hj => ?_⟩
    rw [Option.some.inj (hj.symm.trans hinfo)]
    exact hfirst
  rw [← Option.some.inj hs, hiff]
  refine ⟨fun hfirst => (hgood hfirst).setMemInfo _ _, fun hnot hsound => ?_⟩
  exact hbad hnot ⟨hsound.entries, hsound.found⟩

theorem HashInv.step (h : HashInv s) {op : BmOp} {r : BmReply} (hop : WrapOrFree s op)
    (hs : step s op = some (r, s')) :
    (FreesFirst s op → HashInv s') ∧ (¬FreesFirst s op → ¬HashSound s') := by
  cases op with
  | alloc c => cases hop
  | mmap op => cases hop
  | wrap c =>
    obtain ⟨⟨e, s₁⟩, hwrap, hs⟩ := Option.map_eq_some_iff.mp hs
    rw [← (Prod.mk.inj hs).2]
    exact ⟨fun _ => h.wrapMem hwrap, fun hnot => absurd trivial hnot⟩
  | free i =>
    obtain ⟨s₁, hfree, hs⟩ := Option.map_eq_some_iff.mp hs
    rw [← (Prod.mk.inj hs).2]
    exact h.freeDeviceMem hfree

/-- Over any run of wraps and frees the tables know the live buffers in every state exactly if
    each buffer is found first under its address when its last reference is dropped. -/
theorem buffer_hash_iff {t : Bm} {l : List (BmOp × BmReply)} (h₀ : Fresh s)
    (h : Run step WrapOrFree s l t) :
    (∀ l' u, l' <+: l → Run step WrapOrFree s l' u → HashSound u) ↔
      Run step (fun s op => WrapOrFree s op ∧ FreesFirst s op) s l t :=
  h.sound_iff HashInv HashSound h₀.inv (fun _ hI => hI.sound)
    (fun _ _ _ _ hI hop hgood hs => (hI.step hop hs).1 hgood)
    fun _ _ _ _ hI hop hbad hs => (hI.step hop hs).2 hbad

end

def idleArena : Arenas.RaArena where
  quantum := 4096
  importAlloc := true
  backingStoreFree := false
  headFree := fun _ => 0
  headSegment := 0
  tailSegment := 0
  segmentHash := ⟨fun _ => [], 64, 0, 64⟩
  tags := fun _ => ⟨⟨.span, 0, 0, none⟩, 0, 0, 0, 0⟩
  nextTag := 1
  calls := []
  os := ⟨fun _ => true, 3⟩

def sampleBm : Bm where
  os := osInit
  mem := ⟨fun _ => true, 0⟩
  heaps := fun h => if h = 2 then some
    ⟨backingstoreSysmemNoncontig ||| hapUncached ||| hapMultiProcess, 1, 4096, idleArena⟩ else none
  contexts := fun c => if c = 1 then some ⟨[2], ⟨fun _ => [], 32, 0, 32⟩, 1⟩ else none
  mappings := fun _ => none
  bufs := []
  memInfos := fun _ => none

def sampleWrap (size p : ℕ) : WrapCall where
  heap := 2
  size := size
  offset := 0
  physContig := true
  sysAddr := [2147483648]
  cpuVAddr := 0
  memInfo := some p
  buf := some (p + 1)
  mapping := some (p + 2)
  grant := some ⟨p + 3, 3221225472, []⟩
  devVAddr := some 8192
  sub := none
  zeroed := false

theorem sampleBm_fresh : Fresh sampleBm where
  bufs := rfl
  owned := by
    intro x ctx hctx h hin heap hheap
    unfold sampleBm at hctx hheap
    dsimp only at hctx hheap
    split at hctx
    · rename_i hx
      split at hheap
      · rw [← Option.some.inj hheap, hx]
      · cases hheap
    · cases hctx
  homed := by
    intro x ctx hctx
    unfold sampleBm at hctx
    dsimp only at hctx
    split at hctx
    · rw [← Option.some.inj hctx]
      constructor <;> simp
    · cases hctx
  empty := by
    intro x ctx hctx
    unfold sampleBm at hctx
    dsimp only at hctx
    split at hctx
    · rw [← Option.some.inj hctx]
      simp [Table.entries]
    · cases hctx

def freesFirst (s : Bm) : BmOp → Bool
  | .wrap _ => true
  | .free i => (s.memInfos i).all fun info => (s.findBuf info.hBuffer).all fun b =>
      u32Sub b.refCount 1 ≠ 0 || (s.contextOf b).all fun x => !s.hashed b ||
        (s.contexts x).all fun ctx =>
          hashRetrieveExtended hashAddress ctx.bufferHash b.cpuPAddr = info.hBuffer
  | _ => false

theorem freesFirst_sound {s : Bm} {op : BmOp} (h : freesFirst s op = true) :
    WrapOrFree s op ∧ FreesFirst s op := by
  cases op with
  | alloc c => cases h
  | mmap op => cases h
  | wrap c => exact ⟨trivial, trivial⟩
  | free i =>
    refine ⟨trivial, fun info hinfo b hb h0 x ht ctx hctx => ?_⟩
    unfold freesFirst at h
    dsimp only at h
    rw [hinfo, Option.all_some, hb, Option.all_some, ht.1, Option.all_some, ht.2, hctx,
      Option.all_some, h0] at h
    simpa using h

def sampleWraps : List BmOp :=
  [.wrap (sampleWrap 4096 100), .wrap (sampleWrap 4000 110), .wrap (sampleWrap 8192 200), .free 200,
    .free 110, .free 100]

theorem buffer_hash_over_sample : ∃ l t, exec step sampleBm sampleWraps = some (l, t) ∧
    HashSound t ∧ t.bufs = [] ∧ (t.contexts 1).map (fun ctx => ctx.bufferHash.entries) = some [] := by
  have hsome : (exec step sampleBm sampleWraps).map (fun r => (r.2.bufs,
      (r.2.contexts 1).map fun ctx => ctx.bufferHash.entries)) = some ([], some []) := by
    decide +kernel
  obtain ⟨⟨l, t⟩, hexec, hlook⟩ := Option.map_eq_some_iff.mp hsome
  have hallowed : Allowed step (fun s op => freesFirst s op = true) sampleBm sampleWraps :=
    allowed_of_allows (by decide +kernel)
  have hgood : Run step (fun s op => WrapOrFree s op ∧ FreesFirst s op) sampleBm l t :=
    (Run.of_allowed hexec hallowed).mono fun _ _ hop => freesFirst_sound hop
  have hrun : Run step WrapOrFree sampleBm l t := hgood.mono fun _ _ hop => hop.1
  simp only [Prod.mk.injEq] at hlook
  exact ⟨l, t, hexec, (buffer_hash_iff sampleBm_fresh hrun).mpr hgood l t (List.prefix_refl l) hrun,
    hlook⟩

/-- A page is wrapped, and two pages from the same address on. When the first buffer is freed, the
    entry of the second one goes, and the entry that stays leads to freed memory. -/
theorem buffer_hash_stale : ¬∀ s l t, Fresh s → Run step WrapOrFree s l t → HashSound t := by
  intro hclaim
  let ops : List BmOp := [.wrap (sampleWrap 4096 100), .wrap (sampleWrap 8192 200), .free 100]
  have hsome : (exec step sampleBm ops).map (fun r => (r.2.bufs.map BmBuf.ptr,
      (r.2.contexts 1).map fun ctx => ctx.bufferHash.entries)) =
      some ([201], some [(2147483648, 101)]) := by decide +kernel
  obtain ⟨⟨l, t⟩, hexec, hlook⟩ := Option.map_eq_some_iff.mp hsome
  have hrun : Run step WrapOrFree sampleBm l t :=
    Run.of_exec hexec fun op hop s => by
      simp only [ops, List.mem_cons, List.not_mem_nil, or_false] at hop
      obtain rfl | rfl | rfl := hop <;> trivial
  simp only [Prod.mk.injEq] at hlook
  obtain ⟨hptrs, hentries⟩ := hlook
  obtain ⟨ctx, hctx, hentries⟩ := Option.map_eq_some_iff.mp hentries
  have hmem : (2147483648, 101) ∈ ctx.bufferHash.entries := by
    rw [hentries]
    exact List.mem_cons_self
  obtain ⟨b, hb, -, -, hp⟩ :=
    ((hclaim _ l t sampleBm_fresh hrun).entries 1 ctx hctx 2147483648 101).mp hmem
  have hptr := List.mem_map_of_mem (f := BmBuf.ptr) hb
  rw [hptrs, hp] at hptr
  simp at hptr

end PvrServices.BufferManager
