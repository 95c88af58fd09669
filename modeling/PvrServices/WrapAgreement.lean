import PvrServices.BufferManagerHash
import PvrServices.WrapMemory

set_option autoImplicit false

/-!
# Two models of wrapping

`BM_Wrap` over the areas that processes map, and `BM_Wrap` over the blocks and device addresses.
Where both come to an end they answer the same buffer, or none.
-/
namespace PvrServices.Wraps
open Words Mmaps OsAreas BufferStore HashTable
open BufferManager (Bm BmBuf BmMapping cpuVAddrAt zeroBuf)

/-- The call of the other model; `inserted` is the answer of `HASH_Insert`. -/
def ofBm (d : BufferManager.WrapCall) (inserted : Bool) : WrapCall :=
  ⟨d.size, d.offset, d.physContig, d.sysAddr, d.cpuVAddr, some 0, d.buf, d.mapping,
    d.grant.map Grant.area, d.grant.elim 0 Grant.cpuVAddr, d.devVAddr, d.sub, d.zeroed, inserted⟩

/-- `WrapMemory` has all that it asks for. -/
structure Backed (c : WrapCall) (flags : ℕ) : Prop where
  mapping : c.mapping ≠ none
  placed : Placed c flags
  finishes : Finishes c flags

section
variable {s t : Store} {c : WrapCall} {flags p q : ℕ} {m : Mapping} {ok : Bool}

theorem wrapFail_false (hr : wrapFail s flags q m = some (ok, t)) : ok = false := by
  unfold wrapFail at hr
  obtain ⟨u, -, hr⟩ := Option.bind_eq_some_iff.mp hr
  obtain ⟨v, -, hr⟩ := Option.bind_eq_some_iff.mp hr
  exact (Prod.mk.inj (Option.some.inj hr)).1.symm

theorem wrapZero_true_iff {a : ℕ} (hr : wrapZero s c flags p q m a = some (ok, t)) :
    ok = true ↔ (hasFlag flags memZero = true →
      zeroBuf (cpuVAddrAt m.cpuVAddr c.offset) c.zeroed = true) := by
  unfold wrapZero at hr
  obtain ⟨u, -, hr⟩ := Option.bind_eq_some_iff.mp hr
  dsimp only at hr
  split at hr
  · rename_i hfails
    obtain ⟨hflag, hnot⟩ := Bool.and_eq_true_iff.mp hfails
    rw [← (Prod.mk.inj (Option.some.inj hr)).1]
    refine iff_of_false Bool.false_ne_true fun h => ?_
    rw [h hflag] at hnot
    cases hnot
  · rename_i hzero
    obtain ⟨v, -, hr⟩ := Option.map_eq_some_iff.mp hr
    rw [← (Prod.mk.inj hr).1]
    refine iff_of_true rfl fun hflag => ?_
    rw [hflag, Bool.true_and, Bool.not_eq_true', Bool.not_eq_false] at hzero
    exact hzero

theorem wrapSub_true_iff (hm : m.cpuVAddr = c.mappingVAddr flags (c.area.getD 0))
    (hr : wrapSub s c flags p q m = some (ok, t)) : ok = true ↔ Finishes c flags := by
  unfold wrapSub at hr
  split at hr
  · rename_i hoffset
    rw [wrapZero_true_iff hr, hm]
    exact ⟨fun hzero => ⟨fun h => absurd hoffset h, hzero⟩, fun hfin => hfin.zero⟩
  · rename_i hoffset
    obtain ⟨⟨a, u⟩, hu, hr⟩ := Option.bind_eq_some_iff.mp hr
    obtain ⟨x, hx, heq⟩ := Option.map_eq_some_iff.mp hu
    obtain ⟨rfl, -⟩ := Prod.mk.inj heq
    dsimp only at hr
    cases BlockHeap.Heap.alloc_spec (show s.areas.alloc _ _ c.sub = some (x.1, x.2) from hx) with
    | inl hnone =>
      rw [if_pos hnone.2.1] at hr
      rw [wrapFail_false hr]
      exact iff_of_false Bool.false_ne_true fun hfin => hfin.sub hoffset hnone.1
    | inr hnew =>
      rw [if_neg hnew.2.pos] at hr
      rw [wrapZero_true_iff hr, hm]
      refine ⟨fun hzero => ⟨fun _ => ?_, hzero⟩, fun hfin => hfin.zero⟩
      rw [hnew.1]
      exact Option.some_ne_none _

theorem wrapMemory_true_iff (hr : wrapMemory s c flags p = some (ok, t)) :
    ok = true ↔ Backed c flags := by
  unfold wrapMemory at hr
  obtain ⟨⟨q, u⟩, hu, hr⟩ := Option.bind_eq_some_iff.mp hr
  dsimp only at hr
  cases (Store.allocMapping_spec hu).2 with
  | inl hnone =>
    rw [if_pos hnone.2.1] at hr
    rw [← (Prod.mk.inj (Option.some.inj hr)).1]
    exact iff_of_false Bool.false_ne_true fun h => h.mapping hnone.1
  | inr hnew =>
    rw [if_neg hnew.2.pos] at hr
    obtain ⟨⟨a, v⟩, hv, hr⟩ := Option.bind_eq_some_iff.mp hr
    dsimp only at hr
    cases (makeArea_spec hv).2 with
    | inl hnone =>
      obtain ⟨ha, -, hwhy⟩ := hnone
      rw [if_pos ha] at hr
      rw [wrapFail_false hr]
      refine iff_of_false Bool.false_ne_true fun h => ?_
      exact hwhy.elim h.placed.known h.placed.area
    | inr harea =>
      obtain ⟨hgrant, hknown, halloc⟩ := harea
      rw [if_neg halloc.pos] at hr
      unfold wrapDevMem at hr
      obtain ⟨⟨x, w⟩, hw, hr⟩ := Option.bind_eq_some_iff.mp hr
      dsimp only at hr
      cases devMemoryAlloc_spec hw with
      | inl hnone =>
        obtain ⟨hrange, hx, -⟩ := hnone
        rw [hx, if_neg Bool.false_ne_true] at hr
        rw [wrapFail_false hr]
        exact iff_of_false Bool.false_ne_true fun h => h.placed.range hrange
      | inr hplaced =>
        obtain ⟨z, hrange, -, -, -, hx, -⟩ := hplaced
        rw [hx, if_pos rfl] at hr
        rw [wrapSub_true_iff ?_ hr]
        · refine ⟨fun hfin => ⟨?_, ⟨hknown, ?_, ?_⟩, hfin⟩, fun h => h.finishes⟩
          · rw [hnew.1]
            exact Option.some_ne_none _
          · rw [hgrant]
            exact Option.some_ne_none _
          · rw [hrange]
            exact Option.some_ne_none _
        · rw [hgrant, Option.getD_some, devSize_eq]

/-- `BM_Wrap` makes a new buffer. -/
structure Makes (c : WrapCall) (flags : ℕ) : Prop where
  buf : c.buf ≠ none
  backed : Backed c flags
  inserted : c.origin.hashed = true → c.inserted = true

theorem enterBuf_fst (hr : enterBuf s p = some (q, t)) : q = p := by
  unfold enterBuf at hr
  obtain ⟨b, -, hr⟩ := Option.bind_eq_some_iff.mp hr
  obtain ⟨u, -, hr⟩ := Option.bind_eq_some_iff.mp hr
  exact (Prod.mk.inj (Option.some.inj hr)).1.symm

theorem wrapNew_spec (hr : wrapNew s c flags = some (p, t)) :
    (p = 0 ∧ ¬ Makes c flags) ∨ (c.buf = some p ∧ Makes c flags) := by
  unfold wrapNew at hr
  obtain ⟨⟨q, u⟩, hu, hr⟩ := Option.bind_eq_some_iff.mp hr
  obtain ⟨x, hx, heq⟩ := Option.map_eq_some_iff.mp hu
  obtain ⟨rfl, -⟩ := Prod.mk.inj heq
  dsimp only at hr
  cases BlockHeap.Heap.alloc_spec (show s.bufs.alloc _ _ c.buf = some (x.1, x.2) from hx) with
  | inl hnone =>
    rw [if_pos hnone.2.1] at hr
    rw [← (Prod.mk.inj (Option.some.inj hr)).1]
    exact .inl ⟨rfl, fun h => h.buf hnone.1⟩
  | inr hnew =>
    rw [if_neg hnew.2.pos] at hr
    obtain ⟨⟨ok, v⟩, hv, hr⟩ := Option.bind_eq_some_iff.mp hr
    have hbacked := wrapMemory_true_iff hv
    cases ok with
    | false =>
      obtain ⟨w, -, hr⟩ := Option.map_eq_some_iff.mp hr
      rw [← (Prod.mk.inj hr).1]
      exact .inl ⟨rfl, fun h => Bool.false_ne_true (hbacked.mpr h.backed)⟩
    | true =>
      have hmade (hin : c.origin.hashed = true → c.inserted = true) : Makes c flags := by
        refine ⟨?_, hbacked.mp rfl, hin⟩
        rw [hnew.1]
        exact Option.some_ne_none _
      dsimp only at hr
      rw [if_pos rfl] at hr
      unfold wrapInsert at hr
      split at hr
      · split at hr
        · rename_i hinserted
          rw [enterBuf_fst hr]
          exact .inr ⟨hnew.1, hmade fun _ => hinserted⟩
        · rename_i hhashed hrefused
          obtain ⟨w, -, hr⟩ := Option.map_eq_some_iff.mp hr
          rw [← (Prod.mk.inj hr).1]
          exact .inl ⟨rfl, fun h => hrefused (h.inserted hhashed)⟩
      · rename_i hplain
        rw [enterBuf_fst hr]
        exact .inr ⟨hnew.1, hmade fun h => absurd h hplain⟩

end

section
variable {os os' : OsData} {s s' : Bm} {d : BufferManager.WrapCall} {flags p a v : ℕ}
  {e : Except PvrsrvError ℕ}

theorem newLinuxMemArea_area {x : AreaData} {n : ℕ} {cache : CacheType} {parent : Option ℕ}
    (hr : newLinuxMemArea os a x n cache parent = some os') :
    a ≠ 0 ∧ os'.mmap.areas a = some ⟨x, n, cache, false, []⟩ := by
  unfold newLinuxMemArea at hr
  split at hr
  · cases hr
  · rename_i hnew
    rw [← Option.some.inj hr]
    exact ⟨(not_or.mp hnew).1, Function.update_self ..⟩

theorem makeArea_answer {size : ℕ} {noMemory badFlags : PvrsrvError} {data : Grant → AreaData}
    {grant : Option Grant}
    (hr : OsAreas.makeArea os flags size noMemory badFlags data grant = some (e, os')) :
    (∃ x, e = .error x ∧ (mapType flags = .other ∨ grant = none)) ∨
      ∃ g, grant = some g ∧ e = .ok g.area ∧ g.area ≠ 0 ∧ mapType flags ≠ .other := by
  unfold OsAreas.makeArea at hr
  split at hr
  · rename_i hunknown
    rw [← (Prod.mk.inj (Option.some.inj hr)).1]
    refine .inl ⟨_, rfl, .inl ?_⟩
    cases hmap : mapType flags with
    | other => rfl
    | _ =>
      rw [hmap] at hunknown
      cases hunknown
  · rw [← (Prod.mk.inj (Option.some.inj hr)).1]
    exact .inl ⟨_, rfl, .inr rfl⟩
  · rename_i g hknown
    obtain ⟨u, hu, hr⟩ := Option.bind_eq_some_iff.mp hr
    obtain ⟨w, -, hr⟩ := Option.bind_eq_some_iff.mp hr
    rw [← (Prod.mk.inj (Option.some.inj hr)).1]
    refine .inr ⟨g, rfl, rfl, (newLinuxMemArea_area hu).1, fun hother => ?_⟩
    rw [hother] at hknown
    cases hknown

theorem wrapArea_answer (hr : BufferManager.wrapArea os d flags = some (e, os')) :
    (∃ x, e = .error x ∧ (mapType flags = .other ∨ d.grant = none)) ∨
      ∃ g, d.grant = some g ∧ e = .ok g.area ∧ g.area ≠ 0 ∧ mapType flags ≠ .other := by
  unfold BufferManager.wrapArea at hr
  split at hr
  all_goals exact makeArea_answer hr

theorem registerSub_ok {x : LinuxMemArea} (ha : os.mmap.areas a = some x)
    (hx : x.mmapRegistered = false) (hr : registerSub os flags a = some (e, os')) : e = .ok a := by
  unfold registerSub at hr
  split at hr
  · exact (Prod.mk.inj (Option.some.inj hr)).1.symm
  · unfold registerArea pvrMMapRegisterArea at hr
    simp [ha, hx] at hr
    exact hr.1.symm

theorem wrapHandle_answer (hr : BufferManager.wrapHandle os d flags a = some (e, os')) :
    (∃ h, e = .ok h) ↔ (d.offset ≠ 0 → d.sub ≠ none) := by
  unfold BufferManager.wrapHandle at hr
  split at hr
  · rename_i hoffset
    rw [← (Prod.mk.inj (Option.some.inj hr)).1]
    exact iff_of_true ⟨a, rfl⟩ fun h => absurd hoffset h
  · rename_i hoffset
    unfold osGetSubMemHandle at hr
    split at hr
    · rename_i hsub
      rw [← (Prod.mk.inj (Option.some.inj hr)).1]
      exact iff_of_false (fun ⟨h, hh⟩ => by cases hh) fun h => h hoffset hsub
    · rename_i b hsub
      obtain ⟨x, -, hr⟩ := Option.bind_eq_some_iff.mp hr
      obtain ⟨u, hu, hr⟩ := Option.bind_eq_some_iff.mp hr
      refine iff_of_true ⟨b, registerSub_ok (newLinuxMemArea_area hu).2 rfl hr⟩ fun _ => ?_
      rw [hsub]
      exact Option.some_ne_none b

theorem mappingVAddr_ofBm {g : Grant} (inserted : Bool) (flags : ℕ) (hg : d.grant = some g)
    (h0 : g.area ≠ 0) :
    (ofBm d inserted).mappingVAddr flags ((ofBm d inserted).area.getD 0) =
      d.mappingCpuVAddr flags := by
  have hvaddr : areaCpuVAddr flags g.area g.cpuVAddr = allocPagesCpuVAddr flags g := by
    unfold areaCpuVAddr allocPagesCpuVAddr
    simp [h0]
  change (if d.origin = .wrapped then areaCpuVAddr flags ((d.grant.map Grant.area).getD 0)
    (d.grant.elim 0 Grant.cpuVAddr) else d.cpuVAddr) =
      if d.origin = .wrapped then d.grant.elim 0 (allocPagesCpuVAddr flags) else d.cpuVAddr
  rw [hg]
  exact congrArg (fun x => if d.origin = .wrapped then x else d.cpuVAddr) hvaddr

theorem wrapMapped_isSome_iff {g : Grant} {q : ℕ} {b : Option BmBuf} (inserted : Bool)
    (hg : d.grant = some g) (h0 : g.area ≠ 0)
    (hr : BufferManager.wrapMapped s d flags p q a v = some (b, s')) :
    b.isSome = true ↔ Finishes (ofBm d inserted) flags := by
  unfold BufferManager.wrapMapped at hr
  obtain ⟨⟨h, os⟩, hh, hr⟩ := Option.bind_eq_some_iff.mp hr
  have hsub := wrapHandle_answer hh
  have hvaddr := mappingVAddr_ofBm inserted flags hg h0
  cases h with
  | error x =>
    obtain ⟨w, -, hr⟩ := Option.bind_eq_some_iff.mp hr
    rw [← (Prod.mk.inj (Option.some.inj hr)).1]
    refine iff_of_false Bool.false_ne_true fun hfin => ?_
    obtain ⟨k, hk⟩ := hsub.mpr hfin.sub
    cases hk
  | ok k =>
    have hsub' := hsub.mp ⟨k, rfl⟩
    dsimp only at hr
    split at hr
    · rename_i hfails
      obtain ⟨hflag, hnot⟩ := Bool.and_eq_true_iff.mp hfails
      rw [← (Prod.mk.inj (Option.some.inj hr)).1]
      refine iff_of_false Bool.false_ne_true fun hfin => ?_
      have hzero := hfin.zero hflag
      rw [hvaddr] at hzero
      change zeroBuf (cpuVAddrAt (d.mappingCpuVAddr flags) d.offset) d.zeroed = true at hzero
      rw [hzero] at hnot
      cases hnot
    · rename_i hzero
      rw [← (Prod.mk.inj (Option.some.inj hr)).1]
      refine iff_of_true rfl ⟨hsub', fun hflag => ?_⟩
      rw [hflag, Bool.true_and, Bool.not_eq_true', Bool.not_eq_false] at hzero
      rw [hvaddr]
      exact hzero

theorem bm_wrapMemory_isSome_iff {b : Option BmBuf} (inserted : Bool)
    (hr : BufferManager.wrapMemory s d flags p = some (b, s')) :
    b.isSome = true ↔ Backed (ofBm d inserted) flags := by
  unfold BufferManager.wrapMemory at hr
  split at hr
  · rename_i hnone
    rw [← (Prod.mk.inj (Option.some.inj hr)).1]
    exact iff_of_false Bool.false_ne_true fun h => h.mapping hnone
  · rename_i q hq
    split at hr
    · cases hr
    · obtain ⟨⟨x, os⟩, hx, hr⟩ := Option.bind_eq_some_iff.mp hr
      have hgranted (h : Placed (ofBm d inserted) flags) : d.grant ≠ none := fun hg =>
        h.area (congrArg (Option.map Grant.area) hg)
      cases wrapArea_answer hx with
      | inl hfailed =>
        obtain ⟨y, rfl, hwhy⟩ := hfailed
        obtain ⟨w, -, hr⟩ := Option.bind_eq_some_iff.mp hr
        rw [← (Prod.mk.inj (Option.some.inj hr)).1]
        refine iff_of_false Bool.false_ne_true fun h => ?_
        exact hwhy.elim h.placed.known (hgranted h.placed)
      | inr harea =>
        obtain ⟨g, hg, rfl, h0, hknown⟩ := harea
        cases hv : d.devVAddr with
        | none =>
          rw [hv] at hr
          obtain ⟨w, -, hr⟩ := Option.bind_eq_some_iff.mp hr
          rw [← (Prod.mk.inj (Option.some.inj hr)).1]
          exact iff_of_false Bool.false_ne_true fun h => h.placed.range hv
        | some v =>
          rw [hv] at hr
          rw [wrapMapped_isSome_iff inserted hg h0 hr]
          refine ⟨fun hfin => ⟨?_, ⟨hknown, ?_, ?_⟩, hfin⟩, fun h => h.finishes⟩
          · exact fun h => Option.some_ne_none q (hq.symm.trans h)
          · exact fun h => Option.some_ne_none g (hg.symm.trans (Option.map_eq_none_iff.mp h))
          · exact fun h => Option.some_ne_none v (hv.symm.trans h)

theorem wrapEntered_answer {x : ℕ} {b : BmBuf} {r : Option (ℕ × ℕ)}
    (hr : BufferManager.wrapEntered s x flags b = some (r, s')) : ∃ f, r = some (b.ptr, f) := by
  unfold BufferManager.wrapEntered at hr
  obtain ⟨u, -, hr⟩ := Option.bind_eq_some_iff.mp hr
  exact ⟨_, (Prod.mk.inj (Option.some.inj hr)).1.symm⟩

theorem bm_wrapNew_spec {x : ℕ} {r : Option (ℕ × ℕ)}
    (hr : BufferManager.wrapNew s d x flags = some (r, s')) : ∃ inserted,
      (r = none ∧ ¬ Makes (ofBm d inserted) flags) ∨
        ∃ p f, r = some (p, f) ∧ d.buf = some p ∧ Makes (ofBm d inserted) flags := by
  unfold BufferManager.wrapNew at hr
  split at hr
  · rename_i hnone
    rw [← (Prod.mk.inj (Option.some.inj hr)).1]
    exact ⟨true, .inl ⟨rfl, fun h => h.buf hnone⟩⟩
  · rename_i p hp
    split at hr
    · cases hr
    · obtain ⟨⟨b, u⟩, hu, hr⟩ := Option.bind_eq_some_iff.mp hr
      have hbacked (inserted : Bool) := bm_wrapMemory_isSome_iff inserted hu
      cases b with
      | none =>
        rw [← (Prod.mk.inj (Option.some.inj hr)).1]
        exact ⟨true, .inl ⟨rfl, fun h => Bool.false_ne_true ((hbacked true).mpr h.backed)⟩⟩
      | some b =>
        obtain ⟨hptr, -, -, m, hm, -, -, horigin⟩ := (BufferManager.wrapMemory_wraps hu).new b rfl
        have hmade (inserted : Bool) (hin : d.origin.hashed = true → inserted = true) :
            Makes (ofBm d inserted) flags :=
          ⟨fun h => Option.some_ne_none p (hp.symm.trans h), (hbacked inserted).mp rfl, hin⟩
        unfold BufferManager.wrapInsert at hr
        obtain ⟨m', hm', hr⟩ := Option.bind_eq_some_iff.mp hr
        obtain rfl : m = m' := Option.some.inj (hm.symm.trans hm')
        obtain ⟨ctx, -, hr⟩ := Option.bind_eq_some_iff.mp hr
        rw [horigin] at hr
        split at hr
        · rename_i hhashed
          split at hr
          · obtain ⟨w, -, hr⟩ := Option.map_eq_some_iff.mp hr
            rw [← (Prod.mk.inj hr).1]
            exact ⟨false, .inl ⟨rfl, fun h => Bool.false_ne_true (h.inserted hhashed)⟩⟩
          · obtain ⟨f, rfl⟩ := wrapEntered_answer hr
            exact ⟨true, .inr ⟨b.ptr, f, rfl, hptr ▸ hp, hmade true fun _ => rfl⟩⟩
        · rename_i hplain
          obtain ⟨f, rfl⟩ := wrapEntered_answer hr
          exact ⟨true, .inr ⟨b.ptr, f, rfl, hptr ▸ hp, hmade true fun h => absurd h hplain⟩⟩

/-- What both models look for: the buffer at the address, and whether it is wrapped again. -/
structure Looks (s : Bm) (t : Store) (heap : BmHeap) (d : BufferManager.WrapCall) : Prop where
  attribs : ∀ h, s.heaps d.heap = some h → h.attribs = heap.attribs
  found : ∀ h ctx, s.heaps d.heap = some h → s.contexts h.context = some ctx →
    hashRetrieveExtended BufferManager.hashAddress ctx.bufferHash d.hashAddress =
      t.retrieve d.hashAddress
  again : ∀ p inserted, BufferManager.matchesWrap s d p = matchesWrap t (ofBm d inserted) p

theorem wrapAgain_fst {t u : Store} {q : ℕ} (hr : wrapAgain t p = some (q, u)) : q = p := by
  unfold wrapAgain at hr
  obtain ⟨b, -, hr⟩ := Option.bind_eq_some_iff.mp hr
  obtain ⟨u, -, hr⟩ := Option.bind_eq_some_iff.mp hr
  exact (Prod.mk.inj (Option.some.inj hr)).1.symm

/-- With the same answers the two models of `BM_Wrap` return the same buffer, or both none. -/
theorem bmWrap_agrees {t : Store} {heap : BmHeap} {r : Option (ℕ × ℕ)}
    (hlooks : Looks s t heap d) (hr : BufferManager.bmWrap s d = some (r, s')) : ∃ inserted,
      ∀ q u, bmWrap t heap (ofBm d inserted) = some (q, u) → r.elim 0 Prod.fst = q := by
  unfold BufferManager.bmWrap at hr
  obtain ⟨h, hh, hr⟩ := Option.bind_eq_some_iff.mp hr
  obtain ⟨ctx, hctx, hr⟩ := Option.bind_eq_some_iff.mp hr
  obtain ⟨again, hagain, hr⟩ := Option.bind_eq_some_iff.mp hr
  rw [hlooks.found h ctx hh hctx] at hagain hr
  have hsame (inserted : Bool) (q : ℕ) (u : Store)
      (hq : bmWrap t heap (ofBm d inserted) = some (q, u)) :
      (if again then wrapAgain t (t.retrieve d.hashAddress)
        else wrapNew t (ofBm d inserted) ((ofBm d inserted).uFlags heap)) = some (q, u) := by
    unfold bmWrap at hq
    dsimp only at hq
    rw [← hlooks.again, show (ofBm d inserted).hashAddress = d.hashAddress from rfl, hagain] at hq
    exact hq
  split at hr
  · rename_i htrue
    unfold BufferManager.wrapAgain at hr
    obtain ⟨b, -, hr⟩ := Option.bind_eq_some_iff.mp hr
    rw [← (Prod.mk.inj (Option.some.inj hr)).1]
    refine ⟨true, fun q u hq => ?_⟩
    have hq := hsame true q u hq
    rw [if_pos htrue] at hq
    exact (wrapAgain_fst hq).symm
  · rename_i hfalse
    have hflags (inserted : Bool) : (ofBm d inserted).uFlags heap =
        h.attribs &&& (hapCachetypeMask ||| hapMaptypeMask) := by
      rw [hlooks.attribs h hh]
      exact Nat.or_zero _
    obtain ⟨inserted, hspec⟩ := bm_wrapNew_spec hr
    refine ⟨inserted, fun q u hq => ?_⟩
    have hq := hsame inserted q u hq
    rw [if_neg hfalse, hflags] at hq
    cases wrapNew_spec hq with
    | inl hnone =>
      cases hspec with
      | inl hnone' =>
        rw [hnone'.1, hnone.1]
        rfl
      | inr hmade =>
        obtain ⟨-, -, -, -, hmakes⟩ := hmade
        exact absurd hmakes hnone.2
    | inr hmade =>
      cases hspec with
      | inl hnone' => exact absurd hmade.2 hnone'.2
      | inr hmade' =>
        obtain ⟨p, f, rfl, hp, -⟩ := hmade'
        exact Option.some.inj (hp.symm.trans hmade.1)

end
end PvrServices.Wraps
