import PvrServices.BlockSizes
import PvrServices.CommandTables
import PvrServices.MapMemoryBase

set_option autoImplicit false

/-!
# The sizes that command tables are freed with

A registration that fails frees its list of functions as a block of no size, and a removal frees
the list and the table with the count that it is given.
-/
namespace PvrServices.CommandTables
open Words BlockHeap MapMemory
variable {s s' : SysTables} {h h' : Heap Content} {data : ℕ → Option ℕ} {cmds : List CmdEntry}
  {c : RegisterCall} {r : Reply} {d n p t z i : ℕ} {l : List ℕ} {done : Bool}

def contentSize : Content → ℕ
  | .procList l => u32 (l.length * pointerSize)
  | .completeTable l => u32 (l.length * pointerSize)
  | .completeData d => d.allocSize

/-- The count, the size of the list and the records that a removal or an error exit frees. -/
structure TablesAlike (s : SysTables) (d n procSize : ℕ) : Prop where
  table : s.ppsCmdCompleteData d ≠ 0 → ∀ l, entriesAt s.heap (s.ppsCmdCompleteData d) = some l →
    usesVmalloc (u32 (n * pointerSize)) = usesVmalloc (u32 (l.length * pointerSize))
  records : s.ppsCmdCompleteData d ≠ 0 → ∀ l, entriesAt s.heap (s.ppsCmdCompleteData d) = some l →
    ∀ p ∈ l.take n, p ≠ 0 → ∀ b, s.heap.blocks p = some b →
      usesVmalloc (allocSizeOf b) = usesVmalloc (contentSize b.content)
  list : s.ppfnCmdProcList d ≠ 0 → ∀ b, s.heap.blocks (s.ppfnCmdProcList d) = some b →
    usesVmalloc procSize = usesVmalloc (contentSize b.content)

theorem freeCompleteData_between (hf : freeCompleteData h t n = some h') :
    Shrinks h h' ∧ Between usesVmalloc contentSize h h' (t ≠ 0 → ∀ l, entriesAt h t = some l →
      usesVmalloc (u32 (n * pointerSize)) = usesVmalloc (u32 (l.length * pointerSize)) ∧
      ∀ p ∈ l.take n, p ≠ 0 → ∀ b, h.blocks p = some b →
        usesVmalloc (allocSizeOf b) = usesVmalloc (contentSize b.content)) := by
  unfold freeCompleteData at hf
  split at hf
  · rename_i h0
    rw [← Option.some.inj hf]
    exact ⟨fun _ _ hq => hq, Between.refl.congr ⟨fun _ hne => absurd h0 hne, fun _ => trivial⟩⟩
  · rename_i h0
    obtain ⟨l, hl, hf⟩ := Option.bind_eq_some_iff.mp hf
    obtain ⟨h₁, hall, hf⟩ := Option.bind_eq_some_iff.mp hf
    split at hall
    · cases hall
    · obtain ⟨hs, hrecords⟩ : Shrinks h h₁ ∧ Between usesVmalloc contentSize h h₁ _ :=
        Heap.freeAll_between hall
      have htable : Between usesVmalloc contentSize h₁ h' _ := Heap.free_between_of_shrinks hs hf
      refine ⟨hs.trans (Heap.free_spec hf).shrinks, (hrecords.trans htable).congr ?_⟩
      obtain ⟨z, hz⟩ := blocks_of_entriesAt hl
      constructor
      · intro hboth _ m hm
        rw [← Option.some.inj (hl.symm.trans hm)]
        exact ⟨hboth.2 _ hz, hboth.1⟩
      · intro hall
        obtain ⟨hcount, hrest⟩ := hall h0 l hl
        refine ⟨hrest, fun b hb => ?_⟩
        rw [← Option.some.inj (hz.symm.trans hb)]
        exact hcount

theorem freeTables_between {procSize : ℕ} (hf : freeTables s d n procSize = some s') :
    Between usesVmalloc contentSize s.heap s'.heap (TablesAlike s d n procSize) := by
  unfold freeTables at hf
  obtain ⟨h₁, htable, hf⟩ := Option.bind_eq_some_iff.mp hf
  obtain ⟨h₂, hlist, hf⟩ := Option.bind_eq_some_iff.mp hf
  rw [← Option.some.inj hf]
  obtain ⟨hs, hb⟩ := freeCompleteData_between htable
  have hend : Between usesVmalloc contentSize h₁ h₂ (s.ppfnCmdProcList d ≠ 0 →
      ∀ b, s.heap.blocks (s.ppfnCmdProcList d) = some b →
        usesVmalloc procSize = usesVmalloc (contentSize b.content)) := by
    unfold freeProcList at hlist
    split at hlist
    · rename_i h0
      rw [← Option.some.inj hlist]
      exact Between.refl.congr ⟨fun _ hne => absurd h0 hne, fun _ => trivial⟩
    · rename_i h0
      refine (Heap.free_between_of_shrinks hs hlist).congr ⟨fun hall _ => hall, fun hall => hall h0⟩
  refine (hb.trans hend).congr ⟨fun hboth => ⟨?_, ?_, hboth.2⟩, fun halike => ?_⟩
  · exact fun hne l hl => (hboth.1 hne l hl).1
  · exact fun hne l hl => (hboth.1 hne l hl).2
  · exact ⟨fun hne l hl => ⟨halike.table hne l hl, halike.records hne l hl⟩, halike.list⟩

def Filled (h : Heap Content) (t n : ℕ) : Prop :=
  ∃ z l, h.blocks t = some ⟨z, .completeTable l⟩ ∧ l.length = n ∧
    ∀ p ∈ l, p ≠ 0 → ∃ y x, h.blocks p = some ⟨y, .completeData x⟩

structure Loops (h h' : Heap Content) (t n : ℕ) : Prop where
  between : Between usesVmalloc contentSize h h' True
  filled : Filled h t n → Filled h' t n
  lists : ∀ p z l, h.blocks p = some ⟨z, .procList l⟩ → h'.blocks p = some ⟨z, .procList l⟩

theorem Loops.trans {h₁ : Heap Content} (ha : Loops h h₁ t n) (hb : Loops h₁ h' t n) :
    Loops h h' t n :=
  ⟨hb.between.after ha.between, fun hf => hb.filled (ha.filled hf),
    fun p z l hp => hb.lists p z l (ha.lists p z l hp)⟩

theorem loops_step {e : CmdEntry} {grant : Option ℕ} {h₁ : Heap Content} (hf : Filled h t n)
    (ha : h.alloc (completeSize e) (fun p => .completeData (completeDataOf e p)) grant = some (p, h₁))
    (hs : setEntry h₁ t i p = some h') : Loops h h' t n := by
  obtain ⟨z, l, ht, hlen, hl⟩ := hf
  have hkeep (q : ℕ) (b : Block Content) (hq : h.blocks q = some b) : h₁.blocks q = some b := by
    cases Heap.alloc_spec ha with
    | inl hnone =>
      rw [hnone.2.2]
      exact hq
    | inr hnew => exact hnew.2.keeps hq
  have hp : p ≠ 0 → ∃ y x, h₁.blocks p = some ⟨y, .completeData x⟩ := by
    intro hpos
    cases Heap.alloc_spec ha with
    | inl hnone => exact absurd hnone.2.1 hpos
    | inr hnew => exact ⟨_, _, hnew.2.new⟩
  obtain ⟨ht', hothers⟩ := setEntry_spec (hkeep t _ ht) hs
  have hdata (q y : ℕ) (x : CompleteData) (hq : h₁.blocks q = some ⟨y, .completeData x⟩) :
      h'.blocks q = some ⟨y, .completeData x⟩ := by
    rw [hothers q fun hqt => ?_]
    · exact hq
    · rw [hqt, hkeep t _ ht] at hq
      cases hq
  have hwrite : Between usesVmalloc contentSize h₁ h' True := by
    unfold setEntry at hs
    rw [entriesAt_eq (hkeep t _ ht), Option.bind_eq_bind, Option.bind_some] at hs
    split at hs
    · refine Heap.write_between hs fun b hb => ?_
      rw [← Option.some.inj ((hkeep t _ ht).symm.trans hb)]
      change u32 ((l.set i p).length * pointerSize) = u32 (l.length * pointerSize)
      rw [List.length_set]
    · cases hs
  refine ⟨hwrite.after (Heap.alloc_between ha rfl), fun _ => ?_, fun q y m hq => ?_⟩
  · refine ⟨z, l.set i p, ht', by rw [List.length_set, hlen], fun q hq hpos => ?_⟩
    cases List.mem_or_eq_of_mem_set hq with
    | inl hold =>
      obtain ⟨y, x, hx⟩ := hl q hold hpos
      exact ⟨y, x, hdata q y x (hkeep q _ hx)⟩
    | inr hnew =>
      rw [hnew] at hpos ⊢
      obtain ⟨y, x, hx⟩ := hp hpos
      exact ⟨y, x, hdata p y x hx⟩
  · rw [hothers q fun hqt => ?_]
    · exact hkeep q _ hq
    · rw [hqt, ht] at hq
      cases hq

theorem allocCompleteData_loops (hf : Filled h t n)
    (hr : allocCompleteData data t i cmds h = some (done, h')) : Loops h h' t n := by
  induction cmds generalizing h i with
  | nil =>
    obtain ⟨-, hh⟩ := Prod.mk.inj (Option.some.inj hr)
    rw [← hh]
    exact ⟨.refl, id, fun _ _ _ hp => hp⟩
  | cons e es ih =>
    unfold allocCompleteData at hr
    obtain ⟨⟨p, h₁⟩, halloc, hr⟩ := Option.bind_eq_some_iff.mp hr
    obtain ⟨h₂, hset, hr⟩ := Option.bind_eq_some_iff.mp hr
    have hstep := loops_step hf halloc hset
    split at hr
    · obtain ⟨-, hh⟩ := Prod.mk.inj (Option.some.inj hr)
      rw [← hh]
      exact hstep
    · exact hstep.trans (ih (hstep.filled hf) hr)

def RegisterCall.Fails (c : RegisterCall) : Prop :=
  c.table = none ∨ ∃ i < c.count, c.data i = none

theorem usesVmalloc_none (hn : n * pointerSize < 4294967296) :
    usesVmalloc 0 = usesVmalloc (u32 (n * pointerSize)) ↔ n ≤ 1024 := by
  unfold usesVmalloc linuxKmallocLimit
  rw [u32_of_lt hn, decide_eq_decide]
  unfold pointerSize
  omega

theorem errorExit_between {fs : List ℕ} (hcount : fs.length = n)
    (hn : n * pointerSize < 4294967296) (h0 : s.ppfnCmdProcList d ≠ 0)
    (hlist : s.heap.blocks (s.ppfnCmdProcList d) = some ⟨z, .procList fs⟩)
    (htable : s.ppsCmdCompleteData d = 0 ∨ Filled s.heap (s.ppsCmdCompleteData d) n)
    (hr : errorExit s d n = some (r, s')) :
    Between usesVmalloc contentSize s.heap s'.heap (n ≤ 1024) := by
  unfold errorExit at hr
  obtain ⟨u, hu, hr⟩ := Option.map_eq_some_iff.mp hr
  rw [← (Prod.mk.inj hr).2]
  refine (freeTables_between hu).congr ⟨fun halike => ?_, fun hle => ⟨?_, ?_, ?_⟩⟩
  · have heq := halike.list h0 _ hlist
    rw [← hcount] at hn ⊢
    exact (usesVmalloc_none hn).mp heq
  · intro hne l hl
    obtain ⟨y, m, hm, hlen, -⟩ := htable.resolve_left hne
    rw [← Option.some.inj ((entriesAt_eq hm).symm.trans hl), hlen]
  · intro hne l hl q hq hpos b hb
    obtain ⟨y, m, hm, -, hentries⟩ := htable.resolve_left hne
    rw [← Option.some.inj ((entriesAt_eq hm).symm.trans hl)] at hq
    obtain ⟨k, x, hx⟩ := hentries q (List.mem_of_mem_take hq) hpos
    rw [← Option.some.inj (hx.symm.trans hb)]
    rfl
  · intro _ b hb
    rw [← Option.some.inj (hlist.symm.trans hb)]
    change usesVmalloc 0 = usesVmalloc (u32 (fs.length * pointerSize))
    rw [hcount]
    exact (usesVmalloc_none hn).mpr hle

/-- A registration that fails behind its first allocation has few commands. -/
def RegisterCall.Small (c : RegisterCall) : Prop := c.Fails → c.count ≤ 1024

theorem registerTable_between (fs : List ℕ) (hcount : fs.length = c.count)
    (hn : c.count * pointerSize < 4294967296) (h0 : s.ppfnCmdProcList c.devIndex ≠ 0)
    (hlist : s.heap.blocks (s.ppfnCmdProcList c.devIndex) = some ⟨z, .procList fs⟩)
    (hr : registerTable s c = some (r, s')) :
    Between usesVmalloc contentSize s.heap s'.heap c.Small := by
  unfold registerTable at hr
  obtain ⟨⟨t, h₁⟩, halloc, hr⟩ := Option.bind_eq_some_iff.mp hr
  dsimp only at hr
  have hfirst : Between usesVmalloc contentSize s.heap h₁ True := by
    refine Heap.alloc_between halloc ?_
    change u32 ((List.replicate c.count 0).length * pointerSize) = _
    rw [List.length_replicate]
  cases Heap.alloc_spec halloc with
  | inl hnone =>
    obtain ⟨htable, ht, hh⟩ := hnone
    rw [if_pos ht] at hr
    rw [hh] at hr
    have hexit := errorExit_between (s := ⟨s.heap, s.ppfnCmdProcList,
        Function.update s.ppsCmdCompleteData c.devIndex t⟩) hcount hn h0 hlist
      (.inl (by rw [← ht]; exact Function.update_self ..)) hr
    exact hexit.congr ⟨fun hle _ => hle, fun hall => hall (.inl htable)⟩
  | inr hnew =>
    obtain ⟨htable, hnew⟩ := hnew
    rw [if_neg hnew.pos] at hr
    obtain ⟨⟨b, h₂⟩, hloop, hr⟩ := Option.bind_eq_some_iff.mp hr
    have hfilled : Filled h₁ t c.count := by
      refine ⟨_, _, hnew.new, List.length_replicate, fun q hq hpos => ?_⟩
      exact absurd (List.eq_of_mem_replicate hq) hpos
    have hloops := allocCompleteData_loops hfilled hloop
    cases b with
    | true =>
      have heq := Option.some.inj hr
      rw [← (Prod.mk.inj heq).2]
      have ht : h₁.blocks t = some ⟨u32 (c.count * pointerSize), .completeTable
          ([] ++ List.replicate c.cmds.length 0)⟩ := hnew.new
      have hall := (allocCompleteData_spec [] ht hloop).1
      refine (hloops.between.after hfirst).congr ⟨fun _ hfails => ?_, fun _ => trivial⟩
      cases hfails with
      | inl hnone =>
        rw [htable] at hnone
        cases hnone
      | inr hnone =>
        obtain ⟨j, hj, hnone⟩ := hnone
        refine absurd ?_ (hall j hj)
        rw [List.length_nil, Nat.zero_add]
        exact hnone
    | false =>
      have hfails : c.Fails := by
        obtain ⟨j, hj, hnone⟩ := allocCompleteData_failed hloop
        rw [Nat.zero_add] at hnone
        exact .inr ⟨j, hj, hnone⟩
      have hexit := errorExit_between (s := ⟨h₂, s.ppfnCmdProcList,
          Function.update s.ppsCmdCompleteData c.devIndex t⟩) hcount hn h0
        (hloops.lists _ _ _ (hnew.keeps hlist))
        (.inr (by
          dsimp only
          rw [Function.update_self]
          exact hloops.filled hfilled)) hr
      exact (hexit.after (hloops.between.after hfirst)).congr
        ⟨fun hle _ => hle, fun hall => hall hfails⟩

/-- The list and the tables of a call are freed on the side of their sizes. -/
def SideKept (s : SysTables) : Op → Prop
  | .register c => c.devIndex < sysDeviceCount → c.list ≠ none →
      c.count * pointerSize < 4294967296 → c.Small
  | .remove d n => d < sysDeviceCount → s.ppsCmdCompleteData d ≠ 0 →
      TablesAlike s d n (u32 (n * pointerSize))

theorem register_between (hr : registerCmdProcList s c = some (r, s')) :
    Between usesVmalloc contentSize s.heap s'.heap (SideKept s (.register c)) := by
  unfold registerCmdProcList at hr
  split at hr
  · rename_i hindex
    rw [← (Prod.mk.inj (Option.some.inj hr)).2]
    exact Between.refl.congr ⟨fun _ hlt => absurd hlt (Nat.not_lt_of_le hindex), fun _ => trivial⟩
  · rename_i hindex
    obtain ⟨⟨p, h₁⟩, halloc, hr⟩ := Option.bind_eq_some_iff.mp hr
    dsimp only at hr
    have hfirst : Between usesVmalloc contentSize s.heap h₁ True := by
      refine Heap.alloc_between halloc ?_
      change u32 ((c.cmds.map CmdEntry.proc).length * pointerSize) = _
      rw [List.length_map]
      rfl
    cases Heap.alloc_spec halloc with
    | inl hnone =>
      rw [if_pos hnone.2.1] at hr
      rw [← (Prod.mk.inj (Option.some.inj hr)).2]
      exact hfirst.congr ⟨fun _ _ hlist => absurd hnone.1 hlist, fun _ => trivial⟩
    | inr hnew =>
      obtain ⟨hlist, hnew⟩ := hnew
      rw [if_neg hnew.pos] at hr
      split at hr
      · rename_i hover
        rw [← (Prod.mk.inj (Option.some.inj hr)).2]
        exact hfirst.congr
          ⟨fun _ _ _ hlt => absurd hlt (Nat.not_lt_of_le hover), fun _ => trivial⟩
      · rename_i hover
        have hlt : c.count * pointerSize < 4294967296 := Nat.lt_of_not_le hover
        have htable := registerTable_between (s := ⟨h₁,
            Function.update s.ppfnCmdProcList c.devIndex p, s.ppsCmdCompleteData⟩)
          (c.cmds.map CmdEntry.proc) (by rw [List.length_map]; rfl) hlt
          (by dsimp only; rw [Function.update_self]; exact hnew.pos)
          (by dsimp only; rw [Function.update_self]; exact hnew.new) hr
        refine (htable.after hfirst).congr ⟨fun hsmall _ _ _ => hsmall, fun hall => ?_⟩
        refine hall (Nat.lt_of_not_le hindex) ?_ hlt
        rw [hlist]
        exact Option.some_ne_none p

theorem step_between {op : Op} (hr : step s op = some (r, s')) :
    Between usesVmalloc contentSize s.heap s'.heap (SideKept s op) := by
  cases op with
  | register c => exact register_between hr
  | remove d n =>
    unfold step removeCmdProcList at hr
    dsimp only at hr
    split at hr
    · rename_i hindex
      rw [← (Prod.mk.inj (Option.some.inj hr)).2]
      exact Between.refl.congr
        ⟨fun _ hlt => absurd hlt (Nat.not_lt_of_le hindex), fun _ => trivial⟩
    · rename_i hindex
      split at hr
      · rename_i h0
        rw [← (Prod.mk.inj (Option.some.inj hr)).2]
        exact Between.refl.congr ⟨fun _ _ hne => absurd h0 hne, fun _ => trivial⟩
      · rename_i h0
        obtain ⟨u, hu, hr⟩ := Option.map_eq_some_iff.mp hr
        rw [← (Prod.mk.inj hr).2]
        exact (freeTables_between hu).congr
          ⟨fun halike _ _ => halike, fun hall => hall (Nat.lt_of_not_le hindex) h0⟩

end PvrServices.CommandTables
