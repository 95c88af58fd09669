import Mathlib.Data.List.Forall2
import PvrServices.BlockHeap
import PvrServices.Runs
import PvrServices.Services
import PvrServices.Words

set_option autoImplicit false

/-!
# Command processing tables

`PVRSRVRegisterCmdProcListKM` and `PVRSRVRemoveCmdProcListKM` of `queue.c`. A device index has a
list of functions and a table of completion records, one record for each command.
-/
namespace PvrServices.CommandTables
open Words BlockHeap Runs

def sysDeviceCount : ℕ := 15
def pointerSize : ℕ := 4
def completeDataSize : ℕ := 24
def syncObjectSize : ℕ := 12

/-- One entry of `ppfnCmdProcList` with its row of `ui32MaxSyncsPerCmd`. -/
structure CmdEntry where
  proc : ℕ
  maxDst : ℕ
  maxSrc : ℕ
deriving DecidableEq, Repr

/-- The fields of `struct COMMAND_COMPLETE_DATA` that are not cleared. -/
structure CompleteData where
  dstSync : ℕ
  srcSync : ℕ
  allocSize : ℕ
deriving DecidableEq, Repr

def completeSize (c : CmdEntry) : ℕ :=
  u32 (completeDataSize + u32 (u32 (c.maxDst + c.maxSrc) * syncObjectSize))

def recordSize (c : CmdEntry) : ℕ := completeDataSize + (c.maxDst + c.maxSrc) * syncObjectSize

def completeDataOf (c : CmdEntry) (p : ℕ) : CompleteData where
  dstSync := u32 (p + completeDataSize)
  srcSync := u32 (u32 (p + completeDataSize) + u32 (syncObjectSize * c.maxDst))
  allocSize := completeSize c

inductive Content where
  | procList (l : List ℕ)
  | completeTable (l : List ℕ)
  | completeData (d : CompleteData)
deriving DecidableEq, Repr

/-- The part of `struct SYS_DATA` with the tables. -/
structure SysTables where
  heap : Heap Content
  ppfnCmdProcList : ℕ → ℕ
  ppsCmdCompleteData : ℕ → ℕ

def sysTables : SysTables := ⟨emptyHeap Content, fun _ => 0, fun _ => 0⟩

def entriesAt (h : Heap Content) (t : ℕ) : Option (List ℕ) :=
  (h.blocks t).bind fun b =>
    match b.content with
    | .completeTable l => some l
    | _ => none

def setEntry (h : Heap Content) (t i p : ℕ) : Option (Heap Content) := do
  let l ← entriesAt h t
  if i < l.length then h.write t (.completeTable (l.set i p)) else none

def allocCompleteData (data : ℕ → Option ℕ) (t : ℕ) :
    ℕ → List CmdEntry → Heap Content → Option (Bool × Heap Content)
  | _, [], h => some (true, h)
  | i, c :: cs, h => do
    let (p, h) ← h.alloc (completeSize c) (fun p => .completeData (completeDataOf c p)) (data i)
    let h ← setEntry h t i p
    if p = 0 then some (false, h) else allocCompleteData data t (i + 1) cs h

def allocSizeOf (b : Block Content) : ℕ :=
  match b.content with
  | .completeData d => d.allocSize
  | _ => 0

def freeCompleteData (h : Heap Content) (t n : ℕ) : Option (Heap Content) :=
  if t = 0 then some h
  else do
    let l ← entriesAt h t
    let h ← (if l.length < n then none else h.freeAll allocSizeOf (l.take n))
    h.free t (u32 (n * pointerSize))

def freeProcList (h : Heap Content) (p size : ℕ) : Option (Heap Content) :=
  if p = 0 then some h else h.free p size

def freeTables (s : SysTables) (d n procSize : ℕ) : Option SysTables := do
  let h ← freeCompleteData s.heap (s.ppsCmdCompleteData d) n
  let h ← freeProcList h (s.ppfnCmdProcList d) procSize
  some { s with heap := h }

inductive Reply where
  | status (e : PvrsrvError)
  | overrun
deriving DecidableEq, Repr

def errorExit (s : SysTables) (d n : ℕ) : Option (Reply × SysTables) :=
  (freeTables s d n 0).map fun s => (.status .errorOutOfMemory, s)

structure RegisterCall where
  devIndex : ℕ
  cmds : List CmdEntry
  list : Option ℕ
  table : Option ℕ
  data : ℕ → Option ℕ

def RegisterCall.count (c : RegisterCall) : ℕ := c.cmds.length

def registerDone (s : SysTables) (c : RegisterCall) : Bool × Heap Content → Option (Reply × SysTables)
  | (true, h) => some (.status .ok, { s with heap := h })
  | (false, h) => errorExit { s with heap := h } c.devIndex c.count

def registerTable (s : SysTables) (c : RegisterCall) : Option (Reply × SysTables) := do
  let (t, h) ← s.heap.alloc (u32 (c.count * pointerSize))
    (fun _ => .completeTable (List.replicate c.count 0)) c.table
  let s := { s with
    heap := h
    ppsCmdCompleteData := Function.update s.ppsCmdCompleteData c.devIndex t }
  if t = 0 then errorExit s c.devIndex c.count
  else do
    let r ← allocCompleteData c.data t 0 c.cmds s.heap
    registerDone s c r

def registerCmdProcList (s : SysTables) (c : RegisterCall) : Option (Reply × SysTables) :=
  if sysDeviceCount ≤ c.devIndex then some (.status .errorInvalidParams, s)
  else do
    let (p, h) ← s.heap.alloc (u32 (c.count * pointerSize))
      (fun _ => .procList (c.cmds.map CmdEntry.proc)) c.list
    let s := { s with
      heap := h
      ppfnCmdProcList := Function.update s.ppfnCmdProcList c.devIndex p }
    if p = 0 then some (.status .errorOutOfMemory, s)
    else if 4294967296 ≤ c.count * pointerSize then some (.overrun, s)
    else registerTable s c

def removeCmdProcList (s : SysTables) (d n : ℕ) : Option (Reply × SysTables) :=
  if sysDeviceCount ≤ d then some (.status .errorInvalidParams, s)
  else if s.ppsCmdCompleteData d = 0 then some (.status .errorInvalidParams, s)
  else (freeTables s d n (u32 (n * pointerSize))).map fun s => (.status .ok, s)

inductive Op where
  | register (c : RegisterCall)
  | remove (d n : ℕ)

def step (s : SysTables) : Op → Option (Reply × SysTables)
  | .register c => registerCmdProcList s c
  | .remove d n => removeCmdProcList s d n

/-- What is registered by the answers so far, and whether a block was overrun. -/
structure Ledger where
  registered : ℕ → Option (List CmdEntry)
  overran : Bool

def noCommands : Ledger := ⟨fun _ => none, false⟩

def record (g : Ledger) : Op × Reply → Ledger
  | (.register c, .status .ok) =>
    { g with registered := Function.update g.registered c.devIndex (some c.cmds) }
  | (.remove d _, .status .ok) => { g with registered := Function.update g.registered d none }
  | (_, .overrun) => { g with overran := true }
  | _ => g

def Holds (h : Heap Content) (p : ℕ) (c : CmdEntry) : Prop :=
  h.blocks p = some ⟨recordSize c, .completeData (completeDataOf c p)⟩

def ListLive (h : Heap Content) (p : ℕ) (cmds : List CmdEntry) : Prop :=
  h.blocks p = some ⟨cmds.length * pointerSize, .procList (cmds.map CmdEntry.proc)⟩

def TableLive (h : Heap Content) (t : ℕ) (cmds : List CmdEntry) : Prop :=
  ∃ entries, h.blocks t = some ⟨cmds.length * pointerSize, .completeTable entries⟩ ∧
    List.Forall₂ (Holds h) entries cmds

def Owned (s : SysTables) (p : ℕ) : Prop :=
  ∃ d, s.ppfnCmdProcList d = p ∨ s.ppsCmdCompleteData d = p ∨
    ∃ l, entriesAt s.heap (s.ppsCmdCompleteData d) = some l ∧ p ∈ l

/-- The pointers are null or lead to live tables of the registered size, nothing else is
    allocated, and a removal is refused where nothing is registered. -/
structure Sound (s : SysTables) (g : Ledger) : Prop where
  within : g.overran = false
  lists : ∀ d, s.ppfnCmdProcList d = 0 ∨
    ∃ cmds, g.registered d = some cmds ∧ ListLive s.heap (s.ppfnCmdProcList d) cmds
  tables : ∀ d, s.ppsCmdCompleteData d = 0 ∨
    ∃ cmds, g.registered d = some cmds ∧ TableLive s.heap (s.ppsCmdCompleteData d) cmds
  owned : ∀ p b, s.heap.blocks p = some b → Owned s p
  refuses : ∀ d n, g.registered d = none →
    step s (.remove d n) = some (.status .errorInvalidParams, s)

/-- A table is removed with the count that it was registered with. -/
def CountKept (s : SysTables) : Op → Prop
  | .register _ => True
  | .remove d n => ∀ l, entriesAt s.heap (s.ppsCmdCompleteData d) = some l → n = l.length

/-- The allocations behind the first one succeed, and no size wraps. -/
structure Complete (c : RegisterCall) : Prop where
  count_lt : c.count * pointerSize < 4294967296
  table : c.table ≠ none
  data : ∀ i < c.count, c.data i ≠ none
  fits : ∀ e ∈ c.cmds, recordSize e < 4294967296

/-- A registration where nothing is registered fails at its first allocation or not at all, and a
    removal finds nothing. -/
def Harmless (s : SysTables) : Op → Prop
  | .register c => sysDeviceCount ≤ c.devIndex ∨
      (s.ppfnCmdProcList c.devIndex = 0 ∧ s.ppsCmdCompleteData c.devIndex = 0 ∧
        (c.list = none ∨ Complete c))
  | .remove d _ => sysDeviceCount ≤ d ∨ s.ppsCmdCompleteData d = 0

structure Inv (s : SysTables) (g : Ledger) : Prop extends Sound s g where
  null : s.heap.blocks 0 = none
  both : ∀ d, s.ppfnCmdProcList d = 0 ↔ s.ppsCmdCompleteData d = 0
  apart : ∀ d d', s.ppfnCmdProcList d ≠ 0 → s.ppfnCmdProcList d = s.ppfnCmdProcList d' → d = d'

section
variable {s s' : SysTables} {g : Ledger} {h h' : Heap Content} {data : ℕ → Option ℕ}
  {cmds : List CmdEntry} {c : RegisterCall} {r : Reply} {d n p q t z : ℕ} {l : List ℕ}

theorem entriesAt_eq (ht : h.blocks t = some ⟨z, .completeTable l⟩) : entriesAt h t = some l := by
  unfold entriesAt
  rw [ht]
  rfl

theorem blocks_of_entriesAt (ht : entriesAt h t = some l) :
    ∃ z, h.blocks t = some ⟨z, .completeTable l⟩ := by
  unfold entriesAt at ht
  obtain ⟨b, hb, ht⟩ := Option.bind_eq_some_iff.mp ht
  cases b with
  | mk z x =>
    cases x with
    | procList m => cases ht
    | completeData m => cases ht
    | completeTable m =>
      rw [← Option.some.inj ht]
      exact ⟨z, hb⟩

theorem setEntry_spec (ht : h.blocks t = some ⟨z, .completeTable l⟩) {i : ℕ}
    (hs : setEntry h t i p = some h') :
    h'.blocks t = some ⟨z, .completeTable (l.set i p)⟩ ∧
      ∀ q, q ≠ t → h'.blocks q = h.blocks q := by
  unfold setEntry at hs
  rw [entriesAt_eq ht, Option.bind_eq_bind, Option.bind_some] at hs
  split at hs
  · obtain ⟨b, hb, hnew, hothers, -⟩ := Heap.write_spec hs
    rw [ht] at hb
    rw [← Option.some.inj hb] at hnew
    exact ⟨hnew, hothers⟩
  · cases hs

/-- The loop has appended a record for each command to the entries that were there. -/
structure Fills (h h' : Heap Content) (t z : ℕ) (done : List ℕ) (cmds : List CmdEntry)
    (ptrs : List ℕ) : Prop where
  table : h'.blocks t = some ⟨z, .completeTable (done ++ ptrs)⟩
  data : List.Forall₂ (fun p c => h'.blocks p =
    some ⟨completeSize c, .completeData (completeDataOf c p)⟩) ptrs cmds
  pos : ∀ q ∈ ptrs, q ≠ 0
  fresh : ∀ q ∈ ptrs, h.blocks q = none
  others : ∀ q, q ∉ ptrs → q ≠ t → h'.blocks q = h.blocks q

theorem allocCompleteData_spec (done : List ℕ)
    (ht : h.blocks t = some ⟨z, .completeTable (done ++ List.replicate cmds.length 0)⟩)
    (hr : allocCompleteData data t done.length cmds h = some (true, h')) :
    (∀ j < cmds.length, data (done.length + j) ≠ none) ∧
      ∃ ptrs, Fills h h' t z done cmds ptrs := by
  induction cmds generalizing h done with
  | nil =>
    have heq := Option.some.inj hr
    rw [Prod.mk.injEq] at heq
    rw [← heq.2]
    refine ⟨fun j hj => absurd hj (Nat.not_lt_zero j), [], ?_, .nil, ?_, ?_, fun q _ _ => rfl⟩
    · simpa using ht
    · intro q hq
      cases hq
    · intro q hq
      cases hq
  | cons c cs ih =>
    unfold allocCompleteData at hr
    obtain ⟨⟨p, h₁⟩, halloc, hr⟩ := Option.bind_eq_some_iff.mp hr
    obtain ⟨h₂, hset, hr⟩ := Option.bind_eq_some_iff.mp hr
    cases Heap.alloc_spec halloc with
    | inl hnone =>
      rw [if_pos hnone.2.1, Option.some.injEq, Prod.mk.injEq] at hr
      cases hr.1
    | inr hnew =>
      obtain ⟨hdata, hp⟩ := hnew
      rw [if_neg hp.pos] at hr
      have htp : t ≠ p := by
        intro htp
        rw [htp, hp.fresh] at ht
        cases ht
      have ht₁ : h₁.blocks t =
          some ⟨z, .completeTable (done ++ 0 :: List.replicate cs.length 0)⟩ := by
        rw [hp.others t htp, ht]
        rfl
      obtain ⟨ht₂, hothers⟩ := setEntry_spec ht₁ hset
      have hset_eq : (done ++ 0 :: List.replicate cs.length 0).set done.length p =
          (done ++ [p]) ++ List.replicate cs.length 0 := by
        simp
      rw [hset_eq] at ht₂
      have hlen : done.length + 1 = (done ++ [p]).length := by simp
      rw [hlen] at hr
      obtain ⟨hgrants, ptrs, hfills⟩ := ih (done ++ [p]) ht₂ hr
      have hp₂ : h₂.blocks p =
          some ⟨completeSize c, .completeData (completeDataOf c p)⟩ := by
        rw [hothers p htp.symm, hp.new]
      have hpnot : p ∉ ptrs := by
        intro hmem
        have hnone := hfills.fresh p hmem
        rw [hp₂] at hnone
        cases hnone
      refine ⟨?_, p :: ptrs, ?_, .cons ?_ hfills.data, ?_, ?_, ?_⟩
      · intro j hj
        cases j with
        | zero =>
          rw [Nat.add_zero, hdata]
          exact Option.some_ne_none p
        | succ j =>
          have hnext := hgrants j (by simpa using hj)
          rw [← hlen] at hnext
          rw [show done.length + (j + 1) = done.length + 1 + j by omega]
          exact hnext
      · rw [hfills.table, List.append_assoc]
        rfl
      · rw [hfills.others p hpnot htp.symm, hp₂]
      · intro q hq
        cases List.mem_cons.mp hq with
        | inl hqp =>
          rw [hqp]
          exact hp.pos
        | inr hmem => exact hfills.pos q hmem
      · intro q hq
        cases List.mem_cons.mp hq with
        | inl hqp =>
          rw [hqp]
          exact hp.fresh
        | inr hmem =>
          have hnone := hfills.fresh q hmem
          have hqt : q ≠ t := by
            intro hqt
            rw [hqt, ht₂] at hnone
            cases hnone
          have hqp : q ≠ p := fun hqp => hpnot (hqp ▸ hmem)
          rw [hothers q hqt, hp.others q hqp] at hnone
          exact hnone
      · intro q hq hqt
        obtain ⟨hqp, hmem⟩ := not_or.mp fun hor => hq (List.mem_cons.mpr hor)
        rw [hfills.others q hmem hqt, hothers q hqt, hp.others q hqp]

theorem allocCompleteData_failed {i : ℕ}
    (hr : allocCompleteData data t i cmds h = some (false, h')) :
    ∃ j < cmds.length, data (i + j) = none := by
  induction cmds generalizing h i with
  | nil => cases hr
  | cons c cs ih =>
    unfold allocCompleteData at hr
    obtain ⟨⟨p, h₁⟩, halloc, hr⟩ := Option.bind_eq_some_iff.mp hr
    obtain ⟨h₂, -, hr⟩ := Option.bind_eq_some_iff.mp hr
    cases Heap.alloc_spec halloc with
    | inl hnone => exact ⟨0, Nat.succ_pos _, hnone.1⟩
    | inr hnew =>
      rw [if_neg hnew.2.pos] at hr
      obtain ⟨j, hj, hnone⟩ := ih hr
      refine ⟨j + 1, Nat.succ_lt_succ hj, ?_⟩
      rw [show i + (j + 1) = i + 1 + j by omega]
      exact hnone

theorem freeTables_spec (hf : freeTables s d n z = some s') :
    s'.ppfnCmdProcList = s.ppfnCmdProcList ∧ s'.ppsCmdCompleteData = s.ppsCmdCompleteData ∧
      (s.ppfnCmdProcList d ≠ 0 → s'.heap.blocks (s.ppfnCmdProcList d) = none) ∧
      (s.ppsCmdCompleteData d ≠ 0 → s'.heap.blocks (s.ppsCmdCompleteData d) = none) := by
  unfold freeTables at hf
  obtain ⟨h₁, htable, hf⟩ := Option.bind_eq_some_iff.mp hf
  obtain ⟨h₂, hlist, hf⟩ := Option.bind_eq_some_iff.mp hf
  rw [← Option.some.inj hf]
  refine ⟨rfl, rfl, fun hp => ?_, fun ht => ?_⟩
  · unfold freeProcList at hlist
    rw [if_neg hp] at hlist
    exact (Heap.free_spec hlist).gone
  · have hgone : h₁.blocks (s.ppsCmdCompleteData d) = none := by
      unfold freeCompleteData at htable
      rw [if_neg ht] at htable
      obtain ⟨l, -, htable⟩ := Option.bind_eq_some_iff.mp htable
      obtain ⟨h₃, -, htable⟩ := Option.bind_eq_some_iff.mp htable
      exact (Heap.free_spec htable).gone
    unfold freeProcList at hlist
    split at hlist
    · rw [← Option.some.inj hlist]
      exact hgone
    · exact (Heap.free_spec hlist).gone_of_none hgone

def Dangling (s : SysTables) (d : ℕ) : Prop :=
  s.ppfnCmdProcList d ≠ 0 ∧ s.heap.blocks (s.ppfnCmdProcList d) = none

theorem errorExit_dangling (hp : s.ppfnCmdProcList d ≠ 0)
    (he : errorExit s d n = some (r, s')) :
    r = .status .errorOutOfMemory ∧ Dangling s' d := by
  unfold errorExit at he
  obtain ⟨s₁, hfree, he⟩ := Option.map_eq_some_iff.mp he
  rw [Prod.mk.injEq] at he
  obtain ⟨hlist, -, hgone, -⟩ := freeTables_spec hfree
  rw [← he.1, ← he.2]
  unfold Dangling
  rw [hlist]
  exact ⟨rfl, hp, hgone hp⟩

/-- A registration that succeeds: a list at `p`, a table at `t` and its records at `ptrs`. -/
structure Registers (s s' : SysTables) (c : RegisterCall) (p t : ℕ) (ptrs : List ℕ) : Prop where
  count_lt : c.count * pointerSize < 4294967296
  table : c.table = some t
  data : ∀ i < c.count, c.data i ≠ none
  ppfn : s'.ppfnCmdProcList = Function.update s.ppfnCmdProcList c.devIndex p
  pps : s'.ppsCmdCompleteData = Function.update s.ppsCmdCompleteData c.devIndex t
  list_new : s'.heap.blocks p =
    some ⟨c.count * pointerSize, .procList (c.cmds.map CmdEntry.proc)⟩
  table_new : s'.heap.blocks t = some ⟨c.count * pointerSize, .completeTable ptrs⟩
  data_new : List.Forall₂ (fun p c => s'.heap.blocks p =
    some ⟨completeSize c, .completeData (completeDataOf c p)⟩) ptrs c.cmds
  pos : p ≠ 0 ∧ t ≠ 0 ∧ 0 ∉ ptrs
  fresh : s.heap.blocks p = none ∧ s.heap.blocks t = none ∧ ∀ q ∈ ptrs, s.heap.blocks q = none
  others : ∀ q, q ≠ p → q ≠ t → q ∉ ptrs → s'.heap.blocks q = s.heap.blocks q

theorem registerTable_cases (hp : s.ppfnCmdProcList c.devIndex ≠ 0)
    (hlt : c.count * pointerSize < 4294967296) (hr : registerTable s c = some (r, s')) :
    (¬Complete c ∧ r = .status .errorOutOfMemory ∧ Dangling s' c.devIndex) ∨
      (r = .status .ok ∧ s'.ppfnCmdProcList = s.ppfnCmdProcList ∧
        ∃ t ptrs h₁, c.table = some t ∧ (∀ i < c.count, c.data i ≠ none) ∧
          s'.ppsCmdCompleteData = Function.update s.ppsCmdCompleteData c.devIndex t ∧
          Allocates s.heap h₁ t (c.count * pointerSize)
            (.completeTable (List.replicate c.count 0)) ∧
          Fills h₁ s'.heap t (c.count * pointerSize) [] c.cmds ptrs) := by
  unfold registerTable at hr
  obtain ⟨⟨t, h₁⟩, halloc, hr⟩ := Option.bind_eq_some_iff.mp hr
  dsimp only at hr
  cases Heap.alloc_spec halloc with
  | inl hnone =>
    rw [if_pos hnone.2.1] at hr
    exact .inl ⟨fun hc => hc.table hnone.1, errorExit_dangling (by exact hp) hr⟩
  | inr hnew =>
    obtain ⟨htable, ht⟩ := hnew
    rw [u32_of_lt hlt] at ht
    rw [if_neg ht.pos] at hr
    obtain ⟨⟨done, h₂⟩, hloop, hr⟩ := Option.bind_eq_some_iff.mp hr
    cases done with
    | false =>
      unfold registerDone at hr
      obtain ⟨j, hj, hnone⟩ := allocCompleteData_failed hloop
      rw [Nat.zero_add] at hnone
      exact .inl ⟨fun hc => hc.data j hj hnone, errorExit_dangling (by exact hp) hr⟩
    | true =>
      have heq := Option.some.inj hr
      rw [Prod.mk.injEq] at heq
      obtain ⟨hdata, ptrs, hfills⟩ := allocCompleteData_spec [] ht.new hloop
      rw [← heq.1, ← heq.2]
      refine .inr ⟨rfl, rfl, t, ptrs, h₁, htable, fun i hi => ?_, rfl, ht, hfills⟩
      have hi' := hdata i hi
      rw [List.length_nil, Nat.zero_add] at hi'
      exact hi'

/-- The ends of a registration that gets its list: a write behind the end, an error with the list
    freed, or success. -/
inductive Ends (s s' : SysTables) (c : RegisterCall) : Reply → Prop
  | overrun (h : 4294967296 ≤ c.count * pointerSize) : Ends s s' c .overrun
  | failed (h : ¬Complete c) (hd : Dangling s' c.devIndex) :
      Ends s s' c (.status .errorOutOfMemory)
  | done {p t : ℕ} {ptrs : List ℕ} (h : Registers s s' c p t ptrs) : Ends s s' c (.status .ok)

theorem register_cases (hr : registerCmdProcList s c = some (r, s')) :
    (sysDeviceCount ≤ c.devIndex ∧ r = .status .errorInvalidParams ∧ s' = s) ∨
      (c.devIndex < sysDeviceCount ∧ c.list = none ∧ r = .status .errorOutOfMemory ∧ s' = { s with
        ppfnCmdProcList := Function.update s.ppfnCmdProcList c.devIndex 0 }) ∨
      (c.devIndex < sysDeviceCount ∧ c.list ≠ none ∧ Ends s s' c r) := by
  unfold registerCmdProcList at hr
  split at hr
  · rename_i hindex
    have heq := Option.some.inj hr
    rw [Prod.mk.injEq] at heq
    exact .inl ⟨hindex, heq.1.symm, heq.2.symm⟩
  · rename_i hindex
    obtain ⟨⟨p, h₁⟩, halloc, hr⟩ := Option.bind_eq_some_iff.mp hr
    right
    dsimp only at hr
    cases Heap.alloc_spec halloc with
    | inl hnone =>
      rw [if_pos hnone.2.1, Option.some.injEq, Prod.mk.injEq] at hr
      refine .inl ⟨Nat.lt_of_not_le hindex, hnone.1, hr.1.symm, ?_⟩
      rw [← hr.2, hnone.2.1, hnone.2.2]
    | inr hnew =>
      obtain ⟨hlist, hp⟩ := hnew
      refine .inr ⟨Nat.lt_of_not_le hindex, by rw [hlist]; exact Option.some_ne_none p, ?_⟩
      rw [if_neg hp.pos] at hr
      split at hr
      · rename_i hover
        have heq := Option.some.inj hr
        rw [Prod.mk.injEq] at heq
        rw [← heq.1]
        exact .overrun hover
      · rename_i hover
        have hlt : c.count * pointerSize < 4294967296 := Nat.lt_of_not_le hover
        rw [u32_of_lt hlt] at hp
        have hpd : Function.update s.ppfnCmdProcList c.devIndex p c.devIndex ≠ 0 := by
          rw [Function.update_self]
          exact hp.pos
        cases registerTable_cases (s := ⟨h₁, Function.update s.ppfnCmdProcList c.devIndex p,
            s.ppsCmdCompleteData⟩) hpd hlt hr with
        | inl hbad =>
          obtain ⟨hincomplete, hreply, hdangling⟩ := hbad
          rw [hreply]
          exact .failed hincomplete hdangling
        | inr hgood =>
          obtain ⟨hok, hppfn, t, ptrs, h₂, htable, hdata, hpps, ht, hfills⟩ := hgood
          dsimp only at ht hppfn hpps
          have hpt : p ≠ t := by
            intro hpt
            have hnone := ht.fresh
            rw [← hpt, hp.new] at hnone
            cases hnone
          have hpnot : p ∉ ptrs := by
            intro hmem
            have hnone := hfills.fresh p hmem
            rw [ht.others p hpt, hp.new] at hnone
            cases hnone
          rw [hok]
          refine .done (p := p) (t := t) ⟨hlt, htable, hdata, hppfn, hpps, ?_, hfills.table,
            hfills.data, ⟨hp.pos, ht.pos, fun h0 => hfills.pos 0 h0 rfl⟩, ⟨hp.fresh, ?_, fun q hq => ?_⟩, fun q hqp hqt hq => ?_⟩
          · rw [hfills.others p hpnot hpt, ht.others p hpt, hp.new]
          · rw [← hp.others t hpt.symm]
            exact ht.fresh
          · have hnone := hfills.fresh q hq
            have hqt : q ≠ t := by
              intro hqt
              rw [hqt, ht.new] at hnone
              cases hnone
            rw [ht.others q hqt] at hnone
            have hqp : q ≠ p := fun hqp => hpnot (hqp ▸ hq)
            rw [← hp.others q hqp]
            exact hnone
          · rw [hfills.others q hq hqt, ht.others q hqt, hp.others q hqp]

theorem completeSize_eq {e : CmdEntry} (hf : recordSize e < 4294967296) :
    completeSize e = recordSize e := by
  unfold recordSize completeDataSize syncObjectSize at hf
  unfold completeSize recordSize completeDataSize syncObjectSize
  have hsum : u32 (e.maxDst + e.maxSrc) = e.maxDst + e.maxSrc := u32_of_lt (by omega)
  have hsyncs : u32 ((e.maxDst + e.maxSrc) * 12) = (e.maxDst + e.maxSrc) * 12 :=
    u32_of_lt (by omega)
  rw [hsum, hsyncs, u32_of_lt hf]

theorem fits_of_holds {e : CmdEntry} (hp : h.blocks p =
    some ⟨completeSize e, .completeData (completeDataOf e p)⟩) (hh : Holds h p e) :
    recordSize e < 4294967296 := by
  unfold Holds at hh
  rw [hp, Option.some.injEq, Block.mk.injEq] at hh
  rw [← hh.1]
  exact u32_lt _

section
variable {α β : Type} {R S : α → β → Prop} {xs : List α} {ys : List β}

theorem exists_of_mem_left (hr : List.Forall₂ R xs ys) {x : α} (hx : x ∈ xs) : ∃ y ∈ ys, R x y := by
  induction hr with
  | nil => cases hx
  | @cons a b xs ys hab _ ih =>
    cases List.mem_cons.mp hx with
    | inl heq =>
      rw [heq]
      exact ⟨b, List.mem_cons_self, hab⟩
    | inr hmem =>
      obtain ⟨y, hy, hxy⟩ := ih hmem
      exact ⟨y, List.mem_cons_of_mem _ hy, hxy⟩

theorem exists_of_mem_right (hr : List.Forall₂ R xs ys) {y : β} (hy : y ∈ ys) : ∃ x ∈ xs, R x y := by
  induction hr with
  | nil => cases hy
  | @cons a b xs ys hab _ ih =>
    cases List.mem_cons.mp hy with
    | inl heq =>
      rw [heq]
      exact ⟨a, List.mem_cons_self, hab⟩
    | inr hmem =>
      obtain ⟨x, hx, hxy⟩ := ih hmem
      exact ⟨x, List.mem_cons_of_mem _ hx, hxy⟩

theorem forall₂_imp_right (hr : List.Forall₂ R xs ys) (hs : ∀ x, ∀ y ∈ ys, R x y → S x y) :
    List.Forall₂ S xs ys := by
  induction hr with
  | nil => exact .nil
  | @cons a b xs ys hab _ ih =>
    refine .cons (hs a b List.mem_cons_self hab) (ih fun x y hy => ?_)
    exact hs x y (List.mem_cons_of_mem _ hy)

end

theorem step_remove_null (ht : s.ppsCmdCompleteData d = 0) :
    step s (.remove d n) = some (.status .errorInvalidParams, s) := by
  change removeCmdProcList s d n = _
  unfold removeCmdProcList
  by_cases hd : sysDeviceCount ≤ d
  · rw [if_pos hd]
  · rw [if_neg hd, if_pos ht]

theorem Sound.not_dangling (hs : Sound s g) : ¬Dangling s d := by
  rintro ⟨hp, hnone⟩
  obtain h0 | ⟨cmds, -, hlive⟩ := hs.lists d
  · exact hp h0
  · unfold ListLive at hlive
    rw [hnone] at hlive
    cases hlive

theorem inv_sysTables : Inv sysTables noCommands where
  within := rfl
  lists := fun _ => .inl rfl
  tables := fun _ => .inl rfl
  owned := by
    intro p b hb
    cases hb
  refuses := fun _ _ _ => step_remove_null rfl
  null := rfl
  both := fun _ => Iff.rfl
  apart := fun _ _ h0 => absurd rfl h0

theorem Inv.list_apart (hi : Inv s g) (hp : s.ppfnCmdProcList d ≠ 0) (d' : ℕ) :
    s.ppsCmdCompleteData d' ≠ s.ppfnCmdProcList d ∧
      ∀ l, entriesAt s.heap (s.ppsCmdCompleteData d') = some l → s.ppfnCmdProcList d ∉ l := by
  obtain h0 | ⟨cmds, -, hlist⟩ := hi.lists d
  · exact absurd h0 hp
  · unfold ListLive at hlist
    obtain h0' | ⟨cmds', -, entries, htable, hall⟩ := hi.tables d'
    · rw [h0']
      refine ⟨hp.symm, fun l hl => ?_⟩
      obtain ⟨z, hz⟩ := blocks_of_entriesAt hl
      rw [hi.null] at hz
      cases hz
    · constructor
      · intro heq
        rw [heq, hlist] at htable
        have hcontent := congrArg Block.content (Option.some.inj htable)
        cases hcontent
      · intro l hl hmem
        rw [entriesAt_eq htable] at hl
        rw [← Option.some.inj hl] at hmem
        obtain ⟨e, -, hholds⟩ := exists_of_mem_left hall hmem
        unfold Holds at hholds
        rw [hlist] at hholds
        have hcontent := congrArg Block.content (Option.some.inj hholds)
        cases hcontent

theorem not_sound_of_lost {p : ℕ} {b : Block Content} (hb : s.heap.blocks p = some b)
    (hlists : ∀ d, s.ppfnCmdProcList d ≠ p) (htables : ∀ d, s.ppsCmdCompleteData d ≠ p ∧
      ∀ l, entriesAt s.heap (s.ppsCmdCompleteData d) = some l → p ∉ l) : ¬Sound s g := by
  intro hs
  obtain ⟨d, hd | hd | ⟨l, hl, hmem⟩⟩ := hs.owned p b hb
  · exact hlists d hd
  · exact (htables d).1 hd
  · exact (htables d).2 l hl hmem

theorem Registers.kept {ptrs : List ℕ} (hr : Registers s s' c p t ptrs) {b : Block Content}
    (hb : s.heap.blocks q = some b) : s'.heap.blocks q = some b := by
  have hne {x : ℕ} (hx : s.heap.blocks x = none) : q ≠ x := by
    intro hqx
    rw [hqx, hx] at hb
    cases hb
  rw [hr.others q (hne hr.fresh.1) (hne hr.fresh.2.1) fun hmem => hne (hr.fresh.2.2 q hmem) rfl]
  exact hb

theorem Registers.table_kept {ptrs : List ℕ} (hr : Registers s s' c p t ptrs)
    (ht : TableLive s.heap q cmds) : TableLive s'.heap q cmds := by
  obtain ⟨entries, htable, hall⟩ := ht
  exact ⟨entries, hr.kept htable, hall.imp fun _ _ hh => hr.kept hh⟩

theorem Inv.registers {ptrs : List ℕ} (hi : Inv s g) (hp0 : s.ppfnCmdProcList c.devIndex = 0)
    (ht0 : s.ppsCmdCompleteData c.devIndex = 0) (hr : Registers s s' c p t ptrs)
    (hfits : ∀ e ∈ c.cmds, recordSize e < 4294967296) :
    Inv s' { g with registered := Function.update g.registered c.devIndex (some c.cmds) } := by
  have hlist (d : ℕ) (hd : d ≠ c.devIndex) : s'.ppfnCmdProcList d = s.ppfnCmdProcList d := by
    rw [hr.ppfn]
    exact Function.update_of_ne hd _ _
  have htable (d : ℕ) (hd : d ≠ c.devIndex) :
      s'.ppsCmdCompleteData d = s.ppsCmdCompleteData d := by
    rw [hr.pps]
    exact Function.update_of_ne hd _ _
  have hp : s'.ppfnCmdProcList c.devIndex = p := by
    rw [hr.ppfn]
    exact Function.update_self _ _ _
  have ht : s'.ppsCmdCompleteData c.devIndex = t := by
    rw [hr.pps]
    exact Function.update_self _ _ _
  -- the list of another index is in use, the new one was not
  have hpnew (d : ℕ) (hd : d ≠ c.devIndex) : s'.ppfnCmdProcList d ≠ p := by
    intro heq
    rw [hlist d hd] at heq
    obtain h0 | ⟨cmds, -, hlive⟩ := hi.lists d
    · exact hr.pos.1 (heq.symm.trans h0)
    · unfold ListLive at hlive
      rw [heq, hr.fresh.1] at hlive
      cases hlive
  constructor
  · constructor
    · exact hi.within
    · intro d
      by_cases hd : d = c.devIndex
      · right
        rw [hd, hp]
        exact ⟨c.cmds, Function.update_self _ _ _, hr.list_new⟩
      · rw [hlist d hd]
        obtain h0 | ⟨cmds, hcmds, hlive⟩ := hi.lists d
        · exact .inl h0
        · exact .inr ⟨cmds, (Function.update_of_ne hd _ _).trans hcmds, hr.kept hlive⟩
    · intro d
      by_cases hd : d = c.devIndex
      · right
        rw [hd, ht]
        refine ⟨c.cmds, Function.update_self _ _ _, ptrs, hr.table_new, ?_⟩
        refine forall₂_imp_right hr.data_new fun q e he hq => ?_
        unfold Holds
        rw [hq, completeSize_eq (hfits e he)]
      · rw [htable d hd]
        obtain h0 | ⟨cmds, hcmds, hlive⟩ := hi.tables d
        · exact .inl h0
        · exact .inr ⟨cmds, (Function.update_of_ne hd _ _).trans hcmds, hr.table_kept hlive⟩
    · intro q b hb
      by_cases hqp : q = p
      · exact ⟨c.devIndex, .inl (hp.trans hqp.symm)⟩
      by_cases hqt : q = t
      · exact ⟨c.devIndex, .inr (.inl (ht.trans hqt.symm))⟩
      by_cases hmem : q ∈ ptrs
      · refine ⟨c.devIndex, .inr (.inr ⟨ptrs, ?_, hmem⟩)⟩
        rw [ht]
        exact entriesAt_eq hr.table_new
      rw [hr.others q hqp hqt hmem] at hb
      obtain ⟨d, hd⟩ := hi.owned q b hb
      have hne : d ≠ c.devIndex := by
        rintro rfl
        rw [hp0, ht0] at hd
        obtain h0 | h0 | ⟨l, hl, -⟩ := hd
        · rw [← h0, hi.null] at hb
          cases hb
        · rw [← h0, hi.null] at hb
          cases hb
        · obtain ⟨z, hz⟩ := blocks_of_entriesAt hl
          rw [hi.null] at hz
          cases hz
      refine ⟨d, ?_⟩
      rw [hlist d hne, htable d hne]
      obtain hq | hq | ⟨l, hl, hmem⟩ := hd
      · exact .inl hq
      · exact .inr (.inl hq)
      · obtain ⟨z, hz⟩ := blocks_of_entriesAt hl
        exact .inr (.inr ⟨l, entriesAt_eq (hr.kept hz), hmem⟩)
    · intro d n hnone
      apply step_remove_null
      have hd : d ≠ c.devIndex := by
        rintro rfl
        have hsome : Function.update g.registered c.devIndex (some c.cmds) c.devIndex = none := hnone
        rw [Function.update_self] at hsome
        cases hsome
      rw [htable d hd]
      obtain h0 | ⟨cmds, hcmds, -⟩ := hi.tables d
      · exact h0
      · have hold : g.registered d = none := (Function.update_of_ne hd _ _).symm.trans hnone
        rw [hcmds] at hold
        cases hold
  · rw [hr.others 0 hr.pos.1.symm hr.pos.2.1.symm hr.pos.2.2]
    exact hi.null
  · intro d
    by_cases hd : d = c.devIndex
    · rw [hd, hp, ht]
      exact ⟨fun h0 => absurd h0 hr.pos.1, fun h0 => absurd h0 hr.pos.2.1⟩
    · rw [hlist d hd, htable d hd]
      exact hi.both d
  · intro d d' h0 heq
    by_cases hd : d = c.devIndex
    · by_cases hd' : d' = c.devIndex
      · rw [hd, hd']
      · rw [hd, hp] at heq
        exact absurd heq.symm (hpnew d' hd')
    · by_cases hd' : d' = c.devIndex
      · rw [hd', hp] at heq
        exact absurd heq (hpnew d hd)
      · rw [hlist d hd] at h0 heq
        rw [hlist d' hd'] at heq
        exact hi.apart d d' h0 heq

theorem Inv.not_sound_again {ptrs : List ℕ} {g' : Ledger} (hi : Inv s g)
    (hp0 : s.ppfnCmdProcList c.devIndex ≠ 0) (hr : Registers s s' c p t ptrs) : ¬Sound s' g' := by
  obtain h0 | ⟨cmds, -, hlive⟩ := hi.lists c.devIndex
  · exact absurd h0 hp0
  have hne {x : ℕ} (hx : s.heap.blocks x = none) : x ≠ s.ppfnCmdProcList c.devIndex := by
    unfold ListLive at hlive
    intro hxp
    rw [hxp, hlive] at hx
    cases hx
  refine not_sound_of_lost (hr.kept hlive) (fun d => ?_) fun d => ?_
  · rw [hr.ppfn]
    by_cases hd : d = c.devIndex
    · rw [hd, Function.update_self]
      exact hne hr.fresh.1
    · rw [Function.update_of_ne hd]
      exact fun heq => hd (hi.apart _ _ hp0 heq.symm).symm
  · rw [hr.pps]
    by_cases hd : d = c.devIndex
    · rw [hd, Function.update_self]
      refine ⟨hne hr.fresh.2.1, fun l hl hmem => ?_⟩
      rw [entriesAt_eq hr.table_new] at hl
      rw [← Option.some.inj hl] at hmem
      exact hne (hr.fresh.2.2 _ hmem) rfl
    · rw [Function.update_of_ne hd]
      obtain ⟨hptr, hentries⟩ := hi.list_apart hp0 d
      refine ⟨hptr, fun l hl => ?_⟩
      obtain h0 | ⟨cmds', -, entries, htable, -⟩ := hi.tables d
      · obtain ⟨z, hz⟩ := blocks_of_entriesAt hl
        rw [h0, hr.others 0 hr.pos.1.symm hr.pos.2.1.symm hr.pos.2.2, hi.null] at hz
        cases hz
      · rw [entriesAt_eq (hr.kept htable)] at hl
        rw [← Option.some.inj hl]
        exact hentries entries (entriesAt_eq htable)

theorem Inv.not_sound_refused {g' : Ledger} (hi : Inv s g) (hp0 : s.ppfnCmdProcList d ≠ 0) :
    ¬Sound { s with ppfnCmdProcList := Function.update s.ppfnCmdProcList d 0 } g' := by
  obtain h0 | ⟨cmds, -, hlive⟩ := hi.lists d
  · exact absurd h0 hp0
  refine not_sound_of_lost hlive (fun d' => ?_) fun d' => hi.list_apart hp0 d'
  dsimp only
  by_cases hd : d' = d
  · rw [hd, Function.update_self]
    exact hp0.symm
  · rw [Function.update_of_ne hd]
    exact fun heq => hd (hi.apart _ _ hp0 heq.symm).symm

/-- A registration keeps the tables sound exactly if it is harmless. -/
theorem Inv.register (hi : Inv s g) (hr : registerCmdProcList s c = some (r, s')) :
    (Harmless s (.register c) → Inv s' (record g (.register c, r))) ∧
      (¬Harmless s (.register c) → ¬Sound s' (record g (.register c, r))) := by
  obtain ⟨hindex, hreply, hs⟩ | ⟨hindex, hlist, hreply, hs⟩ | ⟨hindex, hlist, hends⟩ :=
    register_cases hr
  · rw [hreply, hs]
    exact ⟨fun _ => hi, fun hnot => absurd (.inl hindex) hnot⟩
  · rw [hreply, hs]
    have hcase : Harmless s (.register c) ↔ s.ppfnCmdProcList c.devIndex = 0 := by
      constructor
      · rintro (hbad | ⟨hp0, -, -⟩)
        · exact absurd hbad (by omega)
        · exact hp0
      · exact fun hp0 => .inr ⟨hp0, (hi.both _).mp hp0, .inl hlist⟩
    rw [hcase]
    refine ⟨fun hp0 => ?_, fun hp0 => hi.not_sound_refused hp0⟩
    have hsame : Function.update s.ppfnCmdProcList c.devIndex 0 = s.ppfnCmdProcList := by
      rw [← hp0, Function.update_eq_self]
    rw [hsame]
    exact hi
  · have hcase : Harmless s (.register c) ↔ s.ppfnCmdProcList c.devIndex = 0 ∧ Complete c := by
      constructor
      · rintro (hbad | ⟨hp0, -, hnone | hcomplete⟩)
        · exact absurd hbad (by omega)
        · exact absurd hnone hlist
        · exact ⟨hp0, hcomplete⟩
      · exact fun hboth => .inr ⟨hboth.1, (hi.both _).mp hboth.1, .inr hboth.2⟩
    rw [hcase]
    cases hends with
    | overrun hover =>
      refine ⟨fun hboth => absurd hboth.2.count_lt (by omega), fun _ hs => ?_⟩
      have hwithin := hs.within
      cases hwithin
    | failed hincomplete hdangling =>
      exact ⟨fun hboth => absurd hboth.2 hincomplete, fun _ hs => hs.not_dangling hdangling⟩
    | @done p t ptrs hregs =>
      constructor
      · exact fun hboth => hi.registers hboth.1 ((hi.both _).mp hboth.1) hregs hboth.2.fits
      · intro hnot hs
        have hp0 : s.ppfnCmdProcList c.devIndex = 0 := by
          by_contra hp0
          exact hi.not_sound_again hp0 hregs hs
        refine hnot ⟨hp0, hregs.count_lt, ?_, hregs.data, fun e he => ?_⟩
        · rw [hregs.table]
          exact Option.some_ne_none t
        · -- the table is sound, so no size has wrapped
          have htd : s'.ppsCmdCompleteData c.devIndex = t := by
            rw [hregs.pps]
            exact Function.update_self _ _ _
          obtain h0 | ⟨cmds, hcmds, entries, htable, hall⟩ := hs.tables c.devIndex
          · exact absurd (htd.symm.trans h0) hregs.pos.2.1
          · have hcs : cmds = c.cmds :=
              Option.some.inj (hcmds.symm.trans (Function.update_self _ _ _))
            rw [htd, hregs.table_new] at htable
            have hentries : ptrs = entries :=
              Content.completeTable.inj (congrArg Block.content (Option.some.inj htable))
            rw [← hentries, hcs] at hall
            have hboth : List.Forall₂ (fun _ e => recordSize e < 4294967296) ptrs c.cmds :=
              List.Forall₂.mp (fun _ _ hq hh => fits_of_holds hq hh) hregs.data_new hall
            obtain ⟨-, -, hfit⟩ := exists_of_mem_right hboth he
            exact hfit

theorem Inv.remove (hi : Inv s g) (hr : removeCmdProcList s d n = some (r, s')) :
    (Harmless s (.remove d n) → Inv s' (record g (.remove d n, r))) ∧
      (¬Harmless s (.remove d n) → ¬Sound s' (record g (.remove d n, r))) := by
  unfold removeCmdProcList at hr
  split at hr
  · rename_i hindex
    have heq := Option.some.inj hr
    rw [Prod.mk.injEq] at heq
    rw [← heq.1, ← heq.2]
    exact ⟨fun _ => hi, fun hnot => absurd (.inl hindex) hnot⟩
  · rename_i hindex
    split at hr
    · rename_i hnull
      have heq := Option.some.inj hr
      rw [Prod.mk.injEq] at heq
      rw [← heq.1, ← heq.2]
      exact ⟨fun _ => hi, fun hnot => absurd (.inr hnull) hnot⟩
    · rename_i htable
      obtain ⟨s₁, hfree, hr⟩ := Option.map_eq_some_iff.mp hr
      rw [Prod.mk.injEq] at hr
      rw [← hr.1, ← hr.2]
      refine ⟨fun hor => absurd hor (not_or.mpr ⟨hindex, htable⟩), fun _ hs => ?_⟩
      obtain ⟨hlist, -, hgone, -⟩ := freeTables_spec hfree
      have hp : s.ppfnCmdProcList d ≠ 0 := fun h0 => htable ((hi.both d).mp h0)
      refine hs.not_dangling (d := d) ?_
      unfold Dangling
      rw [hlist]
      exact ⟨hp, hgone hp⟩

theorem Inv.step (hi : Inv s g) {op : Op} (hr : step s op = some (r, s')) :
    (Harmless s op → Inv s' (record g (op, r))) ∧
      (¬Harmless s op → ¬Sound s' (record g (op, r))) := by
  cases op with
  | register c => exact hi.register hr
  | remove d n => exact hi.remove hr

/-- Over any run of registrations and removals the tables are sound in every state exactly if no
    registration fails behind its first allocation or follows another one, and no removal finds a
    table. -/
theorem command_tables_iff {l : List (Op × Reply)} (h : Run step CountKept sysTables l s) :
    (∀ l' u, l' <+: l → Run step CountKept sysTables l' u → Sound u (l'.foldl record noCommands)) ↔
      Run step (fun u op => CountKept u op ∧ Harmless u op) sysTables l s :=
  h.sound_ledger_iff Inv Sound record inv_sysTables (fun _ _ hi => hi.toSound)
    (fun _ _ _ _ _ hi _ hgood hs => (hi.step hs).1 hgood)
    fun _ _ _ _ _ hi _ hbad hs => (hi.step hs).2 hbad

end

def completes (c : RegisterCall) : Bool :=
  c.count * pointerSize < 4294967296 && c.table.isSome &&
    (List.range c.count).all (fun i => (c.data i).isSome) &&
    c.cmds.all fun e => recordSize e < 4294967296

theorem complete_of_completes {c : RegisterCall} (h : completes c = true) : Complete c := by
  unfold completes at h
  simp only [Bool.and_eq_true, decide_eq_true_eq, List.all_eq_true, List.mem_range] at h
  obtain ⟨⟨⟨hlt, htable⟩, hdata⟩, hfits⟩ := h
  refine ⟨hlt, ?_, fun i hi => ?_, hfits⟩
  · exact Option.isSome_iff_ne_none.mp htable
  · exact Option.isSome_iff_ne_none.mp (hdata i hi)

def countKept (s : SysTables) : Op → Bool
  | .register _ => true
  | .remove d n => (entriesAt s.heap (s.ppsCmdCompleteData d)).all fun l => n = l.length

theorem countKept_sound {s : SysTables} {op : Op} (h : countKept s op = true) : CountKept s op := by
  cases op with
  | register c => trivial
  | remove d n =>
    intro l hl
    unfold countKept at h
    dsimp only at h
    rw [hl, Option.all_some] at h
    exact of_decide_eq_true h

def harmless (s : SysTables) : Op → Bool
  | .register c => s.ppfnCmdProcList c.devIndex = 0 && s.ppsCmdCompleteData c.devIndex = 0 &&
      (c.list.isNone || completes c)
  | .remove d _ => s.ppsCmdCompleteData d = 0

theorem harmless_sound {s : SysTables} {op : Op} (h : harmless s op = true) : Harmless s op := by
  cases op with
  | register c =>
    unfold harmless at h
    simp only [Bool.and_eq_true, decide_eq_true_eq, Bool.or_eq_true, Option.isNone_iff_eq_none] at h
    exact .inr ⟨h.1.1, h.1.2, h.2.imp_right complete_of_completes⟩
  | remove d n => exact .inr (of_decide_eq_true h)

/-- The flip command, which writes nothing and reads two sync objects. -/
def flipRegister (devIndex : ℕ) (list : Option ℕ) : RegisterCall :=
  ⟨devIndex, [⟨7, 0, 2⟩], list, some 200, fun i => some (300 + i)⟩

def sampleOps : List Op :=
  [.register (flipRegister 3 none), .remove 3 1, .register (flipRegister 3 (some 100)), .remove 5 1]

theorem command_tables_sample : ∃ l s, exec step sysTables sampleOps = some (l, s) ∧
    Sound s (l.foldl record noCommands) ∧ s.ppfnCmdProcList 3 = 100 := by
  have hsome : (exec step sysTables sampleOps).map (fun r => r.2.ppfnCmdProcList 3) = some 100 := by
    decide +kernel
  obtain ⟨⟨l, s⟩, hexec, hlook⟩ := Option.map_eq_some_iff.mp hsome
  have hallowed : Allowed step (fun s op => (countKept s op && harmless s op) = true) sysTables
      sampleOps := allowed_of_allows (by decide +kernel)
  have hgood : Run step (fun s op => CountKept s op ∧ Harmless s op) sysTables l s :=
    (Run.of_allowed hexec hallowed).mono fun _ _ hop => by
      rw [Bool.and_eq_true] at hop
      exact ⟨countKept_sound hop.1, harmless_sound hop.2⟩
  have hrun : Run step CountKept sysTables l s := hgood.mono fun _ _ hop => hop.1
  exact ⟨l, s, hexec, (command_tables_iff hrun).mpr hgood l s (List.prefix_refl l) hrun, hlook⟩

/-- The tables of a device are removed, and the pointers still lead to them. -/
theorem command_tables_dangling : ¬∀ l s, Run step CountKept sysTables l s →
    Sound s (l.foldl record noCommands) := by
  intro hclaim
  let ops : List Op := [.register (flipRegister 3 (some 100)), .remove 3 1]
  have hsome : (exec step sysTables ops).map (fun r => (r.2.ppfnCmdProcList 3,
      (r.2.heap.blocks (r.2.ppfnCmdProcList 3)).isNone)) = some (100, true) := by decide +kernel
  obtain ⟨⟨l, s⟩, hexec, hlook⟩ := Option.map_eq_some_iff.mp hsome
  have hallowed : Allowed step (fun s op => countKept s op = true) sysTables ops :=
    allowed_of_allows (by decide +kernel)
  have hrun : Run step CountKept sysTables l s :=
    (Run.of_allowed hexec hallowed).mono fun _ _ hop => countKept_sound hop
  rw [Prod.mk.injEq, Option.isNone_iff_eq_none] at hlook
  refine (hclaim l s hrun).not_dangling (d := 3) ⟨?_, hlook.2⟩
  rw [hlook.1]
  decide

end PvrServices.CommandTables
