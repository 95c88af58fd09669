import PvrServices.PerProcBase

set_option autoImplicit false

/-!
# What the process data stands for

A state stands for finite maps: which process leads to which record, which record has which handle
of the kernel and which context, and which blocks are allocated. Each step of a connect changes one
of them.
-/
namespace PvrServices.PerProcesses
open Words HashTable Handles Resman

def perProcEntry (p : ℕ) : Entry := ⟨p, .perprocData, handleAllocFlagNone, none, false⟩

/-- The handles of a base are the given ones, each for the data of a process. -/
def KernelHandles (b : HandleBase) (handles : ℕ → Option ℕ) : Prop :=
  handles 0 = none ∧ b.handBatchSize = 0 ∧
    ∃ g, Inv b g ∧ ∀ i, entries b g i = (handles (i + 1)).map perProcEntry

section
variable {b b' : HandleBase} {handles : ℕ → Option ℕ} {p h : ℕ}

theorem map_update_entry {i j : ℕ} {v : Option ℕ} :
    (Function.update handles (i + 1) v (j + 1)).map perProcEntry =
      if j = i then v.map perProcEntry else (handles (j + 1)).map perProcEntry := by
  by_cases hj : j = i
  · rw [if_pos hj, hj, Function.update_self]
  · rw [if_neg hj, Function.update_of_ne (by omega)]

theorem KernelHandles.alloc (k : KernelHandles b handles) (p : ℕ) :
    ∃ e h b', pvrsrvAllocHandle b p .perprocData handleAllocFlagNone = some (e, h, b') ∧
      ((e ≠ .ok ∧ h = 0 ∧ KernelHandles b' handles) ∨
        (e = .ok ∧ h ≠ 0 ∧ handles h = none ∧
          KernelHandles b' (Function.update handles h (some p)))) := by
  obtain ⟨hzero, hbatch, g, hinv, hent⟩ := k
  obtain ⟨e, h, b', g', hr, hcall⟩ :=
    hinv.pvrsrvAllocHandle p (by decide : HandleType.perprocData ≠ .none) handleAllocFlagNone
  have hentry : (⟨p, .perprocData, handleAllocFlagNone, none, handlesBatched b⟩ : Entry) =
      perProcEntry p := by
    unfold handlesBatched
    rw [hbatch]
    rfl
  rw [hentry] at hcall
  have hbatch' : b'.handBatchSize = 0 := hcall.handBatchSize.trans hbatch
  refine ⟨e, h, b', hr, ?_⟩
  cases hcall.outcome with
  | failed herr same =>
    refine .inl ⟨herr, rfl, hzero, hbatch', g', hcall.inv, fun i => ?_⟩
    rw [same i, hent i]
  | shared he data type old new parent same => cases new
  | @fresh i hfree upd =>
    have hnone : entries b g i = none := entries_eq_none_iff.mpr fun hl => hfree hl.busy
    rw [hent i, Option.map_eq_none_iff] at hnone
    refine .inr ⟨rfl, Nat.succ_ne_zero i, hnone, ?_, hbatch', g', hcall.inv, fun j => ?_⟩
    · rw [Function.update_of_ne (Nat.succ_ne_zero i).symm]
      exact hzero
    · rw [upd j, map_update_entry, hent j]
      rfl

/-- The handle of a record is released, and no other with it, as none has a parent. -/
theorem KernelHandles.release (k : KernelHandles b handles) (hh : handles h = some p) :
    ∃ b', pvrsrvReleaseHandle b h .perprocData = some (.ok, b') ∧
      KernelHandles b' (Function.update handles h none) := by
  obtain ⟨hzero, hbatch, g, hinv, hent⟩ := k
  have hpos : h ≠ 0 := by
    intro hh0
    rw [hh0, hzero] at hh
    cases hh
  obtain ⟨i, hi⟩ := Nat.exists_eq_succ_of_ne_zero hpos
  rw [hi] at hh ⊢
  have hi' : entries b g i = some (perProcEntry p) := by
    rw [hent i, hh]
    rfl
  have hget : getHandleStructure b (i + 1) .perprocData = .ok i :=
    (getHandleStructure_eq_ok_iff hinv.core _ _ _).mpr ⟨rfl, _, hi', .inr rfl⟩
  obtain ⟨e, b', g', hr, hcall⟩ := hinv.pvrsrvReleaseHandle (i + 1) .perprocData
  refine ⟨b', ?_⟩
  cases hcall with
  | refused hno => exact absurd hget (hno i)
  | @released i' D _ _ hr' hinv' rel =>
    have hii : i = i' := Except.ok.inj (hget.symm.trans hr')
    rw [← hii] at rel
    have honly (j : ℕ) : j ∈ D ↔ j = i := by
      constructor
      · intro hj
        apply (rel.subtree.up j hj).resolve_right
        intro hpar
        obtain ⟨q, -, hq⟩ := hpar
        have hlive := rel.live j hj
        obtain ⟨x, hx⟩ := Option.ne_none_iff_exists'.mp
          fun hn => entries_eq_none_iff.mp hn hlive
        have hpar := (entries_eq_some_iff.mp hx).2.2.2.2.1
        rw [hent j] at hx
        obtain ⟨_, -, hx⟩ := Option.map_eq_some_iff.mp hx
        rw [← hx, hq] at hpar
        cases hpar
      · intro hj
        rw [hj]
        exact rel.subtree.root
    refine ⟨hr, ?_, rel.base.handBatchSize.trans hbatch, g', hinv', fun j => ?_⟩
    · rw [Function.update_of_ne (Nat.succ_ne_zero i).symm]
      exact hzero
    · rw [rel.content j, map_update_entry, hent j]
      simp only [honly j]
      rfl

theorem KernelHandles.purge (k : KernelHandles b handles) :
    KernelHandles (pvrsrvPurgeHandles b).2 handles := by
  obtain ⟨hzero, hbatch, g, hinv, hent⟩ := k
  obtain ⟨e, b', g', hr, hinv', hsame, -, hsize, -⟩ := hinv.pvrsrvPurgeHandles
  rw [hr]
  refine ⟨hzero, hsize.trans hbatch, g', hinv', fun i => ?_⟩
  rw [hsame i, hent i]

theorem KernelHandles.lookup (k : KernelHandles b handles) {type : HandleType} {d : ℕ} :
    pvrsrvLookupHandle b h type = .ok d ↔
      handles h = some d ∧ (type = .none ∨ type = .perprocData) := by
  obtain ⟨hzero, -, g, hinv, hent⟩ := k
  unfold pvrsrvLookupHandle
  constructor
  · intro hl
    cases hget : getHandleStructure b h type with
    | error e =>
      rw [hget] at hl
      cases hl
    | ok i =>
      obtain ⟨hh, e, he, hty⟩ := (getHandleStructure_eq_ok_iff hinv.core h type i).mp hget
      rw [hget] at hl
      have hd := (entries_eq_some_iff.mp he).2.1
      rw [hent i] at he
      obtain ⟨p, hp, hpe⟩ := Option.map_eq_some_iff.mp he
      have hdata : p = d := by
        rw [← hpe] at hd
        exact hd.trans (Except.ok.inj hl)
      rw [hh, hp, hdata]
      rw [← hpe] at hty
      exact ⟨rfl, hty⟩
  · intro hboth
    obtain ⟨hh, hty⟩ := hboth
    obtain ⟨i, hi⟩ : ∃ i, h = i + 1 := by
      apply Nat.exists_eq_succ_of_ne_zero
      intro hh0
      rw [hh0, hzero] at hh
      cases hh
    rw [hi] at hh ⊢
    have hi' : entries b g i = some (perProcEntry d) := by
      rw [hent i, hh]
      rfl
    have hget := (getHandleStructure_eq_ok_iff hinv.core (i + 1) type i).mpr ⟨rfl, _, hi', hty⟩
    rw [hget]
    exact congrArg Except.ok (entries_eq_some_iff.mp hi').2.1.symm

theorem kernelHandles_created {b₀ : HandleBase} (hb : Created b₀)
    (he : pvrsrvEnableHandlePurging b₀ = (.ok, b)) : KernelHandles b fun _ => none := by
  have hc := Created.purging hb he
  obtain ⟨g, hinv⟩ := hc.inv
  obtain ⟨htotal, hsize, -⟩ := hc.fields
  refine ⟨rfl, hsize, g, hinv, fun i => ?_⟩
  exact entries_eq_none_iff.mpr (not_live_of_empty htotal i)

end

def owners (s : ResList) (c : ℕ) : Option (ℕ × Option ℕ) :=
  (s.contexts c).map fun x => (x.perProc, x.resItemList)

theorem owners_setContext (s : ResList) (c : ℕ) (x : ResmanContext) :
    owners (s.setContext c x) = Function.update (owners s) c (some (x.perProc, x.resItemList)) := by
  funext e
  unfold owners ResList.setContext
  dsimp only
  by_cases he : e = c
  · rw [he, Function.update_self, Function.update_self]
    rfl
  · rw [Function.update_of_ne he, Function.update_of_ne he]

theorem owners_link {s : ResList} {c : ℕ} {x y : ResmanContext} (hx : s.contexts c = some x)
    (hp : y.perProc = x.perProc) (hl : y.resItemList = x.resItemList) :
    owners (s.setContext c y) = owners s := by
  rw [owners_setContext, hp, hl]
  apply Function.update_eq_self_iff.mpr
  unfold owners
  rw [hx]
  rfl

theorem owners_setContextPlace {s t : ResList} {c : Option ℕ} {loc : LinkedChain.Loc Unit ℕ}
    (h : setContextPlace s c loc = some t) : owners t = owners s := by
  cases c with
  | none => rw [← Option.some.inj h]
  | some c =>
    obtain ⟨x, hx, ht⟩ := Option.bind_eq_some_iff.mp h
    rw [← Option.some.inj ht]
    exact owners_link hx rfl rfl

theorem owners_storeContext {s t : ResList} {loc : LinkedChain.Loc Unit ℕ} {v : Option ℕ}
    (h : storeContext s loc v = some t) : owners t = owners s := by
  cases loc with
  | head u => rw [← Option.some.inj h]; rfl
  | next c =>
    obtain ⟨x, hx, ht⟩ := Option.bind_eq_some_iff.mp h
    rw [← Option.some.inj ht]
    exact owners_link hx rfl rfl

/-- No process has anything registered, and each context is for the given one. -/
structure Contexts (s : ResList) (contexts : ℕ → Option ℕ) : Prop where
  shaped : Shaped s fun _ => []
  owners : ∀ c, owners s c = (contexts c).map fun p => (p, none)

section
variable {s : ResList} {contexts : ℕ → Option ℕ} {c p : ℕ}

theorem Contexts.connect (k : Contexts s contexts) (hc : contexts c = none) (p : ℕ) :
    ∃ s', pvrsrvResManConnect s p (some c) = some (.ok c, s') ∧
      Contexts s' (Function.update contexts c (some p)) := by
  have hno : s.contexts c = none := by
    have hown := k.owners c
    rw [hc] at hown
    exact Option.map_eq_none_iff.mp hown
  obtain ⟨s', hr, hshaped, -⟩ := k.shaped.connect hno p
  refine ⟨s', hr, hshaped, fun e => ?_⟩
  obtain ⟨t, ht, hs'⟩ := Option.bind_eq_some_iff.mp hr
  rw [← (Prod.mk.inj (Option.some.inj hs')).2, owners_setContextPlace ht]
  change PerProcesses.owners (s.setContext c ⟨.head (), s.contextList, p, none⟩) e = _
  rw [owners_setContext]
  by_cases he : e = c
  · rw [he, Function.update_self, Function.update_self]
    rfl
  · rw [Function.update_of_ne he, Function.update_of_ne he, k.owners e]

theorem freeTypes_nothing {ctx : ResmanContext} (hctx : s.contexts c = some ctx)
    (hnone : ctx.resItemList = none) (cb : Callbacks) (types : List ResmanType) :
    freeTypes cb c types s = some s := by
  induction types with
  | nil => rfl
  | cons t types ih =>
    have hfind (crit : Criteria) : findResByCrit s c crit = some none := by
      unfold findResByCrit
      rw [hctx, Option.bind_eq_bind, Option.bind_some, hnone]
      cases s.allocated.length <;> rfl
    have hone : freeOneRes cb s c t = some (0, s) := by
      unfold freeOneRes resManFreeResByCriteria freeResourceByCriteria freeWhileFound
      rw [hfind]
      rfl
    unfold freeTypes
    rw [hone]
    exact ih

theorem Contexts.disconnect (k : Contexts s contexts) (hc : contexts c = some p)
    (cb : Callbacks) : ∃ items s', pvrsrvResManDisconnect cb s c false = some (items, s') ∧
      Contexts s' (Function.update contexts c none) := by
  have hown := k.owners c
  rw [hc] at hown
  obtain ⟨ctx, hctx, hboth⟩ := Option.map_eq_some_iff.mp hown
  have hlist : ctx.resItemList = none := (Prod.mk.inj hboth).2
  obtain ⟨t, u, ht, hu, -, -, hshaped⟩ := k.shaped.dropContext hctx
  have hlists : Function.update (fun _ : ℕ => ([] : List ℕ)) c [] = fun _ => [] :=
    Function.update_eq_self_iff.mpr rfl
  rw [hlists] at hshaped
  refine ⟨ctx.resItemList, _, ?_, hshaped, fun e => ?_⟩
  · unfold pvrsrvResManDisconnect
    simp only [Bool.false_eq_true, ↓reduceIte, freeTypes_nothing hctx hlist, Option.bind_eq_bind,
      Option.bind_some, hctx, ht, hu]
  · have hsame : PerProcesses.owners u = PerProcesses.owners s := by
      rw [owners_setContextPlace hu, owners_storeContext ht]
    unfold PerProcesses.owners
    dsimp only
    by_cases he : e = c
    · rw [he, Function.update_self, Function.update_self]
      rfl
    · rw [Function.update_of_ne he, Function.update_of_ne he, ← k.owners e, ← hsame]
      rfl

theorem contexts_init : Contexts resManInit fun _ => none :=
  ⟨shaped_init, fun _ => rfl⟩

end

structure View where
  lookup : ℕ → Option ℕ
  records : ℕ → Option PerProc
  osPrivates : ℕ → Bool
  bases : ℕ → Bool
  handles : ℕ → Option ℕ
  contexts : ℕ → Option ℕ

def View.empty : View := ⟨fun _ => none, fun _ => none, fun _ => false, fun _ => false,
  fun _ => none, fun _ => none⟩

structure NoHandles (b : HandleBase) : Prop where
  free : b.freeHandCount = 0
  total : b.totalHandCount = 0
  batch : b.handBatchSize = 0

structure Represents (s : PerProcs) (v : View) : Prop where
  hashed : Wf hashPid s.hashTab
  lookup : s.hashTab.lookup hashPid = v.lookup
  zero : v.lookup 0 = none
  records : s.records = v.records
  osPrivates : s.osPrivates = v.osPrivates
  bases : ∀ q, (s.bases q).isSome = v.bases q
  noHandles : ∀ q b, s.bases q = some b → NoHandles b
  kernel : KernelHandles s.kernelBase v.handles
  contexts : Contexts s.resman v.contexts

def put {β : Type} (f : ℕ → β) (k : Option ℕ) (v : β) : ℕ → β :=
  k.elim f fun k => Function.update f k v

theorem put_put {β : Type} {f : ℕ → β} {k : Option ℕ} {v w : β} (h : ∀ i ∈ k, f i = w) :
    put (put f k v) k w = f := by
  cases k with
  | none => rfl
  | some i =>
    change Function.update (Function.update f i v) i w = f
    rw [Function.update_idem, ← h i rfl, Function.update_eq_self]

theorem put_self {β : Type} {f : ℕ → β} {k : Option ℕ} {v : β} {i : ℕ} (h : i ∈ k) :
    put f k v i = v := by
  rw [Option.mem_def.mp h]
  exact Function.update_self ..

theorem put_cases {β : Type} (f : ℕ → β) (k : Option ℕ) (v : β) (i : ℕ) :
    (i ∈ k ∧ put f k v i = v) ∨ (i ∉ k ∧ put f k v i = f i) := by
  cases k with
  | none => exact .inr ⟨by simp, rfl⟩
  | some j =>
    by_cases hij : i = j
    · rw [hij]
      exact .inl ⟨rfl, put_self rfl⟩
    · exact .inr ⟨fun h => hij (Option.some.inj h).symm, Function.update_of_ne hij ..⟩

/-- Addresses and handles as they are found in a record: 0 is none. -/
def keyOf (n : ℕ) : Option ℕ := if n = 0 then none else some n

theorem keyOf_of_ne {n : ℕ} (h : n ≠ 0) : keyOf n = some n := if_neg h

def View.add (v : View) (p : ℕ) (x : PerProc) : View where
  lookup := put v.lookup (keyOf x.pid) (some p)
  records := Function.update v.records p (some x)
  osPrivates := put v.osPrivates x.osPrivateData true
  bases := put v.bases x.handleBase true
  handles := put v.handles (keyOf x.perProcData) (some p)
  contexts := put v.contexts x.resManContext (some p)

structure Apart (v : View) (p : ℕ) (x : PerProc) : Prop where
  record : v.records p = none
  lookup : ∀ pid ∈ keyOf x.pid, v.lookup pid = none
  osPrivate : ∀ d ∈ x.osPrivateData, v.osPrivates d = false
  base : ∀ q ∈ x.handleBase, v.bases q = false
  handle : ∀ h ∈ keyOf x.perProcData, v.handles h = none
  context : ∀ c ∈ x.resManContext, v.contexts c = none

section
variable {s : PerProcs} {v : View} {p pid : ℕ} {x : PerProc}

theorem Represents.perProcessData (r : Represents s v) (pid : ℕ) :
    pvrsrvPerProcessData s pid = (v.lookup pid).getD 0 := by
  unfold pvrsrvPerProcessData
  rw [retrieve_eq, r.lookup]

theorem freeHandleBase_noHandles {b : HandleBase} (h : NoHandles b) :
    freeHandleBase b = some (.ok, b) := by
  have hbatch : ¬handlesBatched b = true := by
    unfold handlesBatched
    rw [h.batch]
    decide
  unfold freeHandleBase freeAllHandles
  rw [if_neg hbatch, Option.bind_eq_bind, Option.bind_some, if_pos (h.free.trans h.total.symm)]

theorem freeProcessBase_spec {q : Option ℕ} (hq : ∀ i ∈ q, (s.bases i).isSome = true)
    (hno : ∀ i b, s.bases i = some b → NoHandles b) :
    freeProcessBase s q = some (.ok, { s with bases := put s.bases q none }) := by
  cases q with
  | none => rfl
  | some i =>
    obtain ⟨b, hb⟩ := Option.isSome_iff_exists.mp (hq i rfl)
    unfold freeProcessBase
    simp only [hb, freeHandleBase_noHandles (hno i b hb), Option.bind_eq_bind, Option.bind_some,
      ↓reduceIte]
    rfl

theorem releasePerProcHandle_spec {handles : ℕ → Option ℕ} {h : ℕ}
    (k : KernelHandles s.kernelBase handles) (hh : ∀ i ∈ keyOf h, handles i = some p) :
    ∃ b, releasePerProcHandle s h = some (.ok, { s with kernelBase := b }) ∧
      KernelHandles b (put handles (keyOf h) none) := by
  unfold releasePerProcHandle
  by_cases hzero : h = 0
  · rw [if_pos hzero, hzero]
    exact ⟨s.kernelBase, rfl, k⟩
  · rw [keyOf_of_ne hzero] at hh ⊢
    obtain ⟨b, hr, hk⟩ := k.release (hh h rfl)
    rw [if_neg hzero, hr]
    exact ⟨b, rfl, hk⟩

theorem osPerProcessPrivateDataDeInit_spec (s : PerProcs) (d : Option ℕ) :
    osPerProcessPrivateDataDeInit s d =
      (.ok, { s with osPrivates := put s.osPrivates d false }) := by
  cases d <;> rfl

/-- `FreePerProcessData` takes away the record, whatever part of it has been built, and nothing
    else. -/
theorem Represents.free (r : Represents s { v.add p x with contexts := v.contexts })
    (hzero : v.lookup 0 = none) (a : Apart v p x) :
    ∃ s', freePerProcessData s p = some (.ok, s') ∧ Represents s' v := by
  have hrecord : s.records p = some x := by
    rw [r.records]
    exact Function.update_self ..
  obtain ⟨word, hashTab, os, hrem⟩ : ∃ word hashTab os,
      hashRemoveExtended hashPid s.os s.hashTab x.pid = (word, hashTab, os) := ⟨_, _, _, rfl⟩
  obtain ⟨-, -, hwf, hlookup⟩ := r.hashed.remove hrem
  have hbase := freeProcessBase_spec (s := { s with hashTab := hashTab, os := os })
    (q := x.handleBase) (fun i hi => (r.bases i).trans (put_self hi)) r.noHandles
  obtain ⟨b, hhandle, hkernel⟩ := releasePerProcHandle_spec (p := p)
    (s := { s with
      hashTab := hashTab
      os := os
      bases := put s.bases x.handleBase none })
    (h := x.perProcData) r.kernel fun i hi => put_self hi
  let t : PerProcs := ⟨os, hashTab, Function.update s.records p none,
    put s.osPrivates x.osPrivateData false, put s.bases x.handleBase none, b, s.resman⟩
  refine ⟨t, ?_, ?_⟩
  case refine_1 =>
    unfold freePerProcessData
    simp only [hrecord, hrem, hbase, hhandle, osPerProcessPrivateDataDeInit_spec, thenDo,
      Option.bind_eq_bind, Option.bind_some]
    rfl
  constructor
  · exact hwf
  · change hashTab.lookup hashPid = v.lookup
    rw [hlookup, r.lookup]
    by_cases hpid : x.pid = 0
    · rw [hpid]
      change Function.update (put v.lookup (keyOf x.pid) (some p)) 0 none = v.lookup
      rw [hpid]
      exact Function.update_eq_self_iff.mpr hzero.symm
    · have hput := put_put (f := v.lookup) (v := some p) a.lookup
      rw [keyOf_of_ne hpid] at hput
      change Function.update (put v.lookup (keyOf x.pid) (some p)) x.pid none = v.lookup
      rw [keyOf_of_ne hpid]
      exact hput
  · exact hzero
  · change Function.update s.records p none = v.records
    rw [r.records]
    change Function.update (Function.update v.records p (some x)) p none = v.records
    rw [Function.update_idem, ← a.record, Function.update_eq_self]
  · change put s.osPrivates x.osPrivateData false = v.osPrivates
    rw [r.osPrivates]
    exact put_put a.osPrivate
  · intro q
    have hq := r.bases q
    change (put s.bases x.handleBase none q).isSome = v.bases q
    have hold : put (put v.bases x.handleBase true) x.handleBase false q = v.bases q := by
      rw [put_put a.base]
    cases put_cases s.bases x.handleBase none q with
    | inl hin =>
      rw [hin.2, ← hold, put_self hin.1]
      rfl
    | inr hout =>
      rw [hout.2, hq]
      cases put_cases v.bases x.handleBase true q with
      | inl hin => exact absurd hin.1 hout.1
      | inr hsame => exact hsame.2
  · intro q b hb
    cases put_cases s.bases x.handleBase none q with
    | inl hin => cases hin.2.symm.trans hb
    | inr hout => exact r.noHandles q b (hout.2.symm.trans hb)
  · have hput := put_put (f := v.handles) (v := some p) a.handle
    rw [← hput]
    exact hkernel
  · exact r.contexts

end

end PvrServices.PerProcesses
