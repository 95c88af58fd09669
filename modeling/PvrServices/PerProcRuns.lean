import PvrServices.HandleSafety
import PvrServices.PerProcBuild
import PvrServices.Runs

set_option autoImplicit false

/-!
# Process data over whole runs

Whatever steps of a connect fail, the records are those of the connected processes, and all that is
allocated belongs to one of them. The count of a record wraps after 2^32 connects without a
disconnect.
-/
namespace PvrServices.PerProcesses
open Words HashTable Handles Resman Runs

structure Indexed (records : ℕ → Option PerProc) (field : PerProc → Option ℕ)
    (owner : ℕ → Option ℕ) : Prop where
  owner : ∀ q p, owner q = some p ↔ ∃ x, records p = some x ∧ field x = some q
  has : ∀ p x, records p = some x → (field x).isSome = true

section
variable {records : ℕ → Option PerProc} {field : PerProc → Option ℕ} {owner : ℕ → Option ℕ}
  {p q : ℕ} {x x' : PerProc}

theorem exists_update_record {v : Option PerProc} {r : ℕ} {P : PerProc → Prop} :
    (∃ y, Function.update records p v r = some y ∧ P y) ↔
      (r = p ∧ ∃ y, v = some y ∧ P y) ∨ (r ≠ p ∧ ∃ y, records r = some y ∧ P y) := by
  by_cases hr : r = p
  · rw [hr, Function.update_self]
    simp
  · rw [Function.update_of_ne hr]
    simp [hr]

theorem Indexed.add (h : Indexed records field owner) (hp : records p = none)
    (hx : field x = some q) (hq : owner q = none) :
    Indexed (Function.update records p (some x)) field (Function.update owner q (some p)) where
  owner := by
    intro r t
    rw [exists_update_record]
    by_cases hr : r = q
    · rw [hr, Function.update_self]
      have hno (y : PerProc) (hy : records t = some y) : field y ≠ some q := by
        intro hf
        rw [(h.owner q t).mpr ⟨y, hy, hf⟩] at hq
        cases hq
      constructor
      · intro ht
        exact .inl ⟨(Option.some.inj ht).symm, x, rfl, hx⟩
      · intro hcase
        cases hcase with
        | inl hin => rw [hin.1]
        | inr hout =>
          obtain ⟨-, y, hy, hf⟩ := hout
          exact absurd hf (hno y hy)
    · rw [Function.update_of_ne hr, h.owner]
      constructor
      · intro hy
        refine .inr ⟨?_, hy⟩
        intro htp
        obtain ⟨y, hy, -⟩ := hy
        rw [htp, hp] at hy
        cases hy
      · intro hcase
        cases hcase with
        | inl hin =>
          obtain ⟨-, y, hy, hf⟩ := hin
          rw [← Option.some.inj hy, hx] at hf
          exact absurd (Option.some.inj hf).symm hr
        | inr hout => exact hout.2
  has := by
    intro r y hy
    by_cases hr : r = p
    · rw [hr, Function.update_self] at hy
      rw [← Option.some.inj hy, hx]
      rfl
    · rw [Function.update_of_ne hr] at hy
      exact h.has r y hy

theorem Indexed.drop (h : Indexed records field owner) (hp : records p = some x)
    (hx : field x = some q) :
    Indexed (Function.update records p none) field (Function.update owner q none) where
  owner := by
    intro r t
    rw [exists_update_record]
    by_cases hr : r = q
    · rw [hr, Function.update_self]
      constructor
      · intro ht
        cases ht
      · intro hcase
        cases hcase with
        | inl hin =>
          obtain ⟨-, y, hy, -⟩ := hin
          cases hy
        | inr hout =>
          have ht := (h.owner q t).mpr hout.2
          rw [(h.owner q p).mpr ⟨x, hp, hx⟩] at ht
          exact absurd (Option.some.inj ht).symm hout.1
    · rw [Function.update_of_ne hr, h.owner]
      constructor
      · intro hy
        refine .inr ⟨?_, hy⟩
        intro htp
        obtain ⟨y, hy, hf⟩ := hy
        rw [htp, hp] at hy
        rw [← Option.some.inj hy, hx] at hf
        exact hr (Option.some.inj hf).symm
      · intro hcase
        cases hcase with
        | inl hin =>
          obtain ⟨-, y, hy, -⟩ := hin
          cases hy
        | inr hout => exact hout.2
  has := by
    intro r y hy
    by_cases hr : r = p
    · rw [hr, Function.update_self] at hy
      cases hy
    · rw [Function.update_of_ne hr] at hy
      exact h.has r y hy

theorem Indexed.change (h : Indexed records field owner) (hp : records p = some x)
    (hx : field x' = field x) : Indexed (Function.update records p (some x')) field owner where
  owner := by
    intro r t
    rw [exists_update_record, h.owner]
    constructor
    · intro hy
      obtain ⟨y, hy, hf⟩ := hy
      by_cases ht : t = p
      · rw [ht, hp] at hy
        rw [← Option.some.inj hy, ← hx] at hf
        exact .inl ⟨ht, x', rfl, hf⟩
      · exact .inr ⟨ht, y, hy, hf⟩
    · intro hcase
      cases hcase with
      | inl hin =>
        obtain ⟨ht, y, hy, hf⟩ := hin
        rw [← Option.some.inj hy, hx] at hf
        exact ⟨x, by rw [ht, hp], hf⟩
      | inr hout => exact hout.2
  has := by
    intro r y hy
    by_cases hr : r = p
    · rw [hr, Function.update_self] at hy
      rw [← Option.some.inj hy, hx]
      exact h.has p x hp
    · rw [Function.update_of_ne hr] at hy
      exact h.has r y hy

theorem Indexed.at (h : Indexed records field owner) (hp : records p = some x) :
    ∃ q, field x = some q ∧ owner q = some p := by
  obtain ⟨q, hq⟩ := Option.isSome_iff_exists.mp (h.has p x hp)
  exact ⟨q, hq, (h.owner q p).mpr ⟨x, hp, hq⟩⟩

/-- Each record has its own one of a resource, and no other one is live. -/
def OneEach (records : ℕ → Option PerProc) (field : PerProc → Option ℕ) (live : ℕ → Prop) : Prop :=
  (∀ p x, records p = some x → ∃ q, field x = some q ∧ live q) ∧
    ∀ q, live q → ∃! p, ∃ x, records p = some x ∧ field x = some q

theorem Indexed.oneEach (h : Indexed records field owner) {live : ℕ → Prop}
    (hlive : ∀ q, live q ↔ ∃ p, owner q = some p) : OneEach records field live := by
  constructor
  · intro p x hp
    obtain ⟨q, hq, ho⟩ := h.at hp
    exact ⟨q, hq, (hlive q).mpr ⟨p, ho⟩⟩
  · intro q hq
    obtain ⟨p, hp⟩ := (hlive q).mp hq
    refine ⟨p, (h.owner q p).mp hp, fun r hr => ?_⟩
    have ho := (h.owner q r).mpr hr
    rw [hp] at ho
    exact (Option.some.inj ho).symm

end

structure Placed (v : View) : Prop where
  lookup : Indexed v.records (fun x => keyOf x.pid) v.lookup
  osPrivate : ∃ owner, Indexed v.records PerProc.osPrivateData owner ∧
    ∀ d, v.osPrivates d = (owner d).isSome
  base : ∃ owner, Indexed v.records PerProc.handleBase owner ∧
    ∀ q, v.bases q = (owner q).isSome
  handle : Indexed v.records (fun x => keyOf x.perProcData) v.handles
  context : Indexed v.records PerProc.resManContext v.contexts
  pos : ∀ p x, v.records p = some x → p ≠ 0

def View.drop (v : View) (p : ℕ) (x : PerProc) : View where
  lookup := put v.lookup (keyOf x.pid) none
  records := Function.update v.records p none
  osPrivates := put v.osPrivates x.osPrivateData false
  bases := put v.bases x.handleBase false
  handles := put v.handles (keyOf x.perProcData) none
  contexts := put v.contexts x.resManContext none

theorem isSome_update {own : ℕ → Option ℕ} {q : ℕ} {r : Option ℕ} {live : ℕ → Bool}
    (h : ∀ i, live i = (own i).isSome) (i : ℕ) :
    Function.update live q r.isSome i = (Function.update own q r i).isSome := by
  by_cases hi : i = q
  · rw [hi, Function.update_self, Function.update_self]
  · rw [Function.update_of_ne hi, Function.update_of_ne hi]
    exact h i

section
variable {s : PerProcs} {v : View} {p pid : ℕ} {x x' : PerProc}

theorem Placed.change (h : Placed v) (hp : v.records p = some x) (hpid : x'.pid = x.pid)
    (hos : x'.osPrivateData = x.osPrivateData) (hbase : x'.handleBase = x.handleBase)
    (hhandle : x'.perProcData = x.perProcData) (hcontext : x'.resManContext = x.resManContext) :
    Placed { v with records := Function.update v.records p (some x') } := by
  obtain ⟨own, ho, hlive⟩ := h.osPrivate
  obtain ⟨own', ho', hlive'⟩ := h.base
  refine ⟨h.lookup.change hp ?_, ⟨own, ho.change hp hos, hlive⟩, ⟨own', ho'.change hp hbase, hlive'⟩,
    h.handle.change hp ?_, h.context.change hp hcontext, ?_⟩
  · rw [hpid]
  · rw [hhandle]
  · intro r y hy
    by_cases hr : r = p
    · rw [hr]
      exact h.pos p x hp
    · dsimp only at hy
      rw [Function.update_of_ne hr] at hy
      exact h.pos r y hy

theorem Placed.add (h : Placed v) (a : Apart v p x) (hp : p ≠ 0) (hpid : x.pid ≠ 0)
    (hos : x.osPrivateData.isSome = true) (hbase : x.handleBase.isSome = true)
    (hhandle : x.perProcData ≠ 0) (hcontext : x.resManContext.isSome = true) :
    Placed (v.add p x) := by
  obtain ⟨d, hd⟩ := Option.isSome_iff_exists.mp hos
  obtain ⟨q, hq⟩ := Option.isSome_iff_exists.mp hbase
  obtain ⟨c, hc⟩ := Option.isSome_iff_exists.mp hcontext
  obtain ⟨own, ho, hlive⟩ := h.osPrivate
  obtain ⟨own', ho', hlive'⟩ := h.base
  have hnone {live : ℕ → Bool} {own : ℕ → Option ℕ} {i : ℕ} (hl : ∀ i, live i = (own i).isSome)
      (hi : live i = false) : own i = none := by
    rw [hl i] at hi
    exact Option.not_isSome_iff_eq_none.mp (by rw [hi]; decide)
  have hkey := keyOf_of_ne hpid
  have hkey' := keyOf_of_ne hhandle
  constructor
  · have hi := h.lookup.add a.record hkey (a.lookup _ hkey)
    change Indexed _ _ (put v.lookup (keyOf x.pid) (some p))
    rw [hkey]
    exact hi
  · refine ⟨_, ho.add a.record hd (hnone hlive (a.osPrivate d hd)), fun i => ?_⟩
    change put v.osPrivates x.osPrivateData true i = _
    rw [hd]
    exact isSome_update (r := some p) hlive i
  · refine ⟨_, ho'.add a.record hq (hnone hlive' (a.base q hq)), fun i => ?_⟩
    change put v.bases x.handleBase true i = _
    rw [hq]
    exact isSome_update (r := some p) hlive' i
  · have hi := h.handle.add a.record hkey' (a.handle _ hkey')
    change Indexed _ _ (put v.handles (keyOf x.perProcData) (some p))
    rw [hkey']
    exact hi
  · have hi := h.context.add a.record hc (a.context c hc)
    change Indexed _ _ (put v.contexts x.resManContext (some p))
    rw [hc]
    exact hi
  · intro r y hy
    by_cases hr : r = p
    · rw [hr]
      exact hp
    · exact h.pos r y ((Function.update_of_ne hr ..).symm.trans hy)

theorem Placed.drop (h : Placed v) (hp : v.records p = some x) : Placed (v.drop p x) := by
  obtain ⟨own, ho, hlive⟩ := h.osPrivate
  obtain ⟨own', ho', hlive'⟩ := h.base
  obtain ⟨d, hd, -⟩ := ho.at hp
  obtain ⟨q, hq, -⟩ := ho'.at hp
  obtain ⟨k, hk, -⟩ := h.lookup.at hp
  obtain ⟨i, hi, -⟩ := h.handle.at hp
  obtain ⟨c, hc, -⟩ := h.context.at hp
  constructor
  · change Indexed _ _ (put v.lookup (keyOf x.pid) none)
    rw [hk]
    exact h.lookup.drop hp hk
  · refine ⟨_, ho.drop hp hd, fun j => ?_⟩
    change put v.osPrivates x.osPrivateData false j = _
    rw [hd]
    exact isSome_update (r := none) hlive j
  · refine ⟨_, ho'.drop hp hq, fun j => ?_⟩
    change put v.bases x.handleBase false j = _
    rw [hq]
    exact isSome_update (r := none) hlive' j
  · change Indexed _ _ (put v.handles (keyOf x.perProcData) none)
    rw [hi]
    exact h.handle.drop hp hi
  · change Indexed _ _ (put v.contexts x.resManContext none)
    rw [hc]
    exact h.context.drop hp hc
  · intro r y hy
    by_cases hr : r = p
    · rw [hr] at hy
      cases (Function.update_self ..).symm.trans hy
    · exact h.pos r y ((Function.update_of_ne hr ..).symm.trans hy)

theorem put_none_of_mem {β : Type} {f : ℕ → β} {k : Option ℕ} {w : β} : ∀ i ∈ k, put f k w i = w :=
  fun _ hi => put_self hi

theorem View.drop_apart (v : View) (p : ℕ) (x : PerProc) : Apart (v.drop p x) p x :=
  ⟨Function.update_self .., put_none_of_mem, put_none_of_mem, put_none_of_mem, put_none_of_mem,
    put_none_of_mem⟩

theorem Placed.drop_add (h : Placed v) (hp : v.records p = some x) : (v.drop p x).add p x = v := by
  obtain ⟨own, ho, hlive⟩ := h.osPrivate
  obtain ⟨own', ho', hlive'⟩ := h.base
  have hback {live : ℕ → Bool} {own : ℕ → Option ℕ} {field : PerProc → Option ℕ}
      (hi : Indexed v.records field own) (hl : ∀ i, live i = (own i).isSome) :
      ∀ i ∈ field x, live i = true := by
    intro i hx
    rw [hl i, (hi.owner i p).mpr ⟨x, hp, hx⟩]
    rfl
  have hsame {own : ℕ → Option ℕ} {field : PerProc → Option ℕ}
      (hi : Indexed v.records field own) : ∀ i ∈ field x, own i = some p :=
    fun i hx => (hi.owner i p).mpr ⟨x, hp, hx⟩
  unfold View.drop View.add
  dsimp only
  rw [put_put (hsame h.lookup), put_put (hback ho hlive), put_put (hback ho' hlive'),
    put_put (hsame h.handle), put_put (hsame h.context), Function.update_idem, ← hp,
    Function.update_eq_self]

end

inductive PerProcOp where
  | connect (pid : ℕ) (mem : ConnectMem)
  | disconnect (pid : ℕ)

/-- The services, and the connects of each process that no disconnect has answered. -/
abbrev Sessions := PerProcs × (ℕ → ℕ)

def countConnect (count : ℕ → ℕ) (pid : ℕ) (e : PvrsrvError) : ℕ → ℕ :=
  if e = .ok then Function.update count pid (count pid + 1) else count

def perProcStep (cb : Callbacks) (s : Sessions) : PerProcOp → Option (PvrsrvError × Sessions)
  | .connect pid mem => do
    let (e, t) ← pvrsrvPerProcessDataConnect s.1 pid mem
    some (e, (t, countConnect s.2 pid e))
  | .disconnect pid => do
    let t ← pvrsrvPerProcessDataDisconnect cb s.1 pid
    some (.ok, (t, Function.update s.2 pid (s.2 pid - 1)))

structure Unallocated (s : PerProcs) (mem : ConnectMem) : Prop where
  record : ∀ p ∈ mem.record, p ≠ 0 ∧ s.records p = none
  osPrivate : ∀ d ∈ mem.osPrivate, s.osPrivates d = false
  base : ∀ q ∈ mem.base, s.bases q = none
  context : ∀ c ∈ mem.context, s.resman.contexts c = none

def Proper (s : Sessions) : PerProcOp → Prop
  | .connect pid mem => pid ≠ 0 ∧ Unallocated s.1 mem
  | .disconnect pid => pid ≠ 0 ∧ 0 < s.2 pid

def Countable (s : Sessions) : PerProcOp → Prop
  | .connect pid _ => s.2 pid + 1 < 4294967296
  | .disconnect _ => True

/-- The services when `PVRSRVPerProcessDataInit` is done. -/
structure Started (s : PerProcs) : Prop where
  hashTab : ∃ os os', hashCreateExtended os hashTabInitSize = (some s.hashTab, os')
  records : s.records = fun _ => none
  osPrivates : s.osPrivates = fun _ => false
  bases : s.bases = fun _ => none
  kernelBase : ∃ b, Created b ∧ pvrsrvEnableHandlePurging b = (.ok, s.kernelBase)
  resman : s.resman = resManInit

/-- The table leads to the records of the connected processes, each counting its connects, and all
    that is live belongs to one of them. -/
structure Kept (s : Sessions) : Prop where
  connected : ∀ pid ≠ 0, pvrsrvPerProcessData s.1 pid ≠ 0 ↔ 0 < s.2 pid
  mapped : ∀ pid p, p ≠ 0 →
    (pvrsrvPerProcessData s.1 pid = p ↔ ∃ x, s.1.records p = some x ∧ x.pid = pid)
  counted : ∀ p x, s.1.records p = some x → p ≠ 0 ∧ x.pid ≠ 0 ∧ x.refCount = s.2 x.pid
  osPrivate : OneEach s.1.records PerProc.osPrivateData fun d => s.1.osPrivates d = true
  base : OneEach s.1.records PerProc.handleBase fun q => (s.1.bases q).isSome = true
  context : OneEach s.1.records PerProc.resManContext fun c =>
    (s.1.resman.contexts c).isSome = true
  contextOf : ∀ p x c ctx, s.1.records p = some x → x.resManContext = some c →
    s.1.resman.contexts c = some ctx → ctx.perProc = p
  handle : OneEach s.1.records (fun x => some x.perProcData) fun h =>
    ∃ type d, pvrsrvLookupHandle s.1.kernelBase h type = .ok d
  handleOf : ∀ p x, s.1.records p = some x →
    pvrsrvLookupHandle s.1.kernelBase x.perProcData .perprocData = .ok p

structure Settled (s : Sessions) (v : View) : Prop where
  view : Represents s.1 v
  placed : Placed v
  counted : ∀ p x, v.records p = some x → x.refCount = s.2 x.pid
  connected : ∀ pid ≠ 0, 0 < s.2 pid ↔ ∃ p, v.lookup pid = some p
  small : ∀ pid, s.2 pid < 4294967296

section
variable {s : Sessions} {v : View} {p pid : ℕ} {x x' : PerProc} {cb : Callbacks}

theorem keyOf_eq_some_iff {n k : ℕ} : keyOf n = some k ↔ n ≠ 0 ∧ n = k := by
  unfold keyOf
  by_cases hn : n = 0 <;> simp [hn]

theorem Placed.found (h : Placed v) (hx : v.records p = some x) :
    x.pid ≠ 0 ∧ v.lookup x.pid = some p := by
  obtain ⟨k, hk, ho⟩ := h.lookup.at hx
  obtain ⟨hne, hpid⟩ := keyOf_eq_some_iff.mp hk
  rw [hpid]
  exact ⟨hpid ▸ hne, ho⟩

theorem Placed.handleOf (h : Placed v) (hx : v.records p = some x) :
    x.perProcData ≠ 0 ∧ v.handles x.perProcData = some p := by
  obtain ⟨k, hk, ho⟩ := h.handle.at hx
  obtain ⟨hne, hh⟩ := keyOf_eq_some_iff.mp hk
  rw [hh]
  exact ⟨hh ▸ hne, ho⟩

theorem Settled.kept (h : Settled s v) : Kept s := by
  have r := h.view
  have hrec := r.records
  obtain ⟨own, ho, hlive⟩ := h.placed.osPrivate
  obtain ⟨own', ho', hlive'⟩ := h.placed.base
  constructor
  · intro pid hne
    rw [r.perProcessData, h.connected pid hne]
    cases hl : v.lookup pid with
    | none => simp
    | some p =>
      obtain ⟨x, hx, -⟩ := (h.placed.lookup.owner pid p).mp hl
      simpa using h.placed.pos p x hx
  · intro pid p hp
    rw [r.perProcessData, hrec]
    have hiff : (v.lookup pid).getD 0 = p ↔ v.lookup pid = some p := by
      cases v.lookup pid with
      | none => simp [hp.symm]
      | some q => simp
    rw [hiff, h.placed.lookup.owner]
    refine exists_congr fun x => and_congr_right fun hx => ?_
    rw [keyOf_eq_some_iff]
    exact ⟨fun hk => hk.2, fun hk => ⟨(h.placed.found hx).1, hk⟩⟩
  · intro p x hx
    rw [hrec] at hx
    exact ⟨h.placed.pos p x hx, (h.placed.found hx).1, h.counted p x hx⟩
  · rw [hrec, r.osPrivates]
    exact ho.oneEach fun q => by rw [hlive q, Option.isSome_iff_exists]
  · rw [hrec]
    exact ho'.oneEach fun q => by rw [r.bases q, hlive' q, Option.isSome_iff_exists]
  · rw [hrec]
    apply h.placed.context.oneEach
    intro c
    have hown := r.contexts.owners c
    unfold owners at hown
    rw [← Option.isSome_map (f := fun x : ResmanContext => (x.perProc, x.resItemList)), hown,
      Option.isSome_map, Option.isSome_iff_exists]
  · intro p x c ctx hx hc hctx
    rw [hrec] at hx
    have hown := r.contexts.owners c
    unfold owners at hown
    rw [hctx, (h.placed.context.owner c p).mpr ⟨x, hx, hc⟩] at hown
    exact (Prod.mk.inj (Option.some.inj hown)).1
  · rw [hrec]
    have heach : OneEach v.records (fun x => keyOf x.perProcData)
        fun h => ∃ p, v.handles h = some p := h.placed.handle.oneEach fun _ => Iff.rfl
    have hlook (i : ℕ) : (∃ type d, pvrsrvLookupHandle s.1.kernelBase i type = .ok d) ↔
        ∃ p, v.handles i = some p := by
      simp only [r.kernel.lookup]
      constructor
      · intro hl
        obtain ⟨type, d, hd, -⟩ := hl
        exact ⟨d, hd⟩
      · intro hl
        obtain ⟨d, hd⟩ := hl
        exact ⟨.none, d, hd, .inl rfl⟩
    constructor
    · intro p x hx
      exact ⟨x.perProcData, rfl, (hlook _).mpr ⟨p, (h.placed.handleOf hx).2⟩⟩
    · intro i hi
      obtain ⟨p, hp, huniq⟩ := heach.2 i ((hlook i).mp hi)
      have hkey (x : PerProc) (q : ℕ) (hx : v.records q = some x) :
          some x.perProcData = some i ↔ keyOf x.perProcData = some i := by
        rw [keyOf_eq_some_iff, Option.some.injEq]
        exact ⟨fun hxi => ⟨(h.placed.handleOf hx).1, hxi⟩, fun hk => hk.2⟩
      refine ⟨p, ?_, fun q hq => huniq q ?_⟩
      · obtain ⟨x, hx, hxi⟩ := hp
        exact ⟨x, hx, (hkey x p hx).mpr hxi⟩
      · obtain ⟨x, hx, hxi⟩ := hq
        exact ⟨x, hx, (hkey x q hx).mp hxi⟩
  · intro p x hx
    rw [hrec] at hx
    rw [r.kernel.lookup]
    exact ⟨(h.placed.handleOf hx).2, .inr rfl⟩

theorem Unallocated.unused {s : PerProcs} (r : Represents s v) {mem : ConnectMem}
    (u : Unallocated s mem) : Unused v mem := by
  constructor
  · intro p hp
    rw [← r.records]
    exact u.record p hp
  · intro d hd
    rw [← r.osPrivates]
    exact u.osPrivate d hd
  · intro q hq
    rw [← r.bases q, u.base q hq]
    rfl
  · intro c hc
    have hown := r.contexts.owners c
    unfold owners at hown
    rw [u.context c hc] at hown
    exact Option.map_eq_none_iff.mp hown.symm

theorem Represents.setRecord {s : PerProcs} (r : Represents s v) (x' : PerProc) :
    Represents (s.setRecord p x') { v with records := Function.update v.records p (some x') } := by
  refine ⟨r.hashed, r.lookup, r.zero, ?_, r.osPrivates, r.bases, r.noHandles, r.kernel,
    r.contexts⟩
  change Function.update s.records p (some x') = Function.update v.records p (some x')
  rw [r.records]

/-- The counts and records after a call that concerns one process. -/
theorem Settled.recount (h : Settled s v) {t : PerProcs} {v' : View} {n : ℕ}
    (hl : ∀ q, v.lookup pid = some q → q = p) (r : Represents t v') (hplaced : Placed v')
    (hself : ∀ x, v'.records p = some x → x.pid = pid ∧ x.refCount = n)
    (hother : ∀ q ≠ p, v'.records q = v.records q)
    (hlookup : ∀ k ≠ pid, v'.lookup k = v.lookup k) (hn : 0 < n ↔ ∃ q, v'.lookup pid = some q)
    (hsmall : n < 4294967296) : Settled (t, Function.update s.2 pid n) v' := by
  refine ⟨r, hplaced, ?_, ?_, ?_⟩
  · intro q y hy
    dsimp only
    by_cases hq : q = p
    · rw [hq] at hy
      obtain ⟨hpid, hcount⟩ := hself y hy
      rw [hpid, Function.update_self, hcount]
    · rw [hother q hq] at hy
      have hypid : y.pid ≠ pid := by
        intro hsame
        have hown := (h.placed.found hy).2
        rw [hsame] at hown
        exact hq (hl q hown)
      rw [Function.update_of_ne hypid]
      exact h.counted q y hy
  · intro k hk
    dsimp only
    by_cases hkp : k = pid
    · rw [hkp, Function.update_self]
      exact hn
    · rw [Function.update_of_ne hkp, hlookup k hkp]
      exact h.connected k hk
  · intro k
    dsimp only
    by_cases hkp : k = pid
    · rw [hkp, Function.update_self]
      exact hsmall
    · rw [Function.update_of_ne hkp]
      exact h.small k

theorem Settled.again (h : Settled s v) (hl : v.lookup pid = some p)
    (hsmall : s.2 pid + 1 < 4294967296) : ∃ t v', addRef s.1 p = some (.ok, t) ∧
      Settled (t, Function.update s.2 pid (s.2 pid + 1)) v' := by
  obtain ⟨x, hx, hk⟩ := (h.placed.lookup.owner pid p).mp hl
  obtain ⟨hne, hpid⟩ := keyOf_eq_some_iff.mp hk
  have hrec : s.1.records p = some x := by rw [h.view.records, hx]
  have hcount : u32 (x.refCount + 1) = s.2 pid + 1 := by
    rw [h.counted p x hx, hpid, u32_of_lt hsmall]
  let x' : PerProc := { x with refCount := u32 (x.refCount + 1) }
  have hself : Function.update v.records p (some x') p = some x' := Function.update_self ..
  refine ⟨s.1.setRecord p x', { v with records := Function.update v.records p (some x') }, ?_, ?_⟩
  · unfold addRef
    rw [hrec]
    rfl
  · apply h.recount (fun q hq => Option.some.inj (hq.symm.trans hl)) (h.view.setRecord x')
      (h.placed.change hx rfl rfl rfl rfl rfl)
    · intro y hy
      rw [← Option.some.inj (hself.symm.trans hy)]
      exact ⟨hpid, hcount⟩
    · intro q hq
      exact Function.update_of_ne hq ..
    · exact fun k _ => rfl
    · change _ ↔ ∃ q, v.lookup pid = some q
      rw [hl]
      simp
    · exact hsmall

theorem Settled.of_view (h : Settled s v) {t : PerProcs} (r : Represents t v) :
    Settled (t, s.2) v :=
  ⟨r, h.placed, h.counted, h.connected, h.small⟩

/-- The first connect of a process: a complete record, or nothing. -/
theorem Settled.first (h : Settled s v) (hpid : pid ≠ 0) (hl : v.lookup pid = none)
    {mem : ConnectMem} (u : Unallocated s.1 mem) (hp : mem.record = some p) :
    ∃ e t v', (buildRecord (allocRecord s.1 p) p pid mem).bind (endConnect p) = some (e, t) ∧
      Settled (t, countConnect s.2 pid e) v' ∧ (e ≠ .ok → v' = v) := by
  have hu := u.unused h.view
  obtain ⟨hpos, hfree⟩ := hu.record p hp
  have hcount : s.2 pid = 0 := by
    by_contra hne
    obtain ⟨q, hq⟩ := (h.connected pid hpid).mp (Nat.pos_of_ne_zero hne)
    rw [hl] at hq
    cases hq
  obtain ⟨e, t, hr, x, hb, hcase⟩ := h.view.build hfree hpid hl hu
  rw [hr, Option.bind_some]
  cases hcase with
  | inl hok =>
    obtain ⟨he, d, q, i, c, hi, hx⟩ := hok
    rw [he]
    let x' : PerProc := { x with refCount := u32 (x.refCount + 1) }
    have hplaced : Placed (v.add p x) := by
      apply h.placed.add hb.apart hpos <;> rw [hx]
      · exact hpid
      · rfl
      · rfl
      · exact hi
      · rfl
    have hold : (v.add p x).records p = some x := Function.update_self ..
    let v' : View :=
      { v.add p x with records := Function.update (v.add p x).records p (some x') }
    have hself : v'.records p = some x' := Function.update_self ..
    have hcounted : countConnect s.2 pid .ok = Function.update s.2 pid 1 := by
      unfold countConnect
      rw [if_pos rfl, hcount]
    have hlookup : v'.lookup = Function.update v.lookup pid (some p) := by
      change put v.lookup (keyOf x.pid) (some p) = _
      rw [hx]
      dsimp only
      rw [keyOf_of_ne hpid]
      rfl
    refine ⟨.ok, t.setRecord p x', v', ?_, ?_, fun he => absurd rfl he⟩
    · change addRef t p = _
      unfold addRef
      rw [hb.record]
      rfl
    · rw [hcounted]
      apply h.recount (p := p) (fun q hq => by rw [hl] at hq; cases hq) (hb.view.setRecord x')
        (hplaced.change hold rfl rfl rfl rfl rfl)
      · intro y hy
        rw [← Option.some.inj (hself.symm.trans hy)]
        change x.pid = pid ∧ u32 (x.refCount + 1) = 1
        rw [hx]
        exact ⟨rfl, u32_of_lt (show 0 + 1 < 4294967296 by decide)⟩
      · intro q hq
        exact (Function.update_of_ne hq ..).trans (Function.update_of_ne hq ..)
      · intro k hk
        change v'.lookup k = v.lookup k
        rw [hlookup, Function.update_of_ne hk]
      · change _ ↔ ∃ q, v'.lookup pid = some q
        rw [hlookup, Function.update_self]
        simp
      · decide
  | inr hfail =>
    obtain ⟨he, hx⟩ := hfail
    have hview : Represents t { v.add p x with contexts := v.contexts } := by
      have hb := hb.view
      refine ⟨hb.hashed, hb.lookup, hb.zero, hb.records, hb.osPrivates, hb.bases, hb.noHandles,
        hb.kernel, ?_⟩
      have hcontexts : (v.add p x).contexts = v.contexts := by
        change put v.contexts x.resManContext (some p) = v.contexts
        rw [hx]
        rfl
      rw [← hcontexts]
      exact hb.contexts
    obtain ⟨t', hfree, hview'⟩ := hview.free h.view.zero hb.apart
    refine ⟨e, t', v, ?_, ?_, fun _ => rfl⟩
    · unfold endConnect
      cases e with
      | ok => exact absurd rfl he
      | _ =>
        dsimp only
        rw [hfree]
        rfl
    · unfold countConnect
      rw [if_neg he]
      exact h.of_view hview'

theorem Settled.connect (h : Settled s v) {mem : ConnectMem} (hpid : pid ≠ 0)
    (u : Unallocated s.1 mem) (hsmall : s.2 pid + 1 < 4294967296) :
    ∃ e t v', pvrsrvPerProcessDataConnect s.1 pid mem = some (e, t) ∧
      Settled (t, countConnect s.2 pid e) v' ∧ (e ≠ .ok → v' = v) := by
  unfold pvrsrvPerProcessDataConnect
  rw [h.view.perProcessData]
  cases hl : v.lookup pid with
  | some p =>
    obtain ⟨x, hx, -⟩ := (h.placed.lookup.owner pid p).mp hl
    rw [Option.getD_some, if_pos (h.placed.pos p x hx)]
    obtain ⟨t, v', hr, hs⟩ := h.again hl hsmall
    exact ⟨.ok, t, v', hr, hs, fun he => absurd rfl he⟩
  | none =>
    rw [Option.getD_none, if_neg fun h => h rfl]
    cases hp : mem.record with
    | none => exact ⟨.errorOutOfMemory, s.1, v, rfl, h, fun _ => rfl⟩
    | some p => exact h.first hpid hl u hp

theorem Represents.last {s : PerProcs} (r : Represents s v) (h : Placed v)
    (hx : v.records p = some x) (cb : Callbacks) :
    ∃ t, lastDisconnect cb s p = some t ∧ Represents t (v.drop p x) := by
  have hrec : s.records p = some x := by rw [r.records, hx]
  obtain ⟨c, hc, ho⟩ := h.context.at hx
  obtain ⟨items, resman, hdis, hk⟩ := r.contexts.disconnect ho cb
  have hview : Represents { s with resman := resman }
      { (v.drop p x).add p x with contexts := (v.drop p x).contexts } := by
    rw [h.drop_add hx]
    refine ⟨r.hashed, r.lookup, r.zero, r.records, r.osPrivates, r.bases, r.noHandles, r.kernel,
      ?_⟩
    change Contexts resman (put v.contexts x.resManContext none)
    rw [hc]
    exact hk
  have hzero : (v.drop p x).lookup 0 = none := by
    cases put_cases v.lookup (keyOf x.pid) none 0 with
    | inl hin => exact hin.2
    | inr hout => exact hout.2.trans r.zero
  obtain ⟨t, hfree, ht⟩ := hview.free hzero (v.drop_apart p x)
  refine ⟨t, ?_, ht⟩
  unfold lastDisconnect
  simp only [hrec, hc, hdis, hfree, Option.bind_eq_bind, Option.bind_some]

theorem Represents.purge {s : PerProcs} (r : Represents s v) :
    Represents { s with kernelBase := (pvrsrvPurgeHandles s.kernelBase).2 } v :=
  ⟨r.hashed, r.lookup, r.zero, r.records, r.osPrivates, r.bases, r.noHandles, r.kernel.purge,
    r.contexts⟩

theorem Settled.disconnect (h : Settled s v) (hpid : pid ≠ 0) (hcount : 0 < s.2 pid)
    (cb : Callbacks) : ∃ t v', pvrsrvPerProcessDataDisconnect cb s.1 pid = some t ∧
      Settled (t, Function.update s.2 pid (s.2 pid - 1)) v' := by
  obtain ⟨p, hl⟩ := (h.connected pid hpid).mp hcount
  obtain ⟨x, hx, hk⟩ := (h.placed.lookup.owner pid p).mp hl
  have hxpid := (keyOf_eq_some_iff.mp hk).2
  have hrec : s.1.records p = some x := by rw [h.view.records, hx]
  have hpos := h.placed.pos p x hx
  have hfound : pvrsrvPerProcessData s.1 pid = p := by
    rw [h.view.perProcessData, hl]
    rfl
  have hsub : u32Sub x.refCount 1 = s.2 pid - 1 := by
    rw [h.counted p x hx, hxpid]
    exact u32Sub_of_le hcount
  have hlt := h.small pid
  let x' : PerProc := { x with refCount := u32Sub x.refCount 1 }
  let v' : View := { v with records := Function.update v.records p (some x') }
  have hview' : Represents (s.1.setRecord p x') v' := h.view.setRecord x'
  have hplaced' : Placed v' := h.placed.change hx rfl rfl rfl rfl rfl
  have hself : v'.records p = some x' := Function.update_self ..
  have honly (q : ℕ) (hq : v.lookup pid = some q) : q = p := Option.some.inj (hq.symm.trans hl)
  unfold pvrsrvPerProcessDataDisconnect
  simp only [hfound, if_neg hpos, Option.bind_eq_bind]
  unfold dropRef
  rw [hrec, Option.bind_eq_bind, Option.bind_some]
  by_cases hlast : u32Sub x.refCount 1 = 0
  · obtain ⟨t, hr, ht⟩ := hview'.last hplaced' hself cb
    rw [if_pos hlast, hr, Option.bind_some]
    refine ⟨_, v'.drop p x', rfl, ?_⟩
    have hnone : put v.lookup (keyOf x.pid) none pid = none := by
      rw [hk]
      exact put_self rfl
    apply h.recount honly ht.purge (hplaced'.drop hself)
    · intro y hy
      cases (Function.update_self ..).symm.trans hy
    · intro q hq
      change Function.update (Function.update v.records p (some x')) p none q = v.records q
      rw [Function.update_of_ne hq, Function.update_of_ne hq]
    · intro k hkp
      change put v.lookup (keyOf x.pid) none k = v.lookup k
      rw [hk]
      exact Function.update_of_ne hkp ..
    · change _ ↔ ∃ q, put v.lookup (keyOf x.pid) none pid = some q
      rw [hnone, ← hsub, hlast]
      simp
    · omega
  · rw [if_neg hlast, Option.bind_some]
    refine ⟨_, v', rfl, ?_⟩
    apply h.recount honly hview'.purge hplaced'
    · intro y hy
      rw [← Option.some.inj (hself.symm.trans hy)]
      exact ⟨hxpid, hsub⟩
    · intro q hq
      exact Function.update_of_ne hq ..
    · exact fun k _ => rfl
    · change _ ↔ ∃ q, v.lookup pid = some q
      rw [hl]
      simp only [Option.some.injEq, exists_eq', iff_true]
      omega
    · omega

theorem Started.settled {s₀ : PerProcs} (h : Started s₀) : Settled (s₀, fun _ => 0) .empty := by
  obtain ⟨os, os', hc⟩ := h.hashTab
  have htab : s₀.hashTab = ⟨fun _ => [], hashTabInitSize, 0, hashTabInitSize⟩ := by
    unfold hashCreateExtended at hc
    split at hc
    · cases hc
    · split at hc
      · cases hc
      · exact (Option.some.inj (Prod.mk.inj hc).1).symm
  obtain ⟨b, hb, he⟩ := h.kernelBase
  have hnone (field : PerProc → Option ℕ) : Indexed (fun _ => none) field fun _ => none := by
    constructor
    · intro q p
      simp
    · intro p x hx
      cases hx
  refine ⟨⟨?_, ?_, rfl, h.records, h.osPrivates, ?_, ?_, kernelHandles_created hb he, ?_⟩,
    ⟨hnone _, ⟨_, hnone _, fun _ => rfl⟩, ⟨_, hnone _, fun _ => rfl⟩, hnone _, hnone _, ?_⟩, ?_, ?_,
    ?_⟩
  · rw [htab]
    refine ⟨by decide, by decide, ?_, fun i _ => List.nodup_nil⟩
    intro i _ e he
    cases he
  · rw [htab]
    rfl
  · intro q
    rw [h.bases]
    rfl
  · intro q b hq
    rw [h.bases] at hq
    cases hq
  · rw [h.resman]
    exact contexts_init
  · intro p x hx
    cases hx
  · intro p x hx
    cases hx
  · intro pid _
    simp [View.empty]
  · intro pid
    exact Nat.zero_lt_succ _

theorem Settled.step (h : Settled s v) (cb : Callbacks) {op : PerProcOp} (hp : Proper s op)
    (hc : Countable s op) : ∃ e t v', perProcStep cb s op = some (e, t) ∧ Settled t v' ∧
      (e ≠ .ok → v' = v) := by
  cases op with
  | connect pid mem =>
    obtain ⟨e, t, v', hr, hs, hfail⟩ := h.connect hp.1 hp.2 hc
    refine ⟨e, _, v', ?_, hs, hfail⟩
    unfold perProcStep
    simp only [hr, Option.bind_eq_bind, Option.bind_some]
  | disconnect pid =>
    obtain ⟨t, v', hr, hs⟩ := h.disconnect hp.1 hp.2 cb
    refine ⟨.ok, _, v', ?_, hs, fun he => absurd rfl he⟩
    unfold perProcStep
    simp only [hr, Option.bind_eq_bind, Option.bind_some]

theorem Settled.after (h : Settled s v) {op : PerProcOp} (hp : Proper s op) (hc : Countable s op)
    {e : PvrsrvError} {t : Sessions} (hs : perProcStep cb s op = some (e, t)) :
    ∃ v', Settled t v' ∧ (e ≠ .ok → v' = v) := by
  obtain ⟨e', t', v', hr, hset, hfail⟩ := h.step cb hp hc
  rw [hs] at hr
  obtain ⟨he, ht⟩ := Prod.mk.inj (Option.some.inj hr)
  rw [he, ht]
  exact ⟨v', hset, hfail⟩

/-- In every run in which the counts fit their fields, the table leads to the records of the
    connected processes and all that is live belongs to one of them. A connect that fails leaves
    the records as they were, and every call returns. -/
theorem per_process_over_runs (cb : Callbacks) {s₀ : PerProcs} (start : Started s₀)
    {l : List (PerProcOp × PvrsrvError)}
    (run : Run (perProcStep cb) (fun s op => Proper s op ∧ Countable s op) (s₀, fun _ => 0) l s) :
    Kept s ∧ ∀ op, Proper s op → Countable s op → ∃ e t, perProcStep cb s op = some (e, t) ∧
      Kept t ∧ (e ≠ .ok → t.1.records = s.1.records ∧ t.2 = s.2) := by
  obtain ⟨v, h⟩ : ∃ v, Settled s v := by
    refine run.invariant (fun s => ∃ v, Settled s v) ⟨_, start.settled⟩ ?_
    intro s op e t hI hok hs
    obtain ⟨v, h⟩ := hI
    obtain ⟨v', h', -⟩ := h.after hok.1 hok.2 hs
    exact ⟨v', h'⟩
  refine ⟨h.kept, fun op hp hc => ?_⟩
  obtain ⟨e, t, v', hs, h', hfail⟩ := h.step cb hp hc
  refine ⟨e, t, hs, h'.kept, fun he => ⟨?_, ?_⟩⟩
  · rw [h'.view.records, hfail he, h.view.records]
  · cases op with
    | connect pid mem =>
      obtain ⟨r, -, hr⟩ := Option.bind_eq_some_iff.mp hs
      obtain ⟨hre, ht⟩ := Prod.mk.inj (Option.some.inj hr)
      rw [← ht, hre]
      exact if_neg he
    | disconnect pid =>
      obtain ⟨r, -, hr⟩ := Option.bind_eq_some_iff.mp hs
      exact absurd (Prod.mk.inj (Option.some.inj hr)).1.symm he

end

def sampleServices : PerProcs where
  os := ⟨fun _ => true, 2⟩
  hashTab := ⟨fun _ => [], 32, 0, 32⟩
  records := fun _ => none
  osPrivates := fun _ => false
  bases := fun _ => none
  kernelBase := samplePurgingBase
  resman := resManInit

theorem sampleServices_started : Started sampleServices :=
  ⟨⟨⟨fun _ => true, 0⟩, ⟨fun _ => true, 2⟩, rfl⟩, rfl, rfl, rfl, ⟨_, sampleBase_created, rfl⟩, rfl⟩

def noMem : ConnectMem := ⟨none, none, none, ⟨fun _ => true, 0⟩, fun _ => blankHandle, none⟩

/-- Blocks at the address `p` and behind it, and a context if there is memory for one. -/
def memAt (p : ℕ) (context : Option ℕ) : ConnectMem :=
  ⟨some p, some (p + 1), some (p + 2), ⟨fun _ => true, 0⟩, fun _ => blankHandle, context⟩

def unallocated (s : PerProcs) (mem : ConnectMem) : Bool :=
  mem.record.all (fun p => p != 0 && (s.records p).isNone) &&
    mem.osPrivate.all (fun d => !s.osPrivates d) && mem.base.all (fun q => (s.bases q).isNone) &&
    mem.context.all fun c => (s.resman.contexts c).isNone

def proper (s : Sessions) : PerProcOp → Bool
  | .connect pid mem =>
    pid != 0 && unallocated s.1 mem && decide (s.2 pid + 1 < 4294967296)
  | .disconnect pid => pid != 0 && decide (0 < s.2 pid)

theorem Unallocated.of_check {s : PerProcs} {mem : ConnectMem} (h : unallocated s mem = true) :
    Unallocated s mem := by
  unfold unallocated at h
  simp only [Bool.and_eq_true, Option.all_eq_true_iff_get, Option.isNone_iff_eq_none, bne_iff_ne,
    Bool.not_eq_true', ne_eq] at h
  obtain ⟨⟨⟨hrecord, hos⟩, hbase⟩, hcontext⟩ := h
  constructor
  · intro p hp
    rw [Option.mem_def] at hp
    simpa [hp] using hrecord
  · intro d hd
    rw [Option.mem_def] at hd
    simpa [hd] using hos
  · intro q hq
    rw [Option.mem_def] at hq
    simpa [hq] using hbase
  · intro c hc
    rw [Option.mem_def] at hc
    simpa [hc] using hcontext

theorem Proper.of_check {s : Sessions} {op : PerProcOp} (h : proper s op = true) :
    Proper s op ∧ Countable s op := by
  unfold proper at h
  cases op with
  | connect pid mem =>
    simp only [Bool.and_eq_true, bne_iff_ne, decide_eq_true_eq] at h
    exact ⟨⟨h.1.1, .of_check h.1.2⟩, h.2⟩
  | disconnect pid =>
    simp only [Bool.and_eq_true, bne_iff_ne, decide_eq_true_eq] at h
    exact ⟨h, trivial⟩

def noCallbacks : Callbacks := fun _ _ => .done .ok

def sampleOps : List PerProcOp :=
  [.connect 1 (memAt 16 (some 19)), .connect 1 noMem, .connect 3 (memAt 24 none),
    .connect 2 (memAt 32 (some 35)), .disconnect 1, .disconnect 1]

/-- One process is left, and one record. -/
theorem per_process_over_sample : ∃ l s, exec (perProcStep noCallbacks) (sampleServices, fun _ => 0)
      sampleOps = some (l, s) ∧
    Kept s ∧ pvrsrvPerProcessData s.1 1 = 0 ∧ pvrsrvPerProcessData s.1 2 = 32 := by
  have hall : allows (perProcStep noCallbacks) proper (sampleServices, fun _ => 0) sampleOps =
      true := by
    decide +kernel
  have hend : (exec (perProcStep noCallbacks) (sampleServices, fun _ => 0) sampleOps).map
      (fun r => (pvrsrvPerProcessData r.2.1 1, pvrsrvPerProcessData r.2.1 2)) =
      some (0, 32) := by
    decide +kernel
  obtain ⟨r, hr, hfound⟩ := Option.map_eq_some_iff.mp hend
  have hrun := (Run.of_allowed hr (allowed_of_allows hall)).mono fun s op h => Proper.of_check h
  exact ⟨r.1, r.2, hr, (per_process_over_runs noCallbacks sampleServices_started hrun).1,
    (Prod.mk.inj hfound).1, (Prod.mk.inj hfound).2⟩

theorem unallocated_noMem (s : PerProcs) : Unallocated s noMem := by
  constructor <;> exact fun _ h => by cases h

theorem Run.connects {s : Sessions} {p pid r c : ℕ} (cb : Callbacks) (hp : p ≠ 0) (hpid : pid ≠ 0)
    (hfound : pvrsrvPerProcessData s.1 pid = p)
    (hrec : ∃ x, s.1.records p = some x ∧ x.pid = pid ∧ x.refCount = u32 r) (hc : s.2 pid = c)
    (n : ℕ) : ∃ l t, Run (perProcStep cb) Proper s l t ∧ pvrsrvPerProcessData t.1 pid = p ∧
      (∃ x, t.1.records p = some x ∧ x.pid = pid ∧ x.refCount = u32 (r + n)) ∧
      t.2 pid = c + n := by
  induction n with
  | zero => exact ⟨[], s, .refl, hfound, hrec, hc⟩
  | succ n ih =>
    obtain ⟨l, t, run, hf, hx, hn⟩ := ih
    obtain ⟨x, hx, hxpid, hcount⟩ := hx
    let x' : PerProc := { x with refCount := u32 (x.refCount + 1) }
    have hs : perProcStep cb t (.connect pid noMem) = some (.ok,
        (t.1.setRecord p x', Function.update t.2 pid (t.2 pid + 1))) := by
      have hconnect : pvrsrvPerProcessDataConnect t.1 pid noMem =
          some (.ok, t.1.setRecord p x') := by
        unfold pvrsrvPerProcessDataConnect
        rw [hf, if_pos hp]
        unfold addRef
        rw [hx]
        rfl
      unfold perProcStep
      simp only [hconnect, Option.bind_eq_bind, Option.bind_some]
      rfl
    have hproper : Proper t (.connect pid noMem) := ⟨hpid, unallocated_noMem t.1⟩
    refine ⟨_, _, .snoc run hproper hs, hf, ⟨x', ?_, hxpid, ?_⟩, ?_⟩
    · exact Function.update_self ..
    · change u32 (x.refCount + 1) = u32 (r + (n + 1))
      rw [hcount, u32_eq_mod, u32_eq_mod, u32_eq_mod]
      omega
    · dsimp only
      rw [Function.update_self, hn]
      rfl

/-- After 2^32 connects the count of the record is 0 again. -/
theorem per_process_count_wraps : ∃ l s,
    Run (perProcStep noCallbacks) Proper (sampleServices, fun _ => 0) l s ∧ ¬Kept s := by
  have hall : allows (perProcStep noCallbacks) proper (sampleServices, fun _ => 0)
      [.connect 1 (memAt 16 (some 19))] = true := by
    decide +kernel
  have hend : (exec (perProcStep noCallbacks) (sampleServices, fun _ => 0)
      [.connect 1 (memAt 16 (some 19))]).map (fun r => (pvrsrvPerProcessData r.2.1 1,
        (r.2.1.records 16).map fun x => (x.pid, x.refCount), r.2.2 1)) =
      some (16, some (1, 1), 1) := by
    decide +kernel
  obtain ⟨r, hr, hfound⟩ := Option.map_eq_some_iff.mp hend
  obtain ⟨hfound, hrest⟩ := Prod.mk.inj hfound
  obtain ⟨hrec, hone⟩ := Prod.mk.inj hrest
  obtain ⟨x, hx, hboth⟩ := Option.map_eq_some_iff.mp hrec
  obtain ⟨hpid, hcount⟩ := Prod.mk.inj hboth
  have hfirst : Run (perProcStep noCallbacks) Proper (sampleServices, fun _ => 0) r.1 r.2 :=
    (Run.of_allowed hr (allowed_of_allows hall)).mono fun s op h => (Proper.of_check h).1
  obtain ⟨l, t, run, hf, hx, hn⟩ := Run.connects (r := 1) noCallbacks (by decide) (by decide)
    hfound ⟨x, hx, hpid, by rw [hcount, u32_of_lt (by decide)]⟩ hone 4294967295
  obtain ⟨y, hy, hypid, hycount⟩ := hx
  refine ⟨_, t, hfirst.trans run, fun hkept => ?_⟩
  have heq := (hkept.counted 16 y hy).2.2
  rw [hypid, hn, hycount, u32_eq_mod] at heq
  omega

end PvrServices.PerProcesses
