import PvrServices.DevmemSync

set_option autoImplicit false

/-!
# Wraps over whole runs

Processes connect, wrap and unwrap memory and exit. As long as every insertion into the table of
the sync infos and every registration finds memory, the table counts the wraps that are live.
-/
namespace PvrServices.Devmem
open HashTable KeyedList Resman Runs Words
variable {s s' : DeviceMem} {x x' : DevmemSys} {reg : Registry} {wraps : List Wrap}
  {a c m p y : ℕ} {w v : Wrap} {call : WrapCall}

inductive WrapOp where
  | connect (perProc : ℕ) (mem : Option ℕ)
  | wrap (c : ℕ) (call : WrapCall)
  | unwrap (m : ℕ)
  | exit (c : ℕ)

inductive WrapReply where
  | connected (answer : Except PvrsrvError ℕ)
  | wrapped (answer : Except PvrsrvError ℕ)
  | done

def wrapStep (x : DevmemSys) : WrapOp → Option (WrapReply × DevmemSys)
  | .connect perProc mem =>
    (pvrsrvResManConnect x.res perProc mem).map fun r => (.connected r.1, { x with res := r.2 })
  | .wrap c call => (pvrsrvWrapExtMemoryKM x c call).map fun r => (.wrapped r.1, r.2)
  | .unwrap m => (pvrsrvUnwrapExtMemoryKM x m).map fun x => (.done, x)
  | .exit c => (devmemDisconnect x c).map fun x => (.done, x)

def Fresh {α : Type} (f : ℕ → Option α) (mem : Option ℕ) : Prop :=
  ∀ p, mem = some p → f p = none ∧ 0 < p ∧ p < 4294967296

/-- Memory that is handed out is not in use, contexts are used while they are connected, and only
    memory infos that there are are unwrapped. -/
def WrapProper (x : DevmemSys) : WrapOp → Prop
  | .connect _ mem => ∀ c, mem = some c → x.res.contexts c = none
  | .wrap c call => (x.res.contexts c).isSome = true ∧ Fresh x.mem.memInfos call.memInfo ∧
    Fresh x.mem.syncInfos call.syncInfo ∧ Fresh x.res.items call.resItem
  | .unwrap m => (x.mem.memInfos m).isSome = true
  | .exit c => (x.res.contexts c).isSome = true

def WrapCall.reaches (call : WrapCall) : Option ℕ :=
  match call.sysPAddr with
  | .error _ => none
  | .ok a => if call.heap && call.memInfo.isSome && call.wrapped then some a else none

/-- A wrap that gets its sync info also gets an item, and a new sync info gets its place in the
    table. -/
def Provided (x : DevmemSys) : WrapOp → Prop
  | .wrap _ call => ∀ a, call.reaches = some a →
    if hashRetrieveExtended hashFuncDefault x.mem.syncTable [a] = 0 then
      call.syncInfo.isSome = true → x.mem.os.grants x.mem.os.calls = true ∧
        call.resItem.isSome = true
    else call.resItem.isSome = true
  | _ => True

def recordWrap (wraps : List Wrap) : WrapOp × WrapReply → List Wrap
  | (.wrap c call, .wrapped (.ok m)) => call.reaches.toList.map (fun a => ⟨m, c, a⟩) ++ wraps
  | (.unwrap m, _) => dropWrap wraps m
  | (.exit c, _) => wraps.filter fun w => w.context ≠ c
  | _ => wraps

def Wrap.registration (w : Wrap) : Registration :=
  ⟨w.context, .devicememWrap, w.memInfo, 0, pfnUnwrapExtMemory⟩

/-- The memory infos are those of the wraps, each registered with its process. -/
structure Held (s : DeviceMem) (reg : Registry) (wraps : List Wrap) : Prop where
  live : ∀ m, (s.memInfos m).isSome = true → ∃ w ∈ wraps, w.memInfo = m
  held : ∀ w ∈ wraps, ∃ p y, s.memInfos w.memInfo = some ⟨false, 1, some p, some y⟩ ∧
    s.entry w.physAddr = some y ∧ reg p = some w.registration
  registered : ∀ p g, reg p = some g → ∃ w ∈ wraps, g = w.registration ∧
    (s.memInfos w.memInfo).bind KernelMemInfo.hResItem = some p
  nodup : (wraps.map Wrap.memInfo).Nodup
  placed : Placed s

structure Good (x : DevmemSys) (reg : Registry) (wraps : List Wrap) : Prop where
  tracks : Tracks x.res reg
  held : Held x.mem reg wraps
  counted : Counted x.mem wraps

theorem Held.length (h : Held s reg wraps) (hm : s.memInfos m = none) (hpos : 0 < m)
    (hlt : m < 4294967296) : wraps.length + 1 < 4294967296 := by
  have hnew : m ∉ wraps.map Wrap.memInfo := fun hmem => by
    obtain ⟨w, hw, hwm⟩ := List.mem_map.mp hmem
    obtain ⟨p, y, hi, -⟩ := h.held w hw
    rw [hwm, hm] at hi
    cases hi
  have hlen := length_lt_of_addresses (List.nodup_cons.mpr ⟨hnew, h.nodup⟩) fun n hn => by
    cases List.mem_cons.mp hn with
    | inl hn => exact hn ▸ ⟨hpos, hlt⟩
    | inr hn =>
      obtain ⟨w, hw, hwn⟩ := List.mem_map.mp hn
      obtain ⟨p, y, hi, -⟩ := h.held w hw
      exact hwn ▸ h.placed.1 _ _ hi
  simpa using hlen

theorem Held.callBack (h : Held s reg wraps) (hc : Counted s wraps) (hw : w ∈ wraps)
    (hp : reg p = some w.registration) : ∃ s',
      devmemCallBack (w.registration.call p) s = some s' ∧
      Held s' (Function.update reg p none) (dropWrap wraps w.memInfo) ∧
      Counted s' (dropWrap wraps w.memInfo) := by
  obtain ⟨q, y, hi, hy, hq⟩ := h.held w hw
  have hpq : q = p := by
    obtain ⟨v, hv, hvg, hvp⟩ := h.registered p _ hp
    have hvw : v.memInfo = w.memInfo := congrArg Registration.pvParam hvg.symm
    rw [hvw, hi] at hvp
    exact Option.some.inj hvp
  rw [hpq] at hi
  obtain ⟨t, ht, hcounted, hsame, hentry, hsyncs⟩ := hc.put h.nodup hw hy
  let s' : DeviceMem := { t with memInfos := Function.update s.memInfos w.memInfo none }
  have hother (v : Wrap) (hv : v ∈ dropWrap wraps w.memInfo) :
      s'.memInfos v.memInfo = s.memInfos v.memInfo :=
    Function.update_of_ne (mem_dropWrap.mp hv).2 ..
  refine ⟨s', ?_, ⟨?_, ?_, ?_, dropWrap_nodup h.nodup _, ?_, ?_⟩,
    hcounted.wf, hcounted.entered, hcounted.counted, hcounted.covered⟩
  · have hcall : devmemCallBack (w.registration.call p) s = unwrapExtMemoryCallBack s w.memInfo :=
      rfl
    rw [hcall]
    simp [unwrapExtMemoryCallBack, hi, ht, freeDeviceMem, DeviceMem.freeMem, DeviceMem.setMem,
      hsame.memInfos, s']
  · intro m hm
    by_cases hmw : m = w.memInfo
    · rw [hmw] at hm
      simp [s'] at hm
    · have hm' : (s.memInfos m).isSome = true := by simpa [s', hmw] using hm
      obtain ⟨v, hv, hvm⟩ := h.live m hm'
      exact ⟨v, mem_dropWrap.mpr ⟨hv, hvm ▸ hmw⟩, hvm⟩
  · intro v hv
    obtain ⟨r, z, hr, hz, hreg⟩ := h.held v (mem_dropWrap.mp hv).1
    refine ⟨r, z, (hother v hv).trans hr, (hentry v hv).trans hz, ?_⟩
    have hrp : r ≠ p := fun hrp => by
      rw [hrp, hp, Option.some.injEq] at hreg
      exact (mem_dropWrap.mp hv).2 (congrArg Registration.pvParam hreg).symm
    rw [Function.update_of_ne hrp]
    exact hreg
  · intro r g hr
    have hrp : r ≠ p := fun hrp => by
      rw [hrp, Function.update_self] at hr
      cases hr
    rw [Function.update_of_ne hrp] at hr
    obtain ⟨v, hv, hvg, hvr⟩ := h.registered r g hr
    have hdrop : v ∈ dropWrap wraps w.memInfo := mem_dropWrap.mpr ⟨hv, fun hvw => by
      rw [hvw, hi] at hvr
      exact hrp (Option.some.inj hvr).symm⟩
    refine ⟨v, hdrop, hvg, ?_⟩
    rw [hother v hdrop]
    exact hvr
  · intro n i hn
    by_cases hnw : n = w.memInfo
    · rw [hnw] at hn
      simp [s'] at hn
    · exact h.placed.1 n i (by simpa [s', hnw] using hn)
  · intro z i hz
    obtain ⟨j, hj⟩ := Option.isSome_iff_exists.mp (hsyncs z i hz)
    exact h.placed.2 z j hj

/-- What the table of the sync infos is to say of the wraps that are live, and that each of them
    can be released: by its owner or at the end of its process. -/
structure SyncsCounted (x : DevmemSys) (wraps : List Wrap) : Prop where
  counted : Counted x.mem wraps
  live : ∀ m, (x.mem.memInfos m).isSome = true ↔ ∃ w ∈ wraps, w.memInfo = m
  releasable : ∀ w ∈ wraps, ∃ p,
    (x.mem.memInfos w.memInfo).bind KernelMemInfo.hResItem = some p ∧
      resManFindResourceByPtr x.res w.context p = some .ok

theorem setMem_freeMem (hm : s.memInfos m = none) (i : KernelMemInfo) :
    (s.setMem m i).freeMem m = some s := by
  have hsame : Function.update (Function.update s.memInfos m (some i)) m none = s.memInfos := by
    rw [Function.update_idem, ← hm, Function.update_eq_self]
  simp [DeviceMem.freeMem, DeviceMem.setMem, hsame]

theorem reaches_eq_some (h : call.reaches = some a) : call.sysPAddr = .ok a ∧ call.heap = true ∧
    call.memInfo.isSome = true ∧ call.wrapped = true := by
  unfold WrapCall.reaches at h
  cases hpage : call.sysPAddr with
  | error e =>
    rw [hpage] at h
    cases h
  | ok b =>
    simp only [hpage] at h
    split at h
    · rename_i hall
      simp only [Bool.and_eq_true] at hall
      rw [Option.some.inj h]
      exact ⟨rfl, hall.1.1, hall.1.2, hall.2⟩
    · cases h

theorem wrap_stops (hcall : call.reaches = none) (hm : Fresh x.mem.memInfos call.memInfo) :
    ∃ e, pvrsrvWrapExtMemoryKM x c call = some (.error e, x) := by
  unfold pvrsrvWrapExtMemoryKM
  cases hpage : call.sysPAddr with
  | error e => exact ⟨e, rfl⟩
  | ok a =>
    dsimp only
    cases hheap : call.heap with
    | false => exact ⟨_, rfl⟩
    | true =>
      cases hmem : call.memInfo with
      | none => exact ⟨_, rfl⟩
      | some m =>
        cases hwrapped : call.wrapped with
        | false =>
          have hfree := setMem_freeMem (hm m hmem).1 ⟨false, 0, none, none⟩
          exact ⟨.errorBadMapping, by simp [hfree]⟩
        | true => simp [WrapCall.reaches, hpage, hheap, hmem, hwrapped] at hcall

section
variable {mem : DeviceMem} (hcall : call.reaches = some a) (hm : call.memInfo = some m)
include hcall hm

theorem wrap_error {e : PvrsrvError}
    (hsync : allocOrReuseSyncinfo (x.mem.setMem m ⟨false, 0, none, none⟩) a call.syncInfo =
      some (.error e, mem)) (hfree : freeDeviceMem mem m = some s) :
    pvrsrvWrapExtMemoryKM x c call = some (.error e, { x with mem := s }) := by
  obtain ⟨hpage, hheap, -, hwrapped⟩ := reaches_eq_some hcall
  simp [pvrsrvWrapExtMemoryKM, hpage, hheap, hm, hwrapped, hsync, hfree]

theorem wrap_ok {item : Option ℕ} {res : ResList}
    (hsync : allocOrReuseSyncinfo (x.mem.setMem m ⟨false, 0, none, none⟩) a call.syncInfo =
      some (.ok y, mem))
    (hreg : resManRegisterRes x.res c .devicememWrap m 0 pfnUnwrapExtMemory call.resItem =
      some (item, res)) :
    pvrsrvWrapExtMemoryKM x c call =
      some (.ok m, ⟨res, mem.setMem m ⟨false, 1, item, some y⟩⟩) := by
  obtain ⟨hpage, hheap, -, hwrapped⟩ := reaches_eq_some hcall
  simp [pvrsrvWrapExtMemoryKM, hpage, hheap, hm, hwrapped, hsync, hreg]

end

theorem Good.wrapped (h : Good x reg wraps) {mem : DeviceMem} {i : KernelMemInfo} {res : ResList}
    (hm : x.mem.memInfos m = none) (hpos : 0 < m ∧ m < 4294967296) (hp : x.res.items p = none)
    (hcounted : Counted mem (⟨m, c, a⟩ :: wraps)) (hsame : SameMem (x.mem.setMem m i) mem)
    (hentry : ∀ v ∈ wraps, mem.entry v.physAddr = x.mem.entry v.physAddr)
    (hy : mem.entry a = some y) (hsyncs : ∀ z j, mem.syncInfos z = some j → 0 < z)
    (htracks : Tracks res (Function.update reg p (some (Wrap.registration ⟨m, c, a⟩)))) :
    Good ⟨res, mem.setMem m ⟨false, 1, some p, some y⟩⟩
      (Function.update reg p (some (Wrap.registration ⟨m, c, a⟩))) (⟨m, c, a⟩ :: wraps) := by
  have hnot : m ∉ wraps.map Wrap.memInfo := fun hmem => by
    obtain ⟨v, hv, hvm⟩ := List.mem_map.mp hmem
    obtain ⟨q, z, hi, -⟩ := h.held.held v hv
    rw [hvm, hm] at hi
    cases hi
  have hne (v : Wrap) (hv : v ∈ wraps) : v.memInfo ≠ m := fun hvm =>
    hnot (hvm ▸ List.mem_map_of_mem hv)
  have hself : (mem.setMem m ⟨false, 1, some p, some y⟩).memInfos m =
      some ⟨false, 1, some p, some y⟩ := Function.update_self ..
  have hother (n : ℕ) (hn : n ≠ m) : (mem.setMem m ⟨false, 1, some p, some y⟩).memInfos n =
      x.mem.memInfos n := by
    simp [DeviceMem.setMem, hsame.memInfos, hn]
  have hfree := h.tracks.fresh hp
  refine ⟨htracks, ⟨?_, ?_, ?_, List.nodup_cons.mpr ⟨hnot, h.held.nodup⟩, ?_, hsyncs⟩,
    hcounted.setMem _ _⟩
  · intro n hn
    by_cases hnm : n = m
    · exact ⟨_, List.mem_cons_self, hnm.symm⟩
    · rw [hother n hnm] at hn
      obtain ⟨v, hv, hvn⟩ := h.held.live n hn
      exact ⟨v, List.mem_cons_of_mem _ hv, hvn⟩
  · intro v hv
    cases List.mem_cons.mp hv with
    | inl hv =>
      rw [hv]
      exact ⟨p, y, hself, hy, Function.update_self ..⟩
    | inr hv =>
      obtain ⟨q, z, hi, hz, hq⟩ := h.held.held v hv
      have hqp : q ≠ p := fun hqp => by
        rw [hqp, hfree] at hq
        cases hq
      refine ⟨q, z, (hother _ (hne v hv)).trans hi, (hentry v hv).trans hz, ?_⟩
      rw [Function.update_of_ne hqp]
      exact hq
  · intro q g hq
    by_cases hqp : q = p
    · rw [hqp, Function.update_self, Option.some.injEq] at hq
      refine ⟨_, List.mem_cons_self, hq.symm, ?_⟩
      rw [hself, hqp]
      rfl
    · rw [Function.update_of_ne hqp] at hq
      obtain ⟨v, hv, hvg, hvq⟩ := h.held.registered q g hq
      refine ⟨v, List.mem_cons_of_mem _ hv, hvg, ?_⟩
      rw [hother _ (hne v hv)]
      exact hvq
  · intro n j hn
    by_cases hnm : n = m
    · rw [hnm]
      exact hpos
    · rw [hother n hnm] at hn
      exact h.held.placed.1 n j hn

theorem Good.wrap (h : Good x reg wraps) (hop : WrapProper x (.wrap c call)) :
    ∃ r x', pvrsrvWrapExtMemoryKM x c call = some (r, x') ∧
      ((Provided x (.wrap c call) ∧ ((∃ e, r = .error e) ∧ x' = x ∨
        (∃ m, r = .ok m) ∧
          ∃ reg', Good x' reg' (recordWrap wraps (.wrap c call, .wrapped r)))) ∨
      ¬Provided x (.wrap c call) ∧ ((∃ e, r = .error e) → x'.mem.entry = x.mem.entry ∧
        x'.mem.memInfos = x.mem.memInfos) ∧
        ¬SyncsCounted x' (recordWrap wraps (.wrap c call, .wrapped r))) := by
  obtain ⟨hc, hmem, hsync, hitem⟩ := hop
  cases hcall : call.reaches with
  | none =>
    obtain ⟨e, he⟩ := wrap_stops (c := c) hcall hmem
    refine ⟨.error e, x, he, .inl ⟨?_, .inl ⟨⟨e, rfl⟩, rfl⟩⟩⟩
    intro a ha
    rw [hcall] at ha
    cases ha
  | some a =>
    obtain ⟨m, hm⟩ := Option.isSome_iff_exists.mp (reaches_eq_some hcall).2.2.1
    obtain ⟨hnone, hpos⟩ := hmem m hm
    -- the memory info is there while the sync info is looked for
    let s := x.mem.setMem m ⟨false, 0, none, none⟩
    have hcounted : Counted s wraps := h.counted.setMem _ _
    have hplaced : Placed s := by
      refine ⟨fun n i hn => ?_, h.held.placed.2⟩
      by_cases hnm : n = m
      · exact hnm ▸ hpos
      · exact h.held.placed.1 n i (by simpa [s, DeviceMem.setMem, hnm] using hn)
    have hretrieve := hcounted.retrieve hplaced a
    have hprovided : Provided x (.wrap c call) ↔
        if s.entry a = none then call.syncInfo.isSome = true →
          s.os.grants s.os.calls = true ∧ call.resItem.isSome = true
        else call.resItem.isSome = true := by
      have hzero : hashRetrieveExtended hashFuncDefault x.mem.syncTable [a] = 0 ↔
          s.entry a = none := by
        rw [show x.mem.syncTable = s.syncTable from rfl, hretrieve.1]
        cases hy : s.entry a with
        | none => simp
        | some y => simpa using Nat.ne_of_gt (hretrieve.2 y hy)
      unfold Provided
      simp only [hcall, Option.some.injEq, forall_eq', hzero]
      exact Iff.rfl
    have hrecord (n : ℕ) : recordWrap wraps (.wrap c call, .wrapped (.ok n)) =
        ⟨n, c, a⟩ :: wraps := by simp [recordWrap, hcall]
    have hok (n : ℕ) : ¬∃ e : PvrsrvError, (.ok n : Except PvrsrvError ℕ) = .error e := by simp
    -- with a sync info, all depends on the item
    have hfinish (y : ℕ) (mem : DeviceMem)
        (hget : allocOrReuseSyncinfo s a call.syncInfo = some (.ok y, mem))
        (hmore : Counted mem (⟨m, c, a⟩ :: wraps)) (hsame : SameMem s mem)
        (hentry : ∀ v ∈ wraps, mem.entry v.physAddr = x.mem.entry v.physAddr)
        (hy : mem.entry a = some y) (hsyncs : ∀ z j, mem.syncInfos z = some j → 0 < z) :
        ∃ x', pvrsrvWrapExtMemoryKM x c call = some (.ok m, x') ∧
          (call.resItem.isSome = true → ∃ reg', Good x' reg' (⟨m, c, a⟩ :: wraps)) ∧
          (call.resItem.isSome = false → ¬SyncsCounted x' (⟨m, c, a⟩ :: wraps)) := by
      cases hp : call.resItem with
      | none =>
        refine ⟨_, wrap_ok hcall hm hget (by rw [hp]; rfl), (fun hsome => by cases hsome), ?_⟩
        intro _ hall
        obtain ⟨p, hp, -⟩ := hall.releasable _ List.mem_cons_self
        simp [DeviceMem.setMem] at hp
      | some p =>
        obtain ⟨res, hres, htracks⟩ := h.tracks.register
          (g := Wrap.registration ⟨m, c, a⟩) hc (hitem p hp).1
        have hgood := h.wrapped hnone hpos (hitem p hp).1 hmore hsame hentry hy hsyncs htracks
        exact ⟨_, wrap_ok hcall hm hget (by rw [hp]; exact hres), fun _ => ⟨_, hgood⟩,
          fun hsome => by cases hsome⟩
    cases hentry : s.entry a with
    | some y =>
      obtain ⟨mem, hget, hmore, hsame, hsameEntry, hsyncs⟩ := hcounted.get
        (w := ⟨m, c, a⟩) hplaced (h.held.length hnone hpos.1 hpos.2) hentry call.syncInfo
      obtain ⟨x', hx', hsome, hnot⟩ := hfinish y mem hget hmore hsame
        (fun v _ => congrFun hsameEntry v.physAddr) ((congrFun hsameEntry a).trans hentry)
        fun z j hz => by
          obtain ⟨i, hi⟩ := Option.isSome_iff_exists.mp (hsyncs z j hz)
          exact hplaced.2 z i hi
      rw [hprovided, hentry, if_neg (by simp)]
      refine ⟨.ok m, x', hx', ?_⟩
      rw [hrecord]
      cases hitem : call.resItem.isSome with
      | true => exact .inl ⟨rfl, .inr ⟨⟨m, rfl⟩, hsome hitem⟩⟩
      | false => exact .inr ⟨by simp, fun he => absurd he (hok m), hnot hitem⟩
    | none =>
      rw [hprovided, hentry, if_pos rfl]
      cases hy : call.syncInfo with
      | none =>
        have hget : allocOrReuseSyncinfo s a call.syncInfo = some (.error .errorOutOfMemory, s) := by
          have hzero := hretrieve.1
          rw [hentry, Option.getD_none] at hzero
          rw [hy]
          unfold allocOrReuseSyncinfo
          dsimp only
          rw [if_pos hzero]
        refine ⟨_, _, wrap_error hcall hm hget (setMem_freeMem hnone _), .inl ⟨?_, .inl ?_⟩⟩
        · intro hsome
          cases hsome
        · exact ⟨⟨_, rfl⟩, rfl⟩
      | some y =>
        obtain ⟨hynone, hypos⟩ := hsync y hy
        cases hcounted.alloc (w := ⟨m, c, a⟩) hplaced hentry hynone with
        | inl hin =>
          obtain ⟨hgrants, mem, hget, hmore, hsame, hinfos, hentries⟩ := hin
          have hother (v : Wrap) (hv : v ∈ wraps) :
              mem.entry v.physAddr = x.mem.entry v.physAddr := by
            refine (hentries v.physAddr).trans (if_neg fun hva => ?_)
            have hcovered := hcounted.covered v hv
            rw [hva, hentry] at hcovered
            cases hcovered
          obtain ⟨x', hx', hsome, hnot⟩ := hfinish y mem (by rw [hy]; exact hget) hmore hsame hother
            ((hentries a).trans (if_pos rfl)) fun z j hz => by
              by_cases hzy : z = y
              · exact hzy ▸ hypos.1
              · rw [hinfos, Function.update_of_ne hzy] at hz
                exact hplaced.2 z j hz
          refine ⟨.ok m, x', hx', ?_⟩
          rw [hrecord, hgrants]
          cases hitem : call.resItem.isSome with
          | true => exact .inl ⟨fun _ => ⟨rfl, rfl⟩, .inr ⟨⟨m, rfl⟩, hsome hitem⟩⟩
          | false => exact .inr ⟨by simp, fun he => absurd he (hok m), hnot hitem⟩
        | inr hout =>
          -- the sync info stays in memory and is nowhere entered
          obtain ⟨hgrants, mem, hget, hsame, hentries, hinfos⟩ := hout
          have hfree : freeDeviceMem mem m =
              some { mem with memInfos := Function.update mem.memInfos m none } := by
            simp [freeDeviceMem, DeviceMem.freeMem, hsame.memInfos, s, DeviceMem.setMem]
          refine ⟨_, _, wrap_error hcall hm (by rw [hy]; exact hget) hfree, .inr ⟨?_, ?_, ?_⟩⟩
          · rw [hgrants]
            simp
          · intro _
            refine ⟨hentries, ?_⟩
            dsimp only
            rw [hsame.memInfos]
            dsimp only [s, DeviceMem.setMem]
            rw [Function.update_idem, ← hnone, Function.update_eq_self]
          · intro hall
            have hin := (hall.counted.entered a y).mpr ⟨⟨a, 1⟩, by simp [hinfos], rfl⟩
            have hout : mem.entry a = none := (congrFun hentries a).trans hentry
            rw [show DeviceMem.entry { mem with memInfos := Function.update mem.memInfos m none } a =
              mem.entry a from rfl, hout] at hin
            cases hin

theorem Good.unwrap (h : Good x reg wraps) (hm : (x.mem.memInfos m).isSome = true) :
    ∃ x' reg', pvrsrvUnwrapExtMemoryKM x m = some x' ∧ Good x' reg' (dropWrap wraps m) := by
  obtain ⟨w, hw, hwm⟩ := h.held.live m hm
  obtain ⟨p, y, hi, -, hp⟩ := h.held.held w hw
  obtain ⟨mem, hcall, hheld, hcounted⟩ := h.held.callBack h.counted hw hp
  obtain ⟨res, hfree, htracks⟩ := h.tracks.freeHosted hp hcall
  rw [← hwm]
  exact ⟨⟨res, mem⟩, _, by simp [pvrsrvUnwrapExtMemoryKM, hi, hfree], htracks, hheld, hcounted⟩

theorem Good.exit (h : Good x reg wraps) (hc : (x.res.contexts c).isSome = true) :
    ∃ x' reg', devmemDisconnect x c = some x' ∧
      Good x' reg' (wraps.filter fun w => w.context ≠ c) := by
  have htypes (p : ℕ) (g : Registration) (hp : reg p = some g) (_ : g.context = c) :
      g.resType ≠ .sharedMemInfo := by
    obtain ⟨w, -, hwg, -⟩ := h.held.registered p g hp
    rw [hwg]
    exact (by decide : ResmanType.devicememWrap ≠ .sharedMemInfo)
  obtain ⟨res, mem, hs', htracks, left, hheld, hcounted, hleft⟩ := h.tracks.disconnectHosted hc
    htypes (fun r s => ∃ left, Held s r left ∧ Counted s left ∧
      (left.filter fun w => w.context ≠ c) = wraps.filter fun w => w.context ≠ c)
    ⟨wraps, h.held, h.counted, rfl⟩ fun r p g s hI hp hgc _ => by
      obtain ⟨left, hheld, hcounted, hleft⟩ := hI
      obtain ⟨w, hw, hwg, -⟩ := hheld.registered p g hp
      rw [hwg] at hp hgc ⊢
      obtain ⟨s', hcall, hheld', hcounted'⟩ := hheld.callBack hcounted hw hp
      refine ⟨s', hcall, _, hheld', hcounted', ?_⟩
      rw [← hleft, dropWrap, List.filter_filter]
      apply List.filter_congr
      intro v hv
      by_cases hvw : v.memInfo = w.memInfo
      · have hvc : v.context = c := by
          have hveq : v = w := List.inj_on_of_nodup_map hheld.nodup hv hw hvw
          rw [hveq]
          exact hgc
        simp [hvc]
      · simp [hvw]
  have hgone : ∀ w ∈ left, w.context ≠ c := fun w hw hwc => by
    obtain ⟨p, y, -, -, hp⟩ := hheld.held w hw
    simp only [Option.filter_eq_some_iff, decide_eq_true_eq] at hp
    exact hp.2 hwc
  have hall : left = wraps.filter fun w => w.context ≠ c := by
    rw [← hleft, List.filter_eq_self.mpr fun w hw => by simpa using hgone w hw]
  refine ⟨⟨res, mem⟩, _, by simp [devmemDisconnect, hs'], htracks, ?_, ?_⟩
  · rw [← hall]
    exact hheld
  · rw [← hall]
    exact hcounted

theorem Good.syncsCounted (h : Good x reg wraps) : SyncsCounted x wraps := by
  refine ⟨h.counted, fun m => ⟨h.held.live m, fun hm => ?_⟩, fun w hw => ?_⟩
  · obtain ⟨w, hw, hwm⟩ := hm
    obtain ⟨p, y, hi, -⟩ := h.held.held w hw
    rw [← hwm, hi]
    rfl
  · obtain ⟨p, y, hi, -, hp⟩ := h.held.held w hw
    refine ⟨p, by rw [hi]; rfl, ?_⟩
    have hconnected := h.tracks.connected hp
    obtain ⟨lists, hshaped, hreg⟩ := h.tracks
    obtain ⟨e, he, hok⟩ := hshaped.findResourceByPtr hconnected p
    rw [hok.mpr ((hreg p _).mp hp).1] at he
    exact he

theorem good_init (os : Os) : Good (devmemInit os) (fun _ => none) [] := by
  refine ⟨tracks_init, ⟨?_, ?_, ?_, List.nodup_nil, ?_, ?_⟩, ⟨?_, ?_, ?_, ?_⟩⟩
  · intro m hm
    cases hm
  · intro w hw
    cases hw
  · intro p g hp
    cases hp
  · intro m i hm
    cases hm
  · intro y i hy
    cases hy
  · exact ⟨Nat.succ_pos 31, Nat.succ_pos 31, fun i _ e he => (by cases he),
      fun i _ => List.nodup_nil⟩
  · intro a y
    constructor
    · intro hy
      cases hy
    · intro hy
      obtain ⟨i, hi, -⟩ := hy
      cases hi
  · intro y i hy
    cases hy
  · intro w hw
    cases hw

theorem Good.step (h : Good x reg wraps) {op : WrapOp} (hop : WrapProper x op) :
    ∃ r x', wrapStep x op = some (r, x') ∧
      ((Provided x op ∧ ∃ reg', Good x' reg' (recordWrap wraps (op, r))) ∨
        ¬Provided x op ∧ ¬SyncsCounted x' (recordWrap wraps (op, r))) := by
  cases op with
  | connect perProc mem =>
    cases mem with
    | none => exact ⟨_, x, rfl, .inl ⟨trivial, reg, h⟩⟩
    | some c =>
      obtain ⟨res, hres, htracks⟩ := h.tracks.connect (hop c rfl) perProc
      exact ⟨.connected (.ok c), { x with res := res }, by simp [wrapStep, hres],
        .inl ⟨trivial, reg, htracks, h.held, h.counted⟩⟩
  | wrap c call =>
    obtain ⟨r, x', hx', hcases⟩ := h.wrap hop
    refine ⟨.wrapped r, x', by simp [wrapStep, hx'], ?_⟩
    cases hcases with
    | inl hgood =>
      refine .inl ⟨hgood.1, ?_⟩
      cases hgood.2 with
      | inl hsame =>
        obtain ⟨⟨e, he⟩, hxx⟩ := hsame
        rw [he, hxx]
        exact ⟨reg, h⟩
      | inr hmore => exact hmore.2
    | inr hbad => exact .inr ⟨hbad.1, hbad.2.2⟩
  | unwrap m =>
    obtain ⟨x', reg', hx', hgood⟩ := h.unwrap hop
    exact ⟨.done, x', by simp [wrapStep, hx'], .inl ⟨trivial, reg', hgood⟩⟩
  | exit c =>
    obtain ⟨x', reg', hx', hgood⟩ := h.exit hop
    exact ⟨.done, x', by simp [wrapStep, hx'], .inl ⟨trivial, reg', hgood⟩⟩

variable {l : List (WrapOp × WrapReply)} {os : Os}

theorem good_run (hrun : Run wrapStep (fun x op => WrapProper x op ∧ Provided x op)
    (devmemInit os) l x) : ∃ reg, Good x reg (l.foldl recordWrap []) :=
  hrun.ledger (fun x wraps => ∃ reg, Good x reg wraps) recordWrap [] ⟨_, good_init os⟩
    fun x wraps op r x' hgood hop hs => by
      obtain ⟨reg, h⟩ := hgood
      obtain ⟨r', u, hu, hcases⟩ := h.step hop.1
      rw [hs, Option.some.injEq, Prod.mk.injEq] at hu
      cases hcases with
      | inl hgood =>
        rw [hu.1, hu.2]
        exact hgood.2
      | inr hbad => exact absurd hop.2 hbad.1

/-- The table counts the live wraps in every state of a run exactly if every new sync info got
    its place in the table and every wrap its item. In such a run a wrap that fails, and fails
    for another reason, changes nothing. -/
theorem syncs_counted_over_runs (hrun : Run wrapStep WrapProper (devmemInit os) l x) :
    ((∀ k u, k <+: l → Run wrapStep WrapProper (devmemInit os) k u →
      SyncsCounted u (k.foldl recordWrap [])) ↔
      Run wrapStep (fun x op => WrapProper x op ∧ Provided x op) (devmemInit os) l x) ∧
    (Run wrapStep (fun x op => WrapProper x op ∧ Provided x op) (devmemInit os) l x →
      ∀ c call e x', WrapProper x (.wrap c call) →
        pvrsrvWrapExtMemoryKM x c call = some (.error e, x') →
        x'.mem.entry = x.mem.entry ∧ x'.mem.memInfos = x.mem.memInfos ∧
          (Provided x (.wrap c call) → x' = x)) := by
  refine ⟨⟨fun hall => ?_, fun hgood k u hk hu => ?_⟩, fun hgood c call e x' hop hs => ?_⟩
  · induction hrun with
    | refl => exact .refl
    | snoc run hop hs ih =>
      have hsound := ih fun k u hk hu => hall k u (hk.trans (List.prefix_append _ _)) hu
      have hlast := hall _ _ (List.prefix_refl _) (run.snoc hop hs)
      obtain ⟨reg, h⟩ := good_run hsound
      obtain ⟨r', u, hu, hcases⟩ := h.step hop
      rw [hs, Option.some.injEq, Prod.mk.injEq] at hu
      cases hcases with
      | inl hprovided => exact hsound.snoc ⟨hop, hprovided.1⟩ hs
      | inr hbad =>
        rw [List.foldl_append, List.foldl_cons, List.foldl_nil, hu.1, hu.2] at hlast
        exact absurd hlast hbad.2
  · obtain ⟨v, hv⟩ := hgood.of_prefix hk
    rw [hu.unique hv]
    obtain ⟨reg, h⟩ := good_run hv
    exact h.syncsCounted
  · obtain ⟨reg, h⟩ := good_run hgood
    obtain ⟨r, u, hu, hcases⟩ := h.wrap hop
    rw [hs, Option.some.injEq, Prod.mk.injEq] at hu
    rw [← hu.1, ← hu.2] at hcases
    cases hcases with
    | inl hprovided =>
      cases hprovided.2 with
      | inl hsame =>
        rw [hsame.2]
        exact ⟨rfl, rfl, fun _ => rfl⟩
      | inr hmore =>
        obtain ⟨⟨m, hm⟩, -⟩ := hmore
        cases hm
    | inr hbad =>
      obtain ⟨hentry, hinfos⟩ := hbad.2.1 ⟨e, rfl⟩
      exact ⟨hentry, hinfos, fun hprovided => absurd hprovided hbad.1⟩

def unused {α : Type} (f : ℕ → Option α) (mem : Option ℕ) : Bool :=
  mem.all fun p => (f p).isNone && (0 < p && p < 4294967296)

def wrapCheck (x : DevmemSys) : WrapOp → Bool
  | .connect _ mem => mem.all fun c => (x.res.contexts c).isNone
  | .wrap c call => (x.res.contexts c).isSome && (unused x.mem.memInfos call.memInfo &&
    (unused x.mem.syncInfos call.syncInfo && unused x.res.items call.resItem))
  | .unwrap m => (x.mem.memInfos m).isSome
  | .exit c => (x.res.contexts c).isSome

def supplied (x : DevmemSys) : WrapOp → Bool
  | .wrap _ call => x.mem.os.grants x.mem.os.calls && call.resItem.isSome
  | _ => true

theorem fresh_of_unused {α : Type} {f : ℕ → Option α} {mem : Option ℕ}
    (h : unused f mem = true) : Fresh f mem := by
  intro p hp
  rw [hp] at h
  simpa [unused] using h

theorem wrapProper_of_check {op : WrapOp} (h : wrapCheck x op = true) : WrapProper x op := by
  cases op with
  | connect perProc mem =>
    intro c hc
    rw [hc] at h
    simpa [wrapCheck] using h
  | wrap c call =>
    simp only [wrapCheck, Bool.and_eq_true] at h
    exact ⟨h.1, fresh_of_unused h.2.1, fresh_of_unused h.2.2.1, fresh_of_unused h.2.2.2⟩
  | unwrap m => exact h
  | exit c => exact h

theorem provided_of_supplied {op : WrapOp} (h : supplied x op = true) : Provided x op := by
  cases op with
  | wrap c call =>
    simp only [supplied, Bool.and_eq_true] at h
    intro a _
    split
    · exact fun _ => h
    · exact h.2
  | connect | unwrap | exit => trivial

def sampleWrap (m p : ℕ) : WrapCall :=
  ⟨false, some 40960, true, none, true, some m, true, some 12288, some p⟩

def sampleOps : List WrapOp :=
  [.connect 1 (some 4096), .connect 2 (some 4112), .wrap 4096 (sampleWrap 8192 16384),
    .wrap 4112 { sampleWrap 8320 16448 with syncInfo := none }, .exit 4096]

def plenty : Os := ⟨fun _ => true, 0⟩

theorem syncs_counted_over_sample : ∃ l x,
    exec wrapStep (devmemInit plenty) sampleOps = some (l, x) ∧
    (∀ k u, k <+: l → Run wrapStep WrapProper (devmemInit plenty) k u →
      SyncsCounted u (k.foldl recordWrap [])) ∧
    x.mem.syncInfos 12288 = some ⟨40960, 1⟩ ∧ x.mem.entry 40960 = some 12288 := by
  have hsome : (exec wrapStep (devmemInit plenty) sampleOps).map (fun r =>
      (r.2.mem.syncInfos 12288, r.2.mem.entry 40960)) =
      some (some ⟨40960, 1⟩, some 12288) := by decide +kernel
  obtain ⟨⟨l, x⟩, hexec, hlook⟩ := Option.map_eq_some_iff.mp hsome
  have hallowed : Allowed wrapStep (fun x op => (wrapCheck x op && supplied x op) = true)
      (devmemInit plenty) sampleOps := by decide +kernel
  have hgood : Run wrapStep (fun x op => WrapProper x op ∧ Provided x op) (devmemInit plenty) l x :=
    (Run.of_allowed hexec hallowed).mono fun _ _ h =>
      ⟨wrapProper_of_check (Bool.and_eq_true_iff.mp h).1,
        provided_of_supplied (Bool.and_eq_true_iff.mp h).2⟩
  have hall := (syncs_counted_over_runs (hgood.mono fun _ _ h => h.1)).1.mpr hgood
  rw [Prod.mk.injEq] at hlook
  exact ⟨l, x, hexec, hall, hlook⟩

/-- A wrap whose sync info finds no place in the table fails and leaves the sync info behind. -/
theorem sync_info_left_behind :
    ¬∀ os l x, Run wrapStep WrapProper (devmemInit os) l x →
      SyncsCounted x (l.foldl recordWrap []) := by
  intro hclaim
  let os : Os := ⟨fun _ => false, 0⟩
  have hsome : (exec wrapStep (devmemInit os) (sampleOps.take 3)).map (fun r =>
      (r.2.mem.syncInfos 12288, r.2.mem.entry 40960)) = some (some ⟨40960, 1⟩, none) := by
    decide +kernel
  obtain ⟨⟨l, x⟩, hexec, hlook⟩ := Option.map_eq_some_iff.mp hsome
  rw [Prod.mk.injEq] at hlook
  have hallowed : Allowed wrapStep (fun x op => wrapCheck x op = true) (devmemInit os)
      (sampleOps.take 3) := by decide +kernel
  have hrun : Run wrapStep WrapProper (devmemInit os) l x :=
    (Run.of_allowed hexec hallowed).mono fun _ _ h => wrapProper_of_check h
  have hentry := ((hclaim os l x hrun).counted.entered 40960 12288).mpr ⟨_, hlook.1, rfl⟩
  rw [hlook.2] at hentry
  cases hentry

end PvrServices.Devmem
