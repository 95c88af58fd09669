import PvrServices.BridgeBase
import PvrServices.Runs

set_option autoImplicit false

/-!
# Who may call a handler

A handler runs only on the data of the process that calls, and for other processes than the init
process only after the initialisation, as long as no package names another command than an ioctl
that connects.
-/
namespace PvrServices.Bridges
open Memory Runs
variable {σ : Type} {x : Bridge σ} {k k' : Kernel σ} {q : Ioctl} {p : BridgePackage}
  {d : PerProcessData} {r : Dispatch σ} {bid : ℕ} {e : Handled} {c : BridgeCall} {a : BridgeAnswer}

/-- The package and the per-process data of an ioctl that gets as far as the copy of its input. -/
def admitted (k : Kernel σ) (q : Ioctl) : Option (BridgePackage × PerProcessData) := do
  let f ← k.files q.file
  let p ← q.package
  let d ← k.psHashTab f.proc
  if k.pvrDisabled then none
  else if pvrsrvGetBridgeId q.cmd ≠ bridgeConnectServices ∧ d.ui32PID ≠ q.caller then none
  else if !d.bInitProcess && bridgedCheckCmd k.initServer (pvrsrvGetBridgeId p.ui32BridgeID) then
    none
  else if q.env.sysAcquireData then some (p, d)
  else none

def dataIn (k : Kernel σ) (p : BridgePackage) : ℕ → UInt8 :=
  if 0 < p.ui32InBufferSize then
    (osCopyFromUser k.bridgeData 0 p.paramIn p.ui32InBufferSize).2
  else k.bridgeData

def inAccess (p : BridgePackage) : List Access :=
  if 0 < p.ui32InBufferSize then [⟨true, 0, p.ui32InBufferSize⟩] else []

def siteOf (k : Kernel σ) (q : Ioctl) (p : BridgePackage) (d : PerProcessData) (h : Handler σ) :
    Site σ :=
  ⟨q.file, d, k.initServer, k.rest, copy (dataIn k p) 0 h.inSize⟩

theorem copyIn_eq : copyIn x k q p bid d =
    if p.ui32InBufferSize ≤ p.paramIn.length then
      callHandler x { k with bridgeData := dataIn k p } q p bid d (inAccess p)
    else ⟨efault, { k with bridgeData := dataIn k p }, inAccess p, none, []⟩ := by
  unfold copyIn dataIn inAccess
  by_cases hsize : 0 < p.ui32InBufferSize
  · simp [hsize, osCopyFromUser]
  · have hzero : p.ui32InBufferSize = 0 := by omega
    simp [hzero]

theorem dispatch_of_not_admitted (hr : pvrsrvBridgeDispatchKM x k q = some r)
    (h : admitted k q = none) :
    r.accesses = [] ∧ r.handled = none ∧ r.copied = [] ∧
      r.kernel = { k with rest := r.kernel.rest } := by
  unfold pvrsrvBridgeDispatchKM bridgedDispatchKM at hr
  unfold admitted at h
  cases hf : k.files q.file with
  | none => simp [hf] at hr
  | some f =>
    cases hp : q.package with
    | none =>
      simp only [hf, hp] at hr
      split at hr
      all_goals
        cases hr
        exact ⟨rfl, rfl, rfl, rfl⟩
    | some p =>
      simp only [hf, hp, Option.bind_eq_bind, Option.bind_some] at hr h
      by_cases hdis : k.pvrDisabled = true
      · rw [if_pos hdis] at hr
        cases hr
        exact ⟨rfl, rfl, rfl, rfl⟩
      · rw [if_neg hdis] at hr
        cases hd : k.psHashTab f.proc with
        | none => simp [hd] at hr
        | some d =>
          simp only [hdis, hd, Option.bind_some, Bool.false_eq_true, if_false] at hr h
          split at h
          · rw [if_pos ‹_›] at hr
            cases hr
            exact ⟨rfl, rfl, rfl, rfl⟩
          · rw [if_neg ‹_›] at hr
            split at h
            · rw [if_pos ‹_›] at hr
              cases hr
              exact ⟨rfl, rfl, rfl, rfl⟩
            · rw [if_neg ‹_›] at hr
              split at h
              · simp at h
              · rw [if_neg ‹_›] at hr
                cases hr
                exact ⟨rfl, rfl, rfl, rfl⟩

theorem dispatch_of_admitted (h : admitted k q = some (p, d)) :
    (∃ f, k.files q.file = some f ∧ k.psHashTab f.proc = some d) ∧ q.package = some p ∧
      (pvrsrvGetBridgeId q.cmd = bridgeConnectServices ∨ d.ui32PID = q.caller) ∧
      (d.bInitProcess = true ∨
        bridgedCheckCmd k.initServer (pvrsrvGetBridgeId p.ui32BridgeID) = false) ∧
      pvrsrvBridgeDispatchKM x k q =
        some (returnFault x d (copyIn x k q p (pvrsrvGetBridgeId p.ui32BridgeID) d)) := by
  unfold admitted at h
  obtain ⟨f, hf, h⟩ := Option.bind_eq_some_iff.mp h
  obtain ⟨p', hp, h⟩ := Option.bind_eq_some_iff.mp h
  obtain ⟨d', hd, h⟩ := Option.bind_eq_some_iff.mp h
  split at h
  · simp at h
  · rename_i hdis
    split at h
    · simp at h
    · rename_i howner
      split at h
      · simp at h
      · rename_i hcheck
        split at h
        · rename_i hsys
          simp only [Option.some.injEq, Prod.mk.injEq] at h
          rw [h.1] at hp hcheck
          rw [h.2] at hd howner hcheck
          refine ⟨⟨f, hf, hd⟩, hp, by tauto, ?_, ?_⟩
          · simp only [Bool.and_eq_true, Bool.not_eq_true', not_and, Bool.not_eq_true] at hcheck
            by_cases hinit : d.bInitProcess = true
            · exact .inl hinit
            · exact .inr (hcheck (by simpa using hinit))
          · unfold pvrsrvBridgeDispatchKM bridgedDispatchKM
            simp [hf, hp, hd, hdis, howner, hcheck, hsys]
        · simp at h

def eventOf (k : Kernel σ) (q : Ioctl) (p : BridgePackage) (bid : ℕ) (d : PerProcessData)
    (h : Handler σ) : Handled where
  bridgeId := bid
  caller := q.caller
  perProc := d
  callerIsInit := k.isInitProcess q.caller
  input := (siteOf k q p d h).input
  finished := decide (bid = bridgeInitsrvDisconnect) && d.bInitProcess &&
    decide (q.env.finaliseSystem = codeOk) && bInitSuccesful (siteOf k q p d h).input

/-- Whether an ioctl reaches its handler from the copy of its input. -/
def handlerOf (x : Bridge σ) (p : BridgePackage) : Option (Handler σ) :=
  if p.ui32InBufferSize ≤ p.paramIn.length then
    bridgedIoctl x (pvrsrvGetBridgeId p.ui32BridgeID)
  else none

theorem callHandler_handled {accesses : List Access} {h : Handler σ}
    (hh : bridgedIoctl x bid = some h) :
    (callHandler x { k with bridgeData := dataIn k p } q p bid d accesses).handled =
      some (eventOf k q p bid d h) ∧
    (callHandler x { k with bridgeData := dataIn k p } q p bid d accesses).kernel =
      ({ k with bridgeData := dataIn k p } : Kernel σ).afterHandler d
        (h.run q.env (siteOf k q p d h)) := by
  unfold callHandler copyOut
  rw [hh]
  dsimp only
  split
  · exact ⟨rfl, rfl⟩
  · exact ⟨rfl, rfl⟩

theorem copyIn_of_none (h : handlerOf x p = none) :
    (copyIn x k q p (pvrsrvGetBridgeId p.ui32BridgeID) d).handled = none ∧
    (copyIn x k q p (pvrsrvGetBridgeId p.ui32BridgeID) d).kernel =
      { k with bridgeData := dataIn k p } := by
  rw [copyIn_eq]
  unfold handlerOf at h
  split at h
  · rw [if_pos ‹_›]
    unfold callHandler
    rw [h]
    exact ⟨rfl, rfl⟩
  · rw [if_neg ‹_›]
    exact ⟨rfl, rfl⟩

theorem copyIn_of_some {h : Handler σ} (hh : handlerOf x p = some h) :
    (copyIn x k q p (pvrsrvGetBridgeId p.ui32BridgeID) d).handled =
      some (eventOf k q p (pvrsrvGetBridgeId p.ui32BridgeID) d h) ∧
    (copyIn x k q p (pvrsrvGetBridgeId p.ui32BridgeID) d).kernel =
      ({ k with bridgeData := dataIn k p } : Kernel σ).afterHandler d
        (h.run q.env (siteOf k q p d h)) := by
  rw [copyIn_eq]
  unfold handlerOf at hh
  split at hh
  · rw [if_pos ‹_›]
    exact callHandler_handled hh
  · simp at hh

/-- Only the init process makes the initialisation successful, and it does so by the command that
    ends it. -/
theorem successful_of_handler {h : Handler σ} (hh : bridgedIoctl x bid = some h) {v : Env}
    {t : Site σ} (hs : (h.run v t).initServer.successful = true) :
    t.initServer.successful = true ∨
      bid = bridgeInitsrvDisconnect ∧ t.perProc.bInitProcess = true ∧
        v.finaliseSystem = codeOk ∧ bInitSuccesful t.input = true := by
  unfold bridgedIoctl at hh
  split at hh
  · cases hh
    exact .inl hs
  · split at hh
    · cases hh
      exact .inl hs
    · split at hh
      · cases hh
        unfold pvrsrvInitSrvConnectBW at hs
        dsimp only at hs
        split at hs
        all_goals exact .inl hs
      · split at hh
        · rename_i hbid
          cases hh
          unfold pvrsrvInitSrvDisconnectBW at hs
          dsimp only at hs
          split at hs
          · exact .inl hs
          · rename_i hinit
            simp only [Bool.and_eq_true, decide_eq_true_eq] at hs
            exact .inr ⟨hbid, by simpa using hinit, hs.1, hs.2⟩
        · split at hh
          · cases hh
            exact .inl hs
          · obtain ⟨o, -, ho⟩ := Option.map_eq_some_iff.mp hh
            rw [← ho] at hs
            exact .inl hs

/-- A handler that runs on the data of its caller, except for the command that connects. -/
def Handled.OwnData (e : Handled) : Prop :=
  e.bridgeId ≠ bridgeConnectServices → e.caller = e.perProc.ui32PID

/-- A handler that ends the initialisation successfully was among the calls. -/
def Initialised (l : List (BridgeCall × BridgeAnswer)) : Prop :=
  ∃ y ∈ l, ∃ e, y.2.handled = some e ∧ e.finished = true

/-- A handler that runs for another process than the init process, except for the commands that
    connect and disconnect, runs after the initialisation. -/
def Handled.AfterInit (e : Handled) (before : List (BridgeCall × BridgeAnswer)) : Prop :=
  e.callerIsInit = false →
    e.bridgeId ∉ [bridgeConnectServices, bridgeDisconnectServices, bridgeInitsrvConnect,
      bridgeInitsrvDisconnect] → Initialised before

def Guarded (l : List (BridgeCall × BridgeAnswer)) : Prop :=
  ∀ before y after, l = before ++ y :: after → ∀ e, y.2.handled = some e →
    e.OwnData ∧ e.AfterInit before

/-- An ioctl with the number of the command that connects, on the file of another process, whose
    package names another command that has a handler. -/
def Smuggled (x : Bridge σ) (k : Kernel σ) : BridgeCall → Prop
  | .ioctl q => ∃ p d, admitted k q = some (p, d) ∧
      pvrsrvGetBridgeId q.cmd = bridgeConnectServices ∧
      pvrsrvGetBridgeId p.ui32BridgeID ≠ bridgeConnectServices ∧ d.ui32PID ≠ q.caller ∧
      (handlerOf x p).isSome
  | _ => False

structure Loaded (k : Kernel σ) : Prop where
  flags : k.initServer = ⟨false, false, false⟩
  procs : k.psHashTab = fun _ => none
  files : k.files = fun _ => none

/-- Per-process data is found under its pid, and the flag of a successful initialisation was set
    by the end of one. -/
structure Known (k : Kernel σ) (l : List (BridgeCall × BridgeAnswer)) : Prop where
  pid : ∀ i d, k.psHashTab i = some d → d.ui32PID = i
  successful : k.initServer.successful = true → Initialised l

theorem Initialised.append {l m : List (BridgeCall × BridgeAnswer)} (h : Initialised l) :
    Initialised (l ++ m) := by
  obtain ⟨y, hy, hfin⟩ := h
  exact ⟨y, List.mem_append_left _ hy, hfin⟩

theorem Known.of_eq {l m : List (BridgeCall × BridgeAnswer)} (h : Known k l)
    (hp : ∀ i d, k'.psHashTab i = some d → d.ui32PID = i)
    (hi : k'.initServer = k.initServer) : Known k' (l ++ m) :=
  ⟨hp, fun hs => (h.successful (by rwa [hi] at hs)).append⟩

theorem Known.put {l : List (BridgeCall × BridgeAnswer)} (h : Known k l) {i : ℕ}
    {o : Option PerProcessData} (ho : ∀ d, o = some d → d.ui32PID = i) (j : ℕ)
    (d : PerProcessData) (hd : Function.update k.psHashTab i o j = some d) : d.ui32PID = j := by
  by_cases hj : j = i
  · rw [hj, Function.update_self] at hd
    rw [hj]
    exact ho d hd
  · rw [Function.update_of_ne hj] at hd
    exact h.pid j d hd

theorem Known.ioctl {l : List (BridgeCall × BridgeAnswer)} (h : Known k l)
    (hs : step x k (.ioctl q) = some (a, k')) : Known k' (l ++ [(.ioctl q, a)]) := by
  obtain ⟨r, hr, heq⟩ := Option.map_eq_some_iff.mp hs
  rw [Prod.mk.injEq] at heq
  rw [← heq.1, ← heq.2]
  cases had : admitted k q with
  | none =>
    obtain ⟨-, -, -, hk⟩ := dispatch_of_not_admitted hr had
    apply h.of_eq
    · rw [hk]
      exact h.pid
    · rw [hk]
  | some y =>
    obtain ⟨⟨f, -, hd⟩, -, -, -, hdisp⟩ := dispatch_of_admitted (x := x) had
    rw [hr, Option.some.injEq] at hdisp
    cases hh : handlerOf x y.1 with
    | none =>
      have hcopy := copyIn_of_none (k := k) (q := q) (d := y.2) hh
      have hker : r.kernel = { k with bridgeData := dataIn k y.1, rest := r.kernel.rest } := by
        rw [hdisp]
        unfold returnFault
        dsimp only
        rw [hcopy.2]
      apply h.of_eq
      · rw [hker]
        exact h.pid
      · rw [hker]
    | some g =>
      have hcopy := copyIn_of_some (k := k) (q := q) (d := y.2) hh
      have hprocs : r.kernel.psHashTab = (({ k with bridgeData := dataIn k y.1 } :
          Kernel σ).afterHandler y.2 (g.run q.env (siteOf k q y.1 y.2 g))).psHashTab := by
        rw [hdisp, ← hcopy.2]
        rfl
      have hflags : r.kernel.initServer =
          (g.run q.env (siteOf k q y.1 y.2 g)).initServer := by
        rw [hdisp]
        unfold returnFault
        dsimp only
        rw [hcopy.2]
        rfl
      have hhandled : r.handled =
          some (eventOf k q y.1 (pvrsrvGetBridgeId y.1.ui32BridgeID) y.2 g) := by
        rw [hdisp, ← hcopy.1]
        rfl
      constructor
      · intro i d hi
        rw [hprocs] at hi
        exact h.put (o := some { y.2 with bInitProcess := _ })
          (fun d hd => by cases hd; rfl) i d hi
      · intro hsucc
        rw [hflags] at hsucc
        unfold handlerOf at hh
        split at hh
        · cases successful_of_handler hh hsucc with
          | inl hold => exact (h.successful hold).append
          | inr hnew =>
            refine ⟨_, List.mem_append_right _ (List.mem_singleton_self _), _, hhandled, ?_⟩
            obtain ⟨hbid, hinit, hfin, hok⟩ := hnew
            have hinput : bInitSuccesful (siteOf k q y.1 y.2 g).input = true := hok
            have hproc : y.2.bInitProcess = true := hinit
            simp [eventOf, hbid, hproc, hfin, hinput]
        · simp at hh

theorem Known.step {l : List (BridgeCall × BridgeAnswer)} (h : Known k l)
    (hs : step x k c = some (a, k')) : Known k' (l ++ [(c, a)]) := by
  cases c with
  | pvrOpen pid file handle grants =>
    unfold Bridges.step at hs
    dsimp only at hs
    split at hs
    · simp at hs
    · rw [Option.some.injEq, Prod.mk.injEq] at hs
      rw [← hs.2]
      unfold Bridges.pvrOpen
      split
      · exact h.of_eq h.pid rfl
      · unfold pvrsrvPerProcessDataConnect
        cases hp : k.psHashTab pid with
        | some d =>
          have hput := h.put (o := some { d with ui32RefCount := d.ui32RefCount + 1 })
            fun d' hd' => by cases hd'; exact h.pid pid d hp
          dsimp only
          split
          all_goals exact h.of_eq hput rfl
        | none =>
          cases handle with
          | none => exact h.of_eq h.pid rfl
          | some m =>
            have hput := h.put (o := some ⟨pid, 1, false, m⟩) fun d' hd' => by cases hd'; rfl
            dsimp only [Option.map_some]
            split
            all_goals exact h.of_eq hput rfl
  | pvrRelease file =>
    obtain ⟨k'', hk, heq⟩ := Option.map_eq_some_iff.mp hs
    rw [Prod.mk.injEq] at heq
    rw [← heq.2]
    obtain ⟨f, -, hf⟩ := Option.map_eq_some_iff.mp hk
    rw [← hf]
    unfold pvrsrvPerProcessDataDisconnect
    cases hp : k.psHashTab f.ui32OpenPID with
    | none => exact h.of_eq h.pid rfl
    | some d =>
      dsimp only
      split
      · exact h.of_eq (h.put (o := none) (fun d' hd' => by cases hd')) rfl
      · exact h.of_eq (h.put (o := some { d with ui32RefCount := d.ui32RefCount - 1 })
          fun d' hd' => by cases hd'; exact h.pid _ d hp) rfl
  | ioctl q => exact h.ioctl hs
  | pvrDisable =>
    cases hs
    exact h.of_eq h.pid rfl

theorem Loaded.known (h : Loaded k) : Known k [] := by
  constructor
  · intro i d hd
    rw [h.procs] at hd
    cases hd
  · intro hs
    rw [h.flags] at hs
    cases hs

theorem Known.run {k₀ : Kernel σ} {l : List (BridgeCall × BridgeAnswer)} (h₀ : Known k₀ [])
    {ok : Kernel σ → BridgeCall → Prop} (h : Run (Bridges.step x) ok k₀ l k) : Known k l := by
  induction h with
  | refl => exact h₀
  | snoc _ _ hs ih => exact ih.step hs

theorem Known.guarded_iff {l : List (BridgeCall × BridgeAnswer)} (h : Known k l)
    (hs : Bridges.step x k c = some (a, k')) :
    (∀ e, a.handled = some e → e.OwnData ∧ e.AfterInit l) ↔ ¬ Smuggled x k c := by
  cases c with
  | pvrOpen pid file handle grants =>
    unfold Bridges.step at hs
    dsimp only at hs
    split at hs
    · simp at hs
    · cases hs
      exact ⟨fun _ hbad => hbad, fun _ e he => by cases he⟩
  | pvrRelease file =>
    obtain ⟨k'', -, heq⟩ := Option.map_eq_some_iff.mp hs
    rw [Prod.mk.injEq] at heq
    rw [← heq.1]
    exact ⟨fun _ hbad => hbad, fun _ e he => by cases he⟩
  | pvrDisable =>
    cases hs
    exact ⟨fun _ hbad => hbad, fun _ e he => by cases he⟩
  | ioctl q =>
    obtain ⟨r, hr, heq⟩ := Option.map_eq_some_iff.mp hs
    rw [Prod.mk.injEq] at heq
    rw [← heq.1]
    dsimp only
    cases had : admitted k q with
    | none =>
      have hnone := (dispatch_of_not_admitted hr had).2.1
      rw [hnone]
      refine ⟨?_, fun _ e he => by cases he⟩
      rintro - ⟨p, d, hpd, -⟩
      rw [had] at hpd
      cases hpd
    | some y =>
      obtain ⟨p, d⟩ := y
      obtain ⟨⟨f, -, hd⟩, -, howner, hcheck, hdisp⟩ := dispatch_of_admitted (x := x) had
      rw [hr, Option.some.injEq] at hdisp
      cases hh : handlerOf x p with
      | none =>
        have hnone : r.handled = none := by
          rw [hdisp]
          exact (copyIn_of_none hh).1
        rw [hnone]
        refine ⟨?_, fun _ e he => by cases he⟩
        rintro - ⟨p', d', hpd, -, -, -, hsome⟩
        rw [had, Option.some.injEq, Prod.mk.injEq] at hpd
        rw [← hpd.1, hh] at hsome
        cases hsome
      | some g =>
        have hsome : r.handled =
            some (eventOf k q p (pvrsrvGetBridgeId p.ui32BridgeID) d g) := by
          rw [hdisp]
          exact (copyIn_of_some hh).1
        rw [hsome]
        constructor
        · rintro hall ⟨p', d', hpd, -, hbid, hpid, -⟩
          rw [had, Option.some.injEq, Prod.mk.injEq] at hpd
          rw [← hpd.1] at hbid
          rw [← hpd.2] at hpid
          exact hpid ((hall _ rfl).1 hbid).symm
        · intro hnot e he
          rw [Option.some.injEq] at he
          rw [← he]
          have hpid (hbid : pvrsrvGetBridgeId p.ui32BridgeID ≠ bridgeConnectServices) :
              q.caller = d.ui32PID := by
            cases howner with
            | inr hown => exact hown.symm
            | inl hcmd =>
              by_contra hne
              exact hnot ⟨p, d, had, hcmd, hbid, fun heq => hne heq.symm, by rw [hh]; rfl⟩
          refine ⟨hpid, fun hinit hbid => ?_⟩
          have hconnect : pvrsrvGetBridgeId p.ui32BridgeID ≠ bridgeConnectServices := by
            intro heq
            exact hbid (by simp [eventOf, heq])
          -- the caller's own data has no flag, so the command was checked
          have hflag : d.bInitProcess = false := by
            have hproc : f.proc = q.caller := by
              rw [hpid hconnect]
              exact (h.pid _ _ hd).symm
            have hfalse : k.isInitProcess q.caller = false := hinit
            unfold Kernel.isInitProcess at hfalse
            rw [← hproc, hd] at hfalse
            exact hfalse
          cases hcheck with
          | inl htrue => simp [hflag] at htrue
          | inr hok =>
            unfold bridgedCheckCmd at hok
            split at hok
            · exact h.successful (by simpa using hok)
            · split at hok
              · simp at hok
              · exact absurd (of_decide_eq_true ((Bool.not_eq_false' _).mp hok)) hbid

theorem guarded_snoc_iff {l : List (BridgeCall × BridgeAnswer)} :
    Guarded (l ++ [(c, a)]) ↔
      Guarded l ∧ ∀ e, a.handled = some e → e.OwnData ∧ e.AfterInit l := by
  constructor
  · intro h
    refine ⟨fun before y after hl e he => ?_, fun e he => h l (c, a) [] rfl e he⟩
    apply h before y (after ++ [(c, a)]) _ e he
    rw [hl]
    simp
  · rintro ⟨hl, hlast⟩ before y after heq e he
    cases List.eq_nil_or_concat after with
    | inl hnil =>
      rw [hnil] at heq
      obtain ⟨hbefore, hy⟩ := List.append_inj' heq rfl
      rw [List.cons.injEq] at hy
      rw [← hy.1] at he
      rw [← hbefore]
      exact hlast e he
    | inr hmore =>
      obtain ⟨rest, z, hz⟩ := hmore
      have hcut : l ++ [(c, a)] = (before ++ y :: rest) ++ [z] := by simpa [hz] using heq
      exact hl before y rest (List.append_inj' hcut rfl).1 e he

/-- From the loading of the driver on, handlers run only on the data of their callers, and for
    other processes than the init process only after a successful initialisation, exactly when no
    ioctl is smuggled. -/
theorem guarded_over_runs {k₀ : Kernel σ} {l : List (BridgeCall × BridgeAnswer)}
    (h₀ : Loaded k₀) (h : Run (step x) (fun _ _ => True) k₀ l k) :
    Guarded l ↔ Run (step x) (fun k c => ¬ Smuggled x k c) k₀ l k := by
  apply h.good_iff
  · intro before y after hl
    simp at hl
  · intro l t c a u run hs
    rw [guarded_snoc_iff, (h₀.known.run run).guarded_iff hs]

def sampleBridge : Bridge Unit where
  other cmd :=
    if cmd = 6 then
      some ⟨4, fun _ _ _ _ => ⟨0, (), [], [(0, fieldBytes 4 codeOk)]⟩⟩
    else none
  releaseHandleBatch _ _ := ()
  connect _ _ := ()
  disconnect _ _ := ()

def sampleKernel : Kernel Unit :=
  ⟨false, ⟨false, false, false⟩, fun _ => none, fun _ => none, fun _ => 0, ()⟩

theorem sampleKernel_loaded : Loaded sampleKernel := ⟨rfl, rfl, rfl⟩

def sampleIoctl (caller file cmd bid : ℕ) : BridgeCall :=
  .ioctl ⟨caller, file, cmd, some ⟨bid, 8, 8, fieldBytes 4 0 ++ fieldBytes 4 1, 8⟩,
    ⟨true, true, codeOk⟩⟩

def sampleGuardedCalls : List BridgeCall :=
  [.pvrOpen 1 0 (some 31) true, sampleIoctl 1 0 67 67, .pvrOpen 2 1 (some 32) true,
    sampleIoctl 1 0 68 68, sampleIoctl 2 1 12 12, sampleIoctl 2 1 6 6]

theorem guarded_over_sample :
    ∃ l k, exec (step sampleBridge) sampleKernel sampleGuardedCalls = some (l, k) ∧
      (Guarded l ↔ Run (step sampleBridge) (fun k c => ¬ Smuggled sampleBridge k c)
        sampleKernel l k) ∧
      l.map (fun y => y.2.handled.map Handled.bridgeId) =
        [none, some 67, none, some 68, some 12, some 6] := by
  have hsome : (exec (step sampleBridge) sampleKernel sampleGuardedCalls).map (fun r =>
      r.1.map fun y => y.2.handled.map Handled.bridgeId) =
        some [none, some 67, none, some 68, some 12, some 6] := by decide +kernel
  obtain ⟨⟨l, k⟩, hexec, hlist⟩ := Option.map_eq_some_iff.mp hsome
  exact ⟨l, k, hexec, guarded_over_runs sampleKernel_loaded
    (Run.of_exec hexec fun _ _ _ => trivial), hlist⟩

def sampleSmuggledCalls : List BridgeCall :=
  [.pvrOpen 1 0 (some 31) true, sampleIoctl 1 0 67 67, sampleIoctl 2 0 12 68]

theorem smuggled_command : ∃ (k₀ : Kernel Unit) (l : List (BridgeCall × BridgeAnswer))
    (k : Kernel Unit), Loaded k₀ ∧ Run (step sampleBridge) (fun _ _ => True) k₀ l k ∧
      ¬ Guarded l := by
  have hsome : (exec (step sampleBridge) sampleKernel sampleSmuggledCalls).map (fun r =>
      (r.1.length, (r.1[2]?).bind fun y => y.2.handled.map fun e =>
        (e.bridgeId, e.caller, e.perProc.ui32PID))) = some (3, some (68, 2, 1)) := by
    decide +kernel
  obtain ⟨⟨l, k⟩, hexec, hlist⟩ := Option.map_eq_some_iff.mp hsome
  rw [Prod.mk.injEq] at hlist
  obtain ⟨y, hy, hyes⟩ := Option.bind_eq_some_iff.mp hlist.2
  obtain ⟨e, he, hkey⟩ := Option.map_eq_some_iff.mp hyes
  simp only [Prod.mk.injEq] at hkey
  refine ⟨sampleKernel, l, k, sampleKernel_loaded, Run.of_exec hexec fun _ _ _ => trivial, ?_⟩
  intro h
  obtain ⟨hlt, hget⟩ := List.getElem?_eq_some_iff.mp hy
  have hcut : l = l.take 2 ++ y :: l.drop 3 := by
    rw [← hget, List.getElem_cons_drop, List.take_append_drop]
  have hown := (h _ y _ hcut e he).1 (by rw [hkey.1]; decide)
  omega

end PvrServices.Bridges
