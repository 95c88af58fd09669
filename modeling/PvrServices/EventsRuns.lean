import PvrServices.EventsFlow
import PvrServices.Runs

set_option autoImplicit false

/-!
# Events over whole runs

Clients ask for events, the counters move on, and readers take what is complete. As long as every
copy to a reader succeeds, every accepted request waits, is queued, is in the hands of a reader or
was delivered, and each passes these places in this order.
-/
namespace PvrServices.Events
open Runs Words
variable {s s' t : EventState} {g : Ledger} {f e h : ℕ} {ev : PendingSyncEvent} {rd : ReadCall}
  {priv : FilePrivateData} {op : EventOp}

theorem Flow.nodup_waiting (hs : Flow s g) : s.syncWaitList.Nodup := by
  rw [List.nodup_iff_count_le_one]
  intro e
  by_cases he : e ∈ s.syncWaitList
  · obtain ⟨ev, hev⟩ := Option.isSome_iff_exists.mp (hs.waiting e he)
    have hmine : s.waitsFor ev.filePriv e = true := waitsFor_iff.mpr ⟨ev, hev, rfl⟩
    have hnodup : (s.waitingFor ev.filePriv).Nodup :=
      (List.nodup_append.mp (hs.nodup ev.filePriv)).1
    have hcount := List.nodup_iff_count_le_one.mp hnodup e
    rwa [EventState.waitingFor, List.count_filter hmine] at hcount
  · rw [List.count_eq_zero_of_not_mem he]
    exact Nat.zero_le 1

theorem waitsComplete_congr (hreq : s'.request? e = s.request? e)
    (hpending : (s'.events e).map PendingSyncEvent.writeOpsPending =
      (s.events e).map PendingSyncEvent.writeOpsPending)
    (hsync : s'.syncData = s.syncData) : s'.waitsComplete e = s.waitsComplete e := by
  unfold EventState.waitsComplete
  unfold EventState.request? at hreq
  rw [hsync]
  cases hold : s.events e with
  | none =>
    rw [hold] at hreq
    cases hnew : s'.events e with
    | none => rfl
    | some ev =>
      rw [hnew] at hreq
      cases hreq
  | some old =>
    rw [hold] at hreq hpending
    cases hnew : s'.events e with
    | none =>
      rw [hnew] at hreq
      cases hreq
    | some ev =>
      rw [hnew] at hreq hpending
      have hy : ev.syncInfo = old.syncInfo :=
        congrArg Request.syncInfo (Option.some.inj hreq)
      have hp : ev.writeOpsPending = old.writeOpsPending := Option.some.inj hpending
      rw [Option.any_some, Option.any_some, hy, hp]

/-- What signals may have done: events went from the list of the driver to the queues of their
    files. -/
structure Signalled (s s' : EventState) : Prop where
  reads : s'.reads = s.reads
  syncData : s'.syncData = s.syncData
  requests : ∀ e, s'.request? e = s.request? e
  pending : ∀ e, (s'.events e).map PendingSyncEvent.writeOpsPending =
    (s.events e).map PendingSyncEvent.writeOpsPending
  list : s'.syncWaitList ⊆ s.syncWaitList
  queued : ∀ f, ∀ d ∈ s'.queue f, d ∈ s.queue f ∨ d ∈ s.syncWaitList ∧ s.waitsComplete d = true

theorem Signalled.refl (s : EventState) : Signalled s s where
  reads := rfl
  syncData := rfl
  requests := fun _ => rfl
  pending := fun _ => rfl
  list := fun _ he => he
  queued := fun _ _ hd => .inl hd

theorem Signalled.complete (h : Signalled s s') (e : ℕ) : s'.waitsComplete e = s.waitsComplete e :=
  waitsComplete_congr (h.requests e) (h.pending e) h.syncData

theorem Signalled.trans (h : Signalled s s') (h' : Signalled s' t) : Signalled s t where
  reads := h'.reads.trans h.reads
  syncData := h'.syncData.trans h.syncData
  requests := fun e => (h'.requests e).trans (h.requests e)
  pending := fun e => (h'.pending e).trans (h.pending e)
  list := fun e he => h.list (h'.list he)
  queued := by
    intro f d hd
    cases h'.queued f d hd with
    | inl hd => exact h.queued f d hd
    | inr hd =>
      rw [h.complete] at hd
      exact .inr ⟨h.list hd.1, hd.2⟩

theorem Flow.signalled (hs : Flow s g) (he : e ∈ s.syncWaitList)
    (hdone : s.waitsComplete e = true) (now : ℕ × ℕ) :
    ∃ s', pvrSignalSyncEvent s e now = some s' ∧ Flow s' g ∧ Signalled s s' ∧
      s'.syncWaitList = s.syncWaitList.erase e := by
  obtain ⟨s', hstep, hflow, hlist, hsync, hreads, -, hreq, hpending, hqueue⟩ := hs.signal he now
  refine ⟨s', hstep, hflow, ⟨hreads, hsync, hreq, hpending, ?_, ?_⟩, hlist⟩
  · intro d hd
    rw [hlist] at hd
    exact List.mem_of_mem_erase hd
  · intro f d hd
    cases hqueue f with
    | inl hsame => exact .inl (hsame ▸ hd)
    | inr hlonger =>
      rw [hlonger] at hd
      cases List.mem_append.mp hd with
      | inl hd => exact .inl hd
      | inr hd =>
        rw [List.mem_singleton.mp hd]
        exact .inr ⟨he, hdone⟩

/-- The loop signals what is complete and leaves nothing complete behind. -/
theorem Flow.signalEach {l : List ℕ} (hl : l.Nodup) (hs : Flow s g) (hsub : l ⊆ s.syncWaitList)
    (now : ℕ × ℕ) :
    ∃ s', l.foldlM (handleSyncEvent now) s = some s' ∧ Flow s' g ∧ Signalled s s' ∧
      ∀ e ∈ l, e ∈ s'.syncWaitList → s.waitsComplete e = false := by
  induction l generalizing s with
  | nil =>
    refine ⟨s, rfl, hs, .refl s, ?_⟩
    intro e he
    cases he
  | cons d l ih =>
    obtain ⟨hd, hl⟩ := List.nodup_cons.mp hl
    have hdin : d ∈ s.syncWaitList := hsub List.mem_cons_self
    obtain ⟨ev, hev⟩ := Option.isSome_iff_exists.mp (hs.waiting d hdin)
    have hdone : s.waitsComplete d = isRenderComplete (s.syncData ev.syncInfo)
        ev.writeOpsPending := by
      rw [EventState.waitsComplete, hev, Option.any_some]
    by_cases hcomplete : s.waitsComplete d = true
    · obtain ⟨u, hu, hflow, hsignal, hlist⟩ := hs.signalled hdin hcomplete now
      have hbody : handleSyncEvent now s d = some u := by
        rw [hdone] at hcomplete
        simp [handleSyncEvent, hev, hcomplete, hu]
      have hsub' : l ⊆ u.syncWaitList := fun e he => by
        have hne : e ≠ d := fun hed => hd (hed ▸ he)
        rw [hlist]
        exact (List.mem_erase_of_ne hne).mpr (hsub (List.mem_cons_of_mem d he))
      obtain ⟨s', hs', hflow', hsignal', hleft⟩ := ih hl hflow hsub'
      refine ⟨s', ?_, hflow', hsignal.trans hsignal', ?_⟩
      · rw [List.foldlM_cons, hbody]
        exact hs'
      · intro e he hmem
        cases List.mem_cons.mp he with
        | inl hed =>
          have hgone : e ∈ s.syncWaitList.erase d := by
            rw [← hlist]
            exact hsignal'.list hmem
          rw [hed] at hgone
          exact absurd hgone hs.nodup_waiting.not_mem_erase
        | inr he =>
          rw [← hsignal.complete]
          exact hleft e he hmem
    · have hbody : handleSyncEvent now s d = some s := by
        rw [hdone] at hcomplete
        simp [handleSyncEvent, hev, hcomplete]
      obtain ⟨s', hs', hflow', hsignal', hleft⟩ :=
        ih hl hs fun e he => hsub (List.mem_cons_of_mem d he)
      refine ⟨s', ?_, hflow', hsignal', ?_⟩
      · rw [List.foldlM_cons, hbody]
        exact hs'
      · intro e he hmem
        cases List.mem_cons.mp he with
        | inl hed =>
          rw [hed]
          simpa using hcomplete
        | inr he => exact hleft e he hmem

theorem Flow.handle (hs : Flow s g) (now : ℕ × ℕ) :
    ∃ s', pvrHandleSyncEvents s now = some s' ∧ Flow s' g ∧ Signalled s s' ∧
      ∀ e ∈ s'.syncWaitList, s'.waitsComplete e = false := by
  obtain ⟨s', hs', hflow, hsignal, hleft⟩ :=
    hs.signalEach hs.nodup_waiting (fun e he => he) now
  refine ⟨s', hs', hflow, hsignal, ?_⟩
  intro e he
  rw [hsignal.complete]
  exact hleft e (hsignal.list he) he

/-- Memory that is handed out is not in use, files are used while they are open, a thread reads
    one file at a time and goes on only when there is an event or a signal, and a file is released
    when nobody reads it. -/
def proper (s : EventState) : EventOp → Bool
  | .openFile f => (s.files f).isNone
  | .setSyncData _ _ => true
  | .request f _ _ mem _ => (s.files f).isSome && mem.all fun e => (s.events e).isNone
  | .handle _ => true
  | .readStart thread f _ interrupted =>
    (s.files f).isSome && (s.read? thread).isNone && (interrupted || !(s.queue f).isEmpty)
  | .readDequeue thread => (s.read? thread).any fun rd => rd.event.isNone
  | .readCopy thread _ => (s.read? thread).any fun rd => rd.event.isSome
  | .release f => (s.files f).isSome && s.reads.all fun rd => rd.file ≠ f

def delivers : EventOp → Bool
  | .readCopy _ copied => copied
  | _ => true

def record (g : Ledger) : EventOp × EventReply → Ledger
  | (.request f y userData _ _, .requested (.ok ())) =>
    { g with accepted := ⟨f, y, userData⟩ :: g.accepted }
  | (.readCopy _ _, .copied (.ok ev)) => { g with delivered := ev.request :: g.delivered }
  | (.release f, _) => g.drop f
  | _ => g

/-- What a call does to the events that wait: new ones join, the complete ones go to the queues,
    and after `pvr_handle_sync_events` no complete one is left. -/
structure Moves (s : EventState) (op : EventOp) (s' : EventState) : Prop where
  entered : ∀ e ∈ s'.syncWaitList, e ∈ s.syncWaitList ∨ s.events e = none
  queued : ∀ f, ∀ e ∈ s'.queue f, e ∈ s.queue f ∨
    (e ∈ s.waitingFor f ∨ s.events e = none) ∧ s'.waitsComplete e = true
  waited : ∀ f, (s'.files f).isSome = true → ∀ e ∈ s.waitingFor f,
    e ∈ s'.waitingFor f ∨ e ∈ s'.queue f
  handled : ∀ now, op = .handle now → ∀ e ∈ s'.syncWaitList, s'.waitsComplete e = false

theorem Moves.of_quiet (hlist : s'.syncWaitList ⊆ s.syncWaitList)
    (hqueue : ∀ f, s'.queue f ⊆ s.queue f)
    (hwait : ∀ f, (s'.files f).isSome = true → s.waitingFor f ⊆ s'.waitingFor f)
    (hop : ∀ now, op ≠ .handle now) : Moves s op s' where
  entered := fun _ he => .inl (hlist he)
  queued := fun f _ he => .inl (hqueue f he)
  waited := fun f hf _ he => .inl (hwait f hf he)
  handled := fun now h => absurd h (hop now)

theorem waitingFor_of_request (he : e ∈ s.syncWaitList)
    (hreq : s'.request? e = s.request? e) (hfile : s'.waitsFor f e = true) :
    e ∈ s.waitingFor f := by
  obtain ⟨ev, hev, hevf⟩ := waitsFor_iff.mp hfile
  rw [mem_waitingFor]
  refine ⟨he, ?_⟩
  unfold EventState.request? at hreq
  rw [hev] at hreq
  cases hold : s.events e with
  | none =>
    rw [hold] at hreq
    cases hreq
  | some old =>
    rw [hold] at hreq
    have hsame : ev.filePriv = old.filePriv := congrArg Request.file (Option.some.inj hreq)
    exact ⟨old, rfl, hsame.symm.trans hevf⟩

theorem Flow.queue_waitsFor (hs : Flow s g) (he : e ∈ s.queue f) : s.waitsFor f e = true :=
  waitsFor_iff.mpr ((hs.flight f e).mp (List.mem_append_right _ (List.mem_append_left _ he)))

theorem Signalled.waited (h : Signalled s s') (hs : Flow s g) (hs' : Flow s' g)
    (he : e ∈ s.waitingFor f) : e ∈ s'.waitingFor f ∨ e ∈ s'.queue f := by
  have hnodup := List.nodup_append.mp (hs.nodup f)
  have hnotHeld : e ∉ s'.held f := fun hheld => by
    unfold EventState.held at hheld
    rw [h.reads] at hheld
    exact hnodup.2.2 e he e (List.mem_append_right _ hheld) rfl
  obtain ⟨ev, hev, hfile⟩ := (mem_waitingFor.mp he).2
  have hreq := h.requests e
  unfold EventState.request? at hreq
  rw [hev] at hreq
  cases hnew : s'.events e with
  | none =>
    rw [hnew] at hreq
    cases hreq
  | some v =>
    rw [hnew] at hreq
    have hsame : v.filePriv = ev.filePriv := congrArg Request.file (Option.some.inj hreq)
    have hflight : e ∈ s'.inFlight f := (hs'.flight f e).mpr ⟨v, hnew, hsame.trans hfile⟩
    cases List.mem_append.mp hflight with
    | inl hw => exact .inl hw
    | inr hq =>
      cases List.mem_append.mp hq with
      | inl hq => exact .inr hq
      | inr hheld => exact absurd hheld hnotHeld

/-- A call is answered, keeps the flow and moves events as it should. -/
def Goes (s : EventState) (g : Ledger) (op : EventOp) : Prop :=
  ∃ r t, eventStep s op = some (r, t) ∧ Flow t (record g (op, r)) ∧ Moves s op t

theorem Flow.goes_openFile (hs : Flow s g) (hf : s.files f = none) : Goes s g (.openFile f) := by
  refine ⟨.done, pvrOpen s f, rfl, hs.openFile hf, ?_⟩
  apply Moves.of_quiet
  case hlist => exact fun e he => he
  case hqueue =>
    intro h e he
    by_cases hh : h = f
    · simp [EventState.queue, pvrOpen, EventState.setFile, hh] at he
    · simpa [EventState.queue, pvrOpen, EventState.setFile, hh] using he
  case hwait => exact fun h _ e he => he
  case hop =>
    intro now h
    cases h

theorem Flow.goes_setSyncData (hs : Flow s g) (y : ℕ) (data : SyncData) :
    Goes s g (.setSyncData y data) := by
  refine ⟨.done, _, rfl, ?_, ?_⟩
  · exact hs.placed { s with syncData := Function.update s.syncData y data } rfl (fun _ => rfl) rfl
      (fun _ => List.Perm.refl _) hs.reading hs.threads hs.space
  · apply Moves.of_quiet
    case hlist => exact fun e he => he
    case hqueue => exact fun h e he => he
    case hwait => exact fun h _ e he => he
    case hop =>
      intro now h
      cases h

theorem Flow.goes_handle (hs : Flow s g) (now : ℕ × ℕ) : Goes s g (.handle now) := by
  obtain ⟨t, ht, hflow, hsignal, hleft⟩ := hs.handle now
  refine ⟨.done, t, by simp [eventStep, ht], hflow, ?_⟩
  constructor
  case entered => exact fun e he => .inl (hsignal.list he)
  case queued =>
    intro f e he
    refine (hsignal.queued f e he).imp_right fun hwait => ?_
    rw [hsignal.complete]
    exact ⟨.inl (waitingFor_of_request hwait.1 (hsignal.requests e) (hflow.queue_waitsFor he)),
      hwait.2⟩
  case waited => exact fun f _ e he => hsignal.waited hs hflow he
  case handled => exact fun _ _ => hleft

theorem Flow.goes_request (hs : Flow s g) (hf : (s.files f).isSome = true) {mem : Option ℕ}
    (hmem : ∀ e, mem = some e → s.events e = none) (y userData : ℕ) (now : ℕ × ℕ) :
    Goes s g (.request f y userData mem now) := by
  obtain ⟨priv, hpriv⟩ := Option.isSome_iff_exists.mp hf
  have hstay : Moves s (.request f y userData mem now) s := by
    apply Moves.of_quiet
    case hlist => exact fun e he => he
    case hqueue => exact fun h e he => he
    case hwait => exact fun h _ e he => he
    case hop =>
      intro now h
      cases h
  cases hm : mem with
  | none => exact ⟨.requested (.error .enomem), s, rfl, hs, hm ▸ hstay⟩
  | some e =>
    have he := hmem e hm
    by_cases hroom : priv.eventSpace < sizeofEventSync
    · refine ⟨.requested (.error .enomem), s, ?_, hs, hm ▸ hstay⟩
      simp [eventStep, pvrSyncEventReq, hpriv, hroom]
    · let pending := (s.syncData y).writeOpsPending
      let u : EventState := { s with
        events := Function.update s.events e (some ⟨sizeofEventSync, y, userData, 0, 0, f, pending⟩)
        files := Function.update s.files f
          (some { priv with eventSpace := priv.eventSpace - sizeofEventSync })
        syncWaitList := s.syncWaitList ++ [e] }
      have hflow : Flow u { g with accepted := ⟨f, y, userData⟩ :: g.accepted } :=
        hs.accept he hpriv (Nat.le_of_not_lt hroom)
      have hnew : u.events e = some ⟨sizeofEventSync, y, userData, 0, 0, f, pending⟩ :=
        Function.update_self ..
      have hdone : u.waitsComplete e = isRenderComplete (s.syncData y) pending := by
        rw [EventState.waitsComplete, hnew, Option.any_some]
      have hother (d : ℕ) (hd : d ≠ e) : u.events d = s.events d := Function.update_of_ne hd ..
      have hqueue (h : ℕ) : u.queue h = s.queue h := by
        by_cases hh : h = f
        · simp [EventState.queue, u, hh, hpriv]
        · simp [EventState.queue, u, hh]
      have hlist (d : ℕ) (hd : d ∈ u.syncWaitList) : d ∈ s.syncWaitList ∨ s.events d = none := by
        cases List.mem_append.mp hd with
        | inl hd => exact .inl hd
        | inr hd => exact .inr (List.mem_singleton.mp hd ▸ he)
      have hwait (h d : ℕ) (hd : d ∈ s.waitingFor h) : d ∈ u.waitingFor h := by
        obtain ⟨hdin, ev, hev, hfile⟩ := mem_waitingFor.mp hd
        have hde : d ≠ e := fun hde => by
          rw [hde, he] at hev
          cases hev
        exact mem_waitingFor.mpr ⟨List.mem_append_left _ hdin, ev, (hother d hde).trans hev, hfile⟩
      obtain ⟨t, ht, hflow', hsignal⟩ : ∃ t,
          (if isRenderComplete (s.syncData y) pending then pvrSignalSyncEvent u e now
            else some u) = some t ∧
          Flow t { g with accepted := ⟨f, y, userData⟩ :: g.accepted } ∧ Signalled u t := by
        by_cases hc : isRenderComplete (s.syncData y) pending = true
        · obtain ⟨t, ht, hflow', hsignal, -⟩ := hflow.signalled
            (List.mem_append_right _ (List.mem_singleton_self e)) (hdone.trans hc) now
          exact ⟨t, by rw [if_pos hc, ht], hflow', hsignal⟩
        · exact ⟨u, by rw [if_neg hc], hflow, .refl u⟩
      refine ⟨.requested (.ok ()), t, ?_, hflow', ?_⟩
      · have hreq : pvrSyncEventReq s f y userData (some e) now = some (.ok (), t) := by
          unfold pvrSyncEventReq
          dsimp only
          rw [hpriv, Option.bind_eq_bind, Option.bind_some, if_neg hroom]
          change ((if isRenderComplete (s.syncData y) pending then pvrSignalSyncEvent u e now
            else some u).bind _) = _
          rw [ht]
          rfl
        simp [eventStep, hreq]
      · constructor
        case entered => exact fun d hd => hlist d (hsignal.list hd)
        case queued =>
          intro h d hd
          cases hsignal.queued h d hd with
          | inl hd => exact .inl (hqueue h ▸ hd)
          | inr hd' =>
            rw [hsignal.complete]
            refine .inr ⟨?_, hd'.2⟩
            refine (hlist d hd'.1).imp_left fun hdin => ?_
            have hde : d ≠ e := fun hde => by
              obtain ⟨v, hv⟩ := Option.isSome_iff_exists.mp (hs.waiting d hdin)
              rw [hde, he] at hv
              cases hv
            have hreq : t.request? d = s.request? d := by
              rw [hsignal.requests d, EventState.request?, hother d hde]
              rfl
            exact waitingFor_of_request hdin hreq (hflow'.queue_waitsFor hd)
        case waited => exact fun h _ d hd => hsignal.waited hflow hflow' (hwait h d hd)
        case handled =>
          intro _ h
          cases h

theorem read?_some {thread : ℕ} (h : s.read? thread = some rd) :
    rd ∈ s.reads ∧ rd.thread = thread :=
  ⟨List.mem_of_find?_eq_some h, by simpa using List.find?_some h⟩

theorem Flow.held_some (hs : Flow s g) (hrd : rd ∈ s.reads) (he : rd.event = some e) :
    e ∈ s.held rd.file ∧ ∃ ev, s.events e = some ev ∧ ev.filePriv = rd.file := by
  have hheld : e ∈ s.held rd.file :=
    List.mem_filterMap.mpr ⟨rd, hrd, by rw [heldFor, if_pos rfl, he]⟩
  exact ⟨hheld, (hs.flight rd.file e).mp (List.mem_append_right _ (List.mem_append_right _ hheld))⟩

/-- A step of a reader takes no event off the list of the driver. -/
theorem Moves.of_read (hlist : s'.syncWaitList = s.syncWaitList)
    (hwaits : ∀ f, ∀ e ∈ s.syncWaitList, s'.waitsFor f e = s.waitsFor f e)
    (hqueue : ∀ f, s'.queue f ⊆ s.queue f) (hop : ∀ now, op ≠ .handle now) : Moves s op s' := by
  apply Moves.of_quiet
  case hlist => exact fun e he => hlist ▸ he
  case hqueue => exact hqueue
  case hwait =>
    intro f _ e he
    unfold EventState.waitingFor
    rw [hlist, List.filter_congr (hwaits f)]
    exact he
  case hop => exact hop

theorem Flow.goes_readStart (hs : Flow s g) (hf : (s.files f).isSome = true) {thread : ℕ}
    (hnew : s.read? thread = none) (count : ℕ) (interrupted : Bool) :
    Goes s g (.readStart thread f count interrupted) := by
  cases interrupted with
  | true =>
    exact ⟨.started (.error .erestartsys), s, rfl, hs,
      Moves.of_read rfl (fun _ _ _ => rfl) (fun _ _ he => he) fun _ h => by cases h⟩
  | false =>
    exact ⟨.started (.ok ()), _, rfl, hs.startRead hf hnew,
      Moves.of_read rfl (fun _ _ _ => rfl) (fun _ _ he => he) fun _ h => by cases h⟩

theorem Flow.goes_readDequeue (hs : Flow s g) {thread : ℕ} (hread : s.read? thread = some rd)
    (hnone : rd.event = none) : Goes s g (.readDequeue thread) := by
  obtain ⟨hrd, hthread⟩ := read?_some hread
  obtain ⟨priv, hpriv⟩ := Option.isSome_iff_exists.mp (hs.reading rd hrd)
  have hend (hdeq : pvrDequeueEvent s rd.file rd.total rd.count = some (none, s)) :
      Goes s g (.readDequeue thread) := by
    refine ⟨.returned (some rd.total), s.endRead thread, ?_, ?_, ?_⟩
    · simp [eventStep, pvrReadDequeue, hread, hdeq]
    · rw [← hthread]
      exact hs.endRead hrd hnone
    · exact Moves.of_read rfl (fun _ _ _ => rfl) (fun _ _ he => he) fun _ h => by cases h
  cases hlist : priv.eventList with
  | nil => exact hend (by simp [pvrDequeueEvent, hpriv, hlist])
  | cons e rest =>
    have hqueue : e ∈ s.queue rd.file := by simp [EventState.queue, hpriv, hlist]
    obtain ⟨ev, hev, -⟩ := waitsFor_iff.mp (hs.queue_waitsFor hqueue)
    have hlen : ev.length = sizeofEventSync := (hs.owned e ev hev).2
    by_cases hfit : ev.length + rd.total > rd.count
    · exact hend (by simp [pvrDequeueEvent, hpriv, hlist, hev, hfit])
    · refine ⟨.returned none, (s.setFile rd.file ⟨rest, priv.eventSpace + sizeofEventSync⟩).setRead
        { rd with event := some e }, ?_, hs.dequeue hrd hnone hpriv hlist, ?_⟩
      · simp [eventStep, pvrReadDequeue, hread, pvrDequeueEvent, hpriv, hlist, hev, hlen ▸ hfit,
          hlen]
      · apply Moves.of_read
        case hlist => rfl
        case hwaits => exact fun h d _ => rfl
        case hqueue =>
          intro h d hd
          by_cases hh : h = rd.file
          · have hafter : d ∈ rest := by
              simpa [EventState.queue, EventState.setFile, EventState.setRead, hh] using hd
            simp [EventState.queue, hh, hpriv, hlist, hafter]
          · simpa [EventState.queue, EventState.setFile, EventState.setRead, hh] using hd
        case hop =>
          intro now h
          cases h

theorem Flow.goes_readCopy (hs : Flow s g) {thread : ℕ} (hread : s.read? thread = some rd)
    (he : rd.event = some e) : Goes s g (.readCopy thread true) := by
  obtain ⟨hrd, -⟩ := read?_some hread
  obtain ⟨hheld, ev, hev, hfile⟩ := hs.held_some hrd he
  refine ⟨.copied (.ok ev), _, ?_, hs.copied hrd he hev (rd.total + ev.length), ?_⟩
  · simp [eventStep, pvrReadCopy, hread, he, hev, EventState.kfree]
  · apply Moves.of_read
    case hlist => rfl
    case hwaits =>
      intro h d hd
      have hde : d ≠ e := fun hde => by
        rw [hde] at hd
        have hwait : e ∈ s.waitingFor rd.file := mem_waitingFor.mpr ⟨hd, ev, hev, hfile⟩
        exact (List.nodup_append.mp (hs.nodup rd.file)).2.2 e hwait e
          (List.mem_append_right _ hheld) rfl
      have hsame : (Function.update s.events e none) d = s.events d :=
        Function.update_of_ne hde ..
      change ((Function.update s.events e none) d).any _ = _
      rw [hsame]
      rfl
    case hqueue => exact fun h d hd => hd
    case hop =>
      intro now h
      cases h

theorem Flow.goes_release (hs : Flow s g) (hf : (s.files f).isSome = true)
    (hreads : ∀ rd ∈ s.reads, rd.file ≠ f) : Goes s g (.release f) := by
  obtain ⟨t, ht, hflow, hfiles, hlist, hwaiting⟩ := hs.release hf hreads
  refine ⟨.done, t, by simp [eventStep, ht], hflow, ?_⟩
  apply Moves.of_quiet hlist
  case hqueue =>
    intro h e he
    unfold EventState.queue at he
    rw [hfiles] at he
    by_cases hh : h = f
    · simp [hh] at he
    · rw [Function.update_of_ne hh] at he
      exact he
  case hwait =>
    intro h hopen e he
    have hh : h ≠ f := fun hh => by
      rw [hh, hfiles, Function.update_self] at hopen
      cases hopen
    rw [hwaiting h hh]
    exact he
  case hop =>
    intro now h
    cases h

theorem Flow.goes (hs : Flow s g) (hop : proper s op = true) (hdeliver : delivers op = true) :
    Goes s g op := by
  cases op with
  | openFile f => exact hs.goes_openFile (Option.isNone_iff_eq_none.mp hop)
  | setSyncData y data => exact hs.goes_setSyncData y data
  | request f y userData mem now =>
    obtain ⟨hf, hmem⟩ := (Bool.and_eq_true ..).mp hop
    refine hs.goes_request hf ?_ y userData now
    intro e he
    rw [he] at hmem
    exact Option.isNone_iff_eq_none.mp hmem
  | handle now => exact hs.goes_handle now
  | readStart thread f count interrupted =>
    obtain ⟨hopen, -⟩ := (Bool.and_eq_true ..).mp hop
    obtain ⟨hf, hnew⟩ := (Bool.and_eq_true ..).mp hopen
    exact hs.goes_readStart hf (Option.isNone_iff_eq_none.mp hnew) count interrupted
  | readDequeue thread =>
    obtain ⟨rd, hread, hnone⟩ := (Option.any_eq_true ..).mp hop
    exact hs.goes_readDequeue hread (Option.isNone_iff_eq_none.mp hnone)
  | readCopy thread copied =>
    obtain ⟨rd, hread, hsome⟩ := (Option.any_eq_true ..).mp hop
    obtain ⟨e, he⟩ := Option.isSome_iff_exists.mp hsome
    change copied = true at hdeliver
    rw [hdeliver]
    exact hs.goes_readCopy hread he
  | release f =>
    obtain ⟨hf, hreads⟩ := (Bool.and_eq_true ..).mp hop
    exact hs.goes_release hf fun rd hrd => by simpa using List.all_eq_true.mp hreads rd hrd

def EventState.lengths (s : EventState) (l : List ℕ) : ℕ :=
  l.foldr (fun e n => ((s.events e).map PendingSyncEvent.length).getD 0 + n) 0

/-- Space and events are accounted for: what is not free is taken by the events that wait and that
    are queued, an event in memory is in one place, and the requests of a file that were accepted
    are those of its events together with those that were delivered. -/
structure Accounted (s : EventState) (g : Ledger) : Prop where
  space : ∀ f priv, s.files f = some priv →
    priv.eventSpace + s.lengths (s.waitingFor f ++ priv.eventList) = eventSpaceMax
  kept : ∀ e ev, s.events e = some ev → e ∈ s.inFlight ev.filePriv
  once : ∀ f, (s.inFlight f).Nodup
  conserved : ∀ f, (ofFile f g.accepted).Perm
    ((s.inFlight f).filterMap s.request? ++ ofFile f g.delivered)

theorem Flow.lengths (hs : Flow s g) {l : List ℕ} (hl : ∀ e ∈ l, (s.events e).isSome = true) :
    s.lengths l = sizeofEventSync * l.length := by
  induction l with
  | nil => rfl
  | cons e l ih =>
    have hrest := ih fun d hd => hl d (List.mem_cons_of_mem e hd)
    obtain ⟨ev, hev⟩ := Option.isSome_iff_exists.mp (hl e List.mem_cons_self)
    have hlen := (hs.owned e ev hev).2
    unfold EventState.lengths at hrest ⊢
    rw [List.foldr_cons, hrest, hev, List.length_cons, Nat.mul_succ, Nat.add_comm]
    exact congrArg _ hlen

theorem Flow.accounted (hs : Flow s g) : Accounted s g where
  space := by
    intro f priv hf
    have halive (e : ℕ) (he : e ∈ s.waitingFor f ++ priv.eventList) :
        (s.events e).isSome = true := by
      have hflight : e ∈ s.inFlight f := by
        cases List.mem_append.mp he with
        | inl hw => exact List.mem_append_left _ hw
        | inr hq =>
          refine List.mem_append_right _ (List.mem_append_left _ ?_)
          rw [EventState.queue, hf]
          exact hq
      obtain ⟨ev, hev, -⟩ := (hs.flight f e).mp hflight
      rw [hev]
      rfl
    rw [hs.lengths halive, List.length_append]
    exact hs.space f priv hf
  kept := fun e ev he => (hs.flight ev.filePriv e).mpr ⟨ev, he, rfl⟩
  once := hs.nodup
  conserved := hs.conserved

abbrev EventRun (l : List (EventOp × EventReply)) (s : EventState) : Prop :=
  Run eventStep (fun s op => proper s op = true) eventInit l s

theorem flow_of_run {l : List (EventOp × EventReply)} (h : EventRun l s)
    (hdeliver : ∀ x ∈ l, delivers x.1 = true) : Flow s (l.foldl record ⟨[], []⟩) := by
  induction h with
  | refl => exact flow_init
  | snoc run hop hstep ih =>
    rename_i l u t a r
    have hflow := ih fun x hx => hdeliver x (List.mem_append_left _ hx)
    have ha : delivers a = true :=
      hdeliver (a, r) (List.mem_append_right _ (List.mem_singleton_self _))
    obtain ⟨r', t', hgo, hflow', -⟩ := hflow.goes hop ha
    rw [hstep, Option.some.injEq, Prod.mk.injEq] at hgo
    rw [List.foldl_append, hgo.1, hgo.2]
    exact hflow'

theorem Flow.lost (hs : Flow s g) {thread : ℕ} {r : EventReply}
    (hop : proper s (.readCopy thread false) = true)
    (hstep : eventStep s (.readCopy thread false) = some (r, t)) :
    ∃ e ev, t.events e = some ev ∧ e ∉ t.inFlight ev.filePriv := by
  obtain ⟨rd, hread, hsome⟩ := (Option.any_eq_true ..).mp hop
  obtain ⟨e, he⟩ := Option.isSome_iff_exists.mp hsome
  obtain ⟨hrd, hthread⟩ := read?_some hread
  obtain ⟨hheld, ev, hev, hfile⟩ := hs.held_some hrd he
  have ht : t = s.endRead thread := by
    simp [eventStep, pvrReadCopy, hread, he, hev] at hstep
    exact hstep.2.symm
  rw [ht]
  refine ⟨e, ev, hev, fun hmem => ?_⟩
  have hhand : (heldFor rd.file rd).toList = [e] := by simp [heldFor, he]
  have hperm := held_perm hs.threads hrd rd.file
  rw [hhand, hthread] at hperm
  have hinFlight : (s.inFlight rd.file).Perm (e :: (s.endRead thread).inFlight rd.file) := by
    unfold EventState.inFlight
    refine (List.Perm.append_left _ (List.Perm.append_left _ hperm)).trans ?_
    exact (List.Perm.append_left _ List.perm_middle).trans List.perm_middle
  have hcons := hinFlight.nodup_iff.mp (hs.nodup rd.file)
  rw [hfile] at hmem
  exact (List.nodup_cons.mp hcons).1 hmem

/-- In a run every state accounts for the events and every call moves them as it should if and
    only if no copy to a reader fails. -/
theorem events_accounted_over_runs {l : List (EventOp × EventReply)} (h : EventRun l s) :
    ((∀ m, m <+: l → ∀ u, EventRun m u → Accounted u (m.foldl record ⟨[], []⟩)) ∧
      ∀ m a r, m ++ [(a, r)] <+: l → ∀ u t, EventRun m u → eventStep u a = some (r, t) →
        Moves u a t) ↔
      ∀ x ∈ l, delivers x.1 = true := by
  constructor
  · intro hall
    induction h with
    | refl =>
      intro x hx
      cases hx
    | snoc run hop hstep ih =>
      rename_i l u t a r
      have hbefore (m : List (EventOp × EventReply)) (hm : m <+: l) : m <+: l ++ [(a, r)] :=
        hm.trans (List.prefix_append ..)
      have hdeliver := ih ⟨fun m hm => hall.1 m (hbefore m hm),
        fun m b q hm => hall.2 m b q (hbefore _ hm)⟩
      intro x hx
      cases List.mem_append.mp hx with
      | inl hx => exact hdeliver x hx
      | inr hx =>
        rw [List.mem_singleton.mp hx]
        cases a with
        | readCopy thread copied =>
          cases copied with
          | true => rfl
          | false =>
            have hflow := flow_of_run run hdeliver
            obtain ⟨e, ev, hev, hnot⟩ := hflow.lost hop hstep
            have hend := hall.1 _ (List.prefix_refl _) t (.snoc run hop hstep)
            exact absurd (hend.kept e ev hev) hnot
        | _ => rfl
  · intro hdeliver
    refine ⟨?_, ?_⟩
    · intro m hm u hu
      exact (flow_of_run hu fun x hx => hdeliver x (hm.subset hx)).accounted
    · intro m a r hm u t hu hstep
      obtain ⟨v, hv⟩ := h.of_prefix hm
      obtain ⟨w, hw, hop, -⟩ := hv.last
      have hwu : w = u := hw.unique hu
      rw [hwu] at hop
      have hflow := flow_of_run hu fun x hx =>
        hdeliver x (hm.subset (List.mem_append_left _ hx))
      have ha : delivers a = true :=
        hdeliver (a, r) (hm.subset (List.mem_append_right _ (List.mem_singleton_self _)))
      obtain ⟨r', t', hgo, -, hmoves⟩ := hflow.goes hop ha
      rw [hstep, Option.some.injEq, Prod.mk.injEq] at hgo
      rw [hgo.2]
      exact hmoves

def sampleOps (copied : Bool) : List EventOp :=
  [.openFile 64, .setSyncData 128 ⟨1, 0⟩, .request 64 128 7 (some 256) (10, 0),
    .setSyncData 128 ⟨1, 1⟩, .handle (11, 5), .readStart 1 64 100 false, .readDequeue 1,
    .readCopy 1 copied]

theorem events_accounted_over_sample : ∃ l s, exec eventStep eventInit (sampleOps true) =
      some (l, s) ∧
    ((∀ m, m <+: l → ∀ u, EventRun m u → Accounted u (m.foldl record ⟨[], []⟩)) ∧
      ∀ m a r, m ++ [(a, r)] <+: l → ∀ u t, EventRun m u → eventStep u a = some (r, t) →
        Moves u a t) ∧
    s.events 256 = none ∧ s.files 64 = some ⟨[], 4096⟩ := by
  have hsome : (exec eventStep eventInit (sampleOps true)).map (fun r =>
      (r.2.events 256, r.2.files 64)) = some (none, some ⟨[], 4096⟩) := by decide +kernel
  obtain ⟨⟨l, s⟩, hexec, hlook⟩ := Option.map_eq_some_iff.mp hsome
  rw [Prod.mk.injEq] at hlook
  have hallowed : Allowed eventStep (fun s op => proper s op = true) eventInit
      (sampleOps true) := by decide +kernel
  have hrun : EventRun l s := .of_allowed hexec hallowed
  have hdeliver : ∀ x ∈ l, delivers x.1 = true := fun x hx => by
    have hall : ∀ a ∈ sampleOps true, delivers a = true := by decide
    rw [exec_zip hexec] at hx
    exact hall x.1 (List.of_mem_zip hx).1
  exact ⟨l, s, hexec, (events_accounted_over_runs hrun).mpr hdeliver, hlook⟩

/-- When the copy fails the event has left the queue and nobody gets it. -/
theorem event_lost_by_failed_copy :
    ¬∀ l s, EventRun l s → Accounted s (l.foldl record ⟨[], []⟩) := by
  intro hclaim
  have hsome : (exec eventStep eventInit (sampleOps false)).map (fun r =>
      (r.2.events 256, r.2.inFlight 64)) = some (some ⟨32, 128, 7, 11, 5, 64, 1⟩, []) := by
    decide +kernel
  obtain ⟨⟨l, s⟩, hexec, hlook⟩ := Option.map_eq_some_iff.mp hsome
  rw [Prod.mk.injEq] at hlook
  have hallowed : Allowed eventStep (fun s op => proper s op = true) eventInit
      (sampleOps false) := by decide +kernel
  have hplace := (hclaim l s (.of_allowed hexec hallowed)).kept 256 _ hlook.1
  rw [hlook.2] at hplace
  cases hplace

end PvrServices.Events
