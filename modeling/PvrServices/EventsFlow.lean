import Mathlib.Data.List.Basic
import PvrServices.EventsBase
import PvrServices.KeyedList

set_option autoImplicit false

/-!
# Events in flight

An event of a file is in flight while it waits, is queued or is in the hands of a reader. `Flow`
says that these are the events in memory, each in one place, and relates them to the requests that
were accepted and the events that were delivered.
-/
namespace PvrServices.Events
open KeyedList Words

structure Request where
  file : ℕ
  syncInfo : ℕ
  userData : ℕ
deriving DecidableEq, Repr

def PendingSyncEvent.request (ev : PendingSyncEvent) : Request :=
  ⟨ev.filePriv, ev.syncInfo, ev.userData⟩

/-- The requests accepted and the events delivered since the files were opened. -/
structure Ledger where
  accepted : List Request
  delivered : List Request

variable {s s' t : EventState} {g : Ledger} {f e h : ℕ} {ev : PendingSyncEvent} {rd : ReadCall}
  {priv : FilePrivateData}

def EventState.request? (s : EventState) (e : ℕ) : Option Request :=
  (s.events e).map PendingSyncEvent.request

def EventState.waitingFor (s : EventState) (f : ℕ) : List ℕ := s.syncWaitList.filter (s.waitsFor f)

def EventState.queue (s : EventState) (f : ℕ) : List ℕ :=
  ((s.files f).map FilePrivateData.eventList).getD []

def heldFor (f : ℕ) (rd : ReadCall) : Option ℕ := if rd.file = f then rd.event else none

def EventState.held (s : EventState) (f : ℕ) : List ℕ := s.reads.filterMap (heldFor f)

def EventState.inFlight (s : EventState) (f : ℕ) : List ℕ :=
  s.waitingFor f ++ (s.queue f ++ s.held f)

def ofFile (f : ℕ) (l : List Request) : List Request := l.filter fun q => q.file = f

structure Flow (s : EventState) (g : Ledger) : Prop where
  owned : ∀ e ev, s.events e = some ev →
    (s.files ev.filePriv).isSome = true ∧ ev.length = sizeofEventSync
  waiting : ∀ e ∈ s.syncWaitList, (s.events e).isSome = true
  flight : ∀ f e, e ∈ s.inFlight f ↔ ∃ ev, s.events e = some ev ∧ ev.filePriv = f
  nodup : ∀ f, (s.inFlight f).Nodup
  reading : ∀ rd ∈ s.reads, (s.files rd.file).isSome = true
  threads : (s.reads.map ReadCall.thread).Nodup
  space : ∀ f priv, s.files f = some priv → priv.eventSpace +
    sizeofEventSync * ((s.waitingFor f).length + priv.eventList.length) = eventSpaceMax
  conserved : ∀ f, (ofFile f g.accepted).Perm
    ((s.inFlight f).filterMap s.request? ++ ofFile f g.delivered)

theorem flow_init : Flow eventInit ⟨[], []⟩ where
  owned := by
    intro e ev he
    cases he
  waiting := by
    intro e he
    cases he
  flight := by
    intro f e
    constructor
    · intro he
      cases he
    · intro he
      obtain ⟨ev, hev, -⟩ := he
      cases hev
  nodup := fun f => List.nodup_nil
  reading := by
    intro rd hrd
    cases hrd
  threads := List.nodup_nil
  space := by
    intro f priv hf
    cases hf
  conserved := fun f => List.Perm.refl _

theorem inFlight_congr (hwait : s'.waitingFor f = s.waitingFor f)
    (hqueue : s'.queue f = s.queue f) (hheld : s'.held f = s.held f) :
    s'.inFlight f = s.inFlight f := by
  unfold EventState.inFlight
  rw [hwait, hqueue, hheld]

theorem waitsFor_iff : s.waitsFor f e = true ↔ ∃ ev, s.events e = some ev ∧ ev.filePriv = f := by
  unfold EventState.waitsFor
  cases s.events e <;> simp

theorem mem_waitingFor : e ∈ s.waitingFor f ↔
    e ∈ s.syncWaitList ∧ ∃ ev, s.events e = some ev ∧ ev.filePriv = f := by
  rw [EventState.waitingFor, List.mem_filter, waitsFor_iff]

theorem waitsFor_unique (hf : s.waitsFor f e = true) (hh : s.waitsFor h e = true) : f = h := by
  obtain ⟨ev, hev, hfile⟩ := waitsFor_iff.mp hf
  obtain ⟨v, hv, hvh⟩ := waitsFor_iff.mp hh
  rw [hev, Option.some.injEq] at hv
  rw [← hfile, hv, hvh]

theorem Flow.moved (hs : Flow s g) (hreq : ∀ e, s'.request? e = s.request? e)
    (hlen : ∀ e, (s'.events e).map PendingSyncEvent.length = (s.events e).map
      PendingSyncEvent.length)
    (hfiles : ∀ f, (s'.files f).isSome = (s.files f).isSome)
    (hwait : ∀ e ∈ s'.syncWaitList, (s.events e).isSome = true)
    (hflight : ∀ f, (s'.inFlight f).Perm (s.inFlight f))
    (hreading : ∀ rd ∈ s'.reads, (s.files rd.file).isSome = true)
    (hthreads : (s'.reads.map ReadCall.thread).Nodup)
    (hspace : ∀ f priv, s'.files f = some priv → priv.eventSpace +
      sizeofEventSync * ((s'.waitingFor f).length + priv.eventList.length) = eventSpaceMax) :
    Flow s' g := by
  have hback (e : ℕ) (ev : PendingSyncEvent) (he : s'.events e = some ev) : ∃ old,
      s.events e = some old ∧ old.request = ev.request ∧ old.length = ev.length := by
    have h₁ := hreq e
    have h₂ := hlen e
    rw [EventState.request?, EventState.request?, he] at h₁
    rw [he] at h₂
    cases hold : s.events e with
    | none =>
      rw [hold] at h₁
      cases h₁
    | some old =>
      rw [hold] at h₁ h₂
      exact ⟨old, rfl, (Option.some.inj h₁).symm, (Option.some.inj h₂).symm⟩
  have hthere (f e : ℕ) : (∃ ev, s'.events e = some ev ∧ ev.filePriv = f) ↔
      ∃ ev, s.events e = some ev ∧ ev.filePriv = f := by
    have hmap (u : EventState) : (∃ ev, u.events e = some ev ∧ ev.filePriv = f) ↔
        (u.request? e).map Request.file = some f := by
      unfold EventState.request?
      cases u.events e <;> simp [PendingSyncEvent.request]
    rw [hmap, hmap, hreq]
  constructor
  case owned =>
    intro e ev he
    obtain ⟨old, hold, hrequest, hlength⟩ := hback e ev he
    obtain ⟨hfile, hsize⟩ := hs.owned e old hold
    have hsame : ev.filePriv = old.filePriv := (congrArg Request.file hrequest).symm
    rw [hfiles, hsame, ← hlength]
    exact ⟨hfile, hsize⟩
  case waiting =>
    intro e he
    have hsome := hwait e he
    have hmap (u : EventState) : (u.request? e).isSome = (u.events e).isSome := Option.isSome_map
    rw [← hmap, hreq, hmap]
    exact hsome
  case flight =>
    intro f e
    rw [(hflight f).mem_iff, hs.flight f e, hthere]
  case nodup => exact fun f => (hflight f).nodup_iff.mpr (hs.nodup f)
  case reading =>
    intro rd hrd
    rw [hfiles]
    exact hreading rd hrd
  case threads => exact hthreads
  case space => exact hspace
  case conserved =>
    intro f
    refine (hs.conserved f).trans (List.Perm.append_right _ ?_)
    rw [List.filterMap_congr fun e _ => hreq e]
    exact ((hflight f).filterMap _).symm

/-- A signal moves one event from the list of the driver to the queue of its file. -/
theorem Flow.signal (hs : Flow s g) (he : e ∈ s.syncWaitList) (now : ℕ × ℕ) :
    ∃ s', pvrSignalSyncEvent s e now = some s' ∧ Flow s' g ∧
      s'.syncWaitList = s.syncWaitList.erase e ∧ s'.syncData = s.syncData ∧
      s'.reads = s.reads ∧ (∀ d, d ≠ e → s'.events d = s.events d) ∧
      (∀ d, s'.request? d = s.request? d) ∧
      (∀ d, (s'.events d).map PendingSyncEvent.writeOpsPending =
        (s.events d).map PendingSyncEvent.writeOpsPending) ∧
      ∀ f, s'.queue f = s.queue f ∨ s'.queue f = s.queue f ++ [e] := by
  obtain ⟨ev, hev⟩ := Option.isSome_iff_exists.mp (hs.waiting e he)
  obtain ⟨priv, hpriv⟩ := Option.isSome_iff_exists.mp (hs.owned e ev hev).1
  let s' : EventState := ⟨Function.update s.events e
      (some { ev with tvSec := now.1, tvUsec := now.2 }),
    Function.update s.files ev.filePriv (some { priv with eventList := priv.eventList ++ [e] }),
    s.syncData, s.syncWaitList.erase e, s.reads⟩
  have heq : pvrSignalSyncEvent s e now = some s' := by
    simp [pvrSignalSyncEvent, hev, hpriv, EventState.setEvent, EventState.setFile, s']
  have hother (d : ℕ) (hd : d ≠ e) : s'.events d = s.events d := Function.update_of_ne hd ..
  have hself : s'.events e = some { ev with tvSec := now.1, tvUsec := now.2 } :=
    Function.update_self ..
  have hreq (d : ℕ) : s'.request? d = s.request? d := by
    unfold EventState.request?
    by_cases hd : d = e
    · rw [hd, hself, hev]
      rfl
    · rw [hother d hd]
  have hwaits (f : ℕ) : s'.waitsFor f = s.waitsFor f := by
    funext d
    unfold EventState.waitsFor
    by_cases hd : d = e
    · rw [hd, hself, hev]
      rfl
    · rw [hother d hd]
  have hperm : s.syncWaitList.Perm (e :: s'.syncWaitList) := List.perm_cons_erase he
  have hmine : s.waitsFor ev.filePriv e = true := waitsFor_iff.mpr ⟨ev, hev, rfl⟩
  have hwaitMine : (s.waitingFor ev.filePriv).Perm (e :: s'.waitingFor ev.filePriv) := by
    unfold EventState.waitingFor
    rw [hwaits, ← List.filter_cons_of_pos hmine]
    exact hperm.filter _
  have hwaitOther (f : ℕ) (hf : f ≠ ev.filePriv) :
      (s'.waitingFor f).Perm (s.waitingFor f) := by
    have hnot : ¬s.waitsFor f e = true := fun hw => hf (waitsFor_unique hw hmine)
    unfold EventState.waitingFor
    rw [hwaits, ← List.filter_cons_of_neg hnot]
    exact (hperm.filter _).symm
  have hqueueMine : s'.queue ev.filePriv = s.queue ev.filePriv ++ [e] := by
    simp [EventState.queue, s', hpriv]
  have hqueueOther (f : ℕ) (hf : f ≠ ev.filePriv) : s'.queue f = s.queue f := by
    simp [EventState.queue, s', hf]
  have hflight (f : ℕ) : (s'.inFlight f).Perm (s.inFlight f) := by
    by_cases hf : f = ev.filePriv
    · rw [hf]
      unfold EventState.inFlight
      rw [hqueueMine]
      refine List.Perm.trans ?_ (hwaitMine.append_right _).symm
      rw [List.append_assoc]
      refine (List.Perm.append_left _ List.perm_middle).trans ?_
      exact List.perm_middle
    · unfold EventState.inFlight
      rw [hqueueOther f hf]
      exact (hwaitOther f hf).append_right _
  refine ⟨s', heq, hs.moved hreq ?_ ?_ ?_ hflight hs.reading hs.threads ?_, rfl, rfl, rfl, hother,
    hreq, ?_, ?_⟩
  · intro d
    by_cases hd : d = e
    · rw [hd, hself, hev]
      rfl
    · rw [hother d hd]
  · intro f
    by_cases hf : f = ev.filePriv
    · rw [hf, hpriv]
      simp [s']
    · simp [s', hf]
  · exact fun d hd => hs.waiting d (List.mem_of_mem_erase hd)
  · intro f p hp
    by_cases hf : f = ev.filePriv
    · have hpe : p = { priv with eventList := priv.eventList ++ [e] } := by
        rw [hf] at hp
        simpa [s'] using hp.symm
      have hspace := hs.space ev.filePriv priv hpriv
      have hlen := hwaitMine.length_eq
      rw [hf, hpe]
      dsimp only
      rw [List.length_append, List.length_singleton]
      rw [hlen, List.length_cons, Nat.succ_add_eq_add_succ] at hspace
      exact hspace
    · have hp' : s.files f = some p := by simpa [s', hf] using hp
      rw [(hwaitOther f hf).length_eq]
      exact hs.space f p hp'
  · intro d
    by_cases hd : d = e
    · rw [hd, hself, hev]
      rfl
    · rw [hother d hd]
  · intro f
    by_cases hf : f = ev.filePriv
    · exact .inr (hf ▸ hqueueMine)
    · exact .inl (hqueueOther f hf)

def EventState.waitsComplete (s : EventState) (e : ℕ) : Bool :=
  (s.events e).any fun ev => isRenderComplete (s.syncData ev.syncInfo) ev.writeOpsPending

theorem Flow.accept (hs : Flow s g) (he : s.events e = none) (hf : s.files f = some priv)
    (hroom : sizeofEventSync ≤ priv.eventSpace) {y userData pending : ℕ} :
    Flow { s with
      events := Function.update s.events e (some ⟨sizeofEventSync, y, userData, 0, 0, f, pending⟩)
      files := Function.update s.files f
        (some { priv with eventSpace := priv.eventSpace - sizeofEventSync })
      syncWaitList := s.syncWaitList ++ [e] }
      { g with accepted := ⟨f, y, userData⟩ :: g.accepted } := by
  let s' : EventState := { s with
    events := Function.update s.events e (some ⟨sizeofEventSync, y, userData, 0, 0, f, pending⟩)
    files := Function.update s.files f
      (some { priv with eventSpace := priv.eventSpace - sizeofEventSync })
    syncWaitList := s.syncWaitList ++ [e] }
  have hself : s'.events e = some ⟨sizeofEventSync, y, userData, 0, 0, f, pending⟩ :=
    Function.update_self ..
  have hother (d : ℕ) (hd : d ≠ e) : s'.events d = s.events d := Function.update_of_ne hd ..
  have hnew (h : ℕ) : e ∉ s.inFlight h := fun hmem => by
    obtain ⟨ev, hev, -⟩ := (hs.flight h e).mp hmem
    rw [he] at hev
    cases hev
  have hnotWait : e ∉ s.syncWaitList := fun hmem => by
    have hsome := hs.waiting e hmem
    rw [he] at hsome
    cases hsome
  have hwaits (h d : ℕ) (hd : d ∈ s.syncWaitList) : s'.waitsFor h d = s.waitsFor h d := by
    unfold EventState.waitsFor
    rw [hother d fun hde => hnotWait (hde ▸ hd)]
  have hwaiting (h : ℕ) : s'.waitingFor h = s.waitingFor h ++ if h = f then [e] else [] := by
    have hlast : [e].filter (s'.waitsFor h) = if h = f then [e] else [] := by
      by_cases hh : h = f
      · simp [EventState.waitsFor, hself, hh]
      · simp [EventState.waitsFor, hself, hh, Ne.symm hh]
    change (s.syncWaitList ++ [e]).filter (s'.waitsFor h) = _
    rw [List.filter_append, hlast, List.filter_congr (hwaits h)]
    rfl
  have hqueue (h : ℕ) : s'.queue h = s.queue h := by
    by_cases hh : h = f
    · simp [EventState.queue, s', hh, hf]
    · simp [EventState.queue, s', hh]
  have hflight (h : ℕ) : (s'.inFlight h).Perm ((if h = f then [e] else []) ++ s.inFlight h) := by
    unfold EventState.inFlight
    rw [hwaiting, hqueue, List.append_assoc]
    exact List.perm_append_comm_assoc ..
  have hreq (d : ℕ) (hd : d ≠ e) : s'.request? d = s.request? d := by
    rw [EventState.request?, hother d hd]
    rfl
  change Flow s' _
  constructor
  case owned =>
    intro d ev hd
    have hfiles : (s'.files ev.filePriv).isSome = (s.files ev.filePriv).isSome := by
      by_cases hh : ev.filePriv = f
      · simp [s', hh, hf]
      · simp [s', hh]
    rw [hfiles]
    by_cases hde : d = e
    · rw [hde, hself, Option.some.injEq] at hd
      rw [← hd]
      exact ⟨by rw [hf]; rfl, rfl⟩
    · rw [hother d hde] at hd
      exact hs.owned d ev hd
  case waiting =>
    intro d hd
    cases List.mem_append.mp hd with
    | inl hd =>
      rw [hother d fun hde => hnotWait (hde ▸ hd)]
      exact hs.waiting d hd
    | inr hd =>
      rw [List.mem_singleton.mp hd, hself]
      rfl
  case flight =>
    intro h d
    rw [(hflight h).mem_iff, List.mem_append, hs.flight h d]
    by_cases hde : d = e
    · rw [hde, hself, he]
      by_cases hh : h = f
      · simp [hh]
      · simp [hh, Ne.symm hh]
    · rw [hother d hde]
      by_cases hh : h = f
      · simp [hh, hde]
      · simp [hh]
  case nodup =>
    intro h
    rw [(hflight h).nodup_iff]
    by_cases hh : h = f
    · rw [if_pos hh]
      exact List.nodup_cons.mpr ⟨hnew h, hs.nodup h⟩
    · rw [if_neg hh]
      exact hs.nodup h
  case reading =>
    intro rd hrd
    have hsome := hs.reading rd hrd
    by_cases hh : rd.file = f
    · simp [s', hh]
    · simpa [s', hh] using hsome
  case threads => exact hs.threads
  case space =>
    intro h p hp
    rw [hwaiting]
    by_cases hh : h = f
    · have hpe : p = { priv with eventSpace := priv.eventSpace - sizeofEventSync } := by
        rw [hh] at hp
        simpa [s'] using hp.symm
      have hspace := hs.space f priv hf
      rw [if_pos hh, hh, hpe, List.length_append, List.length_singleton]
      dsimp only
      rw [Nat.add_right_comm, Nat.mul_add, Nat.mul_one]
      omega
    · have hp' : s.files h = some p := by simpa [s', hh] using hp
      rw [if_neg hh, List.append_nil]
      exact hs.space h p hp'
  case conserved =>
    intro h
    have hmap : (s.inFlight h).filterMap s'.request? = (s.inFlight h).filterMap s.request? :=
      List.filterMap_congr fun d hd => hreq d fun hde => hnew h (hde ▸ hd)
    have hflight' := (hflight h).filterMap s'.request?
    rw [List.filterMap_append, hmap] at hflight'
    by_cases hh : h = f
    · have hask : s'.request? e = some ⟨f, y, userData⟩ := by
        rw [EventState.request?, hself]
        rfl
      rw [if_pos hh, List.filterMap_cons_some hask, List.filterMap_nil] at hflight'
      have hmine : ofFile h (⟨f, y, userData⟩ :: g.accepted) =
          ⟨f, y, userData⟩ :: ofFile h g.accepted :=
        List.filter_cons_of_pos (by simpa using hh.symm)
      dsimp only
      rw [hmine]
      exact ((hs.conserved h).cons _).trans (hflight'.symm.append_right _)
    · have hnot : ofFile h (⟨f, y, userData⟩ :: g.accepted) = ofFile h g.accepted :=
        List.filter_cons_of_neg (by simpa using Ne.symm hh)
      rw [if_neg hh, List.filterMap_nil, List.nil_append] at hflight'
      dsimp only
      rw [hnot]
      exact (hs.conserved h).trans (hflight'.symm.append_right _)

theorem reads_perm (hthreads : (s.reads.map ReadCall.thread).Nodup) (hrd : rd ∈ s.reads) :
    s.reads.Perm (rd :: s.reads.filter fun r => r.thread ≠ rd.thread) :=
  perm_cons_dropKey hthreads hrd

theorem held_perm (hthreads : (s.reads.map ReadCall.thread).Nodup) (hrd : rd ∈ s.reads) (f : ℕ) :
    (s.held f).Perm ((heldFor f rd).toList ++ (s.endRead rd.thread).held f) := by
  have hperm := (reads_perm hthreads hrd).filterMap (heldFor f)
  cases hh : heldFor f rd with
  | none =>
    rw [List.filterMap_cons_none hh] at hperm
    exact hperm
  | some e =>
    rw [List.filterMap_cons_some hh] at hperm
    exact hperm

theorem held_setRead (rd : ReadCall) (f : ℕ) :
    (s.setRead rd).held f = (heldFor f rd).toList ++ (s.endRead rd.thread).held f := by
  cases hh : heldFor f rd <;> simp [EventState.held, EventState.setRead, EventState.endRead, hh]

theorem setRead_threads (hthreads : (s.reads.map ReadCall.thread).Nodup) (rd : ReadCall) :
    ((s.setRead rd).reads.map ReadCall.thread).Nodup := by
  rw [EventState.setRead, List.map_cons, List.nodup_cons]
  refine ⟨fun hmem => ?_, hthreads.sublist (List.filter_sublist.map _)⟩
  obtain ⟨r, hr, hrt⟩ := List.mem_map.mp hmem
  have hne := (List.mem_filter.mp hr).2
  simp [hrt] at hne

theorem Flow.placed (hs : Flow s g) (s' : EventState) (hevents : s'.events = s.events)
    (hfiles : ∀ f, (s'.files f).isSome = (s.files f).isSome)
    (hlist : s'.syncWaitList = s.syncWaitList)
    (hflight : ∀ f, (s.queue f ++ s.held f).Perm (s'.queue f ++ s'.held f))
    (hreading : ∀ rd ∈ s'.reads, (s.files rd.file).isSome = true)
    (hthreads : (s'.reads.map ReadCall.thread).Nodup)
    (hspace : ∀ f priv, s'.files f = some priv → priv.eventSpace +
      sizeofEventSync * ((s.waitingFor f).length + priv.eventList.length) = eventSpaceMax) :
    Flow s' g := by
  have hwaiting (f : ℕ) : s'.waitingFor f = s.waitingFor f := by
    have hwaits : s'.waitsFor f = s.waitsFor f := by
      funext d
      rw [EventState.waitsFor, hevents]
      rfl
    rw [EventState.waitingFor, hlist, hwaits]
    rfl
  apply hs.moved
  case hreq =>
    intro e
    rw [EventState.request?, hevents]
    rfl
  case hlen =>
    intro e
    rw [hevents]
  case hfiles => exact hfiles
  case hwait =>
    rw [hlist]
    exact hs.waiting
  case hflight =>
    intro f
    unfold EventState.inFlight
    rw [hwaiting]
    exact List.Perm.append_left _ (hflight f).symm
  case hreading => exact hreading
  case hthreads => exact hthreads
  case hspace =>
    intro f priv hf
    rw [hwaiting]
    exact hspace f priv hf

theorem Flow.startRead (hs : Flow s g) (hf : (s.files f).isSome = true) {thread count : ℕ}
    (hnew : s.read? thread = none) : Flow (s.setRead ⟨thread, f, count, 0, none⟩) g := by
  apply hs.placed (s.setRead ⟨thread, f, count, 0, none⟩) rfl (fun _ => rfl) rfl
  case hflight =>
    intro h
    have hheld : (s.setRead ⟨thread, f, count, 0, none⟩).held h = s.held h := by
      have hsame : s.reads.filter (fun r => r.thread ≠ thread) = s.reads :=
        List.filter_eq_self.mpr fun r hr => by
          have hne := List.find?_eq_none.mp hnew r hr
          simpa using hne
      rw [held_setRead, EventState.endRead, EventState.held, hsame]
      simp [heldFor, EventState.held]
    rw [hheld]
    exact List.Perm.refl _
  case hreading =>
    intro rd hrd
    cases List.mem_cons.mp hrd with
    | inl hrd =>
      rw [hrd]
      exact hf
    | inr hrd => exact hs.reading rd (List.mem_of_mem_filter hrd)
  case hthreads => exact setRead_threads hs.threads _
  case hspace => exact hs.space

theorem Flow.endRead (hs : Flow s g) (hrd : rd ∈ s.reads) (hnone : rd.event = none) :
    Flow (s.endRead rd.thread) g := by
  apply hs.placed (s.endRead rd.thread) rfl (fun _ => rfl) rfl
  case hflight =>
    intro h
    have hheld := held_perm hs.threads hrd h
    have hempty : heldFor h rd = none := by simp [heldFor, hnone]
    rw [hempty] at hheld
    exact List.Perm.append_left _ hheld
  case hreading => exact fun r hr => hs.reading r (List.mem_of_mem_filter hr)
  case hthreads => exact hs.threads.sublist (List.filter_sublist.map _)
  case hspace => exact hs.space

theorem Flow.dequeue (hs : Flow s g) (hrd : rd ∈ s.reads) (hnone : rd.event = none)
    {rest : List ℕ} (hpriv : s.files rd.file = some priv) (hqueue : priv.eventList = e :: rest) :
    Flow ((s.setFile rd.file ⟨rest, priv.eventSpace + sizeofEventSync⟩).setRead
      { rd with event := some e }) g := by
  apply hs.placed ((s.setFile rd.file ⟨rest, priv.eventSpace + sizeofEventSync⟩).setRead
    { rd with event := some e }) rfl ?_ rfl
  case hflight =>
    intro h
    have hheld := held_perm hs.threads hrd h
    have hempty : heldFor h rd = none := by simp [heldFor, hnone]
    rw [hempty] at hheld
    have hsetRead := held_setRead (s := s.setFile rd.file
      ⟨rest, priv.eventSpace + sizeofEventSync⟩) { rd with event := some e } h
    rw [hsetRead]
    change (s.queue h ++ s.held h).Perm ((s.setFile rd.file _).queue h ++
      (_ ++ (s.endRead rd.thread).held h))
    by_cases hh : h = rd.file
    · have hbefore : s.queue h = e :: rest := by simp [EventState.queue, hh, hpriv, hqueue]
      have hafter : (s.setFile rd.file ⟨rest, priv.eventSpace + sizeofEventSync⟩).queue h = rest := by
        simp [EventState.queue, EventState.setFile, hh]
      rw [hbefore, hafter]
      simp only [heldFor, hh, if_true, Option.toList_some]
      rw [hh] at hheld
      exact ((List.Perm.append_left _ hheld).cons e).trans List.perm_middle.symm
    · have hafter : (s.setFile rd.file ⟨rest, priv.eventSpace + sizeofEventSync⟩).queue h =
          s.queue h := by simp [EventState.queue, EventState.setFile, hh]
      rw [hafter]
      simp only [heldFor, Ne.symm hh, if_false, Option.toList_none]
      exact List.Perm.append_left _ hheld
  case hreading =>
    intro r hr
    cases List.mem_cons.mp hr with
    | inl hr =>
      rw [hr]
      exact hs.reading rd hrd
    | inr hr => exact hs.reading r (List.mem_of_mem_filter hr)
  case hthreads => exact setRead_threads hs.threads _
  case hspace =>
    intro h p hp
    by_cases hh : h = rd.file
    · have hpe : p = ⟨rest, priv.eventSpace + sizeofEventSync⟩ := by
        rw [hh] at hp
        simpa [EventState.setFile, EventState.setRead] using hp.symm
      have hspace := hs.space rd.file priv hpriv
      rw [hqueue, List.length_cons, ← Nat.add_assoc, Nat.mul_add, Nat.mul_one] at hspace
      rw [hh, hpe]
      dsimp only
      omega
    · exact hs.space h p (by simpa [EventState.setFile, EventState.setRead, hh] using hp)
  intro h
  by_cases hh : h = rd.file
  · simp [EventState.setFile, EventState.setRead, hh, hpriv]
  · simp [EventState.setFile, EventState.setRead, hh]

theorem Flow.copied (hs : Flow s g) (hrd : rd ∈ s.reads) (he : rd.event = some e)
    (hev : s.events e = some ev) (total : ℕ) :
    Flow (EventState.setRead { s with events := Function.update s.events e none }
      { rd with total := total, event := none })
      { g with delivered := ev.request :: g.delivered } := by
  let s' : EventState := EventState.setRead { s with events := Function.update s.events e none }
    { rd with total := total, event := none }
  have hheld (h : ℕ) : (s.held h).Perm ((if h = rd.file then [e] else []) ++ s'.held h) := by
    have hhand : (heldFor h rd).toList = if h = rd.file then [e] else [] := by
      by_cases hh : h = rd.file
      · simp [heldFor, hh, he]
      · simp [heldFor, hh, Ne.symm hh]
    have hbefore := held_perm hs.threads hrd h
    have hafter : s'.held h = (s.endRead rd.thread).held h := by
      rw [held_setRead]
      simp [heldFor, EventState.held, EventState.endRead]
    rw [hhand] at hbefore
    rw [hafter]
    exact hbefore
  have hin : e ∈ s.held rd.file := by
    rw [(hheld rd.file).mem_iff, if_pos rfl]
    exact List.mem_append_left _ (List.mem_singleton_self e)
  have hfile : ev.filePriv = rd.file := by
    have hflight : e ∈ s.inFlight rd.file :=
      List.mem_append_right _ (List.mem_append_right _ hin)
    obtain ⟨v, hv, hvf⟩ := (hs.flight rd.file e).mp hflight
    rw [hev, Option.some.injEq] at hv
    rw [hv]
    exact hvf
  have hnotWait : e ∉ s.syncWaitList := fun hmem => by
    have hwait : e ∈ s.waitingFor rd.file := mem_waitingFor.mpr ⟨hmem, ev, hev, hfile⟩
    exact (List.nodup_append.mp (hs.nodup rd.file)).2.2 e hwait e
      (List.mem_append_right _ hin) rfl
  have hself : s'.events e = none := Function.update_self ..
  have hother (d : ℕ) (hd : d ≠ e) : s'.events d = s.events d := Function.update_of_ne hd ..
  have hwaiting (h : ℕ) : s'.waitingFor h = s.waitingFor h := by
    apply List.filter_congr
    intro d hd
    unfold EventState.waitsFor
    rw [hother d fun hde => hnotWait (hde ▸ hd)]
  have hflight (h : ℕ) : (s.inFlight h).Perm ((if h = rd.file then [e] else []) ++
      s'.inFlight h) := by
    unfold EventState.inFlight
    rw [hwaiting]
    change (s.waitingFor h ++ (s.queue h ++ s.held h)).Perm
      (_ ++ (s.waitingFor h ++ (s.queue h ++ s'.held h)))
    refine (List.Perm.append_left _ (List.Perm.append_left _ (hheld h))).trans ?_
    refine (List.Perm.append_left _ (List.perm_append_comm_assoc ..)).trans ?_
    exact List.perm_append_comm_assoc ..
  have hnodup (h : ℕ) : ((if h = rd.file then [e] else []) ++ s'.inFlight h).Nodup :=
    (hflight h).nodup_iff.mp (hs.nodup h)
  have hgone (h : ℕ) : e ∉ s'.inFlight h := fun hmem => by
    have hbefore : e ∈ s.inFlight h := (hflight h).mem_iff.mpr (List.mem_append_right _ hmem)
    obtain ⟨v, hv, hvf⟩ := (hs.flight h e).mp hbefore
    rw [hev, Option.some.injEq] at hv
    have hh : h = rd.file := by rw [← hvf, ← hv, hfile]
    have hcons := hnodup h
    rw [if_pos hh] at hcons
    exact (List.nodup_cons.mp hcons).1 hmem
  have hreq (d : ℕ) (hd : d ≠ e) : s'.request? d = s.request? d := by
    rw [EventState.request?, hother d hd]
    rfl
  change Flow s' _
  constructor
  case owned =>
    intro d v hd
    have hde : d ≠ e := fun hde => by
      rw [hde, hself] at hd
      cases hd
    rw [hother d hde] at hd
    exact hs.owned d v hd
  case waiting =>
    intro d hd
    rw [hother d fun hde => hnotWait (hde ▸ hd)]
    exact hs.waiting d hd
  case flight =>
    intro h d
    by_cases hde : d = e
    · rw [hde, hself]
      exact iff_of_false (hgone h) (by simp)
    · rw [hother d hde, ← hs.flight h d, (hflight h).mem_iff, List.mem_append]
      by_cases hh : h = rd.file
      · simp [hh, hde]
      · simp [hh]
  case nodup => exact fun h => (List.nodup_append.mp (hnodup h)).2.1
  case reading =>
    intro r hr
    cases List.mem_cons.mp hr with
    | inl hr =>
      rw [hr]
      exact hs.reading rd hrd
    | inr hr => exact hs.reading r (List.mem_of_mem_filter hr)
  case threads => exact setRead_threads (s := { s with events := _ }) hs.threads _
  case space =>
    intro h p hp
    rw [hwaiting]
    exact hs.space h p hp
  case conserved =>
    intro h
    have hmap : (s'.inFlight h).filterMap s'.request? = (s'.inFlight h).filterMap s.request? :=
      List.filterMap_congr fun d hd => hreq d fun hde => hgone h (hde ▸ hd)
    have hbefore := (hflight h).filterMap s.request?
    rw [List.filterMap_append, ← hmap] at hbefore
    refine (hs.conserved h).trans ?_
    refine (hbefore.append_right _).trans ?_
    by_cases hh : h = rd.file
    · have hask : s.request? e = some ev.request := by
        rw [EventState.request?, hev]
        rfl
      have hmine : ofFile h (ev.request :: g.delivered) = ev.request :: ofFile h g.delivered :=
        List.filter_cons_of_pos (decide_eq_true (hfile.trans hh.symm))
      rw [if_pos hh, List.filterMap_cons_some hask, List.filterMap_nil]
      dsimp only
      rw [hmine]
      exact List.perm_middle.symm
    · have hnot : ofFile h (ev.request :: g.delivered) = ofFile h g.delivered :=
        List.filter_cons_of_neg (by
          simpa [PendingSyncEvent.request, hfile] using Ne.symm hh)
      rw [if_neg hh, List.filterMap_nil, List.nil_append]
      dsimp only
      rw [hnot]

theorem Flow.openFile (hs : Flow s g) (hf : s.files f = none) : Flow (pvrOpen s f) g := by
  have hnone (e : ℕ) : s.waitsFor f e = false := by
    rw [Bool.eq_false_iff]
    intro hw
    obtain ⟨ev, hev, hfile⟩ := waitsFor_iff.mp hw
    have hthere := (hs.owned e ev hev).1
    rw [hfile, hf] at hthere
    cases hthere
  have hwaiting : s.waitingFor f = [] := List.filter_eq_nil_iff.mpr fun e _ => by
    rw [hnone e]
    exact Bool.false_ne_true
  have hqueue (h : ℕ) : (pvrOpen s f).queue h = s.queue h := by
    by_cases hh : h = f
    · simp [EventState.queue, pvrOpen, EventState.setFile, hh, hf]
    · simp [EventState.queue, pvrOpen, EventState.setFile, hh]
  have hinFlight (h : ℕ) : (pvrOpen s f).inFlight h = s.inFlight h :=
    inFlight_congr rfl (hqueue h) rfl
  have hlives (h : ℕ) (hh : (s.files h).isSome = true) :
      ((pvrOpen s f).files h).isSome = true := by
    by_cases hhf : h = f
    · simp [pvrOpen, EventState.setFile, hhf]
    · simpa [pvrOpen, EventState.setFile, hhf] using hh
  constructor
  case owned => exact fun e ev he => ⟨hlives _ (hs.owned e ev he).1, (hs.owned e ev he).2⟩
  case waiting => exact hs.waiting
  case flight =>
    intro h e
    rw [hinFlight]
    exact hs.flight h e
  case nodup =>
    intro h
    rw [hinFlight]
    exact hs.nodup h
  case reading => exact fun rd hrd => hlives _ (hs.reading rd hrd)
  case threads => exact hs.threads
  case space =>
    intro h p hp
    change p.eventSpace + sizeofEventSync * ((s.waitingFor h).length + p.eventList.length) = _
    by_cases hh : h = f
    · have hpe : p = ⟨[], eventSpaceMax⟩ := by
        rw [hh] at hp
        simpa [pvrOpen, EventState.setFile] using hp.symm
      rw [hh, hwaiting, hpe]
      rfl
    · exact hs.space h p (by simpa [pvrOpen, EventState.setFile, hh] using hp)
  case conserved =>
    intro h
    rw [hinFlight]
    exact hs.conserved h

theorem kfreeAll_eq {l : List ℕ} (hl : l.Nodup) (halive : ∀ e ∈ l, (s.events e).isSome = true) :
    kfreeAll s l = some { s with events := fun e => if e ∈ l then none else s.events e } := by
  induction l generalizing s with
  | nil => simp [kfreeAll]
  | cons d l ih =>
    obtain ⟨hd, hl⟩ := List.nodup_cons.mp hl
    have hfree : s.kfree d = some { s with events := Function.update s.events d none } :=
      if_pos (halive d List.mem_cons_self)
    have hrest := ih (s := { s with events := Function.update s.events d none }) hl
      fun e he => by
        have hne : e ≠ d := fun hed => hd (hed ▸ he)
        dsimp only
        rw [Function.update_of_ne hne]
        exact halive e (List.mem_cons_of_mem d he)
    unfold kfreeAll at hrest ⊢
    rw [List.foldlM_cons, hfree]
    refine hrest.trans ?_
    congr 2
    funext e
    by_cases hed : e = d
    · simp [hed]
    · simp [hed]

def Ledger.drop (g : Ledger) (f : ℕ) : Ledger where
  accepted := g.accepted.filter fun q => q.file ≠ f
  delivered := g.delivered.filter fun q => q.file ≠ f

theorem ofFile_drop {l : List Request} : ofFile h (l.filter fun q => q.file ≠ f) =
    if h = f then [] else ofFile h l := by
  unfold ofFile
  rw [List.filter_filter]
  by_cases hh : h = f
  · rw [if_pos hh, List.filter_eq_nil_iff]
    intro q hq
    simp [hh]
  · rw [if_neg hh]
    apply List.filter_congr
    intro q hq
    by_cases hqh : q.file = h
    · simp [hqh, hh]
    · simp [hqh]

/-- What the release of a file leaves: all that is in flight for it goes with it. -/
def EventState.released (s : EventState) (f : ℕ) : EventState where
  events e := if s.waitsFor f e = true then none else s.events e
  files := Function.update s.files f none
  syncData := s.syncData
  syncWaitList := s.syncWaitList.filter fun e => !s.waitsFor f e
  reads := s.reads

theorem Flow.pvrRelease_eq (hs : Flow s g) (hf : (s.files f).isSome = true)
    (hreads : ∀ rd ∈ s.reads, rd.file ≠ f) : pvrRelease s f = some (s.released f) := by
  obtain ⟨priv, hpriv⟩ := Option.isSome_iff_exists.mp hf
  have hheld : s.held f = [] := List.filterMap_eq_nil_iff.mpr fun rd hrd => if_neg (hreads rd hrd)
  have hflight : s.inFlight f = s.waitingFor f ++ priv.eventList := by
    simp [EventState.inFlight, EventState.queue, hpriv, hheld]
  have hnodup := hs.nodup f
  rw [hflight] at hnodup
  obtain ⟨hnodupWait, hnodupQueue, hdisjoint⟩ := List.nodup_append.mp hnodup
  have hmine (e : ℕ) : e ∈ s.waitingFor f ++ priv.eventList ↔ s.waitsFor f e = true := by
    rw [← hflight, hs.flight f e, waitsFor_iff]
  have halive (e : ℕ) (he : e ∈ s.waitingFor f ++ priv.eventList) :
      (s.events e).isSome = true := by
    obtain ⟨ev, hev, -⟩ := waitsFor_iff.mp ((hmine e).mp he)
    rw [hev]
    rfl
  let u : EventState := { s with syncWaitList := s.syncWaitList.filter fun e => !s.waitsFor f e }
  have hfirst : kfreeAll u (s.waitingFor f) = some { u with
      events := fun e => if e ∈ s.waitingFor f then none else u.events e } :=
    kfreeAll_eq hnodupWait fun e he => halive e (List.mem_append_left _ he)
  have hsecond : kfreeAll { u with
      events := fun e => if e ∈ s.waitingFor f then none else u.events e } priv.eventList =
      some { u with events := fun e => if e ∈ priv.eventList then none
        else if e ∈ s.waitingFor f then none else u.events e } :=
    kfreeAll_eq hnodupQueue fun e he => by
      have hnot : e ∉ s.waitingFor f := fun hwait => hdisjoint e hwait e he rfl
      dsimp only
      rw [if_neg hnot]
      exact halive e (List.mem_append_right _ he)
  have hevents : (fun e => if e ∈ priv.eventList then none
      else if e ∈ s.waitingFor f then none else s.events e) = (s.released f).events := by
    funext e
    change _ = if s.waitsFor f e = true then none else s.events e
    by_cases he : s.waitsFor f e = true
    · rw [if_pos he]
      cases List.mem_append.mp ((hmine e).mpr he) with
      | inl hw => simp [hw]
      | inr hq => simp [hq]
    · have hnot : e ∉ s.waitingFor f ++ priv.eventList := fun hmem => he ((hmine e).mp hmem)
      rw [List.mem_append, not_or] at hnot
      rw [if_neg he, if_neg hnot.2, if_neg hnot.1]
  unfold pvrRelease
  rw [hpriv, Option.bind_eq_bind, Option.bind_some]
  rw [Option.bind_eq_bind]
  change (kfreeAll u (s.waitingFor f)).bind _ = _
  rw [hfirst, Option.bind_some, hsecond, Option.bind_some]
  dsimp only
  rw [hevents]
  rfl

theorem released_back {e : ℕ} {ev : PendingSyncEvent} (he : (s.released f).events e = some ev) :
    s.events e = some ev ∧ ev.filePriv ≠ f := by
  unfold EventState.released at he
  dsimp only at he
  by_cases hw : s.waitsFor f e = true
  · rw [if_pos hw] at he
    cases he
  · rw [if_neg hw] at he
    exact ⟨he, fun hfile => hw (waitsFor_iff.mpr ⟨ev, he, hfile⟩)⟩

theorem released_waitsFor (s : EventState) (f h e : ℕ) :
    (s.released f).waitsFor h e = (s.waitsFor h e && !s.waitsFor f e) := by
  have hevents : (s.released f).events e =
    if s.waitsFor f e = true then none else s.events e := rfl
  rw [EventState.waitsFor, hevents]
  cases hw : s.waitsFor f e with
  | true => simp
  | false => simp [EventState.waitsFor]

theorem released_waitingFor {h : ℕ} (hh : h ≠ f) :
    (s.released f).waitingFor h = s.waitingFor h := by
  change (s.syncWaitList.filter fun e => !s.waitsFor f e).filter ((s.released f).waitsFor h) = _
  rw [List.filter_filter]
  apply List.filter_congr
  intro e _
  rw [released_waitsFor]
  by_cases hw : s.waitsFor h e = true
  · have hnot : s.waitsFor f e = false := by
      rw [Bool.eq_false_iff]
      intro hwf
      exact hh (waitsFor_unique hw hwf)
    simp [hw, hnot]
  · simp [hw]

theorem released_inFlight {h : ℕ} (hh : h ≠ f) : (s.released f).inFlight h = s.inFlight h :=
  inFlight_congr (released_waitingFor hh) (by simp [EventState.queue, EventState.released, hh]) rfl

theorem released_inFlight_self (hreads : ∀ rd ∈ s.reads, rd.file ≠ f) :
    (s.released f).inFlight f = [] := by
  have hheld : s.held f = [] := List.filterMap_eq_nil_iff.mpr fun rd hrd => if_neg (hreads rd hrd)
  have hqueue : (s.released f).queue f = [] := by simp [EventState.queue, EventState.released]
  have hwaiting : (s.released f).waitingFor f = [] := List.filter_eq_nil_iff.mpr fun e _ => by
    rw [released_waitsFor]
    simp
  unfold EventState.inFlight
  rw [hwaiting, hqueue]
  exact hheld

theorem Flow.released_conserved (hs : Flow s g) {h : ℕ} (hh : h ≠ f) :
    (s.inFlight h).filterMap (s.released f).request? = (s.inFlight h).filterMap s.request? := by
  apply List.filterMap_congr
  intro e he
  have hnot : ¬s.waitsFor f e = true := fun hw =>
    hh (waitsFor_unique (waitsFor_iff.mpr ((hs.flight h e).mp he)) hw)
  have hkept : (s.released f).events e = s.events e := if_neg hnot
  rw [EventState.request?, hkept]
  rfl

theorem Flow.released (hs : Flow s g) (hreads : ∀ rd ∈ s.reads, rd.file ≠ f) :
    Flow (s.released f) (g.drop f) := by
  have hlives {h : ℕ} (hh : h ≠ f) : (s.released f).files h = s.files h :=
    Function.update_of_ne hh ..
  constructor
  case owned =>
    intro e ev he
    obtain ⟨hold, hfile⟩ := released_back he
    rw [hlives hfile]
    exact hs.owned e ev hold
  case waiting =>
    intro e he
    obtain ⟨hmem, hnot⟩ := List.mem_filter.mp he
    have hkept : (s.released f).events e = s.events e := if_neg (by simpa using hnot)
    rw [hkept]
    exact hs.waiting e hmem
  case flight =>
    intro h e
    by_cases hh : h = f
    · rw [hh, released_inFlight_self hreads]
      refine iff_of_false List.not_mem_nil fun hex => ?_
      obtain ⟨ev, hev, hfile⟩ := hex
      exact (released_back hev).2 hfile
    · rw [released_inFlight hh, hs.flight h e]
      constructor
      · intro hex
        obtain ⟨ev, hev, hfile⟩ := hex
        have hnot : ¬s.waitsFor f e = true := fun hw =>
          hh (waitsFor_unique (waitsFor_iff.mpr ⟨ev, hev, hfile⟩) hw)
        exact ⟨ev, (if_neg hnot).trans hev, hfile⟩
      · intro hex
        obtain ⟨ev, hev, hfile⟩ := hex
        exact ⟨ev, (released_back hev).1, hfile⟩
  case nodup =>
    intro h
    by_cases hh : h = f
    · rw [hh, released_inFlight_self hreads]
      exact List.nodup_nil
    · rw [released_inFlight hh]
      exact hs.nodup h
  case reading =>
    intro rd hrd
    rw [hlives (hreads rd hrd)]
    exact hs.reading rd hrd
  case threads => exact hs.threads
  case space =>
    intro h p hp
    by_cases hh : h = f
    · rw [hh] at hp
      simp [EventState.released] at hp
    · rw [released_waitingFor hh]
      exact hs.space h p (by rwa [hlives hh] at hp)
  case conserved =>
    intro h
    unfold Ledger.drop
    dsimp only
    rw [ofFile_drop, ofFile_drop]
    by_cases hh : h = f
    · rw [if_pos hh, if_pos hh, hh, released_inFlight_self hreads]
      exact List.Perm.refl _
    · rw [if_neg hh, if_neg hh, released_inFlight hh, hs.released_conserved hh]
      exact hs.conserved h

theorem Flow.release (hs : Flow s g) (hf : (s.files f).isSome = true)
    (hreads : ∀ rd ∈ s.reads, rd.file ≠ f) :
    ∃ s', pvrRelease s f = some s' ∧ Flow s' (g.drop f) ∧
      s'.files = Function.update s.files f none ∧ s'.syncWaitList ⊆ s.syncWaitList ∧
      ∀ h, h ≠ f → s'.waitingFor h = s.waitingFor h :=
  ⟨s.released f, hs.pvrRelease_eq hf hreads, hs.released hreads, rfl, List.filter_subset_self ..,
    fun _ hh => released_waitingFor hh⟩

end PvrServices.Events
