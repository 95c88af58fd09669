import PvrServices.ResmanContexts
import PvrServices.ResmanFrees
import PvrServices.Runs

set_option autoImplicit false

/-!
# The end of a process

Every call keeps the lists of all contexts in shape, whatever the callbacks free. The disconnect
reaches the types of its list, in the order of that list, and no others.
-/
namespace PvrServices.Resman
open LinkedChain Runs
variable {s s' : ResList} {lists lists' : ℕ → List ℕ} {c d p q n : ℕ}
  {x y : ResmanItem} {new : List Call} {cb : Callbacks}

inductive ResmanOp where
  | connect (perProc : ℕ) (mem : Option ℕ)
  | register (c : ℕ) (resType : ResmanType) (pvParam ui32Param pfnFreeResource : ℕ)
      (mem : Option ℕ)
  | freeByPtr (cb : Callbacks) (p : ℕ)
  | freeByCriteria (cb : Callbacks) (c : ℕ) (crit : Criteria)
  | dissociate (p : ℕ) (c : Option ℕ)
  | disconnect (cb : Callbacks) (c : ℕ) (kernelContext : Bool)

inductive ResmanReply where
  | connected (answer : Except PvrsrvError ℕ)
  | registered (item : Option ℕ)
  | freed
  | disconnected (listed : Option ℕ)

def resmanStep (s : ResList) : ResmanOp → Option (ResmanReply × ResList)
  | .connect perProc mem => (pvrsrvResManConnect s perProc mem).map fun r => (.connected r.1, r.2)
  | .register c resType pvParam ui32Param pfnFreeResource mem =>
    (resManRegisterRes s c resType pvParam ui32Param pfnFreeResource mem).map
      fun r => (.registered r.1, r.2)
  | .freeByPtr cb p => (resManFreeResByPtr cb s p).map fun s => (.freed, s)
  | .freeByCriteria cb c crit => (resManFreeResByCriteria cb s c crit).map fun r => (.freed, r.2)
  | .dissociate p c => (resManDissociateRes s p c).map fun s => (.freed, s)
  | .disconnect cb c kernelContext =>
    (pvrsrvResManDisconnect cb s c kernelContext).map fun r => (.disconnected r.1, r.2)

def Lawful (s : ResList) (cb : Callbacks) : Prop :=
  ∀ p calls, (cb p calls).Names fun c => (s.contexts c).isSome = true

/-- What the callers keep to: memory that is handed out is not in use, items are freed while they
    are registered, and contexts are used while they are connected. -/
def Proper (s : ResList) : ResmanOp → Prop
  | .connect _ mem => ∀ c, mem = some c → s.contexts c = none
  | .register c _ _ _ _ mem =>
    (s.contexts c).isSome = true ∧ ∀ p, mem = some p → s.items p = none
  | .freeByPtr cb p => (∃ c, resManFindResourceByPtr s c p = some .ok) ∧ Lawful s cb
  | .freeByCriteria cb c _ => (s.contexts c).isSome = true ∧ Lawful s cb
  | .dissociate p c => (∃ d, resManFindResourceByPtr s d p = some .ok) ∧
    ∀ d, c = some d → (s.contexts d).isSome = true
  | .disconnect cb c _ => (s.contexts c).isSome = true ∧ Lawful s cb

theorem Shaped.freeByPtr (h : Shaped s lists) (hcb : Lawful s cb) (hp : p ∈ lists c) :
    ∃ s' lists', resManFreeResByPtr cb s p = some s' ∧ Shaped s' lists' := by
  obtain ⟨s', lists', new, x, hs', hfreed, -, -, -⟩ :=
    freesOne_freeResourceByPtr hcb s.allocated.length false s lists c p h (fun _ hd => hd)
      h.atMost hp
  exact ⟨s', lists', hs', hfreed.shaped⟩

theorem Shaped.freeByCriteria (h : Shaped s lists) (hcb : Lawful s cb)
    (hc : (s.contexts c).isSome = true) (crit : Criteria) :
    FreesAccepted cb crit false c s lists (resManFreeResByCriteria cb s c crit) :=
  (freesOne_freeResourceByPtr hcb s.allocated.length false).byCriteria crit h (fun _ hd => hd)
    h.atMost hc

theorem Freed.lawful {s' : ResList} (h : Freed s s' lists lists' new) (hcb : Lawful s cb) :
    Lawful s' cb := by
  intro p calls
  have hlive : (fun c => (s'.contexts c).isSome = true) = fun c => (s.contexts c).isSome = true := by
    funext e
    rw [h.context e]
  rw [hlive]
  exact hcb p calls

def sweepTypes (calls : List Call) : List ResmanType :=
  (calls.filter fun call => !call.nested).map Call.resType

theorem sweepTypes_append (new new' : List Call) :
    sweepTypes (new ++ new') = sweepTypes new ++ sweepTypes new' := by
  simp [sweepTypes]

/-- One type after the other is freed, each with what its callbacks free. -/
theorem Shaped.freeTypes (h : Shaped s lists) (hcb : Lawful s cb)
    (hc : (s.contexts c).isSome = true) {ts : List ResmanType} (hnodup : ts.Nodup) :
    ∃ s' lists' new, freeTypes cb c ts s = some s' ∧ Freed s s' lists lists' new ∧
      (∃ k : ResmanType → ℕ, sweepTypes new = ts.flatMap fun t => List.replicate (k t) t) ∧
      ((∀ p calls, ∃ e, cb p calls = .done e) → ∀ call ∈ new,
        call.nested = false ∧ call.resType ∈ ts ∧ call.item ∈ lists c) ∧
      ∀ p ∈ lists' c, ∀ x, s'.items p = some x → x.resType ∉ ts := by
  induction ts generalizing s lists with
  | nil =>
    exact ⟨s, lists, [], rfl, .refl h, ⟨fun _ => 0, rfl⟩, fun _ => nofun, fun _ _ _ _ => nofun⟩
  | cons t ts ih =>
    have hts := List.nodup_cons.mp hnodup
    obtain ⟨freed, u, lists', new, hu, hfreed, hcalls, hquiet, hleft⟩ :=
      h.freeByCriteria hcb hc ⟨some t, none, none⟩
    obtain ⟨s', lists'', new', hs', hfreed', ⟨k, hk⟩, hquiet', hleft'⟩ :=
      ih hfreed.shaped (hfreed.lawful hcb) (by rw [hfreed.context]; exact hc) hts.2
    have htype {p : ℕ} {x : ResmanItem} (hx : s.items p = some x)
        (hacc : Criteria.accepts ⟨some t, none, none⟩ x = true) : x.resType = t := by
      simp only [Criteria.accepts, Option.all_some, Option.all_none, Bool.and_true,
        decide_eq_true_eq] at hacc
      exact hacc.symm
    have hblock : ∀ call ∈ new, call.nested = true ∨
        call.nested = false ∧ call.resType = t ∧ call.item ∈ lists c := by
      intro call hcall
      refine (hcalls call hcall).imp_right fun hdirect => ⟨hdirect.1, ?_, hdirect.2.1⟩
      obtain ⟨-, -, x, hx, hacc⟩ := hdirect
      obtain ⟨y, hy, heq⟩ := hfreed.recorded call hcall
      rw [hx, Option.some.injEq] at hy
      rw [heq, ← hy]
      exact htype hx hacc
    have hsweep : sweepTypes new = List.replicate (sweepTypes new).length t := by
      apply List.eq_replicate_of_mem
      intro u hu
      obtain ⟨call, hcall, hcu⟩ := List.mem_map.mp hu
      rw [List.mem_filter, Bool.not_eq_true'] at hcall
      rw [← hcu]
      cases hblock call hcall.1 with
      | inl hn =>
        rw [hn] at hcall
        exact nomatch hcall.2
      | inr hn => exact hn.2.1
    refine ⟨s', lists'', new ++ new', ?_, hfreed.trans h hfreed', ?_, ?_, ?_⟩
    · simp [Resman.freeTypes, freeOneRes, hu, hs']
    · refine ⟨fun u => if u = t then (sweepTypes new).length else k u, ?_⟩
      rw [sweepTypes_append, hk, List.flatMap_cons]
      dsimp only
      rw [if_pos rfl, ← hsweep]
      congr 1
      apply List.flatMap_congr
      intro u hu
      have hut : u ≠ t := fun hut => hts.1 (hut ▸ hu)
      rw [if_neg hut]
    · intro hq call hcall
      cases List.mem_append.mp hcall with
      | inl hcall =>
        cases hblock call hcall with
        | inl hn => cases hn.symm.trans (hquiet hq call hcall)
        | inr hn => exact ⟨hn.1, List.mem_cons.mpr (.inl hn.2.1), hn.2.2⟩
      | inr hcall =>
        obtain ⟨hnested, htype, hitem⟩ := hquiet' hq call hcall
        exact ⟨hnested, List.mem_cons_of_mem _ htype, (hfreed.sublist c).subset hitem⟩
    · intro p hp x hx hmem
      cases List.mem_cons.mp hmem with
      | inl ht =>
        obtain ⟨y, hy, hpay⟩ := payload_some (hfreed'.kept c p hp) hx
        have hno := hleft p ((hfreed'.sublist c).subset hp) y hy
        simp only [ResmanItem.payload, Prod.mk.injEq] at hpay
        simp only [Criteria.accepts, Option.all_some, Option.all_none, Bool.and_true,
          decide_eq_false_iff_not] at hno
        exact hno (ht.symm.trans hpay.2.1)
      | inr ht => exact hleft' p hp x hx ht

/-- What a disconnect comes to: the items that it frees, and what it leaves listed. -/
theorem Shaped.disconnect (h : Shaped s lists) (hcb : Lawful s cb)
    (hc : (s.contexts c).isSome = true) (kernelContext : Bool) :
    ∃ listed s' u lists' new, pvrsrvResManDisconnect cb s c kernelContext = some (listed, s') ∧
      Freed s u lists lists' new ∧ s'.calls = s.calls ++ new ∧ s'.items = u.items ∧
      Shaped s' (Function.update lists' c []) ∧ (listed = none ↔ lists' c = []) ∧
      (∃ k : ResmanType → ℕ, sweepTypes new =
        disconnectOrder.flatMap fun t => List.replicate (k t) t) ∧
      (kernelContext = true → lists' = lists ∧ new = []) ∧
      (kernelContext = false →
        ((∀ p calls, ∃ e, cb p calls = .done e) → ∀ call ∈ new,
          call.nested = false ∧ call.resType ∈ disconnectOrder ∧ call.item ∈ lists c) ∧
        ∀ p ∈ lists' c, ∀ x, s.items p = some x → x.resType ∉ disconnectOrder) := by
  have hfinish (u : ResList) (lists' : ℕ → List ℕ) (new : List Call)
      (hu : (if kernelContext then some s else Resman.freeTypes cb c disconnectOrder s) = some u)
      (hfreed : Freed s u lists lists' new) :
      ∃ listed s', pvrsrvResManDisconnect cb s c kernelContext = some (listed, s') ∧
        s'.calls = s.calls ++ new ∧ s'.items = u.items ∧
        Shaped s' (Function.update lists' c []) ∧ (listed = none ↔ lists' c = []) := by
    obtain ⟨ctx, hctx⟩ := Option.isSome_iff_exists.mp (by rw [hfreed.context c]; exact hc)
    obtain ⟨t, v, ht, hv, hcalls, hitems, hshaped⟩ := hfreed.shaped.dropContext hctx
    refine ⟨ctx.resItemList, { v with contexts := Function.update v.contexts c none }, ?_, ?_,
      hitems, hshaped, ?_⟩
    · unfold pvrsrvResManDisconnect
      rw [hu]
      simp only [hctx, ht, hv, Option.bind_eq_bind, Option.bind_some]
    · exact hcalls.trans hfreed.calls
    · have hchain := hfreed.shaped.chain c (by rw [hctx]; rfl)
      have hhead : (itemCells u).deref (.head c) = ctx.resItemList := by
        simp [Cells.deref, itemCells, hctx]
      rw [← hhead]
      cases hl : lists' c with
      | nil =>
        rw [hl] at hchain
        exact ⟨fun _ => rfl, fun _ => hchain⟩
      | cons p l =>
        rw [hl] at hchain
        rw [hchain.1]
        simp
  cases kernelContext with
  | true =>
    obtain ⟨listed, s', hs', hcalls, hitems, hshaped, hlisted⟩ := hfinish s lists [] rfl (.refl h)
    exact ⟨listed, s', s, lists, [], hs', .refl h, hcalls, hitems, hshaped, hlisted, ⟨fun _ => 0, rfl⟩,
      fun _ => ⟨rfl, rfl⟩, fun hk => by cases hk⟩
  | false =>
    obtain ⟨u, lists', new, hu, hfreed, hk, hquiet, hleft⟩ :=
      h.freeTypes hcb hc (show disconnectOrder.Nodup by decide)
    obtain ⟨listed, s', hs', hcalls, hitems, hshaped, hlisted⟩ := hfinish u lists' new hu hfreed
    refine ⟨listed, s', u, lists', new, hs', hfreed, hcalls, hitems, hshaped, hlisted, hk,
      (fun hk => by cases hk), fun _ => ⟨hquiet, fun p hp x hx => ?_⟩⟩
    have hkept := hfreed.kept c p hp
    rw [hx] at hkept
    obtain ⟨y, hy, hpay⟩ := Option.map_eq_some_iff.mp hkept
    simp only [ResmanItem.payload, Prod.mk.injEq] at hpay
    rw [← hpay.2.1]
    exact hleft p hp y hy

theorem Shaped.register (h : Shaped s lists) (hc : (s.contexts c).isSome = true)
    {mem : Option ℕ} (hmem : ∀ p, mem = some p → s.items p = none) (t : ResmanType)
    (pvParam ui32Param pfnFreeResource : ℕ) : ∃ s' lists',
    resManRegisterRes s c t pvParam ui32Param pfnFreeResource mem = some (mem, s') ∧
      Shaped s' lists' ∧ s'.calls = s.calls ∧
      (∀ d q, q ∈ lists' d ↔ q ∈ lists d ∨ d = c ∧ mem = some q) ∧
      ∀ q, (s'.items q).map ResmanItem.payload =
        if mem = some q then some (0, t, pvParam, ui32Param, pfnFreeResource)
        else (s.items q).map ResmanItem.payload := by
  cases mem with
  | none => exact ⟨s, lists, rfl, h, rfl, fun d q => by simp, fun q => by simp⟩
  | some p =>
    have hp := hmem p rfl
    have hnew : p ∉ s.allocated := by
      rw [h.allocated p, hp]
      decide
    have hnot (d : ℕ) : p ∉ lists d := fun hd => by
      obtain ⟨x, hx⟩ := h.item hd
      rw [hp] at hx
      cases hx
    obtain ⟨s', hs', hshaped, hcalls, hpayload, -⟩ := h.push hc hnot (p :: s.allocated)
      (fun q => List.mem_cons) (List.nodup_cons.mpr ⟨hnew, h.allocNodup⟩)
      ⟨.head c, none, 0, t, pvParam, ui32Param, pfnFreeResource⟩
    refine ⟨s', _, by simp [resManRegisterRes, hs'], hshaped, hcalls, fun d q => ?_, fun q => ?_⟩
    · by_cases hd : d = c
      · rw [hd, Function.update_self, List.mem_cons, or_comm]
        simp [eq_comm]
      · rw [Function.update_of_ne hd]
        simp [hd]
    · rw [hpayload q]
      simp [eq_comm, ResmanItem.payload]

theorem Shaped.listed (h : Shaped s lists) (hp : ∃ c, resManFindResourceByPtr s c p = some .ok) :
    ∃ c, p ∈ lists c := by
  obtain ⟨c, hc⟩ := hp
  have hlive : (s.contexts c).isSome = true := by
    cases hctx : s.contexts c with
    | some x => rfl
    | none =>
      unfold resManFindResourceByPtr at hc
      rw [hctx] at hc
      cases hc
  obtain ⟨e, he, hmem⟩ := h.findResourceByPtr hlive p
  rw [hc, Option.some.injEq] at he
  exact ⟨c, hmem.mp he.symm⟩

theorem Shaped.drop (h : Shaped s lists) (hp : p ∈ lists c) (hx : s.items p = some x)
    (cb : Callbacks) :
    ∃ s', freeResourceByPtr cb false 1 false s p = some s' ∧
      Shaped s' (Function.update lists c ((lists c).erase p)) ∧
      (∀ q, q ≠ p → (s'.items q).map ResmanItem.payload = (s.items q).map ResmanItem.payload) ∧
      ∀ d, (s'.contexts d).isSome = (s.contexts d).isSome := by
  obtain ⟨t, ht, hsame, hshaped, hframe⟩ := h.unlink hp hx
  have hpt : t.items p = some x := (hframe p (.inr rfl)).trans hx
  obtain ⟨s', hs', hshaped', -, hitems, hcontexts⟩ := hshaped.freeItem (h.not_mem_erase hp) hpt
  refine ⟨s', by simp [freeResourceByPtr, hx, ht, hs'], hshaped', fun q hq => ?_, fun d => ?_⟩
  · rw [hitems q hq]
    exact hsame.payload q
  · rw [hcontexts]
    exact isSome_of_links (hsame.links d)

theorem Shaped.dissociate (h : Shaped s lists) (hp : p ∈ lists c) {e : Option ℕ}
    (he : ∀ d, e = some d → (s.contexts d).isSome = true) :
    ∃ s' lists', resManDissociateRes s p e = some s' ∧ Shaped s' lists' := by
  obtain ⟨x, hx⟩ := h.item hp
  cases e with
  | none =>
    obtain ⟨s', hs', hshaped, -⟩ := h.drop hp hx fun _ _ => .done .ok
    exact ⟨s', _, hs', hshaped⟩
  | some d =>
    obtain ⟨t, ht, hsame, hshaped, hframe⟩ := h.unlink hp hx
    have hpt : t.items p = some x := (hframe p (.inr rfl)).trans hx
    have hmem : p ∈ t.allocated := by
      rw [hshaped.allocated p, hpt]
      rfl
    obtain ⟨s', hs', hshaped', -, -, -⟩ := hshaped.push (c := d) (p := p)
      (by rw [isSome_of_links (hsame.links d)]; exact he d rfl) (h.not_mem_erase hp) t.allocated
      (fun q => ⟨.inr, fun hq => hq.elim (fun hqp => by rw [hqp]; exact hmem) id⟩)
      hshaped.allocNodup x
    exact ⟨s', _, by simp [resManDissociateRes, hx, ht, hpt, hs'], hshaped'⟩

theorem shaped_step (h : Shaped s lists) {op : ResmanOp} (hop : Proper s op) :
    ∃ r s' lists', resmanStep s op = some (r, s') ∧ Shaped s' lists' := by
  cases op with
  | connect perProc mem =>
    cases mem with
    | none => exact ⟨_, _, _, rfl, h⟩
    | some c =>
      obtain ⟨s', hs', hshaped, -⟩ := h.connect (hop c rfl) perProc
      exact ⟨_, s', lists, by rw [resmanStep, hs']; rfl, hshaped⟩
  | register c t pvParam ui32Param pfnFreeResource mem =>
    obtain ⟨s', lists', hs', hshaped, -, -, -⟩ :=
      h.register hop.1 hop.2 t pvParam ui32Param pfnFreeResource
    exact ⟨_, s', lists', by rw [resmanStep, hs']; rfl, hshaped⟩
  | freeByPtr cb p =>
    obtain ⟨c, hc⟩ := h.listed hop.1
    obtain ⟨s', lists', hs', hshaped⟩ := h.freeByPtr hop.2 hc
    exact ⟨_, s', lists', by rw [resmanStep, hs']; rfl, hshaped⟩
  | freeByCriteria cb c crit =>
    obtain ⟨freed, s', lists', new, hs', hfreed, -, -, -⟩ := h.freeByCriteria hop.2 hop.1 crit
    exact ⟨_, s', lists', by rw [resmanStep, hs']; rfl, hfreed.shaped⟩
  | dissociate p e =>
    obtain ⟨c, hc⟩ := h.listed hop.1
    obtain ⟨s', lists', hs', hshaped⟩ := h.dissociate hc hop.2
    exact ⟨_, s', lists', by rw [resmanStep, hs']; rfl, hshaped⟩
  | disconnect cb c kernelContext =>
    obtain ⟨listed, s', u, lists', new, hs', -, -, -, hshaped, -, -, -, -⟩ :=
      h.disconnect hop.2 hop.1 kernelContext
    exact ⟨_, s', _, by rw [resmanStep, hs']; rfl, hshaped⟩

theorem shaped_run {l : List (ResmanOp × ResmanReply)}
    (hrun : Run resmanStep Proper resManInit l s) : ∃ lists, Shaped s lists :=
  hrun.invariant (fun s => ∃ lists, Shaped s lists) ⟨_, shaped_init⟩ fun t op r u hshaped hop hs => by
    obtain ⟨lists, h⟩ := hshaped
    obtain ⟨r', u', lists', hu, hshaped'⟩ := shaped_step h hop
    rw [hs, Option.some.injEq, Prod.mk.injEq] at hu
    exact ⟨lists', by rw [hu.2]; exact hshaped'⟩

/-- A disconnect that frees what the context lists: each callback is called once, with the
    parameters of its item, type after type, and nothing is left. -/
def FreesAll (s : ResList) (l : List ℕ) (cb : Callbacks) (c : ℕ) (kernelContext : Bool) : Prop :=
  ∃ s' new, pvrsrvResManDisconnect cb s c kernelContext = some (none, s') ∧
    s'.calls = s.calls ++ new ∧ (∀ p ∈ l, (new.map Call.item).count p = 1) ∧
    (∀ call ∈ new, ∃ x, s.items call.item = some x ∧ call = callOf call.item x call.nested) ∧
    ∃ k : ResmanType → ℕ, sweepTypes new = disconnectOrder.flatMap fun t => List.replicate (k t) t

theorem mem_disconnectOrder (t : ResmanType) : t ∈ disconnectOrder ↔ t ≠ .sharedMemInfo := by
  cases t <;> decide

/-- The lists of all contexts keep their shape, and the disconnect of a context frees all that it
    lists, whatever the callbacks free, exactly if no `RESMAN_TYPE_SHARED_MEM_INFO` is listed and
    the context is not the kernel's, or nothing is listed. -/
theorem disconnect_frees_all_over_runs {l : List (ResmanOp × ResmanReply)}
    (hrun : Run resmanStep Proper resManInit l s) : ∃ lists, Shaped s lists ∧
    ∀ c kernelContext, (s.contexts c).isSome = true →
      ((∀ cb, Lawful s cb → FreesAll s (lists c) cb c kernelContext) ↔
        ∀ p ∈ lists c, ∀ x, s.items p = some x →
          x.resType ≠ .sharedMemInfo ∧ kernelContext = false) := by
  obtain ⟨lists, h⟩ := shaped_run hrun
  refine ⟨lists, h, fun c kernelContext hc => ⟨fun hall p hp x hx => ?_, fun hitems cb hcb => ?_⟩⟩
  · have hcb : Lawful s fun _ _ => .done .ok := fun _ _ => trivial
    obtain ⟨s', new, hs', hcalls, hcount, hrecorded, -⟩ := hall _ hcb
    obtain ⟨listed, t, u, lists', new', ht, -, hcalls', -, -, -, -, hkernel, hquiet⟩ :=
      h.disconnect hcb hc kernelContext
    rw [hs', Option.some.injEq, Prod.mk.injEq] at ht
    rw [← ht.2, hcalls] at hcalls'
    have hnew := List.append_cancel_left hcalls'
    have hmem : p ∈ new.map Call.item := List.count_pos_iff.mp (by rw [hcount p hp]; decide)
    obtain ⟨call, hcall, hcp⟩ := List.mem_map.mp hmem
    cases kernelContext with
    | true =>
      rw [hnew, (hkernel rfl).2] at hcall
      cases hcall
    | false =>
      obtain ⟨y, hy, heq⟩ := hrecorded call hcall
      rw [hcp, hx, Option.some.injEq] at hy
      obtain ⟨-, htype, -⟩ := (hquiet rfl).1 (fun _ _ => ⟨_, rfl⟩) call (hnew ▸ hcall)
      rw [mem_disconnectOrder, heq, ← hy] at htype
      exact ⟨htype, rfl⟩
  · obtain ⟨listed, s', u, lists', new, hs', hfreed, hcalls, -, -, hlisted, hk, hkernel, hsweep⟩ :=
      h.disconnect hcb hc kernelContext
    have hnil : lists' c = [] := by
      apply List.eq_nil_iff_forall_not_mem.mpr
      intro p hp
      have hpl : p ∈ lists c := (hfreed.sublist c).subset hp
      obtain ⟨x, hx⟩ := h.item hpl
      obtain ⟨htype, hno⟩ := hitems p hpl x hx
      exact (hsweep hno).2 p hp x hx ((mem_disconnectOrder _).mpr htype)
    refine ⟨s', new, by rw [hs', hlisted.mpr hnil], hcalls, fun p hp => ?_, hfreed.recorded, hk⟩
    refine List.count_eq_one_of_mem hfreed.once ((hfreed.gone p).mpr ⟨c, hp, ?_⟩)
    rw [hnil]
    nofun

/-- Contexts are connected and items are registered, where nothing is. -/
def fresh (s : ResList) : ResmanOp → Bool
  | .connect _ (some c) => (s.contexts c).isNone
  | .register c _ _ _ _ (some p) => (s.contexts c).isSome && (s.items p).isNone
  | _ => false

theorem proper_of_fresh {op : ResmanOp} (h : fresh s op = true) : Proper s op := by
  cases op with
  | connect perProc mem =>
    cases mem with
    | none => exact nomatch h
    | some e =>
      intro c hc
      rw [← Option.some.inj hc]
      exact Option.isNone_iff_eq_none.mp h
  | register c t pvParam ui32Param pfnFreeResource mem =>
    cases mem with
    | none => exact nomatch h
    | some q =>
      have h := Bool.and_eq_true_iff.mp h
      refine ⟨h.1, fun p hp => ?_⟩
      rw [← Option.some.inj hp]
      exact Option.isNone_iff_eq_none.mp h.2
  | freeByPtr | freeByCriteria | dissociate | disconnect => exact nomatch h

theorem run_of_fresh {ops : List ResmanOp} {l : List (ResmanOp × ResmanReply)}
    (h : exec resmanStep resManInit ops = some (l, s))
    (hfresh : Allowed resmanStep (fun s op => fresh s op = true) resManInit ops) :
    Run resmanStep Proper resManInit l s :=
  (Run.of_allowed h hfresh).mono fun _ _ hop => proper_of_fresh hop

def sampleOps : List ResmanOp :=
  [.connect 1 (some 4096), .register 4096 .devicememAllocation 500 0 600 (some 8192),
    .register 4096 .eventObject 501 7 601 (some 12288)]

theorem disconnect_frees_all_over_sample : ∃ l s lists,
    exec resmanStep resManInit sampleOps = some (l, s) ∧ Shaped s lists ∧
    lists 4096 = [12288, 8192] ∧
    ∀ cb, Lawful s cb → FreesAll s (lists 4096) cb 4096 false := by
  have hsome : ((exec resmanStep resManInit sampleOps).map fun r =>
      ([(itemCells r.2).head 4096, (itemCells r.2).next 12288, (itemCells r.2).next 8192],
        [(itemCells r.2).this 12288, (itemCells r.2).this 8192],
        r.2.allocated.all fun p => (r.2.items p).all fun x => x.resType ≠ .sharedMemInfo)) =
      some ([some 12288, some 8192, none], [some (.head 4096), some (.next 12288)], true) := by
    decide +kernel
  obtain ⟨⟨l, s⟩, hexec, hlook⟩ := Option.map_eq_some_iff.mp hsome
  simp only [Prod.mk.injEq, List.cons.injEq, and_true, List.all_eq_true, Option.all_eq_true,
    decide_eq_true_eq] at hlook
  obtain ⟨⟨hhead, hnext, hnext'⟩, ⟨hthis, hthis'⟩, htypes⟩ := hlook
  have hrun := run_of_fresh hexec (by decide +kernel)
  obtain ⟨lists, hshaped, hall⟩ := disconnect_frees_all_over_runs hrun
  have hlive : (s.contexts 4096).isSome = true := by
    obtain ⟨x, hx, -⟩ := Option.bind_eq_some_iff.mp hhead
    rw [hx]
    rfl
  have hlists : lists 4096 = [12288, 8192] :=
    (hshaped.chain 4096 hlive).unique ⟨hhead, hthis, hnext, hthis', hnext'⟩
  refine ⟨l, s, lists, hexec, hshaped, hlists, (hall 4096 false hlive).mpr fun p hp x hx => ?_⟩
  have hallocated : p ∈ s.allocated := by
    rw [hshaped.allocated, hx]
    rfl
  exact ⟨htypes p hallocated x hx, rfl⟩

def sharedOps : List ResmanOp :=
  [.connect 1 (some 4096), .register 4096 .sharedMemInfo 500 0 600 (some 8192)]

theorem shared_mem_info_left :
    ¬∀ l s lists, Run resmanStep Proper resManInit l s → Shaped s lists → ∀ cb c,
      (s.contexts c).isSome = true → Lawful s cb → FreesAll s (lists c) cb c false := by
  intro hclaim
  have hsome : ((exec resmanStep resManInit sharedOps).bind fun r =>
      (pvrsrvResManDisconnect (fun _ _ => .done .ok) r.2 4096 false).map fun d =>
        (d.1, (r.2.contexts 4096).isSome)) = some (some 8192, true) := by decide +kernel
  obtain ⟨⟨l, s⟩, hexec, hlook⟩ := Option.bind_eq_some_iff.mp hsome
  obtain ⟨⟨listed, s'⟩, hs', hlook⟩ := Option.map_eq_some_iff.mp hlook
  simp only [Prod.mk.injEq] at hlook
  have hrun := run_of_fresh hexec (by decide +kernel)
  obtain ⟨lists, hshaped⟩ := shaped_run hrun
  obtain ⟨t, new, ht, -⟩ := hclaim l s lists hrun hshaped (fun _ _ => .done .ok) 4096 hlook.2
    fun _ _ => trivial
  rw [hs', hlook.1, Option.some.injEq, Prod.mk.injEq] at ht
  exact nomatch ht.1

end PvrServices.Resman
