import PvrServices.ResmanLists

set_option autoImplicit false

/-!
# What a free calls

`Freed` is what any nest of frees comes to: the items that leave the lists are the ones whose
callbacks are called, each once. It composes, so it follows the callbacks however deep they go.
-/
namespace PvrServices.Resman
open LinkedChain
variable {s s' u : ResList} {lists lists' lists'' : ℕ → List ℕ} {c d p q n : ℕ}
  {x y : ResmanItem} {new new' : List Call} {cb : Callbacks} {live : ℕ → Prop}

structure Freed (s s' : ResList) (lists lists' : ℕ → List ℕ) (new : List Call) : Prop where
  shaped : Shaped s' lists'
  calls : s'.calls = s.calls ++ new
  sublist : ∀ c, (lists' c).Sublist (lists c)
  gone : ∀ p, p ∈ new.map Call.item ↔ ∃ c, p ∈ lists c ∧ p ∉ lists' c
  once : (new.map Call.item).Nodup
  recorded : ∀ call ∈ new, ∃ x, s.items call.item = some x ∧
    call = callOf call.item x call.nested
  kept : ∀ c, ∀ p ∈ lists' c,
    (s'.items p).map ResmanItem.payload = (s.items p).map ResmanItem.payload
  frame : ∀ p, (∀ c, p ∉ lists c) → s'.items p = s.items p
  links : ∀ c, (s'.contexts c).map ResmanContext.links = (s.contexts c).map ResmanContext.links

theorem Freed.refl (h : Shaped s lists) : Freed s s lists lists [] where
  shaped := h
  calls := (List.append_nil _).symm
  sublist := fun _ => List.Sublist.refl _
  gone := fun _ => ⟨nofun, fun ⟨_, hp, hnot⟩ => absurd hp hnot⟩
  once := List.nodup_nil
  recorded := nofun
  kept := fun _ _ _ => rfl
  frame := fun _ _ => rfl
  links := fun _ => rfl

theorem callOf_payload {x y : ResmanItem} (h : x.payload = y.payload) (nested : Bool) :
    callOf p x nested = callOf p y nested := by
  simp only [ResmanItem.payload, Prod.mk.injEq] at h
  obtain ⟨-, h₁, h₂, h₃, h₄⟩ := h
  unfold callOf
  rw [h₁, h₂, h₃, h₄]

theorem payload_some (h : (s'.items p).map ResmanItem.payload = (s.items p).map ResmanItem.payload)
    (hy : s'.items p = some y) : ∃ x, s.items p = some x ∧ y.payload = x.payload := by
  rw [hy, Option.map_some, eq_comm, Option.map_eq_some_iff] at h
  obtain ⟨x, hx, hxy⟩ := h
  exact ⟨x, hx, hxy.symm⟩

theorem Freed.trans (hs : Shaped s lists) (h : Freed s u lists lists' new)
    (h' : Freed u s' lists' lists'' new') : Freed s s' lists lists'' (new ++ new') where
  shaped := h'.shaped
  calls := by rw [h'.calls, h.calls, List.append_assoc]
  sublist := fun c => (h'.sublist c).trans (h.sublist c)
  gone := by
    intro p
    rw [List.map_append, List.mem_append, h.gone p, h'.gone p]
    constructor
    · rintro (⟨c, hp, hnot⟩ | ⟨c, hp, hnot⟩)
      · exact ⟨c, hp, fun hmem => hnot ((h'.sublist c).subset hmem)⟩
      · exact ⟨c, (h.sublist c).subset hp, hnot⟩
    · rintro ⟨c, hp, hnot⟩
      by_cases hmid : p ∈ lists' c
      · exact .inr ⟨c, hmid, hnot⟩
      · exact .inl ⟨c, hp, hmid⟩
  once := by
    rw [List.map_append, List.nodup_append]
    refine ⟨h.once, h'.once, fun p hp q hq hpq => ?_⟩
    rw [← hpq] at hq
    obtain ⟨c, hc, hnot⟩ := (h.gone p).mp hp
    obtain ⟨d, hd, -⟩ := (h'.gone p).mp hq
    rw [hs.apart p c d hc ((h.sublist d).subset hd)] at hnot
    exact hnot hd
  recorded := by
    intro call hcall
    cases List.mem_append.mp hcall with
    | inl hcall => exact h.recorded call hcall
    | inr hcall =>
      obtain ⟨y, hy, heq⟩ := h'.recorded call hcall
      obtain ⟨c, hc, -⟩ := (h'.gone call.item).mp (List.mem_map_of_mem hcall)
      obtain ⟨x, hx, hpay⟩ := payload_some (h.kept c _ hc) hy
      exact ⟨x, hx, heq.trans (callOf_payload hpay _)⟩
  kept := fun c p hp => (h'.kept c p hp).trans (h.kept c p ((h'.sublist c).subset hp))
  frame := fun p hp => (h'.frame p fun c hc => hp c ((h.sublist c).subset hc)).trans (h.frame p hp)
  links := fun c => (h'.links c).trans (h.links c)

theorem Freed.context (h : Freed s s' lists lists' new) (c : ℕ) :
    (s'.contexts c).isSome = (s.contexts c).isSome := isSome_of_links (h.links c)

theorem Freed.atMost (h : Freed s s' lists lists' new) (hn : AtMost lists n) : AtMost lists' n :=
  hn.sublist fun c => (h.sublist c).subset

theorem findItem_chain (accepts : ℕ → ResmanItem → Bool) {loc : Loc ℕ ℕ} {l : List ℕ}
    (h : Chain (itemCells s) loc l) (hn : l.length ≤ n) :
    (∃ p x, p ∈ l ∧ s.items p = some x ∧ accepts p x = true ∧
      findItem s accepts n ((itemCells s).deref loc) = some (some p)) ∨
    (∀ p ∈ l, ∀ x, s.items p = some x → accepts p x = false) ∧
      findItem s accepts n ((itemCells s).deref loc) = some none := by
  induction l generalizing loc n with
  | nil =>
    rw [show (itemCells s).deref loc = none from h]
    exact .inr ⟨nofun, by cases n <;> rfl⟩
  | cons p l ih =>
    rw [h.1]
    cases n with
    | zero => simp at hn
    | succ n =>
      have hthis := h.2.1
      obtain ⟨x, hx, -⟩ := Option.map_eq_some_iff.mp hthis
      have hnext : (itemCells s).deref (.next p) = x.psNext := by
        simp [Cells.deref, itemCells, hx]
      cases ha : accepts p x with
      | true =>
        exact .inl ⟨p, x, List.mem_cons_self, hx, ha, by simp [findItem, hx, ha]⟩
      | false =>
        have hstep : findItem s accepts (n + 1) (some p) = findItem s accepts n x.psNext := by
          simp [findItem, hx, ha]
        rw [hstep, ← hnext]
        rw [List.length_cons, Nat.succ_le_succ_iff] at hn
        cases ih h.2.2 hn with
        | inl hfound =>
          obtain ⟨q, y, hq, hy, hay, hfind⟩ := hfound
          exact .inl ⟨q, y, List.mem_cons_of_mem _ hq, hy, hay, hfind⟩
        | inr hnone =>
          refine .inr ⟨fun q hq y hy => ?_, hnone.2⟩
          cases List.mem_cons.mp hq with
          | inl hq =>
            rw [hq, hx, Option.some.injEq] at hy
            rw [hq, ← hy]
            exact ha
          | inr hq => exact hnone.1 q hq y hy

theorem Shaped.findItem (h : Shaped s lists) {ctx : ResmanContext} (hc : s.contexts c = some ctx)
    (accepts : ℕ → ResmanItem → Bool) :
    (∃ p x, p ∈ lists c ∧ s.items p = some x ∧ accepts p x = true ∧
      findItem s accepts s.allocated.length ctx.resItemList = some (some p)) ∨
    (∀ p ∈ lists c, ∀ x, s.items p = some x → accepts p x = false) ∧
      findItem s accepts s.allocated.length ctx.resItemList = some none := by
  have hchain := h.chain c (by rw [hc]; rfl)
  have hhead : (itemCells s).deref (.head c) = ctx.resItemList := by
    simp [Cells.deref, itemCells, hc]
  have hfind := findItem_chain accepts hchain (h.atMost.length_le hchain.nodup)
  rwa [hhead] at hfind

theorem Shaped.findResByCrit (h : Shaped s lists) (hc : (s.contexts c).isSome = true)
    (crit : Criteria) :
    (∃ p x, p ∈ lists c ∧ s.items p = some x ∧ crit.accepts x = true ∧
      findResByCrit s c crit = some (some p)) ∨
    (∀ p ∈ lists c, ∀ x, s.items p = some x → crit.accepts x = false) ∧
      findResByCrit s c crit = some none := by
  obtain ⟨ctx, hctx⟩ := Option.isSome_iff_exists.mp hc
  have hdef : Resman.findResByCrit s c crit =
      Resman.findItem s (fun _ x => crit.accepts x) s.allocated.length ctx.resItemList := by
    unfold Resman.findResByCrit
    rw [hctx]
    rfl
  rw [hdef]
  exact h.findItem hctx fun _ x => crit.accepts x

theorem Shaped.findResourceByPtr (h : Shaped s lists) (hc : (s.contexts c).isSome = true)
    (p : ℕ) : ∃ e, resManFindResourceByPtr s c p = some e ∧ (e = .ok ↔ p ∈ lists c) := by
  obtain ⟨ctx, hctx⟩ := Option.isSome_iff_exists.mp hc
  unfold resManFindResourceByPtr
  simp only [hctx, Option.bind_eq_bind, Option.bind_some]
  cases h.findItem hctx (fun q _ => q = p) with
  | inl hfound =>
    obtain ⟨q, y, hq, -, hqp, hfind⟩ := hfound
    rw [of_decide_eq_true hqp] at hq
    exact ⟨.ok, by rw [hfind]; rfl, fun _ => hq, fun _ => rfl⟩
  | inr hnone =>
    refine ⟨.errorNotOwner, by rw [hnone.2]; rfl, nofun, fun hp => ?_⟩
    obtain ⟨y, hy⟩ := h.item hp
    have hno := hnone.1 p hp y hy
    simp at hno

theorem Shaped.freeItem (h : Shaped s lists) (hp : ∀ c, p ∉ lists c) (hx : s.items p = some x) :
    ∃ s', s.freeItem p = some s' ∧ Shaped s' lists ∧ s'.calls = s.calls ∧
      (∀ q, q ≠ p → s'.items q = s.items q) ∧ s'.contexts = s.contexts := by
  have hother (q : ℕ) (hq : q ≠ p) : Function.update s.items p none q = s.items q :=
    Function.update_of_ne hq ..
  have hne (c q : ℕ) (hq : q ∈ lists c) : q ≠ p := fun hqp => hp c (hqp ▸ hq)
  refine ⟨⟨Function.update s.items p none, s.contexts, s.contextList, s.allocated.erase p,
    s.calls⟩, by simp [ResList.freeItem, hx], ?_, rfl, hother, rfl⟩
  constructor
  case chain =>
    intro c hc
    apply (h.chain c hc).congr
    case hloc => rfl
    case hnext =>
      intro q hq
      simp [itemCells, hne c q hq]
    case hthis =>
      intro q hq
      simp [itemCells, hne c q hq]
  case dead => exact h.dead
  case apart => exact h.apart
  case allocated =>
    intro q
    rw [h.allocNodup.mem_erase_iff, h.allocated q]
    by_cases hq : q = p
    · simp [hq]
    · simp [hq]
  case allocNodup => exact h.allocNodup.erase p
  case contexts => exact h.contexts

/-- The contexts that a callback names are among the given ones. -/
def Script.Names (live : ℕ → Prop) : Script → Prop
  | .done _ => True
  | .free (.byPtr c _) next => live c ∧ ∀ calls, (next calls).Names live
  | .free (.byCriteria c _) next => live c ∧ ∀ calls, (next calls).Names live

/-- A way to free one item at a time, among at most `n` listed ones. -/
def FreesOne (cb : Callbacks) (live : ℕ → Prop) (free : ResList → ℕ → Option ResList) (n : ℕ)
    (nested : Bool) : Prop :=
  ∀ s lists c p, Shaped s lists → (∀ d, live d → (s.contexts d).isSome = true) →
    AtMost lists n → p ∈ lists c → ∃ s' lists' new x,
    free s p = some s' ∧ Freed s s' lists lists' (callOf p x nested :: new) ∧
    s.items p = some x ∧ (∀ call ∈ new, call.nested = true) ∧
    ((∀ p calls, ∃ e, cb p calls = .done e) → new = [])

/-- The items that the criteria accept are freed, with what their callbacks free. -/
def FreesAccepted (cb : Callbacks) (crit : Criteria) (nested : Bool) (c : ℕ) (s : ResList)
    (lists : ℕ → List ℕ) (r : Option (ℕ × ResList)) : Prop :=
  ∃ freed s' lists' new, r = some (freed, s') ∧ Freed s s' lists lists' new ∧
    (∀ call ∈ new, call.nested = true ∨ call.nested = nested ∧ call.item ∈ lists c ∧
      ∃ x, s.items call.item = some x ∧ crit.accepts x = true) ∧
    ((∀ p calls, ∃ e, cb p calls = .done e) → ∀ call ∈ new, call.nested = nested) ∧
    ∀ p ∈ lists' c, ∀ x, s'.items p = some x → crit.accepts x = false

theorem FreesOne.whileFound {free : ResList → ℕ → Option ResList} {nested : Bool}
    (hfree : FreesOne cb live free n nested) (crit : Criteria) {m : ℕ} (h : Shaped s lists)
    (hlive : ∀ d, live d → (s.contexts d).isSome = true) (hn : AtMost lists n)
    (hc : (s.contexts c).isSome = true) (hm : (lists c).length < m) :
    FreesAccepted cb crit nested c s lists (freeWhileFound free c crit m s) := by
  induction m generalizing s lists with
  | zero => omega
  | succ m ih =>
    cases h.findResByCrit hc crit with
    | inr hnone =>
      refine ⟨0, s, lists, [], ?_, .refl h, nofun, fun _ => nofun, hnone.1⟩
      simp [freeWhileFound, hnone.2]
    | inl hfound =>
      obtain ⟨p, y, hp, hy, hacc, hfind⟩ := hfound
      obtain ⟨u, lists', new, x, hu, hfreed, hx, hnest, hquiet⟩ := hfree s lists c p h hlive hn hp
      have hgone : p ∉ lists' c := by
        obtain ⟨d, hd, hnot⟩ := (hfreed.gone p).mp (by simp [callOf])
        rw [h.apart p c d hp hd]
        exact hnot
      have hshort : (lists' c).length < m := by
        have hsub := hfreed.sublist c
        have hlt : (lists' c).length ≠ (lists c).length := fun hlen =>
          hgone (by rw [hsub.eq_of_length hlen]; exact hp)
        have := hsub.length_le
        omega
      obtain ⟨freed, s', lists'', new', hs', hfreed', hcalls, hquiet', hleft⟩ :=
        ih hfreed.shaped (fun d hd => by rw [hfreed.context]; exact hlive d hd)
          (hfreed.atMost hn) (by rw [hfreed.context]; exact hc) hshort
      refine ⟨freed + 1, s', lists'', callOf p x nested :: new ++ new', ?_, hfreed.trans h hfreed',
        ?_, ?_, hleft⟩
      · simp [freeWhileFound, hfind, hu, hs']
      · intro call hcall
        cases List.mem_append.mp hcall with
        | inl hcall =>
          cases List.mem_cons.mp hcall with
          | inl heq =>
            rw [heq]
            exact .inr ⟨rfl, hp, y, hy, hacc⟩
          | inr hcall => exact .inl (hnest call hcall)
        | inr hcall =>
          cases hcalls call hcall with
          | inl hc => exact .inl hc
          | inr hc =>
            obtain ⟨hnested, hzc, z, hz, hzacc⟩ := hc
            obtain ⟨d, hd, -⟩ := (hfreed'.gone call.item).mp (List.mem_map_of_mem hcall)
            obtain ⟨w, hw, hpay⟩ := payload_some (hfreed.kept d _ hd) hz
            refine .inr ⟨hnested, (hfreed.sublist c).subset hzc, w, hw, ?_⟩
            simp only [ResmanItem.payload, Prod.mk.injEq] at hpay
            unfold Criteria.accepts at hzacc ⊢
            rw [← hpay.2.1, ← hpay.2.2.1, ← hpay.2.2.2.1]
            exact hzacc
      · intro hq call hcall
        rw [hquiet hq] at hcall
        cases List.mem_append.mp hcall with
        | inl hcall =>
          rw [List.mem_singleton.mp hcall]
          rfl
        | inr hcall => exact hquiet' hq call hcall

theorem FreesOne.byCriteria {free : ResList → ℕ → Option ResList} {nested : Bool}
    (hfree : FreesOne cb live free n nested) (crit : Criteria) (h : Shaped s lists)
    (hlive : ∀ d, live d → (s.contexts d).isSome = true) (hn : AtMost lists n)
    (hc : (s.contexts c).isSome = true) :
    FreesAccepted cb crit nested c s lists (freeResourceByCriteria free s c crit) := by
  have hlen := h.atMost.length_le (h.chain c hc).nodup
  exact hfree.whileFound crit h hlive hn hc (by omega)

theorem FreesOne.script {free : ResList → ℕ → Option ResList}
    (hfree : FreesOne cb live free n true) (script : Script) (hnames : script.Names live)
    (h : Shaped s lists) (hlive : ∀ d, live d → (s.contexts d).isSome = true)
    (hn : AtMost lists n) : ∃ s' lists' new, runScript free script s = some s' ∧
      Freed s s' lists lists' new ∧ (∀ call ∈ new, call.nested = true) ∧
      ((∃ e, script = .done e) → new = []) := by
  induction script generalizing s lists with
  | done e => exact ⟨s, lists, [], rfl, .refl h, nofun, fun _ => rfl⟩
  | free r next ih =>
    have hskip (t : ResList) (m : ℕ → List ℕ) (old : List Call) (ht : Freed s t lists m old)
        (hold : ∀ call ∈ old, call.nested = true) (hnext : (next t.calls).Names live) :
        ∃ s' lists' new, runScript free (next t.calls) t = some s' ∧
          Freed s s' lists lists' new ∧ (∀ call ∈ new, call.nested = true) ∧
          ((∃ e, Script.free r next = .done e) → new = []) := by
      obtain ⟨s', lists', new, hs', hfreed, hnested, -⟩ := ih t.calls hnext ht.shaped
        (fun d hd => by rw [ht.context]; exact hlive d hd) (ht.atMost hn)
      refine ⟨s', lists', old ++ new, hs', ht.trans h hfreed, fun call hcall => ?_, nofun⟩
      exact (List.mem_append.mp hcall).elim (hold call) (hnested call)
    cases r with
    | byPtr c p =>
      obtain ⟨e, he, hmem⟩ := h.findResourceByPtr (hlive c hnames.1) p
      by_cases hok : e = .ok
      · obtain ⟨t, m, new, x, ht, hfreed, -, hnested, -⟩ :=
          hfree s lists c p h hlive hn (hmem.mp hok)
        obtain ⟨s', lists', new', hs', hrest⟩ := hskip t m _ hfreed
          (fun call hcall => (List.mem_cons.mp hcall).elim (fun hc => by rw [hc]; rfl)
            (hnested call)) (hnames.2 _)
        exact ⟨s', lists', new', by simp [runScript, he, hok, ht, hs'], hrest⟩
      · obtain ⟨s', lists', new', hs', hrest⟩ := hskip s lists [] (.refl h) nofun (hnames.2 _)
        exact ⟨s', lists', new', by simp [runScript, he, hok, hs'], hrest⟩
    | byCriteria c crit =>
      obtain ⟨freed, t, m, new, ht, hfreed, hcalls, -, -⟩ :=
        hfree.byCriteria crit h hlive hn (hlive c hnames.1)
      obtain ⟨s', lists', new', hs', hrest⟩ := hskip t m new hfreed
        (fun call hcall => (hcalls call hcall).elim id fun hc => hc.1) (hnames.2 _)
      exact ⟨s', lists', new', by simp [runScript, ht, hs'], hrest⟩

/-- `FreeResourceByPtr` answers if it may go as deep as there are listed items. -/
theorem freesOne_freeResourceByPtr (hnames : ∀ p calls, (cb p calls).Names live) (n : ℕ)
    (nested : Bool) : FreesOne cb live (freeResourceByPtr cb true (n + 1) nested) n nested := by
  induction n generalizing nested with
  | zero =>
    intro s lists c p h hlive hn hp
    have := hn [p] (List.nodup_singleton p) fun q hq => ⟨c, by rw [List.mem_singleton.mp hq]; exact hp⟩
    simp at this
  | succ n ih =>
    intro s lists c p h hlive hn hp
    obtain ⟨x, hx⟩ := h.item hp
    obtain ⟨t, ht, hsame, hshaped, hframe⟩ := h.unlink hp hx
    have hmem := h.mem_erase hp
    have hgone := h.not_mem_erase hp
    have hsub (d : ℕ) : (Function.update lists c ((lists c).erase p) d).Sublist (lists d) := by
      by_cases hd : d = c
      · rw [hd, Function.update_self]
        exact List.erase_sublist
      · rw [Function.update_of_ne hd]
    -- the call is on record before the callback makes its own
    let t' : ResList := { t with calls := t.calls ++ [callOf p x nested] }
    have hshaped' : Shaped t' (Function.update lists c ((lists c).erase p)) :=
      ⟨hshaped.chain, hshaped.dead, hshaped.apart, hshaped.allocated, hshaped.allocNodup,
        hshaped.contexts⟩
    obtain ⟨u, lists', new, hu, hfreed, hnested, hquiet⟩ :=
      (ih true).script (cb p t'.calls) (hnames _ _) hshaped'
        (fun d hd => by
          rw [show t'.contexts = t.contexts from rfl, isSome_of_links (hsame.links d)]
          exact hlive d hd)
        (hn.remove (fun d => (hsub d).subset) hp hgone)
    have hpu : u.items p = some x := by
      rw [hfreed.frame p hgone, ← hx]
      exact hframe p (.inr rfl)
    have hpgone (d : ℕ) : p ∉ lists' d := fun hpd => hgone d ((hfreed.sublist d).subset hpd)
    obtain ⟨s', hs', hfinal, hcalls, hitems, hcontexts⟩ := hfreed.shaped.freeItem hpgone hpu
    have hnew : p ∉ new.map Call.item := fun hpn => by
      obtain ⟨d, hd, -⟩ := (hfreed.gone p).mp hpn
      exact hgone d hd
    refine ⟨s', lists', new, x, ?_, ?_, hx, hnested, fun hq => hquiet (hq _ _)⟩
    · have hu' : runScript (freeResourceByPtr cb true (n + 1) true)
          (cb p (t.calls ++ [callOf p x nested])) t' = some u := hu
      rw [freeResourceByPtr]
      simp only [hx, ht, Option.bind_eq_bind, Option.bind_some, if_true]
      rw [hu']
      exact hs'
    · constructor
      case shaped => exact hfinal
      case calls =>
        rw [hcalls, hfreed.calls, ← hsame.calls]
        simp [t']
      case sublist => exact fun d => (hfreed.sublist d).trans (hsub d)
      case gone =>
        intro q
        rw [List.map_cons, List.mem_cons, hfreed.gone q]
        constructor
        · rintro (hq | ⟨d, hd, hnot⟩)
          · exact ⟨c, by rw [hq]; exact hp, by rw [hq]; exact hpgone c⟩
          · exact ⟨d, ((hmem d q).mp hd).1, hnot⟩
        · rintro ⟨d, hd, hnot⟩
          by_cases hq : q = p
          · exact .inl hq
          · exact .inr ⟨d, (hmem d q).mpr ⟨hd, hq⟩, hnot⟩
      case once =>
        rw [List.map_cons, List.nodup_cons]
        exact ⟨hnew, hfreed.once⟩
      case recorded =>
        intro call hcall
        cases List.mem_cons.mp hcall with
        | inl hc => exact ⟨x, by rw [hc]; exact hx, by rw [hc]; rfl⟩
        | inr hc =>
          obtain ⟨y, hy, heq⟩ := hfreed.recorded call hc
          obtain ⟨z, hz, hpay⟩ := payload_some (hsame.payload call.item) hy
          exact ⟨z, hz, heq.trans (callOf_payload hpay _)⟩
      case kept =>
        intro d q hq
        have hqp : q ≠ p := fun hqp => hpgone d (hqp ▸ hq)
        rw [hitems q hqp, hfreed.kept d q hq]
        exact hsame.payload q
      case frame =>
        intro q hq
        have hqp : q ≠ p := fun hqp => hq c (by rw [hqp]; exact hp)
        rw [hitems q hqp, hfreed.frame q fun d hd => hq d ((hmem d q).mp hd).1]
        exact hframe q (.inl hq)
      case links =>
        intro d
        rw [hcontexts, hfreed.links d]
        exact hsame.links d

end PvrServices.Resman
