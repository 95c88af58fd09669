import PvrServices.ResmanRuns

set_option autoImplicit false

/-!
# The resource manager as a registry

What the rest of the driver relies on: a map from items to their registrations, and callbacks
that are made once for each registration that ends. The callbacks of `devicemem.c` and
`buffer_manager.c` free no other items and the manager touches nothing of theirs, so they may run
after the manager has taken the items off its lists, in the order of its record.
-/
namespace PvrServices.Resman
variable {s s' : ResList} {lists lists' : ℕ → List ℕ} {c p q : ℕ} {σ : Type}

structure Registration where
  context : ℕ
  resType : ResmanType
  pvParam : ℕ
  ui32Param : ℕ
  pfnFreeResource : ℕ
deriving DecidableEq, Repr

abbrev Registry : Type := ℕ → Option Registration

def Registration.call (p : ℕ) (g : Registration) : Call :=
  ⟨p, g.resType, g.pvParam, g.ui32Param, g.pfnFreeResource, false⟩

def ResmanItem.registration (c : ℕ) (x : ResmanItem) : Registration :=
  ⟨c, x.resType, x.pvParam, x.ui32Param, x.pfnFreeResource⟩

def Tracks (s : ResList) (reg : Registry) : Prop :=
  ∃ lists, Shaped s lists ∧ ∀ p g, reg p = some g ↔
    p ∈ lists g.context ∧ (s.items p).map (ResmanItem.registration g.context) = some g

def quiet : Callbacks := fun _ _ => .done .ok

theorem lawful_quiet (s : ResList) : Lawful s quiet := fun _ _ => trivial

theorem registration_congr {o : Option ResmanItem} (o' : Option ResmanItem)
    (h : o.map ResmanItem.payload = o'.map ResmanItem.payload) :
    o.map (ResmanItem.registration c) = o'.map (ResmanItem.registration c) := by
  have hfactor (u : Option ResmanItem) : u.map (ResmanItem.registration c) =
      (u.map ResmanItem.payload).map fun y => ⟨c, y.2.1, y.2.2.1, y.2.2.2.1, y.2.2.2.2⟩ := by
    cases u <;> rfl
  rw [hfactor, hfactor, h]

variable {reg : Registry} {g : Registration}

theorem tracks_init : Tracks resManInit fun _ => none :=
  ⟨_, shaped_init, fun p g => by simp⟩

theorem Tracks.fresh (h : Tracks s reg) (hp : s.items p = none) : reg p = none := by
  obtain ⟨lists, -, hreg⟩ := h
  cases hg : reg p with
  | none => rfl
  | some g =>
    have hx := ((hreg p g).mp hg).2
    rw [hp] at hx
    cases hx

theorem Tracks.connected (h : Tracks s reg) (hp : reg p = some g) :
    (s.contexts g.context).isSome = true := by
  obtain ⟨lists, hshaped, hreg⟩ := h
  exact hshaped.context ((hreg p g).mp hp).1

theorem Tracks.found (h : Tracks s reg) (hp : reg p = some g) :
    resManFindResourceByPtr s g.context p = some .ok := by
  have hc := h.connected hp
  obtain ⟨lists, hshaped, hreg⟩ := h
  obtain ⟨e, he, hiff⟩ := hshaped.findResourceByPtr hc p
  rw [he, hiff.mpr ((hreg p g).mp hp).1]

theorem Tracks.connect (h : Tracks s reg) (hc : s.contexts c = none) (perProc : ℕ) :
    ∃ s', pvrsrvResManConnect s perProc (some c) = some (.ok c, s') ∧ Tracks s' reg := by
  obtain ⟨lists, hshaped, hreg⟩ := h
  obtain ⟨s', hs', hshaped', hitems⟩ := hshaped.connect hc perProc
  refine ⟨s', hs', lists, hshaped', fun p g => ?_⟩
  rw [hitems]
  exact hreg p g

theorem Tracks.register (h : Tracks s reg) (hc : (s.contexts g.context).isSome = true)
    (hp : s.items p = none) : ∃ s', resManRegisterRes s g.context g.resType g.pvParam g.ui32Param
      g.pfnFreeResource (some p) = some (some p, s') ∧
      Tracks s' (Function.update reg p (some g)) := by
  obtain ⟨lists, hshaped, hreg⟩ := h
  have hnone' (q : ℕ) (hq : some p = some q) : s.items q = none := by
    rw [← Option.some.inj hq]
    exact hp
  obtain ⟨s', lists', hs', hshaped', -, hmem, hpayload⟩ := hshaped.register hc hnone' g.resType
    g.pvParam g.ui32Param g.pfnFreeResource
  refine ⟨s', hs', lists', hshaped', fun q k => ?_⟩
  rw [hmem k.context q]
  by_cases hq : q = p
  · rw [hq, Function.update_self]
    have hregistered := (hpayload p).trans (if_pos rfl)
    have hnot : p ∉ lists k.context := fun hpl => by
      obtain ⟨x, hx⟩ := hshaped.item hpl
      rw [hp] at hx
      cases hx
    have hitem : (s'.items p).map (ResmanItem.registration k.context) =
        some { g with context := k.context } :=
      registration_congr (some ⟨.head 0, none, 0, g.resType, g.pvParam, g.ui32Param,
        g.pfnFreeResource⟩) hregistered
    rw [hitem]
    constructor
    · intro hgk
      rw [← Option.some.inj hgk]
      exact ⟨.inr ⟨rfl, rfl⟩, rfl⟩
    · intro hk
      have hkc : k.context = g.context := hk.1.elim (fun hpl => absurd hpl hnot) And.left
      rw [← hk.2, hkc]
  · rw [Function.update_of_ne hq, hreg q k, registration_congr _ ((hpayload q).trans
      (if_neg fun hpq => hq (Option.some.inj hpq).symm))]
    simp [Ne.symm hq]

/-- The callback of a registration is called once when its item is freed. -/
theorem Tracks.freeByPtr (h : Tracks s reg) (hp : reg p = some g) :
    ∃ s', resManFreeResByPtr quiet s p = some s' ∧ s'.calls = s.calls ++ [g.call p] ∧
      Tracks s' (Function.update reg p none) := by
  obtain ⟨lists, hshaped, hreg⟩ := h
  obtain ⟨hpl, hpg⟩ := (hreg p g).mp hp
  obtain ⟨s', lists', new, x, hs', hfreed, hx, -, hquiet⟩ :=
    freesOne_freeResourceByPtr (lawful_quiet s) s.allocated.length false s lists g.context p
      hshaped (fun _ hd => hd) hshaped.atMost hpl
  have hnew := hquiet fun _ _ => ⟨.ok, rfl⟩
  rw [hnew] at hfreed
  have hg : x.registration g.context = g := by
    rw [hx] at hpg
    exact Option.some.inj hpg
  have hgone (d : ℕ) : p ∉ lists' d := by
    obtain ⟨e, he, hnot⟩ := (hfreed.gone p).mp (by simp [callOf])
    intro hpd
    have hde := hshaped.apart p d e ((hfreed.sublist d).subset hpd) he
    exact hnot (hde ▸ hpd)
  have hmem (d q : ℕ) (hq : q ≠ p) : q ∈ lists' d ↔ q ∈ lists d := by
    constructor
    · exact fun hqd => (hfreed.sublist d).subset hqd
    · intro hqd
      by_contra hnot
      have hqp := (hfreed.gone q).mpr ⟨d, hqd, hnot⟩
      exact hq (by simpa [callOf] using hqp)
  refine ⟨s', hs', ?_, lists', hfreed.shaped, fun q k => ?_⟩
  · rw [hfreed.calls, ← hg]
    rfl
  · by_cases hq : q = p
    · rw [hq, Function.update_self]
      simp [hgone]
    · rw [Function.update_of_ne hq, hreg q k, hmem k.context q hq]
      constructor
      · intro hqk
        refine ⟨hqk.1, ?_⟩
        rw [registration_congr _ (hfreed.kept k.context q ((hmem k.context q hq).mpr hqk.1))]
        exact hqk.2
      · intro hqk
        refine ⟨hqk.1, ?_⟩
        rw [← registration_congr _ (hfreed.kept k.context q ((hmem k.context q hq).mpr hqk.1))]
        exact hqk.2

theorem Tracks.freeByPtr_contexts (h : Tracks s reg) (hp : reg p = some g)
    (hs : resManFreeResByPtr quiet s p = some s') (d : ℕ) :
    (s'.contexts d).isSome = (s.contexts d).isSome := by
  obtain ⟨lists, hshaped, hreg⟩ := h
  obtain ⟨u, lists', new, x, hu, hfreed, -⟩ :=
    freesOne_freeResourceByPtr (lawful_quiet s) s.allocated.length false s lists g.context p
      hshaped (fun _ hd => hd) hshaped.atMost ((hreg p g).mp hp).1
  have hsame : s' = u := Option.some.inj (hs.symm.trans hu)
  rw [hsame]
  exact hfreed.context d

theorem Tracks.dissociate (h : Tracks s reg) (hp : reg p = some g) :
    ∃ s', resManDissociateRes s p none = some s' ∧ Tracks s' (Function.update reg p none) ∧
      ∀ d, (s'.contexts d).isSome = (s.contexts d).isSome := by
  obtain ⟨lists, hshaped, hreg⟩ := h
  obtain ⟨hpl, -⟩ := (hreg p g).mp hp
  obtain ⟨x, hx⟩ := hshaped.item hpl
  obtain ⟨s', hs', hshaped', hpayload, hcontexts⟩ := hshaped.drop hpl hx fun _ _ => .done .ok
  refine ⟨s', hs', ⟨_, hshaped', fun q k => ?_⟩, hcontexts⟩
  rw [hshaped.mem_erase hpl]
  by_cases hq : q = p
  · rw [hq, Function.update_self]
    simp
  · rw [Function.update_of_ne hq, hreg q k, registration_congr _ (hpayload q hq)]
    simp [hq]

/-- The end of a process: the callbacks of its registrations are called, each once and type after
    type, but for shared memory, whose items stay behind. -/
theorem Tracks.disconnect (h : Tracks s reg) (hc : (s.contexts c).isSome = true) :
    ∃ listed s', ∃ ended : List (ℕ × Registration),
      pvrsrvResManDisconnect quiet s c false = some (listed, s') ∧
      s'.calls = s.calls ++ ended.map (fun e => e.2.call e.1) ∧ (ended.map Prod.fst).Nodup ∧
      (∀ p g, (p, g) ∈ ended ↔
        reg p = some g ∧ g.context = c ∧ g.resType ≠ .sharedMemInfo) ∧
      (∃ k : ResmanType → ℕ, ended.map (fun e => e.2.resType) =
        disconnectOrder.flatMap fun t => List.replicate (k t) t) ∧
      Tracks s' fun p => (reg p).filter fun g => g.context ≠ c := by
  obtain ⟨lists, hshaped, hreg⟩ := h
  obtain ⟨listed, s', u, lists', new, hs', hfreed, hcalls, hitems, hshaped', -, ⟨k, hk⟩, -,
    hsweep⟩ := hshaped.disconnect (lawful_quiet s) hc false
  obtain ⟨hquiet, hleft⟩ := hsweep rfl
  have hcall := hquiet fun _ _ => ⟨.ok, rfl⟩
  have hregistered (p : ℕ) (x : ResmanItem) (hp : p ∈ lists c) (hx : s.items p = some x) :
      reg p = some (x.registration c) := (hreg p _).mpr ⟨hp, by rw [hx]; rfl⟩
  have hend (call : Call) (hmem : call ∈ new) : ∃ x, s.items call.item = some x ∧
      call.item ∈ lists c ∧ call = (x.registration c).call call.item := by
    obtain ⟨x, hx, heq⟩ := hfreed.recorded call hmem
    obtain ⟨hnested, -, hitem⟩ := hcall call hmem
    rw [hnested] at heq
    exact ⟨x, hx, hitem, heq⟩
  have hother (d q : ℕ) (hd : d ≠ c) : q ∈ lists' d ↔ q ∈ lists d := by
    constructor
    · exact fun hq => (hfreed.sublist d).subset hq
    · intro hq
      by_contra hnot
      obtain ⟨call, hmem, hitem⟩ := List.mem_map.mp ((hfreed.gone q).mpr ⟨d, hq, hnot⟩)
      exact hd (hshaped.apart q d c hq (hitem ▸ (hcall call hmem).2.2))
  let ended := new.map fun call => (call.item, (⟨c, call.resType, call.pvParam, call.ui32Param,
    call.pfnFreeResource⟩ : Registration))
  have hfst : ended.map Prod.fst = new.map Call.item := List.map_map
  refine ⟨listed, s', ended, hs', ?_, by rw [hfst]; exact hfreed.once, ?_, ?_,
    Function.update lists' c [], hshaped', ?_⟩
  · have hmap : ended.map (fun e => e.2.call e.1) = new := by
      rw [List.map_map]
      conv_rhs => rw [← List.map_id new]
      apply List.map_congr_left
      intro call hmem
      obtain ⟨x, -, -, heq⟩ := hend call hmem
      rw [heq]
      rfl
    rw [hmap]
    exact hcalls
  · intro p g
    constructor
    · intro hmem
      obtain ⟨call, hmem, heq⟩ := List.mem_map.mp hmem
      obtain ⟨x, hx, hitem, hcx⟩ := hend call hmem
      obtain ⟨-, htype, -⟩ := hcall call hmem
      rw [Prod.mk.injEq] at heq
      have hg : x.registration c = g := by
        rw [← heq.2, hcx]
        rfl
      rw [← heq.2, ← heq.1]
      refine ⟨?_, rfl, (mem_disconnectOrder _).mp htype⟩
      rw [heq.2, ← hg]
      exact hregistered _ x hitem hx
    · intro hg
      obtain ⟨hpl, hpg⟩ := (hreg p g).mp hg.1
      rw [hg.2.1] at hpl hpg
      obtain ⟨x₀, hx₀, hx₀g⟩ := Option.map_eq_some_iff.mp hpg
      have hnot : p ∉ lists' c := by
        intro hp
        apply hleft p hp x₀ hx₀
        rw [mem_disconnectOrder]
        have htype : x₀.resType = g.resType := congrArg Registration.resType hx₀g
        rw [htype]
        exact hg.2.2
      obtain ⟨call, hmem, hitem⟩ := List.mem_map.mp ((hfreed.gone p).mpr ⟨c, hpl, hnot⟩)
      obtain ⟨x, hx, -, hcx⟩ := hend call hmem
      rw [hitem] at hx hcx
      rw [hx] at hpg
      refine List.mem_map.mpr ⟨call, hmem, ?_⟩
      rw [Prod.mk.injEq]
      refine ⟨hitem, ?_⟩
      rw [hcx, ← Option.some.inj hpg]
      rfl
  · refine ⟨k, ?_⟩
    have hsweep : sweepTypes new = new.map Call.resType := by
      unfold sweepTypes
      rw [List.filter_eq_self.mpr fun call hmem => by rw [(hcall call hmem).1]; rfl]
    rw [← hk, hsweep, List.map_map]
    rfl
  · intro p g
    rw [hitems]
    by_cases hgc : g.context = c
    · rw [hgc, Function.update_self, Option.filter_eq_some_iff]
      simp [hgc]
    · rw [Function.update_of_ne hgc, hother g.context p hgc, Option.filter_eq_some_iff, hreg p g]
      have hkept (hp : p ∈ lists g.context) : (u.items p).map (ResmanItem.registration g.context) =
          (s.items p).map (ResmanItem.registration g.context) :=
        registration_congr _ (hfreed.kept g.context p ((hother g.context p hgc).mpr hp))
      constructor
      · intro hp
        exact ⟨hp.1.1, by rw [hkept hp.1.1]; exact hp.1.2⟩
      · intro hp
        exact ⟨⟨hp.1, by rw [← hkept hp.1]; exact hp.2⟩, by simpa using hgc⟩

variable {callback : Call → σ → Option σ} {h h' : σ}

def runCallbacks (callback : Call → σ → Option σ) : List Call → σ → Option σ
  | [], h => some h
  | call :: calls, h => (callback call h).bind (runCallbacks callback calls)

def freeHosted (callback : Call → σ → Option σ) (s : ResList) (h : σ) (p : ℕ) :
    Option (ResList × σ) := do
  let s' ← resManFreeResByPtr quiet s p
  let h' ← runCallbacks callback (s'.calls.drop s.calls.length) h
  some (s', h')

def disconnectHosted (callback : Call → σ → Option σ) (s : ResList) (h : σ) (c : ℕ) :
    Option (ResList × σ) := do
  let (_, s') ← pvrsrvResManDisconnect quiet s c false
  let h' ← runCallbacks callback (s'.calls.drop s.calls.length) h
  some (s', h')

theorem Tracks.freeHosted_contexts {h' : σ} (ht : Tracks s reg) (hp : reg p = some g)
    (hs : Resman.freeHosted callback s h p = some (s', h')) (d : ℕ) :
    (s'.contexts d).isSome = (s.contexts d).isSome := by
  obtain ⟨u, hu, hrest⟩ := Option.bind_eq_some_iff.mp hs
  obtain ⟨k, -, hk⟩ := Option.bind_eq_some_iff.mp hrest
  have hus : u = s' := (Prod.mk.inj (Option.some.inj hk)).1
  rw [← hus]
  exact ht.freeByPtr_contexts hp hu d

theorem Tracks.freeHosted (ht : Tracks s reg) (hp : reg p = some g)
    (hcall : callback (g.call p) h = some h') :
    ∃ s', Resman.freeHosted callback s h p = some (s', h') ∧
      Tracks s' (Function.update reg p none) := by
  obtain ⟨s', hs', hcalls, ht'⟩ := ht.freeByPtr hp
  refine ⟨s', ?_, ht'⟩
  have hnew : s'.calls.drop s.calls.length = [g.call p] := by rw [hcalls, List.drop_left]
  simp [Resman.freeHosted, hs', hnew, runCallbacks, hcall]

def sweepRank (t : ResmanType) : ℕ := disconnectOrder.idxOf t

theorem sweep_sorted (k : ResmanType → ℕ) :
    (disconnectOrder.flatMap fun t => List.replicate (k t) t).Pairwise
      fun t u => sweepRank t ≤ sweepRank u := by
  rw [List.pairwise_flatMap]
  refine ⟨fun t _ => List.pairwise_replicate.mpr (.inr (Nat.le_refl _)), ?_⟩
  have hsorted : disconnectOrder.Pairwise fun t u => sweepRank t ≤ sweepRank u := by decide
  refine hsorted.imp fun {t u} htu a ha b hb => ?_
  rw [List.eq_of_mem_replicate ha, List.eq_of_mem_replicate hb]
  exact htu

/-- The callbacks of a process run one after the other, none of an earlier type left, and each
    ends its registration. Shared memory stays behind. -/
theorem Tracks.sweepHosted (ht : Tracks s reg) (hc : (s.contexts c).isSome = true)
    (I : Registry → σ → Prop) (h₀ : I reg h)
    (hstep : ∀ reg p g h, I reg h → reg p = some g → g.context = c →
      g.resType ≠ .sharedMemInfo →
      (∀ q k, reg q = some k → k.context = c → k.resType ≠ .sharedMemInfo →
        sweepRank g.resType ≤ sweepRank k.resType) →
      ∃ h', callback (g.call p) h = some h' ∧ I (Function.update reg p none) h') :
    ∃ s' h', Resman.disconnectHosted callback s h c = some (s', h') ∧
      Tracks s' (fun p => (reg p).filter fun g => g.context ≠ c) ∧
      I (fun p => (reg p).filter fun g => ¬(g.context = c ∧ g.resType ≠ .sharedMemInfo)) h' := by
  obtain ⟨listed, s', ended, hs', hcalls, hnodup, hended, ⟨k, hk⟩, ht'⟩ := ht.disconnect hc
  have hsorted : ended.Pairwise fun e f => sweepRank e.2.resType ≤ sweepRank f.2.resType := by
    have hsorted := sweep_sorted k
    rw [← hk] at hsorted
    exact (List.pairwise_map (f := fun e : ℕ × Registration => e.2.resType)).mp hsorted
  have hrun (rest : List (ℕ × Registration)) : ∀ (r : Registry) (h : σ), I r h →
      (rest.map Prod.fst).Nodup →
      (rest.Pairwise fun e f => sweepRank e.2.resType ≤ sweepRank f.2.resType) →
      (∀ p g, (p, g) ∈ rest ↔ r p = some g ∧ g.context = c ∧ g.resType ≠ .sharedMemInfo) →
      ∃ h', runCallbacks callback (rest.map fun e => e.2.call e.1) h = some h' ∧
        I (fun p => (r p).filter fun g => ¬(g.context = c ∧ g.resType ≠ .sharedMemInfo)) h' := by
    induction rest with
    | nil =>
      intro r h hI _ _ hr
      refine ⟨h, rfl, ?_⟩
      have hsame : (fun p => (r p).filter fun g =>
          ¬(g.context = c ∧ g.resType ≠ .sharedMemInfo)) = r := by
        funext p
        cases hp : r p with
        | none => rfl
        | some g =>
          have hgc : ¬(g.context = c ∧ g.resType ≠ .sharedMemInfo) := fun hgc => by
            have := (hr p g).mpr ⟨hp, hgc⟩
            cases this
          rw [Option.filter_some, decide_eq_true hgc, if_pos rfl]
      rw [hsame]
      exact hI
    | cons e rest ih =>
      obtain ⟨p, g⟩ := e
      intro r h hI hnodup hsorted hr
      rw [List.map_cons, List.nodup_cons] at hnodup
      rw [List.pairwise_cons] at hsorted
      obtain ⟨hp, hgc, htype⟩ := (hr p g).mp List.mem_cons_self
      obtain ⟨u, hu, hIu⟩ := hstep r p g h hI hp hgc htype fun q k hq hkc hkt => by
        cases List.mem_cons.mp ((hr q k).mpr ⟨hq, hkc, hkt⟩) with
        | inl heq => exact Nat.le_of_eq (by rw [(Prod.mk.inj heq).2])
        | inr hmem => exact hsorted.1 _ hmem
      obtain ⟨h', hh', hIh'⟩ := ih (Function.update r p none) u hIu hnodup.2 hsorted.2
        fun q k => by
          by_cases hqp : q = p
          · rw [hqp, Function.update_self]
            constructor
            · exact fun hmem => absurd (List.mem_map_of_mem (f := Prod.fst) hmem) hnodup.1
            · intro hmem
              cases hmem.1
          · rw [Function.update_of_ne hqp, ← hr q k]
            simp [hqp]
      refine ⟨h', by simp [runCallbacks, hu, hh'], ?_⟩
      have hsame : (fun q => (Function.update r p none q).filter fun g =>
            ¬(g.context = c ∧ g.resType ≠ .sharedMemInfo)) =
          fun q => (r q).filter fun g => ¬(g.context = c ∧ g.resType ≠ .sharedMemInfo) := by
        funext q
        by_cases hqp : q = p
        · rw [hqp, hp]
          simp [Option.filter, hgc, htype]
        · rw [Function.update_of_ne hqp]
      rw [← hsame]
      exact hIh'
  obtain ⟨h', hh', hI⟩ := hrun ended reg h h₀ hnodup hsorted hended
  refine ⟨s', h', ?_, ht', hI⟩
  have hnew : s'.calls.drop s.calls.length = ended.map fun e => e.2.call e.1 := by
    rw [hcalls, List.drop_left]
  simp [Resman.disconnectHosted, hs', hnew, hh']

theorem Tracks.disconnectHosted (ht : Tracks s reg) (hc : (s.contexts c).isSome = true)
    (htypes : ∀ p g, reg p = some g → g.context = c → g.resType ≠ .sharedMemInfo)
    (I : Registry → σ → Prop) (h₀ : I reg h)
    (hstep : ∀ reg p g h, I reg h → reg p = some g → g.context = c →
      (∀ q k, reg q = some k → k.context = c → sweepRank g.resType ≤ sweepRank k.resType) →
      ∃ h', callback (g.call p) h = some h' ∧ I (Function.update reg p none) h') :
    ∃ s' h', Resman.disconnectHosted callback s h c = some (s', h') ∧
      Tracks s' (fun p => (reg p).filter fun g => g.context ≠ c) ∧
      I (fun p => (reg p).filter fun g => g.context ≠ c) h' := by
  let J (r : Registry) (h : σ) : Prop :=
    I r h ∧ ∀ p g, r p = some g → g.context = c → g.resType ≠ .sharedMemInfo
  obtain ⟨s', h', hs', ht', hJ, -⟩ := ht.sweepHosted hc J ⟨h₀, htypes⟩
    fun r p g h hI hp hgc _ hleast => by
      obtain ⟨u, hu, hIu⟩ := hstep r p g h hI.1 hp hgc fun q k hq hkc =>
        hleast q k hq hkc (hI.2 q k hq hkc)
      refine ⟨u, hu, hIu, fun q k hq => ?_⟩
      by_cases hqp : q = p
      · rw [hqp, Function.update_self] at hq
        cases hq
      · rw [Function.update_of_ne hqp] at hq
        exact hI.2 q k hq
  refine ⟨s', h', hs', ht', ?_⟩
  have hsame : (fun p => (reg p).filter fun g => g.context ≠ c) =
      fun p => (reg p).filter fun g => ¬(g.context = c ∧ g.resType ≠ .sharedMemInfo) := by
    funext p
    cases hp : reg p with
    | none => rfl
    | some g =>
      have hiff : g.context ≠ c ↔ ¬(g.context = c ∧ g.resType ≠ .sharedMemInfo) :=
        ⟨fun hgc hboth => hgc hboth.1, fun hnot hgc => hnot ⟨hgc, htypes p g hp hgc⟩⟩
      simp only [Option.filter_some, decide_eq_true_eq, hiff]
  rw [hsame]
  exact hJ

end PvrServices.Resman
