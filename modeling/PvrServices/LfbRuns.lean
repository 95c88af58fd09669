import PvrServices.LfbDevice

set_option autoImplicit false

/-!
# The swap chain of the frame buffer over whole runs

The device points to a complete swap chain or to none, and its notifier is registered exactly while
it points to one. A creation that fails in `fb_register_client` leaves the pointer behind, and a
destruction that fails in `fb_unregister_client` leaves the notifier.
-/
namespace PvrServices.Lfb
open Words Runs

variable {s t : Device} {c : CreateCall} {p q n i : ℕ} {bs : List Buffer} {r : Answer} {op : Op}

/-- The `i`-th of `n` buffers at `psBuffer`, in a ring. -/
def ringBuffer (f : FbInfo) (syncData : List ℕ) (psBuffer n i : ℕ) : Buffer :=
  ⟨u32 (f.sSysAddr + u32 (i * f.roundedBufferSize)),
    u32 (f.sCPUVAddr + u32 (i * f.roundedBufferSize)), syncData.getD i 0,
    bufferAddr psBuffer ((i + 1) % n)⟩

def Answer.error : Answer → Option PvrsrvError
  | .returned (.error e) => some e
  | _ => none

theorem answer_of_error {e : PvrsrvError} (h : r.error = some e) : r = .returned (.error e) := by
  unfold Answer.error at h
  split at h
  · rw [Option.some.inj h]
  · cases h

/-- As many buffers as the chain says, in a ring, each with its sync data and its part of the frame
    buffer. -/
def CompleteBuffers (x : SwapChain) (bs : List Buffer) : Prop :=
  ∃ f syncData, bs.length = x.bufferCount ∧ 0 < x.bufferCount ∧
    ∀ i, i < x.bufferCount → bs[i]? = some (ringBuffer f syncData x.psBuffer x.bufferCount i)

def Complete (s : Device) : Prop :=
  ∃ x bs, s.chains s.psSwapChain = some x ∧ s.buffers x.psBuffer = some bs ∧ CompleteBuffers x bs

/-- A loop works on the buffers below its bound: by induction on the bound. -/
theorem forBuffers_getElem? {body : ℕ → Buffer → Buffer} (j : ℕ) :
    (forBuffers body n bs)[j]? = bs[j]?.map fun b => if j < n then body j b else b := by
  induction n with
  | zero =>
    unfold forBuffers
    simp
  | succ n ih =>
    unfold forBuffers
    rw [List.getElem?_modify, ih]
    cases bs[j]? with
    | none => rfl
    | some b =>
      apply congrArg some
      dsimp only [Option.map_some]
      by_cases hj : n = j
      · have hlt : ¬j < n := by omega
        have hlt' : j < n + 1 := by omega
        rw [if_pos hj, if_neg hlt, if_pos hlt', hj]
      · have hiff : j < n + 1 ↔ j < n := by omega
        rw [if_neg hj, if_congr hiff rfl rfl]

theorem forBuffers_length {body : ℕ → Buffer → Buffer} :
    (forBuffers body n bs).length = bs.length := by
  induction n with
  | zero => rfl
  | succ n ih =>
    unfold forBuffers
    rw [List.length_modify, ih]

theorem makeBuffers_complete (f : FbInfo) (hn : 0 < c.bufferCount) :
    CompleteBuffers ⟨c.bufferCount, q, false⟩ (makeBuffers f c q) := by
  refine ⟨f, c.syncData, ?_, hn, fun i hi => ?_⟩
  · unfold makeBuffers
    rw [forBuffers_length, List.length_modify, forBuffers_length, List.length_replicate]
  · dsimp only at hi ⊢
    unfold makeBuffers
    rw [forBuffers_getElem?, List.getElem?_modify, forBuffers_getElem?,
      List.getElem?_replicate, if_pos hi]
    apply congrArg some
    dsimp only [Option.map_some]
    by_cases hlast : c.bufferCount - 1 = i
    · have hmod : (i + 1) % c.bufferCount = 0 := by
        rw [show i + 1 = c.bufferCount by omega, Nat.mod_self]
      rw [if_pos hi, if_pos hlast]
      unfold fillBuffer ringBuffer
      rw [hmod]
    · have hlt : i < c.bufferCount - 1 := by omega
      have hmod : (i + 1) % c.bufferCount = i + 1 := Nat.mod_eq_of_lt (by omega)
      rw [if_pos hi, if_neg hlast, if_pos hlt]
      unfold fillBuffer ringBuffer linkBuffer
      rw [hmod]

def Settled (s : Device) : Option (Op × Answer) → Prop
  | some (.create _, .returned (.error _)) => s.psSwapChain = 0
  | some (.destroy .., .returned (.ok _)) => s.psSwapChain = 0
  | _ => True

/-- The device has a complete chain or none, and a call or an event that comes next finds it. -/
structure Sound (s : Device) (last : Option (Op × Answer)) : Prop where
  chain : s.psSwapChain = 0 ∨ Complete s
  settled : Settled s last
  finds : ∀ op r t, step s op = some (r, t) → ∀ e, r ≠ .fault e

/-- The notifier is registered exactly while there is a chain. -/
structure Kept (s : Device) : Prop where
  running : s.halted = false
  null : s.chains 0 = none
  registered : s.notified = true ↔ s.psSwapChain ≠ 0
  complete : s.psSwapChain ≠ 0 → Complete s

def CreateCall.Reaches (c : CreateCall) (s : Device) : Prop :=
  createError s c = none ∧ c.chain ≠ none ∧ c.buffer ≠ none

/-- No creation while there is a chain, and no failure of the calls for the notifier. -/
def Good (s : Device) : Op → Prop
  | .create c => s.psSwapChain = 0 ∧ (c.Reaches s → c.registered = true)
  | .destroy hDevice p unregistered =>
    hDevice = true → p ≠ 0 → p = s.psSwapChain → unregistered = true
  | _ => True

theorem setBlanked_spec (hs : Complete s) (b : Bool) :
    ∃ t, setBlanked s b = .ok t ∧ t = { s with chains := t.chains } ∧ Complete t ∧
      ∀ q, q ≠ s.psSwapChain → t.chains q = s.chains q := by
  obtain ⟨x, bs, hx, hbs, f, syncData, hall⟩ := hs
  let t : Device := { s with
    chains := Function.update s.chains s.psSwapChain (some { x with bBlanked := b }) }
  refine ⟨t, ?_, rfl, ⟨{ x with bBlanked := b }, bs, Function.update_self _ _ _, hbs, f, syncData,
    hall⟩, fun q hq => Function.update_of_ne hq _ _⟩
  unfold setBlanked
  rw [hx]
  rfl

inductive CreateEnds (s : Device) (c : CreateCall) : Answer → Device → Prop where
  | early {e : PvrsrvError} (how : ¬c.Reaches s) : CreateEnds s c (.returned (.error e)) s
  | failed {e : PvrsrvError} {t : Device} (how : c.Reaches s) (none : s.psSwapChain = 0)
      (registered : c.registered = false) (left : t.psSwapChain ≠ 0) :
      CreateEnds s c (.returned (.error e)) t
  | done {p : ℕ} {t : Device} (how : c.Reaches s) (none : s.psSwapChain = 0)
      (registered : c.registered = true) (ht : Kept t) : CreateEnds s c (.returned (.ok p)) t

theorem createError_none (h : createError s c = none) : s.psSwapChain = 0 := by
  unfold createError at h
  split at h
  · cases h
  · split at h
    · cases h
    · split at h
      · cases h
      · rename_i hnone
        exact not_not.mp hnone

theorem createDCSwapChain_ends (hs : Kept s) (hn : 2 ≤ c.bufferCount) (hfits : c.Fits s) :
    ∃ r t, createDCSwapChain s c = .ok (r, t) ∧ CreateEnds s c r t := by
  unfold createDCSwapChain
  cases herror : createError s c with
  | some e =>
    refine ⟨_, _, rfl, .early fun hreach => ?_⟩
    rw [hreach.1] at herror
    cases herror
  | none =>
    change ∃ r t, createAllocs s c = .ok (r, t) ∧ _
    unfold createAllocs
    cases hp : c.chain with
    | none => exact ⟨_, _, rfl, .early fun hreach => hreach.2.1 hp⟩
    | some p =>
      cases hq : c.buffer with
      | none => exact ⟨_, _, rfl, .early fun hreach => hreach.2.2 hq⟩
      | some q =>
        have hreach : c.Reaches s := by
          refine ⟨herror, ?_, ?_⟩
          · rw [hp]
            exact Option.some_ne_none p
          · rw [hq]
            exact Option.some_ne_none q
        have hnone := createError_none herror
        have hpos := (hfits.1 p hp).1
        have hpublished : Complete (publish s c p q) :=
          ⟨_, _, Function.update_self _ _ _, Function.update_self _ _ _,
            makeBuffers_complete s.fbInfo (by omega)⟩
        obtain ⟨u, hu, hrest, hcomplete, hothers⟩ := setBlanked_spec hpublished false
        have hchain : u.psSwapChain = p := by rw [hrest]; rfl
        change ∃ r t, createEnd s c p q = .ok (r, t) ∧ _
        unfold createEnd enableLFBEventNotification
        rw [if_neg (by omega), hu]
        cases hregistered : c.registered with
        | false =>
          refine ⟨_, _, rfl, .failed hreach hnone hregistered ?_⟩
          change u.psSwapChain ≠ 0
          rw [hchain]
          exact hpos
        | true =>
          refine ⟨_, _, rfl, .done hreach hnone hregistered ⟨?_, ?_, ?_, fun _ => hcomplete⟩⟩
          · change u.halted = false
            rw [hrest]
            exact hs.running
          · change u.chains 0 = none
            rw [hothers 0 (show 0 ≠ p from hpos.symm)]
            exact (Function.update_of_ne hpos.symm _ _).trans hs.null
          · refine iff_of_true rfl ?_
            change u.psSwapChain ≠ 0
            rw [hchain]
            exact hpos

inductive DestroyEnds (s : Device) (hDevice : Bool) (p : ℕ) (unregistered : Bool) :
    Answer → Device → Prop where
  | early {e : PvrsrvError} (how : ¬(hDevice = true ∧ p ≠ 0 ∧ p = s.psSwapChain)) :
      DestroyEnds s hDevice p unregistered (.returned (.error e)) s
  | done {t : Device} (how : hDevice = true ∧ p ≠ 0 ∧ p = s.psSwapChain)
      (running : t.halted = false) (null : t.chains 0 = none) (chain : t.psSwapChain = 0)
      (registered : t.notified = !unregistered) :
      DestroyEnds s hDevice p unregistered (.returned (.ok 0)) t

theorem destroyDCSwapChain_ends (hs : Kept s) (hDevice unregistered : Bool) :
    ∃ r t, destroyDCSwapChain s hDevice p unregistered = .ok (r, t) ∧
      DestroyEnds s hDevice p unregistered r t := by
  unfold destroyDCSwapChain
  split
  · rename_i hbad
    refine ⟨_, _, rfl, .early fun hall => ?_⟩
    cases hbad with
    | inl hnone =>
      rw [hall.1] at hnone
      cases hnone
    | inr h0 => exact hall.2.1 h0
  · rename_i hgood
    obtain ⟨hdevice, hpos⟩ := not_or.mp hgood
    split
    · rename_i hother
      exact ⟨_, _, rfl, .early fun hall => hother hall.2.2⟩
    · rename_i hsame
      have hp : p = s.psSwapChain := not_not.mp hsame
      obtain ⟨x, bs, hx, -⟩ := hs.complete (hp ▸ hpos)
      rw [← hp] at hx
      have hnotified : s.notified = true := hs.registered.mpr (hp ▸ hpos)
      have hnull : Function.update s.chains p none 0 = none :=
        (Function.update_of_ne (Ne.symm hpos) _ _).trans hs.null
      unfold freeChain disableLFBEventNotification
      cases unregistered with
      | false =>
        rw [if_neg Bool.false_ne_true]
        dsimp only
        rw [hx]
        exact ⟨_, _, rfl, .done ⟨by simpa using hdevice, hpos, hp⟩ hs.running hnull rfl hnotified⟩
      | true =>
        rw [if_pos rfl]
        dsimp only
        rw [hx]
        exact ⟨_, _, rfl, .done ⟨by simpa using hdevice, hpos, hp⟩ hs.running hnull rfl rfl⟩

theorem frameBufferEvents_spec (hs : Kept s) (b : Bool) :
    ∃ t, frameBufferEvents s b = .ok (.notified, t) ∧ Kept t := by
  unfold frameBufferEvents
  split
  · rename_i hnotified
    have hne := hs.registered.mp hnotified
    obtain ⟨t, ht, hrest, hcomplete, hothers⟩ := setBlanked_spec (hs.complete hne) b
    refine ⟨t, by rw [ht]; rfl, ?_, ?_, ?_, fun _ => hcomplete⟩
    · rw [hrest]
      exact hs.running
    · rw [hothers 0 hne.symm]
      exact hs.null
    · rw [hrest]
      exact hs.registered
  · exact ⟨s, rfl, hs⟩

theorem setDevinfo_kept (hs : Kept s) (m : Mode) : Kept (setDevinfo s m) :=
  ⟨hs.running, hs.null, hs.registered, hs.complete⟩

inductive StepEnds (s : Device) : Op → Answer → Device → Prop where
  | create {c : CreateCall} {r : Answer} {t : Device} (ends : CreateEnds s c r t) :
      StepEnds s (.create c) r t
  | destroy {hDevice : Bool} {p : ℕ} {unregistered : Bool} {r : Answer} {t : Device}
      (ends : DestroyEnds s hDevice p unregistered r t) :
      StepEnds s (.destroy hDevice p unregistered) r t
  | event {op : Op} {t : Device} (hgood : Good s op) (hkept : Kept t)
      (hsettled : Settled t (some (op, .notified))) : StepEnds s op .notified t

theorem Kept.ends (hs : Kept s) (hstep : step s op = some (r, t)) : StepEnds s op r t := by
  have hact : act s op = some (r, t) := by
    unfold step at hstep
    rw [if_neg (by rw [hs.running]; exact Bool.false_ne_true)] at hstep
    exact hstep
  cases op with
  | create c =>
    unfold act at hact
    dsimp only at hact
    split at hact
    · rename_i hfits
      obtain ⟨r', t', hcall, hends⟩ := createDCSwapChain_ends hs hfits.1 hfits.2
      rw [hcall] at hact
      obtain ⟨hr, ht⟩ := Prod.mk.inj (Option.some.inj hact)
      rw [← hr, ← ht]
      exact .create hends
    · cases hact
  | destroy hDevice p unregistered =>
    obtain ⟨r', t', hcall, hends⟩ := destroyDCSwapChain_ends (p := p) hs hDevice unregistered
    have hfinish := Option.some.inj hact
    rw [hcall] at hfinish
    obtain ⟨hr, ht⟩ := Prod.mk.inj hfinish
    rw [← hr, ← ht]
    exact .destroy hends
  | blank b =>
    obtain ⟨t', hcall, hkept⟩ := frameBufferEvents_spec hs b
    have hfinish := Option.some.inj hact
    rw [hcall] at hfinish
    obtain ⟨hr, ht⟩ := Prod.mk.inj hfinish
    rw [← hr, ← ht]
    exact .event trivial hkept trivial
  | modeChange m =>
    obtain ⟨hr, ht⟩ := Prod.mk.inj (Option.some.inj hact)
    rw [← hr, ← ht]
    exact .event trivial (setDevinfo_kept hs m) trivial

theorem Kept.finds (hs : Kept s) (hstep : step s op = some (r, t)) (e : Fault) : r ≠ .fault e := by
  intro he
  cases hs.ends hstep with
  | create ends => cases ends <;> cases he
  | destroy ends => cases ends <;> cases he
  | event => cases he

theorem Kept.next (hs : Kept s) (hgood : Good s op) (hstep : step s op = some (r, t)) :
    Kept t ∧ Settled t (some (op, r)) := by
  cases hs.ends hstep with
  | create ends =>
    cases ends with
    | early => exact ⟨hs, hgood.1⟩
    | failed how _ registered =>
      rw [hgood.2 how] at registered
      cases registered
    | done _ _ _ hkept => exact ⟨hkept, trivial⟩
  | destroy ends =>
    cases ends with
    | early => exact ⟨hs, trivial⟩
    | done how running null chain registered =>
      refine ⟨⟨running, null, ?_, fun hne => absurd chain hne⟩, chain⟩
      rw [registered, hgood how.1 how.2.1 how.2.2, chain]
      decide
  | event _ hkept hsettled => exact ⟨hkept, hsettled⟩

theorem Kept.sound {last : Option (Op × Answer)} (hs : Kept s) (hlast : Settled s last) :
    Sound s last := by
  refine ⟨?_, hlast, fun op r t hstep e => hs.finds hstep e⟩
  by_cases h0 : s.psSwapChain = 0
  · exact .inl h0
  · exact .inr (hs.complete h0)

/-- A step that is not good leaves the pointer of a failed creation, or a notifier without a
    chain. -/
theorem Kept.breaks (hs : Kept s) (hnot : ¬Good s op) (hstep : step s op = some (r, t)) :
    ¬Sound t (some (op, r)) := by
  intro hsound
  cases hs.ends hstep with
  | create ends =>
    cases ends with
    | early how => exact hnot ⟨hsound.settled, fun hreach => absurd hreach how⟩
    | failed _ _ _ left => exact left hsound.settled
    | done _ none registered => exact hnot ⟨none, fun _ => registered⟩
  | @destroy hDevice p unregistered r t ends =>
    cases ends with
    | early how => exact hnot fun hdevice hpos hp => absurd ⟨hdevice, hpos, hp⟩ how
    | done how running null chain registered =>
      cases unregistered with
      | true => exact hnot fun _ _ _ => rfl
      | false =>
        -- the notifier is still there, and the next event goes through the null pointer
        have hfault : frameBufferEvents t true = .error .noChain := by
          unfold frameBufferEvents setBlanked
          rw [registered, chain, null]
          rfl
        have hblank : step t (.blank true) = some (.fault .noChain, { t with halted := true }) := by
          unfold step
          rw [running, if_neg Bool.false_ne_true]
          change some (finish t (frameBufferEvents t true)) = _
          rw [hfault]
          rfl
        exact hsound.finds _ _ _ hblank .noChain rfl
  | event hgood => exact hnot hgood

theorem lfbInit_kept (m : Mode) (screen : ScreenInfo) : Kept (lfbInit m screen) :=
  ⟨rfl, rfl, iff_of_false Bool.false_ne_true fun hne => hne rfl, fun hne => absurd rfl hne⟩

/-- In a run of calls and events, the device has a complete chain or none in every state, it has none
    behind a failed creation and behind a destruction, and every event finds its chain, exactly if
    no creation is made while there is a chain and no call for the notifier fails. -/
theorem swap_chain_over_runs {m : Mode} {screen : ScreenInfo} {l : List (Op × Answer)}
    (run : Run step (fun _ _ => True) (lfbInit m screen) l t) :
    (∀ k u, k <+: l → Run step (fun _ _ => True) (lfbInit m screen) k u →
      Sound u (k.foldl (fun _ x => some x) none)) ↔
      Run step (fun s op => True ∧ Good s op) (lfbInit m screen) l t :=
  run.sound_ledger_iff (fun s last => Kept s ∧ Settled s last) Sound (fun _ x => some x)
    ⟨lfbInit_kept m screen, trivial⟩ (fun _ _ hs => hs.1.sound hs.2)
    (fun _ _ _ _ _ hs _ hgood hstep => hs.1.next hgood hstep)
    fun _ _ _ _ _ hs _ hnot hstep => hs.1.breaks hnot hstep

def sampleMode : Mode := ⟨2147483648, 3355443200, 3276800, 1600, 800, 480, 1⟩

def sampleCreate (registered : Bool) : CreateCall :=
  ⟨true, ⟨1, 1600, 800, 480⟩, ⟨1, 1600, 800, 480⟩, 2, [100, 200], some 4096, some 8192, registered⟩

def sampleOps : List Op :=
  [.create (sampleCreate true), .blank true, .destroy true 4096 true, .blank false]

instance decidableReaches (c : CreateCall) (s : Device) : Decidable (c.Reaches s) :=
  inferInstanceAs (Decidable (_ ∧ _ ∧ _))

instance decidableGood (s : Device) : (op : Op) → Decidable (Good s op)
  | .create _ => inferInstanceAs (Decidable (_ ∧ (_ → _)))
  | .destroy .. => inferInstanceAs (Decidable (_ → _ → _ → _))
  | .blank _ => inferInstanceAs (Decidable True)
  | .modeChange _ => inferInstanceAs (Decidable True)

theorem swap_chain_over_sample : ∃ l t,
    exec step (lfbInit sampleMode ⟨480, 0⟩) sampleOps = some (l, t) ∧ l.length = 4 ∧
    t.screen.yresVirtual = 1024 ∧
    ∀ k u, k <+: l → Run step (fun _ _ => True) (lfbInit sampleMode ⟨480, 0⟩) k u →
      Sound u (k.foldl (fun _ x => some x) none) := by
  have hend : (exec step (lfbInit sampleMode ⟨480, 0⟩) sampleOps).map (fun x =>
      (x.1.length, x.2.screen.yresVirtual)) = some (4, 1024) := by
    decide +kernel
  have hall : Allowed step (fun s op => True ∧ Good s op) (lfbInit sampleMode ⟨480, 0⟩)
      sampleOps := by
    decide +kernel
  obtain ⟨x, hx, hfacts⟩ := Option.map_eq_some_iff.mp hend
  obtain ⟨hlen, hlines⟩ := Prod.mk.inj hfacts
  have hrun : Run step (fun _ _ => True) (lfbInit sampleMode ⟨480, 0⟩) x.1 x.2 :=
    Run.of_exec hx fun _ _ _ => trivial
  exact ⟨x.1, x.2, hx, hlen, hlines, (swap_chain_over_runs hrun).mpr (Run.of_allowed hx hall)⟩

/-- A creation that fails in `fb_register_client` leaves the device with a chain that is freed. -/
theorem failed_creation_stays : ∃ r t,
    step (lfbInit sampleMode ⟨480, 0⟩) (.create (sampleCreate false)) =
      some (.returned (.error r), t) ∧ t.psSwapChain = 4096 ∧ t.chains 4096 = none ∧
    ¬Sound t (some (.create (sampleCreate false), .returned (.error r))) := by
  have hend : (step (lfbInit sampleMode ⟨480, 0⟩) (.create (sampleCreate false))).map (fun x =>
      (x.1.error, x.2.psSwapChain, x.2.chains 4096)) =
      some (some .errorGeneric, 4096, none) := by
    decide +kernel
  obtain ⟨x, hx, hfacts⟩ := Option.map_eq_some_iff.mp hend
  obtain ⟨herror, hrest⟩ := Prod.mk.inj hfacts
  obtain ⟨hchain, hfreed⟩ := Prod.mk.inj hrest
  have heq : x = (.returned (.error .errorGeneric), x.2) := Prod.ext (answer_of_error herror) rfl
  refine ⟨.errorGeneric, x.2, by rw [hx]; exact congrArg some heq, hchain, hfreed, fun hsound => ?_⟩
  have hsettled : x.2.psSwapChain = 0 := hsound.settled
  rw [hchain] at hsettled
  cases hsettled

end PvrServices.Lfb
