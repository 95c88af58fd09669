import PvrServices.EventObjects

set_option autoImplicit false

/-!
# Event objects over whole runs

Every event object in memory is on the event list and has one item of a process with an open file;
handles and waits name such objects. A close that finds a wait asleep on its object breaks this.
-/
namespace PvrServices.EventObjects
open Words KeyedList Runs

/-- The event list and the items are those of the event objects in memory, and every name was freed
    once or is in memory. -/
structure Kept (s : System) : Prop where
  addresses : (s.items.map Item.address).Nodup
  items : ∀ k ∈ s.items, k.address ≠ 0 ∧
    ∃ x, s.objects k.pvParam = some x ∧ x.hResItem = k.address
  owned : ∀ o x, s.objects o = some x → ∃ k ∈ s.items, k.pvParam = o
  listed : ∀ o, o ∈ s.eventList ↔ s.objects o ≠ none
  nodup : s.eventList.Nodup
  named : ∀ o, o < s.next ↔ (s.objects o ≠ none ∨ o ∈ s.freed)
  once : s.freed.Nodup
  gone : ∀ o ∈ s.freed, s.objects o = none

/-- The objects that handles and waits name are there for as long as their processes are. -/
structure Sound (s : System) : Prop where
  kept : Kept s
  running : s.halted = false
  files : (s.files.map OpenFile.file).Nodup
  counted : ∀ p, s.refCount p = s.files.countP fun x => x.process = p
  connected : ∀ k ∈ s.items, ∃ x ∈ s.files, x.process = k.process
  handles : ∀ p h o, s.handles p h = some o → ∃ k ∈ s.items, k.process = p ∧ k.pvParam = o
  single : ∀ p h h' o, s.handles p h = some o → s.handles p h' = some o → h = h'
  sleepers : ∀ w ∈ s.sleepers, ∃ k ∈ s.items, k.pvParam = w.object ∧
    ∃ x ∈ s.files, x.file = w.file ∧ x.process = k.process
  threads : (s.sleepers.map Sleeper.thread).Nodup

/-- No step of a call goes wrong: a new object gets its item, a file that fails to open leaves no
    reference, and no object is closed while a wait sleeps on it. -/
def Orderly (s : System) : Op → Prop
  | .openFile p _ data priv => s.disabled = true ∨ (s.refCount p = 0 ∧ data = false) ∨ priv = true
  | .eventOpen c => s.disabled = false → c.found = true → c.mem = true → c.item ≠ none
  | .eventClose f found h => s.disabled = false → found = true →
    ∀ p ∈ s.processOf f, ∀ o ∈ s.handles p h, ∀ w ∈ s.sleepers, w.object ≠ o
  | _ => True

variable {s t : System} {k : Item} {o p h f : ℕ} {x : EventObject} {a : ℕ} {as : List ℕ}

def Ends (P : System → Prop) (c : Except Fault (Answer × System)) : Prop :=
  ∃ r t, c = .ok (r, t) ∧ (∀ e, r ≠ .fault e) ∧ P t

theorem Ends.intro {P : System → Prop} {r : Answer} (hr : ∀ e, r ≠ .fault e) (ht : P t) :
    Ends P (.ok (r, t)) := ⟨r, t, rfl, hr, ht⟩

theorem Ends.mono {P Q : System → Prop} {c : Except Fault (Answer × System)} (hc : Ends P c)
    (hall : ∀ t, P t → Q t) : Ends Q c := by
  obtain ⟨r, t, heq, hr, ht⟩ := hc
  exact ⟨r, t, heq, hr, hall t ht⟩

theorem returned_ne {r : PvrsrvError} (e : Fault) : Answer.returned r ≠ .fault e := by
  intro h
  cases h

theorem object_eq (ho : s.objects o = some x) : s.object o = .ok x := by
  unfold System.object
  rw [ho]
  rfl

theorem touch_eq {os : List ℕ} (hall : ∀ o ∈ os, s.objects o ≠ none) : s.touch os = .ok () := by
  unfold System.touch
  rw [if_pos]
  rw [List.all_eq_true]
  intro o ho
  exact Option.isSome_iff_ne_none.mpr (hall o ho)

theorem mem_of_neighbours {l : List ℕ} {b : ℕ} (hb : b ∈ neighbours l o) : b ∈ l := by
  unfold neighbours at hb
  obtain ⟨y, hy, heq⟩ := List.mem_filterMap.mp hb
  split at heq
  · rw [← Option.some.inj heq]
    exact List.mem_of_mem_tail (List.of_mem_zip hy).2
  · split at heq
    · rw [← Option.some.inj heq]
      exact (List.of_mem_zip hy).1
    · cases heq

theorem Kept.unique {k' : Item} (hs : Kept s) (hk : k ∈ s.items) (hk' : k' ∈ s.items)
    (heq : k.pvParam = k'.pvParam) : k = k' := by
  obtain ⟨-, x, hx, hres⟩ := hs.items k hk
  obtain ⟨-, x', hx', hres'⟩ := hs.items k' hk'
  rw [← heq, hx] at hx'
  apply List.inj_on_of_nodup_map hs.addresses hk hk'
  rw [← hres, ← hres', Option.some.inj hx']

theorem Kept.setObject {y : EventObject} (hs : Kept s) (ho : s.objects o = some x)
    (hy : y.hResItem = x.hResItem) : Kept (s.setObject o y) := by
  have hlive (q : ℕ) : (s.setObject o y).objects q ≠ none ↔ s.objects q ≠ none := by
    change Function.update s.objects o (some y) q ≠ none ↔ _
    by_cases hq : q = o
    · rw [hq, Function.update_self, ho]
      exact ⟨fun _ => Option.some_ne_none x, fun _ => Option.some_ne_none y⟩
    · rw [Function.update_of_ne hq]
  refine ⟨hs.addresses, fun k hk => ?_, fun q z hq => ?_, fun q => ?_, hs.nodup, fun q => ?_,
    hs.once, fun q hq => ?_⟩
  · obtain ⟨hne, z, hz, hres⟩ := hs.items k hk
    refine ⟨hne, ?_⟩
    change ∃ x, Function.update s.objects o (some y) k.pvParam = some x ∧ _
    by_cases hq : k.pvParam = o
    · rw [hq, Function.update_self]
      rw [hq, ho] at hz
      exact ⟨y, rfl, by rw [hy, Option.some.inj hz, hres]⟩
    · rw [Function.update_of_ne hq]
      exact ⟨z, hz, hres⟩
  · have hne : s.objects q ≠ none := (hlive q).mp fun hnone => by
      rw [hq] at hnone
      cases hnone
    obtain ⟨z', hz'⟩ := Option.ne_none_iff_exists'.mp hne
    exact hs.owned q z' hz'
  · rw [hlive q]
    exact hs.listed q
  · rw [hlive q]
    exact hs.named q
  · have hnone := hs.gone q hq
    by_contra hne
    exact (hlive q).mp hne hnone

/-- A call changes nothing but the event objects, their list, their items and the freed names. -/
structure OnlyObjects (s t : System) : Prop where
  rest : t = { s with
    objects := t.objects
    freed := t.freed
    eventList := t.eventList
    items := t.items }

theorem OnlyObjects.refl : OnlyObjects s s := ⟨rfl⟩

theorem OnlyObjects.trans {u : System} (ha : OnlyObjects s t) (hb : OnlyObjects t u) :
    OnlyObjects s u := by
  refine ⟨?_⟩
  rw [hb.rest, ha.rest]

theorem freeResource_spec (hs : Kept s) (hk : k ∈ s.items) :
    ∃ t, freeResource s k.address = .ok t ∧ Kept t ∧ OnlyObjects s t ∧
      t.items = dropKey Item.address s.items k.address := by
  obtain ⟨hne, x, hx, hres⟩ := hs.items k hk
  let u : System := { s with items := dropKey Item.address s.items k.address }
  have hobject : u.object k.pvParam = .ok x := object_eq hx
  have htouch : u.touch (neighbours u.eventList k.pvParam) = .ok () :=
    touch_eq fun o ho => (hs.listed o).mp (mem_of_neighbours ho)
  let t : System := { u with
    eventList := u.eventList.erase k.pvParam
    objects := Function.update u.objects k.pvParam none
    freed := u.freed ++ [k.pvParam] }
  have hcall : freeResource s k.address = .ok t := by
    unfold freeResource
    rw [find?_key hs.addresses hk]
    change deleteCallback u k.pvParam = .ok t
    unfold deleteCallback
    rw [hobject, htouch]
    rfl
  have hother (q : ℕ) (hq : q ≠ k.pvParam) : t.objects q = s.objects q :=
    Function.update_of_ne hq _ _
  have hself : t.objects k.pvParam = none := Function.update_self _ _ _
  have hfresh : k.pvParam ∉ s.freed := fun hin => by
    rw [hs.gone _ hin] at hx
    cases hx
  refine ⟨t, hcall, ⟨?_, ?_, ?_, ?_, ?_, ?_, ?_, ?_⟩, ⟨rfl⟩, rfl⟩
  · exact dropKey_nodup hs.addresses k.address
  · intro j hj
    obtain ⟨hj, hja⟩ := mem_dropKey.mp hj
    obtain ⟨hjne, y, hy, hyres⟩ := hs.items j hj
    have hparam : j.pvParam ≠ k.pvParam := fun heq => hja (by rw [hs.unique hj hk heq])
    exact ⟨hjne, y, by rw [hother _ hparam, hy], hyres⟩
  · intro q y hq
    by_cases hqk : q = k.pvParam
    · rw [hqk, hself] at hq
      cases hq
    · rw [hother q hqk] at hq
      obtain ⟨j, hj, hjq⟩ := hs.owned q y hq
      refine ⟨j, mem_dropKey.mpr ⟨hj, fun heq => hqk ?_⟩, hjq⟩
      rw [← hjq, List.inj_on_of_nodup_map hs.addresses hj hk heq]
  · intro q
    change q ∈ s.eventList.erase k.pvParam ↔ _
    rw [hs.nodup.mem_erase_iff, hs.listed q]
    by_cases hqk : q = k.pvParam
    · rw [hqk, hself]
      simp
    · rw [hother q hqk]
      exact and_iff_right hqk
  · exact hs.nodup.erase k.pvParam
  · intro q
    change q < s.next ↔ _ ∨ q ∈ s.freed ++ [k.pvParam]
    rw [hs.named q, List.mem_append, List.mem_singleton]
    by_cases hqk : q = k.pvParam
    · rw [hqk, hself, hx]
      simp
    · rw [hother q hqk, or_iff_left hqk]
  · change (s.freed ++ [k.pvParam]).Nodup
    rw [List.nodup_append]
    refine ⟨hs.once, List.nodup_singleton _, fun b hb c hc hbc => hfresh ?_⟩
    rw [← List.mem_singleton.mp hc, ← hbc]
    exact hb
  · intro q hq
    by_cases hqk : q = k.pvParam
    · rw [hqk, hself]
    · rw [hother q hqk]
      refine hs.gone q ((List.mem_append.mp hq).resolve_right fun hlast => hqk ?_)
      exact List.mem_singleton.mp hlast

/-- The sweep over the items of a process: by induction on the items that are left. -/
theorem freeResources_spec {ks : List Item} (hs : Kept s) (hks : (ks.map Item.address).Nodup)
    (hin : ∀ k ∈ ks, k ∈ s.items) :
    ∃ t, freeResources s (ks.map Item.address) = .ok t ∧ Kept t ∧ OnlyObjects s t ∧
      ∀ k, k ∈ t.items ↔ k ∈ s.items ∧ k ∉ ks := by
  induction ks generalizing s with
  | nil =>
    refine ⟨s, rfl, hs, .refl, fun k => ?_⟩
    simp
  | cons j ks ih =>
    rw [List.map_cons, List.nodup_cons] at hks
    have hj := hin j List.mem_cons_self
    obtain ⟨u, hu, hkept, honly, hitems⟩ := freeResource_spec hs hj
    have hmem (k : Item) : k ∈ u.items ↔ k ∈ s.items ∧ k ≠ j := by
      rw [hitems, mem_dropKey]
      refine and_congr_right fun hk => not_congr ⟨fun heq => ?_, fun heq => by rw [heq]⟩
      exact List.inj_on_of_nodup_map hs.addresses hk hj heq
    have hrest (k : Item) (hk : k ∈ ks) : k ∈ u.items := by
      refine (hmem k).mpr ⟨hin k (List.mem_cons_of_mem j hk), fun heq => hks.1 ?_⟩
      rw [← heq]
      exact List.mem_map_of_mem hk
    obtain ⟨t, ht, htkept, hto, htitems⟩ := ih hkept hks.2 hrest
    refine ⟨t, ?_, htkept, honly.trans hto, fun k => ?_⟩
    · rw [List.map_cons]
      unfold freeResources
      rw [hu]
      exact ht
    · rw [htitems k, hmem k, List.mem_cons, not_or, and_assoc]

theorem Sound.setObject {y : EventObject} (hs : Sound s) (ho : s.objects o = some x)
    (hy : y.hResItem = x.hResItem) : Sound (s.setObject o y) :=
  ⟨hs.kept.setObject ho hy, hs.running, hs.files, hs.counted, hs.connected, hs.handles, hs.single,
    hs.sleepers, hs.threads⟩

theorem finishWait_ends {n : ℕ} {r : PvrsrvError} (hs : Sound s) (ho : s.objects o = some x) :
    Ends Sound (finishWait s o n r) := by
  unfold finishWait
  rw [object_eq ho]
  exact Ends.intro returned_ne (hs.setObject ho rfl)

theorem prepareToWait_ends {thread : ℕ} (hs : Sound s) (hk : k ∈ s.items)
    (hf : ∃ x ∈ s.files, x.file = f ∧ x.process = k.process)
    (hthread : thread ∉ s.sleepers.map Sleeper.thread) :
    Ends Sound (prepareToWait s thread f k.pvParam) := by
  obtain ⟨-, x, hx, -⟩ := hs.kept.items k hk
  unfold prepareToWait
  rw [object_eq hx]
  change Ends Sound (if _ then _ else _)
  split
  · exact finishWait_ends hs hx
  · refine Ends.intro (fun e he => by cases he) ?_
    refine ⟨⟨hs.kept.addresses, hs.kept.items, hs.kept.owned, hs.kept.listed, hs.kept.nodup,
      hs.kept.named, hs.kept.once, hs.kept.gone⟩, hs.running, hs.files, hs.counted,
      hs.connected, hs.handles, hs.single, fun w hw => ?_,
      List.nodup_cons.mpr ⟨hthread, hs.threads⟩⟩
    cases List.mem_cons.mp hw with
    | inl heq =>
      rw [heq]
      exact ⟨k, hk, rfl, hf⟩
    | inr hold => exact hs.sleepers w hold

theorem wake_ends {w : Sleeper} {left : ℕ} (hs : Sound s) (hw : w ∈ s.sleepers) :
    Ends Sound (wake s w left) := by
  obtain ⟨k, hk, hparam, hfile⟩ := hs.sleepers w hw
  obtain ⟨-, x, hx, -⟩ := hs.kept.items k hk
  rw [hparam] at hx
  have hdrop : Sound { s with sleepers := dropKey Sleeper.thread s.sleepers w.thread } :=
    ⟨⟨hs.kept.addresses, hs.kept.items, hs.kept.owned, hs.kept.listed, hs.kept.nodup,
      hs.kept.named, hs.kept.once, hs.kept.gone⟩, hs.running, hs.files, hs.counted,
      hs.connected, hs.handles, hs.single, fun v hv => hs.sleepers v (mem_dropKey.mp hv).1,
      dropKey_nodup hs.threads w.thread⟩
  unfold wake
  dsimp only
  split
  · exact finishWait_ends hdrop hx
  · split
    · exact finishWait_ends hdrop hx
    · rw [← hparam]
      refine prepareToWait_ends hdrop hk hfile fun hin => ?_
      obtain ⟨v, hv, hvw⟩ := List.mem_map.mp hin
      exact (mem_dropKey.mp hv).2 hvw

/-- A signal goes over objects that are there: by induction on the rest of the list. -/
theorem eventObjectSignal_spec {os : List ℕ} (hs : Sound s) (hos : ∀ o ∈ os, s.objects o ≠ none) :
    ∃ t, eventObjectSignal s os = .ok t ∧ Sound t := by
  induction os generalizing s with
  | nil => exact ⟨s, rfl, hs⟩
  | cons o os ih =>
    obtain ⟨x, hx⟩ := Option.ne_none_iff_exists'.mp (hos o List.mem_cons_self)
    let y : EventObject := { x with sTimeStamp := u32 (x.sTimeStamp + 1) }
    have hrest (q : ℕ) (hq : q ∈ os) : (s.setObject o y).objects q ≠ none := by
      change Function.update s.objects o (some y) q ≠ none
      by_cases hqo : q = o
      · rw [hqo, Function.update_self]
        exact Option.some_ne_none y
      · rw [Function.update_of_ne hqo]
        exact hos q (List.mem_cons_of_mem o hq)
    obtain ⟨t, ht, hsound⟩ := ih (hs.setObject (y := y) hx rfl) hrest
    refine ⟨t, ?_, hsound⟩
    unfold eventObjectSignal
    rw [object_eq hx]
    exact ht

theorem misr_ends (hs : Sound s) : Ends Sound (misr s) := by
  unfold misr
  split
  · exact Ends.intro returned_ne hs
  · obtain ⟨t, ht, hsound⟩ := eventObjectSignal_spec hs fun o ho => (hs.kept.listed o).mp ho
    rw [ht]
    exact Ends.intro returned_ne hsound

theorem processOf_spec (hp : s.processOf f = some p) :
    ∃ x ∈ s.files, x.file = f ∧ x.process = p := by
  unfold System.processOf at hp
  obtain ⟨x, hx, heq⟩ := Option.map_eq_some_iff.mp hp
  exact ⟨x, List.mem_of_find?_eq_some hx, by simpa using List.find?_some hx, heq⟩

theorem eventObjectWaitBW_ends {thread : ℕ} (hs : Sound s) (hp : s.processOf f = some p)
    (hthread : thread ∉ s.sleepers.map Sleeper.thread) :
    Ends Sound (eventObjectWaitBW s p thread f h) := by
  unfold eventObjectWaitBW
  split
  · refine Ends.intro (fun e he => by cases he) hs
  · cases hh : s.handles p h with
    | none => exact Ends.intro returned_ne hs
    | some o =>
      obtain ⟨k, hk, hprocess, hparam⟩ := hs.handles p h o hh
      obtain ⟨x, hx, hfile, hxp⟩ := processOf_spec hp
      change Ends Sound (prepareToWait s thread f o)
      rw [← hparam]
      exact prepareToWait_ends hs hk ⟨x, hx, hfile, hxp.trans hprocess.symm⟩ hthread

theorem closeObject_spec (hs : Sound s) (hh : s.handles p h = some o) :
    ∃ k ∈ s.items, k.process = p ∧ k.pvParam = o ∧
      ∃ t, closeObject s p h o = .ok (.returned .ok, t) ∧ Kept t ∧
        OnlyObjects (s.releaseHandle p h) t ∧ t.items = dropKey Item.address s.items k.address := by
  obtain ⟨k, hk, hprocess, hparam⟩ := hs.handles p h o hh
  obtain ⟨hne, x, hx, hres⟩ := hs.kept.items k hk
  have hkept : Kept (s.releaseHandle p h) := ⟨hs.kept.addresses, hs.kept.items, hs.kept.owned,
    hs.kept.listed, hs.kept.nodup, hs.kept.named, hs.kept.once, hs.kept.gone⟩
  obtain ⟨t, ht, htkept, honly, hitems⟩ := freeResource_spec hkept hk
  refine ⟨k, hk, hprocess, hparam, t, ?_, htkept, honly, hitems⟩
  have hobject : (s.releaseHandle p h).object o = .ok x := object_eq (hparam ▸ hx)
  unfold closeObject eventObjectDelete
  rw [hobject]
  change ((if x.hResItem = 0 then _ else freeResource (s.releaseHandle p h) x.hResItem :
    Except Fault System) >>= fun s => .ok (Answer.returned .ok, s)) = _
  rw [if_neg (by rw [hres]; exact hne), hres, ht]
  rfl

theorem closeObject_ends (hs : Sound s) (hh : s.handles p h = some o) :
    Ends (fun t => (∀ w ∈ s.sleepers, w.object ≠ o) → Sound t) (closeObject s p h o) := by
  obtain ⟨k, hk, hprocess, hparam, t, hcall, hkept, honly, hitems⟩ := closeObject_spec hs hh
  rw [hcall]
  refine Ends.intro returned_ne fun hsleep => ?_
  have hmem {j : Item} (hj : j ∈ s.items) (hjo : j.pvParam ≠ o) : j ∈ t.items := by
    rw [hitems]
    refine mem_dropKey.mpr ⟨hj, fun heq => hjo ?_⟩
    rw [List.inj_on_of_nodup_map hs.kept.addresses hj hk heq, hparam]
  have hold {j : Item} (hj : j ∈ t.items) : j ∈ s.items := by
    rw [hitems] at hj
    exact (mem_dropKey.mp hj).1
  have hhandles (p' h' o' : ℕ) (hgot : t.handles p' h' = some o') :
      s.handles p' h' = some o' ∧ o' ≠ o := by
    have hgot' : (s.releaseHandle p h).handles p' h' = some o' := by rw [← hgot, honly.rest]
    change Function.update s.handles p (Function.update (s.handles p) h none) p' h' = _ at hgot'
    by_cases hpp : p' = p
    · rw [hpp, Function.update_self] at hgot'
      by_cases hhh : h' = h
      · rw [hhh, Function.update_self] at hgot'
        cases hgot'
      · rw [Function.update_of_ne hhh] at hgot'
        refine ⟨hpp ▸ hgot', fun heq => hhh ?_⟩
        exact hs.single p h' h o (heq ▸ hgot') hh
    · rw [Function.update_of_ne hpp] at hgot'
      refine ⟨hgot', fun heq => hpp ?_⟩
      obtain ⟨j, hj, hjp, hjo⟩ := hs.handles p' h' o' hgot'
      rw [← hjp, ← hprocess, hs.kept.unique hj hk (by rw [hjo, heq, hparam])]
  refine ⟨hkept, by rw [honly.rest]; exact hs.running, by rw [honly.rest]; exact hs.files,
    by rw [honly.rest]; exact hs.counted, fun j hj => ?_, fun p' h' o' hgot => ?_,
    fun p' h₁ h₂ o' hgot₁ hgot₂ => ?_, fun w hw => ?_, by rw [honly.rest]; exact hs.threads⟩
  · rw [honly.rest]
    exact hs.connected j (hold hj)
  · obtain ⟨hgot, hne'⟩ := hhandles p' h' o' hgot
    obtain ⟨j, hj, hjp, hjo⟩ := hs.handles p' h' o' hgot
    exact ⟨j, hmem hj (by rw [hjo]; exact hne'), hjp, hjo⟩
  · exact hs.single p' h₁ h₂ o' (hhandles p' h₁ o' hgot₁).1 (hhandles p' h₂ o' hgot₂).1
  · have hw' : w ∈ s.sleepers := by
      rw [honly.rest] at hw
      exact hw
    obtain ⟨j, hj, hjo, hfile⟩ := hs.sleepers w hw'
    refine ⟨j, hmem hj (by rw [hjo]; exact hsleep w hw'), hjo, ?_⟩
    rw [honly.rest]
    exact hfile

theorem eventObjectCloseBW_ends {found : Bool} (hs : Sound s) (hp : s.processOf f = some p) :
    Ends (fun t => Orderly s (.eventClose f found h) → Sound t)
      (eventObjectCloseBW s p found h) := by
  unfold eventObjectCloseBW
  split
  · exact Ends.intro (fun e he => by cases he) fun _ => hs
  · rename_i hdisabled
    split
    · exact Ends.intro returned_ne fun _ => hs
    · rename_i hfound
      cases hh : s.handles p h with
      | none => exact Ends.intro returned_ne fun _ => hs
      | some o =>
        refine (closeObject_ends hs hh).mono fun t ht horderly => ht ?_
        exact horderly (by simpa using hdisabled) (by simpa using hfound) p hp o hh

theorem Kept.add (hs : Kept s) (ha : a ≠ 0) (hfresh : ∀ k ∈ s.items, k.address ≠ a) :
    Kept { s with
      objects := Function.update s.objects s.next (some ⟨0, 0, a⟩)
      next := s.next + 1
      eventList := s.next :: s.eventList
      items := ⟨a, p, s.next⟩ :: s.items } := by
  have hnew : s.objects s.next = none := by
    by_contra hne
    exact absurd ((hs.named s.next).mpr (.inl hne)) (Nat.lt_irrefl _)
  have hunlisted : s.next ∉ s.eventList := fun hin => (hs.listed s.next).mp hin hnew
  have hunfreed : s.next ∉ s.freed := fun hin =>
    absurd ((hs.named s.next).mpr (.inr hin)) (Nat.lt_irrefl _)
  refine ⟨?_, fun k hk => ?_, fun q x hq => ?_, fun q => ?_, ?_, fun q => ?_, hs.once,
    fun q hq => ?_⟩
  · rw [List.map_cons, List.nodup_cons]
    refine ⟨fun hin => ?_, hs.addresses⟩
    obtain ⟨k, hk, hka⟩ := List.mem_map.mp hin
    exact hfresh k hk hka
  · cases List.mem_cons.mp hk with
    | inl heq =>
      rw [heq]
      exact ⟨ha, _, Function.update_self _ _ _, rfl⟩
    | inr hold =>
      obtain ⟨hne, x, hx, hres⟩ := hs.items k hold
      refine ⟨hne, x, ?_, hres⟩
      have hparam : k.pvParam ≠ s.next := fun heq => by
        rw [heq, hnew] at hx
        cases hx
      exact (Function.update_of_ne hparam _ _).trans hx
  · by_cases hqn : q = s.next
    · exact ⟨⟨a, p, s.next⟩, List.mem_cons_self, hqn.symm⟩
    · obtain ⟨k, hk, hkq⟩ := hs.owned q x ((Function.update_of_ne hqn _ _).symm.trans hq)
      exact ⟨k, List.mem_cons_of_mem _ hk, hkq⟩
  · change q ∈ s.next :: s.eventList ↔ Function.update s.objects s.next _ q ≠ none
    by_cases hqn : q = s.next
    · rw [hqn, Function.update_self]
      simp
    · rw [Function.update_of_ne hqn, List.mem_cons, or_iff_right hqn]
      exact hs.listed q
  · exact List.nodup_cons.mpr ⟨hunlisted, hs.nodup⟩
  · change q < s.next + 1 ↔ Function.update s.objects s.next _ q ≠ none ∨ q ∈ s.freed
    by_cases hqn : q = s.next
    · rw [hqn, Function.update_self]
      simp
    · rw [Function.update_of_ne hqn, ← hs.named q]
      omega
  · have hqn : q ≠ s.next := fun heq => hunfreed (heq ▸ hq)
    exact (Function.update_of_ne hqn _ _).trans (hs.gone q hq)

theorem Sound.add {grant : Option ℕ} (hs : Sound s) (ha : a ≠ 0)
    (hfresh : ∀ k ∈ s.items, k.address ≠ a) (hp : ∃ x ∈ s.files, x.process = p) {c : OpenCall}
    (hgrant : c.handle = grant) (hhandle : ∀ h ∈ grant, (s.handles p h).isNone) :
    Sound (openHandle p c s.next { s with
      objects := Function.update s.objects s.next (some ⟨0, 0, a⟩)
      next := s.next + 1
      eventList := s.next :: s.eventList
      items := ⟨a, p, s.next⟩ :: s.items }).2 := by
  have hkept := hs.kept.add (p := p) ha hfresh
  have hconnected (k : Item) (hk : k ∈ (⟨a, p, s.next⟩ : Item) :: s.items) :
      ∃ x ∈ s.files, x.process = k.process := by
    cases List.mem_cons.mp hk with
    | inl heq =>
      rw [heq]
      exact hp
    | inr hold => exact hs.connected k hold
  have hsleepers (w : Sleeper) (hw : w ∈ s.sleepers) :
      ∃ k ∈ (⟨a, p, s.next⟩ : Item) :: s.items, k.pvParam = w.object ∧
        ∃ x ∈ s.files, x.file = w.file ∧ x.process = k.process := by
    obtain ⟨k, hk, hall⟩ := hs.sleepers w hw
    exact ⟨k, List.mem_cons_of_mem _ hk, hall⟩
  have hold (p' h' o' : ℕ) (hgot : s.handles p' h' = some o') :
      ∃ k ∈ (⟨a, p, s.next⟩ : Item) :: s.items, k.process = p' ∧ k.pvParam = o' := by
    obtain ⟨k, hk, hall⟩ := hs.handles p' h' o' hgot
    exact ⟨k, List.mem_cons_of_mem _ hk, hall⟩
  unfold openHandle
  rw [hgrant]
  cases grant with
  | none =>
    exact ⟨hkept, hs.running, hs.files, hs.counted, hconnected, hold, hs.single, hsleepers,
      hs.threads⟩
  | some h =>
    have hbelow (p' h' o' : ℕ) (hgot : s.handles p' h' = some o') : o' ≠ s.next := by
      obtain ⟨k, hk, -, hko⟩ := hs.handles p' h' o' hgot
      obtain ⟨-, x, hx, -⟩ := hs.kept.items k hk
      rw [hko] at hx
      have hlt := (hs.kept.named o').mpr (.inl (by rw [hx]; exact Option.some_ne_none x))
      omega
    have hcases (p' h' o' : ℕ)
        (hgot : Function.update s.handles p (Function.update (s.handles p) h (some s.next)) p' h' =
          some o') :
        (p' = p ∧ h' = h ∧ o' = s.next) ∨ s.handles p' h' = some o' := by
      by_cases hpp : p' = p
      · rw [hpp, Function.update_self] at hgot
        by_cases hhh : h' = h
        · rw [hhh, Function.update_self] at hgot
          exact .inl ⟨hpp, hhh, (Option.some.inj hgot).symm⟩
        · rw [Function.update_of_ne hhh] at hgot
          exact .inr (hpp ▸ hgot)
      · rw [Function.update_of_ne hpp] at hgot
        exact .inr hgot
    refine ⟨⟨hkept.addresses, hkept.items, hkept.owned, hkept.listed, hkept.nodup, hkept.named,
      hkept.once, hkept.gone⟩, hs.running, hs.files, hs.counted, hconnected,
      fun p' h' o' hgot => ?_, fun p' h₁ h₂ o' hgot₁ hgot₂ => ?_, hsleepers, hs.threads⟩
    · cases hcases p' h' o' hgot with
      | inl hnew => exact ⟨⟨a, p, s.next⟩, List.mem_cons_self, hnew.1.symm, hnew.2.2.symm⟩
      | inr hgot => exact hold p' h' o' hgot
    · cases hcases p' h₁ o' hgot₁ with
      | inl hnew₁ =>
        cases hcases p' h₂ o' hgot₂ with
        | inl hnew₂ => rw [hnew₁.2.1, hnew₂.2.1]
        | inr hold₂ => exact absurd hnew₁.2.2 (hbelow p' h₂ o' hold₂)
      | inr hold₁ =>
        cases hcases p' h₂ o' hgot₂ with
        | inl hnew₂ => exact absurd hnew₂.2.2 (hbelow p' h₁ o' hold₁)
        | inr hold₂ => exact hs.single p' h₁ h₂ o' hold₁ hold₂

theorem eventObjectOpenBW_ends {c : OpenCall} (hs : Sound s) (hp : s.processOf c.file = some p)
    (hfits : c.Fits s p) :
    Ends (fun t => Orderly s (.eventOpen c) → Sound t) (eventObjectOpenBW s p c) := by
  unfold eventObjectOpenBW
  split
  · exact Ends.intro (fun e he => by cases he) fun _ => hs
  · rename_i hdisabled
    split
    · exact Ends.intro returned_ne fun _ => hs
    · rename_i hfound
      split
      · exact Ends.intro returned_ne fun _ => hs
      · rename_i hmem
        have htouch : s.touch s.eventList.head?.toList = .ok () := touch_eq fun o ho =>
          (hs.kept.listed o).mp (List.mem_of_head? (Option.mem_toList.mp ho))
        unfold eventObjectAdd
        rw [htouch]
        refine ⟨_, _, rfl, fun e he => ?_, fun horderly => ?_⟩
        · cases hh : c.handle with
          | none =>
            rw [hh] at he
            cases he
          | some h =>
            rw [hh] at he
            cases he
        · cases hitem : c.item with
          | none =>
            refine absurd hitem (horderly ?_ ?_ ?_)
            · simpa using hdisabled
            · simpa using hfound
            · simpa using hmem
          | some a =>
            obtain ⟨hne, hfresh⟩ := hfits.1 a hitem
            obtain ⟨x, hx, -, hxp⟩ := processOf_spec hp
            exact hs.add hne hfresh ⟨x, hx, hxp⟩ rfl hfits.2

theorem Sound.refers (hs : Sound s) : s.refCount p ≠ 0 ↔ ∃ x ∈ s.files, x.process = p := by
  rw [hs.counted p, ← Nat.pos_iff_ne_zero, List.countP_pos_iff]
  simp

theorem pvrOpen_sound {data priv : Bool} (hs : Sound s) (hf : s.processOf f = none)
    (horderly : Orderly s (.openFile p f data priv)) : Sound (pvrOpen s p f data priv).2 := by
  unfold pvrOpen
  split
  · exact hs
  · rename_i hdisabled
    split
    · exact hs
    · rename_i hdata
      have hpriv : priv = true := (horderly.resolve_left hdisabled).resolve_left hdata
      rw [hpriv]
      dsimp only
      rw [if_pos rfl]
      have hnew : f ∉ s.files.map OpenFile.file := fun hin => by
        obtain ⟨x, hx, hxf⟩ := List.mem_map.mp hin
        unfold System.processOf at hf
        rw [Option.map_eq_none_iff, List.find?_eq_none] at hf
        exact hf x hx (by simpa using hxf)
      refine ⟨⟨hs.kept.addresses, hs.kept.items, hs.kept.owned, hs.kept.listed, hs.kept.nodup,
        hs.kept.named, hs.kept.once, hs.kept.gone⟩, hs.running, ?_, fun q => ?_, fun k hk => ?_,
        hs.handles, hs.single, fun w hw => ?_, hs.threads⟩
      · rw [List.map_cons]
        exact List.nodup_cons.mpr ⟨hnew, hs.files⟩
      · change Function.update s.refCount p (s.refCount p + 1) q = _
        rw [List.countP_cons, ← hs.counted q]
        by_cases hqp : q = p
        · rw [hqp, Function.update_self, if_pos (by simp)]
        · rw [Function.update_of_ne hqp, if_neg (by simpa using fun heq => hqp heq.symm)]
          rfl
      · obtain ⟨x, hx, hall⟩ := hs.connected k hk
        exact ⟨x, List.mem_cons_of_mem _ hx, hall⟩
      · obtain ⟨k, hk, hko, x, hx, hall⟩ := hs.sleepers w hw
        exact ⟨k, hk, hko, x, List.mem_cons_of_mem _ hx, hall⟩

theorem pvrOpen_answers {data priv : Bool} (e : Fault) :
    (pvrOpen s p f data priv).1 ≠ .fault e := by
  unfold pvrOpen
  split
  · intro he
    cases he
  · split
    · intro he
      cases he
    · cases priv with
      | false => exact fun he => by cases he
      | true => exact fun he => by cases he

/-- The last file of a process takes its objects and handles with it. -/
theorem pvrRelease_ends (hs : Sound s) (hp : s.processOf f = some p)
    (hsleep : ∀ w ∈ s.sleepers, w.file ≠ f) : Ends Sound (pvrRelease s p f) := by
  obtain ⟨y, hy, hyf, hyp⟩ := processOf_spec hp
  let u : System := { s with
    files := dropKey OpenFile.file s.files f
    refCount := Function.update s.refCount p (s.refCount p - 1) }
  have hfiles : (u.files.map OpenFile.file).Nodup := dropKey_nodup hs.files f
  have hcounted (q : ℕ) : u.refCount q = u.files.countP fun x => x.process = q := by
    have hcount := countP_dropKey hs.files hy fun x => decide (x.process = q)
    rw [hyf, ← hs.counted q] at hcount
    change Function.update s.refCount p (s.refCount p - 1) q = _
    by_cases hqp : q = p
    · rw [hqp, Function.update_self]
      rw [hqp, if_pos (decide_eq_true hyp)] at hcount
      exact Nat.sub_eq_of_eq_add hcount
    · rw [Function.update_of_ne hqp]
      rw [if_neg (by simpa using fun heq => hqp (heq.symm.trans hyp))] at hcount
      exact hcount
  have hmem (q : ℕ) (hq : u.refCount q ≠ 0) : ∃ x ∈ u.files, x.process = q := by
    rw [hcounted q, ← Nat.pos_iff_ne_zero, List.countP_pos_iff] at hq
    simpa using hq
  have hkept : Kept u := ⟨hs.kept.addresses, hs.kept.items, hs.kept.owned, hs.kept.listed,
    hs.kept.nodup, hs.kept.named, hs.kept.once, hs.kept.gone⟩
  have hfile (w : Sleeper) (hw : w ∈ s.sleepers) (k : Item)
      (hx : ∃ x ∈ s.files, x.file = w.file ∧ x.process = k.process) :
      ∃ x ∈ u.files, x.file = w.file ∧ x.process = k.process := by
    obtain ⟨x, hx, hxf, hxp⟩ := hx
    exact ⟨x, mem_dropKey.mpr ⟨hx, fun heq => hsleep w hw (hxf.symm.trans heq)⟩, hxf, hxp⟩
  have hother (q : ℕ) (hqp : q ≠ p) (hx : ∃ x ∈ s.files, x.process = q) :
      ∃ x ∈ u.files, x.process = q := by
    refine hmem q ?_
    change Function.update s.refCount p (s.refCount p - 1) q ≠ 0
    rw [Function.update_of_ne hqp]
    exact hs.refers.mpr hx
  unfold pvrRelease
  change Ends Sound (if u.refCount p = 0 then processExit u p else .ok (.returned .ok, u))
  by_cases h0 : u.refCount p = 0
  · rw [if_pos h0]
    have hnone (q : ℕ) (hx : ∃ x ∈ u.files, x.process = q) : q ≠ p := by
      intro heq
      rw [hcounted p, List.countP_eq_zero] at h0
      obtain ⟨x, hx, hxq⟩ := hx
      exact h0 x hx (by simpa using hxq.trans heq)
    let ks := s.items.filter fun k => k.process = p
    have hks : (ks.map Item.address).Nodup :=
      hs.kept.addresses.sublist (List.filter_sublist.map _)
    obtain ⟨t, ht, htkept, honly, hitems⟩ :=
      freeResources_spec hkept hks fun k hk => (List.mem_filter.mp hk).1
    have hitem (k : Item) : k ∈ t.items ↔ k ∈ s.items ∧ k.process ≠ p := by
      rw [hitems k]
      refine and_congr_right fun hk => not_congr ?_
      rw [List.mem_filter]
      simp [show k ∈ s.items from hk]
    unfold processExit
    rw [show freeResources u _ = .ok t from ht]
    refine Ends.intro returned_ne ?_
    have hgot (p' h' o' : ℕ)
        (hg : Function.update t.handles p (fun _ => none) p' h' = some o') :
        p' ≠ p ∧ s.handles p' h' = some o' := by
      by_cases hpp : p' = p
      · rw [hpp, Function.update_self] at hg
        cases hg
      · rw [Function.update_of_ne hpp, honly.rest] at hg
        exact ⟨hpp, hg⟩
    refine ⟨⟨htkept.addresses, htkept.items, htkept.owned, htkept.listed, htkept.nodup,
      htkept.named, htkept.once, htkept.gone⟩, ?_, ?_, fun q => ?_, fun k hk => ?_,
      fun p' h' o' hg => ?_, fun p' h₁ h₂ o' hg₁ hg₂ => ?_, fun w hw => ?_, ?_⟩
    · change t.halted = false
      rw [honly.rest]
      exact hs.running
    · change (t.files.map OpenFile.file).Nodup
      rw [honly.rest]
      exact hfiles
    · change t.refCount q = t.files.countP _
      rw [honly.rest]
      exact hcounted q
    · change ∃ x ∈ t.files, _
      rw [honly.rest]
      obtain ⟨hk, hkp⟩ := (hitem k).mp hk
      exact hother k.process hkp (hs.connected k hk)
    · obtain ⟨hpp, hg⟩ := hgot p' h' o' hg
      obtain ⟨k, hk, hkp, hko⟩ := hs.handles p' h' o' hg
      exact ⟨k, (hitem k).mpr ⟨hk, by rw [hkp]; exact hpp⟩, hkp, hko⟩
    · exact hs.single p' h₁ h₂ o' (hgot p' h₁ o' hg₁).2 (hgot p' h₂ o' hg₂).2
    · have hw' : w ∈ s.sleepers := by
        change w ∈ t.sleepers at hw
        rw [honly.rest] at hw
        exact hw
      obtain ⟨k, hk, hko, hx⟩ := hs.sleepers w hw'
      obtain ⟨x, hx, hxf, hxp⟩ := hfile w hw' k hx
      refine ⟨k, (hitem k).mpr ⟨hk, hnone k.process ⟨x, hx, hxp⟩⟩, hko, x, ?_, hxf, hxp⟩
      change x ∈ t.files
      rw [honly.rest]
      exact hx
    · change (t.sleepers.map Sleeper.thread).Nodup
      rw [honly.rest]
      exact hs.threads
  · rw [if_neg h0]
    refine Ends.intro returned_ne ⟨hkept, hs.running, hfiles, hcounted, fun k hk => ?_, hs.handles,
      hs.single, fun w hw => ?_, hs.threads⟩
    · by_cases hkp : k.process = p
      · rw [hkp]
        exact hmem p h0
      · exact hother k.process hkp (hs.connected k hk)
    · obtain ⟨k, hk, hko, hx⟩ := hs.sleepers w hw
      exact ⟨k, hk, hko, hfile w hw k hx⟩

theorem sound_init : Sound systemInit := by
  refine ⟨⟨List.nodup_nil, fun k hk => ?_, fun o x ho => ?_, fun o => ?_, List.nodup_nil,
    fun o => ?_, List.nodup_nil, fun o ho => ?_⟩, rfl, List.nodup_nil, fun p => rfl,
    fun k hk => ?_, fun p h o hh => ?_, fun p h h' o hh => ?_, fun w hw => ?_, List.nodup_nil⟩
  · cases hk
  · cases ho
  · simp [systemInit]
  · simp [systemInit]
  · cases ho
  · cases hk
  · cases hh
  · cases hh
  · cases hw

variable {r : Answer} {op : Op}

theorem Ends.finished {P : System → Prop} {c : Except Fault (Answer × System)} (hc : Ends P c)
    (heq : finish s c = (r, t)) : (∀ e, r ≠ .fault e) ∧ P t := by
  obtain ⟨q, u, hq, hall, hu⟩ := hc
  rw [hq] at heq
  obtain ⟨hr, ht⟩ := Prod.mk.inj heq
  rw [← hr, ← ht]
  exact ⟨hall, hu⟩

/-- From a sound state no call goes to an event object that is freed, and the calls that keep the
    order lead to sound states. -/
theorem Sound.step (hs : Sound s) (hstep : step s op = some (r, t)) :
    (∀ e, r ≠ .fault e) ∧ (Orderly s op → Sound t) := by
  unfold EventObjects.step at hstep
  rw [if_neg (by rw [hs.running]; exact Bool.false_ne_true)] at hstep
  cases op with
  | openFile p f data priv =>
    unfold act at hstep
    dsimp only at hstep
    split at hstep
    · rename_i hf
      have heq := Option.some.inj hstep
      have hr : (pvrOpen s p f data priv).1 = r := by rw [heq]
      have ht : (pvrOpen s p f data priv).2 = t := by rw [heq]
      rw [← hr, ← ht]
      exact ⟨fun e => pvrOpen_answers e, pvrOpen_sound hs hf⟩
    · cases hstep
  | releaseFile f =>
    obtain ⟨p, hp, hstep⟩ := Option.bind_eq_some_iff.mp hstep
    split at hstep
    · cases hstep
    · rename_i hsleep
      have hnot (w : Sleeper) (hw : w ∈ s.sleepers) : w.file ≠ f := fun heq =>
        hsleep (List.any_eq_true.mpr ⟨w, hw, decide_eq_true heq⟩)
      obtain ⟨hall, hsound⟩ := (pvrRelease_ends hs hp hnot).finished (Option.some.inj hstep)
      exact ⟨hall, fun _ => hsound⟩
  | eventOpen c =>
    obtain ⟨p, hp, hstep⟩ := Option.bind_eq_some_iff.mp hstep
    split at hstep
    · rename_i hfits
      exact (eventObjectOpenBW_ends hs hp hfits).finished (Option.some.inj hstep)
    · cases hstep
  | eventWait thread f h =>
    obtain ⟨p, hp, hstep⟩ := Option.bind_eq_some_iff.mp hstep
    split at hstep
    · cases hstep
    · rename_i hawake
      have hthread : thread ∉ s.sleepers.map Sleeper.thread := fun hin => by
        obtain ⟨w, hw, hwt⟩ := List.mem_map.mp hin
        exact hawake (List.any_eq_true.mpr ⟨w, hw, decide_eq_true hwt⟩)
      obtain ⟨hall, hsound⟩ :=
        (eventObjectWaitBW_ends hs hp hthread).finished (Option.some.inj hstep)
      exact ⟨hall, fun _ => hsound⟩
  | wake thread left =>
    obtain ⟨w, hw, hstep⟩ := Option.map_eq_some_iff.mp hstep
    obtain ⟨hall, hsound⟩ := (wake_ends hs (List.mem_of_find?_eq_some hw)).finished hstep
    exact ⟨hall, fun _ => hsound⟩
  | eventClose f found h =>
    obtain ⟨p, hp, hstep⟩ := Option.map_eq_some_iff.mp hstep
    exact (eventObjectCloseBW_ends hs hp).finished hstep
  | signal =>
    obtain ⟨hall, hsound⟩ := (misr_ends hs).finished (Option.some.inj hstep)
    exact ⟨hall, fun _ => hsound⟩
  | disable =>
    obtain ⟨hr, ht⟩ := Prod.mk.inj (Option.some.inj hstep)
    rw [← hr, ← ht]
    refine ⟨returned_ne, fun _ => ?_⟩
    exact ⟨⟨hs.kept.addresses, hs.kept.items, hs.kept.owned, hs.kept.listed, hs.kept.nodup,
      hs.kept.named, hs.kept.once, hs.kept.gone⟩, hs.running, hs.files, hs.counted,
      hs.connected, hs.handles, hs.single, hs.sleepers, hs.threads⟩

/-- No call that can come next touches an event object that is freed, the event list has objects in
    memory only, each object was freed once, or is in memory with an item of a process that has an
    open file, and a process exits with its last file. -/
structure Safe (s : System) : Prop where
  touches : ∀ op r t, EventObjects.step s op = some (r, t) → ∀ e, r ≠ .fault e
  listed : ∀ o ∈ s.eventList, s.objects o ≠ none
  once : ∀ o, o < s.next → (s.objects o = none ∧ s.freed.count o = 1) ∨
    (s.objects o ≠ none ∧ s.freed.count o = 0 ∧
      ∃ k ∈ s.items, k.pvParam = o ∧ ∃ x ∈ s.files, x.process = k.process)
  exits : ∀ p, s.refCount p = s.files.countP fun x => x.process = p

theorem Sound.safe (hs : Sound s) : Safe s := by
  refine ⟨fun op r t hstep => (hs.step hstep).1, fun o ho => (hs.kept.listed o).mp ho,
    fun o ho => ?_, hs.counted⟩
  by_cases hlive : s.objects o = none
  · have hin := ((hs.kept.named o).mp ho).resolve_left (not_not.mpr hlive)
    exact .inl ⟨hlive, List.count_eq_one_of_mem hs.kept.once hin⟩
  · obtain ⟨x, hx⟩ := Option.ne_none_iff_exists'.mp hlive
    obtain ⟨k, hk, hko⟩ := hs.kept.owned o x hx
    refine .inr ⟨hlive, List.count_eq_zero.mpr fun hin => ?_, k, hk, hko, hs.connected k hk⟩
    exact hlive (hs.kept.gone o hin)

theorem pvrOpen_leaks {data priv : Bool} (hs : Sound s)
    (hnot : ¬Orderly s (.openFile p f data priv)) : ¬Safe (pvrOpen s p f data priv).2 := by
  obtain ⟨hdisabled, hnot⟩ := not_or.mp hnot
  obtain ⟨hdata, hpriv⟩ := not_or.mp hnot
  intro hsafe
  have hrefs := hsafe.exits p
  unfold pvrOpen at hrefs
  rw [if_neg hdisabled, if_neg hdata] at hrefs
  dsimp only at hrefs
  rw [if_neg hpriv] at hrefs
  change Function.update s.refCount p (s.refCount p + 1) p = s.files.countP _ at hrefs
  rw [Function.update_self, ← hs.counted p] at hrefs
  omega

theorem eventObjectOpenBW_leaks {c : OpenCall} (hs : Sound s)
    (hnot : ¬Orderly s (.eventOpen c)) (hcall : eventObjectOpenBW s p c = .ok (r, t)) :
    ¬Safe t := by
  simp only [Orderly, Classical.not_imp, ne_eq, not_not] at hnot
  obtain ⟨hdisabled, hfound, hmem, hitem⟩ := hnot
  have htouch : s.touch s.eventList.head?.toList = .ok () := touch_eq fun o ho =>
    (hs.kept.listed o).mp (List.mem_of_head? (Option.mem_toList.mp ho))
  unfold eventObjectOpenBW eventObjectAdd at hcall
  rw [hdisabled, hfound, hmem, hitem, htouch] at hcall
  have ht : _ = t := congrArg Prod.snd (Except.ok.inj hcall)
  have hkeeps : t.items = s.items ∧ t.next = s.next + 1 ∧ t.objects s.next ≠ none := by
    rw [← ht]
    unfold openHandle
    cases c.handle with
    | none => exact ⟨rfl, rfl, by simp⟩
    | some h => exact ⟨rfl, rfl, by simp⟩
  intro hsafe
  cases hsafe.once s.next (by omega) with
  | inl hfreed => exact hkeeps.2.2 hfreed.1
  | inr hlive =>
    obtain ⟨k, hk, hko, -⟩ := hlive.2.2
    rw [hkeeps.1] at hk
    obtain ⟨-, x, hx, -⟩ := hs.kept.items k hk
    rw [hko] at hx
    have hlt := (hs.kept.named s.next).mpr (.inl (by rw [hx]; exact Option.some_ne_none x))
    omega

theorem eventObjectCloseBW_breaks {found : Bool} (hs : Sound s) (hp : s.processOf f = some p)
    (hnot : ¬Orderly s (.eventClose f found h))
    (hcall : eventObjectCloseBW s p found h = .ok (r, t)) : ¬Safe t := by
  simp only [Orderly, Classical.not_imp, not_forall, ne_eq, not_not] at hnot
  obtain ⟨hdisabled, hfound, p', hp', o, ho, w, hw, hwo⟩ := hnot
  obtain rfl : p = p' := Option.some.inj (hp.symm.trans hp')
  obtain ⟨k, hk, -, hparam, u, hu, hkept, honly, hitems⟩ := closeObject_spec hs ho
  unfold eventObjectCloseBW at hcall
  rw [hdisabled, hfound, show s.handles p h = some o from ho] at hcall
  change closeObject s p h o = _ at hcall
  have hut : u = t := congrArg Prod.snd (Except.ok.inj (hu.symm.trans hcall))
  rw [hut] at hkept honly hitems
  have hgone : t.objects o = none := by
    by_contra hne
    obtain ⟨x, hx⟩ := Option.ne_none_iff_exists'.mp hne
    obtain ⟨j, hj, hjo⟩ := hkept.owned o x hx
    rw [hitems] at hj
    obtain ⟨hj, hja⟩ := mem_dropKey.mp hj
    exact hja (by rw [hs.kept.unique hj hk (hjo.trans hparam.symm)])
  have hsleepers : t.sleepers = s.sleepers := by rw [honly.rest]; rfl
  have hfind : t.sleepers.find? (fun v => v.thread = w.thread) = some w := by
    rw [hsleepers]
    exact find?_key hs.threads hw
  let v : System := { t with sleepers := dropKey Sleeper.thread t.sleepers w.thread }
  have hwake : wake t w 0 = .error .freed := by
    have hobject : v.object w.object = .error .freed := by
      unfold System.object
      rw [hwo, show v.objects o = none from hgone]
      rfl
    unfold wake finishWait
    dsimp only
    rw [show System.object _ w.object = .error .freed from hobject, if_pos rfl]
    exact ite_self _
  intro hsafe
  refine hsafe.touches (.wake w.thread 0) (.fault .freed) { t with halted := true } ?_ .freed rfl
  have hrunning : t.halted = false := by
    rw [honly.rest]
    exact hs.running
  unfold EventObjects.step act
  rw [hrunning, if_neg Bool.false_ne_true]
  dsimp only
  rw [hfind, Option.map_some, hwake]
  rfl

theorem Sound.breaks (hs : Sound s) (hstep : EventObjects.step s op = some (r, t))
    (hnot : ¬Orderly s op) : ¬Safe t := by
  unfold EventObjects.step at hstep
  rw [if_neg (by rw [hs.running]; exact Bool.false_ne_true)] at hstep
  cases op with
  | openFile p f data priv =>
    unfold act at hstep
    dsimp only at hstep
    split at hstep
    · have ht : (pvrOpen s p f data priv).2 = t := by rw [Option.some.inj hstep]
      rw [← ht]
      exact pvrOpen_leaks hs hnot
    · cases hstep
  | eventOpen c =>
    obtain ⟨p, hp, hstep⟩ := Option.bind_eq_some_iff.mp hstep
    split at hstep
    · rename_i hfits
      obtain ⟨q, u, hcall, -, -⟩ := eventObjectOpenBW_ends hs hp hfits
      rw [hcall] at hstep
      obtain ⟨-, ht⟩ := Prod.mk.inj (Option.some.inj hstep)
      rw [← ht]
      exact eventObjectOpenBW_leaks hs hnot hcall
    · cases hstep
  | eventClose f found h =>
    obtain ⟨p, hp, hstep⟩ := Option.map_eq_some_iff.mp hstep
    obtain ⟨q, u, hcall, -, -⟩ : Ends (fun t => Orderly s (.eventClose f found h) → Sound t)
        (eventObjectCloseBW s p found h) := eventObjectCloseBW_ends hs hp
    rw [hcall] at hstep
    obtain ⟨-, ht⟩ := Prod.mk.inj hstep
    rw [← ht]
    exact eventObjectCloseBW_breaks hs hp hnot hcall
  | releaseFile => exact absurd trivial hnot
  | eventWait => exact absurd trivial hnot
  | wake => exact absurd trivial hnot
  | signal => exact absurd trivial hnot
  | disable => exact absurd trivial hnot

/-- In a run no call can touch an event object that is freed and each object is freed once, exactly
    if no object is closed while a wait sleeps on it, each new object gets its item and no file
    fails to open behind its reference to the process. -/
theorem safe_over_runs_iff {l : List (Op × Answer)}
    (run : Run EventObjects.step (fun _ _ => True) systemInit l t) :
    (∀ m u, m <+: l → Run EventObjects.step (fun _ _ => True) systemInit m u → Safe u) ↔
      Run EventObjects.step (fun s op => True ∧ Orderly s op) systemInit l t :=
  run.sound_iff Sound Safe sound_init (fun _ hs => hs.safe)
    (fun _ _ _ _ hs _ horderly hstep => (hs.step hstep).2 horderly)
    fun _ _ _ _ hs _ hnot hstep => hs.breaks hstep hnot

instance decidableOrderly (s : System) : (op : Op) → Decidable (Orderly s op)
  | .openFile .. => inferInstanceAs (Decidable (_ ∨ _ ∨ _))
  | .eventOpen _ => inferInstanceAs (Decidable (_ → _ → _ → _))
  | .eventClose .. => inferInstanceAs (Decidable (_ → _ → ∀ p ∈ _, ∀ o ∈ _, ∀ w ∈ _, _))
  | .releaseFile _ => inferInstanceAs (Decidable True)
  | .eventWait .. => inferInstanceAs (Decidable True)
  | .wake .. => inferInstanceAs (Decidable True)
  | .signal => inferInstanceAs (Decidable True)
  | .disable => inferInstanceAs (Decidable True)

def sampleOps : List Op :=
  [.openFile 1 10 true true, .eventOpen ⟨10, true, true, some 4096, some 5⟩, .eventWait 3 10 5,
    .signal, .wake 3 9, .eventClose 10 true 5, .releaseFile 10]

theorem safe_over_sample : ∃ l t, exec EventObjects.step systemInit sampleOps = some (l, t) ∧
    l.map Prod.snd = [.returned .ok, .opened 5, .sleeps, .returned .ok, .returned .ok,
      .returned .ok, .returned .ok] ∧
    ∀ m u, m <+: l → Run EventObjects.step (fun _ _ => True) systemInit m u → Safe u := by
  have hend : (exec EventObjects.step systemInit sampleOps).map (fun x => x.1.map Prod.snd) =
      some [.returned .ok, .opened 5, .sleeps, .returned .ok, .returned .ok, .returned .ok,
        .returned .ok] := by
    decide +kernel
  have hall : Allowed EventObjects.step (fun s op => True ∧ Orderly s op) systemInit sampleOps := by
    decide +kernel
  obtain ⟨x, hx, hanswers⟩ := Option.map_eq_some_iff.mp hend
  have hrun : Run EventObjects.step (fun _ _ => True) systemInit x.1 x.2 :=
    Run.of_exec hx fun _ _ _ => trivial
  exact ⟨x.1, x.2, hx, hanswers, (safe_over_runs_iff hrun).mpr (Run.of_allowed hx hall)⟩

/-- Another thread closes the event object while thread 3 sleeps on it. -/
theorem close_during_wait : ∃ l t, Run EventObjects.step (fun _ _ => True) systemInit l t ∧
    l = [(.openFile 1 10 true true, .returned .ok),
      (.eventOpen ⟨10, true, true, some 4096, some 5⟩, .opened 5), (.eventWait 3 10 5, .sleeps),
      (.eventClose 10 true 5, .returned .ok), (.wake 3 9, .fault .freed)] := by
  have hend : (exec EventObjects.step systemInit
      [.openFile 1 10 true true, .eventOpen ⟨10, true, true, some 4096, some 5⟩,
        .eventWait 3 10 5, .eventClose 10 true 5, .wake 3 9]).map (fun x => x.1) =
      some [(.openFile 1 10 true true, .returned .ok),
        (.eventOpen ⟨10, true, true, some 4096, some 5⟩, .opened 5), (.eventWait 3 10 5, .sleeps),
        (.eventClose 10 true 5, .returned .ok), (.wake 3 9, .fault .freed)] := by
    decide +kernel
  obtain ⟨x, hx, hlist⟩ := Option.map_eq_some_iff.mp hend
  exact ⟨x.1, x.2, Run.of_exec hx fun _ _ _ => trivial, hlist⟩

end PvrServices.EventObjects
