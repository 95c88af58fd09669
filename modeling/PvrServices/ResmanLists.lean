import Mathlib.Data.List.Perm.Subperm
import PvrServices.ResmanBase

set_option autoImplicit false

/-!
# The lists of the resource manager

`Shaped` says which items each context lists. Unlinking and pushing keep the shape of all lists.
-/
namespace PvrServices.Resman
open LinkedChain
variable {s s' : ResList} {lists lists' : ℕ → List ℕ} {c d p q : ℕ} {x y : ResmanItem}

def itemCells (s : ResList) : Cells ℕ ℕ where
  head := fun c => (s.contexts c).bind fun x => x.resItemList
  next := fun p => (s.items p).bind fun x => x.psNext
  this := fun p => (s.items p).map fun x => x.ppsThis

def contextCells (s : ResList) : Cells Unit ℕ where
  head := fun _ => s.contextList
  next := fun c => (s.contexts c).bind fun x => x.psNext
  this := fun c => (s.contexts c).map fun x => x.ppsThis

structure Shaped (s : ResList) (lists : ℕ → List ℕ) : Prop where
  chain : ∀ c, (s.contexts c).isSome = true → Chain (itemCells s) (.head c) (lists c)
  dead : ∀ c, (s.contexts c).isSome = false → lists c = []
  apart : ∀ p c d, p ∈ lists c → p ∈ lists d → c = d
  allocated : ∀ p, p ∈ s.allocated ↔ (s.items p).isSome = true
  allocNodup : s.allocated.Nodup
  contexts : ∃ l, Chain (contextCells s) (.head ()) l ∧
    ∀ c, c ∈ l ↔ (s.contexts c).isSome = true

theorem shaped_init : Shaped resManInit fun _ => [] where
  chain := nofun
  dead := fun _ _ => rfl
  apart := nofun
  allocated := fun p => by simp [resManInit]
  allocNodup := List.nodup_nil
  contexts := ⟨[], rfl, fun c => by simp [resManInit]⟩

theorem Shaped.context (h : Shaped s lists) (hp : p ∈ lists c) : (s.contexts c).isSome = true := by
  cases hc : (s.contexts c).isSome with
  | true => rfl
  | false =>
    rw [h.dead c hc] at hp
    cases hp

theorem this_of_mem {m : Cells ℕ ℕ} {loc : Loc ℕ ℕ} {l : List ℕ} (h : Chain m loc l)
    (hp : p ∈ l) : (m.this p).isSome = true := by
  induction l generalizing loc with
  | nil => cases hp
  | cons q l ih =>
    cases List.mem_cons.mp hp with
    | inl hq =>
      rw [hq, h.2.1]
      rfl
    | inr hq => exact ih h.2.2 hq

theorem Shaped.item (h : Shaped s lists) (hp : p ∈ lists c) : ∃ x, s.items p = some x := by
  have hthis := this_of_mem (h.chain c (h.context hp)) hp
  have hsome : (s.items p).isSome = true := by simpa [itemCells] using hthis
  exact Option.isSome_iff_exists.mp hsome

theorem Shaped.split (h : Shaped s lists) (hp : p ∈ lists c) : ∃ pre post,
    lists c = pre ++ p :: post ∧ (lists c).erase p = pre ++ post ∧ p ∉ pre ++ post := by
  have hnodup := (h.chain c (h.context hp)).nodup
  obtain ⟨pre, post, hl⟩ := List.append_of_mem hp
  rw [hl, List.nodup_middle, List.nodup_cons] at hnodup
  refine ⟨pre, post, hl, ?_, hnodup.1⟩
  rw [hl, List.erase_append_right _ fun hpre => hnodup.1 (List.mem_append_left _ hpre),
    List.erase_cons_head]

theorem Shaped.mem_erase (h : Shaped s lists) (hp : p ∈ lists c) (d q : ℕ) :
    q ∈ Function.update lists c ((lists c).erase p) d ↔ q ∈ lists d ∧ q ≠ p := by
  by_cases hd : d = c
  · rw [hd, Function.update_self, (h.chain c (h.context hp)).nodup.mem_erase_iff, and_comm]
  · rw [Function.update_of_ne hd]
    exact ⟨fun hq => ⟨hq, fun hqp => hd (h.apart p d c (hqp ▸ hq) hp)⟩, And.left⟩

theorem Shaped.not_mem_erase (h : Shaped s lists) (hp : p ∈ lists c) (d : ℕ) :
    p ∉ Function.update lists c ((lists c).erase p) d :=
  fun hpd => ((h.mem_erase hp d p).mp hpd).2 rfl

def AtMost (lists : ℕ → List ℕ) (n : ℕ) : Prop :=
  ∀ l : List ℕ, l.Nodup → (∀ p ∈ l, ∃ c, p ∈ lists c) → l.length ≤ n

theorem Shaped.atMost (h : Shaped s lists) : AtMost lists s.allocated.length := by
  intro l hnodup hl
  refine (hnodup.subperm fun p hp => ?_).length_le
  obtain ⟨c, hc⟩ := hl p hp
  obtain ⟨x, hx⟩ := h.item hc
  rw [h.allocated, hx]
  rfl

theorem AtMost.length_le {n : ℕ} (h : AtMost lists n) (hnodup : (lists c).Nodup) :
    (lists c).length ≤ n := h _ hnodup fun _ hp => ⟨c, hp⟩

theorem AtMost.sublist {n : ℕ} (h : AtMost lists n) (hsub : ∀ c, lists' c ⊆ lists c) :
    AtMost lists' n := by
  intro l hnodup hl
  refine h l hnodup fun p hp => ?_
  obtain ⟨c, hc⟩ := hl p hp
  exact ⟨c, hsub c hc⟩

theorem AtMost.remove {n : ℕ} (h : AtMost lists (n + 1)) (hsub : ∀ c, lists' c ⊆ lists c)
    (hp : p ∈ lists c) (hgone : ∀ d, p ∉ lists' d) : AtMost lists' n := by
  intro l hnodup hl
  have hpl : p ∉ l := fun hpl => by
    obtain ⟨d, hd⟩ := hl p hpl
    exact hgone d hd
  have hlen := h (p :: l) (List.nodup_cons.mpr ⟨hpl, hnodup⟩) fun q hq => by
    cases List.mem_cons.mp hq with
    | inl hq => exact ⟨c, by rw [hq]; exact hp⟩
    | inr hq =>
      obtain ⟨d, hd⟩ := hl q hq
      exact ⟨d, hsub d hd⟩
  rw [List.length_cons] at hlen
  omega

theorem setItemPlace_spec (v : Option ℕ) (loc : Loc ℕ ℕ)
    (hv : ∀ b, v = some b → (s.items b).isSome = true) :
    ∃ items, setItemPlace s v loc = some { s with items := items } ∧
      ∀ q, items q = if v = some q then (s.items q).map fun x => { x with ppsThis := loc }
        else s.items q := by
  cases v with
  | none => exact ⟨s.items, rfl, fun q => rfl⟩
  | some b =>
    obtain ⟨x, hx⟩ := Option.isSome_iff_exists.mp (hv b rfl)
    refine ⟨_, by simp only [setItemPlace, hx]; rfl, fun q => ?_⟩
    by_cases hq : q = b
    · simp [hq, hx]
    · simp [hq, Ne.symm hq]

theorem storeItem_spec (loc : Loc ℕ ℕ) (v : Option ℕ)
    (hhead : ∀ c, loc = .head c → (s.contexts c).isSome = true)
    (hnext : ∀ p, loc = .next p → (s.items p).isSome = true) :
    ∃ items contexts, storeItem s loc v = some { s with items := items, contexts := contexts } ∧
      (∀ q, items q = if loc = .next q then (s.items q).map fun x => { x with psNext := v }
        else s.items q) ∧
      ∀ c, contexts c = if loc = .head c then
        (s.contexts c).map fun x => { x with resItemList := v } else s.contexts c := by
  cases loc with
  | head c =>
    obtain ⟨x, hx⟩ := Option.isSome_iff_exists.mp (hhead c rfl)
    refine ⟨s.items, _, by simp only [storeItem, hx]; rfl, fun q => by simp, fun d => ?_⟩
    by_cases hd : d = c
    · simp [hd, hx]
    · simp [hd, Ne.symm hd]
  | next p =>
    obtain ⟨x, hx⟩ := Option.isSome_iff_exists.mp (hnext p rfl)
    refine ⟨_, s.contexts, by simp only [storeItem, hx]; rfl, fun q => ?_, fun d => by simp⟩
    by_cases hq : q = p
    · simp [hq, hx]
    · simp [hq, Ne.symm hq]

def ResmanItem.payload (x : ResmanItem) : ℕ × ResmanType × ℕ × ℕ × ℕ :=
  (x.flags, x.resType, x.pvParam, x.ui32Param, x.pfnFreeResource)

def ResmanContext.links (x : ResmanContext) : Loc Unit ℕ × Option ℕ := (x.ppsThis, x.psNext)

theorem contextCells_congr (hlist : s'.contextList = s.contextList)
    (hlinks : ∀ c, (s'.contexts c).map ResmanContext.links =
      (s.contexts c).map ResmanContext.links) : contextCells s' = contextCells s := by
  have hnext (t : ResList) (c : ℕ) : (contextCells t).next c =
      ((t.contexts c).map ResmanContext.links).bind Prod.snd := by
    cases h : t.contexts c <;> simp [contextCells, h, ResmanContext.links]
  have hthis (t : ResList) (c : ℕ) : (contextCells t).this c =
      ((t.contexts c).map ResmanContext.links).map Prod.fst := by
    cases h : t.contexts c <;> simp [contextCells, h, ResmanContext.links]
  have hcells (t : ResList) : contextCells t = ⟨fun _ => t.contextList, (contextCells t).next,
      (contextCells t).this⟩ := rfl
  rw [hcells s', hcells s, hlist]
  congr 1
  · funext c
    rw [hnext, hnext, hlinks]
  · funext c
    rw [hthis, hthis, hlinks]

theorem isSome_of_links (hlinks : (s'.contexts c).map ResmanContext.links =
    (s.contexts c).map ResmanContext.links) :
    (s'.contexts c).isSome = (s.contexts c).isSome := by
  rw [← Option.isSome_map, hlinks, Option.isSome_map]

structure Same (s s' : ResList) : Prop where
  calls : s'.calls = s.calls
  allocated : s'.allocated = s.allocated
  contextList : s'.contextList = s.contextList
  payload : ∀ q, (s'.items q).map ResmanItem.payload = (s.items q).map ResmanItem.payload
  links : ∀ c, (s'.contexts c).map ResmanContext.links = (s.contexts c).map ResmanContext.links

theorem Same.isSome (h : Same s s') (q : ℕ) : (s'.items q).isSome = (s.items q).isSome := by
  rw [← Option.isSome_map, h.payload, Option.isSome_map]

theorem Shaped.relinked (h : Shaped s lists) (hsame : Same s s')
    (hchain : ∀ c, (s.contexts c).isSome = true → Chain (itemCells s') (.head c) (lists' c))
    (hdead : ∀ c, (s.contexts c).isSome = false → lists' c = [])
    (hapart : ∀ p c d, p ∈ lists' c → p ∈ lists' d → c = d) : Shaped s' lists' where
  chain := fun c hc => hchain c (by rw [← isSome_of_links (hsame.links c)]; exact hc)
  dead := fun c hc => hdead c (by rw [← isSome_of_links (hsame.links c)]; exact hc)
  apart := hapart
  allocated := fun p => by
    rw [hsame.allocated, hsame.isSome]
    exact h.allocated p
  allocNodup := by
    rw [hsame.allocated]
    exact h.allocNodup
  contexts := by
    obtain ⟨l, hl, hmem⟩ := h.contexts
    refine ⟨l, ?_, fun c => ?_⟩
    · rw [contextCells_congr hsame.contextList hsame.links]
      exact hl
    · rw [isSome_of_links (hsame.links c)]
      exact hmem c

/-- The pointer to a listed item and the item behind it are on its list. -/
theorem Shaped.neighbours (h : Shaped s lists) (hp : p ∈ lists c) (hx : s.items p = some x) :
    (∀ e, x.ppsThis = .head e → e = c) ∧ (∀ q, x.ppsThis = .next q → q ∈ (lists c).erase p) ∧
      ∀ q, x.psNext = some q → q ∈ (lists c).erase p := by
  obtain ⟨pre, post, hl, herase, -⟩ := h.split hp
  have hchain := h.chain c (h.context hp)
  rw [hl] at hchain
  have hthis : (itemCells s).this p = some x.ppsThis := by simp [itemCells, hx]
  have hnext : (itemCells s).next p = x.psNext := by simp [itemCells, hx]
  have hbehind (q : ℕ) (hq : x.psNext = some q) : q ∈ (lists c).erase p := by
    rw [herase]
    exact List.mem_append_right _ (hchain.next_mem (hnext.trans hq))
  cases hchain.place_cases hthis with
  | inl hhead =>
    rw [hhead]
    exact ⟨fun e he => (Loc.head.inj he).symm, nofun, hbehind⟩
  | inr hr =>
    obtain ⟨r, hr, hrx⟩ := hr
    rw [hrx, herase]
    refine ⟨nofun, fun q hq => ?_, by rwa [herase] at hbehind⟩
    rw [← Loc.next.inj hq]
    exact List.mem_append_left _ hr

theorem Shaped.unlink (h : Shaped s lists) (hp : p ∈ lists c) (hx : s.items p = some x) :
    ∃ s', unlinkItem s x = some s' ∧ Same s s' ∧
      Shaped s' (Function.update lists c ((lists c).erase p)) ∧
      ∀ q, (∀ d, q ∉ lists d) ∨ q = p → s'.items q = s.items q := by
  obtain ⟨pre, post, hl, herase, hnot⟩ := h.split hp
  have hchain := h.chain c (h.context hp)
  rw [hl] at hchain
  have hthis : (itemCells s).this p = some x.ppsThis := by simp [itemCells, hx]
  have hnextp : (itemCells s).next p = x.psNext := by simp [itemCells, hx]
  obtain ⟨hheads, hplaces, hbehind⟩ := h.neighbours hp hx
  have hlive (q : ℕ) (hq : q ∈ lists c) : (s.items q).isSome = true :=
    Option.isSome_iff_exists.mpr (h.item hq)
  obtain ⟨items₁, h₁, hitems₁⟩ := setItemPlace_spec (s := s) x.psNext x.ppsThis
    fun b hb => hlive b (List.mem_of_mem_erase (hbehind b hb))
  obtain ⟨items₂, contexts, h₂, hitems₂, hcontexts⟩ :=
    storeItem_spec (s := { s with items := items₁ }) x.ppsThis x.psNext
      (fun e he => by
        rw [hheads e he]
        exact h.context hp)
      (fun q hq => by
        have := hlive q (List.mem_of_mem_erase (hplaces q hq))
        simp only [hitems₁]
        split <;> simpa using this)
  have hitems (q : ℕ) : items₂ q =
      if x.ppsThis = .next q then (items₁ q).map fun y => { y with psNext := x.psNext }
      else items₁ q := hitems₂ q
  have hpayload (q : ℕ) : (items₂ q).map ResmanItem.payload =
      (s.items q).map ResmanItem.payload := by
    rw [hitems q, hitems₁ q]
    split <;> split <;> cases s.items q <;> rfl
  have hnext (q : ℕ) (hq : (s.items q).isSome = true) : ((items₂ q).bind fun y => y.psNext) =
      if x.ppsThis = .next q then x.psNext else (s.items q).bind fun y => y.psNext := by
    obtain ⟨y, hy⟩ := Option.isSome_iff_exists.mp hq
    rw [hitems q, hitems₁ q, hy]
    split <;> split <;> rfl
  have hback (q : ℕ) (hq : (s.items q).isSome = true) : ((items₂ q).map fun y => y.ppsThis) =
      if x.psNext = some q then some x.ppsThis else (s.items q).map fun y => y.ppsThis := by
    obtain ⟨y, hy⟩ := Option.isSome_iff_exists.mp hq
    rw [hitems q, hitems₁ q, hy]
    split <;> split <;> rfl
  have hhead (e : ℕ) (he : (s.contexts e).isSome = true) :
      ((contexts e).bind fun y => y.resItemList) =
        if x.ppsThis = .head e then x.psNext else (s.contexts e).bind fun y => y.resItemList := by
    obtain ⟨y, hy⟩ := Option.isSome_iff_exists.mp he
    rw [hcontexts e]
    dsimp only
    rw [hy]
    split <;> rfl
  have hsame : Same s ⟨items₂, contexts, s.contextList, s.allocated, s.calls⟩ := by
    refine ⟨rfl, rfl, rfl, hpayload, fun e => ?_⟩
    dsimp only
    rw [hcontexts e]
    split <;> cases s.contexts e <;> rfl
  refine ⟨⟨items₂, contexts, s.contextList, s.allocated, s.calls⟩, ?_, hsame, ?_, ?_⟩
  · unfold unlinkItem
    simp only [h₁, Option.bind_eq_bind, Option.bind_some, h₂]
  · apply h.relinked hsame
    case hchain =>
      intro e he
      by_cases hec : e = c
      · rw [hec, Function.update_self, herase]
        have hlisted (q : ℕ) (hq : q ∈ pre ++ post) : (s.items q).isSome = true :=
          hlive q (List.mem_of_mem_erase (by rwa [herase]))
        apply hchain.unlink (fun _ hb => by cases hb) hthis
        case hjoin =>
          cases hchain.place_cases hthis with
          | inl hh =>
            rw [hh, hnextp]
            exact (hhead c (h.context hp)).trans (if_pos hh)
          | inr hr =>
            obtain ⟨r, hr, hrx⟩ := hr
            rw [hrx, hnextp]
            exact (hnext r (hlisted r (List.mem_append_left _ hr))).trans (if_pos hrx)
        case hback =>
          intro b hb
          rw [hnextp] at hb
          exact (hback b (hlive b (List.mem_of_mem_erase (hbehind b hb)))).trans (if_pos hb)
        case hloc => exact fun hne => (hhead c (h.context hp)).trans (if_neg hne)
        case hnext => exact fun q hq hne => (hnext q (hlisted q hq)).trans (if_neg hne)
        case hthis =>
          intro q hq hne
          rw [hnextp] at hne
          exact (hback q (hlisted q hq)).trans (if_neg hne)
      · rw [Function.update_of_ne hec]
        have hother (q : ℕ) (hq : q ∈ lists e) : q ∉ (lists c).erase p := fun hqc =>
          hec (h.apart q e c hq (List.mem_of_mem_erase hqc))
        apply (h.chain e he).congr
        case hloc => exact (hhead e he).trans (if_neg fun hh => hec (hheads e hh))
        case hnext =>
          intro q hq
          have hqe : (s.items q).isSome = true := Option.isSome_iff_exists.mpr (h.item hq)
          exact (hnext q hqe).trans (if_neg fun hh => hother q hq (hplaces q hh))
        case hthis =>
          intro q hq
          have hqe : (s.items q).isSome = true := Option.isSome_iff_exists.mpr (h.item hq)
          exact (hback q hqe).trans (if_neg fun hh => hother q hq (hbehind q hh))
    case hdead =>
      intro e he
      have hec : e ≠ c := fun hec => by
        rw [hec, h.context hp] at he
        cases he
      rw [Function.update_of_ne hec]
      exact h.dead e he
    case hapart =>
      exact fun q e f he hf =>
        h.apart q e f ((h.mem_erase hp e q).mp he).1 ((h.mem_erase hp f q).mp hf).1
  · intro q hq
    have hgone : q ∉ (lists c).erase p := by
      cases hq with
      | inl hq => exact fun hqc => hq c (List.mem_of_mem_erase hqc)
      | inr hq =>
        rw [hq, herase]
        exact hnot
    have hfar : x.ppsThis ≠ .next q ∧ x.psNext ≠ some q :=
      ⟨fun hh => hgone (hplaces q hh), fun hh => hgone (hbehind q hh)⟩
    dsimp only
    rw [hitems q, if_neg hfar.1, hitems₁ q, if_neg hfar.2]

theorem Shaped.push (h : Shaped s lists) (hc : (s.contexts c).isSome = true)
    (hp : ∀ d, p ∉ lists d) (allocated : List ℕ)
    (hallocated : ∀ q, q ∈ allocated ↔ q = p ∨ q ∈ s.allocated) (hnodup : allocated.Nodup)
    (x : ResmanItem) :
    ∃ s', pushItem { s with allocated := allocated } c p x = some s' ∧
      Shaped s' (Function.update lists c (p :: lists c)) ∧ s'.calls = s.calls ∧
      (∀ q, (s'.items q).map ResmanItem.payload =
        if q = p then some x.payload else (s.items q).map ResmanItem.payload) ∧
      ∀ e, (s'.contexts e).map ResmanContext.links = (s.contexts e).map ResmanContext.links := by
  obtain ⟨ctx, hctx⟩ := Option.isSome_iff_exists.mp hc
  have hchain := h.chain c hc
  have hhead : (itemCells s).head c = ctx.resItemList := by simp [itemCells, hctx]
  have hfirst (b : ℕ) (hb : ctx.resItemList = some b) : b ∈ lists c :=
    hchain.head_mem (hhead.trans hb)
  have hlive (e q : ℕ) (hq : q ∈ lists e) : (s.items q).isSome = true :=
    Option.isSome_iff_exists.mpr (h.item hq)
  have hne (e q : ℕ) (hq : q ∈ lists e) : q ≠ p := fun hqp => hp e (hqp ▸ hq)
  let s₁ : ResList := ⟨Function.update s.items p
      (some { x with ppsThis := .head c, psNext := ctx.resItemList }),
    Function.update s.contexts c (some { ctx with resItemList := some p }), s.contextList,
    allocated, s.calls⟩
  obtain ⟨items, hset, hitems⟩ := setItemPlace_spec (s := s₁) ctx.resItemList (.next p)
    fun b hb => by
      have hbp := hne c b (hfirst b hb)
      have hb := hlive c b (hfirst b hb)
      simpa [s₁, hbp] using hb
  have hself : items p = some { x with ppsThis := .head c, psNext := ctx.resItemList } := by
    have hpfirst : ctx.resItemList ≠ some p := fun hpf => hp c (hfirst p hpf)
    rw [hitems p, if_neg hpfirst]
    exact Function.update_self ..
  have hother (q : ℕ) (hq : q ≠ p) : items q =
      if ctx.resItemList = some q then (s.items q).map fun y => { y with ppsThis := .next p }
      else s.items q := by
    have hs₁ : s₁.items q = s.items q := Function.update_of_ne hq ..
    rw [hitems q, hs₁]
  have hnext (e q : ℕ) (hq : q ∈ lists e) : ((items q).bind fun y => y.psNext) =
      (s.items q).bind fun y => y.psNext := by
    obtain ⟨y, hy⟩ := h.item hq
    rw [hother q (hne e q hq), hy]
    split <;> rfl
  have hthis (e q : ℕ) (hq : q ∈ lists e) : ((items q).map fun y => y.ppsThis) =
      if ctx.resItemList = some q then some (.next p) else (s.items q).map fun y => y.ppsThis := by
    obtain ⟨y, hy⟩ := h.item hq
    rw [hother q (hne e q hq), hy]
    split <;> rfl
  have hcontexts (e : ℕ) : (s₁.contexts e).map ResmanContext.links =
      (s.contexts e).map ResmanContext.links := by
    by_cases hec : e = c
    · rw [hec, hctx]
      simp [s₁, ResmanContext.links]
    · simp [s₁, hec]
  refine ⟨{ s₁ with items := items }, ?_, ?_, rfl, ?_, hcontexts⟩
  · unfold pushItem
    simp only [hctx, Option.bind_eq_bind, Option.bind_some]
    exact hset
  · constructor
    case chain =>
      intro e he
      have he : (s.contexts e).isSome = true := by
        rw [← isSome_of_links (hcontexts e)]
        exact he
      by_cases hec : e = c
      · rw [hec, Function.update_self]
        apply hchain.push
        case hhead => simp [itemCells, s₁]
        case hself => simp [itemCells, hself]
        case hfirst => simp [itemCells, hself, hctx]
        case hback =>
          intro b hb
          have hb := hhead.symm.trans hb
          exact (hthis c b (hfirst b hb)).trans (if_pos hb)
        case hnext => exact fun q hq => hnext c q hq
        case hthis =>
          intro q hq hqf
          rw [hhead] at hqf
          exact (hthis c q hq).trans (if_neg hqf)
      · rw [Function.update_of_ne hec]
        apply (h.chain e he).congr
        case hloc => simp [itemCells, Cells.deref, s₁, hec]
        case hnext => exact fun q hq => hnext e q hq
        case hthis =>
          intro q hq
          refine (hthis e q hq).trans (if_neg fun hqf => hec ?_)
          exact h.apart q e c hq (hfirst q hqf)
    case dead =>
      intro e he
      have he : (s.contexts e).isSome = false := by
        rw [← isSome_of_links (hcontexts e)]
        exact he
      have hec : e ≠ c := fun hec => by
        rw [hec, hc] at he
        cases he
      rw [Function.update_of_ne hec]
      exact h.dead e he
    case apart =>
      intro q e f he hf
      by_cases hq : q = p
      · have honly (e : ℕ) (he : q ∈ Function.update lists c (p :: lists c) e) : e = c := by
          by_contra hec
          rw [Function.update_of_ne hec, hq] at he
          exact hp e he
        rw [honly e he, honly f hf]
      · have hold (e : ℕ) (he : q ∈ Function.update lists c (p :: lists c) e) : q ∈ lists e := by
          by_cases hec : e = c
          · rw [hec, Function.update_self] at he
            rw [hec]
            exact (List.mem_cons.mp he).resolve_left hq
          · rwa [Function.update_of_ne hec] at he
        exact h.apart q e f (hold e he) (hold f hf)
    case allocated =>
      intro q
      refine (hallocated q).trans ?_
      by_cases hq : q = p
      · simp [hq, hself]
      · rw [h.allocated q]
        dsimp only
        rw [hother q hq]
        split <;> simp [hq]
    case allocNodup => exact hnodup
    case contexts =>
      obtain ⟨l, hl, hmem⟩ := h.contexts
      have hcells : contextCells { s₁ with items := items } = contextCells s :=
        contextCells_congr rfl hcontexts
      refine ⟨l, ?_, fun e => ?_⟩
      · rw [hcells]
        exact hl
      · rw [isSome_of_links (hcontexts e)]
        exact hmem e
  · intro q
    by_cases hq : q = p
    · rw [if_pos hq, hq]
      dsimp only
      rw [hself]
      rfl
    · rw [if_neg hq]
      dsimp only
      rw [hother q hq]
      split <;> cases s.items q <;> rfl

end PvrServices.Resman
