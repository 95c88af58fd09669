import PvrServices.ResmanLists

set_option autoImplicit false

/-!
# The contexts of the resource manager

The contexts are linked like the items of one list. A context comes to the front of them, and is
unlinked when its process ends.
-/
namespace PvrServices.Resman
open LinkedChain
variable {s s' : ResList} {lists lists' : ℕ → List ℕ} {c : ℕ}

theorem Shaped.recontexted (h : Shaped s lists) (s' : ResList) (hitems : s'.items = s.items)
    (hallocated : s'.allocated = s.allocated)
    (hchain : ∀ c, (s'.contexts c).isSome = true → (s.contexts c).isSome = true ∧
      ((s'.contexts c).bind fun x => x.resItemList) = (s.contexts c).bind fun x => x.resItemList)
    (hkept : ∀ c, (s'.contexts c).isSome = true → lists' c = lists c)
    (hdead : ∀ c, (s'.contexts c).isSome = false → lists' c = [])
    (hcontexts : ∃ l, Chain (contextCells s') (.head ()) l ∧
      ∀ c, c ∈ l ↔ (s'.contexts c).isSome = true) : Shaped s' lists' where
  chain := by
    intro c hc
    obtain ⟨hold, hlist⟩ := hchain c hc
    rw [hkept c hc]
    apply (h.chain c hold).congr
    case hloc => exact hlist
    case hnext =>
      intro q _
      simp [itemCells, hitems]
    case hthis =>
      intro q _
      simp [itemCells, hitems]
  dead := hdead
  apart := by
    intro q e f he hf
    have hold (e : ℕ) (he : q ∈ lists' e) : q ∈ lists e := by
      cases hc : (s'.contexts e).isSome with
      | true => rwa [← hkept e hc]
      | false =>
        rw [hdead e hc] at he
        cases he
    exact h.apart q e f (hold e he) (hold f hf)
  allocated := fun q => by
    rw [hallocated, hitems]
    exact h.allocated q
  allocNodup := by
    rw [hallocated]
    exact h.allocNodup
  contexts := hcontexts

theorem setContextPlace_spec (v : Option ℕ) (loc : Loc Unit ℕ)
    (hv : ∀ b, v = some b → (s.contexts b).isSome = true) :
    ∃ contexts, setContextPlace s v loc = some { s with contexts := contexts } ∧
      ∀ e, contexts e = if v = some e then (s.contexts e).map fun x => { x with ppsThis := loc }
        else s.contexts e := by
  cases v with
  | none => exact ⟨s.contexts, rfl, fun e => rfl⟩
  | some b =>
    obtain ⟨x, hx⟩ := Option.isSome_iff_exists.mp (hv b rfl)
    refine ⟨_, by simp only [setContextPlace, hx]; rfl, fun e => ?_⟩
    by_cases he : e = b
    · simp [he, hx]
    · simp [he, Ne.symm he]

theorem Shaped.connect (h : Shaped s lists) (hc : s.contexts c = none) (perProc : ℕ) :
    ∃ s', pvrsrvResManConnect s perProc (some c) = some (.ok c, s') ∧ Shaped s' lists ∧
      s'.items = s.items := by
  obtain ⟨l, hl, hmem⟩ := h.contexts
  have hcl : c ∉ l := by
    rw [hmem c, hc]
    decide
  have hfirst (b : ℕ) (hb : s.contextList = some b) : b ∈ l :=
    hl.head_mem (b := b) hb
  have hne (b : ℕ) (hb : b ∈ l) : b ≠ c := fun hbc => hcl (hbc ▸ hb)
  let s₁ : ResList := ⟨s.items,
    Function.update s.contexts c (some ⟨.head (), s.contextList, perProc, none⟩), some c,
    s.allocated, s.calls⟩
  obtain ⟨contexts, hset, hcontexts⟩ := setContextPlace_spec (s := s₁) s.contextList (.next c)
    fun b hb => by
      have hb' := hfirst b hb
      simpa [s₁, hne b hb'] using (hmem b).mp hb'
  have hself : contexts c = some ⟨.head (), s.contextList, perProc, none⟩ := by
    rw [hcontexts c, if_neg fun hcf => hcl (hfirst c hcf)]
    exact Function.update_self ..
  have hother (e : ℕ) (he : e ≠ c) : contexts e = if s.contextList = some e then
      (s.contexts e).map fun x => { x with ppsThis := .next c } else s.contexts e := by
    have hs₁ : s₁.contexts e = s.contexts e := Function.update_of_ne he ..
    rw [hcontexts e, hs₁]
  have hsome (e : ℕ) (he : e ≠ c) : (contexts e).isSome = (s.contexts e).isSome := by
    rw [hother e he]
    split <;> simp
  refine ⟨{ s₁ with contexts := contexts }, ?_, ?_, rfl⟩
  · unfold pvrsrvResManConnect
    have hset' : setContextPlace { s.setContext c ⟨.head (), s.contextList, perProc, none⟩ with
        contextList := some c } s.contextList (.next c) = some { s₁ with contexts := contexts } :=
      hset
    simp only [hset', Option.bind_eq_bind, Option.bind_some]
  · have hnil : lists c = [] := h.dead c (by rw [hc]; rfl)
    constructor
    case chain =>
      intro e he
      by_cases hec : e = c
      · rw [hec, hnil]
        simp [Chain, Cells.deref, itemCells, hself]
      · have he : (s.contexts e).isSome = true := by
          rw [← hsome e hec]
          exact he
        obtain ⟨y, hy⟩ := Option.isSome_iff_exists.mp he
        apply (h.chain e he).congr
        case hloc =>
          have hbind : ((contexts e).bind fun x => x.resItemList) = y.resItemList := by
            rw [hother e hec, hy]
            split <;> rfl
          simp only [Cells.deref, itemCells, hy, Option.bind_some]
          exact hbind
        case hnext => exact fun q _ => rfl
        case hthis => exact fun q _ => rfl
    case dead =>
      intro e he
      by_cases hec : e = c
      · rw [hec]
        exact hnil
      · exact h.dead e (by rw [← hsome e hec]; exact he)
    case apart => exact h.apart
    case allocated => exact h.allocated
    case allocNodup => exact h.allocNodup
    case contexts =>
      refine ⟨c :: l, ?_, fun e => ?_⟩
      · apply hl.push
        case hhead => rfl
        case hself => simp [contextCells, hself]
        case hfirst => simp [contextCells, hself]
        case hback =>
          intro b hb
          have hb : s.contextList = some b := hb
          obtain ⟨y, hy⟩ := Option.isSome_iff_exists.mp ((hmem b).mp (hfirst b hb))
          have hmap : ((contexts b).map fun x => x.ppsThis) = some (.next c) := by
            rw [hother b (hne b (hfirst b hb)), if_pos hb, hy]
            rfl
          exact hmap
        case hnext =>
          intro b hb
          obtain ⟨y, hy⟩ := Option.isSome_iff_exists.mp ((hmem b).mp hb)
          have hbind : ((contexts b).bind fun x => x.psNext) =
              (s.contexts b).bind fun x => x.psNext := by
            rw [hother b (hne b hb), hy]
            split <;> rfl
          exact hbind
        case hthis =>
          intro b hb hbf
          have hbf : s.contextList ≠ some b := hbf
          have hmap : ((contexts b).map fun x => x.ppsThis) =
              (s.contexts b).map fun x => x.ppsThis := by
            rw [hother b (hne b hb), if_neg hbf]
          exact hmap
      · rw [List.mem_cons]
        by_cases hec : e = c
        · simp [hec, hself]
        · rw [hmem e, hsome e hec]
          simp [hec]

theorem storeContext_spec {loc : Loc Unit ℕ} (v : Option ℕ)
    (hnext : ∀ b, loc = .next b → (s.contexts b).isSome = true) :
    ∃ contexts contextList, storeContext s loc v =
        some { s with contexts := contexts, contextList := contextList } ∧
      (contextList = if loc = .head () then v else s.contextList) ∧
      ∀ e, contexts e = if loc = .next e then (s.contexts e).map fun x => { x with psNext := v }
        else s.contexts e := by
  cases loc with
  | head k => exact ⟨s.contexts, v, rfl, by simp, fun e => by simp⟩
  | next b =>
    obtain ⟨x, hx⟩ := Option.isSome_iff_exists.mp (hnext b rfl)
    refine ⟨_, s.contextList, by simp only [storeContext, hx]; rfl, by simp, fun e => ?_⟩
    by_cases he : e = b
    · simp [he, hx]
    · simp [he, Ne.symm he]

/-- The end of `PVRSRVResManDisconnect`: the context is unlinked and given back. -/
theorem Shaped.dropContext (h : Shaped s lists) {ctx : ResmanContext}
    (hc : s.contexts c = some ctx) :
    ∃ t u, storeContext s ctx.ppsThis ctx.psNext = some t ∧
      setContextPlace t ctx.psNext ctx.ppsThis = some u ∧ u.calls = s.calls ∧
      u.items = s.items ∧
      Shaped { u with contexts := Function.update u.contexts c none }
        (Function.update lists c []) := by
  obtain ⟨l, hl, hmem⟩ := h.contexts
  obtain ⟨pre, post, hsplit⟩ := List.append_of_mem ((hmem c).mpr (by rw [hc]; rfl))
  rw [hsplit] at hl
  have hthis : (contextCells s).this c = some ctx.ppsThis := by simp [contextCells, hc]
  have hnextc : (contextCells s).next c = ctx.psNext := by simp [contextCells, hc]
  have hafter (b : ℕ) (hb : ctx.psNext = some b) : b ∈ post := hl.next_mem (hnextc.trans hb)
  have hbefore := hl.place_cases hthis
  have hnodup := hl.nodup
  rw [List.nodup_middle, List.nodup_cons] at hnodup
  have hlive (b : ℕ) (hb : b ∈ pre ++ post) : (s.contexts b).isSome = true := by
    rw [← hmem b, hsplit]
    simp only [List.mem_append, List.mem_cons] at hb ⊢
    tauto
  have hplace (b : ℕ) (hb : ctx.ppsThis = .next b) : b ∈ pre := by
    cases hbefore with
    | inl hh => cases hh.symm.trans hb
    | inr hr =>
      obtain ⟨r, hr, hrx⟩ := hr
      rw [← Loc.next.inj (hrx.symm.trans hb)]
      exact hr
  have hne (b : ℕ) (hb : b ∈ pre ++ post) : b ≠ c := fun hbc => hnodup.1 (hbc ▸ hb)
  obtain ⟨contexts₁, first, h₁, hfirst, hcontexts₁⟩ := storeContext_spec (s := s) ctx.psNext
    fun b hb => hlive b (List.mem_append_left _ (hplace b hb))
  obtain ⟨contexts₂, h₂, hcontexts₂⟩ := setContextPlace_spec
    (s := { s with contexts := contexts₁, contextList := first }) ctx.psNext ctx.ppsThis
    fun b hb => by
      have hb := hlive b (List.mem_append_right _ (hafter b hb))
      dsimp only
      rw [hcontexts₁ b]
      split <;> simpa using hb
  have hcontexts (e : ℕ) : contexts₂ e =
      if ctx.psNext = some e then (contexts₁ e).map fun x => { x with ppsThis := ctx.ppsThis }
      else contexts₁ e := hcontexts₂ e
  have hsome (e : ℕ) : (contexts₂ e).isSome = (s.contexts e).isSome := by
    rw [hcontexts e, hcontexts₁ e]
    split <;> split <;> simp
  refine ⟨_, ⟨s.items, contexts₂, first, s.allocated, s.calls⟩, h₁, h₂, rfl, rfl, ?_⟩
  apply h.recontexted ⟨s.items, Function.update contexts₂ c none, first, s.allocated,
    s.calls⟩ rfl rfl
  case hchain =>
    intro e he
    dsimp only at he ⊢
    have hec : e ≠ c := fun hec => by
      rw [hec, Function.update_self] at he
      cases he
    rw [Function.update_of_ne hec, hsome e] at he
    refine ⟨he, ?_⟩
    obtain ⟨y, hy⟩ := Option.isSome_iff_exists.mp he
    rw [Function.update_of_ne hec, hcontexts e, hcontexts₁ e, hy]
    split <;> split <;> rfl
  case hkept =>
    intro e he
    have hec : e ≠ c := fun hec => by
      rw [hec] at he
      simp at he
    exact Function.update_of_ne hec ..
  case hdead =>
    intro e he
    by_cases hec : e = c
    · rw [hec, Function.update_self]
    · dsimp only at he
      rw [Function.update_of_ne hec, hsome e] at he
      rw [Function.update_of_ne hec]
      exact h.dead e he
  case hcontexts =>
    refine ⟨pre ++ post, ?_, fun e => ?_⟩
    · have hcell (b : ℕ) (hb : b ∈ pre ++ post) : ∃ y, s.contexts b = some y ∧
          Function.update contexts₂ c none b =
            if ctx.psNext = some b then (contexts₁ b).map fun x => { x with ppsThis := ctx.ppsThis }
            else contexts₁ b := by
        obtain ⟨y, hy⟩ := Option.isSome_iff_exists.mp (hlive b hb)
        exact ⟨y, hy, by rw [Function.update_of_ne (hne b hb), hcontexts b]⟩
      apply hl.unlink (fun _ hb => by cases hb) hthis
      case hjoin =>
        cases hbefore with
        | inl hh =>
          rw [hh, hnextc]
          simp [Cells.deref, contextCells, hfirst, hh]
        | inr hr =>
          obtain ⟨r, hr, hrx⟩ := hr
          obtain ⟨y, hy, heq⟩ := hcell r (List.mem_append_left _ hr)
          rw [hrx, hnextc]
          simp only [Cells.deref, contextCells, heq, hcontexts₁ r, hrx, hy]
          split <;> rfl
      case hback =>
        intro b hb
        rw [hnextc] at hb
        obtain ⟨y, hy, heq⟩ := hcell b (List.mem_append_right _ (hafter b hb))
        simp only [contextCells, heq, if_pos hb, hcontexts₁ b, hy]
        split <;> rfl
      case hloc =>
        intro hne'
        simp [Cells.deref, contextCells, hfirst, hne']
      case hnext =>
        intro b hb hbp
        obtain ⟨y, hy, heq⟩ := hcell b hb
        simp only [contextCells, heq, hcontexts₁ b, if_neg hbp, hy]
        split <;> rfl
      case hthis =>
        intro b hb hbn
        rw [hnextc] at hbn
        obtain ⟨y, hy, heq⟩ := hcell b hb
        simp only [contextCells, heq, if_neg hbn, hcontexts₁ b, hy]
        split <;> rfl
    · dsimp only
      by_cases hec : e = c
      · rw [hec, Function.update_self]
        simp [hnodup.1]
      · rw [Function.update_of_ne hec, hsome e, ← hmem e, hsplit]
        simp [hec]

end PvrServices.Resman
