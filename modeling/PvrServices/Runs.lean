import Mathlib.Tactic.Common

set_option autoImplicit false

/-!
# Runs of a machine

A machine answers each call with a result and a new state, or not at all. `Run` records the
calls and their answers; `ok` says which calls are made in which states.
-/
namespace PvrServices.Runs
variable {σ α ρ γ : Type} {step : σ → α → Option (ρ × σ)} {ok ok' : σ → α → Prop}

inductive Run (step : σ → α → Option (ρ × σ)) (ok : σ → α → Prop) (s : σ) :
    List (α × ρ) → σ → Prop where
  | refl : Run step ok s [] s
  | snoc {l : List (α × ρ)} {t u : σ} {a : α} {r : ρ} (run : Run step ok s l t) (h : ok t a)
      (hs : step t a = some (r, u)) : Run step ok s (l ++ [(a, r)]) u

theorem Run.trans {s t u : σ} {l m : List (α × ρ)} (h : Run step ok s l t)
    (h' : Run step ok t m u) : Run step ok s (l ++ m) u := by
  induction h' with
  | refl => simpa using h
  | snoc _ ha hs ih =>
    rw [← List.append_assoc]
    exact .snoc ih ha hs

theorem Run.mono {s t : σ} {l : List (α × ρ)} (h : Run step ok s l t)
    (hok : ∀ s a, ok s a → ok' s a) : Run step ok' s l t := by
  induction h with
  | refl => exact .refl
  | snoc _ ha hs ih => exact .snoc ih (hok _ _ ha) hs

theorem Run.last {s u : σ} {l : List (α × ρ)} {a : α} {r : ρ}
    (h : Run step ok s (l ++ [(a, r)]) u) :
    ∃ t, Run step ok s l t ∧ ok t a ∧ step t a = some (r, u) := by
  generalize hm : l ++ [(a, r)] = m at h
  cases h with
  | refl => simp at hm
  | snoc run ha hs =>
    obtain ⟨hl, har⟩ := List.append_inj' hm rfl
    simp only [List.cons.injEq, Prod.mk.injEq, and_true] at har
    rw [hl, har.1, har.2]
    exact ⟨_, run, ha, hs⟩

theorem Run.of_nil {s t : σ} (h : Run step ok s [] t) : s = t := by
  generalize hl : ([] : List (α × ρ)) = l at h
  cases h with
  | refl => rfl
  | snoc _ _ _ => simp at hl

theorem Run.first {s t : σ} {l : List (α × ρ)} {a : α} {r : ρ}
    (h : Run step ok s ((a, r) :: l) t) :
    ∃ u, ok s a ∧ step s a = some (r, u) ∧ Run step ok u l t := by
  generalize hm : (a, r) :: l = m at h
  induction h generalizing l with
  | refl => cases hm
  | @snoc m u t b q run hb hs ih =>
    cases m with
    | nil =>
      rw [List.nil_append, List.cons.injEq, Prod.mk.injEq] at hm
      rw [hm.1.1, hm.1.2, hm.2, run.of_nil]
      exact ⟨t, hb, hs, .refl⟩
    | cons x m =>
      rw [List.cons_append, List.cons.injEq] at hm
      obtain ⟨v, ha, hv, hrun⟩ := ih (l := m) (by rw [hm.1])
      rw [hm.2]
      exact ⟨v, ha, hv, .snoc hrun hb hs⟩

theorem Run.split {s t : σ} {l m : List (α × ρ)} (h : Run step ok s (l ++ m) t) :
    ∃ u, Run step ok s l u ∧ Run step ok u m t := by
  induction l generalizing s with
  | nil => exact ⟨s, .refl, h⟩
  | cons x l ih =>
    obtain ⟨u, ha, hs, hrest⟩ := Run.first (a := x.1) (r := x.2) h
    obtain ⟨v, hl, hm⟩ := ih hrest
    have hone : Run step ok s ([] ++ [(x.1, x.2)]) u := .snoc .refl ha hs
    exact ⟨v, hone.trans hl, hm⟩

theorem Run.restrict {s t : σ} {l : List (α × ρ)} {P : α → Prop} (h : Run step ok s l t)
    (hP : ∀ x ∈ l, P x.1) : Run step (fun s a => ok s a ∧ P a) s l t := by
  induction h with
  | refl => exact .refl
  | @snoc m u t b q run hb hs ih =>
    refine .snoc (ih fun x hx => hP x (List.mem_append_left _ hx)) ⟨hb, ?_⟩ hs
    exact hP (b, q) (List.mem_append_right _ (List.mem_singleton_self _))

theorem Run.unique {s t u : σ} {l : List (α × ρ)} (h : Run step ok s l t)
    (h' : Run step ok' s l u) : t = u := by
  induction h generalizing u with
  | refl =>
    generalize hl : ([] : List (α × ρ)) = m at h'
    cases h' with
    | refl => rfl
    | snoc _ _ _ => simp at hl
  | snoc _ _ hs ih =>
    obtain ⟨v, run', -, hs'⟩ := h'.last
    rw [← ih run', hs, Option.some.injEq, Prod.mk.injEq] at hs'
    exact hs'.2

/-- What holds of a run exactly when it holds of all but the last call, and the last call is good,
    says that every call is good. -/
theorem Run.good_iff {good : σ → α → Prop} {Q : List (α × ρ) → Prop} {s t : σ}
    {l : List (α × ρ)} (h : Run step ok s l t) (h₀ : Q [])
    (hsnoc : ∀ l t a r u, Run step ok s l t → step t a = some (r, u) →
      (Q (l ++ [(a, r)]) ↔ Q l ∧ good t a)) : Q l ↔ Run step good s l t := by
  induction h with
  | refl => exact ⟨fun _ => .refl, fun _ => h₀⟩
  | @snoc l t u a r run _ hs ih =>
    rw [hsnoc l t a r u run hs, ih]
    constructor
    · intro hboth
      exact .snoc hboth.1 hboth.2 hs
    · intro hrun
      obtain ⟨v, hrun', hgood, -⟩ := hrun.last
      have heq : v = t := hrun'.unique run
      rw [heq] at hrun' hgood
      exact ⟨hrun', hgood⟩

/-- What a step keeps exactly when it is good, a run keeps exactly when all its steps are. -/
theorem Run.kept_iff {good : σ → α → Prop} (I P : σ → Prop) {s t : σ} {l : List (α × ρ)}
    (h : Run step ok s l t) (h₀ : I s) (hP : P s)
    (hstep : ∀ s a r t, I s → ok s a → step s a = some (r, t) → I t ∧ (P t ↔ P s ∧ good s a)) :
    P t ↔ Run step good s l t := by
  have hboth : I t ∧ (P t ↔ Run step good s l t) := by
    induction h with
    | refl => exact ⟨h₀, fun _ => .refl, fun _ => hP⟩
    | @snoc l t u a r run ha hs ih =>
      obtain ⟨hI, hiff⟩ := hstep t a r u ih.1 ha hs
      refine ⟨hI, ?_⟩
      rw [hiff, ih.2]
      constructor
      · intro hgood
        exact .snoc hgood.1 hgood.2 hs
      · intro hrun
        obtain ⟨v, hrun', hgood, -⟩ := hrun.last
        have heq : v = t := hrun'.unique run
        rw [heq] at hrun' hgood
        exact ⟨hrun', hgood⟩
  exact hboth.2

theorem Run.of_prefix {s t : σ} {l m : List (α × ρ)} (h : Run step ok s l t) (hm : m <+: l) :
    ∃ u, Run step ok s m u := by
  induction h with
  | refl =>
    rw [List.prefix_nil.mp hm]
    exact ⟨s, .refl⟩
  | snoc run ha hs ih =>
    cases List.prefix_concat_iff.mp hm with
    | inl hm =>
      rw [hm]
      exact ⟨_, .snoc run ha hs⟩
    | inr hm => exact ih hm

/-- What the admitted steps preserve holds at the end of a run. -/
theorem Run.invariant {s t : σ} {l : List (α × ρ)} (h : Run step ok s l t) (I : σ → Prop)
    (h₀ : I s) (hstep : ∀ s a r t, I s → ok s a → step s a = some (r, t) → I t) : I t := by
  induction h with
  | refl => exact h₀
  | snoc _ ha hs ih => exact hstep _ _ _ _ ih ha hs

/-- An invariant between the state and a ledger that is kept from the calls and answers alone. -/
theorem Run.ledger {s t : σ} {l : List (α × ρ)} (h : Run step ok s l t) (I : σ → γ → Prop)
    (record : γ → α × ρ → γ) (g : γ) (h₀ : I s g)
    (hstep : ∀ s g a r t, I s g → ok s a → step s a = some (r, t) → I t (record g (a, r))) :
    I t (l.foldl record g) := by
  induction h with
  | refl => exact h₀
  | snoc _ ha hs ih =>
    rw [List.foldl_append]
    exact hstep _ _ _ _ _ ih ha hs

/-- The states of a run are all sound, each with the ledger of the run so far, exactly when its
    steps are good, where a good step keeps what makes a state sound, and one that is not good ends
    it. -/
theorem Run.sound_ledger_iff {good : σ → α → Prop} (I P : σ → γ → Prop) (record : γ → α × ρ → γ)
    {g : γ} {s t : σ} {l : List (α × ρ)} (h : Run step ok s l t) (h₀ : I s g)
    (hP : ∀ s g, I s g → P s g)
    (hgood : ∀ s g a r t, I s g → ok s a → good s a → step s a = some (r, t) →
      I t (record g (a, r)))
    (hbad : ∀ s g a r t, I s g → ok s a → ¬good s a → step s a = some (r, t) →
      ¬P t (record g (a, r))) :
    (∀ m u, m <+: l → Run step ok s m u → P u (m.foldl record g)) ↔
      Run step (fun s a => ok s a ∧ good s a) s l t := by
  have hinv {m : List (α × ρ)} {u : σ} (hrun : Run step (fun s a => ok s a ∧ good s a) s m u) :
      I u (m.foldl record g) :=
    hrun.ledger I record g h₀ fun s g a r t hI hok hs => hgood s g a r t hI hok.1 hok.2 hs
  induction h with
  | refl =>
    refine ⟨fun _ => .refl, fun _ m u hm hrun => ?_⟩
    rw [List.prefix_nil.mp hm] at hrun ⊢
    rw [← hrun.of_nil]
    exact hP _ _ h₀
  | @snoc l t u a r run ha hs ih =>
    constructor
    · intro hall
      have hrun := ih.mp fun m v hm hv => hall m v (hm.trans (List.prefix_append _ _)) hv
      refine .snoc hrun ⟨ha, ?_⟩ hs
      by_contra hnot
      have hsound := hall _ u (List.prefix_refl _) (.snoc run ha hs)
      rw [List.foldl_append] at hsound
      exact hbad t _ a r u (hinv hrun) ha hnot hs hsound
    · intro hrun m v hm hv
      obtain ⟨w, hrun', hok, hs'⟩ := hrun.last
      have hw : w = t := hrun'.unique run
      rw [hw] at hrun'
      cases List.prefix_concat_iff.mp hm with
      | inl hm =>
        rw [hm] at hv ⊢
        rw [hv.unique (.snoc run ha hs)]
        exact hP u _ (hinv hrun)
      | inr hm => exact ih.mpr hrun' m v hm hv

/-- The states of a run are all sound exactly when its steps are good, where a good step keeps what
    makes a state sound, and one that is not good ends it. -/
theorem Run.sound_iff {good : σ → α → Prop} (I P : σ → Prop) {s t : σ} {l : List (α × ρ)}
    (h : Run step ok s l t) (h₀ : I s) (hP : ∀ s, I s → P s)
    (hgood : ∀ s a r t, I s → ok s a → good s a → step s a = some (r, t) → I t)
    (hbad : ∀ s a r t, I s → ok s a → ¬good s a → step s a = some (r, t) → ¬P t) :
    (∀ m u, m <+: l → Run step ok s m u → P u) ↔ Run step (fun s a => ok s a ∧ good s a) s l t :=
  h.sound_ledger_iff (g := ()) (fun s _ => I s) (fun s _ => P s) (fun g _ => g) h₀
    (fun s _ hI => hP s hI) (fun s _ a r t hI hok hg hs => hgood s a r t hI hok hg hs)
    fun s _ a r t hI hok hn hs => hbad s a r t hI hok hn hs

def exec (step : σ → α → Option (ρ × σ)) : σ → List α → Option (List (α × ρ) × σ)
  | s, [] => some ([], s)
  | s, a :: as =>
    match step s a with
    | none => none
    | some (r, u) => (exec step u as).map (fun p => ((a, r) :: p.1, p.2))

theorem exec_cons {s u v : σ} {a : α} {as : List α} {r : ρ} {l : List (α × ρ)}
    (h : step s a = some (r, u)) (h' : exec step u as = some (l, v)) :
    exec step s (a :: as) = some ((a, r) :: l, v) := by
  simp [exec, h, h']

def Allowed (step : σ → α → Option (ρ × σ)) (ok : σ → α → Prop) : σ → List α → Prop
  | _, [] => True
  | s, a :: as => ok s a ∧ ∀ u ∈ (step s a).map Prod.snd, Allowed step ok u as

instance [∀ s a, Decidable (ok s a)] (s : σ) (as : List α) : Decidable (Allowed step ok s as) :=
  match as with
  | [] => inferInstanceAs (Decidable True)
  | _ :: as =>
    have (u : σ) : Decidable (Allowed step ok u as) := instDecidableAllowed u as
    inferInstanceAs (Decidable (_ ∧ _))

def allows (step : σ → α → Option (ρ × σ)) (check : σ → α → Bool) : σ → List α → Bool
  | _, [] => true
  | s, a :: as => bif check s a then
      match step s a with
      | none => true
      | some r => allows step check r.2 as
    else false

theorem allowed_of_allows {check : σ → α → Bool} {s : σ} {as : List α}
    (h : allows step check s as = true) : Allowed step (fun s a => check s a = true) s as := by
  induction as generalizing s with
  | nil => trivial
  | cons a as ih =>
    cases hcheck : check s a with
    | false => simp [allows, hcheck] at h
    | true =>
      refine ⟨hcheck, fun u hu => ?_⟩
      obtain ⟨r, hr, hru⟩ := Option.map_eq_some_iff.mp (Option.mem_def.mp hu)
      have hrest : allows step check r.2 as = true := by simpa [allows, hcheck, hr] using h
      rw [← hru]
      exact ih hrest

theorem Run.of_allowed {s t : σ} {as : List α} {l : List (α × ρ)}
    (h : exec step s as = some (l, t)) (hok : Allowed step ok s as) : Run step ok s l t := by
  induction as generalizing s l with
  | nil =>
    simp only [exec, Option.some.injEq, Prod.mk.injEq] at h
    obtain ⟨rfl, rfl⟩ := h
    exact .refl
  | cons a as ih =>
    unfold exec at h
    split at h
    · simp at h
    · rename_i r u hs
      obtain ⟨⟨m, v⟩, hm, he⟩ := Option.map_eq_some_iff.mp h
      simp only [Prod.mk.injEq] at he
      obtain ⟨rfl, rfl⟩ := he
      have h₁ : Run step ok s ([] ++ [(a, r)]) u := .snoc .refl hok.1 hs
      exact h₁.trans (ih hm (hok.2 u (by simp [hs])))

theorem Run.of_exec {s t : σ} {as : List α} {l : List (α × ρ)} (h : exec step s as = some (l, t))
    (hok : ∀ a ∈ as, ∀ s, ok s a) : Run step ok s l t := by
  refine Run.of_allowed h ?_
  clear h
  induction as generalizing s with
  | nil => trivial
  | cons a as ih =>
    exact ⟨hok a (by simp) s, fun u _ => ih (fun a ha => hok a (by simp [ha]))⟩

theorem exec_zip {s t : σ} {as : List α} {l : List (α × ρ)} (h : exec step s as = some (l, t)) :
    l = as.zip (l.map Prod.snd) := by
  induction as generalizing s l with
  | nil =>
    simp only [exec, Option.some.injEq, Prod.mk.injEq] at h
    rw [← h.1]
    rfl
  | cons a as ih =>
    unfold exec at h
    split at h
    · simp at h
    · obtain ⟨⟨m, v⟩, hm, he⟩ := Option.map_eq_some_iff.mp h
      simp only [Prod.mk.injEq] at he
      obtain ⟨rfl, rfl⟩ := he
      rw [List.map_cons, List.zip_cons_cons, ← ih hm]

end PvrServices.Runs
