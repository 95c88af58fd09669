import Mathlib.Logic.Function.Basic
import Mathlib.Tactic.Common

set_option autoImplicit false

/-!
# Resources and their owners

Objects at addresses hold resources. Nothing is lost and nothing is shared: a resource is live
exactly while an object holds it, and no two objects hold the same one.
-/
namespace PvrServices.Ownership
variable {α β κ : Type} {objects : α → Option β} {holds : β → κ → Prop}
  {live live' : κ → Prop} {m : α} {b b' : β}

structure Owned (objects : α → Option β) (holds : β → κ → Prop) (live : κ → Prop) : Prop where
  live_of_holds : ∀ m b x, objects m = some b → holds b x → live x
  owner : ∀ x, live x → ∃ m b, objects m = some b ∧ holds b x
  apart : ∀ m n b c x, objects m = some b → objects n = some c → holds b x → holds c x → m = n

theorem Owned.congr (h : Owned objects holds live) (hlive : ∀ x, live' x ↔ live x) :
    Owned objects holds live' where
  live_of_holds := fun m b x hm hx => (hlive x).mpr (h.live_of_holds m b x hm hx)
  owner := fun x hx => h.owner x ((hlive x).mp hx)
  apart := h.apart

variable [DecidableEq α]

theorem update_some_cases {f : α → Option β} {p q : α} {x y : β}
    (h : Function.update f p (some y) q = some x) : q = p ∧ x = y ∨ q ≠ p ∧ f q = some x := by
  by_cases hq : q = p
  · rw [hq, Function.update_self, Option.some.injEq] at h
    exact .inl ⟨hq, h.symm⟩
  · rw [Function.update_of_ne hq] at h
    exact .inr ⟨hq, h⟩

theorem Owned.add (h : Owned objects holds live) (hm : objects m = none)
    (hfresh : ∀ x, holds b x → ¬live x) :
    Owned (Function.update objects m (some b)) holds fun x => live x ∨ holds b x := by
  constructor
  case live_of_holds =>
    intro n c x hn hx
    cases update_some_cases hn with
    | inl hnew => exact .inr (hnew.2 ▸ hx)
    | inr hold => exact .inl (h.live_of_holds n c x hold.2 hx)
  case owner =>
    intro x hx
    cases hx with
    | inl hx =>
      obtain ⟨n, c, hn, hc⟩ := h.owner x hx
      have hnm : n ≠ m := fun hnm => by
        rw [hnm, hm] at hn
        cases hn
      exact ⟨n, c, by rw [Function.update_of_ne hnm]; exact hn, hc⟩
    | inr hx => exact ⟨m, b, Function.update_self .., hx⟩
  case apart =>
    intro n n' c c' x hn hn' hx hx'
    cases update_some_cases hn with
    | inl hnew =>
      cases update_some_cases hn' with
      | inl hnew' => rw [hnew.1, hnew'.1]
      | inr hold' =>
        exact absurd (h.live_of_holds n' c' x hold'.2 hx') (hfresh x (hnew.2 ▸ hx))
    | inr hold =>
      cases update_some_cases hn' with
      | inl hnew' =>
        exact absurd (h.live_of_holds n c x hold.2 hx) (hfresh x (hnew'.2 ▸ hx'))
      | inr hold' => exact h.apart n n' c c' x hold.2 hold'.2 hx hx'

theorem Owned.drop (h : Owned objects holds live) (hm : objects m = some b) :
    Owned (Function.update objects m none) holds fun x => live x ∧ ¬holds b x := by
  have hcases (n : α) (c : β) (hn : Function.update objects m none n = some c) :
      n ≠ m ∧ objects n = some c := by
    by_cases hnm : n = m
    · rw [hnm, Function.update_self] at hn
      cases hn
    · rw [Function.update_of_ne hnm] at hn
      exact ⟨hnm, hn⟩
  constructor
  case live_of_holds =>
    intro n c x hn hx
    obtain ⟨hnm, hold⟩ := hcases n c hn
    exact ⟨h.live_of_holds n c x hold hx, fun hbx => hnm (h.apart n m c b x hold hm hx hbx)⟩
  case owner =>
    intro x hx
    obtain ⟨n, c, hn, hc⟩ := h.owner x hx.1
    have hnm : n ≠ m := fun hnm => by
      rw [hnm, hm, Option.some.injEq] at hn
      exact hx.2 (hn ▸ hc)
    exact ⟨n, c, by rw [Function.update_of_ne hnm]; exact hn, hc⟩
  case apart =>
    intro n n' c c' x hn hn' hx hx'
    exact h.apart n n' c c' x (hcases n c hn).2 (hcases n' c' hn').2 hx hx'

theorem Owned.replace (h : Owned objects holds live) (hm : objects m = some b)
    (hsame : ∀ x, holds b' x ↔ holds b x) :
    Owned (Function.update objects m (some b')) holds live := by
  have hcases (n : α) (c : β) (hn : Function.update objects m (some b') n = some c) :
      ∃ d, objects n = some d ∧ ∀ x, holds c x ↔ holds d x := by
    cases update_some_cases hn with
    | inl hnew => exact ⟨b, hnew.1 ▸ hm, hnew.2 ▸ hsame⟩
    | inr hold => exact ⟨c, hold.2, fun _ => Iff.rfl⟩
  constructor
  case live_of_holds =>
    intro n c x hn hx
    obtain ⟨d, hd, hiff⟩ := hcases n c hn
    exact h.live_of_holds n d x hd ((hiff x).mp hx)
  case owner =>
    intro x hx
    obtain ⟨n, c, hn, hc⟩ := h.owner x hx
    by_cases hnm : n = m
    · rw [hnm, hm, Option.some.injEq] at hn
      exact ⟨m, b', Function.update_self .., (hsame x).mpr (hn ▸ hc)⟩
    · exact ⟨n, c, by rw [Function.update_of_ne hnm]; exact hn, hc⟩
  case apart =>
    intro n n' c c' x hn hn' hx hx'
    obtain ⟨d, hd, hiff⟩ := hcases n c hn
    obtain ⟨d', hd', hiff'⟩ := hcases n' c' hn'
    exact h.apart n n' d d' x hd hd' ((hiff x).mp hx) ((hiff' x).mp hx')

end PvrServices.Ownership
