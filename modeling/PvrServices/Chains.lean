import Mathlib.Data.List.Nodup
import Mathlib.Data.List.Perm.Basic

set_option autoImplicit false

/-! Families of chains: what the chains of a family hold together. -/
namespace PvrServices.Chains
variable {α : Type} {t u : ℕ → List α}

theorem flatMap_perm_cons {l : List ℕ} {i : ℕ} {e : α} (hl : l.Nodup) (hi : i ∈ l)
    (hgain : (t i).Perm (e :: u i)) (hrest : ∀ j, j ≠ i → t j = u j) :
    (l.flatMap t).Perm (e :: l.flatMap u) := by
  induction l with
  | nil => cases hi
  | cons j l ih =>
    rw [List.nodup_cons] at hl
    rw [List.flatMap_cons, List.flatMap_cons]
    by_cases hji : j = i
    · have htail : l.flatMap t = l.flatMap u := by
        apply List.flatMap_congr
        intro k hk
        apply hrest
        intro hki
        rw [hji, ← hki] at hl
        exact hl.1 hk
      rw [hji, htail]
      exact hgain.append_right _
    · have hil : i ∈ l := (List.mem_cons.mp hi).resolve_left (Ne.symm hji)
      rw [hrest j hji]
      calc
        (u j ++ l.flatMap t).Perm (u j ++ e :: l.flatMap u) := (ih hl.2 hil).append_left _
        (u j ++ e :: l.flatMap u).Perm (e :: (u j ++ l.flatMap u)) := List.perm_middle

theorem flatMap_filter_perm (g : α → ℕ) {n : ℕ} (es : List α) (h : ∀ e ∈ es, g e < n) :
    ((List.range n).flatMap fun i => (es.filter fun e => g e = i).reverse).Perm es := by
  induction es with
  | nil => simp
  | cons e es ih =>
    have hlt : g e ∈ List.range n := List.mem_range.mpr (h e (by simp))
    apply (flatMap_perm_cons (u := fun i => (es.filter fun e => g e = i).reverse)
      List.nodup_range hlt ?_ ?_).trans
    · exact (ih fun x hx => h x (List.mem_cons_of_mem _ hx)).cons e
    · rw [List.filter_cons_of_pos (by simp), List.reverse_cons]
      exact List.perm_append_singleton _ _
    · intro j hj
      rw [List.filter_cons_of_neg (by simpa using Ne.symm hj)]

end PvrServices.Chains
