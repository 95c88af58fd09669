import Mathlib.Data.List.Nodup

set_option autoImplicit false

/-!
# Lists of next pointers

A list hangs from a pointer, goes from item to item and ends in a null pointer.
-/
namespace PvrServices.PointerList
variable {α : Type}

def Linked (next : α → Option α) : Option α → List α → Prop
  | p, [] => p = none
  | p, a :: l => p = some a ∧ Linked next (next a) l

variable {next next' : α → Option α} {p : Option α} {a b : α} {l l' : List α}

theorem Linked.unique (h : Linked next p l) (h' : Linked next p l') : l = l' := by
  induction l generalizing p l' with
  | nil =>
    cases l' with
    | nil => rfl
    | cons b l' => cases h.symm.trans h'.1
  | cons a l ih =>
    cases l' with
    | nil => cases h.1.symm.trans h'
    | cons b l' =>
      have hab : a = b := Option.some.inj (h.1.symm.trans h'.1)
      rw [← hab] at h' ⊢
      rw [ih h.2 h'.2]

theorem Linked.tail_at {pre : List α} (h : Linked next p (pre ++ a :: l)) :
    Linked next (next a) l := by
  induction pre generalizing p with
  | nil => exact h.2
  | cons b pre ih => exact ih h.2

theorem Linked.nodup (h : Linked next p l) : l.Nodup := by
  induction l generalizing p with
  | nil => exact List.nodup_nil
  | cons a l ih =>
    refine List.nodup_cons.mpr ⟨fun ha => ?_, ih h.2⟩
    obtain ⟨pre, post, hl⟩ := List.append_of_mem ha
    have hrest : Linked next (next a) (pre ++ a :: post) := hl ▸ h.2
    have hlen := congrArg List.length (h.2.unique hrest.tail_at)
    rw [hl, List.length_append, List.length_cons] at hlen
    omega

theorem Linked.congr (h : Linked next p l) (hnext : ∀ a ∈ l, next' a = next a) :
    Linked next' p l := by
  induction l generalizing p with
  | nil => exact h
  | cons a l ih =>
    refine ⟨h.1, ?_⟩
    rw [hnext a List.mem_cons_self]
    exact ih h.2 fun b hb => hnext b (List.mem_cons_of_mem a hb)

theorem Linked.next_eq_none_iff (h : Linked next p l) (ha : a ∈ l) :
    next a = none ↔ l.getLast? = some a := by
  induction l generalizing p with
  | nil => cases ha
  | cons b l ih =>
    cases l with
    | nil =>
      rw [List.mem_singleton.mp ha]
      exact ⟨fun _ => rfl, fun _ => h.2⟩
    | cons c l =>
      rw [List.getLast?_cons_cons]
      cases List.mem_cons.mp ha with
      | inl hab =>
        rw [hab]
        constructor
        · intro hb
          cases hb.symm.trans h.2.1
        · intro hb
          exact absurd (List.mem_of_getLast? hb) (List.nodup_cons.mp h.nodup).1
      | inr ha => exact ih h.2 ha

theorem Linked.snoc (h : Linked next p (l ++ [a])) (hlast : next' a = some b)
    (hend : next' b = none) (hnext : ∀ c ∈ l, next' c = next c) :
    Linked next' p (l ++ [a, b]) := by
  induction l generalizing p with
  | nil => exact ⟨h.1, hlast, hend⟩
  | cons c l ih =>
    refine ⟨h.1, ?_⟩
    rw [hnext c List.mem_cons_self]
    exact ih h.2 fun d hd => hnext d (List.mem_cons_of_mem c hd)

end PvrServices.PointerList
