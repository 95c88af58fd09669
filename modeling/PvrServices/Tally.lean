import Mathlib.Algebra.Ring.Nat
import Mathlib.Data.List.Count
import Mathlib.Logic.Function.Basic

set_option autoImplicit false

/-!
# Tallies

One counter of `w` bits for each thing. A list of things counts up, or back, one after another.
-/
namespace PvrServices.Tally
variable {α : Type} [DecidableEq α] {w : ℕ}

def countUp (f : α → BitVec w) (a : α) : α → BitVec w := Function.update f a (f a + 1)

def countBack (f : α → BitVec w) (a : α) : α → BitVec w := Function.update f a (f a - 1)

def countAllUp (f : α → BitVec w) (l : List α) : α → BitVec w := l.foldl countUp f

def countAllBack (f : α → BitVec w) (l : List α) : α → BitVec w := l.foldl countBack f

@[simp] theorem countAllUp_nil (f : α → BitVec w) : countAllUp f [] = f := rfl

@[simp] theorem countAllUp_cons (f : α → BitVec w) (a : α) (l : List α) :
    countAllUp f (a :: l) = countAllUp (countUp f a) l := rfl

theorem countAllUp_append (f : α → BitVec w) (l m : List α) :
    countAllUp f (l ++ m) = countAllUp (countAllUp f l) m := by
  unfold countAllUp
  exact List.foldl_append

theorem countAllUp_apply (f : α → BitVec w) (l : List α) (a : α) :
    countAllUp f l a = f a + BitVec.ofNat w (l.count a) := by
  induction l generalizing f with
  | nil => simp
  | cons b l ih =>
    rw [countAllUp_cons, ih]
    unfold countUp
    by_cases hba : b = a
    · subst hba
      rw [Function.update_self, List.count_cons_self, BitVec.ofNat_add, BitVec.add_assoc]
      congr 1
      exact BitVec.add_comm _ _
    · rw [Function.update_of_ne (Ne.symm hba), List.count_cons_of_ne hba]

theorem countAllBack_apply (f : α → BitVec w) (l : List α) (a : α) :
    countAllBack f l a + BitVec.ofNat w (l.count a) = f a := by
  induction l generalizing f with
  | nil => simp [countAllBack]
  | cons b l ih =>
    change countAllBack (countBack f b) l a + _ = _
    have hl := ih (countBack f b)
    unfold countBack at hl ⊢
    by_cases hba : b = a
    · subst hba
      rw [Function.update_self] at hl
      rw [List.count_cons_self, BitVec.ofNat_add, ← BitVec.add_assoc, hl]
      exact BitVec.sub_add_cancel _ _
    · rw [Function.update_of_ne (Ne.symm hba)] at hl
      rw [List.count_cons_of_ne hba, hl]

theorem ofNat_count_inj {l m : List α} {a : α} (hl : l.length < 2 ^ w) (hm : m.length < 2 ^ w)
    (h : BitVec.ofNat w (l.count a) = BitVec.ofNat w (m.count a)) : l.count a = m.count a := by
  have hla : l.count a < 2 ^ w := Nat.lt_of_le_of_lt List.count_le_length hl
  have hma : m.count a < 2 ^ w := Nat.lt_of_le_of_lt List.count_le_length hm
  have hnat := congrArg BitVec.toNat h
  rwa [BitVec.toNat_ofNat, BitVec.toNat_ofNat, Nat.mod_eq_of_lt hla, Nat.mod_eq_of_lt hma]
    at hnat

/-- What was counted up is counted back exactly by the same things, in any order. -/
theorem countAllBack_countAllUp {f : α → BitVec w} {l m : List α} (hl : l.length < 2 ^ w)
    (hm : m.length < 2 ^ w) : countAllBack (countAllUp f l) m = f ↔ l.Perm m := by
  rw [List.perm_iff_count]
  constructor
  · intro h a
    have hback := countAllBack_apply (countAllUp f l) m a
    rw [h, countAllUp_apply] at hback
    exact ofNat_count_inj hl hm ((BitVec.add_right_inj (f a)).mp hback.symm)
  · intro h
    funext a
    have hback := countAllBack_apply (countAllUp f l) m a
    rw [countAllUp_apply, h a] at hback
    exact (BitVec.add_left_inj _).mp hback

theorem countAllUp_eq_self {f : α → BitVec w} {l : List α} (hl : l.length < 2 ^ w) :
    countAllUp f l = f ↔ l = [] := by
  have hnil : ([] : List α).length < 2 ^ w := Nat.lt_of_le_of_lt (Nat.zero_le _) hl
  rw [← List.perm_nil, ← countAllBack_countAllUp (f := f) hl hnil]
  rfl

end PvrServices.Tally
