import Mathlib.Data.List.Basic
import Mathlib.Order.Defs.LinearOrder

set_option autoImplicit false

/-!
# Tilings

A list of intervals, each given by a base and a size, tiles the range from `lo` to `hi` if each
of them starts where the one before ends and none is empty.
-/
namespace PvrServices.Tiling
variable {α : Type} {base size : α → ℕ} {lo hi mid : ℕ} {x y : α} {l m n r : List α}

inductive Tiles (base size : α → ℕ) : ℕ → List α → ℕ → Prop where
  | nil (lo : ℕ) : Tiles base size lo [] lo
  | cons {x : α} {l : List α} {hi : ℕ} (h : 0 < size x)
      (t : Tiles base size (base x + size x) l hi) : Tiles base size (base x) (x :: l) hi

theorem tiles_nil_iff : Tiles base size lo [] hi ↔ lo = hi :=
  ⟨fun t => by cases t; rfl, fun h => h ▸ .nil lo⟩

theorem tiles_cons_iff : Tiles base size lo (x :: l) hi ↔
    base x = lo ∧ 0 < size x ∧ Tiles base size (lo + size x) l hi := by
  constructor
  · intro t
    cases t with
    | cons h t => exact ⟨rfl, h, t⟩
  · rintro ⟨rfl, h, t⟩
    exact .cons h t

theorem tiles_append_iff : Tiles base size lo (l ++ r) hi ↔
    ∃ mid, Tiles base size lo l mid ∧ Tiles base size mid r hi := by
  induction l generalizing lo with
  | nil =>
    simp only [List.nil_append, tiles_nil_iff]
    exact ⟨fun t => ⟨lo, rfl, t⟩, fun ⟨_, h, t⟩ => h ▸ t⟩
  | cons x l ih =>
    simp only [List.cons_append, tiles_cons_iff, ih]
    constructor
    · rintro ⟨hb, hs, mid, hl, hr⟩
      exact ⟨mid, ⟨hb, hs, hl⟩, hr⟩
    · rintro ⟨mid, ⟨hb, hs, hl⟩, hr⟩
      exact ⟨hb, hs, mid, hl, hr⟩

theorem tiles_singleton_iff : Tiles base size lo [x] hi ↔
    base x = lo ∧ 0 < size x ∧ lo + size x = hi := by
  rw [tiles_cons_iff, tiles_nil_iff]

theorem Tiles.le (t : Tiles base size lo l hi) : lo ≤ hi := by
  induction t with
  | nil lo => exact Nat.le_refl lo
  | cons h t ih => omega

theorem Tiles.mem (t : Tiles base size lo l hi) (hx : x ∈ l) :
    lo ≤ base x ∧ 0 < size x ∧ base x + size x ≤ hi := by
  obtain ⟨a, b, rfl⟩ := List.append_of_mem hx
  obtain ⟨mid, ha, hb⟩ := tiles_append_iff.mp t
  obtain ⟨rfl, hs, hb⟩ := tiles_cons_iff.mp hb
  exact ⟨ha.le, hs, hb.le⟩

theorem Tiles.exists_end (t : Tiles base size lo l hi) (h : lo < hi) :
    ∃ x ∈ l, base x + size x = hi := by
  induction t with
  | nil => omega
  | @cons x l hi hx t ih =>
    by_cases he : base x + size x = hi
    · exact ⟨x, by simp, he⟩
    · have hle := t.le
      obtain ⟨y, hy, hyh⟩ := ih (by omega)
      exact ⟨y, by simp [hy], hyh⟩

theorem Tiles.pairwise (t : Tiles base size lo l hi) :
    l.Pairwise (fun x y => base x + size x ≤ base y) := by
  induction t with
  | nil => exact .nil
  | cons h t ih => exact .cons (fun y hy => (t.mem hy).1) ih

theorem tiles_middle_iff : Tiles base size lo (l ++ x :: r) hi ↔
    Tiles base size lo l (base x) ∧ 0 < size x ∧ Tiles base size (base x + size x) r hi := by
  rw [tiles_append_iff]
  constructor
  · rintro ⟨mid, hl, hr⟩
    obtain ⟨rfl, hs, hr⟩ := tiles_cons_iff.mp hr
    exact ⟨hl, hs, hr⟩
  · rintro ⟨hl, hs, hr⟩
    exact ⟨base x, hl, tiles_cons_iff.mpr ⟨rfl, hs, hr⟩⟩

end PvrServices.Tiling
