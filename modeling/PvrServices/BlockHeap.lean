import Mathlib.Logic.Function.Basic
import Mathlib.Tactic.Common

set_option autoImplicit false

/-!
# A heap of blocks

Blocks of a given size with a content of any kind, named by their addresses; 0 is the null pointer.
The allocator answers from outside. An answer that hands out a block in use, a free of a block that
is not there and a write into one have no result. What was allocated and freed is recorded.
-/
namespace PvrServices.BlockHeap

structure Block (β : Type) where
  size : ℕ
  content : β
deriving DecidableEq, Repr

inductive Event where
  | alloc (p size : ℕ)
  | free (p size : ℕ)
deriving DecidableEq, Repr

structure Heap (β : Type) where
  blocks : ℕ → Option (Block β)
  events : List Event

def emptyHeap (β : Type) : Heap β := ⟨fun _ => none, []⟩

section
variable {β : Type}

/-- A block at the address that is granted, or the null pointer. -/
def Heap.alloc (h : Heap β) (size : ℕ) (content : ℕ → β) : Option ℕ → Option (ℕ × Heap β)
  | none => some (0, h)
  | some p =>
    if p = 0 ∨ (h.blocks p).isSome then none
    else some (p, {
      blocks := Function.update h.blocks p (some ⟨size, content p⟩)
      events := h.events ++ [.alloc p size] })

def Heap.free (h : Heap β) (p size : ℕ) : Option (Heap β) :=
  if (h.blocks p).isNone then none
  else some {
    blocks := Function.update h.blocks p none
    events := h.events ++ [.free p size] }

def Heap.write (h : Heap β) (p : ℕ) (content : β) : Option (Heap β) :=
  (h.blocks p).map fun b =>
    { h with blocks := Function.update h.blocks p (some { b with content := content }) }

/-- Frees of the pointers that are not null, in order; `size` is read before each. -/
def Heap.freeAll (size : Block β → ℕ) : Heap β → List ℕ → Option (Heap β)
  | h, [] => some h
  | h, p :: ps =>
    if p = 0 then h.freeAll size ps
    else do
      let b ← h.blocks p
      let h ← h.free p (size b)
      h.freeAll size ps

variable {h h' : Heap β} {p q n : ℕ} {c : ℕ → β} {grant : Option ℕ} {x : β}

structure Allocates (h h' : Heap β) (p n : ℕ) (x : β) : Prop where
  pos : p ≠ 0
  fresh : h.blocks p = none
  new : h'.blocks p = some ⟨n, x⟩
  others : ∀ q, q ≠ p → h'.blocks q = h.blocks q
  events : h'.events = h.events ++ [.alloc p n]

theorem Heap.alloc_spec (ha : h.alloc n c grant = some (p, h')) :
    (grant = none ∧ p = 0 ∧ h' = h) ∨ (grant = some p ∧ Allocates h h' p n (c p)) := by
  cases grant with
  | none =>
    have heq := Option.some.inj ha
    rw [Prod.mk.injEq] at heq
    exact .inl ⟨rfl, heq.1.symm, heq.2.symm⟩
  | some q =>
    unfold Heap.alloc at ha
    dsimp only at ha
    split at ha
    · cases ha
    · rename_i hfresh
      obtain ⟨h0, hnone⟩ := not_or.mp hfresh
      have heq := Option.some.inj ha
      rw [Prod.mk.injEq] at heq
      rw [← heq.2, ← heq.1]
      refine .inr ⟨rfl, h0, by simpa using hnone, Function.update_self _ _ _, fun r hr => ?_, rfl⟩
      exact Function.update_of_ne hr _ _

structure Frees (h h' : Heap β) (p n : ℕ) : Prop where
  live : ∃ b, h.blocks p = some b
  gone : h'.blocks p = none
  others : ∀ q, q ≠ p → h'.blocks q = h.blocks q
  events : h'.events = h.events ++ [.free p n]

theorem Heap.free_spec (hf : h.free p n = some h') : Frees h h' p n := by
  unfold Heap.free at hf
  split at hf
  · cases hf
  · rename_i hlive
    rw [← Option.some.inj hf]
    refine ⟨?_, Function.update_self _ _ _, fun q hq => Function.update_of_ne hq _ _, rfl⟩
    rw [Option.isNone_iff_eq_none] at hlive
    exact Option.ne_none_iff_exists'.mp hlive

theorem Frees.gone_of_none (hf : Frees h h' p n) (hq : h.blocks q = none) : h'.blocks q = none := by
  by_cases hqp : q = p
  · rw [hqp]
    exact hf.gone
  · rw [hf.others q hqp]
    exact hq

theorem Allocates.freed {h₁ h₂ : Heap β} (ha : Allocates h h₁ p n x)
    (hb : h₂.blocks = h₁.blocks) {m : ℕ} (hf : Frees h₂ h' p m) : h'.blocks = h.blocks := by
  funext q
  by_cases hq : q = p
  · rw [hq, hf.gone, ha.fresh]
  · rw [hf.others q hq, hb, ha.others q hq]

theorem Allocates.keeps (ha : Allocates h h' p n x) {b : Block β} (hq : h.blocks q = some b) :
    h'.blocks q = some b := by
  have hne : q ≠ p := by
    intro hqp
    rw [hqp, ha.fresh] at hq
    cases hq
  rw [ha.others q hne]
  exact hq

theorem Heap.write_spec (hw : h.write p x = some h') :
    ∃ b, h.blocks p = some b ∧ h'.blocks p = some { b with content := x } ∧
      (∀ q, q ≠ p → h'.blocks q = h.blocks q) ∧ h'.events = h.events := by
  unfold Heap.write at hw
  obtain ⟨b, hb, heq⟩ := Option.map_eq_some_iff.mp hw
  rw [← heq]
  exact ⟨b, hb, Function.update_self _ _ _, fun q hq => Function.update_of_ne hq _ _, rfl⟩

theorem Heap.alloc_eq (h0 : p ≠ 0) (hp : h.blocks p = none) : h.alloc n c (some p) = some (p, {
    blocks := Function.update h.blocks p (some ⟨n, c p⟩)
    events := h.events ++ [.alloc p n] }) := by
  have hnew : ¬(p = 0 ∨ (h.blocks p).isSome) := by
    rw [hp]
    simp [h0]
  unfold Heap.alloc
  dsimp only
  rw [if_neg hnew]

theorem Heap.free_eq {b : Block β} (hp : h.blocks p = some b) : h.free p n = some {
    blocks := Function.update h.blocks p none
    events := h.events ++ [.free p n] } := by
  unfold Heap.free
  rw [hp, if_neg (by simp)]

theorem Heap.write_eq {b : Block β} (hp : h.blocks p = some b) : h.write p x = some { h with
    blocks := Function.update h.blocks p (some { b with content := x }) } := by
  unfold Heap.write
  rw [hp]
  rfl

theorem update_back {ι : Type} [DecidableEq ι] {β : Type} {f : ι → Option β} {i : ι} {y : Option β}
    (hi : f i = none) : Function.update (Function.update f i y) i none = f := by
  rw [Function.update_idem, ← hi]
  exact Function.update_eq_self _ _

structure Added {ι β : Type} (f g : ι → Option β) (i : ι) : Prop where
  fresh : f i = none
  live : g i ≠ none
  others : ∀ j, j ≠ i → g j = f j

theorem Added.ne {ι : Type} {f g : ι → Option β} {i : ι} (ha : Added f g i) : g ≠ f := by
  intro heq
  apply ha.live
  rw [heq]
  exact ha.fresh

section
variable {ι : Type} [DecidableEq ι] {f g : ι → Option β} {i : ι}

theorem Added.taken (ha : Added f g i) : Function.update g i none = f := by
  funext j
  by_cases hj : j = i
  · rw [hj, ha.fresh]
    exact Function.update_self _ _ _
  · rw [Function.update_of_ne hj]
    exact ha.others j hj

theorem Added.written (ha : Added f g i) (y : β) : Added f (Function.update g i (some y)) i := by
  refine ⟨ha.fresh, ?_, ?_⟩
  · rw [Function.update_self]
    exact Option.some_ne_none y
  · intro j hj
    rw [Function.update_of_ne hj]
    exact ha.others j hj

theorem Allocates.added (ha : Allocates h h' p n x) : Added h.blocks h'.blocks p := by
  refine ⟨ha.fresh, ?_, ha.others⟩
  rw [ha.new]
  exact Option.some_ne_none _

theorem added_update (hi : f i = none) (y : β) : Added f (Function.update f i (some y)) i := by
  refine ⟨hi, ?_, fun j hj => Function.update_of_ne hj _ _⟩
  rw [Function.update_self]
  exact Option.some_ne_none y

end

end
end PvrServices.BlockHeap
