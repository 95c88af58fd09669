import PvrServices.BlockHeap
import PvrServices.Runs

set_option autoImplicit false

/-!
# Frees that are told a size

An allocator that keeps no size chooses between its pools by the size that it is told, so each free
has to be told a size of the class that the block was allocated in. The record of a heap says
whether that was so.
-/
namespace PvrServices.BlockHeap
variable {β : Type} {cls : ℕ → Bool} {h h' : Heap β} {l l₁ l₂ : List Event} {p q n m : ℕ} {x : β}

def noteSize (sizes : ℕ → Option ℕ) : Event → ℕ → Option ℕ
  | .alloc p n => Function.update sizes p (some n)
  | .free p _ => Function.update sizes p none

/-- The sizes that the blocks which are left were allocated with. -/
def sizesAfter (l : List Event) : ℕ → Option ℕ := l.foldl noteSize fun _ => none

/-- Every free that the record `l` has behind `k₀` names a block that is there, and a size of its
    class. -/
def ClassesSince (cls : ℕ → Bool) (k₀ l : List Event) : Prop :=
  ∀ k p n, k₀ <+: k → k ++ [.free p n] <+: l → ∃ m, sizesAfter k p = some m ∧ cls n = cls m

def ClassesKept (cls : ℕ → Bool) (l : List Event) : Prop := ClassesSince cls [] l

def Recorded (h : Heap β) : Prop := ∀ p, sizesAfter h.events p = (h.blocks p).map Block.size

theorem sizesAfter_append {e : Event} :
    sizesAfter (l ++ [e]) = noteSize (sizesAfter l) e := by
  unfold sizesAfter
  rw [List.foldl_append]
  rfl

theorem classesSince_refl : ClassesSince cls l l := by
  intro k p n hk hkl
  have hlen := List.IsPrefix.length_le (hkl.trans hk)
  rw [List.length_append, List.length_singleton] at hlen
  omega

theorem classesSince_alloc : ClassesSince cls l (l ++ [.alloc p n]) := by
  intro k q m hk hkl
  cases List.prefix_concat_iff.mp hkl with
  | inl heq =>
    have hlast := (List.append_inj' heq rfl).2
    cases hlast
  | inr hkl => exact classesSince_refl k q m hk hkl

theorem classesSince_free : ClassesSince cls l (l ++ [.free p n]) ↔
    ∃ m, sizesAfter l p = some m ∧ cls n = cls m := by
  constructor
  · intro hall
    exact hall l p n (List.prefix_refl _) (List.prefix_refl _)
  · intro hlast k q m hk hkl
    cases List.prefix_concat_iff.mp hkl with
    | inl heq =>
      obtain ⟨hl, he⟩ := List.append_inj' heq rfl
      cases he
      rw [hl]
      exact hlast
    | inr hkl => exact classesSince_refl k q m hk hkl

theorem classesSince_trans (h₁ : l <+: l₁) (h₂ : l₁ <+: l₂) :
    ClassesSince cls l l₂ ↔ ClassesSince cls l l₁ ∧ ClassesSince cls l₁ l₂ := by
  constructor
  · intro hall
    exact ⟨fun k p n hk hkl => hall k p n hk (hkl.trans h₂),
      fun k p n hk hkl => hall k p n (h₁.trans hk) hkl⟩
  · rintro ⟨hfirst, hrest⟩ k p n hk hkl
    cases List.prefix_or_prefix_of_prefix hkl h₂ with
    | inl hin => exact hfirst k p n hk hin
    | inr hbehind =>
      cases List.prefix_concat_iff.mp hbehind with
      | inl heq =>
        rw [heq] at hfirst
        exact hfirst k p n hk (List.prefix_refl _)
      | inr hbehind => exact hrest k p n hbehind hkl

def classesRight (cls : ℕ → Bool) : (ℕ → Option ℕ) → List Event → Bool
  | _, [] => true
  | sizes, .alloc p n :: l => classesRight cls (noteSize sizes (.alloc p n)) l
  | sizes, .free p n :: l =>
    (sizes p).any (fun m => cls n == cls m) && classesRight cls (noteSize sizes (.free p n)) l

theorem classesRight_free {sizes : ℕ → Option ℕ} : classesRight cls sizes (.free p n :: l) =
    ((sizes p).any (fun m => cls n == cls m) &&
      classesRight cls (noteSize sizes (.free p n)) l) := rfl

theorem classesSince_iff_check {k : List Event} :
    ClassesSince cls k (k ++ l) ↔ classesRight cls (sizesAfter k) l = true := by
  induction l generalizing k with
  | nil =>
    rw [List.append_nil]
    exact ⟨fun _ => rfl, fun _ => classesSince_refl⟩
  | cons e l ih =>
    have hsplit : k ++ e :: l = k ++ [e] ++ l := by simp
    rw [hsplit, classesSince_trans (List.prefix_append k [e]) (List.prefix_append (k ++ [e]) l), ih,
      sizesAfter_append]
    cases e with
    | alloc p n =>
      constructor
      · exact fun hboth => hboth.2
      · exact fun hrest => ⟨classesSince_alloc, hrest⟩
    | free p n =>
      rw [classesSince_free, classesRight_free, Bool.and_eq_true]
      refine and_congr_left fun _ => ?_
      cases sizesAfter k p with
      | none => simp
      | some m => simp

theorem classesKept_iff_check :
    ClassesKept cls l ↔ classesRight cls (fun _ => none) l = true :=
  classesSince_iff_check (k := [])

theorem recorded_empty : Recorded (emptyHeap β) := fun _ => rfl

theorem Allocates.recorded (ha : Allocates h h' p n x) (hr : Recorded h) : Recorded h' := by
  intro q
  rw [ha.events, sizesAfter_append]
  by_cases hq : q = p
  · rw [hq, ha.new]
    exact Function.update_self ..
  · rw [ha.others q hq, ← hr q]
    exact Function.update_of_ne hq ..

theorem Frees.recorded (hf : Frees h h' p n) (hr : Recorded h) : Recorded h' := by
  intro q
  rw [hf.events, sizesAfter_append]
  by_cases hq : q = p
  · rw [hq, hf.gone]
    exact Function.update_self ..
  · rw [hf.others q hq, ← hr q]
    exact Function.update_of_ne hq ..

theorem Heap.write_recorded (hw : h.write p x = some h') (hr : Recorded h) : Recorded h' := by
  obtain ⟨b, hb, hnew, hothers, hevents⟩ := Heap.write_spec hw
  intro q
  rw [hevents, hr q]
  by_cases hq : q = p
  · rw [hq, hnew, hb]
    rfl
  · rw [hothers q hq]

theorem Frees.classesSince (hf : Frees h h' p n) (hr : Recorded h) :
    ClassesSince cls h.events h'.events ↔ ∀ b, h.blocks p = some b → cls n = cls b.size := by
  obtain ⟨b, hb⟩ := hf.live
  rw [hf.events, classesSince_free, hr p, hb]
  simp

section
variable {size : β → ℕ} {good good' : Prop} {h₁ h₂ : Heap β}

/-- The record is that of the blocks, and the blocks are as large as their contents ask for. -/
structure Booked (size : β → ℕ) (h : Heap β) : Prop where
  recorded : Recorded h
  sized : ∀ p b, h.blocks p = some b → b.size = size b.content

/-- The record goes on from one heap to the other, and its frees keep the classes exactly if
    `good`. -/
structure Between (cls : ℕ → Bool) (size : β → ℕ) (h h' : Heap β) (good : Prop) : Prop where
  booked : Booked size h → Booked size h'
  later : h.events <+: h'.events
  since : Booked size h → (ClassesSince cls h.events h'.events ↔ good)

theorem booked_empty : Booked size (emptyHeap β) := ⟨recorded_empty, fun p b hb => by cases hb⟩

theorem Between.kept (ha : Between cls size h h' good) (hh : Booked size h) :
    ClassesKept cls h'.events ↔ ClassesKept cls h.events ∧ good := by
  rw [← ha.since hh]
  exact classesSince_trans (List.nil_prefix) ha.later

theorem Between.refl : Between cls size h h True :=
  ⟨id, List.prefix_refl _, fun _ => ⟨fun _ => trivial, fun _ => classesSince_refl⟩⟩

theorem Between.trans (ha : Between cls size h h₁ good) (hb : Between cls size h₁ h₂ good') :
    Between cls size h h₂ (good ∧ good') :=
  ⟨fun hh => hb.booked (ha.booked hh), ha.later.trans hb.later, fun hh => by
    rw [classesSince_trans ha.later hb.later, ha.since hh, hb.since (ha.booked hh)]⟩

theorem Between.congr (ha : Between cls size h h' good) (hg : good ↔ good') :
    Between cls size h h' good' := ⟨ha.booked, ha.later, fun hh => by rw [ha.since hh, hg]⟩

theorem Between.after (hb : Between cls size h₁ h₂ good) (ha : Between cls size h h₁ True) :
    Between cls size h h₂ good := (ha.trans hb).congr (by rw [true_and])

theorem Between.before (ha : Between cls size h h₁ good) (hb : Between cls size h₁ h₂ True) :
    Between cls size h h₂ good := (ha.trans hb).congr (by rw [and_true])

theorem Allocates.between (ha : Allocates h h' p (size x) x) : Between cls size h h' True := by
  refine ⟨fun hh => ⟨ha.recorded hh.recorded, fun q b hq => ?_⟩, ?_, fun _ => ?_⟩
  · by_cases hqp : q = p
    · rw [hqp, ha.new] at hq
      rw [← Option.some.inj hq]
    · rw [ha.others q hqp] at hq
      exact hh.sized q b hq
  · rw [ha.events]
    exact List.prefix_append _ _
  · rw [ha.events]
    exact ⟨fun _ => trivial, fun _ => classesSince_alloc⟩

theorem Heap.alloc_between {c : ℕ → β} {grant : Option ℕ}
    (ha : h.alloc n c grant = some (p, h')) (hn : size (c p) = n) :
    Between cls size h h' True := by
  cases Heap.alloc_spec ha with
  | inl hnone =>
    rw [hnone.2.2]
    exact .refl
  | inr hnew =>
    rw [← hn] at hnew
    exact hnew.2.between

theorem Heap.write_between (hw : h.write p x = some h')
    (hx : ∀ b, h.blocks p = some b → size x = size b.content) :
    Between cls size h h' True := by
  obtain ⟨b, hb, hnew, hothers, hevents⟩ := Heap.write_spec hw
  refine ⟨fun hh => ⟨Heap.write_recorded hw hh.recorded, fun q c hq => ?_⟩, ?_, fun _ => ?_⟩
  · by_cases hqp : q = p
    · rw [hqp, hnew] at hq
      rw [← Option.some.inj hq, hx b hb]
      exact hh.sized p b hb
    · rw [hothers q hqp] at hq
      exact hh.sized q c hq
  · exact ⟨[], by rw [hevents, List.append_nil]⟩
  · rw [hevents]
    exact ⟨fun _ => trivial, fun _ => classesSince_refl⟩

theorem Heap.free_between (hf : h.free p n = some h') : Between cls size h h'
    (∀ b, h.blocks p = some b → cls n = cls (size b.content)) := by
  have hfree := Heap.free_spec hf
  refine ⟨fun hh => ⟨hfree.recorded hh.recorded, fun q b hq => ?_⟩, ?_, fun hh => ?_⟩
  · by_cases hqp : q = p
    · rw [hqp, hfree.gone] at hq
      cases hq
    · rw [hfree.others q hqp] at hq
      exact hh.sized q b hq
  · rw [hfree.events]
    exact List.prefix_append _ _
  · rw [hfree.classesSince hh.recorded]
    refine forall_congr' fun b => ?_
    constructor
    · intro hall hb
      rw [hall hb, hh.sized p b hb]
    · intro hall hb
      rw [hall hb, hh.sized p b hb]

theorem Heap.free_between_of_content (hf : h.free p n = some h') {b : Block β}
    (hb : h.blocks p = some b) (hn : size b.content = n) : Between cls size h h' True := by
  refine (Heap.free_between hf).congr ⟨fun _ => trivial, fun _ c hc => ?_⟩
  rw [hb] at hc
  rw [← Option.some.inj hc, hn]

def Shrinks (h h' : Heap β) : Prop := ∀ q b, h'.blocks q = some b → h.blocks q = some b

theorem Shrinks.trans (ha : Shrinks h h₁) (hb : Shrinks h₁ h') : Shrinks h h' :=
  fun q b hq => ha q b (hb q b hq)

theorem Frees.shrinks (hf : Frees h h' p n) : Shrinks h h' := by
  intro q b hq
  by_cases hqp : q = p
  · rw [hqp, hf.gone] at hq
    cases hq
  · rw [hf.others q hqp] at hq
    exact hq

theorem Heap.free_between_of_shrinks (hs : Shrinks h h₁) (hf : h₁.free p n = some h') :
    Between cls size h₁ h' (∀ b, h.blocks p = some b → cls n = cls (size b.content)) := by
  refine (Heap.free_between hf).congr ?_
  obtain ⟨c, hc⟩ := (Heap.free_spec hf).live
  rw [hc, hs p c hc]

/-- Frees one after the other are of the right class if each is. -/
theorem Heap.freeAll_between {told : Block β → ℕ} {ps : List ℕ}
    (hf : h.freeAll told ps = some h') :
    Shrinks h h' ∧ Between cls size h h' (∀ p ∈ ps, p ≠ 0 →
      ∀ b, h.blocks p = some b → cls (told b) = cls (size b.content)) := by
  induction ps generalizing h with
  | nil =>
    rw [← Option.some.inj hf]
    exact ⟨fun _ _ hq => hq, Between.refl.congr (by simp)⟩
  | cons p ps ih =>
    unfold Heap.freeAll at hf
    split at hf
    · rename_i h0
      obtain ⟨hs, hb⟩ := ih hf
      refine ⟨hs, hb.congr ⟨fun hall q hq hpos => ?_, fun hall q hq => ?_⟩⟩
      · exact hall q ((List.mem_cons.mp hq).resolve_left fun hqp => hpos (hqp.trans h0)) hpos
      · exact hall q (List.mem_cons_of_mem p hq)
    · rename_i h0
      obtain ⟨b, hb, hf⟩ := Option.bind_eq_some_iff.mp hf
      obtain ⟨h₁, hfree, hf⟩ := Option.bind_eq_some_iff.mp hf
      have hspec := Heap.free_spec hfree
      obtain ⟨hs, hrest⟩ := ih hf
      refine ⟨hspec.shrinks.trans hs,
        ((Heap.free_between hfree).trans hrest).congr ⟨fun hboth q hq hpos c hc => ?_, fun hall => ?_⟩⟩
      · by_cases hqp : q = p
        · rw [hqp, hb] at hc
          rw [← Option.some.inj hc]
          exact hboth.1 b hb
        · refine hboth.2 q ((List.mem_cons.mp hq).resolve_left hqp) hpos c ?_
          rw [hspec.others q hqp]
          exact hc
      · refine ⟨fun c hc => ?_, fun q hq hpos c hc => ?_⟩
        · rw [← Option.some.inj (hb.symm.trans hc)]
          exact hall p List.mem_cons_self h0 b hb
        · exact hall q (List.mem_cons_of_mem p hq) hpos c (hspec.shrinks q c hc)

end
end PvrServices.BlockHeap
