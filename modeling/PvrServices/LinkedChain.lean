import Mathlib.Data.List.Nodup

set_option autoImplicit false

/-!
# Lists with back pointers to the pointers

A list hangs from a head pointer and ends in a null pointer. Every item keeps the place of the
pointer to it, so that it can be unlinked without a walk from the head.
-/
namespace PvrServices.LinkedChain
variable {κ α : Type}

inductive Loc (κ α : Type) where
  | head (k : κ)
  | next (a : α)
deriving DecidableEq, Repr

/-- The pointers: out of the heads, out of the items, and from each item back to its place. -/
structure Cells (κ α : Type) where
  head : κ → Option α
  next : α → Option α
  this : α → Option (Loc κ α)

def Cells.deref (m : Cells κ α) : Loc κ α → Option α
  | .head k => m.head k
  | .next a => m.next a

def Chain (m : Cells κ α) : Loc κ α → List α → Prop
  | loc, [] => m.deref loc = none
  | loc, a :: l => m.deref loc = some a ∧ m.this a = some loc ∧ Chain m (.next a) l

variable {m m' : Cells κ α} {loc : Loc κ α} {k : κ} {a b : α} {l l' pre post : List α}

theorem Chain.unique (h : Chain m loc l) (h' : Chain m loc l') : l = l' := by
  induction l generalizing loc l' with
  | nil =>
    cases l' with
    | nil => rfl
    | cons b l' => cases h.symm.trans h'.1
  | cons a l ih =>
    cases l' with
    | nil => cases h.1.symm.trans h'
    | cons b l' =>
      have hab : a = b := Option.some.inj (h.1.symm.trans h'.1)
      rw [← hab] at h' ⊢
      rw [ih h.2.2 h'.2.2]

theorem Chain.tail_at (h : Chain m loc (pre ++ a :: post)) : Chain m (.next a) post := by
  induction pre generalizing loc with
  | nil => exact h.2.2
  | cons b pre ih => exact ih h.2.2

theorem Chain.from_place (h : Chain m loc (pre ++ a :: post)) {place : Loc κ α}
    (ha : m.this a = some place) : Chain m place (a :: post) := by
  induction pre generalizing loc with
  | nil =>
    rw [Option.some.inj (ha.symm.trans h.2.1)]
    exact h
  | cons b pre ih => exact ih h.2.2

theorem Chain.place_cases (h : Chain m loc (pre ++ a :: post)) {place : Loc κ α}
    (ha : m.this a = some place) : place = loc ∨ ∃ b ∈ pre, place = .next b := by
  induction pre generalizing loc with
  | nil => exact .inl (Option.some.inj (ha.symm.trans h.2.1))
  | cons b pre ih =>
    cases ih h.2.2 with
    | inl hb => exact .inr ⟨b, List.mem_cons_self, hb⟩
    | inr hc =>
      obtain ⟨c, hc, hplace⟩ := hc
      exact .inr ⟨c, List.mem_cons_of_mem _ hc, hplace⟩

theorem Chain.next_mem (h : Chain m loc (pre ++ a :: post)) (hb : m.next a = some b) :
    b ∈ post := by
  have htail : Chain m (.next a) post := h.tail_at
  cases post with
  | nil => cases htail.symm.trans hb
  | cons c post =>
    rw [Option.some.inj (hb.symm.trans htail.1)]
    exact List.mem_cons_self

theorem Chain.head_mem (h : Chain m loc l) (hb : m.deref loc = some b) : b ∈ l := by
  cases l with
  | nil => cases h.symm.trans hb
  | cons c l =>
    rw [Option.some.inj (hb.symm.trans h.1)]
    exact List.mem_cons_self

theorem Chain.nodup (h : Chain m loc l) : l.Nodup := by
  induction l generalizing loc with
  | nil => exact List.nodup_nil
  | cons a l ih =>
    refine List.nodup_cons.mpr ⟨fun ha => ?_, ih h.2.2⟩
    obtain ⟨pre, post, hl⟩ := List.append_of_mem ha
    have hrest : Chain m (.next a) (pre ++ a :: post) := hl ▸ h.2.2
    have hlen := congrArg List.length (h.2.2.unique hrest.tail_at)
    rw [hl, List.length_append, List.length_cons] at hlen
    omega

theorem Chain.congr (h : Chain m loc l) (hloc : m'.deref loc = m.deref loc)
    (hnext : ∀ a ∈ l, m'.next a = m.next a) (hthis : ∀ a ∈ l, m'.this a = m.this a) :
    Chain m' loc l := by
  induction l generalizing loc with
  | nil => exact hloc.trans h
  | cons a l ih =>
    refine ⟨hloc.trans h.1, (hthis a List.mem_cons_self).trans h.2.1, ?_⟩
    exact ih h.2.2 (hnext a List.mem_cons_self) (fun x hx => hnext x (List.mem_cons_of_mem _ hx))
      fun x hx => hthis x (List.mem_cons_of_mem _ hx)

theorem Chain.push (h : Chain m (.head k) l) (hhead : m'.head k = some a)
    (hself : m'.this a = some (.head k)) (hfirst : m'.next a = m.head k)
    (hback : ∀ b, m.head k = some b → m'.this b = some (.next a))
    (hnext : ∀ b ∈ l, m'.next b = m.next b)
    (hthis : ∀ b ∈ l, m.head k ≠ some b → m'.this b = m.this b) : Chain m' (.head k) (a :: l) := by
  refine ⟨hhead, hself, ?_⟩
  cases l with
  | nil => exact hfirst.trans h
  | cons b l =>
    have hnodup := List.nodup_cons.mp h.nodup
    refine ⟨hfirst.trans h.1, hback b h.1, h.2.2.congr (hnext b List.mem_cons_self) ?_ ?_⟩
    · exact fun x hx => hnext x (List.mem_cons_of_mem _ hx)
    · intro x hx
      refine hthis x (List.mem_cons_of_mem _ hx) fun hbx => hnodup.1 ?_
      rw [Option.some.inj (h.1.symm.trans hbx)]
      exact hx

/-- An item is unlinked: the pointer to it and the item behind it are joined. -/
theorem Chain.unlink (h : Chain m loc (pre ++ a :: post))
    (hout : ∀ x, loc = .next x → x ∉ pre ++ a :: post) {place : Loc κ α}
    (ha : m.this a = some place) (hjoin : m'.deref place = m.next a)
    (hback : ∀ b, m.next a = some b → m'.this b = some place)
    (hloc : place ≠ loc → m'.deref loc = m.deref loc)
    (hnext : ∀ x ∈ pre ++ post, place ≠ .next x → m'.next x = m.next x)
    (hthis : ∀ x ∈ pre ++ post, m.next a ≠ some x → m'.this x = m.this x) :
    Chain m' loc (pre ++ post) := by
  have hnodup := h.nodup
  induction pre generalizing loc with
  | nil =>
    have hplace : place = loc := Option.some.inj (ha.symm.trans h.2.1)
    rw [hplace] at hjoin hback hnext
    have hpost : Chain m (.next a) post := h.2.2
    cases post with
    | nil => exact hjoin.trans hpost
    | cons b post =>
      have hb := hpost.1
      have hbpost := (List.nodup_cons.mp (List.nodup_cons.mp hnodup).2).1
      have hfree (x : α) (hx : x ∈ b :: post) : loc ≠ .next x :=
        fun hx' => hout x hx' (List.mem_cons_of_mem _ hx)
      refine ⟨hjoin.trans hb, hback b hb, hpost.2.2.congr ?_ ?_ ?_⟩
      · exact hnext b List.mem_cons_self (hfree b List.mem_cons_self)
      · exact fun x hx => hnext x (List.mem_cons_of_mem _ hx) (hfree x (List.mem_cons_of_mem _ hx))
      · intro x hx
        refine hthis x (List.mem_cons_of_mem _ hx) fun hax => hbpost ?_
        rw [Option.some.inj (hb.symm.trans hax)]
        exact hx
  | cons b pre ih =>
    have hbrest := (List.nodup_cons.mp hnodup).1
    have hmem : a ∈ pre ++ a :: post := by simp
    have hplace : place ≠ loc := by
      intro hpl
      have hderef := (h.from_place ha).1
      rw [hpl, h.1, Option.some.injEq] at hderef
      exact hbrest (by rw [hderef]; exact hmem)
    have hrest : m'.deref (.next b) = m.deref (.next b) ∨ place = .next b := by
      by_cases hb : place = .next b
      · exact .inr hb
      · exact .inl (hnext b (by simp) hb)
    have hnot : m.next a ≠ some b := fun hab => by
      have hb : b ∈ post := h.2.2.next_mem hab
      exact hbrest (by simp [hb])
    refine ⟨(hloc hplace).trans h.1, (hthis b (by simp) hnot).trans h.2.1, ?_⟩
    apply ih h.2.2
    case hout =>
      intro x hx
      rw [← (Loc.next.inj hx)]
      exact hbrest
    case hloc => exact fun hb => hrest.resolve_right hb
    case hnext => exact fun x hx => hnext x (List.mem_cons_of_mem _ hx)
    case hthis => exact fun x hx => hthis x (List.mem_cons_of_mem _ hx)
    case hnodup => exact (List.nodup_cons.mp hnodup).2

end PvrServices.LinkedChain
