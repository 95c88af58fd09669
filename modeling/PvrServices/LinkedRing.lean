import Mathlib.Data.List.Chain
import Mathlib.Data.List.Nodup
import Mathlib.Logic.Function.Basic

set_option autoImplicit false

/-!
# Circular doubly linked lists

A ring is threaded through a sentinel `h` by two pointer functions. A list with
separate head and tail pointers is the same thing with the null pointer as `h`.
-/
namespace PvrServices.LinkedRing
variable {α : Type} {next prev next' prev' : α → α} {h e a : α} {l s t : List α}

def Adjacent (next prev : α → α) (a b : α) : Prop := next a = b ∧ prev b = a

structure Ring (next prev : α → α) (h : α) (l : List α) : Prop where
  chain : List.IsChain (Adjacent next prev) (h :: l ++ [h])
  nodup : (h :: l).Nodup

theorem isChain_congr {R S : α → α → Prop} (l : List α)
    (hRS : ∀ a ∈ l.dropLast, ∀ b ∈ l.tail, R a b → S a b)
    (hl : List.IsChain R l) : List.IsChain S l := by
  induction l with
  | nil => exact .nil
  | cons x l ih =>
    cases l with
    | nil => exact .singleton x
    | cons y t =>
      rw [List.isChain_cons_cons] at hl ⊢
      refine ⟨hRS x (by simp) y (by simp) hl.1, ih ?_ hl.2⟩
      intro p hp q hq
      exact hRS p (by simp [hp]) q (by simp [List.mem_of_mem_tail hq])

theorem Ring.sentinel_not_mem (r : Ring next prev h l) : h ∉ l := (List.nodup_cons.mp r.nodup).1

theorem Ring.list_nodup (r : Ring next prev h l) : l.Nodup := (List.nodup_cons.mp r.nodup).2

theorem Ring.empty (hn : next h = h) (hp : prev h = h) : Ring next prev h [] :=
  ⟨by simp [Adjacent, hn, hp], by simp⟩

theorem Ring.congr (r : Ring next prev h l) (hn : ∀ x ∈ h :: l, next' x = next x)
    (hp : ∀ x ∈ h :: l, prev' x = prev x) : Ring next' prev' h l := by
  refine ⟨isChain_congr _ ?_ r.chain, r.nodup⟩
  rintro x hx y hy ⟨hxy, hyx⟩
  have hx' : x ∈ h :: l := by rwa [List.dropLast_concat] at hx
  have hy' : y ∈ h :: l := by simp at hy ⊢; tauto
  exact ⟨(hn x hx').trans hxy, (hp y hy').trans hyx⟩

theorem Ring.split (r : Ring next prev h (s ++ t)) :
    List.IsChain (Adjacent next prev) (h :: s) ∧
    List.IsChain (Adjacent next prev) (t ++ [h]) ∧
    ∀ x ∈ (h :: s).getLast?, ∀ y ∈ (t ++ [h]).head?, Adjacent next prev x y := by
  have hc := r.chain
  rw [show h :: (s ++ t) ++ [h] = (h :: s) ++ (t ++ [h]) by simp] at hc
  exact List.isChain_append.mp hc

theorem Ring.next_last (r : Ring next prev h (s ++ t)) (ha : (h :: s).getLast? = some a) :
    (t ++ [h]).head? = some (next a) ∧ prev (next a) = a := by
  obtain ⟨c, hc⟩ : ∃ c, (t ++ [h]).head? = some c := by cases t <;> simp
  have hac := r.split.2.2 a ha c hc
  exact ⟨by rw [hc, hac.1], by rw [hac.1, hac.2]⟩

theorem Ring.prev_cell (r : Ring next prev h (s ++ e :: t)) :
    (h :: s).getLast? = some (prev e) ∧ next (prev e) = e := by
  obtain ⟨c, hc⟩ : ∃ c, (h :: s).getLast? = some c := ⟨_, List.getLast?_cons⟩
  have hce := r.split.2.2 c hc e (by simp)
  exact ⟨by rw [hc, hce.2], by rw [hce.2, hce.1]⟩

theorem Ring.next_cell (r : Ring next prev h (s ++ e :: t)) :
    (t ++ [h]).head? = some (next e) ∧ prev (next e) = e := by
  refine Ring.next_last (s := s ++ [e]) (t := t) (by simpa using r) ?_
  rw [List.getLast?_cons]
  simp

theorem Ring.prev_sentinel (r : Ring next prev h l) :
    (h :: l).getLast? = some (prev h) ∧ next (prev h) = h := by
  obtain ⟨c, hc⟩ : ∃ c, (h :: l).getLast? = some c := ⟨_, List.getLast?_cons⟩
  have hs := (Ring.split (s := l) (t := []) (by simpa using r)).2.2 c hc h (by simp)
  exact ⟨by rw [hc, hs.2], by rw [hs.2, hs.1]⟩

theorem Ring.next_sentinel (r : Ring next prev h l) : (l ++ [h]).head? = some (next h) :=
  (Ring.next_last (s := []) (t := l) r (by simp)).1

theorem Ring.next_mem (r : Ring next prev h l) {x : α} (hx : x ∈ h :: l) : next x ∈ h :: l := by
  rcases List.mem_cons.mp hx with rfl | hx
  · have hm := List.mem_of_mem_head? r.next_sentinel
    simp at hm ⊢; tauto
  · obtain ⟨s, t, rfl⟩ := List.append_of_mem hx
    have hm := List.mem_of_mem_head? r.next_cell.1
    simp at hm ⊢; tauto

theorem Ring.prev_mem (r : Ring next prev h l) {x : α} (hx : x ∈ h :: l) : prev x ∈ h :: l := by
  rcases List.mem_cons.mp hx with rfl | hx
  · exact List.mem_of_getLast? r.prev_sentinel.1
  · obtain ⟨s, t, rfl⟩ := List.append_of_mem hx
    have hm := List.mem_of_getLast? r.prev_cell.1
    simp at hm ⊢; tauto

theorem Ring.next_ne (r : Ring next prev h l) {x : α} (hx : x ∈ l) : next x ≠ x := by
  obtain ⟨s, t, rfl⟩ := List.append_of_mem hx
  intro he
  have hm := List.mem_of_mem_head? r.next_cell.1
  rw [he] at hm
  have hnd := r.nodup
  simp only [List.nodup_cons, List.nodup_append] at hnd
  simp only [List.mem_append, List.mem_singleton] at hm
  rcases hm with hm | rfl
  · exact hnd.2.2.1.1 hm
  · exact hnd.1 (by simp)

/-- The ends of the two halves of a ring, and that the halves have no cell in common. -/
theorem nodup_halves {c : α} (hnd : (h :: (s ++ t)).Nodup) (hlast : (h :: s).getLast? = some a)
    (hhead : (t ++ [h]).head? = some c) : (∀ x ∈ (h :: s).dropLast, x ≠ a) ∧
      (∀ x ∈ (t ++ [h]).tail, x ≠ c) ∧ (∀ x ∈ s, x ∉ t ++ [h]) ∧ ∀ x ∈ t, x ∉ h :: s := by
  have hdis : ∀ x ∈ s, x ∉ t ++ [h] := by
    simp only [List.nodup_cons, List.nodup_append, List.mem_append] at hnd
    intro x hx hy
    rcases List.mem_append.mp hy with hy | hy
    · exact hnd.2.2.2 x hx x hy rfl
    · exact hnd.1 (Or.inl (by simpa [List.mem_singleton.mp hy] using hx))
  refine ⟨?_, ?_, hdis, fun x hx hy => ?_⟩
  · have hsplit := List.dropLast_append_getLast? _ hlast
    have hnd' : (h :: s).Nodup := hnd.sublist (by simp)
    rw [← hsplit, List.nodup_append] at hnd'
    exact fun x hx => hnd'.2.2 x hx _ (by simp)
  · have hsplit : c :: (t ++ [h]).tail = t ++ [h] := by
      cases hys : t ++ [h] with
      | nil => simp at hys
      | cons c t => rw [hys] at hhead; simp at hhead; simp [hhead]
    have hnd' : (t ++ [h]).Nodup := by
      have hs : (h :: t).Nodup := hnd.sublist (by simp)
      exact (List.nodup_cons.mp hs).2.append (by simp) (by
        simpa [List.disjoint_singleton] using (List.nodup_cons.mp hs).1)
    rw [← hsplit] at hnd'
    exact fun x hx he => (List.nodup_cons.mp hnd').1 (he ▸ hx)
  · rcases List.mem_cons.mp hy with rfl | hy
    · simp at hnd; exact hnd.1.2 hx
    · exact hdis x hy (by simp [hx])

theorem Ring.remove [DecidableEq α] (r : Ring next prev h (s ++ e :: t))
    (hn : ∀ x ∈ h :: (s ++ t), next' x = if x = prev e then next e else next x)
    (hp : ∀ x ∈ h :: (s ++ t), prev' x = if x = next e then prev e else prev x) :
    Ring next' prev' h (s ++ t) := by
  obtain ⟨hlast, -⟩ := r.prev_cell
  obtain ⟨hhead, -⟩ := r.next_cell
  have hnd : (h :: (s ++ t)).Nodup := r.nodup.sublist (by simp)
  obtain ⟨hleft, hright, -⟩ := r.split
  have hright' : List.IsChain (Adjacent next prev) (t ++ [h]) := by
    simpa using hright.tail
  have hA : prev e ∈ h :: s := List.mem_of_getLast? hlast
  have hC : next e ∈ t ++ [h] := List.mem_of_mem_head? hhead
  obtain ⟨hAl, hCt, hdis, hdis'⟩ := nodup_halves hnd hlast hhead
  refine ⟨?_, hnd⟩
  rw [show h :: (s ++ t) ++ [h] = (h :: s) ++ (t ++ [h]) by simp, List.isChain_append]
  refine ⟨isChain_congr _ ?_ hleft, isChain_congr _ ?_ hright', ?_⟩
  · rintro x hx y hy ⟨hxy, hyx⟩
    have hy' : y ∈ s := hy
    have hx' : x ∈ h :: s := List.dropLast_subset _ hx
    have hyC : y ≠ next e := fun he => hdis y hy' (he ▸ hC)
    constructor
    · rw [hn x (by simp at hx' ⊢; tauto), if_neg (hAl x hx), hxy]
    · rw [hp y (by simp; tauto), if_neg hyC, hyx]
  · rintro x hx y hy ⟨hxy, hyx⟩
    have hx' : x ∈ t := by simpa using hx
    have hy' : y ∈ t ++ [h] := List.mem_of_mem_tail hy
    have hxA : x ≠ prev e := fun he => hdis' x hx' (he ▸ hA)
    constructor
    · rw [hn x (by simp; tauto), if_neg hxA, hxy]
    · rw [hp y (by simp at hy' ⊢; tauto), if_neg (hCt y hy), hyx]
  · intro x hx y hy
    rw [hlast] at hx
    rw [hhead] at hy
    obtain rfl := Option.some.inj hx
    obtain rfl := Option.some.inj hy
    constructor
    · rw [hn _ (by simp at hA ⊢; tauto), if_pos rfl]
    · rw [hp _ (by simp at hC ⊢; tauto), if_pos rfl]

theorem Ring.insert (r : Ring next prev h (s ++ t)) (he : e ∉ h :: (s ++ t))
    (ha : (h :: s).getLast? = some a)
    (hna : next' a = e) (hne : next' e = next a) (hpe : prev' e = a) (hpc : prev' (next a) = e)
    (hn : ∀ x ∈ h :: (s ++ t), x ≠ a → next' x = next x)
    (hp : ∀ x ∈ h :: (s ++ t), x ≠ next a → prev' x = prev x) :
    Ring next' prev' h (s ++ e :: t) := by
  obtain ⟨hhead, -⟩ := r.next_last ha
  have hnd := r.nodup
  obtain ⟨hleft, hright, -⟩ := r.split
  have hA : a ∈ h :: s := List.mem_of_getLast? ha
  have hC : next a ∈ t ++ [h] := List.mem_of_mem_head? hhead
  obtain ⟨hAl, hCt, hdis, hdis'⟩ := nodup_halves hnd ha hhead
  constructor
  · rw [show h :: (s ++ e :: t) ++ [h] = (h :: s) ++ ([e] ++ (t ++ [h])) by simp,
      List.isChain_append, List.isChain_append]
    refine ⟨isChain_congr _ ?_ hleft, ⟨.singleton e, isChain_congr _ ?_ hright, ?_⟩, ?_⟩
    · rintro x hx y hy ⟨hxy, hyx⟩
      have hy' : y ∈ s := hy
      have hx' : x ∈ h :: s := List.dropLast_subset _ hx
      have hyC : y ≠ next a := fun he => hdis y hy' (he ▸ hC)
      exact ⟨(hn x (by simp at hx' ⊢; tauto) (hAl x hx)).trans hxy,
        (hp y (by simp; tauto) hyC).trans hyx⟩
    · rintro x hx y hy ⟨hxy, hyx⟩
      have hx' : x ∈ t := by simpa using hx
      have hy' : y ∈ t ++ [h] := List.mem_of_mem_tail hy
      have hxA : x ≠ a := fun he => hdis' x hx' (he ▸ hA)
      exact ⟨(hn x (by simp; tauto) hxA).trans hxy,
        (hp y (by simp at hy' ⊢; tauto) (hCt y hy)).trans hyx⟩
    · intro x hx y hy
      rw [hhead] at hy
      obtain rfl : e = x := by simpa using hx
      obtain rfl := Option.some.inj hy
      exact ⟨hne, hpc⟩
    · intro x hx y hy
      rw [ha] at hx
      obtain rfl := Option.some.inj hx
      obtain rfl : e = y := by simpa using hy
      exact ⟨hna, hpe⟩
  · have hnd' : (e :: (h :: (s ++ t))).Nodup := List.nodup_cons.mpr ⟨he, hnd⟩
    refine (List.Perm.nodup_iff ?_).mp hnd'
    exact (List.Perm.swap h e _).trans (List.Perm.cons h List.perm_middle.symm)

theorem Ring.append (r : Ring next prev h l) (he : e ∉ h :: l)
    (hna : next' (prev h) = e) (hne : next' e = h) (hpe : prev' e = prev h) (hph : prev' h = e)
    (hn : ∀ x ∈ h :: l, x ≠ prev h → next' x = next x)
    (hp : ∀ x ∈ h :: l, x ≠ h → prev' x = prev x) : Ring next' prev' h (l ++ [e]) := by
  obtain ⟨hlast, hnext⟩ := r.prev_sentinel
  refine Ring.insert (a := prev h) (s := l) (t := []) (by simpa using r) (by simpa using he)
    hlast hna (by rw [hnext, hne]) hpe (by rw [hnext, hph]) ?_ ?_
  · intro x hx; exact hn x (by simpa using hx)
  · intro x hx; rw [hnext]; exact hp x (by simpa using hx)

end PvrServices.LinkedRing
