import Mathlib.Data.List.Nodup
import Mathlib.Data.List.Perm.Subperm

set_option autoImplicit false

/-!
# Lists with keys

A list in which no two entries have the same key, and the list without the entry of a key.
-/
namespace PvrServices.KeyedList
variable {α κ : Type} [DecidableEq κ] {key : α → κ} {l : List α} {v w : α} {k : κ}

def dropKey (key : α → κ) (l : List α) (k : κ) : List α := l.filter fun v => key v ≠ k

theorem mem_dropKey : w ∈ dropKey key l k ↔ w ∈ l ∧ key w ≠ k := by simp [dropKey]

theorem dropKey_nodup (hnodup : (l.map key).Nodup) (k : κ) :
    ((dropKey key l k).map key).Nodup :=
  hnodup.sublist (List.filter_sublist.map _)

theorem perm_cons_dropKey (hnodup : (l.map key).Nodup) (hw : w ∈ l) :
    l.Perm (w :: dropKey key l (key w)) := by
  obtain ⟨before, after, hl⟩ := List.append_of_mem hw
  rw [hl, List.map_append, List.map_cons, List.nodup_middle, List.nodup_cons] at hnodup
  have hne (v : α) (hv : v ∈ before ++ after) : key v ≠ key w := fun hvw => by
    apply hnodup.1
    rw [← hvw, ← List.map_append]
    exact List.mem_map_of_mem hv
  have hdrop : dropKey key l (key w) = before ++ after := by
    unfold dropKey
    rw [hl, List.filter_append, List.filter_cons_of_neg (by simp), ← List.filter_append]
    exact List.filter_eq_self.mpr fun v hv => by simpa using hne v hv
  rw [hdrop, hl]
  exact List.perm_middle

theorem countP_dropKey (hnodup : (l.map key).Nodup) (hw : w ∈ l) (p : α → Bool) :
    l.countP p = (dropKey key l (key w)).countP p + if p w then 1 else 0 := by
  rw [(perm_cons_dropKey hnodup hw).countP_eq p, List.countP_cons]

theorem find?_key (hnodup : (l.map key).Nodup) (hw : w ∈ l) :
    l.find? (fun v => key v = key w) = some w := by
  cases hfind : l.find? (fun v => key v = key w) with
  | none =>
    rw [List.find?_eq_none] at hfind
    exact absurd (decide_eq_true rfl) (hfind w hw)
  | some v =>
    have hv := List.mem_of_find?_eq_some hfind
    have heq : key v = key w := by simpa using List.find?_some hfind
    rw [List.inj_on_of_nodup_map hnodup hv hw heq]

theorem length_lt_of_addresses {l : List ℕ} (hnodup : l.Nodup)
    (hl : ∀ m ∈ l, 0 < m ∧ m < 4294967296) : l.length < 4294967296 := by
  have hcons : (0 :: l).Nodup :=
    List.nodup_cons.mpr ⟨fun h0 => absurd (hl 0 h0).1 (by decide), hnodup⟩
  have hsub : 0 :: l ⊆ List.range 4294967296 := by
    intro m hm
    rw [List.mem_range]
    cases List.mem_cons.mp hm with
    | inl h => omega
    | inr h => exact (hl m h).2
  have hlen := (hcons.subperm hsub).length_le
  rw [List.length_cons, List.length_range] at hlen
  omega

end PvrServices.KeyedList
