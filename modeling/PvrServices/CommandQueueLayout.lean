import Mathlib.Data.Nat.Bitwise
import PvrServices.CommandQueue
import PvrServices.Runs

set_option autoImplicit false

/-!
# Commands in the queue's memory

What a command looks like in memory, where the unread commands lie, and that the free space
behind the write offset, slack included, touches none of them.
-/
namespace PvrServices.Queues
open Words Memory Runs
variable {mem mem' : ℕ → UInt8} {p r w Q : ℕ} {c : Command} {cs : List Command}

def Command.syncCount (c : Command) : ℕ := c.dstSync.length + c.srcSync.length

def Command.dataOffset (c : Command) : ℕ := commandHeader + syncObjectSize * c.syncCount

/-- The command `c` lies at `p`, with its pointers into its own stretch of memory. -/
structure Stored (mem : ℕ → UInt8) (p : ℕ) (c : Command) : Prop where
  words : copy mem p c.dataOffset = wordBytes (commandWords p c)
  data : copy mem (p + c.dataOffset) c.dataSize.toNat = c.data
  size : c.cmdSize.toNat = c.dataOffset + c.dataSize.toNat
  small : c.cmdSize.toNat ≤ pvrsrvMaxCmdSize

theorem Stored.congr (h : Stored mem p c)
    (hout : ∀ j, p ≤ j → j < p + c.cmdSize.toNat → mem' j = mem j) : Stored mem' p c where
  words := by
    have := h.size
    rw [← h.words]
    exact copy_congr fun j hi hj => hout j hi (by omega)
  data := by
    have := h.size
    conv_rhs => rw [← h.data]
    exact copy_congr fun j hi hj => hout j (by omega) (by omega)
  size := h.size
  small := h.small

theorem syncWords_length (os : List SyncObject) :
    (os.flatMap SyncObject.words).length = 3 * os.length := by
  induction os with
  | nil => rfl
  | cons o os ih =>
    rw [List.flatMap_cons, List.length_append, ih]
    simp only [SyncObject.words, List.length_cons, List.length_nil]
    omega

theorem syncObjects_of_copy (os : List SyncObject)
    (h : copy mem p (syncObjectSize * os.length) = wordBytes (os.flatMap SyncObject.words)) :
    syncObjects mem p os.length = os := by
  induction os generalizing p with
  | nil => rfl
  | cons o os ih =>
    have hsplit : syncObjectSize * (o :: os).length =
        syncObjectSize + syncObjectSize * os.length := by
      rw [List.length_cons, Nat.mul_succ, Nat.add_comm]
    rw [hsplit, copy_add, List.flatMap_cons, wordBytes_append] at h
    have hpair := List.append_inj h (by rw [copy_length, wordBytes_length]; rfl)
    have hwords : copy mem p (4 * o.words.length) = wordBytes o.words := hpair.1
    have hword (k : ℕ) (hk : k < 3) : word mem (p + 4 * k) = o.words.get ⟨k, hk⟩ :=
      word_of_copy_words hwords hk
    have h₀ : word mem p = o.kernelSyncInfo := hword 0 (by decide)
    have h₁ : word mem (p + 4) = o.writeOpsPending := hword 1 (by decide)
    have h₂ : word mem (p + 8) = o.readOpsPending := hword 2 (by decide)
    rw [List.length_cons, syncObjects, ih hpair.2, h₀, h₁, h₂]

theorem toNat_ofNat {n : ℕ} (h : n < 4294967296) : (UInt32.ofNat n).toNat = n :=
  UInt32.toNat_ofNat_of_lt' h

theorem stored_words (h : copy mem p c.dataOffset = wordBytes (commandWords p c)) :
    copy mem p (4 * (headerWords p c).length) = wordBytes (headerWords p c) ∧
    copy mem (p + 40) (12 * c.dstSync.length) =
      wordBytes (c.dstSync.flatMap SyncObject.words) ∧
    copy mem (p + 40 + 12 * c.dstSync.length) (12 * c.srcSync.length) =
      wordBytes (c.srcSync.flatMap SyncObject.words) := by
  unfold Command.dataOffset Command.syncCount commandHeader syncObjectSize at h
  rw [show 40 + 12 * (c.dstSync.length + c.srcSync.length) =
    40 + (12 * c.dstSync.length + 12 * c.srcSync.length) by omega, copy_add, copy_add,
    commandWords, wordBytes_append, wordBytes_append] at h
  have hheader := List.append_inj h (by rw [copy_length, wordBytes_length]; rfl)
  have hsyncs := List.append_inj hheader.2 (by
    rw [copy_length, wordBytes_length, syncWords_length]
    omega)
  exact ⟨hheader.1, hsyncs⟩

theorem Stored.read (h : Stored mem p c) (hp : p + pvrsrvMaxCmdSize < 4294967296) :
    commandAt mem p = c := by
  have hsize := h.size
  have hsmall := h.small
  have hdata := h.data
  obtain ⟨hheader, hdst, hsrc⟩ := stored_words h.words
  unfold Command.dataOffset Command.syncCount commandHeader syncObjectSize at hsize hdata
  unfold pvrsrvMaxCmdSize at hsmall hp
  have hword (k : ℕ) (hk : k < 10) : word mem (p + 4 * k) = (headerWords p c).get ⟨k, hk⟩ :=
    word_of_copy_words hheader hk
  have h₀ : word mem p = c.cmdSize := hword 0 (by decide)
  have h₁ : word mem (p + 4) = c.devIndex := hword 1 (by decide)
  have h₂ : word mem (p + 8) = c.commandType := hword 2 (by decide)
  have h₃ : word mem (p + 12) = UInt32.ofNat c.dstSync.length := hword 3 (by decide)
  have h₄ : word mem (p + 16) = UInt32.ofNat c.srcSync.length := hword 4 (by decide)
  have h₅ : word mem (p + 20) = UInt32.ofNat (p + 40) := hword 5 (by decide)
  have h₆ : word mem (p + 24) = UInt32.ofNat (p + 40 + 12 * c.dstSync.length) :=
    hword 6 (by decide)
  have h₇ : word mem (p + 28) = c.dataSize := hword 7 (by decide)
  have h₈ : word mem (p + 32) = c.processId := hword 8 (by decide)
  have h₉ : word mem (p + 36) =
      UInt32.ofNat (p + 40 + 12 * c.dstSync.length + 12 * c.srcSync.length) :=
    hword 9 (by decide)
  have hdst := syncObjects_of_copy c.dstSync hdst
  have hsrc := syncObjects_of_copy c.srcSync hsrc
  unfold commandAt
  rw [h₀, h₁, h₂, h₃, h₄, h₅, h₆, h₇, h₈, h₉, toNat_ofNat (by omega), toNat_ofNat (by omega),
    toNat_ofNat (by omega), toNat_ofNat (by omega), toNat_ofNat (by omega), hdst, hsrc,
    show p + 40 + 12 * c.dstSync.length + 12 * c.srcSync.length =
      p + (40 + 12 * (c.dstSync.length + c.srcSync.length)) by omega, hdata]

theorem Stored.setPointers_eq (h : Stored mem p c) :
    setPointers mem p p c.dstSync.length c.srcSync.length = mem := by
  obtain ⟨hheader, -, -⟩ := stored_words h.words
  have hfield (k : ℕ) (hk : k < 10) :
      copy mem (p + 4 * k) 4 = wordBytes [(headerWords p c).get ⟨k, hk⟩] :=
    copy_of_copy_words hheader hk
  have hdst : store mem (p + 20) (wordBytes [UInt32.ofNat (p + commandHeader)]) = mem :=
    store_eq_self (hfield 5 (by decide))
  have hsrc : store mem (p + 24) (wordBytes
      [UInt32.ofNat (p + commandHeader + syncObjectSize * c.dstSync.length)]) = mem :=
    store_eq_self (hfield 6 (by decide))
  have hdata : store mem (p + 36) (wordBytes
      [UInt32.ofNat (p + commandHeader + syncObjectSize * c.dstSync.length +
        syncObjectSize * c.srcSync.length)]) = mem :=
    store_eq_self (hfield 9 (by decide))
  unfold setPointers
  simp only [hdst, hsrc, ite_self, hdata]

/-- The offsets of commands that lie one behind the other from `r` on. -/
def places (Q : ℕ) : ℕ → List Command → List (ℕ × Command)
  | _, [] => []
  | r, c :: cs => (r, c) :: places Q ((r + c.cmdSize.toNat) % Q) cs

def used (cs : List Command) : ℕ := (cs.map fun c => c.cmdSize.toNat).sum

theorem used_append (cs ds : List Command) : used (cs ++ ds) = used cs + used ds := by
  simp [used]

theorem used_cons (c : Command) (cs : List Command) :
    used (c :: cs) = c.cmdSize.toNat + used cs := rfl

theorem mod_wrap {a : ℕ} (h : a < 2 * Q) : a % Q = a ∧ a < Q ∨ a % Q + Q = a := by
  rcases Nat.lt_or_ge a Q with hlt | hge
  · exact Or.inl ⟨Nat.mod_eq_of_lt hlt, hlt⟩
  · rw [Nat.mod_eq_sub_mod hge, Nat.mod_eq_of_lt (by omega)]
    omega

theorem places_append (hr : r < Q) (cs : List Command) (c : Command) :
    places Q r (cs ++ [c]) = places Q r cs ++ [((r + used cs) % Q, c)] := by
  induction cs generalizing r with
  | nil =>
    simp only [List.nil_append, places, used, List.map_nil, List.sum_nil, Nat.add_zero]
    rw [Nat.mod_eq_of_lt hr]
  | cons d cs ih =>
    rw [List.cons_append, places, ih (Nat.mod_lt _ (by omega)), places, used_cons,
      Nat.mod_add_mod, Nat.add_assoc]
    rfl

theorem places_unwrap (hr : r < Q) (hused : used cs < Q) {q : ℕ × Command}
    (hq : q ∈ places Q r cs) : ∃ u, r ≤ u ∧ u + q.2.cmdSize.toNat ≤ r + used cs ∧
      (q.1 = u ∧ u < Q ∨ q.1 + Q = u) := by
  induction cs generalizing r with
  | nil => simp [places] at hq
  | cons c cs ih =>
    rw [used_cons] at hused ⊢
    rcases List.mem_cons.mp hq with rfl | hq
    · exact ⟨r, le_rfl, by dsimp only; omega, Or.inl ⟨rfl, hr⟩⟩
    · obtain ⟨u, hu, hend, hplace⟩ := ih (Nat.mod_lt _ (by omega)) (by omega) hq
      rcases mod_wrap (show r + c.cmdSize.toNat < 2 * Q by omega) with ⟨hm, hlt⟩ | hm
      · exact ⟨u, by omega, by omega, hplace⟩
      · exact ⟨u + Q, by omega, by omega, by omega⟩

theorem places_apart {n : ℕ} (hr : r < Q) (hfree : used cs + n < Q)
    (hwrap : r + used cs = w ∨ r + used cs = w + Q) {q : ℕ × Command} (hq : q ∈ places Q r cs) :
    w + n ≤ q.1 ∨ q.1 + q.2.cmdSize.toNat ≤ w := by
  obtain ⟨u, hu, hend, hplace⟩ := places_unwrap hr (by omega) hq
  omega

theorem exists_place (Q : ℕ) (hc : c ∈ cs) (r : ℕ) : ∃ p, (p, c) ∈ places Q r cs := by
  induction cs generalizing r with
  | nil => simp at hc
  | cons f cs ih =>
    cases List.mem_cons.mp hc with
    | inl h => exact ⟨r, by simp [places, h]⟩
    | inr h =>
      obtain ⟨p, hp⟩ := ih h ((r + f.cmdSize.toNat) % Q)
      exact ⟨p, List.mem_cons_of_mem _ hp⟩

theorem length_le_used (hcs : ∀ c ∈ cs, commandHeader ≤ c.cmdSize.toNat) :
    commandHeader * cs.length ≤ used cs := by
  induction cs with
  | nil => exact Nat.zero_le _
  | cons c cs ih =>
    have hrest := ih fun f hf => hcs f (List.mem_cons_of_mem _ hf)
    have hc := hcs c List.mem_cons_self
    rw [List.length_cons, used_cons, Nat.mul_succ]
    omega

end PvrServices.Queues
