import PvrServices.CommandQueueSpace

set_option autoImplicit false

/-!
# Command queues over their runs

A queue hands the submitted commands out again in their order, each of them whole and once.
-/
namespace PvrServices.Queues
open Words Memory Runs
variable {mem mem' : ℕ → UInt8} {p r w Q : ℕ} {c : Command} {cs : List Command} {q : QueueInfo}
  {t t' : Client}

/-- The queue holds the unread commands `cs`, and at the write offset the command that its user
    has not submitted yet. -/
structure Ready (t : Client) (cs : List Command) : Prop where
  size : ∃ k, k ≤ 31 ∧ t.queue.queueSize = 2 ^ k
  read_lt : t.queue.readOffset < t.queue.queueSize
  write_lt : t.queue.writeOffset < t.queue.queueSize
  used_lt : used cs < t.queue.queueSize
  wrap : t.queue.readOffset + used cs = t.queue.writeOffset ∨
    t.queue.readOffset + used cs = t.queue.writeOffset + t.queue.queueSize
  stored : ∀ x ∈ places t.queue.queueSize t.queue.readOffset cs, Stored t.queue.linQueue x.1 x.2
  command : ∀ p, t.command = some p → p = t.queue.writeOffset ∧
    ∃ c, Stored t.queue.linQueue p c ∧ used cs + c.cmdSize.toNat < t.queue.queueSize

theorem Ready.sized (v : Ready t cs) : t.queue.Sized := ⟨v.size, v.read_lt, v.write_lt⟩

theorem Ready.write_eq (v : Ready t cs) :
    (t.queue.readOffset + used cs) % t.queue.queueSize = t.queue.writeOffset := by
  have hw := v.write_lt
  rcases v.wrap with h | h
  · rw [h, Nat.mod_eq_of_lt hw]
  · rw [h, Nat.add_mod_right, Nat.mod_eq_of_lt hw]

theorem Ready.unread_eq (v : Ready t cs) : t.queue.unread = used cs := by
  have hr := v.read_lt
  have hu := v.used_lt
  have hwrap := v.wrap
  rw [v.sized.unread_eq]
  split <;> omega

/-- One byte short of what is free, so that a full queue never looks empty. -/
theorem Ready.space (v : Ready t cs) :
    getSpaceInCmdq t.queue = t.queue.queueSize - 1 - used cs := by
  rw [v.sized.space, v.unread_eq]

theorem Ready.getQueueSpace_ok (v : Ready t cs) {n : ℕ}
    (h : getQueueSpace t.queue n = .ok p) : p = t.queue.writeOffset ∧
      roundToWord n ≤ pvrsrvMaxCmdSize ∧ used cs + roundToWord n + 1 < t.queue.queueSize := by
  have hu := v.used_lt
  unfold getQueueSpace at h
  rw [v.space] at h
  dsimp only at h
  split at h
  · cases h
  · split at h
    · cases h
      exact ⟨rfl, by omega, by omega⟩
    · cases h

theorem Ready.empty_iff (v : Ready t cs) :
    t.queue.readOffset = t.queue.writeOffset ↔ cs = [] := by
  have hu := v.used_lt
  have hwrap := v.wrap
  constructor
  · intro h
    cases cs with
    | nil => rfl
    | cons c cs =>
      have hsize : c.cmdSize.toNat = c.dataOffset + c.dataSize.toNat :=
        (v.stored (t.queue.readOffset, c) (by simp [places])).size
      unfold Command.dataOffset commandHeader at hsize
      rw [used_cons] at hu hwrap
      omega
  · rintro rfl
    simp only [used, List.map_nil, List.sum_nil] at hwrap
    have := v.read_lt
    omega

theorem Ready.stored_of_out (v : Ready t cs) {n : ℕ}
    (hfree : used cs + n < t.queue.queueSize)
    (hout : ∀ j, (j < t.queue.writeOffset ∨ t.queue.writeOffset + n ≤ j) →
      mem' j = t.queue.linQueue j) :
    ∀ x ∈ places t.queue.queueSize t.queue.readOffset cs, Stored mem' x.1 x.2 := by
  intro x hx
  apply (v.stored x hx).congr
  intro j hi hj
  apply hout
  have := places_apart v.read_lt hfree v.wrap hx
  omega

def Insertion.Sized (x : Insertion) : Prop :=
  commandHeader + syncObjectSize * (x.dstSync.length + x.srcSync.length) +
    (x.dataByteSize + 3) / 4 * 4 < 4294967296

theorem Insertion.size_eq {x : Insertion} (h : x.Sized) :
    roundToWord x.dataByteSize = (x.dataByteSize + 3) / 4 * 4 ∧
    commandSize x.dstSync.length x.srcSync.length x.dataByteSize = commandHeader +
      syncObjectSize * (x.dstSync.length + x.srcSync.length) + roundToWord x.dataByteSize := by
  unfold Insertion.Sized commandHeader syncObjectSize at h
  have hround : roundToWord x.dataByteSize = (x.dataByteSize + 3) / 4 * 4 := by
    unfold roundToWord
    rw [u32_of_lt (by omega)]
  refine ⟨hround, ?_⟩
  unfold commandSize commandHeader syncObjectSize
  rw [u32_of_lt (show x.dstSync.length + x.srcSync.length < 4294967296 by omega),
    u32_of_lt (show (x.dstSync.length + x.srcSync.length) * 12 < 4294967296 by omega),
    u32_of_lt (show 40 + (x.dstSync.length + x.srcSync.length) * 12 < 4294967296 by omega),
    u32_of_lt (by omega)]
  omega

theorem Insertion.roundToWord_size {x : Insertion} (h : x.Sized) :
    roundToWord (commandSize x.dstSync.length x.srcSync.length x.dataByteSize) =
      commandSize x.dstSync.length x.srcSync.length x.dataByteSize := by
  have hsize := Insertion.size_eq h
  rw [hsize.2, hsize.1]
  unfold Insertion.Sized commandHeader syncObjectSize at h
  unfold roundToWord commandHeader syncObjectSize
  rw [u32_of_lt (by omega)]
  omega

def inserted (mem : ℕ → UInt8) (p : ℕ) (x : Insertion) (data : List UInt8) : ℕ → UInt8 :=
  let mem := store mem p (wordBytes (commandWords p x.command))
  store mem (word mem (p + 36)).toNat data

/-- The inserted command, with whatever its user has left in its data. -/
def Insertion.finished (x : Insertion) (p : ℕ) (data : List UInt8) (mem : ℕ → UInt8) : Command :=
  { x.command with
    data := copy (inserted mem p x data) (p + x.command.dataOffset) x.command.dataSize.toNat }

/-- The pointer that the insertion stores is where the user's data goes. -/
theorem inserted_eq (mem : ℕ → UInt8) {x : Insertion} (data : List UInt8) (hx : x.Sized)
    (hsmall : commandSize x.dstSync.length x.srcSync.length x.dataByteSize ≤ pvrsrvMaxCmdSize)
    (hp : p + pvrsrvMaxCmdSize < 4294967296) :
    inserted mem p x data = store (store mem p (wordBytes (commandWords p x.command)))
      (p + x.command.dataOffset) data ∧
    (wordBytes (commandWords p x.command)).length = x.command.dataOffset := by
  obtain ⟨-, hsize⟩ := Insertion.size_eq hx
  have hlen : (wordBytes (commandWords p x.command)).length = x.command.dataOffset := by
    rw [wordBytes_length]
    unfold commandWords Command.dataOffset Command.syncCount commandHeader syncObjectSize
    rw [List.length_append, List.length_append, syncWords_length, syncWords_length]
    simp only [headerWords, List.length_cons, List.length_nil]
    omega
  have hwords : copy (store mem p (wordBytes (commandWords p x.command))) p
      x.command.dataOffset = wordBytes (commandWords p x.command) := by
    rw [← hlen, copy_store]
  have hoffset : x.command.dataOffset =
      commandHeader + syncObjectSize * (x.dstSync.length + x.srcSync.length) := rfl
  have hoffset' : p + 40 + 12 * x.dstSync.length + 12 * x.srcSync.length =
      p + x.command.dataOffset := by
    rw [hoffset]
    unfold commandHeader syncObjectSize
    omega
  unfold pvrsrvMaxCmdSize at hsmall hp
  have hptr : word (store mem p (wordBytes (commandWords p x.command))) (p + 36) =
      UInt32.ofNat (p + 40 + 12 * x.dstSync.length + 12 * x.srcSync.length) :=
    word_of_copy_words (stored_words hwords).1 (k := 9) (show 9 < 10 by decide)
  have hplace : (word (store mem p (wordBytes (commandWords p x.command))) (p + 36)).toNat =
      p + x.command.dataOffset := by
    rw [hptr, hoffset', toNat_ofNat (by omega)]
  refine ⟨?_, hlen⟩
  unfold inserted
  dsimp only
  rw [hplace]

theorem inserted_spec (mem : ℕ → UInt8) {x : Insertion} {data : List UInt8} (hx : x.Sized)
    (hdata : data.length ≤ roundToWord x.dataByteSize)
    (hsmall : commandSize x.dstSync.length x.srcSync.length x.dataByteSize ≤ pvrsrvMaxCmdSize)
    (hp : p + pvrsrvMaxCmdSize < 4294967296) :
    Stored (inserted mem p x data) p (x.finished p data mem) ∧
    (x.finished p data mem).cmdSize.toNat =
      commandSize x.dstSync.length x.srcSync.length x.dataByteSize ∧
    (∀ j, (j < p ∨ p + commandSize x.dstSync.length x.srcSync.length x.dataByteSize ≤ j) →
      inserted mem p x data j = mem j) ∧
    (data.length = x.command.dataSize.toNat → (x.finished p data mem).data = data) := by
  obtain ⟨heq, hlen⟩ := inserted_eq mem data hx hsmall hp
  obtain ⟨-, hsize⟩ := Insertion.size_eq hx
  have hoffset : x.command.dataOffset =
      commandHeader + syncObjectSize * (x.dstSync.length + x.srcSync.length) := rfl
  unfold pvrsrvMaxCmdSize at hsmall
  have hdsize : x.command.dataSize.toNat = roundToWord x.dataByteSize := toNat_ofNat (by omega)
  have hcsize : x.command.cmdSize.toNat =
      commandSize x.dstSync.length x.srcSync.length x.dataByteSize := toNat_ofNat (by omega)
  have hout (j : ℕ) (hj : j < p ∨
      p + commandSize x.dstSync.length x.srcSync.length x.dataByteSize ≤ j) :
      inserted mem p x data j = mem j := by
    rw [heq, store_out (by omega), store_out (by omega)]
  have hst : Stored (inserted mem p x data) p (x.finished p data mem) :=
    { words := by
        change copy (inserted mem p x data) p x.command.dataOffset =
          wordBytes (commandWords p x.command)
        rw [heq, copy_store_out _ (by omega), ← hlen, copy_store]
      data := rfl
      size := by
        change x.command.cmdSize.toNat = x.command.dataOffset + x.command.dataSize.toNat
        omega
      small := by
        change x.command.cmdSize.toNat ≤ 1024
        omega }
  refine ⟨hst, hcsize, hout, fun hfull => ?_⟩
  change copy (inserted mem p x data) (p + x.command.dataOffset) x.command.dataSize.toNat = data
  rw [heq, ← hfull, copy_store]

theorem Ready.insertion_bounds (v : Ready t cs) {x : Insertion} (hx : x.Sized)
    (hspace : getQueueSpace t.queue
      (commandSize x.dstSync.length x.srcSync.length x.dataByteSize) = .ok p) :
    p = t.queue.writeOffset ∧
    commandSize x.dstSync.length x.srcSync.length x.dataByteSize ≤ pvrsrvMaxCmdSize ∧
    used cs + commandSize x.dstSync.length x.srcSync.length x.dataByteSize + 1 <
      t.queue.queueSize ∧ p + pvrsrvMaxCmdSize < 4294967296 := by
  obtain ⟨hp, hsmall, hfree⟩ := v.getQueueSpace_ok hspace
  rw [Insertion.roundToWord_size hx] at hsmall hfree
  have hle := v.sized.le
  have hw := v.write_lt
  refine ⟨hp, hsmall, hfree, ?_⟩
  unfold pvrsrvMaxCmdSize
  omega

theorem Ready.insert (v : Ready t cs) {x : Insertion} {data : List UInt8} (hx : x.Sized)
    (hdata : data.length ≤ roundToWord x.dataByteSize)
    (hspace : getQueueSpace t.queue
      (commandSize x.dstSync.length x.srcSync.length x.dataByteSize) = .ok p) :
    Ready ⟨{ t.queue with linQueue := inserted t.queue.linQueue p x data }, some p⟩ cs ∧
    commandAt (inserted t.queue.linQueue p x data) p = x.finished p data t.queue.linQueue ∧
    ∀ j, t.queue.queueSize + pvrsrvMaxCmdSize ≤ j →
      inserted t.queue.linQueue p x data j = t.queue.linQueue j := by
  obtain ⟨hp, hsmall, hfree, hbound⟩ := v.insertion_bounds hx hspace
  have hw := v.write_lt
  obtain ⟨hst, hcsize, hout, -⟩ := inserted_spec t.queue.linQueue hx hdata hsmall hbound
  have hready : Ready ⟨{ t.queue with linQueue := inserted t.queue.linQueue p x data }, some p⟩
      cs :=
    { size := v.size
      read_lt := v.read_lt
      write_lt := v.write_lt
      used_lt := v.used_lt
      wrap := v.wrap
      stored := v.stored_of_out
        (n := commandSize x.dstSync.length x.srcSync.length x.dataByteSize) (by omega)
        (by rw [← hp]; exact hout)
      command := by
        intro p' hp'
        cases hp'
        exact ⟨hp, _, hst, by rw [hcsize]; dsimp only; omega⟩ }
  exact ⟨hready, hst.read hbound, fun j hj => hout j (by omega)⟩

theorem Ready.submit (v : Ready t cs) (hc : t.command = some p) : ∃ c,
    Stored t.queue.linQueue p c ∧ commandAt (submitCommand t.queue p).linQueue p = c ∧
    (submitCommand t.queue p).linQueue = t.queue.linQueue ∧
    Ready ⟨submitCommand t.queue p, none⟩ (cs ++ [c]) := by
  obtain ⟨rfl, c, hst, hfree⟩ := v.command p hc
  obtain ⟨k, hk, he⟩ := v.size
  have hle := v.sized.le
  have hw := v.write_lt
  have hr := v.read_lt
  have hwrap := v.wrap
  have hsmall := hst.small
  have hbound : t.queue.writeOffset + pvrsrvMaxCmdSize < 4294967296 := by
    unfold pvrsrvMaxCmdSize
    omega
  have hsize := hst.size
  unfold Command.dataOffset Command.syncCount commandHeader syncObjectSize at hsize
  unfold pvrsrvMaxCmdSize at hsmall
  have hheader := (stored_words hst.words).1
  have hdst : (word t.queue.linQueue (t.queue.writeOffset + 12)).toNat = c.dstSync.length := by
    have h : word t.queue.linQueue (t.queue.writeOffset + 12) =
        UInt32.ofNat c.dstSync.length :=
      word_of_copy_words hheader (k := 3) (show 3 < 10 by decide)
    rw [h, toNat_ofNat (by omega)]
  have hsrc : (word t.queue.linQueue (t.queue.writeOffset + 16)).toNat = c.srcSync.length := by
    have h : word t.queue.linQueue (t.queue.writeOffset + 16) =
        UInt32.ofNat c.srcSync.length :=
      word_of_copy_words hheader (k := 4) (show 4 < 10 by decide)
    rw [h, toNat_ofNat (by omega)]
  have hcmd : word t.queue.linQueue t.queue.writeOffset = c.cmdSize :=
    word_of_copy_words hheader (k := 0) (show 0 < 10 by decide)
  have hrun : submitCommand t.queue t.queue.writeOffset =
      updateQueueWoff t.queue c.cmdSize.toNat := by
    unfold submitCommand
    rw [hdst, hsrc, hst.setPointers_eq]
    dsimp only
    rw [hcmd]
  have hoff : (updateQueueWoff t.queue c.cmdSize.toNat).writeOffset =
      (t.queue.writeOffset + c.cmdSize.toNat) % t.queue.queueSize := by
    rw [v.sized.updateWoff]
  have hmod := mod_wrap (Q := t.queue.queueSize)
    (show t.queue.writeOffset + c.cmdSize.toNat < 2 * t.queue.queueSize by omega)
  have hused : used (cs ++ [c]) = used cs + c.cmdSize.toNat := by
    rw [used_append, used_cons]
    rfl
  rw [hrun]
  refine ⟨c, hst, hst.read hbound, rfl, ?_⟩
  exact
    { size := v.size
      read_lt := hr
      write_lt := by
        rw [hoff]
        exact Nat.mod_lt _ (by omega)
      used_lt := by
        rw [hused]
        exact hfree
      wrap := by
        rw [hused, hoff]
        change t.queue.readOffset + (used cs + c.cmdSize.toNat) = _ ∨
          t.queue.readOffset + (used cs + c.cmdSize.toNat) = _ + t.queue.queueSize
        omega
      stored := by
        change ∀ x ∈ places t.queue.queueSize t.queue.readOffset (cs ++ [c]),
          Stored t.queue.linQueue x.1 x.2
        rw [places_append hr, v.write_eq]
        intro x hx
        rcases List.mem_append.mp hx with hx | hx
        · exact v.stored x hx
        · rw [List.mem_singleton.mp hx]
          exact hst
      command := by simp }

theorem Ready.post (v : Ready t cs) {x : Insertion} {data : List UInt8} (hx : x.Sized)
    (hdata : data.length = roundToWord x.dataByteSize) :
    (∃ e, step t (.insert x data) = some (.inserted (.error e), t)) ∨
    ∃ p c t₁ t₂, step t (.insert x data) = some (.inserted (.ok p), t₁) ∧
      step t₁ .submit = some (.submitted c, t₂) ∧ Ready t₂ (cs ++ [c]) ∧ t₂.command = none ∧
      c.dstSync = x.dstSync ∧ c.srcSync = x.srcSync ∧
      c.commandType = x.commandType.toUInt32 ∧ c.data = data := by
  cases hspace : getQueueSpace t.queue
      (commandSize x.dstSync.length x.srcSync.length x.dataByteSize) with
  | error e => exact .inl ⟨e, by simp [step, insertCommand, hspace]⟩
  | ok p =>
    obtain ⟨-, hsmall, -, hbound⟩ := v.insertion_bounds hx hspace
    obtain ⟨v', hread, -⟩ := v.insert hx (Nat.le_of_eq hdata) hspace
    obtain ⟨c, -, hc, hmem, v''⟩ := v'.submit rfl
    rw [hmem, hread] at hc
    have hdsize : x.command.dataSize.toNat = roundToWord x.dataByteSize := by
      have hsize := (Insertion.size_eq hx).2
      unfold pvrsrvMaxCmdSize at hsmall
      exact toNat_ofNat (by omega)
    have hfull := (inserted_spec t.queue.linQueue hx (Nat.le_of_eq hdata) hsmall hbound).2.2.2
      (hdata.trans hdsize.symm)
    let q : QueueInfo := { t.queue with linQueue := inserted t.queue.linQueue p x data }
    refine .inr ⟨p, c, ⟨q, some p⟩, ⟨submitCommand q p, none⟩, ?_, ?_, v'', rfl, ?_⟩
    · simp only [step, insertCommand, hspace]
      rfl
    · have hsub : commandAt (submitCommand q p).linQueue p = c := by
        rw [hmem, hread, hc]
      simp only [step, hsub]
    · rw [← hc]
      exact ⟨rfl, rfl, rfl, hfull⟩

/-- A round over the queue takes nothing out, or the command that was submitted first. -/
theorem Ready.process (v : Ready t cs) (processed : Command → Bool) :
    takeCommand t.queue processed = (none, t.queue) ∨
    ∃ c ds, cs = c :: ds ∧ processed c = true ∧
      takeCommand t.queue processed = (some c, updateQueueRoff t.queue c.cmdSize.toNat) ∧
      Ready ⟨updateQueueRoff t.queue c.cmdSize.toNat, t.command⟩ ds := by
  unfold takeCommand headCommand
  by_cases hempty : t.queue.readOffset = t.queue.writeOffset
  · rw [if_pos hempty]
    exact Or.inl rfl
  · rw [if_neg hempty]
    have hne : cs ≠ [] := fun h => hempty (v.empty_iff.mpr h)
    cases cs with
    | nil => exact absurd rfl hne
    | cons c ds =>
      obtain ⟨k, hk, he⟩ := v.size
      have hle := v.sized.le
      have hr := v.read_lt
      have hused := v.used_lt
      have hwrap := v.wrap
      rw [used_cons] at hused hwrap
      have hst : Stored t.queue.linQueue t.queue.readOffset c :=
        v.stored (t.queue.readOffset, c) (by simp [places])
      have hbound : t.queue.readOffset + pvrsrvMaxCmdSize < 4294967296 := by
        unfold pvrsrvMaxCmdSize
        omega
      rw [hst.read hbound]
      dsimp only
      by_cases hproc : processed c = true
      · rw [if_pos hproc]
        have hoff : (updateQueueRoff t.queue c.cmdSize.toNat).readOffset =
            (t.queue.readOffset + c.cmdSize.toNat) % t.queue.queueSize := by
          rw [v.sized.updateRoff]
        have hmod := mod_wrap (Q := t.queue.queueSize)
          (show t.queue.readOffset + c.cmdSize.toNat < 2 * t.queue.queueSize by omega)
        refine Or.inr ⟨c, ds, rfl, hproc, rfl, ?_⟩
        exact
          { size := v.size
            read_lt := by
              rw [hoff]
              exact Nat.mod_lt _ (by omega)
            write_lt := v.write_lt
            used_lt := by
              change used ds < t.queue.queueSize
              omega
            wrap := by
              rw [hoff]
              change _ + used ds = t.queue.writeOffset ∨
                _ + used ds = t.queue.writeOffset + t.queue.queueSize
              have := v.write_lt
              omega
            stored := by
              rw [hoff]
              intro x hx
              exact v.stored x (by simp only [places, List.mem_cons]; exact Or.inr hx)
            command := by
              intro p hp
              obtain ⟨hpw, d, hd, hfree⟩ := v.command p hp
              rw [used_cons] at hfree
              refine ⟨hpw, d, hd, ?_⟩
              change used ds + d.cmdSize.toNat < t.queue.queueSize
              omega }
      · rw [if_neg hproc]
        exact Or.inl rfl

theorem unread_length (v : Ready t cs) : commandHeader * cs.length < t.queue.queueSize := by
  have hle : commandHeader * cs.length ≤ used cs := by
    apply length_le_used
    intro c hc
    obtain ⟨p, hp⟩ := exists_place t.queue.queueSize hc t.queue.readOffset
    have hsize : c.cmdSize.toNat = c.dataOffset + c.dataSize.toNat := (v.stored (p, c) hp).size
    unfold Command.dataOffset at hsize
    omega
  exact Nat.lt_of_le_of_lt hle v.used_lt

theorem head_of_ready (v : Ready t cs) : headCommand t.queue = cs.head? := by
  cases v.process fun _ => true with
  | inl hnone =>
    cases hh : headCommand t.queue with
    | none =>
      have hempty : t.queue.readOffset = t.queue.writeOffset := by
        unfold headCommand at hh
        by_contra hne
        rw [if_neg hne] at hh
        cases hh
      rw [v.empty_iff.mp hempty]
      rfl
    | some c => simp [takeCommand, hh] at hnone
  | inr hsome =>
    obtain ⟨c, ds, rfl, -, htake, -⟩ := hsome
    cases hh : headCommand t.queue with
    | none => simp [takeCommand, hh] at htake
    | some f =>
      have hf : f = c := by simpa [takeCommand, hh] using congrArg Prod.fst htake
      rw [hf]
      rfl

/-- The commands from the read offset on, as taking them one after the other finds them. -/
def unreadCommands : ℕ → QueueInfo → List Command
  | 0, _ => []
  | n + 1, q =>
    match takeCommand q fun _ => true with
    | (none, _) => []
    | (some c, q) => c :: unreadCommands n q

theorem Ready.unreadCommands {n : ℕ} (v : Ready t cs) (hn : cs.length ≤ n) :
    Queues.unreadCommands n t.queue = cs := by
  induction n generalizing t cs with
  | zero =>
    rw [List.length_eq_zero_iff.mp (Nat.le_zero.mp hn)]
    rfl
  | succ n ih =>
    unfold Queues.unreadCommands
    cases v.process fun _ => true with
    | inl hnone =>
      have hhead := head_of_ready v
      cases cs with
      | nil => simp [takeCommand, hhead]
      | cons c cs => simp [takeCommand, hhead] at hnone
    | inr hsome =>
      obtain ⟨c, ds, rfl, -, htake, v'⟩ := hsome
      rw [htake]
      dsimp only
      rw [ih v' (Nat.le_of_succ_le_succ hn)]

/-- How a queue is used: an insertion only after the last one was submitted, with a size that
    does not overflow, and data within the space that was asked for. -/
def Ordered (t : Client) : QueueOp → Prop
  | .insert x data =>
    t.command = none ∧ x.Sized ∧ data.length ≤ roundToWord x.dataByteSize
  | _ => True

instance (x : Insertion) : Decidable x.Sized := inferInstanceAs (Decidable (_ < _))

instance (t : Client) (op : QueueOp) : Decidable (Ordered t op) :=
  match op with
  | .insert _ _ => inferInstanceAs (Decidable (_ ∧ _ ∧ _))
  | .request _ | .submit | .process _ => inferInstanceAs (Decidable True)

def QueueAnswer.submission : QueueAnswer → Option Command
  | .submitted c => some c
  | _ => none

def QueueAnswer.taking : QueueAnswer → Option Command
  | .taken c => c
  | _ => none

/-- What holds of a queue of `mem` after the calls and answers `l`, with `cs` unread. -/
structure Sound (mem : ℕ → UInt8) (l : List (QueueOp × QueueAnswer)) (t : Client)
    (cs : List Command) : Prop where
  read_lt : t.queue.readOffset < t.queue.queueSize
  write_lt : t.queue.writeOffset < t.queue.queueSize
  fifo : l.filterMap (fun r => r.2.submission) = l.filterMap (fun r => r.2.taking) ++ cs
  whole : ∀ x ∈ places t.queue.queueSize t.queue.readOffset cs,
    commandAt t.queue.linQueue x.1 = x.2
  empty_iff : t.queue.readOffset = t.queue.writeOffset ↔ cs = []
  inside : ∀ p, t.command = some p → p + (commandAt t.queue.linQueue p).cmdSize.toNat ≤
    t.queue.queueSize + pvrsrvMaxCmdSize
  apart : ∀ p, t.command = some p → ∀ x ∈ places t.queue.queueSize t.queue.readOffset cs,
    p + (commandAt t.queue.linQueue p).cmdSize.toNat ≤ x.1 ∨ x.1 + x.2.cmdSize.toNat ≤ p
  beyond : ∀ j, t.queue.queueSize + pvrsrvMaxCmdSize ≤ j → t.queue.linQueue j = mem j

theorem Ready.sound (v : Ready t cs) {l : List (QueueOp × QueueAnswer)}
    (hfifo : l.filterMap (fun r => r.2.submission) = l.filterMap (fun r => r.2.taking) ++ cs)
    (hbeyond : ∀ j, t.queue.queueSize + pvrsrvMaxCmdSize ≤ j → t.queue.linQueue j = mem j) :
    Sound mem l t cs := by
  have hle := v.sized.le
  have hw := v.write_lt
  have hread (p : ℕ) (hp : p < t.queue.queueSize) : p + pvrsrvMaxCmdSize < 4294967296 := by
    unfold pvrsrvMaxCmdSize
    omega
  have hpending (p : ℕ) (hp : t.command = some p) : p = t.queue.writeOffset ∧
      used cs + (commandAt t.queue.linQueue p).cmdSize.toNat < t.queue.queueSize ∧
      (commandAt t.queue.linQueue p).cmdSize.toNat ≤ pvrsrvMaxCmdSize := by
    obtain ⟨hpw, c, hst, hfree⟩ := v.command p hp
    rw [hst.read (hread p (by omega))]
    exact ⟨hpw, hfree, hst.small⟩
  exact
    { read_lt := v.read_lt
      write_lt := hw
      fifo := hfifo
      whole := by
        intro x hx
        obtain ⟨u, hu, hend, hplace⟩ := places_unwrap v.read_lt v.used_lt hx
        have := v.read_lt
        have := v.used_lt
        exact (v.stored x hx).read (hread x.1 (by omega))
      empty_iff := v.empty_iff
      inside := by
        intro p hp
        have := hpending p hp
        omega
      apart := by
        intro p hp x hx
        obtain ⟨hpw, hfree, -⟩ := hpending p hp
        rw [hpw] at hfree ⊢
        exact places_apart v.read_lt hfree v.wrap hx
      beyond := hbeyond }

theorem Ready.step_spec (v : Ready t cs) {op : QueueOp} {r : QueueAnswer} (hop : Ordered t op)
    (h : step t op = some (r, t')) : ∃ ds, Ready t' ds ∧
      cs ++ r.submission.toList = r.taking.toList ++ ds ∧
      t'.queue.queueSize = t.queue.queueSize ∧
      ∀ j, t.queue.queueSize + pvrsrvMaxCmdSize ≤ j →
        t'.queue.linQueue j = t.queue.linQueue j := by
  cases op with
  | request n =>
    cases h
    exact ⟨cs, v, by simp [QueueAnswer.submission, QueueAnswer.taking], rfl, fun _ _ => rfl⟩
  | insert x data =>
    obtain ⟨-, hx, hdata⟩ := hop
    cases hspace : getQueueSpace t.queue
        (commandSize x.dstSync.length x.srcSync.length x.dataByteSize) with
    | error e =>
      simp only [step, insertCommand, hspace] at h
      cases h
      exact ⟨cs, v, by simp [QueueAnswer.submission, QueueAnswer.taking], rfl, fun _ _ => rfl⟩
    | ok p =>
      simp only [step, insertCommand, hspace] at h
      cases h
      obtain ⟨v', -, hout⟩ := v.insert hx hdata hspace
      exact ⟨cs, v', by simp [QueueAnswer.submission, QueueAnswer.taking], rfl, hout⟩
  | submit =>
    cases hc : t.command with
    | none => simp [step, hc] at h
    | some p =>
      simp only [step, hc] at h
      cases h
      obtain ⟨c, -, hread, hmem, v'⟩ := v.submit hc
      refine ⟨cs ++ [c], v', ?_, rfl, fun j _ => congrFun hmem j⟩
      simp [QueueAnswer.submission, QueueAnswer.taking, hread]
  | process processed =>
    simp only [step] at h
    rcases v.process processed with hnone | ⟨c, ds, rfl, -, hsome, v'⟩
    · rw [hnone] at h
      cases h
      exact ⟨cs, v, by simp [QueueAnswer.submission, QueueAnswer.taking], rfl, fun _ _ => rfl⟩
    · rw [hsome] at h
      cases h
      exact ⟨ds, v', by simp [QueueAnswer.submission, QueueAnswer.taking], rfl, fun _ _ => rfl⟩

theorem ready_created {os os' : Os} {n : ℕ} (h : 1 ≤ n) (hn : n ≤ 2147483648)
    (hq : createCommandQueue os mem n = (.ok q, os')) :
    Ready ⟨q, none⟩ [] ∧ q.linQueue = mem := by
  obtain ⟨k, hk, he⟩ := nearestPower2_eq h hn
  have hnew : q = ⟨mem, 0, 0, nearestPower2 n⟩ := createCommandQueue_queue (congrArg Prod.fst hq)
  have hpos : 0 < nearestPower2 n := by
    rw [he]
    exact Nat.two_pow_pos k
  rw [hnew]
  exact ⟨⟨⟨k, hk, he⟩, hpos, hpos, hpos, Or.inl rfl, by simp [places], by simp⟩, rfl⟩

/-- Every queue, in whatever order it is used. -/
theorem queue_fifo_over_runs {os os' : Os} {n : ℕ} (h : 1 ≤ n) (hn : n ≤ 2147483648)
    (hq : createCommandQueue os mem n = (.ok q, os')) {l : List (QueueOp × QueueAnswer)}
    (run : Run step Ordered ⟨q, none⟩ l t) : ∃ cs, Sound mem l t cs := by
  obtain ⟨hstart, hmem⟩ := ready_created h hn hq
  have hrun : ∃ cs, Ready t cs ∧
      l.filterMap (fun r => r.2.submission) = l.filterMap (fun r => r.2.taking) ++ cs ∧
      ∀ j, t.queue.queueSize + pvrsrvMaxCmdSize ≤ j → t.queue.linQueue j = mem j := by
    induction run with
    | refl => exact ⟨[], hstart, rfl, fun j _ => congrFun hmem j⟩
    | @snoc l _ _ _ _ _ hop hs ih =>
      obtain ⟨cs, v, hfifo, hbeyond⟩ := ih
      obtain ⟨ds, v', hnext, hsize, hout⟩ := v.step_spec hop hs
      refine ⟨ds, v', ?_, fun j hj => ?_⟩
      · rw [List.filterMap_append, List.filterMap_append, hfifo, List.append_assoc,
          List.append_assoc]
        exact congrArg (l.filterMap (fun r => r.2.taking) ++ ·) hnext
      · rw [hsize] at hj
        rw [hout j hj, hbeyond j hj]
  obtain ⟨cs, v, hfifo, hbeyond⟩ := hrun
  exact ⟨cs, v.sound hfifo hbeyond⟩

def sampleQueue : QueueInfo := ⟨fun _ => 0, 0, 0, 128⟩

theorem sampleQueue_created :
    createCommandQueue ⟨fun _ => true, 0⟩ (fun _ => 0) 100 = (.ok sampleQueue, ⟨fun _ => true, 2⟩) := by
  have h : nearestPower2 100 = 128 := by decide +kernel
  unfold createCommandQueue
  rw [h]
  rfl

def sampleQueueOps : List QueueOp :=
  [.insert ⟨1, 0, 3, [⟨4096, 0, 0⟩], [⟨8192, 0, 0⟩], 10⟩ [1, 2, 3], .submit, .process fun _ => true,
    .insert ⟨1, 0, 3, [⟨4096, 1, 0⟩], [], 0⟩ [], .submit, .request 60, .process fun _ => false]

theorem queue_fifo_over_sample : ∃ l t, exec step ⟨sampleQueue, none⟩ sampleQueueOps = some (l, t) ∧
    ∃ cs, Sound (fun _ => 0) l t cs := by
  obtain ⟨⟨l, t⟩, h⟩ := Option.isSome_iff_exists.mp
    (show (exec step ⟨sampleQueue, none⟩ sampleQueueOps).isSome = true by decide +kernel)
  exact ⟨l, t, h, queue_fifo_over_runs (n := 100) (by decide) (by decide) sampleQueue_created
    (Run.of_allowed h (by decide +kernel))⟩

end PvrServices.Queues
