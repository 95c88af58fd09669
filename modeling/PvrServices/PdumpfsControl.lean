import PvrServices.PdumpfsBase
import PvrServices.Printf
import PvrServices.Runs

set_option autoImplicit false

/-!
# The control files of the dump

The writes to a file go to a buffer of 16 bytes that all its writers share. The terminator of a
number is put behind as many bytes as are written, wherever they went.
-/
namespace PvrServices.PdumpfsControl
open Memory Printf Runs Words

inductive PdumpfsMode where
  | disabled
  | standard
  | full
  deriving DecidableEq

def pdumpfsModes : List (List UInt8 × PdumpfsMode) :=
  [(text "disabled", .disabled), (text "standard", .standard), (text "full", .full)]

def tmpSize : ℕ := 16

def efault : ℤ := -14

def einval : ℤ := -22

structure ControlState where
  pdumpfsMode : PdumpfsMode
  frameCountMax : ℕ
  modeTmp : ℕ → UInt8
  countTmp : ℕ → UInt8

/-- What a handler returns, the position after it, the bytes that the process got, and the end of
    what was accessed of the buffer. -/
structure Answer where
  ret : ℤ
  fPos : ℕ
  bytes : List UInt8
  reach : ℕ

def cString (tmp : ℕ → UInt8) : List UInt8 := (copy tmp 0 (tmpSize + 1)).takeWhile (· ≠ 0)

def copyText (tmp : Buffer) (size : ℕ) (faults : Bool) (fPos : ℕ) : Answer :=
  let n := (cString tmp.bytes).length
  if n < fPos then ⟨0, fPos, [], max tmp.written (n + 1)⟩
  else
    let size := if n + 1 < fPos + size then n + 1 - fPos else size
    let reach := max (max tmp.written (n + 1)) (fPos + size)
    if faults then ⟨efault, fPos, [], reach⟩
    else ⟨size, fPos + size, copy tmp.bytes fPos size, reach⟩

def emptyText (stack : ℕ → UInt8) : Buffer := ⟨store stack 0 [0], 1⟩

def pdumpfsModeRead (x : ControlState) (stack : ℕ → UInt8) : ℕ → Bool → ℕ → Answer :=
  copyText (pdumpfsModes.foldl (fun tmp m =>
    if m.2 = x.pdumpfsMode then (snprintf 0 tmpSize (m.1 ++ text "\n") tmp).2 else tmp)
    (emptyText stack))

def pdumpfsFrameCountMaxRead (x : ControlState) (stack : ℕ → UInt8) : ℕ → Bool → ℕ → Answer :=
  copyText (snprintf 0 tmpSize (signedDigits (BitVec.ofNat 32 x.frameCountMax).toInt)
    (emptyText stack)).2

structure Listing where
  skip : ℕ
  copies : ℕ
  bytes : List UInt8

/-- What is asked for of a space or a name; of the next copies to the process `copies` succeed. -/
def copyPiece (size : ℕ) (piece : List UInt8) (s : Listing) : Option Listing :=
  if piece.length ≤ s.skip then some { s with skip := s.skip - piece.length }
  else if s.bytes.length < size then
    if s.copies = 0 then none
    else
      some ⟨0, s.copies - 1, s.bytes ++ (piece.drop s.skip).take (size - s.bytes.length)⟩
  else some s

def listModes (size : ℕ) : Bool → List (List UInt8) → Listing → Option Listing
  | _, [], s => some s
  | spaced, name :: names, s =>
    (if spaced then copyPiece size [space] s else some s).bind fun s =>
      (if size = 0 then some s else copyPiece size name s).bind (listModes size true names)

def pdumpfsModesPossibleRead (size copies fPos : ℕ) : Answer :=
  match listModes size false (pdumpfsModes.map Prod.fst) ⟨u32 fPos, copies, []⟩ with
  | none => ⟨efault, fPos, [], 0⟩
  | some s => ⟨s.bytes.length, fPos + s.bytes.length, s.bytes, 0⟩

def toLower (b : UInt8) : UInt8 := if 65 ≤ b ∧ b ≤ 90 then b + 32 else b

def startsWith (tmp : ℕ → UInt8) (name : List UInt8) : Bool :=
  (copy tmp 0 name.length).map toLower = name.map toLower

/-- The start of a write: how much of it the buffer has room for, unless it fails, the buffer after
    it, and the end of what was stored. A failed copy leaves the bytes `fault`. -/
def takeText (tmp : ℕ → UInt8) (buffer : List UInt8) (fault : Option (List UInt8)) (fPos : ℕ) :
    Except ℤ ℕ × (ℕ → UInt8) × ℕ :=
  if tmpSize < fPos then (.error einval, tmp, 0)
  else
    let size := min buffer.length (tmpSize - fPos)
    match fault with
    | some left => (.error efault, store tmp fPos (left.take size), fPos + size)
    | none => (.ok size, store tmp fPos (buffer.take size), fPos + size)

def pdumpfsModeWrite (x : ControlState) (buffer : List UInt8) (fault : Option (List UInt8))
    (fPos : ℕ) : Answer × ControlState :=
  let (r, tmp, stored) := takeText x.modeTmp buffer fault fPos
  let x := { x with modeTmp := tmp }
  match r with
  | .error e => (⟨e, fPos, [], stored⟩, x)
  | .ok size =>
    let reach := (pdumpfsModes.map fun m => m.1.length).foldl max stored
    match pdumpfsModes.find? fun m => startsWith tmp m.1 with
    | some m => (⟨size, fPos + size, [], reach⟩, { x with pdumpfsMode := m.2 })
    | none => (⟨einval, fPos + size, [], reach⟩, x)

section
variable (strictStrtoul : List UInt8 → Option ℕ)

def pdumpfsFrameCountMaxWrite (x : ControlState) (buffer : List UInt8)
    (fault : Option (List UInt8)) (fPos : ℕ) : Answer × ControlState :=
  let (r, tmp, stored) := takeText x.countTmp buffer fault fPos
  match r with
  | .error e => (⟨e, fPos, [], stored⟩, { x with countTmp := tmp })
  | .ok size =>
    let tmp := store tmp size [0]
    let s := cString tmp
    (⟨size, fPos + size, [], max (max stored (size + 1)) (s.length + 1)⟩,
      { x with
        countTmp := tmp
        frameCountMax := (strictStrtoul s).elim x.frameCountMax Pdumpfs.frameCountMaxOf })

inductive Call where
  | modeRead (stack : ℕ → UInt8) (size : ℕ) (faults : Bool) (fPos : ℕ)
  | modeWrite (buffer : List UInt8) (fault : Option (List UInt8)) (fPos : ℕ)
  | modesPossibleRead (size copies fPos : ℕ)
  | frameCountMaxRead (stack : ℕ → UInt8) (size : ℕ) (faults : Bool) (fPos : ℕ)
  | frameCountMaxWrite (buffer : List UInt8) (fault : Option (List UInt8)) (fPos : ℕ)

def Call.fPos : Call → ℕ
  | .modeRead _ _ _ fPos | .modeWrite _ _ fPos | .modesPossibleRead _ _ fPos
  | .frameCountMaxRead _ _ _ fPos | .frameCountMaxWrite _ _ fPos => fPos

def handle (x : ControlState) : Call → Answer × ControlState
  | .modeRead stack size faults fPos => (pdumpfsModeRead x stack size faults fPos, x)
  | .modeWrite buffer fault fPos => pdumpfsModeWrite x buffer fault fPos
  | .modesPossibleRead size copies fPos => (pdumpfsModesPossibleRead size copies fPos, x)
  | .frameCountMaxRead stack size faults fPos =>
    (pdumpfsFrameCountMaxRead x stack size faults fPos, x)
  | .frameCountMaxWrite buffer fault fPos =>
    pdumpfsFrameCountMaxWrite strictStrtoul x buffer fault fPos

def controlStep (x : ControlState) (c : Call) : Option (Answer × ControlState) :=
  some (handle strictStrtoul x c)

/-- Reads of the list, one after the other, of which no copy fails. -/
def readModes : List ℕ → ℕ → List UInt8
  | [], _ => []
  | size :: sizes, fPos =>
    let a := pdumpfsModesPossibleRead size (2 * pdumpfsModes.length) fPos
    a.bytes ++ readModes sizes a.fPos

/-- The call stayed within the buffer and returns how far it moved the position, or an error. -/
structure Answer.Right (a : Answer) (fPos : ℕ) : Prop where
  inside : a.reach ≤ tmpSize
  failed : a.ret < 0 → a.fPos = fPos
  moved : 0 ≤ a.ret → (a.fPos : ℤ) = fPos + a.ret

/-- A number that is written at the start is the limit, within 1 and 1024. -/
def Limits (x : ControlState) (c : Call) : Prop :=
  ∀ buffer n, c = .frameCountMaxWrite buffer none 0 →
    strictStrtoul (buffer.takeWhile (· ≠ 0)) = some n →
      (handle strictStrtoul x c).2.frameCountMax = max 1 (min n 1024)

def Right (x : ControlState) (c : Call) : Prop :=
  (handle strictStrtoul x c).1.Right c.fPos ∧ Limits strictStrtoul x c

end

/-- What is written to the file of the mode, if anything is, leaves a mode at the start of the
    buffer, and what is written to the start of the file of the limit leaves room for a byte. -/
def Meets (x : ControlState) : Call → Prop
  | .modeWrite buffer fault fPos => fault = none → fPos < tmpSize → buffer ≠ [] →
    pdumpfsModes.any (fun m => startsWith (store x.modeTmp fPos (buffer.take (tmpSize - fPos))) m.1) =
      true
  | .frameCountMaxWrite buffer fault fPos => fault = none → fPos = 0 → buffer.length < tmpSize
  | _ => True

section
variable {strictStrtoul : List UInt8 → Option ℕ} {x y : ControlState} {c : Call} {tmp : Buffer}
  {mem : ℕ → UInt8} {buffer piece rest : List UInt8} {names : List (List UInt8)}
  {fault : Option (List UInt8)} {spaced : Bool} {size fPos k : ℕ} {u v : Listing}

theorem cString_eq (h0 : mem k = 0) (hk : k ≤ tmpSize) :
    cString mem = (copy mem 0 k).takeWhile (· ≠ 0) := by
  obtain ⟨n, hn⟩ : ∃ n, tmpSize + 1 = k + (1 + n) := ⟨tmpSize - k, by omega⟩
  have hnil : (copy mem (0 + k) (1 + n)).takeWhile (· ≠ 0) = [] := by
    rw [copy_add]
    simp [copy, h0]
  rw [cString, hn, copy_add, List.takeWhile_append, hnil, List.append_nil]
  split
  · next hall => exact (List.takeWhile_prefix _).eq_of_length hall |>.symm
  · rfl

theorem cString_length_le (h0 : mem k = 0) (hk : k ≤ tmpSize) : (cString mem).length ≤ k := by
  rw [cString_eq h0 hk]
  exact Nat.le_trans (List.takeWhile_prefix _).length_le (Nat.le_of_eq copy_length)

def Printed (tmp : Buffer) : Prop := tmp.written ≤ tmpSize ∧ ∃ k < tmpSize, tmp.bytes k = 0

theorem emptyText_printed (stack : ℕ → UInt8) : Printed (emptyText stack) :=
  ⟨show 1 ≤ tmpSize by decide, 0, by decide, rfl⟩

theorem Printed.snprintf (h : Printed tmp) (s : List UInt8) :
    Printed (snprintf 0 tmpSize s tmp).2 := by
  obtain ⟨hwritten, -⟩ := h
  unfold Printf.snprintf
  rw [vsnprintf_pos (by decide)]
  have hlen : (s.take (tmpSize - 1)).length ≤ tmpSize - 1 := List.length_take_le ..
  refine ⟨?_, (s.take (tmpSize - 1)).length, by unfold tmpSize at *; omega, ?_⟩
  · unfold tmpSize at *
    dsimp only
    omega
  · have hstored := @store_in _ tmp.bytes 0 (s.take (tmpSize - 1) ++ [0])
      (s.take (tmpSize - 1)).length (by simp)
    rw [Nat.zero_add, List.getElem_concat_length rfl] at hstored
    exact hstored

theorem Answer.right_error {e : ℤ} (he : e < 0) {pos : ℕ} :
    Answer.Right ⟨e, pos, buffer, k⟩ fPos ↔ k ≤ tmpSize ∧ pos = fPos :=
  ⟨fun h => ⟨h.inside, h.failed he⟩,
    fun h => ⟨h.1, fun _ => h.2, fun h0 => absurd he (Int.not_lt.mpr h0)⟩⟩

theorem Answer.right_count : Answer.Right ⟨size, fPos + size, buffer, k⟩ fPos ↔ k ≤ tmpSize := by
  refine ⟨fun h => h.inside, fun h => ⟨h, fun h0 => ?_, fun _ => by simp⟩⟩
  exact absurd h0 (Int.not_lt.mpr (Int.natCast_nonneg size))

theorem Printed.right (h : Printed tmp) (faults : Bool) :
    (copyText tmp size faults fPos).Right fPos := by
  obtain ⟨hwritten, k, hk, h0⟩ := h
  have hlen := cString_length_le h0 (Nat.le_of_lt hk)
  unfold copyText
  dsimp only
  by_cases hend : (cString tmp.bytes).length < fPos
  · rw [if_pos hend]
    exact Answer.right_count.mpr (by omega)
  · rw [if_neg hend]
    cases faults with
    | true => exact (Answer.right_error (by decide)).mpr ⟨by split <;> omega, rfl⟩
    | false => exact Answer.right_count.mpr (by split <;> omega)

theorem pdumpfsModeRead_right (stack : ℕ → UInt8) (faults : Bool) :
    (pdumpfsModeRead x stack size faults fPos).Right fPos := by
  apply Printed.right
  refine List.foldlRecOn pdumpfsModes _ (emptyText_printed stack) fun tmp h m _ => ?_
  split
  · exact h.snprintf _
  · exact h

/-- The names, with a space before each but the first unless some were before. -/
def joined : Bool → List (List UInt8) → List UInt8
  | _, [] => []
  | spaced, name :: names => (if spaced then [space] else []) ++ name ++ joined true names

/-- What a read gives in the end if `rest` is still to come. -/
def Listing.given (u : Listing) (size : ℕ) (rest : List UInt8) : List UInt8 :=
  u.bytes ++ (rest.drop u.skip).take (size - u.bytes.length)

theorem copyPiece_given (h : k < u.copies) : ∃ v, copyPiece size piece u = some v ∧ k ≤ v.copies ∧
    v.given size rest = u.given size (piece ++ rest) := by
  unfold copyPiece
  by_cases hskip : piece.length ≤ u.skip
  · rw [if_pos hskip]
    refine ⟨_, rfl, Nat.le_of_lt h, ?_⟩
    rw [Listing.given, Listing.given, List.drop_append, List.drop_eq_nil_of_le hskip,
      List.nil_append]
  · rw [if_neg hskip]
    by_cases hroom : u.bytes.length < size
    · rw [if_pos hroom, if_neg (by omega)]
      refine ⟨_, rfl, by dsimp only; omega, ?_⟩
      rw [Listing.given, Listing.given, List.drop_zero, List.append_assoc,
        List.drop_append_of_le_length (by omega), List.take_append, List.length_append,
        List.length_take]
      congr 3
      omega
    · rw [if_neg hroom]
      refine ⟨u, rfl, Nat.le_of_lt h, ?_⟩
      rw [Listing.given, Listing.given, Nat.sub_eq_zero_of_le (by omega), List.take_zero,
        List.take_zero]

theorem listModes_given (h : 2 * names.length ≤ u.copies) : ∃ v,
    listModes size spaced names u = some v ∧ v.bytes = u.given size (joined spaced names) := by
  induction names generalizing spaced u with
  | nil => exact ⟨u, rfl, by simp [joined, Listing.given]⟩
  | cons name names ih =>
    rw [List.length_cons] at h
    obtain ⟨v, hv, hk, hgiven⟩ : ∃ v, (if spaced then copyPiece size [space] u else some u) =
        some v ∧ 2 * names.length + 1 ≤ v.copies ∧
        v.given size (name ++ joined true names) = u.given size (joined spaced (name :: names)) := by
      cases spaced with
      | true => exact copyPiece_given (by omega)
      | false => exact ⟨u, rfl, by omega, rfl⟩
    obtain ⟨w, hw, hl, hgiven'⟩ : ∃ w, (if size = 0 then some v else copyPiece size name v) =
        some w ∧ 2 * names.length ≤ w.copies ∧
        w.given size (joined true names) = v.given size (name ++ joined true names) := by
      split
      · next hzero => exact ⟨v, rfl, by omega, by simp [Listing.given, hzero]⟩
      · exact copyPiece_given (by omega)
    obtain ⟨t, ht, hbytes⟩ := @ih true w hl
    refine ⟨t, ?_, hbytes.trans (hgiven'.trans hgiven)⟩
    rw [listModes, hv, Option.bind_some, hw, Option.bind_some, ht]

def modesPossible : List UInt8 := text "disabled standard full"

theorem joined_modes : joined false (pdumpfsModes.map Prod.fst) = modesPossible := by decide +kernel

theorem readModes_eq (sizes : List ℕ) (fPos : ℕ) (h : fPos ≤ modesPossible.length) :
    readModes sizes fPos = (modesPossible.drop fPos).take sizes.sum := by
  induction sizes generalizing fPos with
  | nil => simp [readModes]
  | cons size sizes ih =>
    have hlen : modesPossible.length = 22 := by decide +kernel
    obtain ⟨v, hv, hbytes⟩ := @listModes_given (pdumpfsModes.map Prod.fst) false size
      ⟨u32 fPos, 2 * pdumpfsModes.length, []⟩ (by rw [List.length_map])
    rw [joined_modes, Listing.given, List.nil_append, u32_of_lt (by omega)] at hbytes
    have hend : v.bytes.length = min size (modesPossible.length - fPos) := by
      rw [hbytes, List.length_take, List.length_drop, List.length_nil, Nat.sub_zero]
    have hbehind : modesPossible.drop (fPos + v.bytes.length) = modesPossible.drop (fPos + size) := by
      by_cases hin : size ≤ modesPossible.length - fPos
      · rw [hend, Nat.min_eq_left hin]
      · rw [List.drop_eq_nil_of_le (by omega), List.drop_eq_nil_of_le (by omega)]
    simp only [readModes, pdumpfsModesPossibleRead, hv]
    rw [ih _ (by omega), hbehind, hbytes, List.sum_cons, List.take_add, List.drop_drop]
    rfl

theorem takeText_cases (mem : ℕ → UInt8) (buffer : List UInt8) (fault : Option (List UInt8))
    (fPos : ℕ) : ((fault = none → tmpSize < fPos) ∧ ∃ e mem' r,
        takeText mem buffer fault fPos = (.error e, mem', r) ∧ e < 0 ∧ r ≤ tmpSize) ∨
      fPos ≤ tmpSize ∧ fault = none ∧ ∃ n, n = min buffer.length (tmpSize - fPos) ∧
        takeText mem buffer fault fPos =
          (.ok n, store mem fPos (buffer.take (tmpSize - fPos)), fPos + n) := by
  unfold takeText
  by_cases hpos : tmpSize < fPos
  · rw [if_pos hpos]
    exact .inl ⟨fun _ => hpos, _, _, _, rfl, by decide, Nat.zero_le _⟩
  · rw [if_neg hpos]
    cases fault with
    | some left => exact .inl ⟨fun h => (by cases h), _, _, _, rfl, by decide, by omega⟩
    | none =>
      refine .inr ⟨by omega, rfl, _, rfl, ?_⟩
      rw [List.take_eq_take_min, Nat.min_comm]

theorem pdumpfsModeWrite_right : (pdumpfsModeWrite x buffer fault fPos).1.Right fPos ↔
    Meets x (.modeWrite buffer fault fPos) := by
  unfold pdumpfsModeWrite Meets
  rcases takeText_cases x.modeTmp buffer fault fPos with ⟨hout, e, mem', r, htake, he, hr⟩ |
    ⟨hpos, hfault, n, hn, htake⟩
  · rw [htake]
    exact iff_of_true ((Answer.right_error he).mpr ⟨hr, rfl⟩) fun hnone hlt _ =>
      absurd (hout hnone) (by omega)
  · rw [htake]
    have hreach : ∀ n ≤ tmpSize, (pdumpfsModes.map fun m => m.1.length).foldl max n ≤ tmpSize := by
      decide +kernel
    have hr := hreach (fPos + n) (by omega)
    dsimp only
    rw [← List.isSome_find?]
    cases pdumpfsModes.find? _ with
    | some m => exact iff_of_true (Answer.right_count.mpr hr) fun _ _ _ => rfl
    | none =>
      change Answer.Right ⟨einval, fPos + n, [], _⟩ fPos ↔ _
      rw [Answer.right_error (by decide), and_iff_right hr, ne_eq, ← List.length_eq_zero_iff]
      constructor
      · intro h _ hlt hnil
        omega
      · intro h
        by_contra hne
        exact Bool.false_ne_true (h hfault (by omega) (by omega))

theorem pdumpfsFrameCountMaxWrite_right :
    Right strictStrtoul x (.frameCountMaxWrite buffer fault fPos) ↔
      Meets x (.frameCountMaxWrite buffer fault fPos) := by
  unfold Right Limits handle Call.fPos Meets
  dsimp only
  unfold pdumpfsFrameCountMaxWrite
  rcases takeText_cases x.countTmp buffer fault fPos with ⟨hout, e, mem', r, htake, he, hr⟩ |
    ⟨hpos, rfl, n, hn, htake⟩
  · rw [htake]
    refine iff_of_true ⟨(Answer.right_error he).mpr ⟨hr, rfl⟩, fun _ _ hc _ => ?_⟩ fun hnone hzero =>
      absurd (hout hnone) (by omega)
    cases hc
    exact absurd (hout rfl) (Nat.not_lt_zero _)
  · rw [htake]
    obtain ⟨mem, hmem⟩ : ∃ mem, mem = store (store x.countTmp fPos (buffer.take (tmpSize - fPos))) n
      [0] := ⟨_, rfl⟩
    have h0 : mem n = 0 := by
      rw [hmem]
      exact @store_in _ _ n [0] 0 (by decide)
    have hlen := cString_length_le h0 (by omega)
    dsimp only
    rw [← hmem, Answer.right_count]
    refine ⟨fun h _ _ => by omega, fun h => ?_⟩
    have hroom := h rfl
    refine ⟨by unfold tmpSize at *; omega, fun buffer' m hc hm => ?_⟩
    cases hc
    have hall : n = buffer.length := by omega
    have htext : copy mem 0 n = buffer := by
      rw [hmem, copy_store_out _ (by omega), List.take_of_length_le (by omega), hall, copy_store]
    rw [cString_eq h0 (by omega), htext, hm]
    change Pdumpfs.frameCountMaxOf m = _
    unfold Pdumpfs.frameCountMaxOf
    split <;> omega

theorem right_iff_meets : Right strictStrtoul x c ↔ Meets x c := by
  cases c with
  | modeRead stack size faults fPos =>
    exact iff_of_true ⟨pdumpfsModeRead_right stack faults, fun _ _ h => by cases h⟩ trivial
  | modeWrite buffer fault fPos =>
    exact (and_iff_left fun _ _ h => by cases h).trans pdumpfsModeWrite_right
  | modesPossibleRead size copies fPos =>
    refine iff_of_true ⟨?_, fun _ _ h => by cases h⟩ trivial
    dsimp only [handle, pdumpfsModesPossibleRead]
    split
    · exact (Answer.right_error (by decide)).mpr ⟨Nat.zero_le _, rfl⟩
    · exact Answer.right_count.mpr (Nat.zero_le _)
  | frameCountMaxRead stack size faults fPos =>
    exact iff_of_true ⟨((emptyText_printed stack).snprintf _).right faults, fun _ _ h => by cases h⟩
      trivial
  | frameCountMaxWrite buffer fault fPos => exact pdumpfsFrameCountMaxWrite_right

/-- In every run all calls are right exactly when each meets the condition, and reads of the list
    give it piece after piece. -/
theorem controls_right_iff (strictStrtoul : List UInt8 → Option ℕ) (x y : ControlState)
    (l : List (Call × Answer)) :
    (Run (controlStep strictStrtoul) (Right strictStrtoul) x l y ↔
      Run (controlStep strictStrtoul) Meets x l y) ∧
    ∀ sizes, readModes sizes 0 = modesPossible.take sizes.sum :=
  ⟨⟨fun h => h.mono fun _ _ => right_iff_meets.mp, fun h => h.mono fun _ _ => right_iff_meets.mpr⟩,
    fun sizes => readModes_eq sizes 0 (Nat.zero_le _)⟩

def sampleControl : ControlState := ⟨.disabled, 16, fun _ => 0, fun _ => 0⟩

/-- A byte that no mode starts with moves the position, and the terminator of 16 digits is behind
    the buffer. -/
theorem controls_wrong : ¬ Right (fun _ => none) sampleControl (.modeWrite [120] none 0) ∧
    ¬ Right (fun _ => none) sampleControl (.frameCountMaxWrite (List.replicate 16 49) none 0) :=
  ⟨fun h => absurd (h.1.failed (by decide +kernel)) (by decide +kernel),
    fun h => absurd h.1.inside (by decide +kernel)⟩

end
end PvrServices.PdumpfsControl
