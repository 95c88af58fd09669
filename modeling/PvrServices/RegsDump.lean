import PvrServices.Printf
import PvrServices.Runs
import PvrServices.Words

set_option autoImplicit false

/-!
# The register dumps

A dump of the 1024 registers has a line of 17 bytes for each. A read formats the line at the file
position and copies 17 bytes from there on.
-/
namespace PvrServices.RegsDump
open Memory Printf Runs Words

def regsDumpLineSize : ℕ := 17

def einval : ℤ := -22

def efault : ℤ := -14

def regsDumpFormat (offset value : ℕ) : List UInt8 :=
  text "0x" ++ field zero 3 (upperDigits 16 offset) ++ text " 0x" ++
    field zero 8 (upperDigits 16 value) ++ text "\n"

inductive Whence where
  | seekSet
  | seekCur
  | seekEnd
  | other
  deriving DecidableEq

def s64 (x : ℤ) : ℤ := Int.bmod x (2 ^ 64)

/-- The position that is asked for, or an error, and the position that the file is left at. -/
def pvrDebugfsLlseekHelper (fPos offset : ℤ) (whence : Whence) (max : ℤ) : ℤ × ℤ :=
  let pos := match whence with
    | .seekSet => if max < offset ∨ offset < 0 then einval else offset
    | .seekCur =>
      if max < s64 (fPos + offset) ∨ s64 (fPos + offset) < 0 then einval else s64 (fPos + offset)
    | .seekEnd => if 0 < offset ∨ offset < -max then einval else max + offset
    | .other => einval
  (pos, if 0 ≤ pos then pos else fPos)

def pvrDebugfsRegsLlseek (fPos offset : ℤ) (whence : Whence) : ℤ × ℤ :=
  pvrDebugfsLlseekHelper fPos offset whence (1024 * regsDumpLineSize : ℕ)

def hwrecRegsLlseek (registers : Option (ℕ → UInt32)) (fPos offset : ℤ) (whence : Whence) : ℤ × ℤ :=
  if registers.isSome then pvrDebugfsLlseekHelper fPos offset whence (1024 * regsDumpLineSize : ℕ)
  else (0, fPos)

/-- The answer to a read comes with the place in `tmp` from which it copied, and the bytes that the
    process got. -/
inductive Reply where
  | read (ret : ℤ) (source : ℕ) (given : List UInt8)
  | seek (ret : ℤ)
  deriving DecidableEq

def copyLine (size : ℕ) (tmp : ℕ → UInt8) (i copies : ℕ) (fPos : ℤ) : Reply × ℤ :=
  if 0 < size then
    let source := u32 fPos.toNat - i * regsDumpLineSize
    let given := copy tmp source (min size copies)
    if copies < size then (.read efault source given, fPos)
    else (.read size source given, fPos + size)
  else (.read 0 0 [], fPos)

def pvrDebugfsRegsRead (registers : ℕ → UInt32) (size copies : ℕ) (stack : ℕ → UInt8) (fPos : ℤ) :
    Reply × ℤ :=
  if fPos < 0 ∨ size < regsDumpLineSize then (.read 0 0 [], fPos)
  else
    let i := u32 fPos.toNat / regsDumpLineSize
    if 1024 ≤ i then (.read 0 0 [], fPos)
    else
      let tmp := snprintf 0 (regsDumpLineSize + 1)
        (regsDumpFormat (i * 4) (registers i).toNat) ⟨stack, 0⟩
      copyLine tmp.1 tmp.2.bytes i copies fPos

def hwrecRegsRead (registers : Option (ℕ → UInt32)) (size copies : ℕ) (stack : ℕ → UInt8)
    (fPos : ℤ) : Reply × ℤ :=
  if fPos < 0 ∨ size < regsDumpLineSize then (.read 0 0 [], fPos)
  else
    let i := u32 fPos.toNat / regsDumpLineSize
    if 1024 ≤ i then (.read 0 0 [], fPos)
    else
      match registers with
      | none => copyLine 0 stack i copies fPos
      | some registers =>
        let tmp := snprintf 0 (regsDumpLineSize + 1)
          (regsDumpFormat (i * 4) (registers i).toNat) ⟨stack, 0⟩
        copyLine tmp.1 tmp.2.bytes i copies fPos

inductive DumpFile where
  /-- The registers as they were when the file was opened. -/
  | regs (registers : ℕ → UInt32)
  /-- `hwrec_registers`, which a recovery fills. -/
  | hwrecRegs (registers : Option (ℕ → UInt32))

def DumpFile.registers : DumpFile → Option (ℕ → UInt32)
  | .regs registers => some registers
  | .hwrecRegs registers => registers

inductive Op where
  | read (size copies : ℕ) (stack : ℕ → UInt8)
  | llseek (offset : ℤ) (whence : Whence)

def step (f : DumpFile) (fPos : ℤ) : Op → Option (Reply × ℤ)
  | .read size copies stack =>
    match f with
    | .regs registers => some (pvrDebugfsRegsRead registers size copies stack fPos)
    | .hwrecRegs registers => some (hwrecRegsRead registers size copies stack fPos)
  | .llseek offset whence =>
    let r := match f with
      | .regs _ => pvrDebugfsRegsLlseek fPos offset whence
      | .hwrecRegs registers => hwrecRegsLlseek registers fPos offset whence
    some (.seek r.1, r.2)

def dumpOf : Option (ℕ → UInt32) → List UInt8
  | none => []
  | some registers => (List.range 1024).flatMap fun i => regsDumpFormat (i * 4) (registers i).toNat

/-- A read gives bytes of the dump from the position on, no more than it may and from within `tmp`,
    and it gives none at the end only. -/
structure ReadRight (dump : List UInt8) (fPos : ℤ) (size : ℕ) (ret : ℤ) (source : ℕ)
    (given : List UInt8) (fPos' : ℤ) : Prop where
  bytes : given <+: dump.drop fPos.toNat
  inside : given.length ≤ size
  line : source + given.length ≤ regsDumpLineSize + 1
  answer : ret = given.length ∧ fPos' = fPos + given.length ∨ ret = efault ∧ fPos' = fPos
  progress : ret = 0 → size = 0 ∨ dump.length ≤ fPos

def Right (f : DumpFile) (fPos : ℤ) : Op → Prop
  | .read size copies stack => ∀ ret source given fPos',
      step f fPos (.read size copies stack) = some (.read ret source given, fPos') →
        ReadRight (dumpOf f.registers) fPos size ret source given fPos'
  | .llseek _ _ => True

/-- A read of nothing or at the end, or one of a line or more from a place in the line from which
    what can be copied is inside the line. -/
def Meets (f : DumpFile) (fPos : ℤ) : Op → Prop
  | .read size copies _ => f.registers = none ∨ size = 0 ∨ (1024 * regsDumpLineSize : ℕ) ≤ fPos ∨
      regsDumpLineSize ≤ size ∧
        fPos.toNat % regsDumpLineSize + min regsDumpLineSize copies ≤ regsDumpLineSize
  | .llseek _ _ => True

variable {f : DumpFile} {registers : ℕ → UInt32} {fPos fPos' : ℤ} {size copies i o : ℕ}
  {stack : ℕ → UInt8} {op : Op} {r : Reply} {l : List (Op × Reply)}

theorem regsDumpFormat_length (hi : i < 1024) (value : UInt32) :
    (regsDumpFormat (i * 4) value.toNat).length = 17 := by
  have hoffset : (field zero 3 (upperDigits 16 (i * 4))).length = 3 :=
    field_length (upperDigits_length (by decide) (by decide) (by omega))
  have hvalue : (field zero 8 (upperDigits 16 value.toNat)).length = 8 :=
    field_length (upperDigits_length (by decide) (by decide) value.toNat_lt)
  simp only [regsDumpFormat, List.length_append, hoffset, hvalue]
  rfl

theorem regsDumpFormat_ne_zero {b : UInt8} {offset value : ℕ}
    (h : b ∈ regsDumpFormat offset value) : b ≠ 0 := by
  have hfield (width n : ℕ) (hb : b ∈ field zero width (upperDigits 16 n)) : b ≠ 0 :=
    field_ne_zero (by decide) (fun a ha => upperDigits_ne_zero (by decide) (by decide) ha) hb
  have hplain (s : List UInt8) (hs : 0 ∉ s) (hb : b ∈ s) : b ≠ 0 := fun hzero => hs (hzero ▸ hb)
  simp only [regsDumpFormat, List.mem_append] at h
  obtain (((h | h) | h) | h) | h := h
  · exact hplain _ (by decide) h
  · exact hfield _ _ h
  · exact hplain _ (by decide) h
  · exact hfield _ _ h
  · exact hplain _ (by decide) h

theorem dumpOf_ne_zero {b : UInt8} {registers : Option (ℕ → UInt32)}
    (h : b ∈ dumpOf registers) : b ≠ 0 := by
  cases registers with
  | none => cases h
  | some registers =>
    obtain ⟨i, -, hb⟩ := List.mem_flatMap.mp h
    exact regsDumpFormat_ne_zero hb

theorem lines_length (registers : ℕ → UInt32) (is : List ℕ) (h : ∀ i ∈ is, i < 1024) :
    (is.flatMap fun i => regsDumpFormat (i * 4) (registers i).toNat).length = 17 * is.length := by
  induction is with
  | nil => rfl
  | cons i is ih =>
    rw [List.flatMap_cons, List.length_append, ih fun j hj => h j (List.mem_cons_of_mem _ hj),
      regsDumpFormat_length (h i List.mem_cons_self), List.length_cons]
    omega

theorem dumpOf_length (registers : ℕ → UInt32) : (dumpOf (some registers)).length = 17408 := by
  have hlines := lines_length registers (List.range 1024) fun i hi => List.mem_range.mp hi
  rw [List.length_range] at hlines
  exact hlines

theorem dumpOf_drop (registers : ℕ → UInt32) (hi : i < 1024) (ho : o ≤ 17) : ∃ rest,
    (dumpOf (some registers)).drop (17 * i + o) =
      (regsDumpFormat (i * 4) (registers i).toNat).drop o ++ rest := by
  obtain ⟨k, hk⟩ := Nat.exists_eq_add_of_le (Nat.succ_le_of_lt hi)
  have hbefore := lines_length registers (List.range i) fun j hj => by
    rw [List.mem_range] at hj
    omega
  have hline := regsDumpFormat_length hi (registers i)
  rw [List.length_range] at hbefore
  unfold dumpOf
  dsimp only
  rw [hk, List.range_add, List.range_succ, List.flatMap_append, List.flatMap_append,
    List.flatMap_singleton, List.append_assoc, ← List.drop_drop, List.drop_left' hbefore,
    List.drop_append_of_le_length (by omega)]
  exact ⟨_, rfl⟩

theorem tmp_copy (stack : ℕ → UInt8) (hi : i < 1024) (value : UInt32) {n : ℕ} (ho : o + n ≤ 18) :
    copy (snprintf 0 (regsDumpLineSize + 1) (regsDumpFormat (i * 4) value.toNat)
        ⟨stack, 0⟩).2.bytes o n =
      ((regsDumpFormat (i * 4) value.toNat ++ [0]).drop o).take n := by
  have hlen := regsDumpFormat_length hi value
  have htake : (regsDumpFormat (i * 4) value.toNat).take (regsDumpLineSize + 1 - 1) =
      regsDumpFormat (i * 4) value.toNat :=
    List.take_of_length_le (Nat.le_of_eq hlen)
  unfold snprintf
  dsimp only
  rw [vsnprintf_pos (by decide), htake]
  dsimp only
  have hall := copy_store stack 0 (regsDumpFormat (i * 4) value.toNat ++ [0])
  have hsize : (regsDumpFormat (i * 4) value.toNat ++ [0]).length = 18 := by
    rw [List.length_append, hlen]
    rfl
  rw [hsize] at hall
  rw [← hall, copy_drop _ _ (by omega), copy_take _ _ (by omega), Nat.zero_add, hall]

theorem step_read (hf : f.registers = some registers) : step f fPos (.read size copies stack) =
    some (pvrDebugfsRegsRead registers size copies stack fPos) := by
  cases f with
  | regs r =>
    cases hf
    rfl
  | hwrecRegs r =>
    have hr : r = some registers := hf
    rw [hr]
    rfl

theorem pvrDebugfsRegsRead_line (registers : ℕ → UInt32) (copies : ℕ) (stack : ℕ → UInt8)
    {pos : ℕ} (hpos : pos < 17408) (hsize : 17 ≤ size) :
    pvrDebugfsRegsRead registers size copies stack pos =
      (Reply.read (if copies < 17 then efault else 17) (pos % 17)
        (copy (snprintf 0 (regsDumpLineSize + 1)
          (regsDumpFormat (pos / 17 * 4) (registers (pos / 17)).toNat) ⟨stack, 0⟩).2.bytes
          (pos % 17) (min 17 copies)),
        if copies < 17 then (pos : ℤ) else pos + 17) := by
  have hlen := regsDumpFormat_length (i := pos / 17) (by omega) (registers (pos / 17))
  have hsource : pos - pos / 17 * 17 = pos % 17 := by omega
  have hguard : ¬((pos : ℤ) < 0 ∨ size < regsDumpLineSize) := by
    unfold regsDumpLineSize
    omega
  have hin : ¬1024 ≤ pos / regsDumpLineSize := by
    unfold regsDumpLineSize
    omega
  unfold pvrDebugfsRegsRead
  rw [Int.toNat_natCast, u32_of_lt (by omega), if_neg hguard]
  dsimp only
  rw [if_neg hin]
  unfold copyLine
  rw [Int.toNat_natCast, u32_of_lt (by omega)]
  have hfirst (x : Buffer) : (snprintf 0 (regsDumpLineSize + 1)
      (regsDumpFormat (pos / regsDumpLineSize * 4) (registers (pos / regsDumpLineSize)).toNat)
      x).1 = 17 := hlen
  rw [hfirst, if_pos (by decide)]
  dsimp only
  unfold regsDumpLineSize
  rw [hsource]
  split
  · rfl
  · rfl

theorem pvrDebugfsRegsRead_none {pos : ℕ} (hpos : pos < 17425) (h : size < 17 ∨ 17408 ≤ pos) :
    pvrDebugfsRegsRead registers size copies stack pos = (Reply.read 0 0 [], (pos : ℤ)) := by
  unfold pvrDebugfsRegsRead
  rw [Int.toNat_natCast, u32_of_lt (by omega)]
  unfold regsDumpLineSize
  by_cases hsize : size < 17
  · rw [if_pos (.inr hsize)]
  · rw [if_neg (by omega)]
    dsimp only
    rw [if_pos (by omega)]

theorem step_read_none (hf : f.registers = none) : step f fPos (.read size copies stack) =
    some (.read 0 0 [], fPos) := by
  cases f with
  | regs r => cases hf
  | hwrecRegs r =>
    have hr : r = none := hf
    rw [hr]
    simp only [step, hwrecRegsRead, copyLine, Nat.lt_irrefl, if_false]
    split
    · rfl
    · split <;> rfl

theorem readRight_none {dump : List UInt8} (h : size = 0 ∨ dump.length ≤ fPos) :
    ReadRight dump fPos size 0 0 [] fPos :=
  ⟨List.nil_prefix, Nat.zero_le _, by decide, .inl ⟨rfl, (Int.add_zero _).symm⟩, fun _ => h⟩

def copiedLine (registers : ℕ → UInt32) (stack : ℕ → UInt8) (pos copies : ℕ) : List UInt8 :=
  copy (snprintf 0 (regsDumpLineSize + 1)
    (regsDumpFormat (pos / 17 * 4) (registers (pos / 17)).toNat) ⟨stack, 0⟩).2.bytes
    (pos % 17) (min 17 copies)

theorem copiedLine_inside {pos : ℕ} (hpos : pos < 17408) (hin : pos % 17 + min 17 copies ≤ 17) :
    copiedLine registers stack pos copies <+: (dumpOf (some registers)).drop pos := by
  have hi : pos / 17 < 1024 := by omega
  have hline := regsDumpFormat_length hi (registers (pos / 17))
  have hplace : 17 * (pos / 17) + pos % 17 = pos := by omega
  obtain ⟨rest, hrest⟩ := dumpOf_drop registers hi (o := pos % 17) (by omega)
  rw [hplace] at hrest
  unfold copiedLine
  rw [tmp_copy stack hi _ (by omega), hrest, List.drop_append_of_le_length (by omega),
    List.take_append_of_le_length (by rw [List.length_drop]; omega)]
  exact (List.take_prefix _ _).trans (List.prefix_append _ _)

theorem copiedLine_outside {pos : ℕ} (hpos : pos < 17408)
    (hout : 17 < pos % 17 + min 17 copies) :
    ¬copiedLine registers stack pos copies <+: (dumpOf (some registers)).drop pos := by
  intro hbytes
  have hi : pos / 17 < 1024 := by omega
  have hline := regsDumpFormat_length hi (registers (pos / 17))
  obtain ⟨n, hn⟩ := Nat.exists_eq_add_of_le (show 18 - pos % 17 ≤ min 17 copies by omega)
  unfold copiedLine at hbytes
  rw [hn, copy_add, tmp_copy stack hi _ (by omega)] at hbytes
  have hnul : (0 : UInt8) ∈ ((regsDumpFormat (pos / 17 * 4) (registers (pos / 17)).toNat ++
      [0]).drop (pos % 17)).take (18 - pos % 17) := by
    rw [List.drop_append_of_le_length (by omega), List.take_of_length_le]
    · exact List.mem_append_right _ (List.mem_singleton_self _)
    · rw [List.length_append, List.length_drop, hline, List.length_singleton]
      omega
  have hin := List.mem_of_mem_drop (hbytes.subset (List.mem_append_left _ hnul))
  exact dumpOf_ne_zero hin rfl

/-- A read of a line is right exactly when what it copies ends in the line. -/
theorem readRight_line_iff (registers : ℕ → UInt32) (copies : ℕ) (stack : ℕ → UInt8) {pos : ℕ}
    (hpos : pos < 17408) (hsize : 17 ≤ size) :
    ReadRight (dumpOf (some registers)) pos size (if copies < 17 then efault else 17) (pos % 17)
      (copiedLine registers stack pos copies) (if copies < 17 then (pos : ℤ) else pos + 17) ↔
      pos % 17 + min 17 copies ≤ 17 := by
  have hlen : (copiedLine registers stack pos copies).length = min 17 copies := copy_length
  constructor
  · intro hright
    by_contra hnot
    exact copiedLine_outside hpos (by omega) hright.bytes
  · intro hmeet
    refine ⟨copiedLine_inside hpos hmeet, ?_, ?_, ?_, fun hzero => ?_⟩
    · omega
    · rw [hlen]
      unfold regsDumpLineSize
      omega
    · rw [hlen]
      by_cases hfault : copies < 17
      · rw [if_pos hfault, if_pos hfault]
        exact .inr ⟨rfl, rfl⟩
      · rw [if_neg hfault, if_neg hfault]
        exact .inl ⟨by omega, by omega⟩
    · unfold efault at hzero
      split at hzero
      · omega
      · omega

/-- A read is right exactly when it asks for nothing, or there is nothing to give, or it asks for a
    line and what it copies ends in the line. -/
theorem read_right_iff (hpos : 0 ≤ fPos) (hlt : fPos < 17425) :
    Right f fPos (.read size copies stack) ↔ Meets f fPos (.read size copies stack) := by
  obtain ⟨pos, rfl⟩ := Int.eq_ofNat_of_zero_le hpos
  have hright : Right f pos (.read size copies stack) = ∀ ret source given fPos',
      step f pos (.read size copies stack) = some (.read ret source given, fPos') →
        ReadRight (dumpOf f.registers) pos size ret source given fPos' := rfl
  have hmeets : Meets f pos (.read size copies stack) = (f.registers = none ∨ size = 0 ∨
      ((17408 : ℕ) : ℤ) ≤ pos ∨ 17 ≤ size ∧ pos % 17 + min 17 copies ≤ 17) := rfl
  rw [hright, hmeets]
  cases hf : f.registers with
  | none =>
    refine ⟨fun _ => .inl rfl, fun _ ret source given fPos' hstep => ?_⟩
    rw [step_read_none hf, Option.some.injEq, Prod.mk.injEq, Reply.read.injEq] at hstep
    obtain ⟨⟨rfl, rfl, rfl⟩, rfl⟩ := hstep
    exact readRight_none (.inr hpos)
  | some registers =>
    have hsome : some registers ≠ none := Option.some_ne_none _
    have hlength := dumpOf_length registers
    rw [step_read hf]
    simp only [hsome, false_or]
    by_cases hnone : size < 17 ∨ 17408 ≤ pos
    · rw [pvrDebugfsRegsRead_none (by omega) hnone]
      constructor
      · intro hall
        have hprogress := (hall 0 0 [] pos rfl).progress rfl
        rw [hlength] at hprogress
        omega
      · intro hmeet ret source given fPos' hstep
        rw [Option.some.injEq, Prod.mk.injEq, Reply.read.injEq] at hstep
        obtain ⟨⟨rfl, rfl, rfl⟩, rfl⟩ := hstep
        apply readRight_none
        rw [hlength]
        omega
    · rw [pvrDebugfsRegsRead_line registers copies stack (by omega) (by omega)]
      change (∀ ret source given fPos', some (Reply.read _ _ (copiedLine registers stack pos copies),
        _) = some (Reply.read ret source given, fPos') → _) ↔ _
      have hline := readRight_line_iff registers copies stack (show pos < 17408 by omega)
        (show 17 ≤ size by omega)
      constructor
      · intro hall
        have hmeet := hline.mp (hall _ _ _ _ rfl)
        omega
      · intro hmeet ret source given fPos' hstep
        rw [Option.some.injEq, Prod.mk.injEq, Reply.read.injEq] at hstep
        obtain ⟨⟨rfl, rfl, rfl⟩, rfl⟩ := hstep
        exact hline.mpr (by omega)

theorem pvrDebugfsLlseekHelper_inside (offset max : ℤ) (whence : Whence) (hpos : 0 ≤ fPos) :
    0 ≤ (pvrDebugfsLlseekHelper fPos offset whence max).2 ∧
      ((pvrDebugfsLlseekHelper fPos offset whence max).2 = fPos ∨
        (pvrDebugfsLlseekHelper fPos offset whence max).2 ≤ max) := by
  unfold pvrDebugfsLlseekHelper einval
  cases whence with
  | seekSet =>
    dsimp only
    split_ifs <;> omega
  | seekCur =>
    dsimp only
    split_ifs <;> omega
  | seekEnd =>
    dsimp only
    split_ifs <;> omega
  | other => exact ⟨hpos, .inl rfl⟩

def Inside (fPos : ℤ) : Prop := 0 ≤ fPos ∧ fPos < 17425

theorem inside_read (h : Inside fPos) (hstep : step f fPos (.read size copies stack) =
    some (r, fPos')) : Inside fPos' := by
  obtain ⟨pos, rfl⟩ := Int.eq_ofNat_of_zero_le h.1
  have hlt := h.2
  cases hf : f.registers with
  | none =>
    rw [step_read_none hf, Option.some.injEq, Prod.mk.injEq] at hstep
    rw [← hstep.2]
    exact h
  | some registers =>
    rw [step_read hf] at hstep
    by_cases hnone : size < 17 ∨ 17408 ≤ pos
    · rw [pvrDebugfsRegsRead_none (by omega) hnone, Option.some.injEq, Prod.mk.injEq] at hstep
      rw [← hstep.2]
      exact h
    · rw [pvrDebugfsRegsRead_line registers copies stack (by omega) (by omega), Option.some.injEq,
        Prod.mk.injEq] at hstep
      rw [← hstep.2]
      unfold Inside
      split <;> omega

theorem inside_step (h : Inside fPos) (hstep : step f fPos op = some (r, fPos')) :
    Inside fPos' := by
  cases op with
  | read size copies stack => exact inside_read h hstep
  | llseek offset whence =>
    simp only [step, Option.some.injEq, Prod.mk.injEq] at hstep
    rw [← hstep.2]
    have hmax : ((1024 * regsDumpLineSize : ℕ) : ℤ) = 17408 := rfl
    have hlt := h.2
    have hhelp := pvrDebugfsLlseekHelper_inside offset (1024 * regsDumpLineSize : ℕ) whence h.1
    rw [hmax] at hhelp
    unfold Inside
    cases f with
    | regs registers =>
      dsimp only
      unfold pvrDebugfsRegsLlseek
      rw [hmax]
      omega
    | hwrecRegs registers =>
      dsimp only
      unfold hwrecRegsLlseek
      rw [hmax]
      split
      · omega
      · exact h

theorem right_iff_meets (h : Inside fPos) (op : Op) : Right f fPos op ↔ Meets f fPos op := by
  cases op with
  | read size copies stack => exact read_right_iff h.1 h.2
  | llseek offset whence => exact Iff.rfl

/-- A run whose calls are good in one sense is one whose calls are good in the other. -/
theorem good_run {P Q : ℤ → Op → Prop} {fPos₀ : ℤ} (h₀ : Inside fPos₀)
    (h : Run (step f) P fPos₀ l fPos) (hPQ : ∀ p op, Inside p → P p op → Q p op) :
    Run (step f) Q fPos₀ l fPos ∧ Inside fPos := by
  induction h with
  | refl => exact ⟨.refl, h₀⟩
  | snoc _ hp hs ih => exact ⟨.snoc ih.1 (hPQ _ _ ih.2 hp) hs, inside_step ih.2 hs⟩

def isRead : Op → Bool
  | .read _ _ _ => true
  | .llseek _ _ => false

def returned (l : List (Op × Reply)) : List UInt8 :=
  l.flatMap fun e => match e.2 with
    | .read ret _ given => if 0 ≤ ret then given else []
    | .seek _ => []

def atEnd : Op × Reply → Prop
  | (.read size _ _, .read ret _ _) => 0 < size ∧ ret = 0
  | _ => False

theorem step_read_reply (h : step f fPos (.read size copies stack) = some (r, fPos')) :
    ∃ ret source given, r = .read ret source given := by
  have hcopy (n : ℕ) (tmp : ℕ → UInt8) (i : ℕ) :
      ∃ ret source given, (copyLine n tmp i copies fPos).1 = .read ret source given := by
    unfold copyLine
    dsimp only
    split_ifs <;> exact ⟨_, _, _, rfl⟩
  have hr : r = (match f with
      | .regs registers => pvrDebugfsRegsRead registers size copies stack fPos
      | .hwrecRegs registers => hwrecRegsRead registers size copies stack fPos).1 := by
    cases f with
    | regs registers => exact (congrArg Prod.fst (Option.some.inj h)).symm
    | hwrecRegs registers => exact (congrArg Prod.fst (Option.some.inj h)).symm
  rw [hr]
  cases f with
  | regs registers =>
    dsimp only
    unfold pvrDebugfsRegsRead
    dsimp only
    split_ifs
    · exact ⟨_, _, _, rfl⟩
    · exact ⟨_, _, _, rfl⟩
    · exact hcopy _ _ _
  | hwrecRegs registers =>
    dsimp only
    unfold hwrecRegsRead
    dsimp only
    split_ifs
    · exact ⟨_, _, _, rfl⟩
    · exact ⟨_, _, _, rfl⟩
    · cases registers with
      | none => exact hcopy _ _ _
      | some registers => exact hcopy _ _ _

/-- Right reads one after the other give the dump up to where they get. -/
theorem returned_run (h : Run (step f) (fun p op => Right f p op ∧ isRead op = true) 0 l fPos) :
    returned l <+: dumpOf f.registers ∧ fPos = (returned l).length ∧
      ∀ e ∈ l, atEnd e → returned l = dumpOf f.registers := by
  induction h with
  | refl => exact ⟨List.nil_prefix, rfl, fun e he => by cases he⟩
  | @snoc l fPos fPos' op r run hop hs ih =>
    obtain ⟨hbegins, hpos, hends⟩ := ih
    cases op with
    | llseek offset whence => cases hop.2
    | read size copies stack =>
      obtain ⟨ret, source, given, rfl⟩ := step_read_reply hs
      have hright := hop.1 ret source given fPos' hs
      have hbytes := hright.bytes
      rw [hpos, Int.toNat_natCast] at hbytes
      obtain ⟨rest, hrest⟩ := hbegins
      rw [← hrest, List.drop_left] at hbytes
      have happend : returned (l ++ [(.read size copies stack, .read ret source given)]) =
          returned l ++ if 0 ≤ ret then given else [] := by
        simp [returned]
      have hnext : (if 0 ≤ ret then given else []) <+: rest ∧
          fPos' = fPos + (if 0 ≤ ret then given else []).length := by
        cases hright.answer with
        | inl hok =>
          have hnonneg : 0 ≤ ret := by
            rw [hok.1]
            exact Int.natCast_nonneg _
          rw [if_pos hnonneg]
          exact ⟨hbytes, hok.2⟩
        | inr hfault =>
          have hneg : ¬0 ≤ ret := by
            rw [hfault.1]
            decide
          rw [if_neg hneg]
          exact ⟨List.nil_prefix, hfault.2.trans (Int.add_zero _).symm⟩
      rw [happend]
      refine ⟨?_, ?_, fun e he hend => ?_⟩
      · rw [← hrest]
        exact (List.prefix_append_right_inj _).mpr hnext.1
      · rw [hnext.2, hpos, List.length_append]
        push_cast
        rfl
      · -- once the end is reached, nothing is behind it
        have hall : rest = [] := by
          cases List.mem_append.mp he with
          | inl hold =>
            have hdump := hends e hold hend
            rw [← hrest] at hdump
            exact List.self_eq_append_right.mp hdump
          | inr hnew =>
            rw [List.mem_singleton.mp hnew] at hend
            have hprogress := hright.progress hend.2
            have hsize := hend.1
            rw [← hrest, List.length_append, hpos] at hprogress
            apply List.eq_nil_of_length_eq_zero
            omega
        rw [hall] at hnext hrest
        rw [List.prefix_nil.mp hnext.1, ← hrest]

/-- In every run all reads are right exactly when each meets the condition; reads that do, one
    after the other from the start, give the dump, all of it when one gives nothing. -/
theorem regs_reads_right_iff (f : DumpFile) (l : List (Op × Reply)) (fPos : ℤ) :
    (Run (step f) (Right f) 0 l fPos ↔ Run (step f) (Meets f) 0 l fPos) ∧
    (Run (step f) (fun p op => Meets f p op ∧ isRead op = true) 0 l fPos →
      returned l <+: dumpOf f.registers ∧ fPos = (returned l).length ∧
        ∀ e ∈ l, atEnd e → returned l = dumpOf f.registers) := by
  have hstart : Inside 0 := ⟨Int.le_refl 0, by decide⟩
  refine ⟨⟨fun hrun => ?_, fun hrun => ?_⟩, fun hrun => ?_⟩
  · exact (good_run hstart hrun fun p op hp => (right_iff_meets hp op).mp).1
  · exact (good_run hstart hrun fun p op hp => (right_iff_meets hp op).mpr).1
  · apply returned_run
    exact (good_run hstart hrun fun p op hp hop =>
      ⟨(right_iff_meets hp op).mpr hop.1, hop.2⟩).1

def midLineOps : List Op := [.llseek 5 .seekSet, .read 17 17 fun _ => 170]

theorem mid_line_leaves_buffer : ∃ l fPos,
    exec (step (.regs fun _ => 0)) 0 midLineOps = some (l, fPos) ∧
      ¬Run (step (.regs fun _ => 0)) (Right (.regs fun _ => 0)) 0 l fPos := by
  have hexec : (exec (step (.regs fun _ => 0)) 0 midLineOps).map (fun r =>
      (r.1.map Prod.snd, r.2)) = some ([.seek 5, .read 17 5
        (text " 0x00000000\n" ++ [0, 170, 170, 170, 170])], 22) := by
    decide +kernel
  obtain ⟨⟨l, fPos⟩, hl, he⟩ := Option.map_eq_some_iff.mp hexec
  rw [Prod.mk.injEq] at he
  refine ⟨l, fPos, hl, fun hrun => ?_⟩
  have hlog := exec_zip hl
  rw [he.1] at hlog
  rw [hlog] at hrun
  obtain ⟨p, -, hright, hstep⟩ :=
    Run.last (l := [(Op.llseek 5 .seekSet, Reply.seek 5)]) hrun
  have hline := (hright _ _ _ _ hstep).line
  exact absurd hline (by decide)

end PvrServices.RegsDump
