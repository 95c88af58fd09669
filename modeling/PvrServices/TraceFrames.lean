import Mathlib.Data.List.Infix
import Mathlib.Data.List.TakeWhile
import PvrServices.Runs
import PvrServices.TraceBuffer

set_option autoImplicit false

/-!
# Frames in the trace buffer

The bytes from the read index to the write index are a row of frames. Making room drops frames
from its front and may put a padding frame at its end.
-/
namespace PvrServices.Trace
open Words Memory CircularBuffer Runs
variable {N size : ℕ} {t t' : TrcmdBuf} {fs gs : List (List UInt8)} {f : List UInt8}

structure WellFormed (f : List UInt8) : Prop where
  header : 4 ≤ f.length
  aligned : 8 ∣ f.length
  size : frameSize f = f.length

def recorded (fs : List (List UInt8)) : List (List UInt8) :=
  fs.filter fun f => frameType f ≠ pvrTrcmdPad

theorem recorded_append (fs gs : List (List UInt8)) :
    recorded (fs ++ gs) = recorded fs ++ recorded gs := List.filter_append ..

/-- The buffer holds the frames `fs` from its read index up to its write index. -/
structure Framed (N : ℕ) (t : TrcmdBuf) (fs : List (List UInt8)) : Prop where
  read_lt : t.readIdx < N
  write_lt : t.writeIdx < N
  read_aligned : 8 ∣ t.readIdx
  write_aligned : 8 ∣ t.writeIdx
  used_lt : fs.flatten.length < N
  wrap : t.readIdx + fs.flatten.length = t.writeIdx ∨
    t.readIdx + fs.flatten.length = t.writeIdx + N
  bytes : window N t.data t.readIdx fs.flatten.length = fs.flatten
  wellFormed : ∀ f ∈ fs, WellFormed f

theorem Framed.write_eq (v : Framed N t fs) :
    (t.readIdx + fs.flatten.length) % N = t.writeIdx := by
  rcases v.wrap with h | h
  · rw [h, Nat.mod_eq_of_lt v.write_lt]
  · rw [h, Nat.add_mod_right, Nat.mod_eq_of_lt v.write_lt]

theorem framed_tbuf (h : 0 < N) : Framed N tbuf [] where
  read_lt := h
  write_lt := h
  read_aligned := Nat.dvd_zero 8
  write_aligned := Nat.dvd_zero 8
  used_lt := h
  wrap := Or.inl rfl
  bytes := rfl
  wellFormed := by simp

theorem tbufIdxAdd_eq {v d : ℤ} {k : ℕ} (hk : k < N) (h : v + d = k ∨ v + d = k - N) :
    tbufIdxAdd N v d = k := by
  have hrange : (k : ℤ) % N = k := Int.emod_eq_of_lt (by omega) (by omega)
  unfold tbufIdxAdd
  rcases h with h | h
  · rw [h, hrange, Int.toNat_natCast]
  · rw [h, Int.sub_emod_right, hrange, Int.toNat_natCast]

theorem tbufIdxAdd_nat (N a b : ℕ) : tbufIdxAdd N a b = (a + b) % N := by
  unfold tbufIdxAdd
  rw [← Int.natCast_add, ← Int.natCast_mod, Int.toNat_natCast]

theorem Framed.used (v : Framed N t fs) :
    tbufIdxAdd N t.writeIdx (-t.readIdx) = fs.flatten.length := by
  have := v.wrap
  exact tbufIdxAdd_eq v.used_lt (by omega)

theorem Framed.free (v : Framed N t fs) :
    tbufIdxAdd N (t.readIdx - 1) (-t.writeIdx) = N - 1 - fs.flatten.length := by
  have := v.wrap
  have := v.used_lt
  exact tbufIdxAdd_eq (by omega) (by omega)

theorem Framed.snapshot (v : Framed N t fs) : createSnapshot N t = fs.flatten := by
  have hle : fs.flatten.length ≤ N := by have := v.used_lt; omega
  unfold createSnapshot
  rw [v.used, ← window_wrap v.read_lt hle, v.bytes]

theorem Framed.count (v : Framed N t fs) : 4 * fs.length ≤ fs.flatten.length := by
  have h := v.wellFormed
  clear v
  induction fs with
  | nil => simp
  | cons f fs ih =>
    have hf := (h f (by simp)).header
    have := ih fun g hg => h g (by simp [hg])
    simp only [List.flatten_cons, List.length_append, List.length_cons]
    omega

theorem Framed.discard (h8 : 8 ∣ N) (v : Framed N t (f :: fs)) :
    Framed N { t with readIdx := tbufIdxAdd N t.readIdx (frameSize (copy t.data t.readIdx 4)) }
      fs := by
  have hf := v.wellFormed f (by simp)
  have hlen : (f :: fs).flatten.length = f.length + fs.flatten.length := by simp
  have hpos := v.read_lt
  have hused := v.used_lt
  have hwrap := v.wrap
  have hra := v.read_aligned
  have hfl := hf.header
  have hfa := hf.aligned
  rw [hlen] at hused hwrap
  have hbytes := v.bytes
  rw [hlen, window_add, List.flatten_cons] at hbytes
  have hpair := List.append_inj hbytes window_length
  have hroom : t.readIdx + 4 ≤ N := by omega
  have hhead : copy t.data t.readIdx 4 = f.take 4 := by
    rw [← window_eq_copy hroom, ← hpair.1, show f.length = 4 + (f.length - 4) by omega, window_add,
      List.take_left' window_length]
  have hsize : frameSize (copy t.data t.readIdx 4) = f.length := by
    rw [hhead, ← hf.size]
    unfold frameSize
    rw [List.take_take]
    rfl
  have hread : tbufIdxAdd N t.readIdx (frameSize (copy t.data t.readIdx 4)) =
      (t.readIdx + f.length) % N := by rw [hsize, tbufIdxAdd_nat]
  rw [hread]
  have hmod : (t.readIdx + f.length) % N = t.readIdx + f.length ∧ t.readIdx + f.length < N ∨
      (t.readIdx + f.length) % N = t.readIdx + f.length - N ∧ N ≤ t.readIdx + f.length := by
    rcases Nat.lt_or_ge (t.readIdx + f.length) N with h | h
    · exact Or.inl ⟨Nat.mod_eq_of_lt h, h⟩
    · rw [Nat.mod_eq_sub_mod h, Nat.mod_eq_of_lt (by omega)]
      exact Or.inr ⟨rfl, h⟩
  exact
    { read_lt := Nat.mod_lt _ (by omega)
      write_lt := v.write_lt
      read_aligned := (Nat.dvd_mod_iff h8).mpr (Nat.dvd_add hra hfa)
      write_aligned := v.write_aligned
      used_lt := by omega
      wrap := by
        have := v.write_lt
        dsimp only
        omega
      bytes := by rw [window_mod, hpair.2]
      wellFormed := fun g hg => v.wellFormed g (by simp [hg]) }

theorem Framed.append (h8 : 8 ∣ N) (v : Framed N t fs) (hf : WellFormed f)
    (hfit : t.writeIdx + f.length ≤ N) (hfree : fs.flatten.length + f.length < N)
    (data : ℕ → UInt8) (hdata : copy data t.writeIdx f.length = f)
    (hout : ∀ j, (j < t.writeIdx ∨ t.writeIdx + f.length ≤ j) → data j = t.data j) :
    Framed N ⟨t.readIdx, (t.writeIdx + f.length) % N, data⟩ (fs ++ [f]) := by
  have hlen : (fs ++ [f]).flatten.length = fs.flatten.length + f.length := by simp
  have hwrap := v.wrap
  have hread := v.read_lt
  have hhead := hf.header
  have hold : window N data t.readIdx fs.flatten.length = fs.flatten := by
    rw [window_congr v.write_eq hfit (by omega) hout, v.bytes]
  have hnew : window N data (t.readIdx + fs.flatten.length) f.length = f := by
    rw [← window_mod, v.write_eq, window_eq_copy hfit, hdata]
  have hmod : (t.writeIdx + f.length) % N = t.writeIdx + f.length ∧ t.writeIdx + f.length < N ∨
      (t.writeIdx + f.length) % N = 0 ∧ t.writeIdx + f.length = N := by
    rcases Nat.lt_or_ge (t.writeIdx + f.length) N with h | h
    · exact Or.inl ⟨Nat.mod_eq_of_lt h, h⟩
    · have he : t.writeIdx + f.length = N := by omega
      rw [he, Nat.mod_self]
      exact Or.inr ⟨rfl, rfl⟩
  exact
    { read_lt := hread
      write_lt := Nat.mod_lt _ (by omega)
      read_aligned := v.read_aligned
      write_aligned := (Nat.dvd_mod_iff h8).mpr (Nat.dvd_add v.write_aligned hf.aligned)
      used_lt := by omega
      wrap := by
        rw [hlen]
        dsimp only
        omega
      bytes := by
        rw [hlen, window_add, hold, hnew]
        simp
      wellFormed := by
        intro g hg
        rcases List.mem_append.mp hg with hg | hg
        · exact v.wellFormed g hg
        · rw [List.mem_singleton.mp hg]
          exact hf }

end PvrServices.Trace
