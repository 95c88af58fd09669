import PvrServices.BridgeRuns

set_option autoImplicit false

/-!
# The bounds of the bridge buffer

The copies between a process and the bridge buffer stay within the half of the buffer that they
are for as long as no package declares more than its half holds, which nothing checks.
-/
namespace PvrServices.Bridges
open Memory Runs
variable {σ : Type} {x : Bridge σ} {k k' : Kernel σ} {q : Ioctl} {p : BridgePackage}
  {d : PerProcessData} {r : Dispatch σ} {bid : ℕ} {c : BridgeCall} {a : BridgeAnswer}
  {h : Handler σ}

/-- A copy from a process goes to the first half of the buffer, one to a process comes from the
    second half. -/
def Access.Within (e : Access) : Prop :=
  if e.toKernel then e.base + e.size ≤ pvrsrvMaxBridgeInSize
  else pvrsrvMaxBridgeInSize ≤ e.base ∧
    e.base + e.size ≤ pvrsrvMaxBridgeInSize + pvrsrvMaxBridgeOutSize

/-- An ioctl that copies more than a half of the buffer holds: its package declares too much
    input, or its handler answers and the process takes too much output. -/
def Oversized (x : Bridge σ) (k : Kernel σ) : BridgeCall → Prop
  | .ioctl q => ∃ p d, admitted k q = some (p, d) ∧
      (pvrsrvMaxBridgeInSize < p.ui32InBufferSize ∨
        ∃ h, handlerOf x p = some h ∧ 0 ≤ (h.run q.env (siteOf k q p d h)).err ∧
          pvrsrvMaxBridgeOutSize < min p.ui32OutBufferSize p.paramOut)
  | _ => False

theorem copyIn_accesses :
    (copyIn x k q p (pvrsrvGetBridgeId p.ui32BridgeID) d).accesses =
      inAccess p ++
        match handlerOf x p with
        | none => []
        | some h =>
          if (h.run q.env (siteOf k q p d h)).err < 0 then []
          else [⟨false, pvrsrvMaxBridgeInSize, min p.ui32OutBufferSize p.paramOut⟩] := by
  rw [copyIn_eq]
  unfold handlerOf
  split
  · unfold callHandler
    cases hh : bridgedIoctl x (pvrsrvGetBridgeId p.ui32BridgeID) with
    | none => simp
    | some h =>
      dsimp only
      split
      · rw [if_pos ‹_›, List.append_nil]
      · rw [if_neg ‹_›]
        unfold copyOut osCopyToUser
        simp
  · simp

theorem inAccess_within :
    (∀ e ∈ inAccess p, e.Within) ↔ p.ui32InBufferSize ≤ pvrsrvMaxBridgeInSize := by
  unfold inAccess
  split
  · simp [Access.Within]
  · have hzero : p.ui32InBufferSize = 0 := by omega
    simp [hzero]

theorem accesses_within_iff (hs : step x k c = some (a, k')) :
    (∀ e ∈ a.accesses, e.Within) ↔ ¬ Oversized x k c := by
  cases c with
  | pvrOpen pid file handle grants =>
    unfold step at hs
    dsimp only at hs
    split at hs
    · simp at hs
    · cases hs
      simp [Oversized]
  | pvrRelease file =>
    obtain ⟨k'', -, heq⟩ := Option.map_eq_some_iff.mp hs
    rw [Prod.mk.injEq] at heq
    rw [← heq.1]
    simp [Oversized]
  | pvrDisable =>
    cases hs
    simp [Oversized]
  | ioctl q =>
    obtain ⟨r, hr, heq⟩ := Option.map_eq_some_iff.mp hs
    rw [Prod.mk.injEq] at heq
    rw [← heq.1]
    dsimp only
    cases had : admitted k q with
    | none =>
      rw [(dispatch_of_not_admitted hr had).1]
      simp [Oversized, had]
    | some y =>
      obtain ⟨p, d⟩ := y
      obtain ⟨-, -, -, -, hdisp⟩ := dispatch_of_admitted (x := x) had
      rw [hr, Option.some.injEq] at hdisp
      have hacc : r.accesses =
          (copyIn x k q p (pvrsrvGetBridgeId p.ui32BridgeID) d).accesses := by
        rw [hdisp]
        rfl
      rw [hacc, copyIn_accesses, List.forall_mem_append, inAccess_within]
      have hover : Oversized x k (.ioctl q) ↔ pvrsrvMaxBridgeInSize < p.ui32InBufferSize ∨
          ∃ h, handlerOf x p = some h ∧ 0 ≤ (h.run q.env (siteOf k q p d h)).err ∧
            pvrsrvMaxBridgeOutSize < min p.ui32OutBufferSize p.paramOut := by
        simp only [Oversized, had, Option.some.injEq, Prod.mk.injEq]
        constructor
        · rintro ⟨p', d', ⟨rfl, rfl⟩, hor⟩
          exact hor
        · exact fun hor => ⟨p, d, ⟨rfl, rfl⟩, hor⟩
      rw [hover, not_or, not_lt]
      apply and_congr_right
      intro _
      cases hh : handlerOf x p with
      | none => simp
      | some h =>
        dsimp only
        split
        · simp only [List.not_mem_nil, false_imp_iff, implies_true, Option.some.injEq, true_iff]
          rintro ⟨g, rfl, herr, -⟩
          omega
        · simp only [List.mem_singleton, forall_eq, Access.Within, Bool.false_eq_true, if_false,
            le_refl, true_and, Option.some.injEq]
          constructor
          · rintro hle ⟨g, rfl, -, hlt⟩
            omega
          · intro hnot
            by_contra hlt
            exact hnot ⟨h, rfl, by omega, by omega⟩

/-- Over a run every copy is within its half of the buffer exactly when no ioctl is oversized. -/
theorem accesses_within_over_runs {k₀ : Kernel σ} {l : List (BridgeCall × BridgeAnswer)}
    (h : Run (step x) (fun _ _ => True) k₀ l k) :
    (∀ y ∈ l, ∀ e ∈ y.2.accesses, e.Within) ↔
      Run (step x) (fun k c => ¬ Oversized x k c) k₀ l k := by
  apply h.good_iff (Q := fun l => ∀ y ∈ l, ∀ e ∈ y.2.accesses, e.Within)
  · intro y hy
    simp at hy
  · intro l t c a u _ hs
    rw [List.forall_mem_append, List.forall_mem_singleton, accesses_within_iff hs]

/-- What a reply stores lies in the halves of its two structures. -/
def Reply.Within (r : Reply σ) : Prop :=
  (∀ w ∈ r.inWrites, w.1 + w.2.length ≤ pvrsrvMaxBridgeInSize) ∧
    ∀ w ∈ r.outWrites, w.1 + w.2.length ≤ pvrsrvMaxBridgeOutSize

instance (e : Access) : Decidable e.Within :=
  inferInstanceAs (Decidable (if e.toKernel then e.base + e.size ≤ pvrsrvMaxBridgeInSize else
    pvrsrvMaxBridgeInSize ≤ e.base ∧
      e.base + e.size ≤ pvrsrvMaxBridgeInSize + pvrsrvMaxBridgeOutSize))

theorem accesses_within_over_sample :
    ∃ l k, exec (step sampleBridge) sampleKernel sampleGuardedCalls = some (l, k) ∧
      ((∀ y ∈ l, ∀ e ∈ y.2.accesses, e.Within) ↔
        Run (step sampleBridge) (fun k c => ¬ Oversized sampleBridge k c) sampleKernel l k) ∧
      l.map (fun y => y.2.accesses.map Access.size) =
        [[], [8, 8], [], [8, 8], [8, 8], [8, 8]] := by
  have hsome : (exec (step sampleBridge) sampleKernel sampleGuardedCalls).map (fun r =>
      r.1.map fun y => y.2.accesses.map Access.size) =
        some [[], [8, 8], [], [8, 8], [8, 8], [8, 8]] := by decide +kernel
  obtain ⟨⟨l, k⟩, hexec, hlist⟩ := Option.map_eq_some_iff.mp hsome
  exact ⟨l, k, hexec, accesses_within_over_runs (Run.of_exec hexec fun _ _ _ => trivial), hlist⟩

def sampleOversizedCalls : List BridgeCall :=
  [.pvrOpen 1 0 (some 31) true,
    .ioctl ⟨1, 0, 12, some ⟨12, 0x2001, 8, [1, 2, 3], 8⟩, ⟨true, true, codeOk⟩⟩]

theorem oversized_package : ∃ (l : List (BridgeCall × BridgeAnswer)) (k : Kernel Unit),
    Run (step sampleBridge) (fun _ _ => True) sampleKernel l k ∧
      ¬ ∀ y ∈ l, ∀ e ∈ y.2.accesses, e.Within := by
  have hsome : (exec (step sampleBridge) sampleKernel sampleOversizedCalls).map (fun r =>
      r.1.map fun y => y.2.accesses) = some [[], [⟨true, 0, 0x2001⟩]] := by decide +kernel
  obtain ⟨⟨l, k⟩, hexec, hlist⟩ := Option.map_eq_some_iff.mp hsome
  refine ⟨l, k, Run.of_exec hexec fun _ _ _ => trivial, fun hall => ?_⟩
  have hmem : [⟨true, 0, 0x2001⟩] ∈ l.map fun y => y.2.accesses := by
    rw [hlist]
    simp
  obtain ⟨y, hy, hacc⟩ := List.mem_map.mp hmem
  have hwithin := hall y hy ⟨true, 0, 0x2001⟩ (by rw [hacc]; simp)
  simp [Access.Within, pvrsrvMaxBridgeInSize] at hwithin

end PvrServices.Bridges
