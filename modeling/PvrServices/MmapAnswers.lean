import PvrServices.MmapOffsets

set_option autoImplicit false

/-!
# Answered offsets over runs

A process maps what it was answered for as long as no answer names the offset and the size of a
request for another area that still waits, and no longer.
-/
namespace PvrServices.Mmaps
open Ownership Runs Words
variable {s s' : MmapData} {p q a : ℕ} {o o' : KvOffsetStruct} {area : LinuxMemArea} {t : Task}
  {x y : MmapSys}

/-- The structures of a process that wait under an offset and a size. -/
def Waits (s : MmapData) (pid offset size p : ℕ) (o : KvOffsetStruct) : Prop :=
  p ∈ s.mmapOffsetStructList ∧ s.offsetStructs p = some o ∧ o.pid = pid ∧
    o.mmapOffset = offset ∧ o.realByteSize = size

theorem Kept.waits (h : Kept s s') {pid offset size : ℕ} (hw : Waits s' pid offset size p o') :
    ∃ o, Waits s pid offset size p o ∧ o.linuxMemArea = o'.linuxMemArea := by
  obtain ⟨hp, ho', hpid, hoffset, hsize⟩ := hw
  obtain ⟨o, ho, hkey⟩ := h.structs p o' ho'
  obtain ⟨h₁, -, h₂, h₃, h₄⟩ := key_eq_iff.mp hkey
  exact ⟨o, ⟨h.global p hp, ho, h₁.trans hpid, h₂.trans hoffset, h₃.trans hsize⟩, h₄⟩

/-- If only requests for `a` wait under the offset and the size, `a` is what is mapped. -/
theorem Coherent.mapsOnly (h : Coherent s) {v : MmapCall}
    (hall : ∀ p o, Waits s t.pid v.vmPgoff v.byteSize p o → o.linuxMemArea = a) :
    MapsOnly s t v a := by
  intro r s' hs
  obtain ⟨-, heq⟩ | ⟨pre, p, post, o, area, hl, ho, hstands, -, ha, hout⟩ :=
    h.pvrMMap_cases (t := t) v
  · rw [hs, Option.some.injEq, Prod.mk.injEq] at heq
    rw [heq.1, heq.2]
    exact ⟨fun p o hp _ hnot => absurd hp hnot, fun he => by cases he⟩
  · have hmem : p ∈ s.mmapOffsetStructList := by
      rw [hl]
      simp
    have hkey := standsFor_iff.mp hstands
    have harea := hall p o ⟨hmem, ho, hkey.1, hkey.2.1, hkey.2.2.1⟩
    have htaken (hglobal : s'.mmapOffsetStructList = s.mmapOffsetStructList.erase p) :
        ∀ q x, q ∈ s.mmapOffsetStructList → s.offsetStructs q = some x →
          q ∉ s'.mmapOffsetStructList → x.linuxMemArea = a := by
      intro q x hq hx hnot
      rw [hglobal, h.globalNodup.mem_erase_iff] at hnot
      have hqp : q = p := by
        by_contra hne
        exact hnot ⟨hne, hq⟩
      rw [hqp, ho, Option.some.injEq] at hx
      rw [← hx]
      exact harea
    cases hout with
    | inl hfail =>
      obtain ⟨-, e, heq⟩ := hfail
      obtain ⟨b, hb, hflag⟩ := (h.global p).mp hmem
      rw [ho, Option.some.injEq] at hb
      rw [← hb] at hflag
      obtain ⟨u, hu, -, hd⟩ := h.destroyed ho (h.waiting p o ho hflag)
      rw [hs, Mmaps.failMMap, hu, Option.map_some, Option.some.injEq, Prod.mk.injEq] at heq
      rw [heq.1]
      exact ⟨htaken (by rw [heq.2]; exact hd.global), fun he => by cases he⟩
    | inr hmap =>
      obtain ⟨-, pages, hpages, heq⟩ := hmap
      rw [hs, Option.some.injEq, Prod.mk.injEq] at heq
      refine ⟨htaken (by rw [heq.2]; rfl), fun _ => ?_⟩
      rw [heq.2]
      exact ⟨_, area, rfl, by rw [← harea]; exact ha, hpages⟩

/-- If the requests that wait first under the offset and the size are for other areas, a thread
    that has made one of them does not map `a`. -/
theorem Coherent.not_mapsOnly (h : Coherent s) {v : MmapCall} (older newer : List ℕ)
    (hl : s.mmapOffsetStructList = older ++ newer) (hp : p ∈ older)
    (hw : Waits s t.pid v.vmPgoff v.byteSize p o) (htid : o.tid = t.tid)
    (hflags : v.vmWrite = false)
    (hall : ∀ q ∈ older, ∀ o, Waits s t.pid v.vmPgoff v.byteSize q o → o.linuxMemArea ≠ a) :
    ¬MapsOnly s t v a := by
  intro hmaps
  have hmatch : o.standsFor t v.vmPgoff v.byteSize = true :=
    standsFor_iff.mpr ⟨hw.2.2.1, hw.2.2.2.1, hw.2.2.2.2, .inr htid⟩
  obtain ⟨hrefused, -⟩ | ⟨pre, q, post, b, area, hsplit, hb, hstands, hpre, -, hout⟩ :=
    h.pvrMMap_cases (t := t) v
  · cases hrefused with
    | inl hbad =>
      rw [hflags] at hbad
      cases hbad
    | inr hnone =>
      cases findStruct_spec (f := fun o => o.standsFor t v.vmPgoff v.byteSize) h.live_global with
      | inl hfound =>
        obtain ⟨_, q, _, _, _, _, _, _, hfind⟩ := hfound
        have hfind : findOffsetStructByOffset s t v.vmPgoff v.byteSize = some (some q) := hfind
        rw [hnone] at hfind
        cases hfind
      | inr hnot =>
        have hno := hnot.1 p hw.1 o hw.2.1
        rw [hmatch] at hno
        cases hno
  · have hq : q ∈ s.mmapOffsetStructList := by
      rw [hsplit]
      simp
    have hkey := standsFor_iff.mp hstands
    -- the structure that is taken is not behind the older ones, for one of these matches
    have holder : q ∈ older := by
      have hskip : p ∉ pre := fun hp => by
        have hno := hpre p hp o hw.2.1
        rw [hmatch] at hno
        cases hno
      rw [hl] at hsplit
      obtain ⟨c, hc, -⟩ | ⟨c, hc, hqc⟩ := List.append_eq_append_iff.mp hsplit
      · exact absurd (by rw [hc]; exact List.mem_append_left _ hp) hskip
      · cases c with
        | nil =>
          rw [List.append_nil] at hc
          exact absurd (hc ▸ hp) hskip
        | cons d c =>
          rw [List.cons_append, List.cons.injEq] at hqc
          rw [hc, hqc.1]
          simp
    have hother := hall q holder b ⟨hq, hb, hkey.1, hkey.2.1, hkey.2.2.1⟩
    have hgone : q ∉ s.mmapOffsetStructList.erase q := fun hmem =>
      (h.globalNodup.mem_erase_iff.mp hmem).1 rfl
    cases hout with
    | inl hfail =>
      obtain ⟨-, e, heq⟩ := hfail
      obtain ⟨z, hz, hflag⟩ := (h.global q).mp hq
      rw [hb, Option.some.injEq] at hz
      rw [← hz] at hflag
      obtain ⟨u, hu, -, hd⟩ := h.destroyed hb (h.waiting q b hb hflag)
      rw [Mmaps.failMMap, hu, Option.map_some] at heq
      exact hother ((hmaps _ u heq).1 q b hq hb (by rw [hd.global]; exact hgone))
    | inr hmap =>
      obtain ⟨-, pages, -, heq⟩ := hmap
      exact hother ((hmaps _ _ heq).1 q b hq hb hgone)

/-- What waits under an offset and a size of a process is for one area, the one that was answered
    last. -/
structure Attributed (x : MmapSys) : Prop where
  coherent : Coherent x.mmap
  sized : ∀ p o area, x.mmap.offsetStructs p = some o →
    x.mmap.areas o.linuxMemArea = some area →
    o.realByteSize = (determineUsersSizeAndByteOffset area).1
  alike : ∀ pid offset size p q o o', Waits x.mmap pid offset size p o →
    Waits x.mmap pid offset size q o' → o.linuxMemArea = o'.linuxMemArea
  answers : ∀ pid offset size handle a, x.answered pid offset size = some (handle, a) →
    ∀ p o, Waits x.mmap pid offset size p o → o.linuxMemArea = a

theorem attributed_init : Attributed sysInit where
  coherent := coherent_init
  sized := nofun
  alike := fun _ _ _ _ _ _ _ hw => nomatch hw.1
  answers := nofun

theorem Attributed.mapsOnly (h : Attributed x) {v : MmapCall} {handle : ℕ}
    (hans : x.answered t.pid v.vmPgoff v.byteSize = some (handle, a)) : MapsOnly x.mmap t v a :=
  h.coherent.mapsOnly (h.answers t.pid v.vmPgoff v.byteSize handle a hans)

theorem determine_of_shape {area' : LinuxMemArea} (h : area.shape = area'.shape) :
    determineUsersSizeAndByteOffset area = determineUsersSizeAndByteOffset area' := by
  simp only [LinuxMemArea.shape, Prod.mk.injEq] at h
  unfold determineUsersSizeAndByteOffset
  rw [h.1, h.2.1]

theorem Attributed.of_kept (h : Attributed x) (hk : Kept x.mmap s') (hs' : Coherent s')
    (handles : ℕ → ℕ → Option ℕ) (due : ℕ → ℕ → ℕ → Option (ℕ × ℕ × ℕ)) :
    Attributed ⟨s', handles, x.answered, due⟩ where
  coherent := hs'
  sized := by
    intro p o' area' ho' ha'
    obtain ⟨o, ho, hkey⟩ := hk.structs p o' ho'
    obtain ⟨-, -, -, hsize, harea⟩ := key_eq_iff.mp hkey
    obtain ⟨area, ha, hshape⟩ := hk.areas _ area' ha'
    rw [← harea] at ha
    rw [← hsize, h.sized p o area ho ha, determine_of_shape hshape]
  alike := by
    intro pid offset size p q o o' hp hq
    obtain ⟨b, hb, hbo⟩ := hk.waits hp
    obtain ⟨c, hc, hco⟩ := hk.waits hq
    rw [← hbo, ← hco]
    exact h.alike pid offset size p q b c hb hc
  answers := by
    intro pid offset size handle a hans p o hp
    obtain ⟨b, hb, hbo⟩ := hk.waits hp
    rw [← hbo]
    exact h.answers pid offset size handle a hans p b hb

theorem Attributed.answer (h : Attributed x) {pid offset size handle : ℕ}
    (due : ℕ → ℕ → ℕ → Option (ℕ × ℕ × ℕ))
    (hall : ∀ p o, Waits x.mmap pid offset size p o → o.linuxMemArea = a) :
    Attributed ⟨x.mmap, x.handles, fun pid' offset' size' =>
      if pid' = pid ∧ offset' = offset ∧ size' = size then some (handle, a)
      else x.answered pid' offset' size', due⟩ where
  coherent := h.coherent
  sized := h.sized
  alike := h.alike
  answers := by
    intro pid' offset' size' handle' a' hans p o hp
    dsimp only at hans hp
    split at hans
    · rename_i hkey
      obtain ⟨rfl, rfl, rfl⟩ := hkey
      rw [Option.some.injEq, Prod.mk.injEq] at hans
      rw [← hans.2]
      exact hall p o hp
    · exact h.answers pid' offset' size' handle' a' hans p o hp

theorem newRequest_waits {offset pid off size : ℕ}
    (hw : Waits (newRequest s t p a area offset) pid off size q o) :
    Waits s pid off size q o ∨ o.linuxMemArea = a ∧ pid = t.pid ∧ off = offset ∧
      size = (determineUsersSizeAndByteOffset area).1 := by
  obtain ⟨hq, ho, hpid, hoff, hsize⟩ := hw
  cases update_some_cases ho with
  | inl h =>
    rw [h.2] at hpid hoff hsize ⊢
    exact .inr ⟨rfl, hpid.symm, hoff.symm, hsize.symm⟩
  | inr h =>
    cases List.mem_append.mp hq with
    | inl hq => exact .inl ⟨hq, h.2, hpid, hoff, hsize⟩
    | inr hq => exact absurd (List.mem_singleton.mp hq) h.1

theorem waits_newRequest {offset pid off size : ℕ} (hp : s.offsetStructs p = none)
    (hw : Waits s pid off size q o) : Waits (newRequest s t p a area offset) pid off size q o := by
  obtain ⟨hq, ho, hkey⟩ := hw
  have hne : q ≠ p := fun hqp => by
    rw [hqp, hp] at ho
    cases ho
  refine ⟨List.mem_append_left _ hq, ?_, hkey⟩
  exact (Function.update_of_ne hne _ _).trans ho

theorem Attributed.toMMapData (h : Attributed x) {handle : ℕ} {cache : Option ℕ}
    (hop : Proper x.mmap (.toMMapData t handle (.ok a) cache))
    (hrival : Unrivalled x (.entry (.toMMapData t handle (.ok a) cache))) {r : MmapReply}
    (hs : sysStep x (.entry (.toMMapData t handle (.ok a) cache)) = some (r, y)) :
    Attributed y := by
  obtain ⟨⟨r', s'⟩, hstep, hr⟩ := Option.map_eq_some_iff.mp hs
  rw [Prod.mk.injEq] at hr
  rw [← hr.2]
  obtain ⟨area, ha, hreg⟩ := registered_iff.mp (hop.1 a rfl)
  have hunrivalled := fun ans => hrival ans s'
  rw [hstep] at hunrivalled
  obtain ⟨p, o, ho, hpid, hoa, heq⟩ | ⟨-, heq⟩ | ⟨p, hp, -, heq⟩ :=
    h.coherent.toMMapData_cases t.pid t handle cache ha
  · rw [mmapStep, heq, Option.map_some, Option.some.injEq, Prod.mk.injEq] at hstep
    rw [← hstep.1, ← hstep.2]
    have hall := hunrivalled _ (by rw [← hstep.1])
    have hkept : Attributed ⟨x.mmap.setStruct p { o with refCount := u32 (o.refCount + 1) },
        x.handles, x.answered, x.due⟩ :=
      h.of_kept (Kept.change ho { o with refCount := u32 (o.refCount + 1) } rfl fun _ hq => hq)
        (h.coherent.setStruct ho rfl rfl rfl) x.handles x.due
    refine hkept.answer _ fun q b hq => ?_
    obtain ⟨c, hc, hcb⟩ := (Kept.change ho { o with refCount := u32 (o.refCount + 1) } rfl
      fun _ hq => hq : Kept x.mmap _).waits hq
    rw [← hcb]
    exact hall q hc.1 c hc.2.1 hc.2.2.1 hc.2.2.2.1 hc.2.2.2.2
  · rw [mmapStep, heq, Option.map_some, Option.some.injEq, Prod.mk.injEq] at hstep
    rw [← hstep.1, ← hstep.2]
    exact h
  · rw [mmapStep, heq, Option.map_some, Option.some.injEq, Prod.mk.injEq] at hstep
    rw [← hstep.1, ← hstep.2]
    have hnone := hop.2 p hp
    have hall := hunrivalled _ (by rw [← hstep.1])
    have hold {pid offset size q : ℕ} {b : KvOffsetStruct} (hpid : pid = t.pid)
        (hoffset : offset = newMMapOffset area handle)
        (hsize : size = (determineUsersSizeAndByteOffset area).1)
        (hw : Waits x.mmap pid offset size q b) : b.linuxMemArea = a :=
      hall q hw.1 b hw.2.1 (hw.2.2.1.trans hpid) (hw.2.2.2.1.trans hoffset)
        (hw.2.2.2.2.trans hsize)
    have hkept (due : ℕ → ℕ → ℕ → Option (ℕ × ℕ × ℕ)) :
        Attributed ⟨newRequest x.mmap t p a area (newMMapOffset area handle), x.handles,
          fun pid offset size => if pid = t.pid ∧ offset = newMMapOffset area handle ∧
            size = (determineUsersSizeAndByteOffset area).1 then some (handle, a)
            else x.answered pid offset size, due⟩ := by
      constructor
      case coherent => exact h.coherent.newRequest hnone ha hreg
      case sized =>
        intro q b z hb hz
        have hshape : ∃ z', x.mmap.areas b.linuxMemArea = some z' ∧ z'.shape = z.shape := by
          cases update_some_cases hz with
          | inl hba => exact ⟨area, by rw [hba.1]; exact ha, by rw [hba.2]; rfl⟩
          | inr hba => exact ⟨z, hba.2, rfl⟩
        obtain ⟨z', hz', hzz⟩ := hshape
        rw [← determine_of_shape hzz]
        cases update_some_cases hb with
        | inl hq =>
          rw [hq.2] at hz' ⊢
          have hza : x.mmap.areas a = some z' := hz'
          rw [ha, Option.some.injEq] at hza
          rw [← hza]
        | inr hq => exact h.sized q b z' hq.2 hz'
      case alike =>
        intro pid offset size q q' b b' hq hq'
        cases newRequest_waits hq with
        | inl hq =>
          cases newRequest_waits hq' with
          | inl hq' => exact h.alike pid offset size q q' b b' hq hq'
          | inr hq' => rw [hq'.1, hold hq'.2.1 hq'.2.2.1 hq'.2.2.2 hq]
        | inr hq =>
          cases newRequest_waits hq' with
          | inl hq' => rw [hq.1, hold hq.2.1 hq.2.2.1 hq.2.2.2 hq']
          | inr hq' => rw [hq.1, hq'.1]
      case answers =>
        intro pid offset size handle' a' hans q b hq
        dsimp only at hans
        split at hans
        · rename_i hkey
          rw [Option.some.injEq, Prod.mk.injEq] at hans
          rw [← hans.2]
          cases newRequest_waits hq with
          | inl hq => exact hold hkey.1 hkey.2.1 hkey.2.2 hq
          | inr hq => exact hq.1
        · rename_i hkey
          cases newRequest_waits hq with
          | inl hq => exact h.answers pid offset size handle' a' hans q b hq
          | inr hq => exact absurd hq.2 hkey
    exact hkept _

theorem Attributed.step (h : Attributed x) {op : SysOp} (hop : SysProper x op)
    (hrival : Unrivalled x op) {r : MmapReply} (hs : sysStep x op = some (r, y)) :
    Attributed y := by
  cases op with
  | allocHandle pid handle a =>
    simp only [sysStep, Option.some.injEq, Prod.mk.injEq] at hs
    rw [← hs.2]
    exact h.of_kept (.refl _) h.coherent _ _
  | freeHandle pid handle =>
    simp only [sysStep, Option.some.injEq, Prod.mk.injEq] at hs
    rw [← hs.2]
    exact h.of_kept (.refl _) h.coherent _ _
  | entry op =>
    obtain ⟨⟨r', s'⟩, hstep, hr⟩ := Option.map_eq_some_iff.mp hs
    rw [Prod.mk.injEq] at hr
    obtain ⟨r'', s'', hstep', hs'⟩ := coherent_step h.coherent hop.1
    rw [hstep, Option.some.injEq, Prod.mk.injEq] at hstep'
    rw [← hstep'.2] at hs'
    by_cases hdata : ∃ t handle lookup cache, op = .toMMapData t handle lookup cache
    · obtain ⟨t, handle, lookup, cache, rfl⟩ := hdata
      cases lookup with
      | ok a => exact h.toMMapData hop.1 hrival hs
      | error e =>
        simp only [mmapStep, pvrMMapOSMemHandleToMMapData, Option.map_some, Option.some.injEq,
          Prod.mk.injEq] at hstep
        rw [← hr.2, ← hstep.2]
        exact h
    · have hbooks : recordAnswer x.answered op r' = x.answered := by
        cases op with
        | toMMapData t handle lookup cache => exact absurd ⟨t, handle, lookup, cache, rfl⟩ hdata
        | _ => rfl
      rw [← hr.2, hbooks]
      by_cases hcreate : ∃ a data byteSize cacheType, op = .createArea a data byteSize cacheType
      · obtain ⟨a, data, byteSize, cacheType, rfl⟩ := hcreate
        have hnone : x.mmap.areas a = none := hop.1
        simp only [mmapStep, Option.some.injEq, Prod.mk.injEq] at hstep
        rw [← hstep.2] at hs' ⊢
        refine ⟨hs', fun p o z ho hz => ?_, h.alike, h.answers⟩
        cases update_some_cases hz with
        | inl ha =>
          obtain ⟨area, harea, -⟩ := registered_iff.mp (h.coherent.owned p o ho)
          rw [ha.1, hnone] at harea
          cases harea
        | inr ha => exact h.sized p o z ho ha.2
      · exact h.of_kept (step_kept h.coherent hop.1 hstep
          (fun t handle lookup cache he => hdata ⟨t, handle, lookup, cache, he⟩)
          (fun a data byteSize cacheType he => hcreate ⟨a, data, byteSize, cacheType, he⟩)) hs' _ _

/-- A rival that waits is mapped in the place of the area that was answered. -/
theorem Attributed.unrivalled (h : Attributed x) {op : SysOp} (hop : SysProper x op)
    {r : MmapReply} (hs : sysStep x op = some (r, y)) (hy : MapsAnswered y) :
    Unrivalled x op := by
  cases op with
  | allocHandle pid handle a => trivial
  | freeHandle pid handle => trivial
  | entry op =>
    cases op with
    | toMMapData t handle lookup cache =>
      cases lookup with
      | error e => trivial
      | ok a =>
        intro ans s' hstep p hp o ho hpid hoffset hsize
        by_contra hother
        simp only [sysStep, hstep, Option.map_some, Option.some.injEq, Prod.mk.injEq] at hs
        obtain ⟨u, hu, hcoherent⟩ : ∃ u, mmapStep x.mmap (.toMMapData t handle (.ok a) cache) =
            some (.data (.ok ans), u) ∧ Coherent u := by
          obtain ⟨r', u, hu, hcoherent⟩ := coherent_step h.coherent hop.1
          rw [hstep, Option.some.injEq, Prod.mk.injEq] at hu
          exact ⟨s', hstep, by rw [hu.2]; exact hcoherent⟩
        have hsu : s' = u := by
          rw [hstep, Option.some.injEq, Prod.mk.injEq] at hu
          exact hu.2
        rw [← hsu] at hcoherent
        have hw : Waits x.mmap t.pid ans.mmapOffset ans.realByteSize p o :=
          ⟨hp, ho, hpid, hoffset, hsize⟩
        -- the call of the thread that has made the rival request
        let v : MmapCall := ⟨0, 0, ans.realByteSize, ans.mmapOffset, false, true,
          ⟨true, fun _ => true, fun _ => true⟩⟩
        have hv : v.byteSize = ans.realByteSize := u32Sub_of_le (Nat.zero_le _)
        have hmaps : MapsOnly s' ⟨t.pid, o.tid⟩ v a := by
          rw [← hs.2] at hy
          refine hy.only ⟨t.pid, o.tid⟩ v handle a ?_ (hop.2 a rfl)
          simp [recordAnswer, hv, v]
        obtain ⟨area, ha, -⟩ := registered_iff.mp (hop.1.1 a rfl)
        obtain ⟨p', o', ho', -, -, heq⟩ | ⟨-, heq⟩ | ⟨p', hp', -, heq⟩ :=
          h.coherent.toMMapData_cases t.pid t handle cache ha
        · rw [mmapStep, heq, Option.map_some, Option.some.injEq, Prod.mk.injEq] at hstep
          rw [← hstep.2] at hcoherent hmaps
          have hkept : Kept x.mmap
              (x.mmap.setStruct p' { o' with refCount := u32 (o'.refCount + 1) }) :=
            Kept.change ho' { o' with refCount := u32 (o'.refCount + 1) } rfl fun _ hq => hq
          have hwaits : ∃ b, Waits (x.mmap.setStruct p'
              { o' with refCount := u32 (o'.refCount + 1) }) t.pid ans.mmapOffset
              ans.realByteSize p b ∧ b.tid = o.tid := by
            by_cases hpp : p = p'
            · rw [hpp, ho', Option.some.injEq] at ho
              refine ⟨{ o' with refCount := u32 (o'.refCount + 1) }, ⟨hp, ?_, ?_⟩, ?_⟩
              · rw [hpp]
                exact Function.update_self ..
              · rw [ho]
                exact ⟨hpid, hoffset, hsize⟩
              · rw [ho]
            · exact ⟨o, ⟨hp, (Function.update_of_ne hpp _ _).trans ho, hpid, hoffset, hsize⟩, rfl⟩
          obtain ⟨b, hb, htid⟩ := hwaits
          refine hcoherent.not_mapsOnly (t := ⟨t.pid, o.tid⟩) (v := v) _ []
            (List.append_nil _).symm hp (by rw [hv]; exact hb) htid rfl ?_ hmaps
          intro q _ c hc hca
          rw [hv] at hc
          obtain ⟨d, hd, hdc⟩ := hkept.waits hc
          exact hother ((h.alike _ _ _ p q o d hw hd).trans (hdc.trans hca))
        · rw [mmapStep, heq, Option.map_some, Option.some.injEq, Prod.mk.injEq] at hstep
          cases hstep.1
        · rw [mmapStep, heq, Option.map_some, Option.some.injEq, Prod.mk.injEq] at hstep
          rw [← hstep.2] at hcoherent hmaps
          refine hcoherent.not_mapsOnly (t := ⟨t.pid, o.tid⟩) (v := v) _ [p'] rfl hp
            (by rw [hv]; exact waits_newRequest (hop.1.2 p' hp') hw) rfl rfl ?_ hmaps
          intro q hq c hc hca
          rw [hv] at hc
          have hold : Waits x.mmap t.pid ans.mmapOffset ans.realByteSize q c := by
            obtain ⟨-, hstruct, hkey⟩ := hc
            cases update_some_cases hstruct with
            | inl hqp =>
              obtain ⟨d, hd, -⟩ := (h.coherent.global q).mp hq
              rw [hqp.1, hop.1.2 p' hp'] at hd
              cases hd
            | inr hqp => exact ⟨hq, hqp.2, hkey⟩
          exact hother ((h.alike _ _ _ p q o c hw hold).trans hca)
    | _ => trivial

end PvrServices.Mmaps
