import PvrServices.MmapAnswers

set_option autoImplicit false

/-!
# Answers that are due over runs

An answer without an address in the process waits for `mmap(2)`. The thread that was answered maps
the area with it, as long as no answer has a rival, goes to a thread that did not make the request
for a physical page, or is for an area whose cache type `mmap(2)` refuses.
-/
namespace PvrServices.Mmaps
open Ownership Runs Words
variable {s s' : MmapData} {p q a : ℕ} {o o' : KvOffsetStruct} {area : LinuxMemArea} {t : Task}
  {x y : MmapSys} {v : MmapCall}

theorem doMapToUser_granted (h : v.Granted) (byteSize : ℕ) (d : AreaData) (byteOffset : ℕ) :
    doMapToUser v.kernel v.vmPgoff byteSize d byteOffset ≠ none := by
  have hbase (pages : List ℕ) : (if (pfnIsPhysical v.vmPgoff && v.kernel.ioRemapPfnRange) = true then
      some ((List.range (byteSize / pageSize)).map fun i => v.vmPgoff + i)
      else if (pages.all v.kernel.pfnValid && (List.range pages.length).all v.kernel.vmInsertPage) =
        true then some pages else none) ≠ none := by
    cases h.pages with
    | inl hremap => simp [hremap.1, hremap.2]
    | inr hpages =>
      have hall : (pages.all v.kernel.pfnValid &&
          (List.range pages.length).all v.kernel.vmInsertPage) = true := by
        simp [hpages.1, hpages.2]
      rw [if_pos hall]
      split
      all_goals exact nofun
  induction d generalizing byteOffset with
  | subAlloc parent offset ih =>
    unfold doMapToUser
    exact ih _
  | _ =>
    unfold doMapToUser
    exact hbase _

/-- A request that waits is found by the thread that made it, or by any thread if its offset is no
    physical page. -/
theorem Coherent.found (h : Coherent s) (hw : Waits s t.pid v.vmPgoff v.byteSize p o)
    (htid : pfnIsPhysical v.vmPgoff = true → o.tid = t.tid) :
    findOffsetStructByOffset s t v.vmPgoff v.byteSize ≠ some none := by
  intro hnone
  have hmatch : o.standsFor t v.vmPgoff v.byteSize = true := by
    refine standsFor_iff.mpr ⟨hw.2.2.1, hw.2.2.2.1, hw.2.2.2.2, ?_⟩
    cases hphys : pfnIsPhysical v.vmPgoff with
    | true => exact .inr (htid hphys)
    | false => exact .inl rfl
  cases findStruct_spec (f := fun o => o.standsFor t v.vmPgoff v.byteSize) h.live_global with
  | inl hfound =>
    obtain ⟨_, q, _, _, _, _, _, _, hfind⟩ := hfound
    have hfind : findOffsetStructByOffset s t v.vmPgoff v.byteSize = some (some q) := hfind
    rw [hnone] at hfind
    cases hfind
  | inr hnot =>
    have hno := hnot.1 p hw.1 o hw.2.1
    rw [hmatch] at hno
    cases hno

/-- A request that is due waits for the thread that was answered, and what does not wait is mapped
    at the address that is answered for it. -/
structure Awaited (x : MmapSys) : Prop extends Attributed x where
  single : ∀ p q o o', x.mmap.offsetStructs p = some o → x.mmap.offsetStructs q = some o' →
    o.pid = o'.pid → o.linuxMemArea = o'.linuxMemArea → p = q
  mapped : ∀ p o, x.mmap.offsetStructs p = some o → o.onMMapList = false → o.userVAddr ≠ 0
  due : ∀ pid offset size tid handle a, x.due pid offset size = some (tid, handle, a) →
    x.answered pid offset size = some (handle, a) ∧
    ∃ p o area, Waits x.mmap pid offset size p o ∧ o.linuxMemArea = a ∧
      x.mmap.areas a = some area ∧ area.cacheType ≠ .unknown ∧
      (pfnIsPhysical offset = true → o.tid = tid)

theorem awaited_init : Awaited sysInit where
  toAttributed := attributed_init
  single := nofun
  mapped := nofun
  due := nofun

theorem Awaited.mapsDue (h : Awaited x) {handle : ℕ}
    (hdue : x.due t.pid v.vmPgoff v.byteSize = some (t.tid, handle, a)) (hv : v.Granted) :
    ∃ s', pvrMMap x.mmap t v = some (.ok (), s') := by
  obtain ⟨hans, p, o, area, hw, hoa, ha, hcache, htid⟩ := h.due _ _ _ _ _ _ hdue
  obtain ⟨hrefused, -⟩ | ⟨pre, q, post, b, area', hl, hb, hstands, -, ha', hout⟩ :=
    h.coherent.pvrMMap_cases (t := t) v
  · cases hrefused with
    | inl hflags =>
      cases hv.flags with
      | inl hwrite => simp [hwrite] at hflags
      | inr hshared => simp [hshared] at hflags
    | inr hnone => exact absurd hnone (h.coherent.found hw htid)
  · have hkey := standsFor_iff.mp hstands
    have hba : b.linuxMemArea = a := h.answers _ _ _ _ _ hans q b
      ⟨by rw [hl]; simp, hb, hkey.1, hkey.2.1, hkey.2.2.1⟩
    cases hout with
    | inl hfail =>
      have hsize : checkSize area' v.byteSize = true := by
        rw [checkSize, ← h.sized q b area' hb ha', hkey.2.2.1]
        exact decide_eq_true (Nat.le_refl _)
      rw [hba, ha, Option.some.injEq] at ha'
      rw [← ha'] at hfail hsize
      obtain hbad | hbad | hbad := hfail.1
      · rw [hsize] at hbad
        cases hbad
      · exact absurd hbad hcache
      · exact absurd hbad (doMapToUser_granted hv _ _ _)
    | inr hmap =>
      obtain ⟨-, pages, -, heq⟩ := hmap
      exact ⟨_, heq⟩

theorem Awaited.mapsAnswered (h : Awaited x) : MapsAnswered x where
  only := fun _ _ _ _ hans _ => h.toAttributed.mapsOnly hans
  maps := fun _ _ _ _ hdue _ hv => h.mapsDue hdue hv

/-- A call that makes no request keeps what is due and not taken. -/
theorem Awaited.carry (h : Awaited x) (hy : Attributed y) (hans : y.answered = x.answered)
    {taken : ℕ × ℕ × ℕ × ℕ × ℕ → Prop} (hmoves : Moves x.mmap y.mmap taken)
    (hstructs : ∀ p o', y.mmap.offsetStructs p = some o' →
      ∃ o, x.mmap.offsetStructs p = some o ∧ o.key = o'.key)
    (hareas : ∀ a area area', x.mmap.areas a = some area → y.mmap.areas a = some area' →
      area'.cacheType = area.cacheType)
    (hdue : ∀ pid offset size d, y.due pid offset size = some d → x.due pid offset size = some d ∧
      ∀ o : KvOffsetStruct, o.pid = pid → o.mmapOffset = offset → o.realByteSize = size →
        o.linuxMemArea = d.2.2 → ¬taken o.key) : Awaited y where
  toAttributed := hy
  single := by
    intro p q o o' ho ho' hpid harea
    obtain ⟨b, hb, hbo⟩ := hstructs p o ho
    obtain ⟨c, hc, hco⟩ := hstructs q o' ho'
    obtain ⟨hb₁, -, -, -, hb₂⟩ := key_eq_iff.mp hbo
    obtain ⟨hc₁, -, -, -, hc₂⟩ := key_eq_iff.mp hco
    exact h.single p q b c hb hc (hb₁.trans (hpid.trans hc₁.symm))
      (hb₂.trans (harea.trans hc₂.symm))
  mapped := by
    intro p o' ho' hflag
    obtain hne | ⟨o, ho, hoflag, haddr⟩ := hmoves.mapped p o' ho' hflag
    · exact hne
    · rw [← haddr]
      exact h.mapped p o ho hoflag
  due := by
    intro pid offset size tid handle a hd
    obtain ⟨hold, hfree⟩ := hdue pid offset size _ hd
    obtain ⟨hx, p, o, area, ⟨hp, ho, hpid, hoffset, hsize⟩, hoa, ha, hcache, htid⟩ :=
      h.due _ _ _ _ _ _ hold
    obtain ⟨hp', o', ho', hkey⟩ := hmoves.waits p hp o ho (hfree o hpid hoffset hsize hoa)
    obtain ⟨k₁, k₂, k₃, k₄, k₅⟩ := key_eq_iff.mp hkey
    obtain ⟨area', ha', -⟩ := registered_iff.mp (hy.coherent.owned p o' ho')
    rw [k₅, hoa] at ha'
    refine ⟨by rw [hans]; exact hx, p, o', area', ⟨hp', ho', k₁.trans hpid, k₃.trans hoffset,
      k₄.trans hsize⟩, k₅.trans hoa, ha', ?_, fun hphys => k₂.trans (htid hphys)⟩
    rw [hareas a area area' ha ha']
    exact hcache

theorem Kept.cacheType (h : Kept s s') {area' : LinuxMemArea} (ha : s.areas a = some area)
    (ha' : s'.areas a = some area') : area'.cacheType = area.cacheType := by
  obtain ⟨z, hz, hshape⟩ := h.areas a area' ha'
  rw [ha, Option.some.injEq] at hz
  rw [← hz] at hshape
  simp only [LinuxMemArea.shape, Prod.mk.injEq] at hshape
  exact hshape.2.2.symm

theorem recordDue_some {due : ℕ → ℕ → ℕ → Option (ℕ × ℕ × ℕ)} {op : MmapOp} {r : MmapReply}
    (hdata : ∀ t handle lookup cache, op ≠ .toMMapData t handle lookup cache)
    {pid offset size : ℕ} {d : ℕ × ℕ × ℕ} (hd : recordDue due op r pid offset size = some d) :
    due pid offset size = some d ∧
      ∀ o : KvOffsetStruct, o.pid = pid → o.mmapOffset = offset → o.realByteSize = size →
        o.linuxMemArea = d.2.2 → ¬takes op o.key := by
  cases op with
  | toMMapData t handle lookup cache => exact absurd rfl (hdata t handle lookup cache)
  | mmap t v =>
    simp only [recordDue] at hd
    split at hd
    · cases hd
    · rename_i hne
      refine ⟨hd, fun o hpid hoffset hsize _ htaken => hne ?_⟩
      exact ⟨hpid.symm.trans htaken.1, hoffset.symm.trans htaken.2.1, hsize.symm.trans htaken.2.2⟩
  | disconnect t =>
    simp only [recordDue] at hd
    split at hd
    · cases hd
    · rename_i hne
      exact ⟨hd, fun o hpid _ _ _ htaken => hne (hpid.symm.trans htaken)⟩
  | removeArea a =>
    simp only [recordDue] at hd
    obtain ⟨hold, hne⟩ := Option.filter_eq_some_iff.mp hd
    exact ⟨hold, fun o _ _ _ hoa htaken => of_decide_eq_true hne (hoa.symm.trans htaken)⟩
  | _ => exact ⟨hd, fun _ _ _ _ _ htaken => htaken⟩

/-- What is due after an answer: the answer, if it has no address, and what was due before. -/
theorem due_recorded {answered : ℕ → ℕ → ℕ → Option (ℕ × ℕ)}
    {due : ℕ → ℕ → ℕ → Option (ℕ × ℕ × ℕ)} {P : ℕ → ℕ → ℕ → ℕ → ℕ → Prop} {handle : ℕ}
    {ans : MMapAnswer} (cache : Option ℕ)
    (hold : ∀ pid offset size tid handle' a', due pid offset size = some (tid, handle', a') →
      answered pid offset size = some (handle', a') ∧ P pid offset size tid a')
    (hnew : ans.userVAddr = 0 → P t.pid ans.mmapOffset ans.realByteSize t.tid a)
    {pid offset size tid handle' a' : ℕ}
    (hdue : recordDue due (.toMMapData t handle (.ok a) cache) (.data (.ok ans)) pid offset size =
      some (tid, handle', a')) :
    recordAnswer answered (.toMMapData t handle (.ok a) cache) (.data (.ok ans)) pid offset size =
      some (handle', a') ∧ P pid offset size tid a' := by
  simp only [recordDue] at hdue
  simp only [recordAnswer]
  split at hdue
  · rename_i hkey
    obtain ⟨rfl, rfl, rfl⟩ := hkey
    rw [if_pos ⟨rfl, rfl, rfl⟩]
    by_cases haddr : ans.userVAddr = 0
    · rw [if_pos haddr, Option.some.injEq, Prod.mk.injEq, Prod.mk.injEq] at hdue
      obtain ⟨rfl, rfl, rfl⟩ := hdue
      exact ⟨rfl, hnew haddr⟩
    · rw [if_neg haddr] at hdue
      cases hdue
  · rename_i hkey
    rw [if_neg hkey]
    exact hold _ _ _ _ _ _ hdue

/-- An answered request is due if it waits, and what was due goes on waiting. -/
theorem Awaited.toMMapData (h : Awaited x) {handle : ℕ} {cache : Option ℕ}
    (hop : Proper x.mmap (.toMMapData t handle (.ok a) cache))
    (htake : Takeable x (.entry (.toMMapData t handle (.ok a) cache))) {r : MmapReply}
    (hs : sysStep x (.entry (.toMMapData t handle (.ok a) cache)) = some (r, y))
    (hy : Attributed y) : Awaited y := by
  obtain ⟨⟨r', s'⟩, hstep, hr⟩ := Option.map_eq_some_iff.mp hs
  rw [Prod.mk.injEq] at hr
  obtain ⟨area, ha, hreg⟩ := registered_iff.mp (hop.1 a rfl)
  have htakes := fun ans => htake ans s'
  rw [hstep] at htakes
  obtain ⟨p, o, ho, hpid, hoa, heq⟩ | ⟨-, heq⟩ | ⟨p, hp, hnone, heq⟩ :=
    h.coherent.toMMapData_cases t.pid t handle cache ha
  · rw [mmapStep, heq, Option.map_some, Option.some.injEq, Prod.mk.injEq] at hstep
    have htaken := htakes _ (by rw [← hstep.1])
    rw [← hr.2, ← hstep.1, ← hstep.2] at hy ⊢
    let z : MmapSys := ⟨x.mmap.setStruct p { o with refCount := u32 (o.refCount + 1) }, x.handles,
      x.answered, x.due⟩
    have hkept : Kept x.mmap z.mmap :=
      Kept.change ho { o with refCount := u32 (o.refCount + 1) } rfl fun _ hq => hq
    have hmoves : Moves x.mmap z.mmap fun _ => False :=
      Moves.change ho { o with refCount := u32 (o.refCount + 1) } rfl (fun _ hq => .inl hq)
        fun hflag => .inr ⟨hflag, rfl⟩
    have hz : Awaited z := h.carry
      (h.toAttributed.of_kept hkept (h.coherent.setStruct ho rfl rfl rfl) x.handles x.due) rfl hmoves
      hkept.structs (fun b area area' hb hb' => hkept.cacheType hb hb')
      fun _ _ _ _ hd => ⟨hd, fun _ _ _ _ _ htaken => htaken⟩
    refine ⟨hy, hz.single, hz.mapped, fun _ _ _ _ _ _ => due_recorded cache hz.due fun haddr => ?_⟩
    have hflag : o.onMMapList = true := by
      cases hflag : o.onMMapList with
      | true => rfl
      | false => exact absurd haddr (h.mapped p o ho hflag)
    refine ⟨p, { o with refCount := u32 (o.refCount + 1) }, area,
      ⟨(h.coherent.global p).mpr ⟨o, ho, hflag⟩, Function.update_self .., hpid, rfl, ?_⟩, hoa, ha,
      (htaken haddr).1 area ha, fun hphys => (htaken haddr).2 hphys p o ho hpid hoa⟩
    exact h.sized p o area ho (by rw [hoa]; exact ha)
  · rw [mmapStep, heq, Option.map_some, Option.some.injEq, Prod.mk.injEq] at hstep
    rw [← hr.2, ← hstep.1, ← hstep.2] at hy ⊢
    exact ⟨hy, h.single, h.mapped, h.due⟩
  · rw [mmapStep, heq, Option.map_some, Option.some.injEq, Prod.mk.injEq] at hstep
    have htaken := htakes _ (by rw [← hstep.1])
    rw [← hr.2, ← hstep.1, ← hstep.2] at hy ⊢
    have hfree := hop.2 p hp
    let u : MmapData := newRequest x.mmap t p a area (newMMapOffset area handle)
    have hold (pid offset size tid handle' a' : ℕ)
        (hd : x.due pid offset size = some (tid, handle', a')) :
        x.answered pid offset size = some (handle', a') ∧
          ∃ q b z, Waits u pid offset size q b ∧ b.linuxMemArea = a' ∧ u.areas a' = some z ∧
            z.cacheType ≠ .unknown ∧ (pfnIsPhysical offset = true → b.tid = tid) := by
      obtain ⟨hans, q, b, z, hw, hba, hz, hcache, htid⟩ := h.due _ _ _ _ _ _ hd
      have harea : ∃ z', u.areas a' = some z' ∧ z'.cacheType = z.cacheType := by
        by_cases haa : a' = a
        · rw [haa, ha, Option.some.injEq] at hz
          refine ⟨{ area with mmapOffsetStructList := area.mmapOffsetStructList ++ [p] }, ?_,
            by rw [← hz]⟩
          rw [haa]
          exact Function.update_self ..
        · exact ⟨z, (Function.update_of_ne haa _ _).trans hz, rfl⟩
      obtain ⟨z', hz', hsame⟩ := harea
      exact ⟨hans, q, b, z', waits_newRequest hfree hw, hba, hz', by rw [hsame]; exact hcache, htid⟩
    refine ⟨hy, fun q q' b b' hb hb' hpid harea => ?_, fun q b hb hflag => ?_,
      fun _ _ _ _ _ _ => due_recorded cache hold fun haddr => ?_⟩
    · cases update_some_cases hb with
      | inl hq =>
        cases update_some_cases hb' with
        | inl hq' => exact hq.1.trans hq'.1.symm
        | inr hq' =>
          rw [hq.2] at hpid harea
          exact absurd hpid.symm (hnone q' b' hq'.2 harea.symm)
      | inr hq =>
        cases update_some_cases hb' with
        | inl hq' =>
          rw [hq'.2] at hpid harea
          exact absurd hpid (hnone q b hq.2 harea)
        | inr hq' => exact h.single q q' b b' hq.2 hq'.2 hpid harea
    · cases update_some_cases hb with
      | inl hq =>
        rw [hq.2] at hflag
        cases hflag
      | inr hq => exact h.mapped q b hq.2 hflag
    · refine ⟨p, _, { area with mmapOffsetStructList := area.mmapOffsetStructList ++ [p] },
        ⟨List.mem_append_right _ (List.mem_singleton_self p), Function.update_self .., rfl, rfl,
          rfl⟩, rfl, Function.update_self .., (htaken haddr).1 area ha, fun _ => rfl⟩

theorem Awaited.step (h : Awaited x) {op : SysOp} (hop : SysProper x op) (hrival : Unrivalled x op)
    (htake : Takeable x op) {r : MmapReply} (hs : sysStep x op = some (r, y)) : Awaited y := by
  have hy := h.toAttributed.step hop hrival hs
  cases op with
  | allocHandle pid handle a =>
    simp only [sysStep, Option.some.injEq, Prod.mk.injEq] at hs
    rw [← hs.2] at hy ⊢
    exact ⟨hy, h.single, h.mapped, h.due⟩
  | freeHandle pid handle =>
    simp only [sysStep, Option.some.injEq, Prod.mk.injEq] at hs
    rw [← hs.2] at hy ⊢
    exact ⟨hy, h.single, h.mapped, h.due⟩
  | entry op =>
    obtain ⟨⟨r', s'⟩, hstep, hr⟩ := Option.map_eq_some_iff.mp hs
    rw [Prod.mk.injEq] at hr
    by_cases hdata : ∃ t handle lookup cache, op = .toMMapData t handle lookup cache
    · obtain ⟨t, handle, lookup, cache, rfl⟩ := hdata
      cases lookup with
      | ok a => exact h.toMMapData hop.1 htake hs hy
      | error e =>
        simp only [mmapStep, pvrMMapOSMemHandleToMMapData, Option.map_some, Option.some.injEq,
          Prod.mk.injEq] at hstep
        rw [← hr.2, ← hstep.2] at hy ⊢
        exact ⟨hy, h.single, h.mapped, h.due⟩
    · have hno : ∀ t handle lookup cache, op ≠ .toMMapData t handle lookup cache :=
        fun t handle lookup cache he => hdata ⟨t, handle, lookup, cache, he⟩
      have hans : recordAnswer x.answered op r' = x.answered := by
        cases op with
        | toMMapData t handle lookup cache => exact absurd rfl (hno t handle lookup cache)
        | _ => rfl
      have hmoves : Moves x.mmap s' (takes op) := by
        refine step_moves h.coherent hop.1 (fun t v he => ?_) hstep hno
        rw [he] at hop
        exact hop.2
      rw [← hr.2] at hy ⊢
      refine h.carry hy hans hmoves ?_ ?_ fun _ _ _ _ hd => recordDue_some hno hd
      · intro p o' ho'
        by_cases hcreate : ∃ a data byteSize cacheType, op = .createArea a data byteSize cacheType
        · obtain ⟨a, data, byteSize, cacheType, rfl⟩ := hcreate
          simp only [mmapStep, Option.some.injEq, Prod.mk.injEq] at hstep
          rw [← hstep.2] at ho'
          exact ⟨o', ho', rfl⟩
        · exact (step_kept h.coherent hop.1 hstep hno fun a data byteSize cacheType he =>
            hcreate ⟨a, data, byteSize, cacheType, he⟩).structs p o' ho'
      · intro b area area' hb hb'
        by_cases hcreate : ∃ a data byteSize cacheType, op = .createArea a data byteSize cacheType
        · obtain ⟨a, data, byteSize, cacheType, rfl⟩ := hcreate
          have hnone : x.mmap.areas a = none := hop.1
          simp only [mmapStep, Option.some.injEq, Prod.mk.injEq] at hstep
          rw [← hstep.2] at hb'
          cases update_some_cases hb' with
          | inl hba =>
            rw [hba.1, hnone] at hb
            cases hb
          | inr hba =>
            rw [hb, Option.some.injEq] at hba
            rw [hba.2]
        · exact (step_kept h.coherent hop.1 hstep hno fun a data byteSize cacheType he =>
            hcreate ⟨a, data, byteSize, cacheType, he⟩).cacheType hb hb'

/-- If an answer that is due is mapped as it should be, then a request for its area waits for the
    thread that was answered. -/
theorem MapsAnswered.waits (hy : MapsAnswered y) (hcoherent : Coherent y.mmap)
    {handle offset size : ℕ} (hdue : y.due t.pid offset size = some (t.tid, handle, a))
    (hans : y.answered t.pid offset size = some (handle, a))
    (hhandle : y.handles t.pid handle = some a) : ∃ q o area,
      y.mmap.offsetStructs q = some o ∧ o.pid = t.pid ∧ o.linuxMemArea = a ∧
        y.mmap.areas a = some area ∧ area.cacheType ≠ .unknown ∧
        (pfnIsPhysical offset = true → o.tid = t.tid) := by
  let v : MmapCall := ⟨0, 0, size, offset, false, true, ⟨true, fun _ => true, fun _ => true⟩⟩
  have hv : v.byteSize = size := u32Sub_of_le (Nat.zero_le _)
  have hgrant : v.Granted := ⟨.inl rfl, .inr ⟨fun _ => rfl, fun _ => rfl⟩⟩
  obtain ⟨u, hu⟩ := hy.maps t v handle a (by rw [hv]; exact hdue) hhandle hgrant
  have honly := hy.only t v handle a (by rw [hv]; exact hans) hhandle
  obtain ⟨-, heq⟩ | ⟨pre, q, post, o, area, hl, ho, hstands, -, ha, hout⟩ :=
    hcoherent.pvrMMap_cases (t := t) v
  · rw [hu, Option.some.injEq, Prod.mk.injEq] at heq
    cases heq.1
  have hq : q ∈ y.mmap.mmapOffsetStructList := by
    rw [hl]
    simp
  have hkey := standsFor_iff.mp hstands
  cases hout with
  | inl hfail =>
    obtain ⟨-, e, heq⟩ := hfail
    rw [hu, Mmaps.failMMap, eq_comm] at heq
    obtain ⟨w, -, hw⟩ := Option.map_eq_some_iff.mp heq
    rw [Prod.mk.injEq] at hw
    cases hw.1
  | inr hmap =>
    obtain ⟨hcache, pages, -, heq⟩ := hmap
    rw [hu, Option.some.injEq, Prod.mk.injEq] at heq
    have hoa : o.linuxMemArea = a := by
      refine (honly _ u hu).1 q o hq ho ?_
      rw [heq.2]
      exact fun hmem => (hcoherent.globalNodup.mem_erase_iff.mp hmem).1 rfl
    rw [hoa] at ha
    refine ⟨q, o, area, ho, hkey.1, hoa, ha, hcache, fun hphys => hkey.2.2.2.resolve_left ?_⟩
    change ¬pfnIsPhysical offset = false
    rw [hphys]
    decide

/-- A request for an area that is not mapped, or by another thread than the one that waits for the
    page, fails with the call that is due. -/
theorem Awaited.takeable (h : Awaited x) {op : SysOp} (hop : SysProper x op) {r : MmapReply}
    (hs : sysStep x op = some (r, y)) (hy : MapsAnswered y) : Takeable x op := by
  cases op with
  | allocHandle pid handle a => trivial
  | freeHandle pid handle => trivial
  | entry op =>
    cases op with
    | toMMapData t handle lookup cache =>
      cases lookup with
      | error e => trivial
      | ok a =>
        intro ans s' hstep haddr
        simp only [sysStep, hstep, Option.map_some, Option.some.injEq, Prod.mk.injEq] at hs
        rw [← hs.2] at hy
        have hcoherent : Coherent s' := by
          obtain ⟨r', u, hu, hcoherent⟩ := coherent_step h.coherent hop.1
          rw [hstep, Option.some.injEq, Prod.mk.injEq] at hu
          rw [hu.2]
          exact hcoherent
        have hdue : recordDue x.due (.toMMapData t handle (.ok a) cache) (.data (.ok ans)) t.pid
            ans.mmapOffset ans.realByteSize = some (t.tid, handle, a) := by
          simp [recordDue, haddr]
        have hans : recordAnswer x.answered (.toMMapData t handle (.ok a) cache) (.data (.ok ans))
            t.pid ans.mmapOffset ans.realByteSize = some (handle, a) := by
          simp [recordAnswer]
        obtain ⟨q, b, area', hb, hbpid, hba, ha', hcache, htid⟩ :=
          hy.waits hcoherent hdue hans (hop.2 a rfl)
        obtain ⟨area, ha, -⟩ := registered_iff.mp (hop.1.1 a rfl)
        obtain ⟨p', o', ho', hpid, hoa, hdata⟩ | ⟨-, hdata⟩ | ⟨p', hp', hnone, hdata⟩ :=
          h.coherent.toMMapData_cases t.pid t handle cache ha
        · rw [mmapStep, hdata, Option.map_some, Option.some.injEq, Prod.mk.injEq] at hstep
          rw [← hstep.2] at ha' hb
          refine ⟨fun z hz => ?_, fun hphys p o ho hop' hoa' => ?_⟩
          · rw [Option.some.inj (hz.symm.trans ha')]
            exact hcache
          · have hsame : o.tid = b.tid := by
              cases update_some_cases hb with
              | inl hqp =>
                have hpp := h.single p p' o o' ho ho' (hop'.trans hpid.symm) (hoa'.trans hoa.symm)
                rw [hpp, ho', Option.some.injEq] at ho
                rw [hqp.2, ho]
              | inr hqp =>
                have hpq := h.single p q o b ho hqp.2 (hop'.trans hbpid.symm) (hoa'.trans hba.symm)
                rw [hpq, hqp.2, Option.some.injEq] at ho
                rw [ho]
            exact hsame.trans (htid hphys)
        · rw [mmapStep, hdata, Option.map_some, Option.some.injEq, Prod.mk.injEq] at hstep
          cases hstep.1
        · rw [mmapStep, hdata, Option.map_some, Option.some.injEq, Prod.mk.injEq] at hstep
          rw [← hstep.2] at ha'
          refine ⟨fun z hz => ?_, fun _ p o ho hop' hoa' => absurd hop' (hnone p o ho hoa')⟩
          have ha' : Function.update x.mmap.areas a (some { area with
            mmapOffsetStructList := area.mmapOffsetStructList ++ [p'] }) a = some area' := ha'
          rw [Function.update_self, Option.some.injEq] at ha'
          rw [ha, Option.some.injEq] at hz
          rw [← ha'] at hcache
          rw [← hz]
          exact hcache
    | _ => trivial

theorem awaited_run {l : List (SysOp × MmapReply)}
    (hrun : Run sysStep (fun x op => SysProper x op ∧ Unrivalled x op ∧ Takeable x op) sysInit l x) :
    Awaited x :=
  hrun.invariant Awaited awaited_init fun _ _ _ _ h hop hs => h.step hop.1 hop.2.1 hop.2.2 hs

/-- In every state of a run a process maps the area that it was answered, and the thread that was
    answered does map it, exactly if no answer of the run has a rival or cannot be taken. -/
theorem maps_answered_over_runs {l : List (SysOp × MmapReply)}
    (hrun : Run sysStep SysProper sysInit l x) :
    (∀ m y, m <+: l → Run sysStep SysProper sysInit m y → MapsAnswered y) ↔
      Run sysStep (fun x op => SysProper x op ∧ Unrivalled x op ∧ Takeable x op) sysInit l x := by
  constructor
  · intro hmaps
    induction hrun with
    | refl => exact .refl
    | snoc run hop hs ih =>
      have hgood := ih fun m y hm hy => hmaps m y (hm.trans (List.prefix_append _ _)) hy
      have hlast := hmaps _ _ (List.prefix_refl _) (run.snoc hop hs)
      have h := awaited_run hgood
      exact hgood.snoc ⟨hop, h.unrivalled hop hs hlast, h.takeable hop hs hlast⟩ hs
  · intro hgood m y hm hy
    obtain ⟨z, hz⟩ := hgood.of_prefix hm
    rw [hy.unique hz]
    exact (awaited_run hz).mapsAnswered

instance (x : MmapSys) (op : SysOp) : Decidable (SysProper x op) :=
  match op with
  | .entry op =>
    have : Decidable (match op with
        | .toMMapData t handle lookup _ => ∀ a, lookup = .ok a → x.handles t.pid handle = some a
        | .mmap _ v => v.vmStart ≠ 0
        | _ => True) :=
      match op with
      | .toMMapData t handle (.ok a) _ => decidable_of_iff (x.handles t.pid handle = some a)
          ⟨fun h b hb => by rw [← Except.ok.inj hb]; exact h, fun h => h a rfl⟩
      | .toMMapData _ _ (.error _) _ => .isTrue fun _ h => by cases h
      | .createArea _ _ _ _ => .isTrue trivial
      | .registerArea _ => .isTrue trivial
      | .removeArea _ => .isTrue trivial
      | .freeArea _ => .isTrue trivial
      | .release _ _ => .isTrue trivial
      | .mmap _ v => inferInstanceAs (Decidable (v.vmStart ≠ 0))
      | .vmaOpen _ _ => .isTrue trivial
      | .vmaClose _ => .isTrue trivial
      | .disconnect _ => .isTrue trivial
    instDecidableAnd
  | .allocHandle _ _ _ => instDecidableAnd
  | .freeHandle _ _ => instDecidableEqBool _ _


/-- The answer is no physical page, and the area has a cache type that `mmap(2)` takes. -/
def specialRequest (x : MmapSys) : SysOp → Bool
  | .entry (.toMMapData t handle (.ok a) cache) =>
    (x.mmap.areas a).all (fun area => area.cacheType ≠ .unknown) &&
      (mmapStep x.mmap (.toMMapData t handle (.ok a) cache)).all fun r =>
        match r.1 with
        | .data (.ok ans) => !pfnIsPhysical ans.mmapOffset
        | _ => true
  | _ => true

theorem takeable_of_special {op : SysOp} (h : specialRequest x op = true) : Takeable x op := by
  unfold Takeable
  split
  · rename_i t handle a cache
    intro ans s' hs _
    simp only [specialRequest, hs, Option.all_some, Bool.and_eq_true, Bool.not_eq_true'] at h
    refine ⟨fun area ha => ?_, fun hphys => ?_⟩
    · rw [ha, Option.all_some] at h
      exact of_decide_eq_true h.1
    · rw [h.2] at hphys
      cases hphys
  · trivial

def sampleRequest : List SysOp :=
  [.entry (.createArea 4096 (.allocPages [40960]) 4096 .cached), .entry (.registerArea 4096),
    .allocHandle 7 9 4096, .entry (.toMMapData sampleTask 9 (.ok 4096) (some 8192))]

theorem maps_answered_over_sample : ∃ l x, exec sysStep sysInit sampleRequest = some (l, x) ∧
    MapsOnly x.mmap sampleTask sampleCall 4096 ∧
    ∃ s', pvrMMap x.mmap sampleTask sampleCall = some (.ok (), s') := by
  have hsome : ((exec sysStep sysInit sampleRequest).map fun r =>
      (r.2.answered 7 2147483657 4096, r.2.due 7 2147483657 4096, r.2.handles 7 9)) =
      some (some (9, 4096), some (7, 9, 4096), some 4096) := by decide +kernel
  obtain ⟨⟨l, x⟩, hexec, hlook⟩ := Option.map_eq_some_iff.mp hsome
  simp only [Prod.mk.injEq] at hlook
  obtain ⟨hans, hdue, hhandle⟩ := hlook
  have hquiet : Run sysStep (fun x op => SysProper x op ∧ x.mmap.mmapOffsetStructList = [] ∧
      specialRequest x op = true) sysInit l x := Run.of_allowed hexec (by decide +kernel)
  have hrun : Run sysStep SysProper sysInit l x := hquiet.mono fun _ _ h => h.1
  have hgood : Run sysStep (fun x op => SysProper x op ∧ Unrivalled x op ∧ Takeable x op) sysInit
      l x := by
    refine hquiet.mono fun y op h => ⟨h.1, ?_, takeable_of_special h.2.2⟩
    unfold Unrivalled
    split
    · intro ans s' _ p hp
      rw [h.2.1] at hp
      cases hp
    · trivial
  have hmaps := (maps_answered_over_runs hrun).mpr hgood l x (List.prefix_refl _) hrun
  have hsize : sampleCall.byteSize = 4096 := by decide +kernel
  have hgranted : sampleCall.Granted := ⟨.inr rfl, .inr ⟨fun _ => rfl, fun _ => rfl⟩⟩
  exact ⟨l, x, hexec, hmaps.only _ _ 9 4096 (by rw [hsize]; exact hans) hhandle,
    hmaps.maps _ _ 9 4096 (by rw [hsize]; exact hdue) hhandle hgranted⟩

/-- The handle 9 is given up while the page lives on, and stands for another page then. -/
def recycledHandle : List SysOp :=
  sampleRequest ++ [.freeHandle 7 9,
    .entry (.createArea 4608 (.allocPages [45056]) 4096 .cached), .entry (.registerArea 4608),
    .allocHandle 7 9 4608, .entry (.toMMapData sampleTask 9 (.ok 4608) (some 8704))]

/-- The first page is mapped under the handle of the second one. -/
theorem stale_request_mapped :
    ¬∀ l x, Run sysStep SysProper sysInit l x → MapsAnswered x := by
  intro hclaim
  have hsome : ((exec sysStep sysInit recycledHandle).bind fun r =>
      (pvrMMap r.2.mmap sampleTask sampleCall).map fun q =>
        (r.2.answered 7 2147483657 4096, r.2.handles 7 9,
          (r.2.mmap.offsetStructs 8192).map fun o => o.linuxMemArea,
          r.2.mmap.mmapOffsetStructList, q.2.mmapOffsetStructList)) =
      some (some (9, 4608), some 4608, some 4096, [8192, 8704], [8704]) := by decide +kernel
  obtain ⟨⟨l, x⟩, hexec, hmap⟩ := Option.bind_eq_some_iff.mp hsome
  obtain ⟨⟨r, s'⟩, hs, hq⟩ := Option.map_eq_some_iff.mp hmap
  simp only [Prod.mk.injEq] at hq
  obtain ⟨hans, hhandle, harea, hbefore, hafter⟩ := hq
  obtain ⟨o, ho, hoa⟩ := Option.map_eq_some_iff.mp harea
  have hrun : Run sysStep SysProper sysInit l x := Run.of_allowed hexec (by decide +kernel)
  have hsize : sampleCall.byteSize = 4096 := by decide +kernel
  have hmaps := (hclaim l x hrun).only sampleTask sampleCall 9 4608 (by rw [hsize]; exact hans)
    hhandle
  have hwrong := (hmaps r s' hs).1 8192 o (by rw [hbefore]; decide) ho (by rw [hafter]; decide)
  omega

end PvrServices.Mmaps
