import Mathlib.Data.List.Nodup
import PvrServices.Runs
import PvrServices.Services

set_option autoImplicit false

/-!
# The registered devices

The table of device ids and the list of the device nodes: `AllocateDeviceID` and `FreeDeviceID`,
and the calls of `pvrsrv.c` and `deviceclass.c` that register devices and remove them.
-/
namespace PvrServices.Devices
open Runs

inductive DeviceClass where
  | class3D | display | buffer
deriving DecidableEq, Repr

inductive DeviceType where
  | unknown | mbx1 | mbx1Lite | m24va | mvda2 | mved1 | msvdx | sgx | vgx | ext
deriving DecidableEq, Repr

inductive DeviceError where
  | pvrsrv (e : PvrsrvError)
  | deviceRegisterFailed
deriving DecidableEq, Repr

structure SysDeviceId where
  uiID : ℕ
  bInUse : Bool
deriving DecidableEq, Repr

/-- A device node, which is that of an external device or of the SGX; the count of the opens is that
    of the info behind `pvDevice`, and only nodes of external devices have one. -/
structure DeviceNode where
  ui32DeviceIndex : ℕ
  eDeviceClass : DeviceClass
  external : Bool
  ui32RefCount : ℕ
deriving DecidableEq, Repr

def DeviceNode.eDeviceType (n : DeviceNode) : DeviceType := if n.external then .ext else .sgx

/-- The table, the list and the number of the nodes that are allocated. -/
structure SysData where
  sDeviceID : List SysDeviceId
  psDeviceNodeList : List DeviceNode
  nodes : ℕ

def allocateDeviceID : List SysDeviceId → Option (ℕ × List SysDeviceId)
  | [] => none
  | d :: ds =>
    if !d.bInUse then some (d.uiID, { d with bInUse := true } :: ds)
    else (allocateDeviceID ds).map fun r => (r.1, d :: r.2)

def freeDeviceID : List SysDeviceId → ℕ → Option (List SysDeviceId)
  | [], _ => none
  | d :: ds, i =>
    if d.uiID = i ∧ d.bInUse = true then some ({ d with bInUse := false } :: ds)
    else (freeDeviceID ds i).map (d :: ·)

/-- A new node; its memory was cleared, so without an id its index is 0. -/
def SysData.link (s : SysData) (c : DeviceClass) (external : Bool) (r : ℕ × List SysDeviceId) :
    Except DeviceError ℕ × SysData :=
  (.ok r.1, ⟨r.2, ⟨r.1, c, external, 0⟩ :: s.psDeviceNodeList, s.nodes + 1⟩)

/-- The class is the one that `SGXRegisterDevice` sets. What `AllocateDeviceID` answers is not
    looked at. -/
def pvrsrvRegisterDevice (s : SysData) (granted registered : Bool) :
    Except DeviceError ℕ × SysData :=
  if !granted then (.error (.pvrsrv .errorOutOfMemory), s)
  else if !registered then (.error .deviceRegisterFailed, s)
  else s.link .class3D false ((allocateDeviceID s.sDeviceID).getD (0, s.sDeviceID))

/-- `granted` is that the info, its function table and the node are allocated. Without an id the
    error exit frees the first two, but not the node. -/
def registerExternal (s : SysData) (c : DeviceClass) (granted : Bool) :
    Except DeviceError ℕ × SysData :=
  if !granted then (.error (.pvrsrv .errorOutOfMemory), s)
  else
    match allocateDeviceID s.sDeviceID with
    | none => (.error (.pvrsrv .errorOutOfMemory), { s with nodes := s.nodes + 1 })
    | some r => s.link c true r

def pvrsrvRegisterDCDeviceKM (s : SysData) (granted : Bool) := registerExternal s .display granted

def pvrsrvRegisterBCDeviceKM (s : SysData) (granted : Bool) := registerExternal s .buffer granted

/-- The first node that the walk stops at leaves the list, and its id is freed. -/
def SysData.unlink (s : SysData) (found : DeviceNode → Bool) (i : ℕ) : SysData :=
  ⟨(freeDeviceID s.sDeviceID i).getD s.sDeviceID, s.psDeviceNodeList.eraseP found, s.nodes - 1⟩

def hasClass (c : DeviceClass) (i : ℕ) (n : DeviceNode) : Bool :=
  n.eDeviceClass = c && n.ui32DeviceIndex = i

def hasIndex (i : ℕ) (n : DeviceNode) : Bool := n.ui32DeviceIndex = i

def removeExternal (s : SysData) (c : DeviceClass) (i : ℕ) : Except DeviceError ℕ × SysData :=
  match s.psDeviceNodeList.find? (hasClass c i) with
  | none => (.error (.pvrsrv .errorGeneric), s)
  | some n =>
    if n.ui32RefCount = 0 then (.ok i, s.unlink (hasClass c i) i)
    else (.error (.pvrsrv .errorGeneric), s)

def pvrsrvRemoveDCDeviceKM (s : SysData) (i : ℕ) := removeExternal s .display i

def pvrsrvRemoveBCDeviceKM (s : SysData) (i : ℕ) := removeExternal s .buffer i

/-- Nothing comes back for an external device, which has no resource context to walk. -/
def pvrsrvDeinitialiseDevice (s : SysData) (i : ℕ) (power deInit : Except PvrsrvError Unit) :
    Option (Except DeviceError ℕ × SysData) :=
  match s.psDeviceNodeList.find? (hasIndex i), power, deInit with
  | none, _, _ => some (.error (.pvrsrv .errorGeneric), s)
  | some _, .error e, _ => some (.error (.pvrsrv e), s)
  | some n, .ok _, deInit =>
    if n.external then none
    else
      match deInit with
      | .error e => some (.error (.pvrsrv e), s)
      | .ok _ => some (.ok i, s.unlink (hasIndex i) i)

def hasType (t : DeviceType) (n : DeviceNode) : Bool := n.eDeviceType = t

/-- The index counts only where no type is asked for. -/
def pvrsrvAcquireDeviceDataKM (s : SysData) (i : ℕ) (t : DeviceType) : Option DeviceNode :=
  s.psDeviceNodeList.find? (if t = .unknown then hasIndex i else hasType t)

def pvrsrvEnumerateDevicesKM (s : SysData) : List ℕ :=
  (s.psDeviceNodeList.filter fun n => !n.external).map DeviceNode.ui32DeviceIndex

def pvrsrvEnumerateDCKM (s : SysData) (c : DeviceClass) : List ℕ :=
  (s.psDeviceNodeList.filter fun n => n.eDeviceClass = c && n.external).map
    DeviceNode.ui32DeviceIndex

def pvrsrvMaxDevices : ℕ := 16

def sysDeviceCount : ℕ := 15

def sysInitialise : SysData := ⟨(List.range sysDeviceCount).map fun i => ⟨i, false⟩, [], 0⟩

inductive Op where
  | registerDevice (granted registered : Bool)
  | deinitialiseDevice (i : ℕ) (power deInit : Except PvrsrvError Unit)
  | registerDC (granted : Bool)
  | removeDC (i : ℕ)
  | registerBC (granted : Bool)
  | removeBC (i : ℕ)
  | opens (counts : DeviceNode → ℕ)

/-- Opens and closes of the devices may change the counts in any way. -/
def step (s : SysData) : Op → Option (Except DeviceError ℕ × SysData)
  | .registerDevice granted registered => some (pvrsrvRegisterDevice s granted registered)
  | .deinitialiseDevice i power deInit => pvrsrvDeinitialiseDevice s i power deInit
  | .registerDC granted => some (pvrsrvRegisterDCDeviceKM s granted)
  | .removeDC i => some (pvrsrvRemoveDCDeviceKM s i)
  | .registerBC granted => some (pvrsrvRegisterBCDeviceKM s granted)
  | .removeBC i => some (pvrsrvRemoveBCDeviceKM s i)
  | .opens counts =>
    let list := s.psDeviceNodeList.map fun n => { n with ui32RefCount := counts n }
    some (.ok 0, { s with psDeviceNodeList := list })

def inUse (ds : List SysDeviceId) : List ℕ := (ds.filter SysDeviceId.bInUse).map SysDeviceId.uiID

def SysData.indices (s : SysData) : List ℕ := s.psDeviceNodeList.map DeviceNode.ui32DeviceIndex

/-- The nodes on the list have the ids that are in use, each its own. -/
structure Registered (s : SysData) : Prop where
  table : s.sDeviceID.map SysDeviceId.uiID = List.range sysDeviceCount
  taken : s.indices.Perm (inUse s.sDeviceID)

/-- A device of `pvrsrv.c` is only registered while there is an id. -/
def IdFree (s : SysData) : Op → Prop
  | .registerDevice granted registered =>
    granted = true → registered = true → (allocateDeviceID s.sDeviceID).isSome = true
  | _ => True

instance (s : SysData) (op : Op) : Decidable (IdFree s op) :=
  match op with
  | .registerDevice _ _ => inferInstanceAs (Decidable (_ → _ → _))
  | .deinitialiseDevice _ _ _ | .registerDC _ | .removeDC _ | .registerBC _ | .removeBC _
  | .opens _ => inferInstanceAs (Decidable True)

variable {s s' : SysData} {ds ds' : List SysDeviceId} {i : ℕ} {op : Op} {c : DeviceClass}
  {granted : Bool} {r : Except DeviceError ℕ} {l : List (Op × Except DeviceError ℕ)}
  {found : DeviceNode → Bool} {n : DeviceNode}

theorem allocateDeviceID_some (h : allocateDeviceID ds = some (i, ds')) :
    (inUse ds').Perm (i :: inUse ds) ∧ ds'.map SysDeviceId.uiID = ds.map SysDeviceId.uiID := by
  induction ds generalizing ds' with
  | nil => cases h
  | cons d ds ih =>
    unfold allocateDeviceID at h
    split at h
    · rename_i hfree
      cases h
      have hf : d.bInUse = false := by simpa using hfree
      simp [inUse, hf]
    · rename_i hused
      obtain ⟨⟨j, es⟩, hrest, heq⟩ := Option.map_eq_some_iff.mp h
      rw [Prod.mk.injEq] at heq
      obtain ⟨rfl, rfl⟩ := heq
      have hu : d.bInUse = true := by simpa using hused
      obtain ⟨hperm, hids⟩ := ih hrest
      constructor
      · simp only [inUse, List.filter_cons_of_pos hu, List.map_cons]
        exact (hperm.cons d.uiID).trans (.swap ..)
      · rw [List.map_cons, List.map_cons, hids]

theorem freeDeviceID_perm (h : i ∈ inUse ds) : ∃ ds', freeDeviceID ds i = some ds' ∧
    (inUse ds).Perm (i :: inUse ds') ∧ ds'.map SysDeviceId.uiID = ds.map SysDeviceId.uiID := by
  induction ds with
  | nil => cases h
  | cons d ds ih =>
    unfold freeDeviceID
    split
    · rename_i hfound
      exact ⟨_, rfl, by simp [inUse, hfound.1, hfound.2], rfl⟩
    · rename_i hnot
      by_cases hu : d.bInUse = true
      · have hcons : inUse (d :: ds) = d.uiID :: inUse ds := by simp [inUse, hu]
        rw [hcons, List.mem_cons] at h
        obtain ⟨es, hfree, hperm, hids⟩ := ih (h.resolve_left fun he => hnot ⟨he.symm, hu⟩)
        refine ⟨d :: es, by rw [hfree]; rfl, ?_, by rw [List.map_cons, List.map_cons, hids]⟩
        rw [hcons, show inUse (d :: es) = d.uiID :: inUse es by simp [inUse, hu]]
        exact (hperm.cons d.uiID).trans (.swap ..)
      · have hcons (es : List SysDeviceId) : inUse (d :: es) = inUse es := by simp [inUse, hu]
        rw [hcons] at h
        obtain ⟨es, hfree, hperm, hids⟩ := ih h
        refine ⟨d :: es, by rw [hfree]; rfl, ?_, by rw [List.map_cons, List.map_cons, hids]⟩
        rw [hcons, hcons]
        exact hperm

theorem Registered.link {ds' : List SysDeviceId} (h : Registered s)
    (ha : allocateDeviceID s.sDeviceID = some (i, ds')) (external : Bool) :
    Registered (s.link c external (i, ds')).2 := by
  obtain ⟨hperm, hids⟩ := allocateDeviceID_some ha
  exact ⟨hids.trans h.table, (h.taken.cons i).trans hperm.symm⟩

theorem Registered.unlink (h : Registered s) (hfind : s.psDeviceNodeList.find? found = some n)
    (hi : n.ui32DeviceIndex = i) : Registered (s.unlink found i) := by
  obtain ⟨hn, pre, post, hlist, hpre⟩ := List.find?_eq_some_iff_append.mp hfind
  have herase : s.psDeviceNodeList.eraseP found = pre ++ post := by
    rw [hlist, List.eraseP_append_right _ (by simpa using hpre), List.eraseP_cons_of_pos hn]
  have hindices : s.indices.Perm (i :: (pre ++ post).map DeviceNode.ui32DeviceIndex) := by
    unfold SysData.indices
    rw [hlist, ← hi, ← List.map_cons]
    exact List.perm_middle.map _
  have hmem : i ∈ inUse s.sDeviceID :=
    h.taken.mem_iff.mp (hindices.mem_iff.mpr List.mem_cons_self)
  obtain ⟨ds', hfree, hperm, hids⟩ := freeDeviceID_perm hmem
  constructor
  · unfold SysData.unlink
    rw [hfree]
    exact hids.trans h.table
  · unfold SysData.unlink SysData.indices
    rw [hfree, herase]
    exact (hindices.symm.trans (h.taken.trans hperm)).cons_inv

theorem Registered.registerExternal (h : Registered s) (c : DeviceClass) (granted : Bool) :
    Registered (registerExternal s c granted).2 := by
  unfold Devices.registerExternal
  split
  · exact h
  · split
    · exact ⟨h.table, h.taken⟩
    · rename_i r hr
      exact h.link hr true

theorem Registered.removeExternal (h : Registered s) (c : DeviceClass) (i : ℕ) :
    Registered (removeExternal s c i).2 := by
  unfold Devices.removeExternal
  split
  · exact h
  · rename_i n hfind
    split
    · have hn := List.find?_some hfind
      exact h.unlink hfind (by simp [hasClass] at hn; exact hn.2)
    · exact h

/-- A node without an id makes one node more than there are ids in use. -/
theorem Registered.registerDevice_iff (h : Registered s) (granted registered : Bool) :
    Registered (pvrsrvRegisterDevice s granted registered).2 ↔
      IdFree s (.registerDevice granted registered) := by
  unfold pvrsrvRegisterDevice
  cases granted with
  | false => simp [IdFree, h]
  | true =>
    cases registered with
    | false => simp [IdFree, h]
    | true =>
      cases ha : allocateDeviceID s.sDeviceID with
      | none =>
        simp only [IdFree, ha, Option.isSome_none, Bool.false_eq_true, imp_false, not_true_eq_false,
          iff_false]
        intro hr
        have hlen := hr.taken.length_eq
        have hold := h.taken.length_eq
        simp [SysData.link, SysData.indices] at hlen hold
        omega
      | some r => simpa [IdFree, ha] using h.link ha false

theorem Registered.deinitialise {power deInit : Except PvrsrvError Unit} (h : Registered s)
    (hs : pvrsrvDeinitialiseDevice s i power deInit = some (r, s')) : Registered s' := by
  unfold pvrsrvDeinitialiseDevice at hs
  split at hs
  · cases hs
    exact h
  · cases hs
    exact h
  · rename_i n _ _ hfind
    split at hs
    · cases hs
    · split at hs
      · cases hs
        exact h
      · cases hs
        have hn := List.find?_some hfind
        exact h.unlink hfind (by simpa [hasIndex] using hn)

theorem Registered.step_iff (h : Registered s) (hs : step s op = some (r, s')) :
    Registered s' ↔ IdFree s op := by
  cases op with
  | registerDevice granted registered =>
    have heq := Option.some.inj hs
    rw [← h.registerDevice_iff, heq]
  | deinitialiseDevice i power deInit => exact iff_of_true (h.deinitialise hs) trivial
  | registerDC granted | registerBC granted =>
    rw [← (Prod.mk.inj (Option.some.inj hs)).2]
    exact iff_of_true (h.registerExternal _ granted) trivial
  | removeDC i | removeBC i =>
    rw [← (Prod.mk.inj (Option.some.inj hs)).2]
    exact iff_of_true (h.removeExternal _ i) trivial
  | opens counts =>
    cases hs
    refine iff_of_true ⟨h.table, ?_⟩ trivial
    simpa [SysData.indices, Function.comp_def] using h.taken

theorem registered_init : Registered sysInitialise := ⟨by decide, by decide⟩

/-- Over a run the nodes have the ids in use, each its own, in every state on the way exactly when no
    device of `pvrsrv.c` was registered without an id. -/
theorem device_ids_over_runs (h : Run step (fun _ _ => True) sysInitialise l s) :
    (∀ m t, m <+: l → Run step (fun _ _ => True) sysInitialise m t → Registered t) ↔
      Run step IdFree sysInitialise l s := by
  apply h.good_iff
    (Q := fun l => ∀ m t, m <+: l → Run step (fun _ _ => True) sysInitialise m t → Registered t)
  · intro m t hm hrun
    rw [List.prefix_nil.mp hm] at hrun
    rw [← hrun.of_nil]
    exact registered_init
  · intro l t op r u hrun hs
    constructor
    · intro hall
      have hu := hall _ u (List.prefix_refl _) (.snoc hrun trivial hs)
      have ht := hall l t (List.prefix_append _ _) hrun
      exact ⟨fun m v hm => hall m v (hm.trans (List.prefix_append _ _)), (ht.step_iff hs).mp hu⟩
    · rintro ⟨hall, hfree⟩ m v hm hv
      rcases List.prefix_concat_iff.mp hm with rfl | hm
      · rw [hv.unique (.snoc hrun trivial hs)]
        exact ((hall l t (List.prefix_refl _) hrun).step_iff hs).mpr hfree
      · exact hall m v hm hv

theorem registered_over_run (h : Run step IdFree sysInitialise l s) : Registered s :=
  h.invariant Registered registered_init fun _ _ _ _ ht hfree hs => (ht.step_iff hs).mpr hfree

theorem Registered.apart (h : Registered s) : s.indices.Nodup := by
  have hids : (s.sDeviceID.map SysDeviceId.uiID).Nodup := h.table ▸ List.nodup_range
  exact h.taken.nodup_iff.mpr (hids.sublist (List.filter_sublist.map _))

theorem Registered.find? (h : Registered s) (hn : n ∈ s.psDeviceNodeList) (hfound : found n = true)
    (hindex : ∀ m, found m = true → m.ui32DeviceIndex = n.ui32DeviceIndex) :
    s.psDeviceNodeList.find? found = some n := by
  cases hf : s.psDeviceNodeList.find? found with
  | none => exact absurd hfound (List.find?_eq_none.mp hf n hn)
  | some m =>
    have hm := hindex m (List.find?_some hf)
    rw [List.inj_on_of_nodup_map h.apart (List.mem_of_find?_eq_some hf) hn hm]

theorem Registered.enumerated (h : Registered s) (p : DeviceNode → Bool) :
    ((s.psDeviceNodeList.filter p).map DeviceNode.ui32DeviceIndex).Nodup ∧
      ((s.psDeviceNodeList.filter p).map DeviceNode.ui32DeviceIndex).length ≤ pvrsrvMaxDevices := by
  have hsub : ((s.psDeviceNodeList.filter p).map DeviceNode.ui32DeviceIndex).Sublist s.indices :=
    List.filter_sublist.map _
  refine ⟨h.apart.sublist hsub, ?_⟩
  have hused : (inUse s.sDeviceID).length ≤ (s.sDeviceID.map SysDeviceId.uiID).length :=
    (List.filter_sublist.map SysDeviceId.uiID).length_le
  rw [← h.taken.length_eq, h.table, List.length_range] at hused
  exact Nat.le_trans hsub.length_le (Nat.le_trans hused (by decide))

/-- The walks that look for a listed device stop at its own node, and what is enumerated fits in
    the arrays of the callers. -/
theorem devices_found_over_runs (h : Run step IdFree sysInitialise l s) :
    (∀ n ∈ s.psDeviceNodeList, pvrsrvAcquireDeviceDataKM s n.ui32DeviceIndex .unknown = some n ∧
      s.psDeviceNodeList.find? (hasClass n.eDeviceClass n.ui32DeviceIndex) = some n) ∧
    (pvrsrvEnumerateDevicesKM s).Nodup ∧ (pvrsrvEnumerateDevicesKM s).length ≤ pvrsrvMaxDevices ∧
    ∀ c, (pvrsrvEnumerateDCKM s c).Nodup ∧
      (pvrsrvEnumerateDCKM s c).length ≤ pvrsrvMaxDevices := by
  have R := registered_over_run h
  have hdevices := R.enumerated fun n => !n.external
  refine ⟨fun n hn => ⟨R.find? hn (by simp [hasIndex]) ?_, R.find? hn (by simp [hasClass]) ?_⟩,
    hdevices.1, hdevices.2, fun c => R.enumerated _⟩
  · simp [hasIndex]
  · simp [hasClass]

/-- The registrations that leave a node behind. -/
def leaks : Op × Except DeviceError ℕ → Bool
  | (.registerDC true, .error _) | (.registerBC true, .error _) => true
  | _ => false

theorem unlink_nodes {k : ℕ} (h : s.psDeviceNodeList.find? found = some n)
    (hk : s.nodes = s.psDeviceNodeList.length + k) :
    (s.unlink found i).nodes = (s.unlink found i).psDeviceNodeList.length + k := by
  have hmem := List.mem_of_find?_eq_some h
  have hpos := List.length_pos_of_mem hmem
  unfold SysData.unlink
  dsimp only
  rw [List.length_eraseP_of_mem hmem (List.find?_some h)]
  omega

theorem nodes_step {k : ℕ} (hs : step s op = some (r, s'))
    (hk : s.nodes = s.psDeviceNodeList.length + k) :
    s'.nodes = s'.psDeviceNodeList.length + (k + if leaks (op, r) then 1 else 0) := by
  have hlink (c : DeviceClass) (external : Bool) (a : ℕ × List SysDeviceId) :
      (s.link c external a).2.nodes = (s.link c external a).2.psDeviceNodeList.length + k := by
    simp only [SysData.link, List.length_cons]
    omega
  cases op with
  | registerDevice granted registered =>
    cases granted <;> cases registered <;> cases hs <;> first | exact hk | exact hlink _ _ _
  | registerDC granted | registerBC granted =>
    cases granted with
    | false =>
      cases hs
      exact hk
    | true =>
      cases ha : allocateDeviceID s.sDeviceID with
      | none =>
        simp [step, pvrsrvRegisterDCDeviceKM, pvrsrvRegisterBCDeviceKM, registerExternal, ha] at hs
        simp [← hs.1, ← hs.2, leaks]
        omega
      | some a =>
        simp [step, pvrsrvRegisterDCDeviceKM, pvrsrvRegisterBCDeviceKM, registerExternal, ha] at hs
        cases hs
        exact hlink _ _ _
  | removeDC i | removeBC i =>
    simp only [step, pvrsrvRemoveDCDeviceKM, pvrsrvRemoveBCDeviceKM, removeExternal] at hs
    split at hs
    · cases hs
      exact hk
    · split at hs
      · cases hs
        exact unlink_nodes ‹_› hk
      · cases hs
        exact hk
  | deinitialiseDevice i power deInit =>
    simp only [step, pvrsrvDeinitialiseDevice] at hs
    repeat' split at hs
    all_goals cases hs
    all_goals first | exact hk | exact unlink_nodes ‹_› hk
  | opens counts =>
    cases hs
    simpa [leaks] using hk

/-- Whatever is called, the nodes that are allocated are the listed ones and one for each
    registration of an external device that found no id. -/
theorem nodes_leaked_over_runs (h : Run step (fun _ _ => True) sysInitialise l s) :
    s.nodes = s.psDeviceNodeList.length + l.countP leaks := by
  induction h with
  | refl => rfl
  | @snoc l t u op r _ _ hs ih =>
    rw [List.countP_append, List.countP_singleton, nodes_step hs ih]

def sampleOps : List Op :=
  [.registerDevice true true, .registerDC true, .opens fun _ => 0, .removeDC 1, .registerBC true,
    .deinitialiseDevice 0 (.ok ()) (.ok ())] ++ List.replicate 16 (.registerDC true)

theorem device_ids_over_sample : ∃ l s, exec step sysInitialise sampleOps = some (l, s) ∧
    ((∀ m t, m <+: l → Run step (fun _ _ => True) sysInitialise m t → Registered t) ↔
      Run step IdFree sysInitialise l s) := by
  obtain ⟨⟨l, s⟩, h⟩ := Option.isSome_iff_exists.mp
    (show (exec step sysInitialise sampleOps).isSome = true by decide +kernel)
  exact ⟨l, s, h, device_ids_over_runs (Run.of_exec h fun _ _ _ => trivial)⟩

theorem devices_found_over_sample : ∃ l s, exec step sysInitialise sampleOps = some (l, s) ∧
    (pvrsrvEnumerateDCKM s .display).Nodup := by
  obtain ⟨⟨l, s⟩, h⟩ := Option.isSome_iff_exists.mp
    (show (exec step sysInitialise sampleOps).isSome = true by decide +kernel)
  exact ⟨l, s, h, ((devices_found_over_runs (Run.of_allowed h (by decide +kernel))).2.2.2 _).1⟩

theorem nodes_leaked_over_sample : ∃ l s, exec step sysInitialise sampleOps = some (l, s) ∧
    s.nodes = s.psDeviceNodeList.length + l.countP leaks ∧ l.countP leaks = 2 := by
  obtain ⟨⟨l, s⟩, h, hl⟩ := Option.map_eq_some_iff.mp
    (show (exec step sysInitialise sampleOps).map (fun y => y.1.countP leaks) = some 2 by
      decide +kernel)
  exact ⟨l, s, h, nodes_leaked_over_runs (Run.of_exec h fun _ _ _ => trivial), hl⟩

end PvrServices.Devices
