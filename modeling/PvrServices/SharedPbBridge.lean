import Mathlib.Data.List.Nodup
import PvrServices.HandleBase
import PvrServices.SharedPbRuns

set_option autoImplicit false

/-!
# The bridge to the shared parameter buffer

`SGXAddSharedPBDescBW` of `bridged_sgx_bridge.c` over the handles of a process. Of its handles a
process has here those to the device and to memory.
-/
namespace PvrServices.SharedPb
open Handles Resman Words

def pvrsrvBridgeSgxSharedPBDescMaxSubMemInfos : ℕ := 10

/-- The handles of a process: what each one stands for, and as what. -/
abbrev HandleTable := ℕ → Option (HandleType × ℕ)

def lookupHandle (t : HandleTable) (h : ℕ) (type : HandleType) : Except PvrsrvError ℕ :=
  match t h with
  | none => .error .errorGeneric
  | some (u, d) => if u = type then .ok d else .error .errorGeneric

def releaseHandle (t : HandleTable) (h : ℕ) (type : HandleType) : HandleTable :=
  match lookupHandle t h type with
  | .error _ => t
  | .ok _ => Function.update t h none

/-- `struct PVRSRV_BRIDGE_IN_SGXADDSHAREDPBDESC` with the words that can be read at
    `phKernelMemInfoHandles`, and what is granted on the way: the batch, the access check, the two
    arrays, what `SGXAddSharedPBDescKM` asks for, and the handle of the descriptor. -/
structure AddIn where
  hDevCookie : ℕ
  hSharedPBDescKernelMemInfo : ℕ
  hHWPBDescKernelMemInfo : ℕ
  hBlockKernelMemInfo : ℕ
  ui32TotalPBSize : ℕ
  phKernelMemInfoHandles : List ℕ
  ui32KernelMemInfoHandlesCount : UInt32
  newBatch : Bool
  accessOK : Bool
  handlesMem : Bool
  infosMem : Bool
  stubMem : Option ℕ
  subMem : Bool
  resItem : Option ℕ
  hSharedPBDesc : Option ℕ
deriving DecidableEq, Repr

def AddIn.count (q : AddIn) : ℕ := q.ui32KernelMemInfoHandlesCount.toNat

def AddIn.size (q : AddIn) : ℕ := u32 (q.count * 4)

/-- The array of handles once it is copied: as many words as its size has room for. -/
def AddIn.handles (q : AddIn) : List ℕ := q.phKernelMemInfoHandles.take (q.size / 4)

def lookupInfos (t : HandleTable) : ℕ → List ℕ → Option (Except PvrsrvError (List ℕ))
  | 0, _ => some (.ok [])
  | _ + 1, [] => none
  | n + 1, h :: hs =>
    match lookupHandle t h .memInfo with
    | .error e => some (.error e)
    | .ok m => (lookupInfos t n hs).map fun r => r.map fun ms => m :: ms

/-- What the caller passes on: three handles and what they stand for. -/
structure Looked where
  psSharedPBDescKernelMemInfo : ℕ
  psHWPBDescKernelMemInfo : ℕ
  psBlockKernelMemInfo : ℕ
deriving DecidableEq, Repr

def lookupFront (t : HandleTable) (q : AddIn) : Except PvrsrvError Looked := do
  let _ ← lookupHandle t q.hDevCookie .devNode
  let shared ← lookupHandle t q.hSharedPBDescKernelMemInfo .sharedSysMemInfo
  let hwpb ← lookupHandle t q.hHWPBDescKernelMemInfo .memInfo
  let block ← lookupHandle t q.hBlockKernelMemInfo .sharedSysMemInfo
  .ok ⟨shared, hwpb, block⟩

def releaseAll (t : HandleTable) (q : AddIn) : HandleTable :=
  let t := releaseHandle t q.hSharedPBDescKernelMemInfo .sharedSysMemInfo
  let t := releaseHandle t q.hHWPBDescKernelMemInfo .memInfo
  let t := releaseHandle t q.hBlockKernelMemInfo .sharedSysMemInfo
  (q.handles.take q.count).foldl (fun t h => releaseHandle t h .memInfo) t

def AddIn.call (q : AddIn) (f : Looked) (infos : List ℕ) : AddCall :=
  ⟨f.psSharedPBDescKernelMemInfo, f.psHWPBDescKernelMemInfo, f.psBlockKernelMemInfo,
    q.ui32TotalPBSize, infos, q.stubMem, q.subMem, q.resItem⟩

structure AddSys where
  sys : PbSys
  tables : ℕ → HandleTable

def AddSys.setTable (x : AddSys) (c : ℕ) (t : HandleTable) : AddSys :=
  { x with tables := Function.update x.tables c t }

def AddSys.setHandle (x : AddSys) (c h : ℕ) (o : Option (HandleType × ℕ)) : AddSys :=
  x.setTable c (Function.update (x.tables c) h o)

/-- The answer of the handler: what it returns, the error code and the handle that it writes, and
    the size of the copy of the handles if it came to that. -/
structure AddOut where
  rejected : Bool
  hSharedPBDesc : Option ℕ
  copySize : Option ℕ
deriving DecidableEq, Repr

def addReleased (x : AddSys) (c : ℕ) (q : AddIn) (call : AddCall) : Option (AddOut × AddSys) :=
  (sgxAddSharedPBDescKM x.sys.km c call).map fun r =>
    let y : AddSys := { x with
      sys := { x.sys with km := r.2, handles := x.sys.release call.infos } }
    match r.1 with
    | .error _ => (⟨true, none, some q.size⟩, y)
    | .ok p =>
      match q.hSharedPBDesc with
      -- the commit of the batch does not report that the handle could not be allocated
      | none => (⟨false, none, some q.size⟩, y)
      | some h => (⟨false, some h, some q.size⟩, y.setHandle c h (some (.sharedPbDesc, p)))

def addCopied (x : AddSys) (c : ℕ) (q : AddIn) (f : Looked) : Option (AddOut × AddSys) :=
  if q.size / 4 ≤ q.phKernelMemInfoHandles.length ∧ q.infosMem = true then
    match lookupInfos (x.tables c) q.count q.handles with
    | none => none
    | some (.error _) => some (⟨true, none, some q.size⟩, x)
    | some (.ok infos) =>
      addReleased (x.setTable c (releaseAll (x.tables c) q)) c q (q.call f infos)
  else some (⟨true, none, some q.size⟩, x)

def sgxAddSharedPBDescBW (x : AddSys) (c : ℕ) (q : AddIn) : Option (AddOut × AddSys) :=
  match q.newBatch, lookupFront (x.tables c) q, q.accessOK && q.handlesMem with
  | true, .ok f, true => addCopied x c q f
  | _, _, _ => some (⟨true, none, none⟩, x)

inductive AddOp where
  | pb (op : PbOp)
  | acquire (c h : ℕ)
  | alloc (c : ℕ) (shared : Bool) (m : ℕ) (resItem : Option ℕ) (h : Option ℕ)
  | free (c h : ℕ)
  | add (c : ℕ) (q : AddIn)

inductive AddReply where
  | pb (r : PbReply)
  | added (r : AddOut)
  | refused
  | done

def infoKind (shared : Bool) : MemKind := if shared then .allocSharedSysMem else .allocDeviceMem

def infoType (shared : Bool) : HandleType := if shared then .sharedSysMemInfo else .memInfo

def tablesAfter (tables : ℕ → HandleTable) : PbOp → ℕ → HandleTable
  | .exit c => Function.update tables c fun _ => none
  | _ => tables

def addStep (x : AddSys) : AddOp → Option (AddReply × AddSys)
  | .pb op => (pbStep x.sys op).map fun r => (.pb r.1, ⟨r.2, tablesAfter x.tables op⟩)
  | .acquire c h => some (.done, x.setHandle c h (some (.devNode, 0)))
  | .alloc c shared m resItem h =>
    (pbStep x.sys (.alloc c (infoKind shared) ⟨false, false⟩ m resItem)).map fun r =>
    let y : AddSys := ⟨r.2, x.tables⟩
    match r.1, h with
    | .allocated (.ok m), some h => (.pb r.1, y.setHandle c h (some (infoType shared, m)))
    | _, _ => (.pb r.1, y)
  | .free c h =>
    match x.tables c h with
    | some (.memInfo, m) | some (.sharedSysMemInfo, m) =>
      (pbStep x.sys (.free m)).map fun r =>
        let y : AddSys := ⟨r.2, x.tables⟩
        match r.1 with
        | .refused => (.pb r.1, y)
        | _ => (.pb r.1, y.setHandle c h none)
    | _ => some (.refused, x)
  | .add c q => (sgxAddSharedPBDescBW x c q).map fun r => (.added r.1, r.2)

def addInit : AddSys := ⟨pbInit, fun _ _ => none⟩

variable {t : HandleTable} {x x' : AddSys} {c h m : ℕ} {q : AddIn} {f : Looked} {infos : List ℕ}

theorem lookupHandle_ok {type : HandleType} {d : ℕ} :
    lookupHandle t h type = .ok d ↔ t h = some (type, d) := by
  unfold lookupHandle
  cases ht : t h with
  | none => simp
  | some e =>
    obtain ⟨u, d'⟩ := e
    by_cases hu : u = type
    · simp [hu]
    · simp [hu]

theorem lookupHandle_isOk {type : HandleType} (h : ℕ) :
    (lookupHandle t h type).isOk = true ↔ ∃ d, t h = some (type, d) := by
  cases hlook : lookupHandle t h type with
  | error e =>
    refine ⟨fun hok => ?_, fun hsome => ?_⟩
    · cases hok
    · obtain ⟨d, hd⟩ := hsome
      rw [lookupHandle_ok.mpr hd] at hlook
      cases hlook
  | ok d => exact ⟨fun _ => ⟨d, lookupHandle_ok.mp hlook⟩, fun _ => rfl⟩

theorem lookupFront_ok (hlook : lookupFront t q = .ok f) :
    t q.hSharedPBDescKernelMemInfo = some (.sharedSysMemInfo, f.psSharedPBDescKernelMemInfo) ∧
    t q.hHWPBDescKernelMemInfo = some (.memInfo, f.psHWPBDescKernelMemInfo) ∧
    t q.hBlockKernelMemInfo = some (.sharedSysMemInfo, f.psBlockKernelMemInfo) := by
  unfold lookupFront at hlook
  cases hdev : lookupHandle t q.hDevCookie .devNode with
  | error e =>
    rw [hdev] at hlook
    cases hlook
  | ok d =>
    cases hshared : lookupHandle t q.hSharedPBDescKernelMemInfo .sharedSysMemInfo with
    | error e =>
      rw [hdev, hshared] at hlook
      cases hlook
    | ok shared =>
      cases hhwpb : lookupHandle t q.hHWPBDescKernelMemInfo .memInfo with
      | error e =>
        rw [hdev, hshared, hhwpb] at hlook
        cases hlook
      | ok hwpb =>
        cases hblock : lookupHandle t q.hBlockKernelMemInfo .sharedSysMemInfo with
        | error e =>
          rw [hdev, hshared, hhwpb, hblock] at hlook
          cases hlook
        | ok block =>
          rw [hdev, hshared, hhwpb, hblock] at hlook
          rw [← Except.ok.inj hlook]
          exact ⟨lookupHandle_ok.mp hshared, lookupHandle_ok.mp hhwpb, lookupHandle_ok.mp hblock⟩

theorem lookupInfos_ok {hs : List ℕ}
    (hall : (hs.all fun h => (lookupHandle t h .memInfo).isOk) = true) :
    ∃ ms, lookupInfos t hs.length hs = some (.ok ms) ∧
      List.Forall₂ (fun h m => t h = some (.memInfo, m)) hs ms := by
  induction hs with
  | nil => exact ⟨[], rfl, .nil⟩
  | cons h hs ih =>
    rw [List.all_cons, Bool.and_eq_true] at hall
    obtain ⟨m, hm⟩ := (lookupHandle_isOk h).mp hall.1
    obtain ⟨ms, hms, hrest⟩ := ih hall.2
    refine ⟨m :: ms, ?_, .cons hm hrest⟩
    simp [lookupInfos, lookupHandle_ok.mpr hm, hms, Except.map]

theorem lookupInfos_error {hs : List ℕ}
    (hall : (hs.all fun h => (lookupHandle t h .memInfo).isOk) = false) :
    ∃ e, lookupInfos t hs.length hs = some (.error e) := by
  induction hs with
  | nil => cases hall
  | cons h hs ih =>
    cases hlook : lookupHandle t h .memInfo with
    | error e => exact ⟨e, by simp [lookupInfos, hlook]⟩
    | ok m =>
      rw [List.all_cons, hlook] at hall
      obtain ⟨e, he⟩ := ih hall
      exact ⟨e, by simp [lookupInfos, hlook, he, Except.map]⟩

def AddIn.named (q : AddIn) : List ℕ :=
  q.phKernelMemInfoHandles.take q.count ++ [q.hSharedPBDescKernelMemInfo, q.hHWPBDescKernelMemInfo,
    q.hBlockKernelMemInfo]

structure Named (t : HandleTable) (q : AddIn) (f : Looked) (infos : List ℕ) : Prop where
  shared : t q.hSharedPBDescKernelMemInfo =
    some (.sharedSysMemInfo, f.psSharedPBDescKernelMemInfo)
  hwpb : t q.hHWPBDescKernelMemInfo = some (.memInfo, f.psHWPBDescKernelMemInfo)
  block : t q.hBlockKernelMemInfo = some (.sharedSysMemInfo, f.psBlockKernelMemInfo)
  infos : List.Forall₂ (fun h m => t h = some (.memInfo, m))
    (q.phKernelMemInfoHandles.take q.count) infos

def erased (t : HandleTable) (l : List ℕ) : HandleTable := fun h => if h ∈ l then none else t h

theorem erased_congr {l l' : List ℕ} (h : ∀ n, n ∈ l ↔ n ∈ l') : erased t l = erased t l' := by
  funext n
  rw [erased, erased]
  exact if_congr (h n) rfl rfl

theorem releaseHandle_erased {l : List ℕ} {type : HandleType} {d : ℕ}
    (hh : t h = some (type, d)) : releaseHandle (erased t l) h type = erased t (h :: l) := by
  funext n
  by_cases hl : h ∈ l
  · have hlook : lookupHandle (erased t l) h type = .error .errorGeneric := by
      simp [lookupHandle, erased, hl]
    simp only [releaseHandle, hlook]
    by_cases hn : n = h
    · simp [erased, hn, hl]
    · simp [erased, hn]
  · have hlook : lookupHandle (erased t l) h type = .ok d :=
      lookupHandle_ok.mpr ((if_neg hl).trans hh)
    simp only [releaseHandle, hlook]
    by_cases hn : n = h
    · simp [erased, hn]
    · simp [erased, hn]

theorem releaseHandle_list {l hs ms : List ℕ}
    (hall : List.Forall₂ (fun h m => t h = some (.memInfo, m)) hs ms) :
    hs.foldl (fun t h => releaseHandle t h .memInfo) (erased t l) =
      erased t (hs.reverse ++ l) := by
  induction hall generalizing l with
  | nil => rfl
  | @cons h m hs ms hm _ ih =>
    rw [List.foldl_cons, releaseHandle_erased hm, ih, List.reverse_cons, List.append_assoc,
      List.singleton_append]

theorem Named.releaseAll (hn : Named t q f infos)
    (hhandles : q.handles.take q.count = q.phKernelMemInfoHandles.take q.count) :
    SharedPb.releaseAll t q = erased t q.named := by
  have hnone : erased t [] = t := by
    funext n
    simp [erased]
  rw [SharedPb.releaseAll, hhandles]
  nth_rewrite 1 [← hnone]
  simp only [releaseHandle_erased hn.shared, releaseHandle_erased hn.hwpb,
    releaseHandle_erased hn.block, releaseHandle_list hn.infos]
  apply erased_congr
  intro n
  simp only [AddIn.named, List.mem_append, List.mem_reverse, List.mem_cons, List.not_mem_nil,
    or_false]
  grind

def Leads (t : HandleTable) (h m : ℕ) : Prop := ∃ shared, t h = some (infoType shared, m)

theorem leads_rightUnique (t : HandleTable) : Relator.RightUnique (Leads t) := by
  intro h m n hm hn
  obtain ⟨shared, hm⟩ := hm
  obtain ⟨shared', hn⟩ := hn
  rw [hm, Option.some.injEq, Prod.mk.injEq] at hn
  exact hn.2

theorem Named.leads (hn : Named t q f infos) :
    List.Forall₂ (Leads t) q.named (q.call f infos).infos := by
  have hinfos : List.Forall₂ (Leads t) (q.phKernelMemInfoHandles.take q.count) infos :=
    hn.infos.imp fun _ _ hm => ⟨false, hm⟩
  have hfront : List.Forall₂ (Leads t) [q.hSharedPBDescKernelMemInfo, q.hHWPBDescKernelMemInfo,
      q.hBlockKernelMemInfo] [f.psSharedPBDescKernelMemInfo, f.psHWPBDescKernelMemInfo,
      f.psBlockKernelMemInfo] :=
    .cons ⟨true, hn.shared⟩ (.cons ⟨false, hn.hwpb⟩ (.cons ⟨true, hn.block⟩ .nil))
  exact List.rel_append hinfos hfront

theorem Named.nodup_iff (hn : Named t q f infos) (ht : Relator.LeftUnique (Leads t)) :
    q.named.Nodup ↔ (q.call f infos).infos.Nodup :=
  List.rel_nodup ⟨ht, leads_rightUnique t⟩ hn.leads

theorem Named.mem_iff (hn : Named t q f infos) (ht : Relator.LeftUnique (Leads t))
    (hm : Leads t h m) : h ∈ q.named ↔ m ∈ (q.call f infos).infos :=
  List.rel_mem ⟨ht, leads_rightUnique t⟩ hm hn.leads

theorem Named.length (hn : Named t q f infos)
    (hwords : q.count ≤ q.phKernelMemInfoHandles.length) : infos.length = q.count := by
  rw [← hn.infos.length_eq, List.length_take, Nat.min_eq_left hwords]

def reachesCopy (x : AddSys) (c : ℕ) (q : AddIn) : Bool :=
  q.newBatch && (lookupFront (x.tables c) q).isOk && (q.accessOK && q.handlesMem)

/-- Whether the words can be read, there is memory for the memory infos, and every word is a handle
    to memory. -/
def allFound (x : AddSys) (c : ℕ) (q : AddIn) : Bool :=
  q.count ≤ q.phKernelMemInfoHandles.length && q.infosMem &&
    (q.phKernelMemInfoHandles.take q.count).all fun h =>
      (lookupHandle (x.tables c) h .memInfo).isOk

theorem not_reachesCopy (hreach : reachesCopy x c q = false) :
    sgxAddSharedPBDescBW x c q = some (⟨true, none, none⟩, x) := by
  unfold reachesCopy at hreach
  unfold sgxAddSharedPBDescBW
  cases hbatch : q.newBatch with
  | false => rfl
  | true =>
    cases hfront : lookupFront (x.tables c) q with
    | error e => rfl
    | ok f =>
      cases hmem : q.accessOK && q.handlesMem with
      | false => rfl
      | true =>
        rw [hbatch, hfront, hmem] at hreach
        cases hreach

theorem reachesCopy_front (hreach : reachesCopy x c q = true) :
    ∃ f, lookupFront (x.tables c) q = .ok f ∧ sgxAddSharedPBDescBW x c q = addCopied x c q f := by
  unfold reachesCopy at hreach
  rw [Bool.and_eq_true, Bool.and_eq_true] at hreach
  unfold sgxAddSharedPBDescBW
  rw [hreach.1.1, hreach.2]
  cases hfront : lookupFront (x.tables c) q with
  | error e =>
    rw [hfront] at hreach
    cases hreach.1.2
  | ok f => exact ⟨f, rfl, rfl⟩

theorem addCopied_size {out : AddOut} (h : addCopied x c q f = some (out, x')) :
    out.copySize = some q.size := by
  unfold addCopied at h
  split at h
  · cases hinfos : lookupInfos (x.tables c) q.count q.handles with
    | none =>
      rw [hinfos] at h
      cases h
    | some r =>
      rw [hinfos] at h
      cases r with
      | error e =>
        rw [Option.some.injEq, Prod.mk.injEq] at h
        rw [← h.1]
      | ok infos =>
        unfold addReleased at h
        obtain ⟨r, -, hr⟩ := Option.map_eq_some_iff.mp h
        cases ha : r.1 with
        | error e =>
          simp only [ha, Prod.mk.injEq] at hr
          rw [← hr.1]
        | ok p =>
          cases hdesc : q.hSharedPBDesc with
          | none =>
            simp only [ha, hdesc, Prod.mk.injEq] at hr
            rw [← hr.1]
          | some h =>
            simp only [ha, hdesc, Prod.mk.injEq] at hr
            rw [← hr.1]
  · rw [Option.some.injEq, Prod.mk.injEq] at h
    rw [← h.1]

theorem AddIn.size_eq_iff (q : AddIn) : q.size = q.count * 4 ↔ q.count < 1073741824 := by
  constructor
  · intro hsize
    have hlt : q.size < 4294967296 := u32_lt _
    omega
  · intro hlt
    exact u32_of_lt (by omega)

theorem AddIn.handles_eq (hlt : q.count < 1073741824) :
    q.size / 4 = q.count ∧ q.handles = q.phKernelMemInfoHandles.take q.count := by
  have hsize := q.size_eq_iff.mpr hlt
  have hdiv : q.size / 4 = q.count := by omega
  exact ⟨hdiv, by rw [AddIn.handles, hdiv]⟩

theorem not_allFound (hlt : q.count < 1073741824) (hfound : allFound x c q = false) :
    addCopied x c q f = some (⟨true, none, some q.size⟩, x) := by
  obtain ⟨hdiv, hhandles⟩ := AddIn.handles_eq hlt
  unfold addCopied
  split
  · rename_i hmem
    rw [hdiv] at hmem
    have hall : ((q.phKernelMemInfoHandles.take q.count).all fun h =>
        (lookupHandle (x.tables c) h .memInfo).isOk) = false := by
      simpa [allFound, hmem.1, hmem.2] using hfound
    obtain ⟨e, he⟩ := lookupInfos_error hall
    rw [List.length_take, Nat.min_eq_left hmem.1, ← hhandles] at he
    rw [he]
  · rfl

theorem allFound_named (hlt : q.count < 1073741824) (hfront : lookupFront (x.tables c) q = .ok f)
    (hfound : allFound x c q = true) : ∃ infos, Named (x.tables c) q f infos ∧
      q.count ≤ q.phKernelMemInfoHandles.length ∧
      lookupInfos (x.tables c) q.count q.handles = some (.ok infos) ∧ addCopied x c q f =
        addReleased (x.setTable c (erased (x.tables c) q.named)) c q (q.call f infos) := by
  obtain ⟨hdiv, hhandles⟩ := AddIn.handles_eq hlt
  unfold allFound at hfound
  rw [Bool.and_eq_true, Bool.and_eq_true, decide_eq_true_eq] at hfound
  obtain ⟨⟨hwords, hmem⟩, hall⟩ := hfound
  obtain ⟨infos, hinfos, hleads⟩ := lookupInfos_ok hall
  rw [List.length_take, Nat.min_eq_left hwords, ← hhandles] at hinfos
  obtain ⟨hshared, hhwpb, hblock⟩ := lookupFront_ok hfront
  have hn : Named (x.tables c) q f infos := ⟨hshared, hhwpb, hblock, hleads⟩
  have htake : q.handles.take q.count = q.phKernelMemInfoHandles.take q.count := by
    rw [hhandles, List.take_take, Nat.min_self]
  refine ⟨infos, hn, hwords, hinfos, ?_⟩
  rw [addCopied, if_pos ⟨by rw [hdiv]; exact hwords, hmem⟩, hinfos, ← hn.releaseAll htake]

end PvrServices.SharedPb
