import PvrServices.QueueBlocks
import PvrServices.ResmanRegistry
import PvrServices.SyncInfoSets

set_option autoImplicit false

/-!
# The creation of swap chains

`PVRSRVCreateDCSwapChainKM` of `deviceclass.c` with all that it allocates: the swap chain, its
command queue, the sync infos of its buffers, the driver's swap chain and the resource item. What
the allocators and the driver answer comes with the call. A call that follows the null pointer has
no answer.
-/
namespace PvrServices.SwapCreation
open BlockHeap MapMemory QueueBlocks Resman SyncInfoSets

def pvrsrvMaxDcSwapchainBuffers : ℕ := 4

def swapChainSize : ℕ := 136

/-- `struct PVRSRV_DC_SWAPCHAIN`, with the `psKernelSyncInfo` of each buffer. -/
structure DcSwapChain where
  hExtSwapChain : ℕ
  psQueue : ℕ
  asBuffer : List ℕ
  ui32BufferCount : ℕ
  psDCInfo : ℕ
  hResItem : Option ℕ
deriving DecidableEq, Repr

def zeroed : DcSwapChain := ⟨0, 0, List.replicate pvrsrvMaxDcSwapchainBuffers 0, 0, 0, none⟩

structure DcState where
  maps : Maps
  queues : QueueBlocks.Queues
  chains : Heap DcSwapChain
  extSwapChains : ℕ → Bool

structure DcSystem where
  res : ResList
  dc : DcState

def chainAt (s : DcState) (m : ℕ) : Option DcSwapChain := (s.chains.blocks m).map Block.content

def setChain (s : DcState) (m : ℕ) (ch : DcSwapChain) : Option DcState :=
  (s.chains.write m ch).map fun h => { s with chains := h }

def freeChain (s : DcState) (m : ℕ) : Option DcState :=
  (s.chains.free m swapChainSize).map fun h => { s with chains := h }

def freeBuffers (m : ℕ) : List ℕ → DcState → Option DcState
  | [], s => some s
  | i :: is, s => do
    let ch ← chainAt s m
    let y ← ch.asBuffer[i]?
    if y = 0 then freeBuffers m is s
    else do
      let t ← freeSyncInfo s.maps y
      freeBuffers m is { s with maps := t }

def pfnDestroyDCSwapChainCallBack : ℕ := 2

/-- `DestroyDCSwapChainCallBack`; `drained` says whether the queue gets empty in time. -/
def destroyDCSwapChainCallBack (drained : Bool) (pfnDestroyDCSwapChain : PvrsrvError)
    (s : DcState) (m : ℕ) : Option (PvrsrvError × DcState) := do
  let ch ← chainAt s m
  let (_, queues) ← destroyCommandQueueKM s.queues ch.psQueue drained
  let s := { s with queues := queues }
  if pfnDestroyDCSwapChain ≠ .ok then some (pfnDestroyDCSwapChain, s)
  else do
    let s := { s with extSwapChains := Function.update s.extSwapChains ch.hExtSwapChain false }
    let s ← freeBuffers m (List.range ch.ui32BufferCount) s
    let s ← freeChain s m
    some (.ok, s)

def dcCallBack (drained : Bool) (pfnDestroyDCSwapChain : PvrsrvError) (call : Call)
    (s : DcState) : Option DcState :=
  if call.pfnFreeResource = pfnDestroyDCSwapChainCallBack then
    (destroyDCSwapChainCallBack drained pfnDestroyDCSwapChain s call.pvParam).map Prod.snd
  else none

def pvrsrvDestroyDCSwapChainKM (drained : Bool) (pfnDestroyDCSwapChain : PvrsrvError)
    (x : DcSystem) (m : ℕ) : Option DcSystem := do
  let ch ← chainAt x.dc m
  let p ← ch.hResItem
  let (res, dc) ← freeHosted (dcCallBack drained pfnDestroyDCSwapChain) x.res x.dc p
  some ⟨res, dc⟩

structure CreateCall where
  hResManContext : ℕ
  hDeviceKM : ℕ
  psDstSurfAttrib : ℕ
  psSrcSurfAttrib : ℕ
  ui32BufferCount : ℕ
  phSwapChain : ℕ
  pui32SwapChainID : ℕ
  swapChain : Option ℕ
  queueInfo : Option ℕ
  queueBuffer : Option ℕ
  syncInfo : ℕ → SyncAnswers
  pfnCreateDCSwapChain : List ℕ → Except PvrsrvError ℕ
  resItem : Option ℕ

def CreateCall.refused (c : CreateCall) : Option PvrsrvError :=
  if c.hDeviceKM = 0 ∨ c.psDstSurfAttrib = 0 ∨ c.psSrcSurfAttrib = 0 ∨ c.phSwapChain = 0 ∨
      c.pui32SwapChainID = 0 then some .errorInvalidParams
  else if pvrsrvMaxDcSwapchainBuffers < c.ui32BufferCount then some .errorTooManyBuffers
  else if c.ui32BufferCount < 2 then some .errorTooFewBuffers
  else none

def errorExit (c : CreateCall) (m psQueue : ℕ) (e : PvrsrvError) (s : DcState) :
    Option (Except PvrsrvError ℕ × DcState) := do
  let s ← freeBuffers m (List.range c.ui32BufferCount) s
  let queues ← (if psQueue = 0 then some s.queues
    else (destroyCommandQueueKM s.queues psQueue true).map Prod.snd)
  let s := { s with queues := queues }
  let s ← (if m = 0 then some s else freeChain s m)
  some (.error e, s)

structure Freed (s t : DcState) : Prop where
  maps : Restored s.maps t.maps
  queueBlocks : t.queues.heap.blocks = s.queues.heap.blocks
  queueList : t.queues.queueList = s.queues.queueList
  chains : t.chains.blocks = s.chains.blocks
  extSwapChains : t.extSwapChains = s.extSwapChains

def chainRegistration (c : CreateCall) (m : ℕ) : Registration :=
  ⟨c.hResManContext, .displayclassSwapchain, m, 0, pfnDestroyDCSwapChainCallBack⟩

/-- A live item owns the swap chain, and its callback takes back all that was made. -/
def Owned (c : CreateCall) (m : ℕ) (reg : Registry) (x y : DcSystem) : Prop :=
  ∃ ch p, chainAt y.dc m = some ch ∧ ch.hResItem = some p ∧
    Tracks y.res (Function.update reg p (some (chainRegistration c m))) ∧
    ∃ z, pvrsrvDestroyDCSwapChainKM true .ok y m = some z ∧ Freed x.dc z.dc ∧ Tracks z.res reg

structure CreateCall.Reaches (c : CreateCall) : Prop where
  queueInfo : c.queueInfo ≠ none
  queueBuffer : c.queueBuffer ≠ none
  syncInfo : ∀ i < c.ui32BufferCount, (c.syncInfo i).Made
  ext : ∃ e, c.pfnCreateDCSwapChain ((List.range c.ui32BufferCount).map fun i =>
    (placeOf (c.syncInfo i)).buffer.cpuVAddr) = .ok e

def Outcome (c : CreateCall) (reg : Registry) (x y : DcSystem) : Except PvrsrvError ℕ → Prop
  | .error _ => Freed x.dc y.dc ∧ y.res = x.res
  | .ok m => (c.refused = none ∧ c.swapChain = some m ∧ c.Reaches ∧ c.resItem ≠ none) ∧
    Owned c m reg x y

def blocksOf (a : SyncAnswers) : List ℕ := a.info.toList ++ a.dataInfo.toList

def handlesOf (a : SyncAnswers) : List ℕ := a.dataBuffer.toList.map Buffer.handle

structure FreshSyncs (s : Maps) (l : List SyncAnswers) : Prop where
  blocks : (l.flatMap blocksOf).Nodup
  handles : (l.flatMap handlesOf).Nodup
  free : ∀ p ∈ l.flatMap blocksOf, p ≠ 0 ∧ s.heap.blocks p = none
  unused : ∀ k ∈ l.flatMap handlesOf, k ≠ 0 ∧ s.buffers k = 0

structure Fresh (c : CreateCall) (x : DcSystem) : Prop where
  swapChain : ∀ m, c.swapChain = some m → m ≠ 0 ∧ x.dc.chains.blocks m = none
  queueInfo : ∀ q, c.queueInfo = some q → q ≠ 0 ∧ x.dc.queues.heap.blocks q = none
  queueBuffer : ∀ p, c.queueBuffer = some p → p ≠ 0 ∧ x.dc.queues.heap.blocks p = none ∧
    c.queueInfo ≠ some p
  syncInfo : FreshSyncs x.dc.maps ((List.range c.ui32BufferCount).map c.syncInfo)
  ext : ∀ l e, c.pfnCreateDCSwapChain l = .ok e → x.dc.extSwapChains e = false
  resItem : ∀ p, c.resItem = some p → x.res.items p = none

variable {c : CreateCall} {reg : Registry} {x y : DcSystem} {s t u : DcState} {ch : DcSwapChain}
  {l : List SyncPlace} {m n q psQueue : ℕ}

theorem free_at {β : Type} {h : Heap β} {p k : ℕ} {b : Block β} (hp : h.blocks p = some b) :
    ∃ v, h.free p k = some v ∧ v.blocks = Function.update h.blocks p none :=
  ⟨_, Heap.free_eq hp, rfl⟩

def ChainNew (s t : DcState) (m : ℕ) (ch : DcSwapChain) : Prop :=
  s.chains.blocks m = none ∧
    t.chains.blocks = Function.update s.chains.blocks m (some ⟨swapChainSize, ch⟩)

theorem ChainNew.chainAt (h : ChainNew s t m ch) : SwapCreation.chainAt t m = some ch := by
  unfold SwapCreation.chainAt
  rw [h.2, Function.update_self]
  rfl

theorem ChainNew.set (h : ChainNew s t m ch) (ch' : DcSwapChain) : ∃ v,
    setChain t m ch' = some { t with chains := v } ∧ ChainNew s { t with chains := v } m ch' := by
  have hat : t.chains.blocks m = some ⟨swapChainSize, ch⟩ := by rw [h.2, Function.update_self]
  unfold setChain
  rw [Heap.write_eq hat]
  refine ⟨_, rfl, h.1, ?_⟩
  dsimp only
  rw [h.2, Function.update_idem]

theorem ChainNew.free (h : ChainNew s t m ch) : ∃ v,
    (∀ u, u.chains = t.chains → freeChain u m = some { u with chains := v }) ∧
      v.blocks = s.chains.blocks := by
  have hat : t.chains.blocks m = some ⟨swapChainSize, ch⟩ := by rw [h.2, Function.update_self]
  obtain ⟨v, hv, hblocks⟩ := free_at (k := swapChainSize) hat
  refine ⟨v, fun u hu => ?_, by rw [hblocks, h.2, update_back h.1]⟩
  unfold freeChain
  rw [hu, hv]
  rfl

structure QueueNew (s t : QueueBlocks.Queues) (q : ℕ) : Prop where
  blocks : ∃ p b, p ≠ q ∧ s.heap.blocks p = none ∧ t.heap.blocks = Function.update
    (Function.update s.heap.blocks q (some ⟨queueInfoSize, .info ⟨p, 1024⟩⟩)) p (some b)
  null : q ≠ 0
  fresh : s.heap.blocks q = none
  list : t.queueList = q :: s.queueList

theorem QueueNew.destroy {s t : QueueBlocks.Queues} (h : QueueNew s t q) : ∃ r v,
    destroyCommandQueueKM t q true = some (r, v) ∧ v.heap.blocks = s.heap.blocks ∧
      v.queueList = s.queueList := by
  obtain ⟨p, b, hpq, hp, hblocks⟩ := h.blocks
  have hinfo : infoAt t.heap q = some ⟨p, 1024⟩ := by
    refine infoAt_eq_some.mpr ⟨queueInfoSize, ?_⟩
    rw [hblocks, Function.update_of_ne hpq.symm, Function.update_self]
  obtain ⟨v, hv, hfirst⟩ := free_at (h := t.heap) (p := p) (k := 1024) (b := b) (by
    rw [hblocks, Function.update_self])
  have hq : v.blocks q = some ⟨queueInfoSize, .info ⟨p, 1024⟩⟩ := by
    rw [hfirst, hblocks, Function.update_idem, Function.update_of_ne hpq.symm,
      Function.update_self]
  obtain ⟨w, hw, hsecond⟩ := free_at (k := queueInfoSize) hq
  refine ⟨.ok q, ⟨w, t.queueList.erase q⟩, ?_, ?_, ?_⟩
  · simp [destroyCommandQueueKM, hinfo, destroyFree, h.list, hv, hw]
  · have hback : Function.update (Function.update s.heap.blocks q
        (some ⟨queueInfoSize, .info ⟨p, 1024⟩⟩)) p none =
        Function.update s.heap.blocks q (some ⟨queueInfoSize, .info ⟨p, 1024⟩⟩) := by
      rw [Function.update_comm hpq.symm, ← hp, Function.update_eq_self]
    rw [hsecond, hfirst, hblocks, Function.update_idem, hback, update_back h.fresh]
  · rw [h.list]
    exact List.erase_cons_head ..

def buffersOf (l : List SyncPlace) : List ℕ :=
  l.map SyncPlace.info ++ List.replicate (pvrsrvMaxDcSwapchainBuffers - l.length) 0

theorem range_buffersOf (hl : l.length ≤ n) (hn : n ≤ pvrsrvMaxDcSwapchainBuffers) :
    (List.range n).map (fun i => (buffersOf l)[i]?) =
      (l.map SyncPlace.info ++ List.replicate (n - l.length) 0).map some := by
  have hsize : (l.map SyncPlace.info ++ List.replicate (n - l.length) 0).length = n := by
    rw [List.length_append, List.length_map, List.length_replicate]
    omega
  apply List.ext_getElem
  · rw [List.length_map, List.length_range, List.length_map, hsize]
  · intro i hi _
    rw [List.length_map, List.length_range] at hi
    have hi' : i < (l.map SyncPlace.info ++ List.replicate (n - l.length) 0).length := by
      rw [hsize]
      exact hi
    rw [List.getElem_map, List.getElem_range, List.getElem_map, ← List.getElem?_eq_getElem hi']
    unfold buffersOf
    by_cases hil : i < l.length
    · rw [List.getElem?_append_left (by simpa using hil),
        List.getElem?_append_left (by simpa using hil)]
    · have hle : (l.map SyncPlace.info).length ≤ i := by simpa using hil
      rw [List.getElem?_append_right hle, List.getElem?_append_right hle, List.getElem?_replicate,
        List.getElem?_replicate, if_pos (by simp at hle ⊢; omega), if_pos (by simp at hle ⊢; omega)]

theorem freeBuffers_spec {s₀ : Maps} {is : List ℕ} {k : ℕ} (hch : chainAt s m = some ch)
    (his : is.map (fun i => ch.asBuffer[i]?) =
      (l.map SyncPlace.info ++ List.replicate k 0).map some) (h : Holds s₀ s.maps l) :
    ∃ t, freeBuffers m is s = some { s with maps := t } ∧ Restored s₀ t := by
  induction is generalizing s l k with
  | nil =>
    have hl : l = [] := by
      have hlength := congrArg List.length his
      simp only [List.map_nil, List.length_nil, List.length_map, List.length_append] at hlength
      exact List.length_eq_zero_iff.mp (by omega)
    rw [hl] at h
    exact ⟨s.maps, rfl, h.restored⟩
  | cons i is ih =>
    cases l with
    | nil =>
      cases k with
      | zero => cases his
      | succ k =>
        have hi : ch.asBuffer[i]? = some 0 := (List.cons.inj his).1
        obtain ⟨t, ht, hback⟩ := ih (l := []) (k := k) hch (List.cons.inj his).2 h
        exact ⟨t, by simp [freeBuffers, hch, hi, ht], hback⟩
    | cons p l =>
      have hi : ch.asBuffer[i]? = some p.info := (List.cons.inj his).1
      obtain ⟨u, hu, hholds⟩ := h.free
      obtain ⟨t, ht, hback⟩ := ih (s := { s with maps := u }) hch (List.cons.inj his).2 hholds
      have hnull := (h.here p List.mem_cons_self).infoNull
      exact ⟨t, by simp [freeBuffers, hch, hi, hnull, hu, ht], hback⟩

/-- A call on its way, when it has made the swap chain and the sync infos of the list. -/
structure Building (s t : DcState) (m : ℕ) (ch : DcSwapChain) (l : List SyncPlace) : Prop where
  chain : ChainNew s t m ch
  maps : Holds s.maps t.maps l
  buffers : ch.asBuffer = buffersOf l
  ext : t.extSwapChains = s.extSwapChains

theorem Building.freed (hb : Building s t m ch l) (hl : l.length ≤ n)
    (hn : n ≤ pvrsrvMaxDcSwapchainBuffers) : ∃ v,
    freeBuffers m (List.range n) t = some { t with maps := v } ∧ Restored s.maps v := by
  refine freeBuffers_spec (k := n - l.length) hb.chain.chainAt ?_ hb.maps
  rw [hb.buffers]
  exact range_buffersOf hl hn

structure Whole (s t : DcState) (m : ℕ) (ch : DcSwapChain) (l : List SyncPlace) : Prop where
  chain : ChainNew s t m ch
  maps : Holds s.maps t.maps l
  buffers : ch.asBuffer = buffersOf l
  count : l.length = ch.ui32BufferCount
  few : l.length ≤ pvrsrvMaxDcSwapchainBuffers
  queue : QueueNew s.queues t.queues ch.psQueue
  ext : s.extSwapChains ch.hExtSwapChain = false
  extNew : t.extSwapChains = Function.update s.extSwapChains ch.hExtSwapChain true

/-- A part of a call that makes everything exactly if `good`. -/
def Ends (s : DcState) (m : ℕ) (good : Prop) (o : Option (Except PvrsrvError ℕ × DcState)) : Prop :=
  ∃ r u, o = some (r, u) ∧ ((∃ e, r = .error e ∧ ¬good ∧ Freed s u) ∨
    (r = .ok m ∧ good ∧ ∃ ch l, Whole s u m ch l))

theorem Whole.destroyed (h : Whole s t m ch l) : ∃ u,
    destroyDCSwapChainCallBack true .ok t m = some (.ok, u) ∧ Freed s u := by
  obtain ⟨_, qs, hqs, hblocks, hlist⟩ := h.queue.destroy
  have hback : Function.update t.extSwapChains ch.hExtSwapChain false = s.extSwapChains := by
    rw [h.extNew, Function.update_idem, ← h.ext, Function.update_eq_self]
  have hb : Building s { t with queues := qs, extSwapChains := s.extSwapChains } m ch l :=
    ⟨h.chain, h.maps, h.buffers, rfl⟩
  obtain ⟨v, hv, hrestored⟩ := hb.freed h.count.le (h.count ▸ h.few)
  obtain ⟨w, hw, hchains⟩ := hb.chain.free
  refine ⟨{ t with maps := v, queues := qs, chains := w, extSwapChains := s.extSwapChains }, ?_,
    hrestored, hblocks, hlist, hchains, rfl⟩
  simp [destroyDCSwapChainCallBack, h.chain.chainAt, hqs, hback, hv, hw]

theorem Whole.owned {r : ResList} {p : ℕ} (h : Whole x.dc t m ch l) (ht : Tracks x.res reg)
    (hp : x.res.items p = none)
    (hreg : Tracks r (Function.update reg p (some (chainRegistration c m)))) {v : Heap DcSwapChain}
    (hv : ChainNew x.dc { t with chains := v } m { ch with hResItem := some p }) :
    Owned c m reg x ⟨r, { t with chains := v }⟩ := by
  have hwhole : Whole x.dc { t with chains := v } m { ch with hResItem := some p } l :=
    { h with chain := hv }
  obtain ⟨u, hu, hfreed⟩ := hwhole.destroyed
  have hcall : dcCallBack true .ok ((chainRegistration c m).call p) { t with chains := v } =
      some u := by
    simp [dcCallBack, Registration.call, chainRegistration, hu]
  obtain ⟨res, hres, htracks⟩ := hreg.freeHosted (Function.update_self ..) hcall
  have hback : Function.update (Function.update reg p (some (chainRegistration c m))) p none = reg :=
    update_back (ht.fresh hp)
  rw [hback] at htracks
  refine ⟨_, p, hv.chainAt, rfl, hreg, ⟨res, u⟩, ?_, hfreed, htracks⟩
  simp [pvrsrvDestroyDCSwapChainKM, hv.chainAt, hres]

def sampleSystem : DcSystem where
  res := { resManInit with
    contexts := Function.update (fun _ => none) 4096 (some ⟨.head (), none, 1, none⟩)
    contextList := some 4096 }
  dc := ⟨mapsInit, queuesInit, emptyHeap DcSwapChain, fun _ => false⟩

def sampleSyncs (i : ℕ) : SyncAnswers :=
  ⟨some (2 * i + 2), some (2 * i + 3), some ⟨i + 1, 0⟩, none, true⟩

def sampleCall (swapChain resItem : Option ℕ) : CreateCall :=
  ⟨4096, 1, 1, 1, 2, 1, 1, swapChain, some 8, some 16, sampleSyncs, fun _ => .ok 40, resItem⟩

theorem sampleSyncs_fresh : FreshSyncs mapsInit ((List.range 2).map sampleSyncs) := by
  refine ⟨by decide, by decide, fun p hp => ⟨?_, rfl⟩, fun k hk => ⟨?_, rfl⟩⟩
  · exact fun h0 => absurd (h0 ▸ hp) (by decide)
  · exact fun h0 => absurd (h0 ▸ hk) (by decide)

theorem sampleCall_fresh {swapChain resItem : Option ℕ} (h0 : swapChain ≠ some 0) :
    Fresh (sampleCall swapChain resItem) sampleSystem := by
  refine ⟨fun m hm => ⟨fun h => h0 (h ▸ hm), rfl⟩, fun q hq => ?_, fun p hp => ?_,
    sampleSyncs_fresh, fun _ _ _ => rfl, fun _ _ => rfl⟩
  · obtain rfl : 8 = q := Option.some.inj hq
    exact ⟨nofun, rfl⟩
  · obtain rfl : 16 = p := Option.some.inj hp
    exact ⟨nofun, rfl, nofun⟩

end PvrServices.SwapCreation
