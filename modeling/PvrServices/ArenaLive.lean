import PvrServices.ArenaRuns
import PvrServices.Memory

set_option autoImplicit false

/-!
# The live segments one after the other

`RA_GetNextLiveSegment` keeps its place in a handle, and `PVRSRVSaveRestoreLiveSegments` goes
through the live segments with it: to count their bytes, to copy them out and to put them back.
The addresses of the processor are those of the segments.
-/
namespace PvrServices.Arenas
open Words LinkedRing Memory

structure SegmentDetails where
  uiSize : ℕ
  cpuPhyAddr : ℕ
  hSegment : ℕ
deriving DecidableEq, Repr

def liveScan (a : RaArena) : ℕ → ℕ → Option ℕ
  | 0, _ => none
  | fuel + 1, bt =>
    if bt = 0 then some 0
    else if (a.tags bt).type = .live then some bt
    else liveScan a fuel (a.tags bt).nextSegment

def raGetNextLiveSegment (a : RaArena) (d : SegmentDetails) : Option (Bool × SegmentDetails) :=
  match liveScan a (a.nextTag + 1) (if d.hSegment ≠ 0 then d.hSegment else a.headSegment) with
  | none => none
  | some 0 => some (false, ⟨0, 0, 0xffffffff⟩)
  | some bt => some (true, ⟨(a.tags bt).size, (a.tags bt).base, (a.tags bt).nextSegment⟩)

structure Buffer where
  bytes : ℕ → UInt8
  size : ℕ

/-- The memory of the processor, the buffer with the place of `pbyBuffer` in it, and
    `uiBytesSaved`. -/
structure Transfer where
  mem : ℕ → UInt8
  buffer : Option Buffer
  pos : ℕ
  bytesSaved : ℕ

/-- The other arguments of a call, and which segments `OSMapPhysToLin` maps. -/
structure SaveCall where
  bufSize : ℕ
  save : Bool
  maps : ℕ → ℕ → Bool

def Buffer.write (b : Buffer) (pos : ℕ) (bs : List UInt8) : Option Buffer :=
  if pos + bs.length ≤ b.size then some { b with bytes := store b.bytes pos bs } else none

def Buffer.read (b : Buffer) (pos n : ℕ) : Option (List UInt8) :=
  if pos + n ≤ b.size then some (copy b.bytes pos n) else none

def saveSegment (d : SegmentDetails) (b : Buffer) (t : Transfer) : Option Transfer := do
  let b ← b.write t.pos (fieldBytes 4 d.uiSize)
  let b ← b.write (t.pos + 4) (copy t.mem d.cpuPhyAddr d.uiSize)
  some { t with buffer := some b, pos := t.pos + 4 + d.uiSize }

/-- A segment of another size than the buffer says is left as it is, and so is `pbyBuffer`. -/
def restoreSegment (d : SegmentDetails) (b : Buffer) (t : Transfer) : Option Transfer := do
  let size ← b.read t.pos 4
  if fieldValue size ≠ d.uiSize then some t
  else do
    let bytes ← b.read (t.pos + 4) d.uiSize
    some { t with mem := store t.mem d.cpuPhyAddr bytes, pos := t.pos + 4 + d.uiSize }

def countSegment (t : Transfer) (d : SegmentDetails) : Transfer :=
  { t with bytesSaved := u32 (t.bytesSaved + (4 + d.uiSize)) }

def transferSegment (c : SaveCall) (d : SegmentDetails) (t : Transfer) :
    Option (PvrsrvError × Transfer) :=
  match t.buffer with
  | none => some (.ok, countSegment t d)
  | some b =>
    if u32 (t.bytesSaved + 4 + d.uiSize) > c.bufSize then some (.errorOutOfMemory, t)
    else if !c.maps d.cpuPhyAddr d.uiSize then some (.errorOutOfMemory, t)
    else
      (if c.save then saveSegment d b t else restoreSegment d b t).map fun t =>
        (.ok, countSegment t d)

def saveRestoreLoop (a : RaArena) (c : SaveCall) :
    ℕ → SegmentDetails → Transfer → Option (PvrsrvError × Transfer)
  | 0, _, _ => none
  | n + 1, d, t =>
    match raGetNextLiveSegment a d with
    | none => none
    | some (false, _) => some (.ok, t)
    | some (true, d) =>
      match transferSegment c d t with
      | none => none
      | some (.ok, t) => saveRestoreLoop a c n d t
      | some (e, t) => some (e, t)

def startDetails : SegmentDetails := ⟨0, 0, 0⟩

/-- `PVRSRVSaveRestoreLiveSegments` with at most `n` rounds of its loop: the result, `*puiBufSize`
    and the memory. -/
def pvrsrvSaveRestoreLiveSegments (n : ℕ) (arena : Option RaArena) (c : SaveCall)
    (mem : ℕ → UInt8) (buffer : Option Buffer) : Option (PvrsrvError × ℕ × Transfer) :=
  match arena with
  | none => some (.errorInvalidParams, c.bufSize, ⟨mem, buffer, 0, 0⟩)
  | some a =>
    match saveRestoreLoop a c n startDetails ⟨mem, buffer, 0, 0⟩ with
    | none => none
    | some (.ok, t) => some (.ok, if t.buffer.isNone then t.bytesSaved else c.bufSize, t)
    | some (e, t) => some (e, c.bufSize, t)

/-- The segments that calls of `RA_GetNextLiveSegment` return from `d` on. -/
def collect (a : RaArena) : ℕ → SegmentDetails → Option (List SegmentDetails)
  | 0, _ => none
  | n + 1, d =>
    match raGetNextLiveSegment a d with
    | none => none
    | some (false, _) => some []
    | some (true, d) => (collect a n d).map fun ds => d :: ds

section
variable {a : RaArena} {segs l r : List Seg} {s : Seg} {d : SegmentDetails} {c : SaveCall}
  {ds : List SegmentDetails} {t : Transfer} {n : ℕ}

def refOf (r : List Seg) : ℕ := (r.head?.map Seg.ref).getD 0

def firstLive : List Seg → Option (Seg × List Seg)
  | [] => none
  | s :: r => if s.type = .live then some (s, r) else firstLive r

theorem lives_of_firstLive (r : List Seg) :
    lives r = (firstLive r).elim [] fun f => f.1 :: lives f.2 := by
  induction r with
  | nil => rfl
  | cons s r ih =>
    unfold firstLive
    by_cases hs : s.type = .live
    · rw [if_pos hs, lives_cons_live hs]
      rfl
    · rw [if_neg hs, lives_cons_other hs, ih]

theorem firstLive_spec {r t : List Seg} (h : firstLive r = some (s, t)) :
    ∃ m, r = m ++ s :: t ∧ s.type = .live := by
  induction r with
  | nil => cases h
  | cons u r ih =>
    unfold firstLive at h
    by_cases hu : u.type = .live
    · rw [if_pos hu] at h
      obtain ⟨hs, hr⟩ := Prod.mk.inj (Option.some.inj h)
      rw [← hs, ← hr]
      exact ⟨[], rfl, hu⟩
    · rw [if_neg hu] at h
      obtain ⟨m, hm, hs⟩ := ih h
      rw [hm]
      exact ⟨u :: m, rfl, hs⟩

theorem Listed.next_ref (v : Listed a (l ++ s :: r)) : (a.tags s.ref).nextSegment = refOf r := by
  cases r with
  | nil => exact v.next_eq_zero
  | cons t r => exact v.next_eq

theorem Listed.head_ref (v : Listed a segs) : a.headSegment = refOf segs := by
  cases segs with
  | nil =>
    change nextOf a 0 = 0
    simpa using v.order.next_sentinel.symm
  | cons s r => exact v.head_eq

theorem Listed.scan (v : Listed a (l ++ r)) {fuel : ℕ} (hf : r.length < fuel) :
    liveScan a fuel (refOf r) = some (((firstLive r).map fun f => f.1.ref).getD 0) := by
  induction r generalizing l fuel with
  | nil =>
    obtain ⟨fuel, rfl⟩ : ∃ k, fuel = k + 1 := ⟨fuel - 1, by simp at hf; omega⟩
    rfl
  | cons s r ih =>
    obtain ⟨fuel, rfl⟩ : ∃ k, fuel = k + 1 := ⟨fuel - 1, by simp at hf; omega⟩
    have hs : s ∈ l ++ s :: r := by simp
    unfold liveScan firstLive
    rw [show refOf (s :: r) = s.ref from rfl, if_neg (v.ref_ne_zero hs), v.type hs]
    by_cases hl : s.type = .live
    · rw [if_pos hl, if_pos hl]
      rfl
    · rw [if_neg hl, if_neg hl, v.next_ref]
      apply ih (l := l ++ [s])
      · rwa [List.append_assoc]
      · rw [List.length_cons] at hf
        omega

def At (a : RaArena) (d : SegmentDetails) (r : List Seg) : Prop :=
  (if d.hSegment ≠ 0 then d.hSegment else a.headSegment) = refOf r

theorem Listed.at_start (v : Listed a segs) : At a startDetails segs := v.head_ref

theorem Listed.at_next (v : Listed a (l ++ s :: r)) (size base : ℕ) :
    At a ⟨size, base, refOf r⟩ (if r = [] then l ++ s :: r else r) := by
  unfold At
  cases r with
  | nil => exact v.head_ref
  | cons t r =>
    have ht : t.ref ≠ 0 := v.ref_ne_zero (by simp)
    rw [if_neg (List.cons_ne_nil _ _)]
    exact if_pos ht

/-- The details of a live segment, with those behind it, or what follows the last. -/
def liveAnswer (f : Option (Seg × List Seg)) : Bool × SegmentDetails :=
  f.elim (false, ⟨0, 0, 0xffffffff⟩) fun f => (true, ⟨f.1.size, f.1.base, refOf f.2⟩)

theorem Listed.next_live (v : Listed a (l ++ r)) (h : At a d r) :
    raGetNextLiveSegment a d = some (liveAnswer (firstLive r)) := by
  have hlen := v.length_lt
  have hr : r.length < a.nextTag + 1 := by
    rw [List.length_append] at hlen
    omega
  unfold raGetNextLiveSegment
  rw [show (if d.hSegment ≠ 0 then d.hSegment else a.headSegment) = refOf r from h, v.scan hr]
  cases hf : firstLive r with
  | none => rfl
  | some f =>
    obtain ⟨m, hm, hs⟩ := firstLive_spec (s := f.1) (t := f.2) hf
    rw [hm, ← List.append_assoc] at v
    have hin : f.1 ∈ (l ++ m) ++ f.1 :: f.2 := by simp
    have hne := v.ref_ne_zero hin
    dsimp only [Option.map_some, Option.getD_some]
    obtain ⟨k, hk⟩ := Nat.exists_eq_succ_of_ne_zero hne
    rw [hk]
    change some (true, SegmentDetails.mk (a.tags (k + 1)).size (a.tags (k + 1)).base
      (a.tags (k + 1)).nextSegment) = _
    rw [← Nat.succ_eq_add_one, ← hk, v.size hin, v.base hin, v.next_ref]
    rfl

def place (d : SegmentDetails) : ℕ × ℕ := (d.cpuPhyAddr, d.uiSize)

def placeOf (s : Seg) : ℕ × ℕ := (s.base, s.size)

def EndsDead (segs : List Seg) : Prop := ∀ s ∈ segs.getLast?, s.type ≠ .live

instance (segs : List Seg) : Decidable (EndsDead segs) :=
  inferInstanceAs (Decidable (∀ s ∈ segs.getLast?, s.type ≠ .live))

theorem EndsDead.behind (h : EndsDead (l ++ s :: r)) (hs : s.type = .live) : r ≠ [] := by
  intro hr
  rw [hr] at h
  exact h s (by simp) hs

theorem Listed.collect (v : Listed a (l ++ r)) (h : At a d r) (hend : EndsDead (l ++ r))
    (hn : r.length < n) :
    ∃ ds, collect a n d = some ds ∧ ds.map place = (lives r).map placeOf := by
  induction n generalizing l r d with
  | zero => cases hn
  | succ n ih =>
    unfold Arenas.collect
    rw [v.next_live h, lives_of_firstLive]
    cases hf : firstLive r with
    | none => exact ⟨[], rfl, rfl⟩
    | some f =>
      obtain ⟨m, hm, hs⟩ := firstLive_spec (s := f.1) (t := f.2) hf
      rw [hm, ← List.append_assoc] at v hend
      have hat := v.at_next f.1.size f.1.base
      rw [if_neg (hend.behind hs)] at hat
      rw [List.append_cons] at v hend
      rw [hm, List.length_append, List.length_cons] at hn
      obtain ⟨ds, hds, hplaces⟩ := ih v hat hend (by omega)
      refine ⟨⟨f.1.size, f.1.base, refOf f.2⟩ :: ds, ?_, ?_⟩
      · change (Arenas.collect a n ⟨f.1.size, f.1.base, refOf f.2⟩).map _ = _
        rw [hds]
        rfl
      · change _ :: ds.map place = _ :: (lives f.2).map placeOf
        rw [hplaces]
        rfl

theorem Listed.collect_loops (v : Listed a (l ++ r)) (hr : r ≠ []) (h : At a d r)
    (hend : ¬EndsDead (l ++ r)) (n : ℕ) : Arenas.collect a n d = none := by
  induction n generalizing l r d with
  | zero => rfl
  | succ n ih =>
    have hlast : ∃ s ∈ r.getLast?, s.type = .live := by
      unfold EndsDead at hend
      rw [List.getLast?_append_of_ne_nil l hr] at hend
      push Not at hend
      exact hend
    unfold Arenas.collect
    rw [v.next_live h]
    cases hf : firstLive r with
    | none =>
      obtain ⟨s, hs, hlive⟩ := hlast
      have hmem : s ∈ lives r := mem_lives.mpr ⟨List.mem_of_getLast? hs, hlive⟩
      rw [lives_of_firstLive, hf] at hmem
      cases hmem
    | some f =>
      obtain ⟨m, hm, hs⟩ := firstLive_spec (s := f.1) (t := f.2) hf
      rw [hm, ← List.append_assoc] at v hend
      have hat := v.at_next f.1.size f.1.base
      change (Arenas.collect a n ⟨f.1.size, f.1.base, refOf f.2⟩).map _ = none
      rw [Option.map_eq_none_iff]
      by_cases hnil : f.2 = []
      · rw [if_pos hnil] at hat
        exact ih (l := []) v (by simp) hat hend
      · rw [if_neg hnil] at hat
        rw [List.append_cons] at v hend
        exact ih v hnil hat hend

def transferAll (c : SaveCall) : List SegmentDetails → Transfer → Option (PvrsrvError × Transfer)
  | [], t => some (.ok, t)
  | d :: ds, t =>
    match transferSegment c d t with
    | none => none
    | some (.ok, t) => transferAll c ds t
    | some (e, t) => some (e, t)

theorem saveRestoreLoop_eq (h : collect a n d = some ds) (t : Transfer) :
    saveRestoreLoop a c n d t = transferAll c ds t := by
  induction n generalizing d ds t with
  | zero => cases h
  | succ n ih =>
    unfold Arenas.collect at h
    unfold saveRestoreLoop
    cases hnext : raGetNextLiveSegment a d with
    | none =>
      rw [hnext] at h
      cases h
    | some r =>
      obtain ⟨more, e⟩ := r
      rw [hnext] at h
      cases more with
      | false =>
        rw [← Option.some.inj h]
        rfl
      | true =>
        obtain ⟨ds', hds, hd⟩ := Option.map_eq_some_iff.mp h
        rw [← hd]
        unfold transferAll
        dsimp only
        cases ht : transferSegment c e t with
        | none => rfl
        | some q =>
          obtain ⟨err, u⟩ := q
          cases err <;> first | rfl | exact ih hds u

theorem collect_of_saveRestoreLoop {t u : Transfer}
    (h : saveRestoreLoop a c n d t = some (.ok, u)) : ∃ ds, collect a n d = some ds := by
  induction n generalizing d t with
  | zero => cases h
  | succ n ih =>
    unfold saveRestoreLoop at h
    unfold Arenas.collect
    cases hnext : raGetNextLiveSegment a d with
    | none =>
      rw [hnext] at h
      cases h
    | some r =>
      obtain ⟨more, e⟩ := r
      rw [hnext] at h
      cases more with
      | false => exact ⟨[], rfl⟩
      | true =>
        dsimp only at h
        cases ht : transferSegment c e t with
        | none =>
          rw [ht] at h
          cases h
        | some q =>
          obtain ⟨err, v⟩ := q
          rw [ht] at h
          have hok : err = .ok := by
            cases err <;> first | rfl | cases (Prod.mk.inj (Option.some.inj h)).1
          rw [hok] at h
          obtain ⟨ds, hds⟩ := ih h
          refine ⟨e :: ds, ?_⟩
          dsimp only
          rw [hds]
          rfl

theorem collect_mono {m : ℕ} (h : collect a n d = some ds) (hm : n ≤ m) :
    collect a m d = some ds := by
  induction n generalizing m d ds with
  | zero => cases h
  | succ n ih =>
    obtain ⟨k, hk⟩ : ∃ k, m = k + 1 := ⟨m - 1, by omega⟩
    rw [hk]
    unfold Arenas.collect at h ⊢
    cases hnext : raGetNextLiveSegment a d with
    | none =>
      rw [hnext] at h
      cases h
    | some r =>
      obtain ⟨more, e⟩ := r
      rw [hnext] at h
      cases more with
      | false => exact h
      | true =>
        obtain ⟨ds', hds, hd⟩ := Option.map_eq_some_iff.mp h
        dsimp only
        rw [ih hds (by omega), ← hd]
        rfl

/-- What a buffer holds of some segments, and how many bytes that is. -/
def image (mem : ℕ → UInt8) : List SegmentDetails → List UInt8
  | [] => []
  | d :: ds => fieldBytes 4 d.uiSize ++ copy mem d.cpuPhyAddr d.uiSize ++ image mem ds

def imageSize : List SegmentDetails → ℕ
  | [] => 0
  | d :: ds => 4 + d.uiSize + imageSize ds

theorem imageSize_cons (d : SegmentDetails) (ds : List SegmentDetails) :
    imageSize (d :: ds) = 4 + d.uiSize + imageSize ds := rfl

@[simp] theorem image_length (mem : ℕ → UInt8) (ds : List SegmentDetails) :
    (image mem ds).length = imageSize ds := by
  induction ds with
  | nil => rfl
  | cons d ds ih =>
    unfold image
    rw [imageSize_cons, List.length_append, List.length_append, fieldBytes_length, copy_length, ih]

theorem store_append {m : ℕ → UInt8} {i : ℕ} (xs ys : List UInt8) :
    store (store m i xs) (i + xs.length) ys = store m i (xs ++ ys) := by
  funext j
  by_cases hbefore : j < i
  · rw [store_out (.inl (by omega)), store_out (.inl hbefore), store_out (.inl hbefore)]
  · obtain ⟨k, hk⟩ := Nat.exists_eq_add_of_le (Nat.le_of_not_lt hbefore)
    rw [hk]
    by_cases hx : k < xs.length
    · rw [store_out (.inl (by omega)), store_in hx, store_in (by rw [List.length_append]; omega),
        List.getElem_append_left hx]
    · obtain ⟨q, hq⟩ := Nat.exists_eq_add_of_le (Nat.le_of_not_lt hx)
      by_cases hy : q < ys.length
      · rw [hq, ← Nat.add_assoc, store_in hy, Nat.add_assoc,
          store_in (by rw [List.length_append]; omega), List.getElem_append_right (by omega)]
        congr 1
        omega
      · rw [store_out (.inr (by omega)), store_out (.inr (by omega)),
          store_out (.inr (by rw [List.length_append]; omega))]

theorem u32_add_u32 (m n : ℕ) : u32 (u32 m + n) = u32 (m + n) := by
  simp only [u32_eq_mod]
  omega

theorem transferAll_count (ds : List SegmentDetails) (hb : t.buffer = none) (n : ℕ)
    (ht : t.bytesSaved = u32 n) :
    transferAll c ds t = some (.ok, { t with bytesSaved := u32 (n + imageSize ds) }) := by
  induction ds generalizing t n with
  | nil =>
    change some (PvrsrvError.ok, t) = some (.ok, { t with bytesSaved := u32 n })
    rw [← ht]
  | cons d ds ih =>
    have hsegment : transferSegment c d t = some (.ok, countSegment t d) := by
      unfold transferSegment
      rw [hb]
    have hcount : (countSegment t d).bytesSaved = u32 (n + (4 + d.uiSize)) := by
      unfold countSegment
      rw [ht, u32_add_u32]
    unfold transferAll
    rw [hsegment]
    dsimp only
    rw [ih (t := countSegment t d) hb _ hcount, imageSize_cons, Nat.add_assoc n]
    rfl

theorem room_of_le {k : ℕ} (hsum : k + imageSize (d :: ds) ≤ n) (hn : n < 4294967296) :
    u32 (k + 4 + d.uiSize) = k + 4 + d.uiSize ∧ u32 (k + (4 + d.uiSize)) = k + (4 + d.uiSize) ∧
      k + 4 + d.uiSize + imageSize ds ≤ n := by
  rw [imageSize_cons] at hsum
  rw [u32_of_lt (by omega), u32_of_lt (by omega)]
  omega

/-- A call that saves writes the image of the segments, if there is room for it. -/
theorem transferAll_save {b : Buffer} (hsave : c.save = true)
    (hmaps : ∀ d ∈ ds, c.maps d.cpuPhyAddr d.uiSize = true) (hb : t.buffer = some b)
    (hpos : t.bytesSaved = t.pos) (hroom : t.pos + imageSize ds ≤ c.bufSize)
    (hsize : c.bufSize ≤ b.size) (hlt : c.bufSize < 4294967296) :
    transferAll c ds t = some (.ok, ⟨t.mem,
      some { b with bytes := store b.bytes t.pos (image t.mem ds) }, t.pos + imageSize ds,
      t.pos + imageSize ds⟩) := by
  induction ds generalizing t b with
  | nil =>
    have hnil : store b.bytes t.pos (image t.mem []) = b.bytes := store_eq_self rfl
    obtain ⟨mem, buffer, pos, bytesSaved⟩ := t
    dsimp only at hb hpos
    rw [hb, hpos, hnil]
    rfl
  | cons d ds ih =>
    obtain ⟨htest, hcount, hrest⟩ := room_of_le hroom hlt
    have hmap := hmaps d (List.mem_cons_self ..)
    have hword : b.write t.pos (fieldBytes 4 d.uiSize) =
        some { b with bytes := store b.bytes t.pos (fieldBytes 4 d.uiSize) } := by
      unfold Buffer.write
      rw [if_pos (by rw [fieldBytes_length]; omega)]
    let b' : Buffer := { b with
      bytes := store b.bytes t.pos (fieldBytes 4 d.uiSize ++ copy t.mem d.cpuPhyAddr d.uiSize) }
    have hbytes : ({ b with bytes := store b.bytes t.pos (fieldBytes 4 d.uiSize) } : Buffer).write
        (t.pos + 4) (copy t.mem d.cpuPhyAddr d.uiSize) = some b' := by
      unfold Buffer.write
      rw [if_pos (by rw [copy_length]; dsimp only; omega)]
      have happ := store_append (m := b.bytes) (i := t.pos) (fieldBytes 4 d.uiSize)
        (copy t.mem d.cpuPhyAddr d.uiSize)
      rw [fieldBytes_length] at happ
      rw [happ]
    have hsegment : transferSegment c d t = some (.ok,
        ⟨t.mem, some b', t.pos + 4 + d.uiSize, t.pos + 4 + d.uiSize⟩) := by
      unfold transferSegment
      rw [hb]
      dsimp only
      rw [hpos, htest, if_neg (by omega), hmap, if_neg (by decide), if_pos hsave]
      unfold saveSegment
      rw [hword, Option.bind_eq_bind, Option.bind_some, hbytes, Option.bind_some, Option.map_some]
      unfold countSegment
      dsimp only
      rw [hpos, hcount, Nat.add_assoc]
    unfold transferAll
    rw [hsegment]
    dsimp only
    rw [ih (t := ⟨t.mem, some b', t.pos + 4 + d.uiSize, t.pos + 4 + d.uiSize⟩) (b := b')
      (fun e he => hmaps e (List.mem_cons_of_mem _ he)) rfl rfl hrest hsize]
    have himage : store b'.bytes (t.pos + 4 + d.uiSize) (image t.mem ds) =
        store b.bytes t.pos (image t.mem (d :: ds)) := by
      have happ := store_append (m := b.bytes) (i := t.pos)
        (fieldBytes 4 d.uiSize ++ copy t.mem d.cpuPhyAddr d.uiSize) (image t.mem ds)
      rw [List.length_append, fieldBytes_length, copy_length, ← Nat.add_assoc] at happ
      exact happ
    have hend : t.pos + 4 + d.uiSize + imageSize ds = t.pos + imageSize (d :: ds) := by
      rw [imageSize_cons]
      omega
    dsimp only
    rw [himage, hend]

/-- A call that saves and succeeds has found room for all segments. -/
theorem transferAll_room {b : Buffer} (hsave : c.save = true) (hb : t.buffer = some b)
    (hpos : t.pos ≤ b.size) {u : Transfer} (h : transferAll c ds t = some (.ok, u)) :
    t.pos + imageSize ds ≤ b.size := by
  induction ds generalizing t b with
  | nil => exact hpos
  | cons d ds ih =>
    unfold transferAll at h
    cases hd : transferSegment c d t with
    | none =>
      rw [hd] at h
      cases h
    | some r =>
      obtain ⟨e, v⟩ := r
      rw [hd] at h
      unfold transferSegment at hd
      rw [hb] at hd
      dsimp only at hd
      by_cases hfull : u32 (t.bytesSaved + 4 + d.uiSize) > c.bufSize
      · rw [if_pos hfull] at hd
        rw [← (Prod.mk.inj (Option.some.inj hd)).1] at h
        cases (Prod.mk.inj (Option.some.inj h)).1
      · rw [if_neg hfull] at hd
        by_cases hmap : (!c.maps d.cpuPhyAddr d.uiSize) = true
        · rw [if_pos hmap] at hd
          rw [← (Prod.mk.inj (Option.some.inj hd)).1] at h
          cases (Prod.mk.inj (Option.some.inj h)).1
        · rw [if_neg hmap, if_pos hsave] at hd
          obtain ⟨w, hw, hv⟩ := Option.map_eq_some_iff.mp hd
          obtain ⟨he, hv⟩ := Prod.mk.inj hv
          unfold saveSegment at hw
          obtain ⟨b₁, hb₁, hw⟩ := Option.bind_eq_some_iff.mp hw
          obtain ⟨b₂, hb₂, hw⟩ := Option.bind_eq_some_iff.mp hw
          have hsize₁ : b₁.size = b.size := by
            unfold Buffer.write at hb₁
            split at hb₁
            · rw [← Option.some.inj hb₁]
            · cases hb₁
          unfold Buffer.write at hb₂
          split at hb₂
          · rename_i hle
            rw [copy_length, hsize₁] at hle
            have hb₂size : b₂.size = b.size := by
              rw [← Option.some.inj hb₂]
              exact hsize₁
            rw [← he] at h
            have hvb : v.buffer = some b₂ := by
              rw [← hv, ← Option.some.inj hw]
              rfl
            have hvpos : v.pos = t.pos + 4 + d.uiSize := by
              rw [← hv, ← Option.some.inj hw]
              rfl
            have hrest := ih hvb (by rw [hvpos, hb₂size]; exact hle) h
            rw [hvpos, hb₂size] at hrest
            rw [imageSize_cons]
            omega
          · cases hb₂

def putBack (saved mem : ℕ → UInt8) (ds : List SegmentDetails) : ℕ → UInt8 := fun i =>
  if ∃ d ∈ ds, d.cpuPhyAddr ≤ i ∧ i < d.cpuPhyAddr + d.uiSize then saved i else mem i

theorem putBack_cons (saved mem : ℕ → UInt8) (d : SegmentDetails) (ds : List SegmentDetails) :
    putBack saved (store mem d.cpuPhyAddr (copy saved d.cpuPhyAddr d.uiSize)) ds =
      putBack saved mem (d :: ds) := by
  funext i
  unfold putBack
  by_cases hds : ∃ e ∈ ds, e.cpuPhyAddr ≤ i ∧ i < e.cpuPhyAddr + e.uiSize
  · rw [if_pos hds, if_pos (by
      obtain ⟨e, he, hi⟩ := hds
      exact ⟨e, List.mem_cons_of_mem _ he, hi⟩)]
  · rw [if_neg hds]
    by_cases hd : d.cpuPhyAddr ≤ i ∧ i < d.cpuPhyAddr + d.uiSize
    · rw [if_pos ⟨d, List.mem_cons_self .., hd⟩]
      obtain ⟨k, hk⟩ := Nat.exists_eq_add_of_le hd.1
      rw [hk, store_in (by rw [copy_length]; omega)]
      simp [copy]
    · rw [if_neg, store_out (by rw [copy_length]; omega)]
      intro hex
      obtain ⟨e, he, hi⟩ := hex
      cases List.mem_cons.mp he with
      | inl heq =>
        rw [heq] at hi
        exact hd hi
      | inr hin => exact hds ⟨e, hin, hi⟩

/-- A call that restores from the image of the same segments puts their bytes back. -/
theorem transferAll_restore {b : Buffer} {saved : ℕ → UInt8} (hsave : c.save = false)
    (hmaps : ∀ d ∈ ds, c.maps d.cpuPhyAddr d.uiSize = true) (hb : t.buffer = some b)
    (hpos : t.bytesSaved = t.pos) (hroom : t.pos + imageSize ds ≤ c.bufSize)
    (hsize : c.bufSize ≤ b.size) (hlt : c.bufSize < 4294967296)
    (himage : copy b.bytes t.pos (imageSize ds) = image saved ds) :
    transferAll c ds t = some (.ok, ⟨putBack saved t.mem ds, some b, t.pos + imageSize ds,
      t.pos + imageSize ds⟩) := by
  induction ds generalizing t with
  | nil =>
    obtain ⟨mem, buffer, pos, bytesSaved⟩ := t
    dsimp only at hb hpos
    rw [hb, hpos]
    have hnil : putBack saved mem [] = mem := by
      funext i
      exact if_neg (by simp)
    change _ = some (PvrsrvError.ok, (⟨putBack saved mem [], some b, pos, pos⟩ : Transfer))
    rw [hnil]
    rfl
  | cons d ds ih =>
    obtain ⟨htest, hcount, hrest⟩ := room_of_le hroom hlt
    have hmap := hmaps d (List.mem_cons_self ..)
    rw [imageSize_cons, copy_add, copy_add] at himage
    obtain ⟨hfront, hback⟩ := List.append_inj himage
      (by rw [List.length_append, List.length_append, copy_length, copy_length, copy_length,
        fieldBytes_length])
    obtain ⟨hword, hbytes⟩ := List.append_inj hfront (by rw [copy_length, fieldBytes_length])
    have hvalue : fieldValue (fieldBytes 4 d.uiSize) = d.uiSize := by
      rw [fieldValue_fieldBytes, Nat.mod_eq_of_lt (by omega)]
    let m : ℕ → UInt8 := store t.mem d.cpuPhyAddr (copy saved d.cpuPhyAddr d.uiSize)
    have hsegment : transferSegment c d t = some (.ok,
        ⟨m, some b, t.pos + 4 + d.uiSize, t.pos + 4 + d.uiSize⟩) := by
      have hread : b.read t.pos 4 = some (fieldBytes 4 d.uiSize) := by
        unfold Buffer.read
        rw [if_pos (by omega), hword]
      have hread' : b.read (t.pos + 4) d.uiSize = some (copy saved d.cpuPhyAddr d.uiSize) := by
        unfold Buffer.read
        rw [if_pos (by omega), hbytes]
      have hstep : restoreSegment d b t = some ⟨m, some b, t.pos + 4 + d.uiSize, t.pos⟩ := by
        unfold restoreSegment
        rw [hread, Option.bind_eq_bind, Option.bind_some, hvalue, if_neg fun hne => hne rfl, hread']
        change some (Transfer.mk m t.buffer (t.pos + 4 + d.uiSize) t.bytesSaved) = _
        rw [hb, hpos]
      unfold transferSegment
      rw [hb]
      dsimp only
      rw [hpos, htest, if_neg (by omega), hmap, if_neg (by decide), hsave, if_neg (by decide), hstep,
        Option.map_some]
      unfold countSegment
      dsimp only
      rw [hcount, Nat.add_assoc]
    unfold transferAll
    rw [hsegment]
    dsimp only
    rw [ih (t := ⟨m, some b, t.pos + 4 + d.uiSize, t.pos + 4 + d.uiSize⟩)
      (fun e he => hmaps e (List.mem_cons_of_mem _ he)) rfl rfl hrest
      (by rw [Nat.add_assoc t.pos]; exact hback)]
    have hend : t.pos + 4 + d.uiSize + imageSize ds = t.pos + imageSize (d :: ds) := by
      rw [imageSize_cons]
      omega
    dsimp only
    rw [putBack_cons, hend]

/-- Whatever the buffer holds and whichever segments are mapped, a call with room for all segments
    stays inside of the buffer. -/
theorem transferAll_isSome {b : Buffer} (hb : t.buffer = some b) (hpos : t.pos ≤ t.bytesSaved)
    (hroom : t.bytesSaved + imageSize ds ≤ c.bufSize) (hsize : c.bufSize ≤ b.size)
    (hlt : c.bufSize < 4294967296) : (transferAll c ds t).isSome = true := by
  induction ds generalizing t b with
  | nil => rfl
  | cons d ds ih =>
    obtain ⟨htest, hcount, hrest⟩ := room_of_le hroom hlt
    have hsegment : ∃ e u b', transferSegment c d t = some (e, u) ∧
        (e = .ok → u.buffer = some b' ∧ b'.size = b.size ∧ u.pos ≤ u.bytesSaved ∧
          u.bytesSaved = t.bytesSaved + 4 + d.uiSize) := by
      unfold transferSegment
      rw [hb]
      dsimp only
      by_cases hfull : u32 (t.bytesSaved + 4 + d.uiSize) > c.bufSize
      · rw [if_pos hfull]
        exact ⟨_, _, b, rfl, fun h => by cases h⟩
      · rw [if_neg hfull]
        by_cases hmap : (!c.maps d.cpuPhyAddr d.uiSize) = true
        · rw [if_pos hmap]
          exact ⟨_, _, b, rfl, fun h => by cases h⟩
        · rw [if_neg hmap]
          cases c.save with
          | true =>
            let b₁ : Buffer := { b with bytes := store b.bytes t.pos (fieldBytes 4 d.uiSize) }
            let b₂ : Buffer := { b with
              bytes := store b₁.bytes (t.pos + 4) (copy t.mem d.cpuPhyAddr d.uiSize) }
            have h₁ : b.write t.pos (fieldBytes 4 d.uiSize) = some b₁ := by
              unfold Buffer.write
              rw [if_pos (by rw [fieldBytes_length]; omega)]
            have h₂ : b₁.write (t.pos + 4) (copy t.mem d.cpuPhyAddr d.uiSize) = some b₂ := by
              unfold Buffer.write
              rw [if_pos (by rw [copy_length]; change _ ≤ b.size; omega)]
            unfold saveSegment
            rw [if_pos rfl, h₁, Option.bind_eq_bind, Option.bind_some, h₂, Option.bind_some]
            refine ⟨_, _, b₂, rfl, fun _ => ⟨rfl, rfl, ?_, ?_⟩⟩
            · change t.pos + 4 + d.uiSize ≤ u32 (t.bytesSaved + (4 + d.uiSize))
              rw [hcount]
              omega
            · change u32 (t.bytesSaved + (4 + d.uiSize)) = _
              rw [hcount, Nat.add_assoc]
          | false =>
            unfold restoreSegment Buffer.read
            rw [if_neg (by decide), if_pos (by omega), Option.bind_eq_bind, Option.bind_some]
            by_cases hword : fieldValue (copy b.bytes t.pos 4) ≠ d.uiSize
            · rw [if_pos hword]
              refine ⟨_, _, b, rfl, fun _ => ⟨hb, rfl, ?_, ?_⟩⟩
              · change t.pos ≤ u32 (t.bytesSaved + (4 + d.uiSize))
                rw [hcount]
                omega
              · change u32 (t.bytesSaved + (4 + d.uiSize)) = _
                rw [hcount, Nat.add_assoc]
            · rw [if_neg hword, if_pos (by omega)]
              refine ⟨_, _, b, rfl, fun _ => ⟨hb, rfl, ?_, ?_⟩⟩
              · change t.pos + 4 + d.uiSize ≤ u32 (t.bytesSaved + (4 + d.uiSize))
                rw [hcount]
                omega
              · change u32 (t.bytesSaved + (4 + d.uiSize)) = _
                rw [hcount, Nat.add_assoc]
    obtain ⟨e, u, b', hu, hok⟩ := hsegment
    unfold transferAll
    rw [hu]
    cases e with
    | ok =>
      obtain ⟨hub, hbsize, hupos, husaved⟩ := hok rfl
      exact ih hub hupos (by rw [husaved]; exact hrest) (by rw [hbsize]; exact hsize)
    | _ => rfl

end

end PvrServices.Arenas
