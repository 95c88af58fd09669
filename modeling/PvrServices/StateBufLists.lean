import Mathlib.Data.List.Nodup
import PvrServices.Memory
import PvrServices.Words

set_option autoImplicit false

/-!
# The lists of render state buffers

`pvr_debugfs.c`: the lists of two contexts are merged into one, in which a buffer whose descriptors
disagree is marked.
-/
namespace PvrServices.StateBufs
open Words Memory

structure BufInfo where
  bufId : UInt32
  offset : UInt32
  size : UInt32
  type : UInt32
deriving DecidableEq, Repr

structure BufList where
  cnt : ℕ
  info : ℕ → BufInfo

def BufList.entries (l : BufList) : List BufInfo := copy l.info 0 l.cnt

def infoCount : ℕ := 20
def infoSize : ℕ := 16

def listHeader : ℕ := 4

def bufDescCorrupt : UInt32 := 0x80000000

def BufInfo.corrupt (d : BufInfo) : BufInfo := { d with type := d.type ||| bufDescCorrupt }

/-- The memory info of a handle: its size, and what lies at each offset if it is mapped. -/
structure Container where
  linAddrKM : Option (ℕ → BufList)
  allocSize : ℕ

def getStateBufList (container : Option Container) (offset : ℕ) : Option BufList :=
  match container with
  | none => none
  | some c =>
    match c.linAddrKM with
    | none => none
    | some at_ =>
      if c.allocSize < u32 (offset + (listHeader + infoCount * infoSize)) then none
      else if infoCount < (at_ offset).cnt then none
      else some (at_ offset)

def compareItem (s : BufInfo) : List BufInfo → Option (List BufInfo)
  | [] => none
  | d :: dst =>
    if s.bufId = d.bufId then some ((if s = d then d else d.corrupt) :: dst)
    else (compareItem s dst).map (d :: ·)

/-- `add_uniq_items` into an allocation of `size` bytes; `none` is a write behind it. -/
def addUniqItems (size : ℕ) (dst : List BufInfo) : List BufInfo → Option (List BufInfo)
  | [] => some dst
  | s :: src =>
    match compareItem s dst with
    | some dst => addUniqItems size dst src
    | none =>
      if size < listHeader + infoSize * (dst.length + 1) then none
      else addUniqItems size (dst ++ [s]) src

def mergedSize : ℕ → List (Option BufList) → ℕ
  | size, [] => size
  | size, none :: blSet => mergedSize size blSet
  | size, some bl :: blSet => mergedSize (u32 (size + u32 (bl.cnt * infoSize))) blSet

def addLists (size : ℕ) (dst : List BufInfo) : List (Option BufList) → Option (List BufInfo)
  | [] => some dst
  | none :: blSet => addLists size dst blSet
  | some bl :: blSet =>
    match addUniqItems size dst bl.entries with
    | none => none
    | some dst => addLists size dst blSet

def createMergedUniqList (granted : Bool) (blSet : List (Option BufList)) :
    Option (Option (List BufInfo)) :=
  let size := mergedSize listHeader blSet
  if size = 0 ∨ granted = false then some none
  else (addLists size [] blSet).map some

def inputs (blSet : List (Option BufList)) : List BufInfo :=
  blSet.flatMap fun bl => bl.elim [] BufList.entries

def Differ (seen : List BufInfo) (id : UInt32) : Prop :=
  ∃ x ∈ seen, ∃ y ∈ seen, x.bufId = id ∧ y.bufId = id ∧ x ≠ y

section
variable {size : ℕ} {s d f : BufInfo} {dst dst' seen src : List BufInfo}
  {blSet : List (Option BufList)} {granted : Bool}

theorem or_and_distrib (x y z : UInt32) : (x ||| y) &&& z = x &&& z ||| y &&& z :=
  UInt32.toBitVec_inj.1 BitVec.and_or_distrib_right

theorem and_not_of_clear {t c : UInt32} (h : t &&& c = 0) : t &&& ~~~c = t := by
  calc
    t &&& ~~~c = c &&& t ||| ~~~c &&& t := by
      rw [UInt32.and_comm c, h, UInt32.zero_or, UInt32.and_comm]
    _ = t := by rw [← or_and_distrib, UInt32.or_not_self, UInt32.neg_one_and]

theorem corrupt_corrupt (d : BufInfo) : d.corrupt.corrupt = d.corrupt := by
  simp [BufInfo.corrupt, UInt32.or_assoc]

def touch (s d : BufInfo) : BufInfo :=
  if s.bufId = d.bufId then (if s = d then d else d.corrupt) else d

@[simp] theorem touch_bufId (s d : BufInfo) : (touch s d).bufId = d.bufId := by
  unfold touch
  split <;> try split
  all_goals rfl

theorem compareItem_none (h : s.bufId ∉ dst.map BufInfo.bufId) : compareItem s dst = none := by
  induction dst with
  | nil => rfl
  | cons d dst ih =>
    rw [List.map_cons, List.mem_cons, not_or] at h
    rw [compareItem, if_neg h.1, ih h.2]
    rfl

theorem compareItem_some (hnd : (dst.map BufInfo.bufId).Nodup)
    (h : s.bufId ∈ dst.map BufInfo.bufId) : compareItem s dst = some (dst.map (touch s)) := by
  induction dst with
  | nil => exact absurd h List.not_mem_nil
  | cons d dst ih =>
    rw [List.map_cons, List.nodup_cons] at hnd
    rw [compareItem, List.map_cons]
    by_cases hid : s.bufId = d.bufId
    · have hrest : dst.map (touch s) = dst := by
        refine (List.map_congr_left fun x hx => ?_).trans (List.map_id dst)
        exact if_neg fun hx' => hnd.1 (List.mem_map.mpr ⟨x, hx, hx'.symm.trans hid⟩)
      rw [if_pos hid, hrest, touch, if_pos hid]
    · rw [if_neg hid, ih hnd.2 ((List.mem_cons.mp h).resolve_left hid), Option.map_some, touch,
        if_neg hid]

/-- `d` stands for the descriptors of its id among those seen: it is the first of them, marked if
    not all are equal. -/
def Stands (seen : List BufInfo) (d : BufInfo) : Prop :=
  ∃ f, seen.find? (·.bufId = d.bufId) = some f ∧
    ((∀ x ∈ seen, x.bufId = d.bufId → x = f) ∧ d = f ∨
      (∃ x ∈ seen, x.bufId = d.bufId ∧ x ≠ f) ∧ d = f.corrupt)

structure Merged (seen dst : List BufInfo) : Prop where
  nodup : (dst.map BufInfo.bufId).Nodup
  ids : ∀ id, id ∈ dst.map BufInfo.bufId ↔ id ∈ seen.map BufInfo.bufId
  length : dst.length ≤ seen.length
  stands : ∀ d ∈ dst, Stands seen d

theorem Stands.find_append (h : seen.find? (·.bufId = d.bufId) = some f) :
    (seen ++ [s]).find? (·.bufId = d.bufId) = some f := by
  rw [List.find?_append, h, Option.some_or]

theorem Stands.touch (h : Stands seen d) : Stands (seen ++ [s]) (touch s d) := by
  obtain ⟨f, hf, hd⟩ := h
  refine ⟨f, by simpa only [touch_bufId] using Stands.find_append hf, ?_⟩
  simp only [touch_bufId, List.mem_append, List.mem_singleton]
  by_cases hid : s.bufId = d.bufId
  · rcases hd with ⟨hall, rfl⟩ | ⟨⟨x, hx, hxd, hne⟩, hd⟩
    · by_cases hs : s = d
      · left
        rw [StateBufs.touch, if_pos hid, if_pos hs]
        exact ⟨fun x hx hxd => hx.elim (fun hx => hall x hx hxd) (·.trans hs), rfl⟩
      · right
        rw [StateBufs.touch, if_pos hid, if_neg hs]
        exact ⟨⟨s, .inr rfl, hid, hs⟩, rfl⟩
    · right
      refine ⟨⟨x, .inl hx, hxd, hne⟩, ?_⟩
      rw [StateBufs.touch, if_pos hid]
      split
      · exact hd
      · rw [hd, corrupt_corrupt]
  · rw [StateBufs.touch, if_neg hid]
    refine hd.imp (And.imp_left fun hall x hx hxd => ?_) (And.imp_left ?_)
    · exact hx.elim (fun hx => hall x hx hxd) fun hxs => absurd (hxs ▸ hxd) hid
    · exact fun ⟨x, hx, hxd⟩ => ⟨x, .inl hx, hxd⟩

theorem Merged.touch (m : Merged seen dst) (h : s.bufId ∈ dst.map BufInfo.bufId) :
    Merged (seen ++ [s]) (dst.map (touch s)) := by
  have hids : (dst.map (StateBufs.touch s)).map BufInfo.bufId = dst.map BufInfo.bufId := by
    rw [List.map_map]
    exact List.map_congr_left fun d _ => touch_bufId s d
  constructor
  · rw [hids]
    exact m.nodup
  · intro id
    rw [hids, m.ids, List.map_append, List.mem_append]
    refine (or_iff_left_of_imp fun hid => ?_).symm
    rw [List.mem_singleton.mp hid]
    exact (m.ids _).mp h
  · have := m.length
    simp only [List.length_map, List.length_append, List.length_singleton]
    omega
  · intro d hd
    obtain ⟨e, he, rfl⟩ := List.mem_map.mp hd
    exact (m.stands e he).touch

theorem Merged.push (m : Merged seen dst) (h : s.bufId ∉ dst.map BufInfo.bufId) :
    Merged (seen ++ [s]) (dst ++ [s]) := by
  have hnot : ∀ x ∈ seen, x.bufId ≠ s.bufId := fun x hx hxs =>
    h ((m.ids _).mpr (List.mem_map.mpr ⟨x, hx, hxs⟩))
  constructor
  · rw [List.map_append, List.nodup_append]
    refine ⟨m.nodup, List.nodup_singleton _, fun x hx y hy hxy => ?_⟩
    rw [List.mem_singleton.mp hy] at hxy
    exact h (hxy ▸ hx)
  · intro id
    simp only [List.map_append, List.mem_append, m.ids]
  · have := m.length
    simp only [List.length_append, List.length_singleton]
    omega
  · intro d hd
    rcases List.mem_append.mp hd with hd | hd
    · have htouch : StateBufs.touch s d = d :=
        if_neg fun hid => h (List.mem_map.mpr ⟨d, hd, hid.symm⟩)
      exact htouch ▸ (m.stands d hd).touch
    · obtain rfl := List.mem_singleton.mp hd
      refine ⟨d, ?_, .inl ⟨fun x hx hxd => ?_, rfl⟩⟩
      · rw [List.find?_append, List.find?_eq_none.mpr fun x hx => by simpa using hnot x hx,
          Option.none_or]
        simp
      · exact (List.mem_append.mp hx).elim (fun hx => absurd hxd (hnot x hx)) List.mem_singleton.mp

theorem addUniqItems_merged (m : Merged seen dst)
    (hsize : listHeader + infoSize * (seen ++ src).length ≤ size) :
    ∃ dst', addUniqItems size dst src = some dst' ∧ Merged (seen ++ src) dst' := by
  induction src generalizing seen dst with
  | nil => exact ⟨dst, rfl, by rwa [List.append_nil]⟩
  | cons s src ih =>
    rw [List.append_cons] at hsize ⊢
    by_cases h : s.bufId ∈ dst.map BufInfo.bufId
    · rw [addUniqItems, compareItem_some m.nodup h]
      exact ih (m.touch h) hsize
    · have hlen := m.length
      have hroom : ¬ size < listHeader + infoSize * (dst.length + 1) := by
        simp only [List.length_append, List.length_singleton, infoSize] at hsize ⊢
        omega
      rw [addUniqItems, compareItem_none h]
      simp only [if_neg hroom]
      exact ih (m.push h) hsize

theorem addLists_merged (m : Merged seen dst)
    (hsize : listHeader + infoSize * (seen ++ inputs blSet).length ≤ size) :
    ∃ dst', addLists size dst blSet = some dst' ∧ Merged (seen ++ inputs blSet) dst' := by
  induction blSet generalizing seen dst with
  | nil => exact ⟨dst, rfl, by rwa [inputs, List.flatMap_nil, List.append_nil]⟩
  | cons bl blSet ih =>
    cases bl with
    | none => exact ih m hsize
    | some bl =>
      have hin : inputs (some bl :: blSet) = bl.entries ++ inputs blSet := rfl
      rw [hin, ← List.append_assoc] at hsize ⊢
      have hfirst : listHeader + infoSize * (seen ++ bl.entries).length ≤ size := by
        rw [List.length_append, infoSize] at hsize
        rw [infoSize]
        omega
      obtain ⟨dst', hrun, m'⟩ := addUniqItems_merged m hfirst
      simp only [addLists, hrun]
      exact ih m' hsize

theorem getStateBufList_cnt {container : Option Container} {offset : ℕ} {l : BufList}
    (h : getStateBufList container offset = some l) : l.cnt ≤ 20 := by
  unfold getStateBufList at h
  split at h
  · cases h
  · split at h
    · cases h
    · split at h
      · cases h
      · split at h
        · cases h
        · next hcnt =>
          rw [← Option.some.inj h]
          exact Nat.le_of_not_lt hcnt

theorem mergedSize_eq (hacc : ∀ bl ∈ blSet, ∀ l, bl = some l → l.cnt ≤ 20)
    (hset : size + 320 * blSet.length < 4294967296) :
    mergedSize size blSet = size + infoSize * (inputs blSet).length := by
  induction blSet generalizing size with
  | nil => rfl
  | cons bl blSet ih =>
    rw [List.length_cons] at hset
    have hrest := fun b hb => hacc b (List.mem_cons_of_mem _ hb)
    cases bl with
    | none => exact ih hrest (by omega)
    | some bl =>
      have hcnt := hacc _ List.mem_cons_self bl rfl
      have hlen : (inputs (some bl :: blSet)).length = bl.cnt + (inputs blSet).length := by
        simp [inputs, BufList.entries]
      have hone : u32 (bl.cnt * infoSize) = bl.cnt * infoSize :=
        u32_of_lt (by rw [infoSize]; omega)
      have hsum : u32 (size + bl.cnt * infoSize) = size + bl.cnt * infoSize :=
        u32_of_lt (by rw [infoSize]; omega)
      rw [mergedSize, hone, hsum, ih hrest (by rw [infoSize]; omega), hlen, infoSize]
      omega

theorem create_merged_uniq_list_merges
    (hacc : ∀ bl ∈ blSet, ∃ container offset, bl = getStateBufList container offset)
    (hset : blSet.length ≤ 13421772) (hclear : ∀ x ∈ inputs blSet, x.type &&& bufDescCorrupt = 0) :
    ∃ dst, createMergedUniqList true blSet = some (some dst) ∧
      (dst.map BufInfo.bufId).Nodup ∧
      (∀ id, id ∈ dst.map BufInfo.bufId ↔ id ∈ (inputs blSet).map BufInfo.bufId) ∧
      ∀ d ∈ dst, ∃ f, (inputs blSet).find? (·.bufId = d.bufId) = some f ∧
        { d with type := d.type &&& ~~~bufDescCorrupt } = f ∧
        (d.type &&& bufDescCorrupt ≠ 0 ↔ Differ (inputs blSet) d.bufId) := by
  have hsize : mergedSize listHeader blSet = listHeader + infoSize * (inputs blSet).length := by
    refine mergedSize_eq (fun bl hbl l hl => ?_) (by rw [listHeader]; omega)
    obtain ⟨container, offset, h⟩ := hacc bl hbl
    exact getStateBufList_cnt (h.symm.trans hl)
  obtain ⟨dst, hrun, m⟩ := @addLists_merged (mergedSize listHeader blSet) [] [] blSet
    ⟨List.nodup_nil, fun _ => Iff.rfl, le_rfl, fun _ h => absurd h List.not_mem_nil⟩ (le_of_eq hsize.symm)
  refine ⟨dst, ?_, m.nodup, m.ids, fun d hd => ?_⟩
  · unfold createMergedUniqList
    have hne : mergedSize listHeader blSet ≠ 0 := by
      rw [hsize, listHeader]
      omega
    simp only [hne, false_or, Bool.true_eq_false, if_false, hrun, Option.map_some]
  obtain ⟨f, hf, h⟩ := m.stands d hd
  have hfc := hclear f (List.mem_of_find?_eq_some hf)
  have hfid : f.bufId = d.bufId := by simpa using List.find?_some hf
  have hfin := List.mem_of_find?_eq_some hf
  refine ⟨f, hf, ?_⟩
  rcases h with ⟨hall, rfl⟩ | ⟨⟨x, hx, hxd, hne⟩, rfl⟩
  · refine ⟨by rw [and_not_of_clear hfc], fun hset => absurd hfc hset, ?_⟩
    rintro ⟨x, hx, y, hy, hxd, hyd, hxy⟩
    exact absurd ((hall x hx hxd).trans (hall y hy hyd).symm) hxy
  · refine ⟨?_, fun _ => ⟨x, hx, f, hfin, hxd, hfid, hne⟩, fun _ => ?_⟩
    · simp only [BufInfo.corrupt]
      rw [or_and_distrib, and_not_of_clear hfc, UInt32.and_not_self, UInt32.or_zero]
    · simp only [BufInfo.corrupt]
      rw [or_and_distrib, hfc, UInt32.and_self, UInt32.zero_or]
      decide

/-- A buffer that both contexts use, with different sizes, and one of its own in the second; the
    list between them was refused. -/
def sampleSet : List (Option BufList) :=
  [some ⟨1, fun _ => ⟨7, 0, 64, 1⟩⟩, none,
    some ⟨2, fun i => if i = 0 then ⟨7, 0, 32, 1⟩ else ⟨9, 0, 8, 0⟩⟩]

def sampleMerged : List BufInfo := [⟨7, 0, 64, 0x80000001⟩, ⟨9, 0, 8, 0⟩]

theorem getStateBufList_mapped {l : BufList} (hcnt : l.cnt ≤ infoCount) :
    getStateBufList (some ⟨some fun _ => l, 4096⟩) 0 = some l := by
  unfold getStateBufList
  rw [u32_of_lt (by decide)]
  dsimp only
  rw [if_neg (by decide), if_neg (Nat.not_lt.mpr hcnt)]

theorem sampleSet_got (bl : Option BufList) (hbl : bl ∈ sampleSet) :
    ∃ container offset, bl = getStateBufList container offset := by
  simp only [sampleSet, List.mem_cons, List.not_mem_nil, or_false] at hbl
  rcases hbl with rfl | rfl | rfl
  · exact ⟨_, _, (getStateBufList_mapped (by decide)).symm⟩
  · exact ⟨none, 0, rfl⟩
  · exact ⟨_, _, (getStateBufList_mapped (by decide)).symm⟩

theorem create_merged_uniq_list_marks :
    createMergedUniqList true sampleSet = some (some sampleMerged) ∧
      (sampleMerged.map BufInfo.bufId).Nodup ∧
      (∀ id, id ∈ sampleMerged.map BufInfo.bufId ↔ id ∈ (inputs sampleSet).map BufInfo.bufId) ∧
      ∀ d ∈ sampleMerged, ∃ f, (inputs sampleSet).find? (·.bufId = d.bufId) = some f ∧
        { d with type := d.type &&& ~~~bufDescCorrupt } = f ∧
        (d.type &&& bufDescCorrupt ≠ 0 ↔ Differ (inputs sampleSet) d.bufId) := by
  obtain ⟨dst, hrun, hall⟩ :=
    create_merged_uniq_list_merges sampleSet_got (by decide) (by decide +kernel)
  have hsample : createMergedUniqList true sampleSet = some (some sampleMerged) := by
    decide +kernel
  obtain rfl : dst = sampleMerged := Option.some.inj (Option.some.inj (hrun.symm.trans hsample))
  exact ⟨hrun, hall⟩

end
end PvrServices.StateBufs
