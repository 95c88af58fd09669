import PvrServices.CommandTableSizes
import PvrServices.MapMemorySizes
import PvrServices.QueueBlocks

set_option autoImplicit false

/-!
# The allocators that blocks go back to

Command queues, command tables and mapped memory next to each other. `OSFreeMem` chooses the
allocator that a block goes back to by the size that it is told.
-/
namespace PvrServices.SizeRuns
open BlockHeap Runs MapMemory

structure Driver where
  queues : QueueBlocks.Queues
  tables : CommandTables.SysTables
  maps : Maps

def driverInit : Driver := ⟨QueueBlocks.queuesInit, CommandTables.sysTables, mapsInit⟩

inductive DriverOp where
  | queue (op : QueueBlocks.QueueOp)
  | table (op : CommandTables.Op)
  | map (op : MapOp)

inductive DriverAnswer where
  | queue (r : Except PvrsrvError ℕ)
  | table (r : CommandTables.Reply)
  | map (r : Except PvrsrvError ℕ)

def driverStep (s : Driver) : DriverOp → Option (DriverAnswer × Driver)
  | .queue op => (QueueBlocks.queueStep s.queues op).map fun r =>
      (.queue r.1, { s with queues := r.2 })
  | .table op => (CommandTables.step s.tables op).map fun r =>
      (.table r.1, { s with tables := r.2 })
  | .map op => (mapStep s.maps op).map fun r => (.map r.1, { s with maps := r.2 })

/-- Every free so far was told a size on the side of `LINUX_KMALLOC_LIMIT` that its block was
    allocated on. -/
structure Matched (s : Driver) : Prop where
  queues : ClassesKept usesVmalloc s.queues.heap.events
  tables : ClassesKept usesVmalloc s.tables.heap.events
  maps : ClassesKept usesVmalloc s.maps.heap.events

/-- No queue of one page is destroyed; a registration that fails has no more than 1024 commands, a
    removal the count of the registration or one on its side; a mapping that fails has no more
    than 1024 pages, and memory that is unwrapped has its count of pages at its kernel address or
    one on its side. -/
def SideKept (s : Driver) : DriverOp → Prop
  | .queue op => QueueBlocks.SideKept s.queues op
  | .table op => CommandTables.SideKept s.tables op
  | .map op => MapMemory.SideKept s.maps op

structure Settled (s : Driver) : Prop where
  queues : QueueBlocks.Buffered s.queues
  queuesBooked : Booked QueueBlocks.Content.size s.queues.heap
  tablesBooked : Booked CommandTables.contentSize s.tables.heap
  maps : Listed none s.maps.heap
  mapsBooked : Booked Content.size s.maps.heap

variable {s t : Driver} {op : DriverOp} {r : DriverAnswer}

theorem settled_init : Settled driverInit :=
  ⟨QueueBlocks.buffered_init, booked_empty, booked_empty, listed_init, booked_empty⟩

theorem classesKept_empty {cls : ℕ → Bool} : ClassesKept cls [] := classesSince_refl

theorem matched_init : Matched driverInit :=
  ⟨classesKept_empty, classesKept_empty, classesKept_empty⟩

theorem Settled.step (h : Settled s) (hs : driverStep s op = some (r, t)) :
    Settled t ∧ (Matched t ↔ Matched s ∧ SideKept s op) := by
  cases op with
  | queue op =>
    obtain ⟨x, hx, heq⟩ := Option.map_eq_some_iff.mp hs
    rw [← (Prod.mk.inj heq).2]
    obtain ⟨hbetween, hbuffered⟩ := QueueBlocks.queueStep_fair h.queues hx
    refine ⟨⟨hbuffered, hbetween.booked h.queuesBooked, h.tablesBooked, h.maps, h.mapsBooked⟩, ?_⟩
    have hkept := hbetween.kept h.queuesBooked
    constructor
    · intro hm
      obtain ⟨hold, hgood⟩ := hkept.mp hm.queues
      exact ⟨⟨hold, hm.tables, hm.maps⟩, hgood⟩
    · intro hboth
      exact ⟨hkept.mpr ⟨hboth.1.queues, hboth.2⟩, hboth.1.tables, hboth.1.maps⟩
  | table op =>
    obtain ⟨x, hx, heq⟩ := Option.map_eq_some_iff.mp hs
    rw [← (Prod.mk.inj heq).2]
    have hbetween := CommandTables.step_between hx
    refine ⟨⟨h.queues, h.queuesBooked, hbetween.booked h.tablesBooked, h.maps, h.mapsBooked⟩, ?_⟩
    have hkept := hbetween.kept h.tablesBooked
    constructor
    · intro hm
      obtain ⟨hold, hgood⟩ := hkept.mp hm.tables
      exact ⟨⟨hm.queues, hold, hm.maps⟩, hgood⟩
    · intro hboth
      exact ⟨hboth.1.queues, hkept.mpr ⟨hboth.1.tables, hboth.2⟩, hboth.1.maps⟩
  | map op =>
    obtain ⟨x, hx, heq⟩ := Option.map_eq_some_iff.mp hs
    rw [← (Prod.mk.inj heq).2]
    obtain ⟨hbetween, hlisted⟩ := mapStep_fair h.maps hx
    refine ⟨⟨h.queues, h.queuesBooked, h.tablesBooked, hlisted, hbetween.booked h.mapsBooked⟩, ?_⟩
    have hkept := hbetween.kept h.mapsBooked
    constructor
    · intro hm
      obtain ⟨hold, hgood⟩ := hkept.mp hm.maps
      exact ⟨⟨hm.queues, hm.tables, hold⟩, hgood⟩
    · intro hboth
      exact ⟨hboth.1.queues, hboth.1.tables, hkept.mpr ⟨hboth.1.maps, hboth.2⟩⟩

/-- In every run of the three subsystems, each block goes back to the allocator that it came from
    exactly if every call keeps to its side. -/
theorem matched_over_runs {l : List (DriverOp × DriverAnswer)} {t : Driver}
    (run : Run driverStep (fun _ _ => True) driverInit l t) :
    Matched t ↔ Run driverStep SideKept driverInit l t :=
  run.kept_iff Settled Matched settled_init matched_init fun _ _ _ _ hs _ hstep => hs.step hstep

def sampleOps : List DriverOp :=
  [.queue (.create 8000 (some 4096) (some 8192)),
    .table (.register ⟨3, [⟨7, 1, 1⟩, ⟨9, 2, 0⟩], some 4096, some 8192, fun i => some (i + 64)⟩),
    .map (.wrap ⟨1, 5, 4096, 65552, none, some 256, some ⟨300, 0⟩, ⟨false, true, false⟩, some 512,
      some ⟨600, 0⟩, none, ⟨some 700, some 800, some ⟨900, 0⟩, none, true⟩, some 1000⟩),
    .table (.remove 3 2), .map (.release 1000), .queue (.destroy 4096 true)]

theorem matched_over_sample : ∃ l t, exec driverStep driverInit sampleOps = some (l, t) ∧
    l.length = 6 ∧ Run driverStep SideKept driverInit l t := by
  have hend : (exec driverStep driverInit sampleOps).map (fun x => (x.1.length,
      classesRight usesVmalloc (fun _ => none) x.2.queues.heap.events,
      classesRight usesVmalloc (fun _ => none) x.2.tables.heap.events,
      classesRight usesVmalloc (fun _ => none) x.2.maps.heap.events)) =
      some (6, true, true, true) := by
    decide +kernel
  obtain ⟨x, hx, hall⟩ := Option.map_eq_some_iff.mp hend
  obtain ⟨hlen, hrest⟩ := Prod.mk.inj hall
  obtain ⟨hqueues, hrest⟩ := Prod.mk.inj hrest
  obtain ⟨htables, hmaps⟩ := Prod.mk.inj hrest
  have hrun : Run driverStep (fun _ _ => True) driverInit x.1 x.2 :=
    Run.of_exec hx fun _ _ _ => trivial
  refine ⟨x.1, x.2, hx, hlen, (matched_over_runs hrun).mp ⟨?_, ?_, ?_⟩⟩
  · exact classesKept_iff_check.mpr hqueues
  · exact classesKept_iff_check.mpr htables
  · exact classesKept_iff_check.mpr hmaps

/-- Memory of 4 MiB that is wrapped by a user address inside a page: its list has 1025 addresses, and
    the release counts 1024 pages at the null address of the kernel. -/
theorem wrap_of_four_megabytes : ∃ l t, Run driverStep (fun _ _ => True) driverInit l t ∧
    ¬Matched t := by
  have hend : (exec driverStep driverInit [.map (.wrap ⟨1, 5, 4194304, 65552, none, some 256,
      some ⟨300, 0⟩, ⟨false, true, false⟩, some 512, some ⟨600, 0⟩, none,
      ⟨some 700, some 800, some ⟨900, 0⟩, none, true⟩, some 1000⟩), .map (.release 1000)]).map
        (fun x => classesRight usesVmalloc (fun _ => none) x.2.maps.heap.events) = some false := by
    decide +kernel
  obtain ⟨x, hx, hwrong⟩ := Option.map_eq_some_iff.mp hend
  refine ⟨x.1, x.2, Run.of_exec hx fun _ _ _ => trivial, fun hm => ?_⟩
  rw [classesKept_iff_check.mp hm.maps] at hwrong
  cases hwrong

end PvrServices.SizeRuns
