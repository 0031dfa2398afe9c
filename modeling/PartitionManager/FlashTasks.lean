import PartitionManager.Flash
import PartitionManager.Resolve
import PartitionManager.Library.Run

namespace PartitionManager

/-- One process of `FlashPlugin::run`, as it stands when its `write` call begins:
the pair it was given, the partition object behind the name, and its I/O. -/
structure FlashTask (abi : Abi) where
  partitionName : Str
  imageName : Str
  partition : Partition
  setup : WriteSetup
  io : WriteIO abi

/-- Where the bytes of each partition lie on the disks. Partitions may share
cells: a logical partition lies inside `super`. -/
structure Layout where
  cell : Partition → Nat → Nat
  inj : ∀ p, Function.Injective (cell p)

structure FlashState where
  store : Nat → UInt8
  progress : Nat → WriteTask

namespace FlashPlugin

def imagePath (plugin : FlashPlugin) (imageName : Str) : Str :=
  if plugin.imageDirectory ≠ [] then plugin.imageDirectory ++ '/' :: imageName else imageName

/-- The arguments of the processes that `run` adds. -/
def processes (plugin : FlashPlugin) : Outcome (List (Str × Str)) :=
  if plugin.partitions.length ≠ plugin.imageNames.length then
    raise ((HelperError.mk "You must provide an image file(s) as long as the partition name(s)" 1
      false).cmdlineError.withCode EX_USAGE)
  else .ok (plugin.partitions.zip (plugin.imageNames.map plugin.imagePath))

end FlashPlugin

section

variable {abi : Abi}

/-- The task has got through the checks of `runAsync` and of `write`. -/
def FlashTask.Started (plugin : FlashPlugin) (flags : BasicFlags) (fs : FileSystem) (fileSize : Str → Int)
    (task : FlashTask abi) : Prop :=
  ∃ answers buf,
    plugin.precheck task.partitionName task.imageName abi flags fs answers fileSize =
      .ok (.inr (task.partition, buf)) ∧
    task.partition.writeSetup abi fs fileSize none task.io.errno task.imageName (abi.toSize buf) =
      .ok task.setup ∧
    fileSize task.imageName = task.io.image.length

/-- `run` accepts its lists and has started these tasks, one for each pair. -/
structure FlashPlugin.Starts (plugin : FlashPlugin) (flags : BasicFlags) (fs : FileSystem) (fileSize : Str → Int)
    (tasks : List (FlashTask abi)) : Prop where
  pairs : plugin.processes = .ok (tasks.map fun task => (task.partitionName, task.imageName))
  started : ∀ task ∈ tasks, task.Started plugin flags fs fileSize

namespace Layout

variable (layout : Layout)

/-- `chunk` written to `p` from `offset` on. -/
def put (store : Nat → UInt8) (p : Partition) (offset : Nat) (chunk : List UInt8) : Nat → UInt8 := fun c =>
  match (List.range chunk.length).find? fun i => layout.cell p (offset + i) = c with
  | some i => chunk.getD i 0
  | none => store c

def content (store : Nat → UInt8) (p : Partition) (size : Nat) : List UInt8 :=
  (List.range size).map fun k => store (layout.cell p k)

end Layout

/-- One step of the `i`-th task. -/
def flashStep (layout : Layout) (tasks : List (FlashTask abi)) (s : FlashState) (i : Nat) :
    Option (FlashState × Unit) :=
  match tasks[i]? with
  | none => none
  | some task =>
    match (s.progress i).stage with
    | .done _ => none
    | _ =>
      let next := writeStep task.io task.setup (s.progress i)
      some (⟨layout.put s.store task.partition (s.progress i).bytesWrittenSoFar next.2,
        Function.update s.progress i next.1⟩, ())

/-- Every task has its image open, and nothing has been written. -/
def flashStart (tasks : List (FlashTask abi)) (store : Nat → UInt8) : FlashState where
  store
  progress i := (tasks[i]?.map fun task => task.io.start).getD ⟨.reading, 0, 0, 0, 0⟩

/-- Every task has returned from `write` without an exception. -/
def Finished (tasks : List (FlashTask abi)) (s : FlashState) : Prop :=
  ∀ i task, tasks[i]? = some task → ∃ b, (s.progress i).stage = .done (.ok b)

/-- Each target holds one of the images given for it, and zeros behind it. -/
def Unmixed (layout : Layout) (tasks : List (FlashTask abi)) (s : FlashState) : Prop :=
  ∀ task ∈ tasks, ∃ other ∈ tasks, other.partition = task.partition ∧
    layout.content s.store task.partition task.setup.size = other.io.padded other.setup

/-- A content put together from bytes that the tasks write to the cells of a
target is one of the images for that target. -/
def Separable (layout : Layout) (tasks : List (FlashTask abi)) : Prop :=
  ∀ task ∈ tasks, ∀ content : List UInt8, content.length = task.setup.size →
    (∀ k < task.setup.size, ∃ other ∈ tasks, ∃ q < other.setup.size,
      layout.cell other.partition q = layout.cell task.partition k ∧
        content[k]? = (other.io.padded other.setup)[q]?) →
    ∃ other ∈ tasks, other.partition = task.partition ∧ content = other.io.padded other.setup

/-- What has been counted lies on the disk, or was written over by another task. -/
structure FlashState.Sound (layout : Layout) (tasks : List (FlashTask abi)) (s : FlashState) : Prop where
  stages : ∀ i task, tasks[i]? = some task → (s.progress i).Sound task.io task.setup
  bytes : ∀ i task, tasks[i]? = some task → ∀ k < (s.progress i).bytesWrittenSoFar,
    ∃ other ∈ tasks, ∃ q < other.setup.size,
      layout.cell other.partition q = layout.cell task.partition k ∧
        (other.io.padded other.setup)[q]? = some (s.store (layout.cell task.partition k))

theorem Layout.put_cases (layout : Layout) (store : Nat → UInt8) (p : Partition) (offset : Nat)
    (chunk : List UInt8) (c : Nat) :
    (∃ i < chunk.length, layout.cell p (offset + i) = c ∧
      chunk[i]? = some (layout.put store p offset chunk c)) ∨
    ((∀ i < chunk.length, layout.cell p (offset + i) ≠ c) ∧ layout.put store p offset chunk c = store c) := by
  unfold put
  cases hfind : (List.range chunk.length).find? fun i => layout.cell p (offset + i) = c with
  | some i =>
    have hi : i < chunk.length := List.mem_range.mp (List.mem_of_find?_eq_some hfind)
    have hc := List.find?_some hfind
    refine Or.inl ⟨i, hi, by simpa using hc, ?_⟩
    rw [List.getElem?_eq_getElem hi]
    simp [hi]
  | none =>
    refine Or.inr ⟨fun i hi hc => ?_, rfl⟩
    have hnot := List.find?_eq_none.mp hfind i (List.mem_range.mpr hi)
    simp [hc] at hnot

theorem flashStart_sound (layout : Layout) (tasks : List (FlashTask abi)) (store : Nat → UInt8) :
    (flashStart tasks store).Sound layout tasks := by
  have hprogress : ∀ i task, tasks[i]? = some task →
      (flashStart tasks store).progress i = task.io.start := by
    intro i task h
    simp [flashStart, h]
  constructor
  · intro i task h
    rw [hprogress i task h]
    exact WriteIO.start_sound
  · intro i task h k hk
    rw [hprogress i task h] at hk
    exact absurd hk (Nat.not_lt_zero k)

theorem flashStep_cases {layout : Layout} {tasks : List (FlashTask abi)} {s s' : FlashState} {i : Nat} {u : Unit}
    (h : flashStep layout tasks s i = some (s', u)) :
    ∃ task, tasks[i]? = some task ∧
      s' = ⟨layout.put s.store task.partition (s.progress i).bytesWrittenSoFar
          (writeStep task.io task.setup (s.progress i)).2,
        Function.update s.progress i (writeStep task.io task.setup (s.progress i)).1⟩ := by
  unfold flashStep at h
  split at h
  next => cases h
  next task htask =>
    refine ⟨task, htask, ?_⟩
    split at h
    next => cases h
    next =>
      cases h
      rfl

theorem flashStep_sound {layout : Layout} {tasks : List (FlashTask abi)} {s s' : FlashState} {i : Nat} {u : Unit}
    (hfits : ∀ task ∈ tasks, task.io.Fits task.setup) (hs : s.Sound layout tasks)
    (h : flashStep layout tasks s i = some (s', u)) : s'.Sound layout tasks := by
  obtain ⟨task, htask, rfl⟩ := flashStep_cases h
  have hmem : task ∈ tasks := List.mem_of_getElem? htask
  obtain ⟨hsound, hputs⟩ := writeStep_sound (hfits task hmem) (hs.stages i task htask)
  have hwithin := hputs.within
  constructor
  · intro j other hother
    by_cases hj : j = i
    · subst hj
      obtain rfl := Option.some.inj (htask.symm.trans hother)
      dsimp only
      rw [Function.update_self]
      exact hsound
    · dsimp only
      rw [Function.update_of_ne hj]
      exact hs.stages j other hother
  · intro j other hother k hk
    dsimp only at hk ⊢
    rcases layout.put_cases s.store task.partition (s.progress i).bytesWrittenSoFar
        (writeStep task.io task.setup (s.progress i)).2 (layout.cell other.partition k) with
      ⟨x, hx, hcell, hbyte⟩ | ⟨hnot, hkept⟩
    · refine ⟨task, hmem, (s.progress i).bytesWrittenSoFar + x, by omega, hcell, ?_⟩
      have hat := congrArg (·[x]?) hputs.bytes
      rw [Bytes.slice_getElem?, if_pos hx] at hat
      rw [← hat]
      exact hbyte
    · rw [hkept]
      refine hs.bytes j other hother k ?_
      by_cases hj : j = i
      · -- a byte the task has counted in this step would have been put
        subst hj
        obtain rfl := Option.some.inj (htask.symm.trans hother)
        rw [Function.update_self] at hk
        by_contra hge
        have hcounted := hputs.counted
        refine hnot (k - (s.progress j).bytesWrittenSoFar) (by omega) ?_
        rw [Nat.add_sub_cancel' (by omega)]
      · rwa [Function.update_of_ne hj] at hk

/-- In a sound state without unfinished tasks every target is unmixed, if its images are separable. -/
theorem FlashState.Sound.unmixed {layout : Layout} {tasks : List (FlashTask abi)} {s : FlashState}
    (hs : s.Sound layout tasks) (hsep : Separable layout tasks) (hdone : Finished tasks s) :
    Unmixed layout tasks s := by
  intro task hmem
  obtain ⟨i, htask⟩ := List.mem_iff_getElem?.mp hmem
  refine hsep task hmem _ (by simp [Layout.content]) fun k hk => ?_
  obtain ⟨b, hb⟩ := hdone i task htask
  have hall : (s.progress i).bytesWrittenSoFar = task.setup.size := by
    have hsound := hs.stages i task htask
    unfold WriteTask.Sound at hsound
    rw [hb] at hsound
    exact hsound.1
  obtain ⟨other, hother, q, hq, hcell, hbyte⟩ := hs.bytes i task htask k (by omega)
  refine ⟨other, hother, q, hq, hcell, ?_⟩
  rw [hbyte, Layout.content, List.getElem?_map, List.getElem?_range hk]
  rfl

theorem FlashTask.Started.fits {plugin : FlashPlugin} {flags : BasicFlags} {fs : FileSystem}
    {fileSize : Str → Int} {task : FlashTask abi} (h : task.Started plugin flags fs fileSize) :
    task.io.Fits task.setup := by
  obtain ⟨answers, buf, _, hsetup, hfile⟩ := h
  obtain ⟨_, himage, hle⟩ := Partition.writeSetup_size hsetup
  have hlength : task.setup.imageSize = task.io.image.length := by omega
  exact ⟨hlength, hlength ▸ hle⟩

theorem findPartition_resolve {flags : BasicFlags} {fs : FileSystem} {answers : List Str} {name : Str}
    {found : Option Partition} {tType : Option TableType}
    (h : findPartition flags fs answers name = .ok (found, tType)) :
    resolve fs answers name flags.first flags.second = .ok found := by
  obtain ⟨p, hp, heq⟩ := Checks.bind_ok_iff.mp h
  cases heq
  exact hp

theorem FlashTask.Started.name {plugin : FlashPlugin} {flags : BasicFlags} {fs : FileSystem}
    {fileSize : Str → Int} {task : FlashTask abi} (h : task.Started plugin flags fs fileSize) :
    task.partition.name = task.partitionName := by
  obtain ⟨answers, buf, hpre, _, _⟩ := h
  obtain ⟨tType, hfound⟩ := FlashPlugin.precheck_partition hpre
  exact resolve_name (findPartition_resolve hfound)

theorem FlashPlugin.Starts.names {plugin : FlashPlugin} {flags : BasicFlags} {fs : FileSystem}
    {fileSize : Str → Int} {tasks : List (FlashTask abi)} (h : plugin.Starts flags fs fileSize tasks) :
    tasks.map FlashTask.partitionName = plugin.partitions := by
  have hpairs := h.pairs
  unfold processes at hpairs
  split at hpairs
  next => cases hpairs
  next hlength =>
    have hfst := congrArg (List.map Prod.fst) (Except.ok.inj hpairs)
    rw [List.map_fst_zip (by rw [List.length_map]; omega), List.map_map] at hfst
    exact hfst.symm

/-- Images of targets that are named once and share no storage are separable. -/
theorem separable_of_distinct {layout : Layout} {plugin : FlashPlugin} {flags : BasicFlags} {fs : FileSystem}
    {fileSize : Str → Int} {tasks : List (FlashTask abi)} (hstarts : plugin.Starts flags fs fileSize tasks)
    (hnames : plugin.partitions.Nodup)
    (hapart : ∀ task ∈ tasks, ∀ other ∈ tasks, ∀ k q,
      layout.cell other.partition q = layout.cell task.partition k → other.partition = task.partition) :
    Separable layout tasks := by
  rw [← hstarts.names] at hnames
  intro task hmem content hlength hbytes
  refine ⟨task, hmem, rfl, List.ext_getElem? fun k => ?_⟩
  by_cases hk : k < task.setup.size
  · obtain ⟨other, hother, q, _, hcell, hbyte⟩ := hbytes k hk
    have hpartition : other.partition = task.partition := hapart task hmem other hother k q hcell
    have hname : other.partitionName = task.partitionName := by
      rw [← (hstarts.started other hother).name, ← (hstarts.started task hmem).name, hpartition]
    obtain rfl := List.inj_on_of_nodup_map hnames hother hmem hname
    obtain rfl := layout.inj _ hcell
    exact hbyte
  · have hpadded := WriteIO.padded_length (hstarts.started task hmem).fits
    rw [List.getElem?_eq_none (by omega), List.getElem?_eq_none (by omega)]

/-- However the tasks take turns, separable images do not mix. -/
theorem flash_unmixed {layout : Layout} {plugin : FlashPlugin} {flags : BasicFlags} {fs : FileSystem}
    {fileSize : Str → Int} {tasks : List (FlashTask abi)} {store : Nat → UInt8}
    {ts : List (Run.Transition FlashState Nat Unit)} (hstarts : plugin.Starts flags fs fileSize tasks)
    (hsep : Separable layout tasks)
    (hrun : Run.IsRun (flashStep layout tasks) (flashStart tasks store) ts) :
    ∀ t ∈ ts, Finished tasks t.after → Unmixed layout tasks t.after :=
  Run.forall_of_invariant (fun _ _ _ _ hs hstep =>
    have hs' := flashStep_sound (fun task hmem => (hstarts.started task hmem).fits) hs hstep
    ⟨fun hdone => hs'.unmixed hsep hdone, hs'⟩) (flashStart_sound layout tasks store) hrun

end

/-- One disk, of which every partition has the first bytes. -/
def sharedDisk : Layout := ⟨fun _ k => k, fun _ _ _ h => h⟩

/-- A task that flashes two equal bytes to `boot`, one at a time. -/
def twoByteTask (imageName : Str) (byte : UInt8) : FlashTask .arm64_v8a where
  partitionName := "boot"
  imageName
  partition := bootPartition 2
  setup := ⟨imageName, "/dev/block/sda1", 2, 2, 2⟩
  io :=
    { image := [byte, byte]
      reads := Schedule.oneByte _
      writes := Schedule.oneByte _
      openpart_sync := 0
      errno := 0
      strerror := fun _ => [] }

def imagesFileSystem : FileSystem :=
  { bootFileSystem with fileIsExists := fun path => path = "a.img" ∨ path = "b.img" }

theorem twoByteTask_started {plugin : FlashPlugin} {imageName : Str} {byte : UInt8}
    (himage : imageName = "a.img" ∨ imageName = "b.img") (hbuffer : plugin.bufferSize = 1048576) :
    (twoByteTask imageName byte).Started plugin (bootFlags 2) imagesFileSystem (fun _ => 2) := by
  have hsetup : (bootPartition 2).writeSetup .arm64_v8a imagesFileSystem (fun _ => 2) none 0 imageName
      (Abi.arm64_v8a.toSize (2 : Nat)) = .ok ⟨imageName, "/dev/block/sda1", 2, 2, 2⟩ := by rfl
  obtain ⟨partitions, imageNames, imageDirectory, bufferSize, deleteAfterProgress⟩ := plugin
  dsimp only at hbuffer
  subst hbuffer
  rcases himage with rfl | rfl
  · exact ⟨[], 2, by rfl, hsetup, rfl⟩
  · exact ⟨[], 2, by rfl, hsetup, rfl⟩

/-- `boot` and `vbmeta`, two bytes each, in the first two slots of a disk. -/
def stripedPartition (name : Str) (index : Nat) : Partition where
  localTablePath := "/dev/block/sda"
  logicalPartitionPath := []
  localIndex := index
  gptPart := ⟨name, true, index + 1, 2 * index, 2 * index + 1⟩
  op := some ⟨Partition.slotPath "/dev/block/sda" index, 2, true⟩
  isLogical := false

def twoSlots : PartitionTableData where
  gptDataCollection := [("/dev/block/sda", ⟨512, [⟨"boot", true, 1, 0, 1⟩, ⟨"vbmeta", true, 2, 2, 3⟩], 0, 3⟩)]
  localPartitions := [stripedPartition "boot" 0, stripedPartition "vbmeta" 1]
  localTableNames := (bootTable 2).localTableNames
  physical := by
    intro p hp
    rcases List.mem_cons.mp hp with rfl | hp
    · rfl
    · rw [List.mem_singleton.mp hp]
      rfl

def twoSlotFlags : BasicFlags := { partitionTables := (some twoSlots, some noLogical), forceProcess := true }

/-- The slots take turns on the disk, byte by byte. -/
def stripes : Layout := ⟨fun p k => 2 * k + p.localIndex % 2, fun p a b h => by dsimp only at h; omega⟩

def slotFlash : FlashPlugin :=
  { partitions := ["boot", "vbmeta"], imageNames := ["boot.img", "vbmeta.img"], imageDirectory := "/sdcard/backups",
    bufferSize := 1048576 }

def slotFlashTask (name : Str) (index : Nat) (imageName toWrite : Str) (image : List UInt8) :
    FlashTask .arm64_v8a where
  partitionName := name
  imageName
  partition := stripedPartition name index
  setup := ⟨imageName, toWrite, 2, 2, 2⟩
  io := ⟨image, Schedule.oneByte _, Schedule.oneByte _, 0, 0, fun _ => []⟩

def slotFlashTasks : List (FlashTask .arm64_v8a) :=
  [slotFlashTask "boot" 0 "/sdcard/backups/boot.img" "/dev/block/sda1" [1, 2],
    slotFlashTask "vbmeta" 1 "/sdcard/backups/vbmeta.img" "/dev/block/sda2" [3, 4]]

/-- The two tasks take turns. -/
def slotRun : List (Run.Transition FlashState Nat Unit) :=
  (Run.trace (flashStep stripes slotFlashTasks) (flashStart slotFlashTasks fun _ => 9)
    [0, 1, 0, 1, 0, 1, 0, 1, 0, 1, 0, 1]).getD []

theorem slotFlash_starts : slotFlash.Starts twoSlotFlags
    { bootFileSystem with fileIsExists := fun _ => true } (fun _ => 2) slotFlashTasks := by
  refine ⟨rfl, fun task hmem => ⟨[], 2, ?_⟩⟩
  rcases List.mem_cons.mp hmem with rfl | hmem
  · exact ⟨rfl, rfl, rfl⟩
  · rw [List.mem_singleton.mp hmem]
    exact ⟨rfl, rfl, rfl⟩

theorem slotFlash_apart : ∀ task ∈ slotFlashTasks, ∀ other ∈ slotFlashTasks, ∀ k q,
    stripes.cell other.partition q = stripes.cell task.partition k → other.partition = task.partition := by
  intro task hmem other hother k q h
  rcases List.mem_cons.mp hmem with rfl | hmem <;> rcases List.mem_cons.mp hother with rfl | hother
  · rfl
  · rw [List.mem_singleton.mp hother] at h
    have hodd : 2 * q + 1 = 2 * k := h
    omega
  · rw [List.mem_singleton.mp hmem] at h
    have hodd : 2 * q = 2 * k + 1 := h
    omega
  · rw [List.mem_singleton.mp hmem, List.mem_singleton.mp hother]

theorem slotRun_finished (hne : slotRun ≠ []) : Finished slotFlashTasks (slotRun.getLast hne).after := by
  intro i task htask
  match i with
  | 0 => exact ⟨true, rfl⟩
  | 1 => exact ⟨true, rfl⟩
  | i + 2 => cases htask

theorem flash_unmixed_slots : ∃ t ∈ slotRun, Finished slotFlashTasks t.after ∧
    Unmixed stripes slotFlashTasks t.after := by
  have hne : slotRun ≠ [] := List.ne_nil_of_length_pos (by decide)
  have hfinished := slotRun_finished hne
  have hseparable : Separable stripes slotFlashTasks :=
    separable_of_distinct slotFlash_starts (by decide) slotFlash_apart
  have hrun : Run.IsRun (flashStep stripes slotFlashTasks) (flashStart slotFlashTasks fun _ => 9) slotRun :=
    Run.isRun_getD_trace rfl
  exact ⟨_, List.getLast_mem hne, hfinished,
    flash_unmixed slotFlash_starts hseparable hrun _ (List.getLast_mem hne) hfinished⟩

/-- `boot` named twice. -/
def doubleFlash : FlashPlugin :=
  { partitions := ["boot", "boot"], imageNames := ["a.img", "b.img"], bufferSize := 1048576 }

def doubleTasks : List (FlashTask .arm64_v8a) := [twoByteTask "a.img" 1, twoByteTask "b.img" 2]

/-- The second task runs between the two bytes of the first. -/
def doubleRun : List (Run.Transition FlashState Nat Unit) :=
  (Run.trace (flashStep sharedDisk doubleTasks) (flashStart doubleTasks fun _ => 9)
    [0, 0, 1, 1, 1, 1, 1, 1, 0, 0, 0, 0]).getD []

theorem flash_mixes :
    doubleFlash.Starts (bootFlags 2) imagesFileSystem (fun _ => 2) doubleTasks ∧
    Run.IsRun (flashStep sharedDisk doubleTasks) (flashStart doubleTasks fun _ => 9) doubleRun ∧
    ∃ t ∈ doubleRun, Finished doubleTasks t.after ∧ ¬ Unmixed sharedDisk doubleTasks t.after := by
  refine ⟨⟨rfl, ?_⟩, Run.isRun_getD_trace rfl, ?_⟩
  · simp only [doubleTasks, List.forall_mem_cons]
    exact ⟨twoByteTask_started (Or.inl rfl) rfl, twoByteTask_started (Or.inr rfl) rfl,
      fun task hmem => absurd hmem List.not_mem_nil⟩
  · have hne : doubleRun ≠ [] := List.ne_nil_of_length_pos (by decide)
    refine ⟨doubleRun.getLast hne, List.getLast_mem hne, ?_, fun hunmixed => ?_⟩
    · intro i task htask
      match i with
      | 0 => exact ⟨true, rfl⟩
      | 1 => exact ⟨true, rfl⟩
      | i + 2 => cases htask
    · obtain ⟨other, hother, _, hcontent⟩ := hunmixed _ List.mem_cons_self
      have hmixed : sharedDisk.content (doubleRun.getLast hne).after.store (bootPartition 2) 2 = [2, 1] := by rfl
      rw [show sharedDisk.content (doubleRun.getLast hne).after.store (bootPartition 2) 2 = _ from hcontent]
        at hmixed
      rcases List.mem_cons.mp hother with rfl | hother
      · cases hmixed
      · rw [List.mem_singleton.mp hother] at hmixed
        cases hmixed

end PartitionManager
