import PartitionManager.BackupTasks

namespace PartitionManager

section

variable {abi : Abi}

/-- The images are flashed, as they were saved, to the partitions that they were taken from
when `store` was on the disks. -/
structure FlashesBack (layout : Layout) (host : BackupHost) (backups : List (BackupTask abi))
    (store : Nat → UInt8) (saved : BackupFiles) (tasks : List (FlashTask abi)) : Prop where
  image : ∀ task ∈ tasks, saved (host.place task.imageName) = some task.io.image
  taken : ∀ task ∈ tasks, ∃ backup ∈ backups, backup.outputName = task.imageName ∧
    backup.io.content = layout.content store task.partition task.setup.size

/-- The targets have all the bytes that were on them. -/
def Restored (layout : Layout) (store : Nat → UInt8) (tasks : List (FlashTask abi)) (s : FlashState) : Prop :=
  ∀ task ∈ tasks, layout.content s.store task.partition task.setup.size =
    layout.content store task.partition task.setup.size

theorem WriteIO.padded_of_full {io : WriteIO abi} {setup : WriteSetup} (h : io.image.length = setup.size) :
    io.padded setup = io.image := by
  unfold padded
  rw [h, Nat.sub_self, List.replicate_zero, List.append_nil]

/-- Tasks for one partition agree on its size. -/
theorem FlashPlugin.Starts.size_eq {plugin : FlashPlugin} {flags : BasicFlags} {fs : FileSystem}
    {fileSize : Str → Int} {tasks : List (FlashTask abi)} (h : plugin.Starts flags fs fileSize tasks)
    {task other : FlashTask abi} (htask : task ∈ tasks) (hother : other ∈ tasks)
    (heq : other.partition = task.partition) : other.setup.size = task.setup.size := by
  obtain ⟨_, _, _, hsetup, _⟩ := h.started task htask
  obtain ⟨_, _, _, hsetup', _⟩ := h.started other hother
  have hsize := (Partition.writeSetup_size hsetup).1
  have hsize' := (Partition.writeSetup_size hsetup').1
  rw [heq, hsize] at hsize'
  exact (Except.ok.inj hsize').symm

/-- What the threads of a backup have saved, whatever their order, the threads of a flash give
back, whatever theirs, and whatever has become of the disks in between. -/
theorem restore_in_any_order {layout : Layout} {host : BackupHost} {backups : List (BackupTask abi)}
    {files saved : BackupFiles} {schedule : List (Fin backups.length)} {pool : BackupPool backups}
    {store store' : Nat → UInt8} {plugin : FlashPlugin} {flags : BasicFlags} {fs : FileSystem}
    {fileSize : Str → Int} {tasks : List (FlashTask abi)} {ts : List (Run.Transition FlashState Nat Unit)}
    (hbackup : host.Starts backups)
    (hexec : Workers.exec (backupTurns host backups) (backupStart backups files) schedule = some pool)
    (hanswer : backupAnswer backups pool = .ok true) (htelling : ∀ backup ∈ backups, backup.Telling host files)
    (hkept : ∀ backup ∈ backups, saved (host.place backup.outputName) = pool.store (host.place backup.outputName))
    (hflash : plugin.Starts flags fs fileSize tasks) (hnames : plugin.partitions.Nodup)
    (hapart : ∀ task ∈ tasks, ∀ other ∈ tasks, ∀ k q,
      layout.cell other.partition q = layout.cell task.partition k → other.partition = task.partition)
    (hback : FlashesBack layout host backups store saved tasks)
    (hrun : Run.IsRun (flashStep layout tasks) (flashStart tasks store') ts) :
    ∀ t ∈ ts, Finished tasks t.after → Restored layout store tasks t.after := by
  have hwhole := (backup_settled hbackup hexec).answer hanswer htelling
  have hsep : Separable layout tasks := separable_of_distinct hflash hnames hapart
  have himage : ∀ task ∈ tasks, task.io.image = layout.content store task.partition task.setup.size := by
    intro task hmem
    obtain ⟨backup, hbmem, hname, hcontent⟩ := hback.taken task hmem
    have hsaved : saved (host.place backup.outputName) = some backup.io.content :=
      (hkept backup hbmem).trans (hwhole backup hbmem)
    rw [hname, hback.image task hmem, hcontent] at hsaved
    exact Option.some.inj hsaved
  have hsound : ∀ t ∈ ts, t.after.Sound layout tasks := Run.forall_of_invariant (fun _ _ _ _ hs hstep =>
    have hs' := flashStep_sound (fun task hmem => (hflash.started task hmem).fits) hs hstep
    ⟨hs', hs'⟩) (flashStart_sound layout tasks store') hrun
  intro t ht hdone task hmem
  obtain ⟨other, hother, heq, hcontent⟩ := (hsound t ht).unmixed hsep hdone task hmem
  have hsize := hflash.size_eq hmem hother heq
  have hfull : other.io.image.length = other.setup.size := by
    rw [himage other hother, Layout.content_length]
  rw [hcontent, WriteIO.padded_of_full hfull, himage other hother, heq, hsize]

end

/-- Both threads take turns one by one. -/
def slotSchedule : List (Fin slotBackupTasks.length) :=
  (List.replicate 6 [⟨0, Nat.zero_lt_succ 1⟩, ⟨1, Nat.lt_succ_self 1⟩]).flatten

def slotsSaved : BackupPool slotBackupTasks :=
  (Workers.exec (backupTurns slotBackupHost slotBackupTasks) (backupStart slotBackupTasks fun _ => none)
    slotSchedule).getD (backupStart slotBackupTasks fun _ => none)

/-- The disk that the backup was taken from. -/
def slotStore (c : Nat) : UInt8 := ([1, 3, 2, 4] : List UInt8).getD c 0

theorem slotBackup_copies {name outputName : Str} {index : Nat} {content : List UInt8} {setup : DumpSetup}
    (hpre : (slotBackupTask name outputName content).precheck slotBackupHost (fun _ => none) =
      .ok (.inr (stripedPartition name index, 2)))
    (h : slotBackup.Copies ((slotBackupTask name outputName content).world slotBackupHost fun _ => none) name
      outputName setup) : setup.bufferSize = 2 ∧ setup.totalBytesToRead = 2 := by
  obtain ⟨p, buf, hpre', hsetup⟩ := h
  cases hpre.symm.trans hpre'
  obtain ⟨hsize, hbuffer⟩ := Partition.dumpSetup_size hsetup
  have htwo : (.ok 2 : Outcome Nat) = .ok setup.totalBytesToRead := hsize
  have htotal := (Except.ok.inj htwo).symm
  rw [htotal] at hbuffer
  exact ⟨hbuffer, htotal⟩

/-- Reads that get a byte each time have nothing to tell. -/
theorem slotBackup_telling {name outputName : Str} {index : Nat} {content : List UInt8}
    (hlength : content.length = 2)
    (hpre : (slotBackupTask name outputName content).precheck slotBackupHost (fun _ => none) =
      .ok (.inr (stripedPartition name index, 2)))
    (hfound : findPartition twoSlotFlags ((slotBackupTask name outputName content).world slotBackupHost
      fun _ => none).fs [] name = .ok (some (stripedPartition name index), some .CLASSIC)) :
    (slotBackupTask name outputName content).Telling slotBackupHost fun _ => none := by
  let w : BackupWorld .arm64_v8a := (slotBackupTask name outputName content).world slotBackupHost fun _ => none
  have hbyte : ∀ setup k s, slotBackup.Copies w name outputName setup → DumpReads w.fs w.io setup k s →
      w.io.bytesRead setup s = 1 := by
    intro setup k s hcopies hreads
    obtain ⟨hbuffer, htotal⟩ := slotBackup_copies hpre hcopies
    have hmore := hreads.2
    have hto : s.toRead setup ≠ 0 := by
      unfold DumpState.toRead
      omega
    exact if_neg hto
  refine ⟨fun p tType h => ?_, fun setup k s hcopies hreads hfailed => ?_, fun setup k s hcopies hreads hdry => ?_⟩
  · cases hfound.symm.trans h
    rw [show (slotBackupTask name outputName content).io.content.length = 2 from hlength]
    rfl
  · rw [show w.io.bytesRead setup s = 1 from hbyte setup k s hcopies hreads] at hfailed
    cases hfailed
  · have hzero := hdry k s (Nat.le_refl k) hreads
    rw [show w.io.bytesRead setup s = 1 from hbyte setup k s hcopies hreads] at hzero
    cases hzero

theorem slotBackups_telling : ∀ task ∈ slotBackupTasks, task.Telling slotBackupHost fun _ => none := by
  intro task hmem
  rcases List.mem_cons.mp hmem with rfl | hmem
  · exact @slotBackup_telling _ _ 0 _ rfl rfl rfl
  · rw [List.mem_singleton.mp hmem]
    exact @slotBackup_telling _ _ 1 _ rfl rfl rfl

theorem slotsSaved_exec : Workers.exec (backupTurns slotBackupHost slotBackupTasks)
    (backupStart slotBackupTasks fun _ => none) slotSchedule = some slotsSaved := by rfl

theorem slotFlashes_back :
    FlashesBack stripes slotBackupHost slotBackupTasks slotStore slotsSaved.store slotFlashTasks := by
  constructor
  · intro task hmem
    rcases List.mem_cons.mp hmem with rfl | hmem
    · rfl
    · rw [List.mem_singleton.mp hmem]
      rfl
  · intro task hmem
    rcases List.mem_cons.mp hmem with rfl | hmem
    · exact ⟨_, List.mem_cons_self, rfl, rfl⟩
    · rw [List.mem_singleton.mp hmem]
      exact ⟨_, List.mem_cons_of_mem _ List.mem_cons_self, rfl, rfl⟩

theorem restore_in_any_order_slots :
    ∃ t ∈ slotRun, Finished slotFlashTasks t.after ∧ Restored stripes slotStore slotFlashTasks t.after := by
  have hne : slotRun ≠ [] := List.ne_nil_of_length_pos (by decide)
  have hfinished := slotRun_finished hne
  have hrun : Run.IsRun (flashStep stripes slotFlashTasks) (flashStart slotFlashTasks fun _ => 9) slotRun :=
    Run.isRun_getD_trace rfl
  refine ⟨_, List.getLast_mem hne, hfinished, ?_⟩
  exact restore_in_any_order slotBackup_starts slotsSaved_exec rfl slotBackups_telling (fun _ _ => rfl)
    slotFlash_starts (by decide) slotFlash_apart slotFlashes_back hrun _ (List.getLast_mem hne) hfinished

end PartitionManager
