import PartitionManager.Dump

namespace PartitionManager

structure BackupPlugin where
  bufferSize : Nat
  noSetPermissions : Bool := false
  verify : Bool := false

/-- What a backup task meets: the tables, the answers at the prompt, the I/O of
its copy, and how the calls after the copy go. -/
structure BackupWorld (abi : Abi) where
  flags : BasicFlags
  fs : FileSystem
  answers : List Str
  io : DumpIO abi
  sha256Compare : Str → List UInt8 → Outcome Bool
  changeOwner : Bool

namespace BackupPlugin

variable {abi : Abi} (plugin : BackupPlugin) (w : BackupWorld abi) (partitionName outputName : Str)

/-- `runAsync` before its `try` block: a result already, or the partition to
dump and the buffer size to do it with. -/
def precheck : Outcome (AsyncResult ⊕ (Partition × Nat)) := do
  let (partition, tType) ← findPartition w.flags w.fs w.answers partitionName
  match partition with
  | none => .ok (.inl (.Error ("Couldn't find partition: " ++ partitionName)))
  | some partition => do
    let size ← partition.size abi w.fs
    if size = 0 then .ok (.inl (.Error ("Partition " ++ partitionName ++ " is empty")))
    else if w.flags.onLogical && tType ≠ some .DYNAMIC && !w.flags.forceProcess then
      .ok (.inl (.Error ("Used --logical (-l) flag but is not logical partition: " ++ partitionName)))
    else if w.fs.fileIsExists outputName && !w.flags.forceProcess then
      .ok (.inl (.Error ("File " ++ outputName ++ " already exists. Remove it, or use --force (-f) flag.")))
    else .ok (.inr (partition, pluginBuffer plugin.bufferSize size))

/-- The format string for a failed change of owner names an argument that is
not there; the log call ends the process over it. -/
def setPermissions : Outcome Unit :=
  if !plugin.noSetPermissions && !w.changeOwner then .error (.exited EINVAL) else .ok ()

/-- `runAsync` after its `try` block. -/
def finish (partition : Partition) (image : List UInt8) : Outcome AsyncResult := do
  let success : AsyncResult :=
    .Success ("Partition " ++ partitionName ++ " successfully backed up to " ++ outputName)
  if plugin.verify then do
    let path ← partition.absolutePath w.fs
    let same ← w.sha256Compare path image
    if !same then
      .ok (.Error ("Verification failed: " ++ path ++ " and " ++ outputName ++
        " have different SHA-256 hashes."))
    else do
      plugin.setPermissions w
      .ok success
  else do
    plugin.setPermissions w
    .ok success

def dumpFailed (e : HelperError) : AsyncResult :=
  .Error ("Failed to write partition " ++ partitionName ++ " to image " ++ outputName ++ ": " ++ e.message)

/-- `runAsync` and the image a finished copy leaves; the copy is given up after `fuel` turns. -/
def runAsync (fuel : Nat) : Outcome (AsyncResult × Option (List UInt8)) := do
  match ← plugin.precheck w partitionName outputName with
  | .inl r => .ok (r, none)
  | .inr (partition, buf) =>
    match partition.dump w.fs w.io outputName (abi.toSize buf) fuel with
    | .error (.raised (.helper e)) =>
      .ok (dumpFailed partitionName outputName e, none)
    | .error stop => .error stop
    | .ok (_, image) => do
      let r ← plugin.finish w partitionName outputName partition image
      .ok (r, some image)

/-- The task gets to the loop of `dump`, with this setup. -/
def Copies (setup : DumpSetup) : Prop :=
  ∃ partition buf, plugin.precheck w partitionName outputName = .ok (.inr (partition, buf)) ∧
    partition.dumpSetup abi w.fs w.io.openErrno outputName (abi.toSize buf) = .ok setup

/-- A backup to rely on: success means a whole image, a failed read means an
error there and then, and a source that has run dry ends the copy. -/
structure Faithful : Prop where
  success_whole : ∀ fuel r image, plugin.runAsync w partitionName outputName fuel = .ok (r, image) →
    r.result = true → image = some w.io.content
  failed_read : ∀ setup k s, plugin.Copies w partitionName outputName setup →
    DumpReads w.fs w.io setup k s → w.io.bytesRead setup s = -1 →
    ∃ r image, plugin.runAsync w partitionName outputName (k + 1) = .ok (r, image) ∧ r.result = false
  dry_source : ∀ setup k s, plugin.Copies w partitionName outputName setup →
    DumpReads w.fs w.io setup k s →
    (∀ j s', k ≤ j → DumpReads w.fs w.io setup j s' → w.io.bytesRead setup s' = 0) →
    ¬ Loop.RunsForever (dumpTurn w.fs w.io setup) w.io.start

/-- `errno` says `EPERM` wherever the copy takes it for the reason of a read without data. -/
structure ErrnoTelling : Prop where
  failed : ∀ setup k s, plugin.Copies w partitionName outputName setup →
    DumpReads w.fs w.io setup k s → w.io.bytesRead setup s = -1 → w.io.reads.errno s.turn = EPERM
  dry : ∀ setup k s, plugin.Copies w partitionName outputName setup →
    DumpReads w.fs w.io setup k s →
    (∀ j s', k ≤ j → DumpReads w.fs w.io setup j s' → w.io.bytesRead setup s' = 0) →
    w.io.errno = EPERM

section

variable {plugin : BackupPlugin} {w : BackupWorld abi} {partitionName outputName : Str}
  {setup : DumpSetup}

/-- The checks end in an error result, or let a partition through. -/
theorem precheck_cases {r : AsyncResult ⊕ (Partition × Nat)}
    (h : plugin.precheck w partitionName outputName = .ok r) :
    (∃ early, r = .inl early ∧ early.result = false) ∨
      ∃ p buf tType, r = .inr (p, buf) ∧
        findPartition w.flags w.fs w.answers partitionName = .ok (some p, tType) := by
  obtain ⟨⟨found, tType⟩, hfound, h⟩ := Checks.bind_ok_iff.mp h
  cases found with
  | none => exact Or.inl (AsyncResult.early_of_error h)
  | some q =>
    obtain ⟨size, _, h⟩ := Checks.bind_ok_iff.mp h
    split at h
    next => exact Or.inl (AsyncResult.early_of_error h)
    next =>
      split at h
      next => exact Or.inl (AsyncResult.early_of_error h)
      next =>
        split at h
        next => exact Or.inl (AsyncResult.early_of_error h)
        next =>
          cases h
          exact Or.inr ⟨q, _, tType, rfl, hfound⟩

theorem precheck_partition {p : Partition} {buf : Nat}
    (h : plugin.precheck w partitionName outputName = .ok (.inr (p, buf))) :
    ∃ tType, findPartition w.flags w.fs w.answers partitionName = .ok (some p, tType) := by
  obtain ⟨_, heq, _⟩ | ⟨_, _, tType, heq, hfound⟩ := precheck_cases h
  · cases heq
  · cases heq
    exact ⟨tType, hfound⟩

theorem copies_size {n : Nat} (h : plugin.Copies w partitionName outputName setup)
    (hsize : ∀ p tType, findPartition w.flags w.fs w.answers partitionName = .ok (some p, tType) →
      p.size abi w.fs = .ok n) :
    setup.totalBytesToRead = n ∧ n < 2 ^ abi.bits := by
  obtain ⟨p, buf, hpre, hsetup⟩ := h
  obtain ⟨tType, hf⟩ := precheck_partition hpre
  have hp := hsize p tType hf
  have hs := (Partition.dumpSetup_size hsetup).1
  rw [hp] at hs
  cases hs
  exact ⟨rfl, Partition.size_lt hp⟩

theorem runAsync_copy_error {fuel : Nat} {e : HelperError} {outfd : List UInt8}
    (h : plugin.Copies w partitionName outputName setup)
    (hr : Loop.run (dumpTurn w.fs w.io setup) fuel w.io.start = .leave ⟨.error e, outfd⟩) :
    ∃ r image, plugin.runAsync w partitionName outputName fuel = .ok (r, image) ∧ r.result = false := by
  obtain ⟨p, buf, hpre, hsetup⟩ := h
  have hdump : p.dump w.fs w.io outputName (abi.toSize buf) fuel = raise e := by
    simp only [Partition.dump, hsetup, bind, Except.bind, hr]
  refine ⟨dumpFailed partitionName outputName e.copy, none, ?_, rfl⟩
  simp only [runAsync, hpre, bind, Except.bind, hdump, raise, Stop.thrown]

theorem runAsync_copying {fuel : Nat} {s : DumpState}
    (h : plugin.Copies w partitionName outputName setup)
    (hr : Loop.run (dumpTurn w.fs w.io setup) fuel w.io.start = .again s) :
    plugin.runAsync w partitionName outputName fuel = .error .never := by
  obtain ⟨p, buf, hpre, hsetup⟩ := h
  have hdump : p.dump w.fs w.io outputName (abi.toSize buf) fuel = .error .never := by
    simp only [Partition.dump, hsetup, bind, Except.bind, hr]
  simp only [runAsync, hpre, bind, Except.bind, hdump]

theorem precheck_result {r : AsyncResult}
    (h : plugin.precheck w partitionName outputName = .ok (.inl r)) : r.result = false := by
  obtain ⟨_, heq, hfailed⟩ | ⟨_, _, _, heq, _⟩ := precheck_cases h
  · cases heq
    exact hfailed
  · cases heq

theorem runAsync_success {fuel : Nat} {r : AsyncResult} {image : Option (List UInt8)}
    (h : plugin.runAsync w partitionName outputName fuel = .ok (r, image)) (hr : r.result = true) :
    ∃ setup b outfd, plugin.Copies w partitionName outputName setup ∧
      Loop.Returns (dumpTurn w.fs w.io setup) w.io.start ⟨.ok b, outfd⟩ ∧ image = some outfd := by
  obtain ⟨pre, hpre, h⟩ := Checks.bind_ok_iff.mp h
  cases pre with
  | inl early =>
    cases h
    rw [precheck_result hpre] at hr
    cases hr
  | inr found =>
    obtain ⟨p, buf⟩ := found
    cases hdump : p.dump w.fs w.io outputName (abi.toSize buf) fuel with
    | error stop =>
      simp only [hdump] at h
      split at h
      next => cases h; cases hr
      next => cases h
      next heq => cases heq
    | ok done =>
      obtain ⟨b, outfd⟩ := done
      simp only [hdump] at h
      obtain ⟨r', _, h⟩ := Checks.bind_ok_iff.mp h
      cases h
      obtain ⟨setup, hsetup, hloop⟩ := Checks.bind_ok_iff.mp hdump
      refine ⟨setup, b, outfd, ⟨p, buf, hpre, hsetup⟩, ⟨fuel, ?_⟩, rfl⟩
      split at hloop
      next => cases hloop
      next => cases hloop
      next heq => cases hloop; exact heq

theorem dumpReads_whole {k : Nat} {s : DumpState} (hn : setup.totalBytesToRead = w.io.content.length)
    (hlt : w.io.content.length < 2 ^ abi.bits)
    (hfail : ∀ k s, DumpReads w.fs w.io setup k s → w.io.bytesRead setup s = -1 →
      w.io.reads.errno s.turn = EPERM)
    (h : Loop.At (dumpTurn w.fs w.io setup) w.io.start k s) : s.Whole w.io := by
  induction k generalizing s with
  | zero =>
    obtain rfl := Loop.at_unique h (Loop.at_zero w.io.start)
    exact w.io.start_whole
  | succ k ih =>
    obtain ⟨prev, hp, hb⟩ := Loop.at_pred h
    exact dumpTurn_whole hn hlt (ih hp) (fun hpos hr => hfail k prev ⟨hp, hpos⟩ hr) hb

/-- Once the source has run dry with another `errno`, the loop never ends. -/
theorem dry_runsForever {k : Nat} {s : DumpState} (hlt : setup.totalBytesToRead < 2 ^ abi.bits)
    (hk : DumpReads w.fs w.io setup k s) (he : s.errno ≠ EPERM)
    (hdry : ∀ j s', k ≤ j → DumpReads w.fs w.io setup j s' → w.io.bytesRead setup s' = 0) :
    Loop.RunsForever (dumpTurn w.fs w.io setup) w.io.start := by
  have hloop : ∀ j, ∃ s', DumpReads w.fs w.io setup (k + j) s' ∧ s'.errno ≠ EPERM := by
    intro j
    induction j with
    | zero => exact ⟨s, hk, he⟩
    | succ j ih =>
      obtain ⟨s', hs', he'⟩ := ih
      have hr := hdry (k + j) s' (by omega) hs'
      have hturn : dumpTurn w.fs w.io setup s' = .again { s' with turn := s'.turn + 1 } :=
        dumpTurn_idle_read hlt hs'.2 hr he'
      exact ⟨_, ⟨Loop.at_succ hs'.1 hturn, hs'.2⟩, he'⟩
  intro j
  obtain ⟨s', hs', _⟩ := hloop j
  exact Loop.at_of_le hs'.1 (by omega)

theorem faithful_of_errnoTelling (hn : ∀ setup, plugin.Copies w partitionName outputName setup →
      setup.totalBytesToRead = w.io.content.length ∧ w.io.content.length < 2 ^ abi.bits)
    (h : plugin.ErrnoTelling w partitionName outputName) : plugin.Faithful w partitionName outputName := by
  refine ⟨?_, ?_, ?_⟩
  · intro fuel r image hrun hr
    obtain ⟨setup, b, outfd, hc, hret, himage⟩ := runAsync_success hrun hr
    obtain ⟨hlen, hlt⟩ := hn setup hc
    obtain ⟨k, s, hs, hleave⟩ := Loop.last_turn hret
    have hwhole := dumpReads_whole hlen hlt (fun k s => h.failed setup k s hc) hs
    obtain ⟨hpos, houtfd⟩ := dumpTurn_leave_ok hleave
    have hle := hwhole.within
    rw [himage, houtfd, hwhole.outfd, List.take_of_length_le (by omega)]
  · intro setup k s hc hk hr
    obtain ⟨e, hturn⟩ : ∃ e, dumpTurn w.fs w.io setup s = .leave ⟨.error e, s.outfd⟩ :=
      dumpTurn_failed_read hk.2 hr (h.failed setup k s hc hk hr)
    have hrun := Loop.run_succ_of_at hk.1
    rw [hturn] at hrun
    exact runAsync_copy_error hc hrun
  · intro setup k s hc hk hdry hforever
    obtain ⟨hlen, hlt⟩ := hn setup hc
    have hwhole := dumpReads_whole hlen hlt (fun k s => h.failed setup k s hc) hk.1
    have he : s.errno = EPERM := hwhole.errno.trans (h.dry setup k s hc hk hdry)
    obtain ⟨e, hturn⟩ : ∃ e, dumpTurn w.fs w.io setup s = .leave ⟨.error e, s.outfd⟩ :=
      dumpTurn_empty_read hk.2 (hdry k s (Nat.le_refl k) hk) he
    exact Loop.not_returns_of_runsForever hforever (Loop.returns_of_at hk.1 hturn)

theorem errnoTelling_of_faithful (hn : ∀ setup, plugin.Copies w partitionName outputName setup →
      setup.totalBytesToRead = w.io.content.length ∧ w.io.content.length < 2 ^ abi.bits)
    (h : plugin.Faithful w partitionName outputName) : plugin.ErrnoTelling w partitionName outputName := by
  have hfailed : ∀ setup k s, plugin.Copies w partitionName outputName setup →
      DumpReads w.fs w.io setup k s → w.io.bytesRead setup s = -1 →
      w.io.reads.errno s.turn = EPERM := by
    intro setup k s hc hk hr
    by_contra he
    obtain ⟨next, hturn⟩ : ∃ next, dumpTurn w.fs w.io setup s = .again next :=
      dumpTurn_ignored_read hk.2 hr he
    have hstill := runAsync_copying hc (Loop.at_succ hk.1 hturn)
    obtain ⟨r, image, hrun, _⟩ := h.failed_read setup k s hc hk hr
    rw [hstill] at hrun
    cases hrun
  refine ⟨hfailed, ?_⟩
  intro setup k s hc hk hdry
  by_contra he
  obtain ⟨hlen, hlt⟩ := hn setup hc
  have hwhole := dumpReads_whole hlen hlt (fun k s => hfailed setup k s hc) hk.1
  have he' : s.errno ≠ EPERM := by
    rw [hwhole.errno]
    exact he
  exact h.dry_source setup k s hc hk hdry (dry_runsForever (by omega) hk he' hdry)

end

/-- A backup can be relied on exactly when `errno` is `EPERM` at every failed
read and when the source runs dry. -/
theorem backup_faithful_iff {plugin : BackupPlugin} {w : BackupWorld abi} {partitionName outputName : Str}
    (hsize : ∀ p tType, findPartition w.flags w.fs w.answers partitionName = .ok (some p, tType) →
      p.size abi w.fs = .ok w.io.content.length) :
    plugin.Faithful w partitionName outputName ↔ plugin.ErrnoTelling w partitionName outputName := by
  have hn := fun setup (hc : plugin.Copies w partitionName outputName setup) => copies_size hc hsize
  exact ⟨errnoTelling_of_faithful hn, faithful_of_errnoTelling hn⟩

/-- Boot, one byte long, and a descriptor of which every read fails with `e`. -/
def unreadableBoot (e : Errno) : BackupWorld .arm64_v8a where
  flags := bootFlags 1
  fs := bootFileSystem
  answers := []
  io :=
    { content := [7]
      reads :=
        { result := fun _ _ => -1
          errno := fun _ => e
          ge_neg_one := fun _ _ => by decide
          le_count := fun _ count => by omega
          le_max := fun _ _ => by decide }
      writes := WriteSchedule.full _
      openErrno := none
      errno := 0 }
  sha256Compare := fun _ _ => .ok true
  changeOwner := true

theorem unreadableBoot_size (e : Errno) : ∀ p tType, findPartition (unreadableBoot e).flags
    (unreadableBoot e).fs (unreadableBoot e).answers "boot" = .ok (some p, tType) →
    p.size .arm64_v8a (unreadableBoot e).fs = .ok (unreadableBoot e).io.content.length := by
  intro p tType h
  have hfound : findPartition (unreadableBoot e).flags (unreadableBoot e).fs (unreadableBoot e).answers
      "boot" = .ok (some (bootPartition 1), some .CLASSIC) := by rfl
  rw [hfound] at h
  cases h
  rfl

def bootBackup : BackupPlugin := { bufferSize := 1048576 }

theorem backup_faithful_boot : (bootBackup.Faithful (unreadableBoot EPERM) "boot" "boot.img" ↔
    bootBackup.ErrnoTelling (unreadableBoot EPERM) "boot" "boot.img") :=
  backup_faithful_iff (unreadableBoot_size EPERM)

/-- With `EIO` the copy of the unreadable byte ends in success and an empty image. -/
theorem backup_unreadable_succeeds :
    (∃ r, bootBackup.runAsync (unreadableBoot EIO) "boot" "boot.img" 2 = .ok (r, some []) ∧
      r.result = true) ∧
    ¬ bootBackup.Faithful (unreadableBoot EIO) "boot" "boot.img" := by
  have hrun : bootBackup.runAsync (unreadableBoot EIO) "boot" "boot.img" 2 =
      .ok (.Success "Partition boot successfully backed up to boot.img", some []) := by rfl
  refine ⟨⟨_, hrun, rfl⟩, fun h => ?_⟩
  have hwhole := h.success_whole 2 _ _ hrun rfl
  exact absurd (Option.some.inj hwhole) (by decide)

end BackupPlugin

end PartitionManager
