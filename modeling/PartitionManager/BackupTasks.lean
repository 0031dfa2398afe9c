import PartitionManager.AsyncRuns
import PartitionManager.Backup
import PartitionManager.EraseTasks

namespace PartitionManager

/-- `BackupPlugin` with its lists. Lists that are read from the command line have no empty
elements. -/
structure BackupOptions extends BackupPlugin where
  partitions : List Str
  outputNames : List Str := []
  outputDirectory : Str := []
  named : ∀ outputName ∈ outputNames, outputName ≠ []

namespace BackupOptions

variable (plugin : BackupOptions)

def outputName (i : Nat) (partitionName : Str) : Str :=
  let outputName := if plugin.outputNames = [] then partitionName ++ ".img" else plugin.outputNames.getD i []
  if plugin.outputDirectory = [] then outputName else plugin.outputDirectory ++ "/" ++ outputName

/-- The arguments of the processes that `run` adds. -/
def processes : Outcome (List (Str × Str)) :=
  if plugin.outputNames ≠ [] ∧ plugin.partitions.length ≠ plugin.outputNames.length then
    raise ((HelperError.mk "You must provide an output name(s) as long as the partition name(s)" 1
      false).cmdlineError.withCode EX_USAGE)
  else .ok (plugin.partitions.mapIdx fun i partitionName => (partitionName, plugin.outputName i partitionName))

end BackupOptions

/-- What the threads of one `run` share, apart from the files: paths stand for places, and
there are nodes that are no regular files. -/
structure BackupHost where
  plugin : BackupOptions
  flags : BasicFlags
  nodes : FileSystem
  place : Str → Nat

/-- One process of `run`, with what it meets. The processes share one standard input: `answers`
are the words of it that the prompts of this one read. -/
structure BackupTask (abi : Abi) where
  partitionName : Str
  outputName : Str
  answers : List Str
  io : DumpIO abi
  sha256Compare : Str → List UInt8 → Outcome Bool
  changeOwner : Bool

/-- How far a thread has come in `runAsync`. -/
inductive BackupStage where
  | checking
  | opening (partition : Partition) (buf : Nat)
  | copying (partition : Partition) (setup : DumpSetup) (s : DumpState)
  | finishing (partition : Partition)

abbrev BackupFiles : Type := Nat → Option (List UInt8)

section

variable {abi : Abi} (host : BackupHost) (task : BackupTask abi)

namespace BackupTask

def world (files : BackupFiles) : BackupWorld abi where
  flags := host.flags
  fs := { host.nodes with
    exist := fun path => (files (host.place path)).isSome || host.nodes.exist path
    fileIsExists := fun path => (files (host.place path)).isSome || host.nodes.fileIsExists path }
  answers := task.answers
  io := task.io
  sha256Compare := task.sha256Compare
  changeOwner := task.changeOwner

def precheck (files : BackupFiles) : Outcome (AsyncResult ⊕ (Partition × Nat)) :=
  host.plugin.precheck (task.world host files) task.partitionName task.outputName

/-- The `catch` of `runAsync`. -/
def caught : Stop → Outcome AsyncResult
  | .raised (.helper e) => .ok (BackupPlugin.dumpFailed task.partitionName task.outputName e)
  | stop => .error stop

/-- One turn of a thread on the files of all: the checks, the opening of the output file, a
turn of the loop of `dump`, or what comes after the copy. -/
def turn (files : BackupFiles) : BackupStage → BackupFiles × Loop.Turn BackupStage (Outcome AsyncResult)
  | .checking =>
    match task.precheck host files with
    | .ok (.inr (partition, buf)) => (files, .again (.opening partition buf))
    | .ok (.inl r) => (files, .leave (.ok r))
    | .error stop => (files, .leave (.error stop))
  | .opening partition buf =>
    match partition.dumpSetup abi (task.world host files).fs task.io.openErrno task.outputName (abi.toSize buf) with
    | .ok setup =>
      (Function.update files (host.place setup.dest) (some []), .again (.copying partition setup task.io.start))
    | .error stop => (files, .leave (task.caught stop))
  | .copying partition setup s =>
    let outfd := (files (host.place setup.dest)).getD []
    match dumpTurn (task.world host files).fs task.io setup { s with outfd } with
    | .again s' =>
      (Function.update files (host.place setup.dest) (some s'.outfd), .again (.copying partition setup s'))
    | .leave ⟨.ok _, outfd⟩ =>
      (Function.update files (host.place setup.dest) (some outfd), .again (.finishing partition))
    | .leave ⟨.error e, outfd⟩ =>
      (Function.update files (host.place setup.dest) (some outfd), .leave (task.caught (.thrown e)))
  | .finishing partition =>
    let image := (files (host.place task.outputName)).getD []
    (files, .leave (host.plugin.finish (task.world host files) task.partitionName task.outputName partition image))

/-- The task by itself, on the files as they were when it was started. -/
def runAsync (files : BackupFiles) (fuel : Nat) : Outcome (AsyncResult × Option (List UInt8)) :=
  host.plugin.runAsync (task.world host files) task.partitionName task.outputName fuel

/-- The partition is as long as what can be read of it, and `errno` tells of failed reads. -/
structure Telling (files : BackupFiles) : Prop where
  size : ∀ p tType, findPartition host.flags (task.world host files).fs task.answers task.partitionName =
    .ok (some p, tType) → p.size abi (task.world host files).fs = .ok task.io.content.length
  errno : host.plugin.ErrnoTelling (task.world host files) task.partitionName task.outputName

end BackupTask

end

section

variable {abi : Abi} (host : BackupHost) (tasks : List (BackupTask abi))

abbrev BackupPool : Type :=
  Workers.Pool (Fin tasks.length) BackupStage (Outcome AsyncResult) fun _ : Nat => Option (List UInt8)

def backupStart (files : BackupFiles) : BackupPool tasks := ⟨files, fun _ => .again .checking⟩

def backupTurns (i : Fin tasks.length) :
    BackupFiles → BackupStage → BackupFiles × Loop.Turn BackupStage (Outcome AsyncResult) :=
  tasks[i].turn host

/-- What `run` returns: it waits for its threads in their order. -/
def backupAnswer (pool : BackupPool tasks) : Outcome Bool := do
  let results ← (List.finRange tasks.length).mapM fun i =>
    match pool.worker i with
    | .leave r => r
    | .again _ => .error .never
  AsyncManager.answer (fun r => (r.message, r.result)) (.ok results)

/-- `run` has been given these names, and no two of its files are the same. -/
structure BackupHost.Starts : Prop where
  pairs : host.plugin.processes = .ok (tasks.map fun task => (task.partitionName, task.outputName))
  apart : ∀ i j : Fin tasks.length, i ≠ j → host.place tasks[i].outputName ≠ host.place tasks[j].outputName
  byName : ∀ task ∈ tasks, host.place task.outputName ≠ host.place Partition.byName

/-- Every thread has done what it does alone, and nothing but that has happened to the files. -/
structure BackupSettled (files : BackupFiles) (pool : BackupPool tasks) : Prop where
  alone : ∀ i r, pool.worker i = .leave r → ∃ fuel, (tasks[i].runAsync host files fuel).map Prod.fst = r
  whole : ∀ i a, pool.worker i = .leave (.ok a) → a.result = true → tasks[i].Telling host files →
    pool.store (host.place tasks[i].outputName) = some tasks[i].io.content
  spared : host.flags.forceProcess = false → ∀ c, (files c).isSome → pool.store c = files c
  kept : ∀ c, (∀ task ∈ tasks, c ≠ host.place task.outputName) → pool.store c = files c
  answer : backupAnswer tasks pool = .ok true → (∀ task ∈ tasks, task.Telling host files) →
    ∀ task ∈ tasks, pool.store (host.place task.outputName) = some task.io.content

/-- The order in which the threads take turns does not matter. -/
structure OrderFree (files : BackupFiles) : Prop where
  settled : ∀ schedule pool, Workers.exec (backupTurns host tasks) (backupStart tasks files) schedule = some pool →
    BackupSettled host tasks files pool
  unique : ∀ schedule schedule' pool pool',
    Workers.exec (backupTurns host tasks) (backupStart tasks files) schedule = some pool →
    Workers.exec (backupTurns host tasks) (backupStart tasks files) schedule' = some pool' →
    Workers.Done pool → Workers.Done pool' → pool = pool'

end

namespace BackupOptions

variable {plugin : BackupOptions}

/-- `run` never passes an empty output name. -/
theorem processes_named {pairs : List (Str × Str)} (h : plugin.processes = .ok pairs) :
    ∀ pair ∈ pairs, pair.2 ≠ [] := by
  unfold processes at h
  split at h
  next => cases h
  next hlength =>
    cases h
    intro pair hpair
    obtain ⟨i, hi, rfl⟩ := List.mem_mapIdx.mp hpair
    have hname : (if plugin.outputNames = [] then plugin.partitions[i] ++ ".img"
        else plugin.outputNames.getD i []) ≠ [] := by
      split
      next => simp
      next hnames =>
        have hi' : i < plugin.outputNames.length := by
          by_contra hlong
          exact hlength ⟨hnames, by omega⟩
        rw [List.getD_eq_getElem?_getD, List.getElem?_eq_getElem hi', Option.getD_some]
        exact plugin.named _ (List.getElem_mem hi')
    dsimp only
    unfold outputName
    dsimp only
    split
    next => exact hname
    next => exact List.append_ne_nil_of_right_ne_nil _ hname

end BackupOptions

theorem Partition.dumpSetup_dest {abi : Abi} {fs : FileSystem} {openErrno : Option Errno} {p : Partition}
    {destination : Str} {bufsize : Nat} {setup : DumpSetup} (hnamed : destination ≠ [])
    (h : p.dumpSetup abi fs openErrno destination bufsize = .ok setup) : setup.dest = destination := by
  unfold dumpSetup at h
  obtain ⟨toOpen, _, h⟩ := Checks.bind_ok_iff.mp h
  split at h
  next => cases h
  next =>
    cases openErrno with
    | some e => cases h
    | none =>
      obtain ⟨size, _, h⟩ := Checks.bind_ok_iff.mp h
      cases h
      rfl

/-- The search for a partition asks for one path only whether it exists. -/
theorem findPartition_congr {flags : BasicFlags} {fs : FileSystem} {exist fileIsExists : Str → Bool}
    {answers : List Str} {name : Str} (h : exist Partition.byName = fs.exist Partition.byName) :
    findPartition flags { fs with exist, fileIsExists } answers name = findPartition flags fs answers name := by
  have hlink : ∀ p : Partition, p.pathByName { fs with exist, fileIsExists } = p.pathByName fs := by
    intro p
    unfold Partition.pathByName
    simp only [h]
    rfl
  have hpositions : ∀ t : PartitionTableData,
      t.duplicatePartitionPositions { fs with exist, fileIsExists } name = t.duplicatePartitionPositions fs name := by
    intro t
    unfold PartitionTableData.duplicatePartitionPositions
    simp only [hlink]
  have hsetup : ∀ table, setupPartition { fs with exist, fileIsExists } answers name table =
      setupPartition fs answers name table := by
    intro table
    cases table with
    | none => rfl
    | some table =>
      cases table with
      | classic t =>
        simp only [setupPartition, PartitionTableData.partitionWithDupCheck, hpositions]
      | dynamic t => rfl
  unfold findPartition
  simp only [hsetup]

namespace BackupTask

variable {abi : Abi} {host : BackupHost} {task : BackupTask abi} {files files' : BackupFiles}

/-- The files of the task: the one it writes, and one more that it asks for. -/
def reads (host : BackupHost) (task : BackupTask abi) : Set Nat :=
  {host.place task.outputName, host.place Partition.byName}

def writes (host : BackupHost) (task : BackupTask abi) : Set Nat := {host.place task.outputName}

theorem precheck_congr (h : ∀ c ∈ task.reads host, files c = files' c) :
    task.precheck host files = task.precheck host files' := by
  have hout : files (host.place task.outputName) = files' (host.place task.outputName) := h _ (Or.inl rfl)
  have hbyName : files (host.place Partition.byName) = files' (host.place Partition.byName) := h _ (Or.inr rfl)
  have hfound : (task.world host files).fs.exist Partition.byName =
      (task.world host files').fs.exist Partition.byName := by
    dsimp only [world]
    rw [hbyName]
  have hfind : findPartition host.flags (task.world host files).fs task.answers task.partitionName =
      findPartition host.flags (task.world host files').fs task.answers task.partitionName :=
    @findPartition_congr _ (task.world host files').fs _ _ _ _ hfound
  have hexist : (task.world host files).fs.fileIsExists task.outputName =
      (task.world host files').fs.fileIsExists task.outputName := by
    dsimp only [world]
    rw [hout]
  unfold precheck BackupPlugin.precheck
  rw [hexist]
  show (findPartition host.flags (task.world host files).fs task.answers task.partitionName >>= _) = _
  rw [hfind]
  rfl

/-- Without `--force` no task gets past its checks if its output file exists. -/
theorem precheck_spares {p : Partition} {buf : Nat} (h : task.precheck host files = .ok (.inr (p, buf)))
    (hforce : host.flags.forceProcess = false) : files (host.place task.outputName) = none := by
  obtain ⟨⟨found, tType⟩, _, h⟩ := Checks.bind_ok_iff.mp h
  cases found with
  | none => cases h
  | some q =>
    obtain ⟨size, _, h⟩ := Checks.bind_ok_iff.mp h
    split at h
    next => cases h
    next =>
      split at h
      next => cases h
      next =>
        split at h
        next => cases h
        next hexist =>
          cases hfile : files (host.place task.outputName) with
          | none => rfl
          | some content =>
            refine absurd ?_ hexist
            simp [world, hfile, hforce]

/-- The state is one that the task can be in. -/
def Names (task : BackupTask abi) : BackupStage → Prop
  | .copying _ setup _ => setup.dest = task.outputName
  | _ => True

/-- What one turn can be. -/
inductive TurnCase (host : BackupHost) (task : BackupTask abi) (files : BackupFiles) :
    BackupStage → BackupFiles × Loop.Turn BackupStage (Outcome AsyncResult) → Prop
  | passed (partition : Partition) (buf : Nat) (hpre : task.precheck host files = .ok (.inr (partition, buf))) :
      TurnCase host task files .checking (files, .again (.opening partition buf))
  | early (r : AsyncResult) (hpre : task.precheck host files = .ok (.inl r)) :
      TurnCase host task files .checking (files, .leave (.ok r))
  | stopped (stop : Stop) (hpre : task.precheck host files = .error stop) :
      TurnCase host task files .checking (files, .leave (.error stop))
  | opened (partition : Partition) (buf : Nat) (setup : DumpSetup)
      (hsetup : partition.dumpSetup abi (task.world host files).fs task.io.openErrno task.outputName
        (abi.toSize buf) = .ok setup) :
      TurnCase host task files (.opening partition buf)
        (Function.update files (host.place setup.dest) (some []), .again (.copying partition setup task.io.start))
  | unopened (partition : Partition) (buf : Nat) (stop : Stop)
      (hsetup : partition.dumpSetup abi (task.world host files).fs task.io.openErrno task.outputName
        (abi.toSize buf) = .error stop) :
      TurnCase host task files (.opening partition buf) (files, .leave (task.caught stop))
  | copied (partition : Partition) (setup : DumpSetup) (s s' : DumpState)
      (hturn : dumpTurn (task.world host files).fs task.io setup
        { s with outfd := (files (host.place setup.dest)).getD [] } = .again s') :
      TurnCase host task files (.copying partition setup s)
        (Function.update files (host.place setup.dest) (some s'.outfd), .again (.copying partition setup s'))
  | ended (partition : Partition) (setup : DumpSetup) (s : DumpState) (b : Bool) (outfd : List UInt8)
      (hturn : dumpTurn (task.world host files).fs task.io setup
        { s with outfd := (files (host.place setup.dest)).getD [] } = .leave ⟨.ok b, outfd⟩) :
      TurnCase host task files (.copying partition setup s)
        (Function.update files (host.place setup.dest) (some outfd), .again (.finishing partition))
  | failed (partition : Partition) (setup : DumpSetup) (s : DumpState) (e : HelperError) (outfd : List UInt8)
      (hturn : dumpTurn (task.world host files).fs task.io setup
        { s with outfd := (files (host.place setup.dest)).getD [] } = .leave ⟨.error e, outfd⟩) :
      TurnCase host task files (.copying partition setup s)
        (Function.update files (host.place setup.dest) (some outfd), .leave (task.caught (.thrown e)))
  | finished (partition : Partition) :
      TurnCase host task files (.finishing partition)
        (files, .leave (host.plugin.finish (task.world host files) task.partitionName task.outputName partition
          ((files (host.place task.outputName)).getD [])))

theorem turn_cases (host : BackupHost) (task : BackupTask abi) (files : BackupFiles) (stage : BackupStage) :
    TurnCase host task files stage (task.turn host files stage) := by
  cases stage with
  | checking =>
    dsimp only [turn]
    split
    next partition buf hpre => exact .passed partition buf hpre
    next r hpre => exact .early r hpre
    next stop hpre => exact .stopped stop hpre
  | opening partition buf =>
    dsimp only [turn]
    split
    next setup hsetup => exact .opened partition buf setup hsetup
    next stop hsetup => exact .unopened partition buf stop hsetup
  | copying partition setup s =>
    dsimp only [turn]
    split
    next s' hturn => exact .copied partition setup s s' hturn
    next b outfd hturn => exact .ended partition setup s b outfd hturn
    next e outfd hturn => exact .failed partition setup s e outfd hturn
  | finishing partition => exact .finished partition

theorem turn_names (hnamed : task.outputName ≠ []) {stage stage' : BackupStage} {after : BackupFiles}
    (hstage : task.Names stage) (h : TurnCase host task files stage (after, .again stage')) : task.Names stage' := by
  cases h with
  | passed partition buf hpre => trivial
  | opened partition buf setup hsetup => exact Partition.dumpSetup_dest hnamed hsetup
  | copied partition setup s s' hturn => exact hstage
  | ended partition setup s b outfd hturn => trivial

/-- A turn changes no file but the output of its task. -/
theorem turn_frame (hnamed : task.outputName ≠ []) {stage : BackupStage} {after : BackupFiles}
    {next : Loop.Turn BackupStage (Outcome AsyncResult)} (hstage : task.Names stage) {c : Nat}
    (hc : c ∉ task.writes host) (h : TurnCase host task files stage (after, next)) : after c = files c := by
  have hne : c ≠ host.place task.outputName := hc
  cases h with
  | opened partition buf setup hsetup =>
    rw [Partition.dumpSetup_dest hnamed hsetup]
    exact Function.update_of_ne hne _ _
  | copied partition setup s s' hturn | ended partition setup s b outfd hturn
  | failed partition setup s e outfd hturn =>
    have hdest : setup.dest = task.outputName := hstage
    rw [hdest]
    exact Function.update_of_ne hne _ _
  | passed | early | stopped | unopened | finished => rfl

theorem update_congr {c : Nat} {content : Option (List UInt8)} {cells : Set Nat}
    (h : ∀ c ∈ cells, files c = files' c) :
    ∀ d ∈ cells, Function.update files c content d = Function.update files' c content d := by
  intro d hd
  by_cases hdc : d = c
  · subst hdc
    rw [Function.update_self, Function.update_self]
  · rw [Function.update_of_ne hdc, Function.update_of_ne hdc]
    exact h d hd

/-- And it depends on its own files only. -/
theorem turn_congr {stage : BackupStage} (hstage : task.Names stage)
    (h : ∀ c ∈ task.reads host, files c = files' c) :
    (task.turn host files stage).2 = (task.turn host files' stage).2 ∧
      ∀ c ∈ task.reads host, (task.turn host files stage).1 c = (task.turn host files' stage).1 c := by
  have hout : files (host.place task.outputName) = files' (host.place task.outputName) := h _ (Or.inl rfl)
  cases stage with
  | checking =>
    dsimp only [turn]
    rw [precheck_congr h]
    split <;> exact ⟨rfl, h⟩
  | opening partition buf =>
    have hsetup : ∀ bufsize,
        partition.dumpSetup abi (task.world host files).fs task.io.openErrno task.outputName bufsize =
          partition.dumpSetup abi (task.world host files').fs task.io.openErrno task.outputName bufsize :=
      fun _ => rfl
    dsimp only [turn]
    rw [hsetup]
    split
    next => exact ⟨rfl, update_congr h⟩
    next => exact ⟨rfl, h⟩
  | copying partition setup s =>
    have hdest : setup.dest = task.outputName := hstage
    have hturn : ∀ s, dumpTurn (task.world host files).fs task.io setup s =
        dumpTurn (task.world host files').fs task.io setup s := fun _ => rfl
    dsimp only [turn]
    rw [hdest, hout, hturn]
    split <;> exact ⟨rfl, update_congr h⟩
  | finishing partition =>
    dsimp only [turn]
    rw [hout]
    exact ⟨rfl, h⟩

/-- The checks and the opening have gone well. -/
structure Opened (host : BackupHost) (task : BackupTask abi) (start : BackupFiles) (partition : Partition)
    (buf : Nat) (setup : DumpSetup) : Prop where
  passed : task.precheck host start = .ok (.inr (partition, buf))
  setup : partition.dumpSetup abi (task.world host start).fs task.io.openErrno task.outputName (abi.toSize buf) =
    .ok setup

/-- The loop of `dump`, as it is entered on these files. -/
abbrev loop (host : BackupHost) (task : BackupTask abi) (start : BackupFiles) (setup : DumpSetup) :
    DumpState → Loop.Turn DumpState DumpExit :=
  dumpTurn (task.world host start).fs task.io setup

/-- Where a task that is alone has got to from the files that it started with. -/
inductive Stands (host : BackupHost) (task : BackupTask abi) (start : BackupFiles) :
    BackupFiles × BackupStage → Prop
  | checking : Stands host task start (start, .checking)
  | opening (partition : Partition) (buf : Nat) (hpassed : task.precheck host start = .ok (.inr (partition, buf))) :
      Stands host task start (start, .opening partition buf)
  | copying (files : BackupFiles) (partition : Partition) (buf k : Nat) (setup : DumpSetup) (s : DumpState)
      (hopened : task.Opened host start partition buf setup)
      (hat : Loop.At (task.loop host start setup) task.io.start k s)
      (hfile : files (host.place task.outputName) = some s.outfd) :
      Stands host task start (files, .copying partition setup s)
  | finishing (files : BackupFiles) (partition : Partition) (buf fuel : Nat) (setup : DumpSetup) (b : Bool)
      (outfd : List UInt8) (hopened : task.Opened host start partition buf setup)
      (hrun : Loop.run (task.loop host start setup) fuel task.io.start = .leave ⟨.ok b, outfd⟩)
      (hfile : files (host.place task.outputName) = some outfd) :
      Stands host task start (files, .finishing partition)

/-- What it has done in the end: what `runAsync` does. -/
structure Ended (host : BackupHost) (task : BackupTask abi) (start files : BackupFiles)
    (r : Outcome AsyncResult) : Prop where
  runs : ∃ fuel image, task.runAsync host start fuel = r.map (fun a => (a, image)) ∧
    ∀ a, r = .ok a → a.result = true → files (host.place task.outputName) = image
  spared : files = start ∨ ∃ found, task.precheck host start = .ok (.inr found)

/-- Where it is, or what it has done. -/
def Comes (host : BackupHost) (task : BackupTask abi) (start files : BackupFiles) :
    Loop.Turn BackupStage (Outcome AsyncResult) → Prop
  | .again stage => Stands host task start (files, stage)
  | .leave r => task.Ended host start files r

theorem runAsync_early {start : BackupFiles} {r : AsyncResult} (h : task.precheck host start = .ok (.inl r))
    (fuel : Nat) : task.runAsync host start fuel = .ok (r, none) := by
  unfold runAsync BackupPlugin.runAsync
  rw [show host.plugin.precheck _ _ _ = _ from h]
  rfl

theorem runAsync_stopped {start : BackupFiles} {stop : Stop} (h : task.precheck host start = .error stop)
    (fuel : Nat) : task.runAsync host start fuel = .error stop := by
  unfold runAsync BackupPlugin.runAsync
  rw [show host.plugin.precheck _ _ _ = _ from h]
  rfl

theorem runAsync_passed {start : BackupFiles} {partition : Partition} {buf : Nat}
    (h : task.precheck host start = .ok (.inr (partition, buf))) (fuel : Nat) :
    (∀ stop, partition.dump (task.world host start).fs task.io task.outputName (abi.toSize buf) fuel = .error stop →
      task.runAsync host start fuel = (task.caught stop).map fun a => (a, none)) ∧
    ∀ b image, partition.dump (task.world host start).fs task.io task.outputName (abi.toSize buf) fuel =
      .ok (b, image) → task.runAsync host start fuel =
        (host.plugin.finish (task.world host start) task.partitionName task.outputName partition image).map
          fun a => (a, some image) := by
  unfold runAsync BackupPlugin.runAsync
  rw [show host.plugin.precheck _ _ _ = _ from h]
  have hio : (task.world host start).io = task.io := rfl
  simp only [Checks.ok_bind, hio]
  constructor
  · intro stop hdump
    rw [hdump]
    cases stop with
    | raised e => cases e <;> rfl
    | exited code | undefined u | never => rfl
  · intro b image hdump
    rw [hdump]
    dsimp only
    cases host.plugin.finish (task.world host start) task.partitionName task.outputName partition image <;> rfl

/-- What is caught is reported as a failure. -/
theorem caught_result {stop : Stop} {a : AsyncResult} (h : task.caught stop = .ok a) : a.result = false := by
  unfold caught at h
  split at h <;> cases h
  rfl

theorem dump_of_opened {start : BackupFiles} {partition : Partition} {buf : Nat} {setup : DumpSetup}
    (h : task.Opened host start partition buf setup) (fuel : Nat) :
    partition.dump (task.world host start).fs task.io task.outputName (abi.toSize buf) fuel =
      match Loop.run (task.loop host start setup) fuel task.io.start with
      | .again _ => .error .never
      | .leave ⟨.error e, _⟩ => raise e
      | .leave ⟨.ok b, outfd⟩ => .ok (b, outfd) := by
  unfold Partition.dump
  rw [h.setup]
  rfl

/-- A copy that has failed ends its task as `runAsync` ends. -/
theorem ended_caught {start files : BackupFiles} {partition : Partition} {buf fuel : Nat} {stop : Stop}
    (hpassed : task.precheck host start = .ok (.inr (partition, buf)))
    (hdump : partition.dump (task.world host start).fs task.io task.outputName (abi.toSize buf) fuel = .error stop) :
    task.Ended host start files (task.caught stop) := by
  refine ⟨⟨fuel, none, (runAsync_passed hpassed fuel).1 stop hdump, fun a ha hresult => ?_⟩, Or.inr ⟨_, hpassed⟩⟩
  rw [caught_result ha] at hresult
  cases hresult

/-- A turn takes a task that is alone further, or to its end. -/
theorem stands_turn (hnamed : task.outputName ≠ []) {start files after : BackupFiles} {stage : BackupStage}
    {next : Loop.Turn BackupStage (Outcome AsyncResult)} (hstands : Stands host task start (files, stage))
    (h : TurnCase host task files stage (after, next)) : task.Comes host start after next := by
  cases hstands with
  | checking =>
    cases h with
    | passed partition buf hpre => exact .opening partition buf hpre
    | early r hpre =>
      refine ⟨⟨0, none, runAsync_early hpre 0, fun a ha hresult => ?_⟩, Or.inl rfl⟩
      cases ha
      rw [BackupPlugin.precheck_result hpre] at hresult
      cases hresult
    | stopped stop hpre => exact ⟨⟨0, none, runAsync_stopped hpre 0, fun a ha => nomatch ha⟩, Or.inl rfl⟩
  | opening partition buf hpassed =>
    cases h with
    | opened partition buf setup hsetup =>
      refine .copying _ partition buf 0 setup _ ⟨hpassed, hsetup⟩ (Loop.at_zero _) ?_
      rw [Partition.dumpSetup_dest hnamed hsetup, Function.update_self]
      rfl
    | unopened partition buf stop hsetup =>
      have hdump : partition.dump (task.world host start).fs task.io task.outputName (abi.toSize buf) 0 =
          .error stop := by
        rw [Partition.dump, show partition.dumpSetup abi _ _ _ _ = _ from hsetup]
        rfl
      exact ended_caught hpassed hdump
  | copying files partition buf k setup s hopened hat hfile =>
    have hdest : setup.dest = task.outputName := Partition.dumpSetup_dest hnamed hopened.setup
    have hsame : { s with outfd := (files (host.place setup.dest)).getD [] } = s := by
      rw [hdest, hfile]
      rfl
    cases h with
    | copied partition setup s s' hturn =>
      rw [hsame] at hturn
      refine .copying _ partition buf (k + 1) setup s' hopened (Loop.at_succ hat hturn) ?_
      rw [hdest, Function.update_self]
    | ended partition setup s b outfd hturn =>
      rw [hsame] at hturn
      refine .finishing _ partition buf (k + 1) setup b outfd hopened ((Loop.run_succ_of_at hat).trans hturn) ?_
      rw [hdest, Function.update_self]
    | failed partition setup s e outfd hturn =>
      rw [hsame] at hturn
      have hrun : Loop.run (task.loop host start setup) (k + 1) task.io.start = .leave ⟨.error e, outfd⟩ :=
        (Loop.run_succ_of_at hat).trans hturn
      have hdump : partition.dump (task.world host start).fs task.io task.outputName (abi.toSize buf) (k + 1) =
          .error (.thrown e) := by
        rw [dump_of_opened hopened, hrun]
        rfl
      exact ended_caught hopened.passed hdump
  | finishing files partition buf fuel setup b outfd hopened hrun hfile =>
    cases h with
    | finished =>
      have hdump : partition.dump (task.world host start).fs task.io task.outputName (abi.toSize buf) fuel =
          .ok (b, outfd) := by
        rw [dump_of_opened hopened, hrun]
      refine ⟨⟨fuel, some outfd, ?_, fun a _ _ => hfile⟩, Or.inr ⟨_, hopened.passed⟩⟩
      rw [(runAsync_passed hopened.passed fuel).2 b outfd hdump, hfile]
      rfl

/-- Without `--force` it has not touched a file that was there before. -/
theorem comes_spares (hforce : host.flags.forceProcess = false) {start files : BackupFiles}
    {worker : Loop.Turn BackupStage (Outcome AsyncResult)} (h : task.Comes host start files worker) :
    files = start ∨ start (host.place task.outputName) = none := by
  cases worker with
  | again stage =>
    cases h with
    | checking | opening => exact Or.inl rfl
    | copying _ _ _ _ _ _ hopened | finishing _ _ _ _ _ _ _ hopened =>
      exact Or.inr (precheck_spares hopened.passed hforce)
  | leave r =>
    have hended : task.Ended host start files r := h
    rcases hended.spared with heq | ⟨⟨p, buf⟩, hpassed⟩
    · exact Or.inl heq
    · exact Or.inr (precheck_spares hpassed hforce)

/-- A success of a task that can tell failed reads is a whole image. -/
theorem Ended.whole {start files : BackupFiles} {a : AsyncResult} (h : task.Ended host start files (.ok a))
    (hresult : a.result = true) (htelling : task.Telling host start) :
    files (host.place task.outputName) = some task.io.content := by
  obtain ⟨fuel, image, hrun, himage⟩ := h.runs
  have hfaithful := (BackupPlugin.faithful_of_errnoTelling
    (fun setup hcopies => BackupPlugin.copies_size hcopies htelling.size) htelling.errno)
  rw [himage a rfl hresult]
  exact hfaithful.success_whole fuel a image hrun hresult

end BackupTask

theorem backupTurns_confined {abi : Abi} {host : BackupHost} {tasks : List (BackupTask abi)}
    (hnamed : ∀ task ∈ tasks, task.outputName ≠ []) :
    Workers.Confined (backupTurns host tasks) (fun i => tasks[i].Names) (fun i => tasks[i].reads host)
      (fun i => tasks[i].writes host) where
  subset _ _ hc := Or.inl hc
  kept i files stage _ hs h := by
    have hturn := BackupTask.turn_cases host tasks[i] files stage
    have heq : tasks[i].turn host files stage = (_, .again _) := Prod.ext rfl h
    rw [heq] at hturn
    exact BackupTask.turn_names (hnamed _ (List.getElem_mem i.isLt)) hs hturn
  frame i files stage hs _ hc :=
    BackupTask.turn_frame (hnamed _ (List.getElem_mem i.isLt)) hs hc (BackupTask.turn_cases host tasks[i] files stage)
  sees _ _ _ _ hs h := BackupTask.turn_congr hs h

section

variable {abi : Abi} {host : BackupHost} {tasks : List (BackupTask abi)} {files : BackupFiles}
  {schedule : List (Fin tasks.length)} {pool : BackupPool tasks}

theorem BackupHost.Starts.named (h : host.Starts tasks) : ∀ task ∈ tasks, task.outputName ≠ [] := by
  intro task hmem
  exact BackupOptions.processes_named h.pairs _ (List.mem_map.mpr ⟨task, hmem, rfl⟩)

theorem BackupHost.Starts.disjoint (h : host.Starts tasks) :
    ∀ i j : Fin tasks.length, i ≠ j → ∀ c ∈ tasks[i].writes host, c ∉ tasks[j].reads host := by
  rintro i j hij c rfl (hc | hc)
  · exact h.apart i j hij hc
  · exact h.byName _ (List.getElem_mem i.isLt) hc

theorem backupStart_names (files : BackupFiles) (i : Fin tasks.length) (stage : BackupStage)
    (h : (backupStart tasks files).worker i = .again stage) : tasks[i].Names stage := by
  cases h
  trivial

/-- What a task that has had the files for itself has come to. -/
theorem backup_alone (hnamed : ∀ task ∈ tasks, task.outputName ≠ []) {i : Fin tasks.length} {k : Nat}
    {after : BackupFiles} {worker : Loop.Turn BackupStage (Outcome AsyncResult)}
    (h : Workers.After (backupTurns host tasks) i k files (.again .checking) after worker) :
    tasks[i].Comes host files after worker := by
  have hstart : tasks[i].Comes host files files (.again .checking) := .checking
  refine Workers.After.keeps (fun store stage hstands => ?_) hstart h
  exact BackupTask.stands_turn (hnamed _ (List.getElem_mem i.isLt)) hstands
    (BackupTask.turn_cases host tasks[i] store stage)

/-- `run` says yes only after a success of every task. -/
theorem backupAnswer_ok (h : backupAnswer tasks pool = .ok true) (i : Fin tasks.length) :
    ∃ a, pool.worker i = .leave (.ok a) ∧ a.result = true := by
  obtain ⟨results, hresults, hanswer⟩ := Checks.bind_ok_iff.mp h
  have hall : (results.all fun r => r.result) = true := by
    unfold AsyncManager.answer at hanswer
    dsimp only at hanswer
    split at hanswer
    next hall => exact hall
    next => cases hanswer
  have heach := Checks.mapM_ok_iff.mp hresults
  obtain ⟨a, hmem, ha⟩ : ∃ a ∈ results, (match pool.worker i with
      | .leave r => r
      | .again _ => .error .never) = .ok a := by
    obtain ⟨hlength, hget⟩ := List.forall₂_iff_get.mp heach
    have hi : i.val < (List.finRange tasks.length).length := by
      rw [List.length_finRange]
      exact i.isLt
    have hone := hget i.val hi (hlength ▸ hi)
    simp only [List.get_eq_getElem, List.getElem_finRange, Fin.cast_mk, Fin.eta] at hone
    exact ⟨_, List.getElem_mem _, hone⟩
  cases hw : pool.worker i with
  | again stage =>
    rw [hw] at ha
    cases ha
  | leave r =>
    rw [hw] at ha
    exact ⟨a, congrArg _ ha, List.all_eq_true.mp hall a hmem⟩

theorem backup_settled (hstarts : host.Starts tasks)
    (h : Workers.exec (backupTurns host tasks) (backupStart tasks files) schedule = some pool) :
    BackupSettled host tasks files pool := by
  have hinv : ∀ (i : Fin tasks.length) (s : BackupStage), (backupStart tasks files).worker i = .again s →
      tasks[i].Names s := backupStart_names files
  have hrun := Workers.exec_apart (backupTurns_confined hstarts.named) hstarts.disjoint hinv h
  have hcomes : ∀ i : Fin tasks.length, ∃ after, tasks[i].Comes host files after (pool.worker i) ∧
      ∀ c ∈ tasks[i].reads host, pool.store c = after c := by
    intro i
    obtain ⟨after, hafter, hsame⟩ := hrun.worker i
    exact ⟨after, backup_alone hstarts.named hafter, hsame⟩
  have hwhole : ∀ i a, pool.worker i = .leave (.ok a) → a.result = true → tasks[i].Telling host files →
      pool.store (host.place tasks[i].outputName) = some tasks[i].io.content := by
    intro i a hleave hresult htelling
    obtain ⟨after, hafter, hsame⟩ := hcomes i
    rw [hleave] at hafter
    rw [hsame _ (Or.inl rfl)]
    exact BackupTask.Ended.whole hafter hresult htelling
  have hkept : ∀ c, (∀ task ∈ tasks, c ≠ host.place task.outputName) → pool.store c = files c := by
    intro c hc
    exact hrun.frame c fun i => hc _ (List.getElem_mem i.isLt)
  refine ⟨fun i r hleave => ?_, hwhole, fun hforce c hc => ?_, hkept, fun hanswer htelling task hmem => ?_⟩
  · obtain ⟨after, hafter, _⟩ := hcomes i
    rw [hleave] at hafter
    obtain ⟨fuel, image, heq, _⟩ := BackupTask.Ended.runs hafter
    refine ⟨fuel, ?_⟩
    rw [heq]
    cases r <;> rfl
  · by_cases hout : ∃ i : Fin tasks.length, c = host.place tasks[i].outputName
    · obtain ⟨i, rfl⟩ := hout
      obtain ⟨after, hafter, hsame⟩ := hcomes i
      rw [hsame _ (Or.inl rfl)]
      rcases BackupTask.comes_spares hforce hafter with heq | hnone
      · rw [heq]
      · rw [hnone] at hc
        cases hc
    · exact hrun.frame c fun i hi => hout ⟨i, hi⟩
  · obtain ⟨k, hk, rfl⟩ := List.getElem_of_mem hmem
    obtain ⟨a, hleave, hresult⟩ := backupAnswer_ok hanswer ⟨k, hk⟩
    exact hwhole ⟨k, hk⟩ a hleave hresult (htelling _ hmem)

/-- Whatever the order in which the threads of a backup take turns on the files, each does
what it does alone, and all orders that end leave the same files and the same results. -/
theorem backup_in_any_order (files : BackupFiles) (hstarts : host.Starts tasks) : OrderFree host tasks files := by
  have hinv : ∀ (i : Fin tasks.length) (s : BackupStage), (backupStart tasks files).worker i = .again s →
      tasks[i].Names s := backupStart_names files
  refine ⟨fun schedule pool h => backup_settled hstarts h, ?_⟩
  intro schedule schedule' pool pool' h h' hdone hdone'
  exact Workers.exec_confluent (backupTurns_confined hstarts.named) hstarts.disjoint hinv h h' hdone hdone'

end

def slotBackup : BackupOptions where
  bufferSize := 1048576
  partitions := ["boot", "vbmeta"]
  outputDirectory := "/sdcard/backups"
  named := fun _ h => absurd h List.not_mem_nil

/-- The paths of the two images and of the directory of links differ in length. -/
def slotBackupHost : BackupHost := ⟨slotBackup, twoSlotFlags, bootFileSystem, List.length⟩

def slotBackupTask (partitionName outputName : Str) (content : List UInt8) : BackupTask .arm64_v8a where
  partitionName
  outputName
  answers := []
  io := ⟨content, Schedule.oneByte _, WriteSchedule.full _, none, 0⟩
  sha256Compare := fun _ _ => .ok true
  changeOwner := true

def slotBackupTasks : List (BackupTask .arm64_v8a) :=
  [slotBackupTask "boot" "/sdcard/backups/boot.img" [1, 2], slotBackupTask "vbmeta" "/sdcard/backups/vbmeta.img" [3, 4]]

theorem slotBackup_starts : slotBackupHost.Starts slotBackupTasks := by
  refine ⟨rfl, ?_, ?_⟩
  · intro i j hij
    match i, j with
    | ⟨0, _⟩, ⟨0, _⟩ => exact absurd rfl hij
    | ⟨0, _⟩, ⟨1, _⟩ => exact (by decide : (24 : Nat) ≠ 26)
    | ⟨1, _⟩, ⟨0, _⟩ => exact (by decide : (26 : Nat) ≠ 24)
    | ⟨1, _⟩, ⟨1, _⟩ => exact absurd rfl hij
  · intro task hmem
    rcases List.mem_cons.mp hmem with rfl | hmem
    · decide
    · rw [List.mem_singleton.mp hmem]
      decide

theorem backup_in_any_order_slots : OrderFree slotBackupHost slotBackupTasks fun _ => none :=
  backup_in_any_order _ slotBackup_starts

end PartitionManager
