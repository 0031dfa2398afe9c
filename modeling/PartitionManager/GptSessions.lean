import PartitionManager.Discovery
import PartitionManager.StoreSync

namespace PartitionManager

/-- What gptfdisk writes into the backup of a table, and what it loads for a table from a file. -/
structure TableFormat (Image : Type) where
  save : Str → GPTData → Image
  load : Str → Image → Option GPTData
  load_save : ∀ n gpt, load n (save n gpt) = some gpt

/-- The tables of the disks by their names, and the files by their paths. -/
structure GptWorld (Image : Type) where
  disks : Str → Option GPTData
  files : Str → Option Image

/-- How the calls of a process end. `none` is a success; a call that fails leaves what is given. -/
structure GptAnswers (Image : Type) where
  save : Nat → Option (Option Image)
  load : Nat → Option (Option GPTData)
  sync : Nat → Option (Option GPTData)
  reRead : Nat → Bool

/-- A process, with the tables as its objects hold them. -/
structure GptProcess (Image : Type) extends GptWorld Image where
  memory : Str → Option GPTData
  turn : Nat

/-- A run of the program with a `gpt` command. -/
structure GptCall (Image : Type) where
  plugin : GptPlugin
  used : GptCommand
  forceProcess : Bool
  onLogical : Bool
  answers : GptAnswers Image
  dir : BlockDirectory
  hash : HashOrder
  std : StdSort
  removable : Str → Option Str
  openpart_open : Str → Option OpenPart
  second : Outcome DynamicTableData

namespace GptProcess

variable {Image : Type} (format : TableFormat Image) (answers : GptAnswers Image) (w : GptProcess Image)

def reReadTable : GptProcess Image × Bool := ({ w with turn := w.turn + 1 }, answers.reRead w.turn)

def leftIn (path : Str) (image : Option Image) : GptProcess Image :=
  { w with files := Function.update w.files path image, turn := w.turn + 1 }

def SaveGPTBackup (n path : Str) : GptProcess Image × Bool :=
  match answers.save w.turn, w.memory n with
  | some left, _ => (w.leftIn path left, false)
  | none, none => (w, false)
  | none, some gpt => (w.leftIn path (some (format.save n gpt)), true)

def inMemory (n : Str) (gpt : Option GPTData) : GptProcess Image :=
  { w with memory := Function.update w.memory n gpt, turn := w.turn + 1 }

def LoadGPTBackup (n path : Str) : GptProcess Image × Bool :=
  match answers.load w.turn, (w.files path).bind (format.load n) with
  | some left, _ => (w.inMemory n left, false)
  | none, none => (w, false)
  | none, some gpt => (w.inMemory n (some gpt), true)

def onDisk (n : Str) (gpt : Option GPTData) : GptProcess Image :=
  { w with disks := Function.update w.disks n gpt, turn := w.turn + 1 }

def sync (n : Str) : GptProcess Image × Bool :=
  match answers.sync w.turn with
  | some left => (w.onDisk n left, false)
  | none => (w.onDisk n (w.memory n), true)

theorem sync_cases (n : Str) : (∃ left, w.sync answers n = (w.onDisk n left, false)) ∨
    w.sync answers n = (w.onDisk n (w.memory n), true) := by
  unfold sync
  cases answers.sync w.turn with
  | some left => exact Or.inl ⟨left, rfl⟩
  | none => exact Or.inr rfl

/-- The device as the operations of the plugin see it. -/
def device : TableDevice (GptProcess Image) where
  fileIsExists w path := (w.files path).isSome
  closeFdsOf w _ := w
  reReadTable w _ := w.reReadTable answers
  SaveGPTBackup w n path := w.SaveGPTBackup format answers n path
  LoadGPTBackup w n path := w.LoadGPTBackup format answers n path
  sync w n := w.sync answers n

end GptProcess

namespace GptCall

variable {Image : Type} (format : TableFormat Image) (c : GptCall Image) (w : GptWorld Image)

def scanDevice : ScanDevice where
  removable := c.removable
  LoadPartitions path := w.disks (filename path)
  openpart_open := c.openpart_open

/-- The store that the command works on, if the program comes to it. -/
def store : Outcome PartitionTableData := do
  let flags ← BasicFlags.construct (PartitionTableData.construct c.dir c.hash (c.scanDevice w) c.std) c.second
  BasicFlags.tableChecks { flags with
    onLogical := c.onLogical
    forceProcess := c.forceProcess }
  match flags.partitionTables.1 with
  | none => .error (.undefined .nullDereference)
  | some t => .ok t

def process (t : PartitionTableData) : GptProcess Image :=
  { w with
    memory := fun n => (t.GPTDataOf n).toOption
    turn := 0 }

def attempt (t : PartitionTableData) : GptProcess Image → TableTarget → GptProcess Image × Except Trouble Unit :=
  GptPlugin.attemptTarget (GptProcess.device format c.answers) t c.forceProcess c.used

def run : GptRun :=
  match c.store w with
  | .error stop => ⟨[], .error stop⟩
  | .ok t => c.plugin.run (GptProcess.device format c.answers) t c.forceProcess (some c.used) (process w t)

/-- The world after the operations that the run has turned to. -/
def leaves : GptWorld Image :=
  match c.store w with
  | .error _ => w
  | .ok t => (Batch.after (c.attempt format t) (process w t) ((c.run format w).attempts.map Prod.fst)).toGptWorld

/-- What a command does to the disks and to the files. -/
structure Carries (r : GptRun) (w' : GptWorld Image) : Prop where
  disks : ∀ n, w'.disks n ≠ w.disks n → c.used = .restoreTable ∧ ∃ a ∈ r.attempts, a.1.1 = n
  files : ∀ path, w'.files path ≠ w.files path → c.used = .backupTable ∧
    (c.forceProcess = true ∨ w.files path = none) ∧ ∃ a ∈ r.attempts, a.1.2 = some path
  saved : c.used = .backupTable → ∀ n path pre post, r.attempts = pre ++ ((n, some path), .ok ()) :: post →
    (c.forceProcess = true → ∀ a ∈ post, a.1.2 ≠ some path) →
      ∃ gpt, w.disks n = some gpt ∧ w'.files path = some (format.save n gpt)
  restored : c.used = .restoreTable → ∀ n path pre post, r.attempts = pre ++ ((n, some path), .ok ()) :: post →
    (∀ a ∈ post, a.1.1 ≠ n) →
      ∃ image gpt, w.files path = some image ∧ format.load n image = some gpt ∧ w'.disks n = some gpt

end GptCall

/-- What happens to the device: a run of the program, or something else. -/
inductive GptEvent (Image : Type) where
  | command (c : GptCall Image)
  | outside (w : GptWorld Image)

def gptStep {Image : Type} (format : TableFormat Image) (w : GptWorld Image) :
    GptEvent Image → Option (GptWorld Image × Option GptRun)
  | .command c => some (c.leaves format w, some (c.run format w))
  | .outside w' => some (w', none)

abbrev GptSession (Image : Type) := List (Run.Transition (GptWorld Image) (GptEvent Image) (Option GptRun))

namespace GptPlugin

variable {W : Type} {dev : TableDevice W} {t : PartitionTableData} {forceProcess : Bool} {p : GptPlugin}
  {command : GptCommand} {w : W} {file : Nat → Str → Option Str} {act : W → Str → Str → W × Except Trouble Unit}

/-- The loop attempts listed tables, one after the other, and tells how each attempt went. -/
theorem tableLoop_logged (i : Nat) (names : List Str) (w : W) :
    Batch.Logged (onTarget act) w (tableLoop t forceProcess file act i names w).attempts ∧
      ∀ a ∈ (tableLoop t forceProcess file act i names w).attempts, t.hasTable a.1.1 = true := by
  induction names generalizing i w with
  | nil => exact ⟨trivial, fun a ha => absurd ha List.not_mem_nil⟩
  | cons n names ih =>
    cases hn : t.hasTable n with
    | false =>
      rw [tableLoop_skips hn]
      exact ih (i + 1) w
    | true =>
      cases hx : (onTarget act w (n, file i n)).2 with
      | error trouble =>
        rw [tableLoop_ends hn hx]
        refine ⟨⟨hx, trivial⟩, fun a ha => ?_⟩
        rw [List.mem_singleton.mp ha]
        exact hn
      | ok done =>
        cases done
        obtain ⟨hlogged, hlisted⟩ := ih (i + 1) (onTarget act w (n, file i n)).1
        rw [tableLoop_goes_on hn hx]
        exact ⟨⟨hx, hlogged⟩, List.forall_mem_cons.mpr ⟨hn, hlisted⟩⟩

theorem run_logged : Batch.Logged (attemptTarget dev t forceProcess command) w
      (p.run dev t forceProcess (some command) w).attempts ∧
    ∀ a ∈ (p.run dev t forceProcess (some command) w).attempts, t.hasTable a.1.1 = true := by
  have hnone : ∀ result : Outcome Bool, Batch.Logged (attemptTarget dev t forceProcess command) w
      (GptRun.mk [] result).attempts ∧ ∀ a ∈ (GptRun.mk [] result).attempts, t.hasTable a.1.1 = true :=
    fun _ => ⟨trivial, fun a ha => absurd ha List.not_mem_nil⟩
  by_cases hnames : p.NameMissing t
  · rw [run_missing hnames]
    exact hnone _
  by_cases hcounts : p.CountsAgree command
  · rw [run_agreeing hnames hcounts]
    split
    next => exact hnone _
    next => exact tableLoop_logged 0 _ w
  · obtain ⟨e, he⟩ := run_counts hnames hcounts
    rw [he]
    exact hnone _

end GptPlugin

namespace GptCall

variable {Image : Type} {format : TableFormat Image} {c : GptCall Image} {w : GptWorld Image}
  {t : PartitionTableData} {u : GptProcess Image} {x : TableTarget}

/-- What an attempt of a backup does. -/
theorem backup_attempt (hused : c.used = .backupTable) :
    (c.attempt format t u x).1.disks = u.disks ∧ (c.attempt format t u x).1.memory = u.memory ∧
    (∀ path, (c.attempt format t u x).1.files path ≠ u.files path →
      x.2 = some path ∧ (c.forceProcess = true ∨ u.files path = none)) ∧
    ((c.attempt format t u x).2 = .ok () → ∀ path, x.2 = some path →
      ∃ gpt, u.memory x.1 = some gpt ∧ (c.attempt format t u x).1.files path = some (format.save x.1 gpt)) := by
  obtain ⟨n, file⟩ := x
  unfold attempt GptPlugin.attemptTarget GptPlugin.onTarget
  rw [hused]
  cases file with
  | none => exact ⟨rfl, rfl, fun path h => absurd rfl h, fun h => nomatch h⟩
  | some output =>
    dsimp only [GptPlugin.attempt]
    unfold GptPlugin.attemptBackup
    split
    next => exact ⟨rfl, rfl, fun path h => absurd rfl h, fun h => nomatch h⟩
    next hfree =>
      have hallowed : c.forceProcess = true ∨ u.files output = none := by
        cases hforce : c.forceProcess with
        | true => exact Or.inl rfl
        | false =>
          refine Or.inr (Option.not_isSome_iff_eq_none.mp fun hsome => hfree ?_)
          simp [GptProcess.device, hsome, hforce]
      have hother : ∀ image path, (u.leftIn output image).files path ≠ u.files path →
          some output = some path ∧ (c.forceProcess = true ∨ u.files path = none) := by
        intro image path hne
        by_cases hpath : path = output
        · rw [hpath]
          exact ⟨rfl, hallowed⟩
        · exact absurd (Function.update_of_ne hpath _ _) hne
      cases t.GPTDataOf n with
      | error stop => exact ⟨rfl, rfl, fun path h => absurd rfl h, fun h => nomatch h⟩
      | ok data =>
        dsimp only [reported, GptProcess.device, GptProcess.SaveGPTBackup]
        cases c.answers.save u.turn with
        | some left => exact ⟨rfl, rfl, hother left, fun h => nomatch h⟩
        | none =>
          cases hmemory : u.memory n with
          | none => exact ⟨rfl, rfl, fun path h => absurd rfl h, fun h => nomatch h⟩
          | some gpt =>
            refine ⟨rfl, rfl, hother _, fun _ path hpath => ⟨gpt, rfl, ?_⟩⟩
            cases hpath
            exact Function.update_self _ _ _

/-- What an attempt of a restore does. -/
theorem restore_attempt (hused : c.used = .restoreTable) :
    (c.attempt format t u x).1.files = u.files ∧
    (∀ n, n ≠ x.1 → (c.attempt format t u x).1.disks n = u.disks n) ∧
    ((c.attempt format t u x).2 = .ok () → ∃ path image gpt, x.2 = some path ∧ u.files path = some image ∧
      format.load x.1 image = some gpt ∧ (c.attempt format t u x).1.disks x.1 = some gpt) := by
  obtain ⟨n, file⟩ := x
  unfold attempt GptPlugin.attemptTarget GptPlugin.onTarget
  rw [hused]
  cases file with
  | none => exact ⟨rfl, fun _ _ => rfl, fun h => nomatch h⟩
  | some input =>
    dsimp only [GptPlugin.attempt]
    unfold GptPlugin.attemptRestore
    cases t.GPTDataOf n with
    | error stop => exact ⟨rfl, fun _ _ => rfl, fun h => nomatch h⟩
    | ok data =>
      dsimp only [reported, GptProcess.device, GptProcess.LoadGPTBackup]
      cases c.answers.load u.turn with
      | some left => exact ⟨rfl, fun _ _ => rfl, fun h => nomatch h⟩
      | none =>
        cases hload : (u.files input).bind (format.load n) with
        | none => exact ⟨rfl, fun _ _ => rfl, fun h => nomatch h⟩
        | some gpt =>
          obtain ⟨image, himage, hgpt⟩ := Option.bind_eq_some_iff.mp hload
          dsimp only
          rcases GptProcess.sync_cases c.answers (u.inMemory n (some gpt)) n with ⟨left, hsync⟩ | hsync
          · rw [hsync]
            exact ⟨rfl, fun other hne => Function.update_of_ne hne _ _, fun h => nomatch h⟩
          · rw [hsync]
            refine ⟨rfl, fun other hne => Function.update_of_ne hne _ _, fun _ => ?_⟩
            refine ⟨input, image, gpt, rfl, himage, hgpt, ?_⟩
            show Function.update u.disks n (Function.update u.memory n (some gpt) n) n = some gpt
            rw [Function.update_self, Function.update_self]

theorem read_attempt (hused : c.used = .readTable) : (c.attempt format t u x).1.files = u.files ∧
    (c.attempt format t u x).1.disks = u.disks := by
  obtain ⟨n, file⟩ := x
  unfold attempt GptPlugin.attemptTarget GptPlugin.onTarget
  rw [hused]
  cases file with
  | none => exact ⟨rfl, rfl⟩
  | some path => exact ⟨rfl, rfl⟩

/-- The data that the store has of a listed table is that of the disk. -/
theorem GPTDataOf_of_scan {dev : ScanDevice} {std : StdSort} {t₀ : PartitionTableData}
    (hscan : t₀.scan dev std = .ok t) {n : Str} (hn : t.hasTable n = true) {gpt : GPTData}
    (h : t.GPTDataOf n = .ok gpt) : dev.loaded n = some gpt := by
  have hlisted : n ∈ t₀.localTableNames.list := by
    rw [← (PartitionTableData.scan_ok hscan).2.2.1]
    exact List.contains_iff_mem.mp hn
  unfold PartitionTableData.GPTDataOf at h
  split at h
  next => cases h
  next entry hfind =>
    cases h
    have hpath : squeeze entry.1 = squeeze (append ScanDevice.devBlock n) := by
      simpa using List.find?_some hfind
    exact PartitionTableData.loaded_of_scan hscan (List.mem_of_find?_eq_some hfind) hlisted hpath

theorem loaded_scanDevice {n : Str} {gpt : GPTData} (hn : '/' ∉ n) (h : (c.scanDevice w).loaded n = some gpt) :
    w.disks n = some gpt := by
  unfold ScanDevice.loaded at h
  split at h
  next => cases h
  next =>
    have hdisk : w.disks (filename (append ScanDevice.devBlock n)) = some gpt := h
    rwa [filename_append_devBlock hn] at hdisk

/-- What a process starts with in memory is what the disk has. -/
theorem disk_of_memory (hstore : c.store w = .ok t) {n : Str} (hn : t.hasTable n = true) {gpt : GPTData}
    (h : (process w t).memory n = some gpt) : w.disks n = some gpt := by
  unfold store at hstore
  obtain ⟨flags, hflags, hrest⟩ := Checks.bind_ok_iff.mp hstore
  obtain ⟨_, _, hfirst⟩ := Checks.bind_ok_iff.mp hrest
  have hbuilt : PartitionTableData.construct c.dir c.hash (c.scanDevice w) c.std = .ok t := by
    rcases flags_cases hflags with ⟨_, hnone⟩ | ⟨t', ht', hsome⟩
    · rw [hnone] at hfirst
      cases hfirst
    · rw [hsome] at hfirst
      cases hfirst
      exact ht'
  rcases PartitionTableData.construct_cases c.dir c.hash (c.scanDevice w) c.std with
    ⟨stop, hstop, _⟩ | ⟨t₀, t', _, hscan, _, hok⟩
  · rw [hbuilt] at hstop
    cases hstop
  · obtain rfl := Except.ok.inj (hbuilt.symm.trans hok)
    have hdata : t.GPTDataOf n = .ok gpt := by
      have hmemory : (t.GPTDataOf n).toOption = some gpt := h
      cases hn' : t.GPTDataOf n with
      | error stop =>
        rw [hn'] at hmemory
        cases hmemory
      | ok data =>
        rw [hn'] at hmemory
        exact congrArg Except.ok (Option.some.inj hmemory)
    exact loaded_scanDevice (t.localTableNames.fileNames n (List.contains_iff_mem.mp hn))
      (GPTDataOf_of_scan hscan hn hdata)

section

variable {log pre post : List (TableTarget × Except Trouble Unit)} {n path : Str}

/-- The files after a log of attempts that leave them alone. -/
theorem files_kept (hlog : Batch.Logged (c.attempt format t) u log) (hused : c.used ≠ .backupTable) :
    (Batch.after (c.attempt format t) u (log.map Prod.fst)).files = u.files := by
  refine @Batch.Logged.keeps _ _ _ _ (fun v => v.files = u.files) _ _ hlog rfl ?_
  intro v a _ hv _
  cases hcommand : c.used with
  | readTable => exact (read_attempt hcommand).1.trans hv
  | backupTable => exact absurd hcommand hused
  | restoreTable => exact (restore_attempt hcommand).1.trans hv

theorem disks_kept (hlog : Batch.Logged (c.attempt format t) u log)
    (hused : c.used = .restoreTable → ∀ a ∈ log, a.1.1 ≠ n) :
    (Batch.after (c.attempt format t) u (log.map Prod.fst)).disks n = u.disks n := by
  refine @Batch.Logged.keeps _ _ _ _ (fun v => v.disks n = u.disks n) _ _ hlog rfl ?_
  intro v a ha hv _
  cases hcommand : c.used with
  | readTable => rw [(read_attempt hcommand).2, hv]
  | backupTable => rw [(backup_attempt hcommand).1, hv]
  | restoreTable => rw [(restore_attempt hcommand).2.1 n (hused hcommand a ha).symm, hv]

theorem memory_kept (hlog : Batch.Logged (c.attempt format t) u log) (hused : c.used = .backupTable) :
    (Batch.after (c.attempt format t) u (log.map Prod.fst)).memory = u.memory := by
  refine @Batch.Logged.keeps _ _ _ _ (fun v => v.memory = u.memory) _ _ hlog rfl ?_
  intro v a _ hv _
  rw [(backup_attempt hused).2.1, hv]

/-- A file that is there stays as it is, without `--force` or if no attempt names it. -/
theorem file_stays (hlog : Batch.Logged (c.attempt format t) u log)
    (hused : c.used = .backupTable → (c.forceProcess = true ∨ u.files path = none) → ∀ a ∈ log, a.1.2 ≠ some path) :
    (Batch.after (c.attempt format t) u (log.map Prod.fst)).files path = u.files path := by
  refine @Batch.Logged.keeps _ _ _ _ (fun v => v.files path = u.files path) _ _ hlog rfl ?_
  intro v a ha hv _
  by_cases hcommand : c.used = .backupTable
  · by_contra hne
    rw [← hv] at hne
    obtain ⟨hnamed, hfree⟩ := (backup_attempt hcommand).2.2.1 path hne
    rw [hv] at hfree
    exact hused hcommand hfree a ha hnamed
  · have hfiles := @files_kept _ format c t v [(a.1, (c.attempt format t v a.1).2)] ⟨rfl, trivial⟩ hcommand
    exact (congrFun hfiles path).trans hv

theorem saved_after (hlog : Batch.Logged (c.attempt format t) u (pre ++ ((n, some path), .ok ()) :: post))
    (hused : c.used = .backupTable) (hlast : c.forceProcess = true → ∀ a ∈ post, a.1.2 ≠ some path) :
    ∃ gpt, u.memory n = some gpt ∧ (Batch.after (c.attempt format t) u
      ((pre ++ ((n, some path), .ok ()) :: post).map Prod.fst)).files path = some (format.save n gpt) := by
  obtain ⟨hpre, hhere, hpost⟩ := hlog.append
  obtain ⟨gpt, hmemory, hfile⟩ := (backup_attempt hused).2.2.2 hhere path rfl
  rw [memory_kept hpre hused] at hmemory
  refine ⟨gpt, hmemory, ?_⟩
  rw [List.map_append, Batch.after_append, List.map_cons, Batch.after_cons, ← hfile]
  refine file_stays hpost fun _ hfree => ?_
  rcases hfree with hforce | hnone
  · exact hlast hforce
  · rw [hfile] at hnone
    cases hnone

theorem restored_after (hlog : Batch.Logged (c.attempt format t) u (pre ++ ((n, some path), .ok ()) :: post))
    (hused : c.used = .restoreTable) (hlast : ∀ a ∈ post, a.1.1 ≠ n) :
    ∃ image gpt, u.files path = some image ∧ format.load n image = some gpt ∧ (Batch.after (c.attempt format t) u
      ((pre ++ ((n, some path), .ok ()) :: post).map Prod.fst)).disks n = some gpt := by
  obtain ⟨hpre, hhere, hpost⟩ := hlog.append
  obtain ⟨path', image, gpt, hpath, hfile, hload, hdisk⟩ := (restore_attempt hused).2.2 hhere
  cases hpath
  rw [files_kept hpre (by rw [hused]; decide)] at hfile
  refine ⟨image, gpt, hfile, hload, ?_⟩
  rw [List.map_append, Batch.after_append, List.map_cons, Batch.after_cons, ← hdisk]
  exact disks_kept hpost fun _ => hlast

end

theorem carries (c : GptCall Image) (w : GptWorld Image) : c.Carries format w (c.run format w) (c.leaves format w) := by
  cases hstore : c.store w with
  | error stop =>
    have hrun : c.run format w = ⟨[], .error stop⟩ := by
      unfold run
      rw [hstore]
    have hleaves : c.leaves format w = w := by
      unfold leaves
      rw [hstore]
    rw [hrun, hleaves]
    refine ⟨fun n h => absurd rfl h, fun path h => absurd rfl h, fun _ n path pre post h => ?_,
      fun _ n path pre post h => ?_⟩
    · exact absurd h.symm (List.append_ne_nil_of_right_ne_nil _ (List.cons_ne_nil _ _))
    · exact absurd h.symm (List.append_ne_nil_of_right_ne_nil _ (List.cons_ne_nil _ _))
  | ok t =>
    obtain ⟨hlog, hlisted⟩ := @GptPlugin.run_logged _ (GptProcess.device format c.answers) t c.forceProcess c.plugin
      c.used (process w t)
    have hrun : c.run format w =
        c.plugin.run (GptProcess.device format c.answers) t c.forceProcess (some c.used) (process w t) := by
      unfold run
      rw [hstore]
    have hleaves : c.leaves format w = (Batch.after (c.attempt format t) (process w t)
        ((c.run format w).attempts.map Prod.fst)).toGptWorld := by
      unfold leaves
      rw [hstore]
    rw [← hrun] at hlog hlisted
    rw [hleaves]
    refine ⟨fun n hne => ?_, fun path hne => ?_, fun hused n path pre post happen hlast => ?_,
      fun hused n path pre post happen hlast => ?_⟩
    · by_contra hnot
      exact hne (disks_kept hlog fun hused a ha heq => hnot ⟨hused, a, ha, heq⟩)
    · by_contra hnot
      exact hne (file_stays hlog fun hused hfree a ha heq => hnot ⟨hused, hfree, a, ha, heq⟩)
    · rw [happen] at hlog hlisted ⊢
      obtain ⟨gpt, hmemory, hfile⟩ := saved_after hlog hused hlast
      have hn := hlisted ((n, some path), .ok ()) (List.mem_append_right _ List.mem_cons_self)
      exact ⟨gpt, disk_of_memory hstore hn hmemory, hfile⟩
    · rw [happen] at hlog ⊢
      exact restored_after hlog hused hlast

theorem attempted_plain {a : TableTarget × Except Trouble Unit} (ha : a ∈ (c.run format w).attempts) :
    '/' ∉ a.1.1 := by
  unfold run at ha
  split at ha
  next => exact absurd ha List.not_mem_nil
  next t _ => exact t.localTableNames.fileNames _ (List.contains_iff_mem.mp (GptPlugin.run_logged.2 a ha))

theorem tableEntries_congr {w' : GptWorld Image} {n : Str} (hn : '/' ∉ n) (h : w'.disks n = w.disks n)
    (c : GptCall Image) : (c.scanDevice w').tableEntries n = (c.scanDevice w).tableEntries n := by
  have hdisk : w'.disks (filename (append ScanDevice.devBlock n)) =
      w.disks (filename (append ScanDevice.devBlock n)) := by
    rw [filename_append_devBlock hn, h]
  have hload : (c.scanDevice w').loaded n = (c.scanDevice w).loaded n := by
    unfold ScanDevice.loaded
    split
    next hrem => exact (if_pos hrem).symm
    next hrem => exact hdisk.trans (if_neg hrem).symm
  unfold ScanDevice.tableEntries
  rw [hload]
  rfl

end GptCall

/-- The event does not write over the file: a backup without `--force` never does. -/
def GptEvent.Spares {Image : Type} (format : TableFormat Image) (path : Str) (w : GptWorld Image) :
    GptEvent Image → Prop
  | .command c => c.used = .backupTable → c.forceProcess = true → ∀ a ∈ (c.run format w).attempts, a.1.2 ≠ some path
  | .outside w' => w'.files path = w.files path

/-- The event does not write the table to its disk. -/
def GptEvent.LeavesDisk {Image : Type} (format : TableFormat Image) (n : Str) (w : GptWorld Image) :
    GptEvent Image → Prop
  | .command c => c.used = .restoreTable → ∀ a ∈ (c.run format w).attempts, a.1.1 ≠ n
  | .outside w' => w'.disks n = w.disks n

section

variable {Image : Type} {format : TableFormat Image} {w w' : GptWorld Image} {e : GptEvent Image}
  {shown : Option GptRun} {n path : Str} {image : Image}

theorem spares_file (h : gptStep format w e = some (w', shown)) (hspares : e.Spares format path w)
    (hfile : w.files path = some image) : w'.files path = some image := by
  cases e with
  | command c =>
    cases h
    by_contra hne
    rw [← hfile] at hne
    obtain ⟨hused, hfree, a, ha, hnamed⟩ := (c.carries w).files path hne
    rcases hfree with hforce | hnone
    · exact hspares hused hforce a ha hnamed
    · rw [hfile] at hnone
      cases hnone
  | outside w'' =>
    cases h
    exact Eq.trans hspares hfile

theorem leaves_disk (h : gptStep format w e = some (w', shown)) (hleaves : e.LeavesDisk format n w) :
    w'.disks n = w.disks n := by
  cases e with
  | command c =>
    cases h
    by_contra hne
    obtain ⟨hused, a, ha, hnamed⟩ := (c.carries w).disks n hne
    exact hleaves hused a ha hnamed
  | outside w'' =>
    cases h
    exact hleaves

/-- What a backup has saved of a table, a restore from that file puts back on its disk, whatever
commands are run and whatever happens to the disks in between. Every later start finds the
partitions of the table as they were before the backup. -/
theorem tables_given_back {ts₁ ts₂ ts₃ : GptSession Image}
    {b r : Run.Transition (GptWorld Image) (GptEvent Image) (Option GptRun)} {save load : GptCall Image}
    {pre post pre' post' : List (TableTarget × Except Trouble Unit)}
    (h : Run.IsRun (gptStep format) w (ts₁ ++ b :: (ts₂ ++ r :: ts₃)))
    (hb : b.label = .command save) (hsave : save.used = .backupTable)
    (hsaved : (save.run format b.before).attempts = pre ++ ((n, some path), .ok ()) :: post)
    (honce : save.forceProcess = true → ∀ a ∈ post, a.1.2 ≠ some path)
    (hr : r.label = .command load) (hload : load.used = .restoreTable)
    (hloaded : (load.run format r.before).attempts = pre' ++ ((n, some path), .ok ()) :: post')
    (hlast : ∀ a ∈ post', a.1.1 ≠ n) (hspares : ∀ t ∈ ts₂, t.label.Spares format path t.before)
    (hleaves : ∀ t ∈ ts₃, t.label.LeavesDisk format n t.before) :
    ∀ t ∈ r :: ts₃, t.after.disks n = b.before.disks n ∧
      ∀ c : GptCall Image, (c.scanDevice t.after).tableEntries n = (c.scanDevice b.before).tableEntries n := by
  obtain ⟨hbbefore, hbstep, hafter⟩ := Run.isRun_cons (Run.isRun_append h).2
  obtain ⟨hbetween, hrest⟩ := Run.isRun_append hafter
  obtain ⟨hrbefore, hrstep, htail⟩ := Run.isRun_cons hrest
  have hplain : '/' ∉ n := by
    refine @GptCall.attempted_plain _ format save b.before ((n, some path), .ok ()) ?_
    rw [hsaved]
    exact List.mem_append_right _ List.mem_cons_self
  rw [hb, ← hbbefore] at hbstep
  rw [hr, ← hrbefore] at hrstep
  obtain ⟨hbafter, _⟩ := Prod.ext_iff.mp (Option.some.inj hbstep)
  obtain ⟨hrafter, _⟩ := Prod.ext_iff.mp (Option.some.inj hrstep)
  obtain ⟨gpt, hdisk, hfile⟩ := (save.carries b.before).saved hsave n path pre post hsaved honce
  rw [show save.leaves format b.before = b.after from hbafter] at hfile
  -- the file is still there when the restore begins
  have hkept : r.before.files path = some (format.save n gpt) := by
    rw [hrbefore]
    exact @Run.last_of_careful _ _ _ _ (fun v : GptWorld Image => v.files path = some (format.save n gpt))
      (fun v e => e.Spares format path v) (fun _ _ _ _ hv hstep hc => spares_file hstep hc hv)
      _ _ hfile hbetween hspares
  obtain ⟨image, gpt', himage, hgpt', hback⟩ :=
    (load.carries r.before).restored hload n path pre' post' hloaded hlast
  rw [show load.leaves format r.before = r.after from hrafter] at hback
  rw [hkept] at himage
  rw [← Option.some.inj himage, format.load_save] at hgpt'
  have hrestored : r.after.disks n = b.before.disks n := by rw [hback, ← hgpt', hdisk]
  have hlater : ∀ t ∈ r :: ts₃, t.after.disks n = b.before.disks n := by
    refine List.forall_mem_cons.mpr ⟨hrestored, ?_⟩
    exact @Run.after_of_careful _ _ _ _ (fun v : GptWorld Image => v.disks n = b.before.disks n)
      (fun v e => e.LeavesDisk format n v)
      (fun _ _ _ _ hv hstep hc => (leaves_disk hstep hc).trans hv) _ _ hrestored htail hleaves
  exact fun t ht => ⟨hlater t ht, GptCall.tableEntries_congr hplain (hlater t ht)⟩

end

/-- Files that hold a table as it was. -/
def savedTables : TableFormat GPTData := ⟨fun _ gpt => gpt, fun _ gpt => some gpt, fun _ _ => rfl⟩

def sdaDirectory : BlockDirectory where
  entries := .ok ["/dev/block/sda"]
  distinct := by
    intro paths h
    rw [← Except.ok.inj h]
    decide
  is_block_file _ := .ok true
  exist _ := .ok true

theorem sdaDirectory_find (names : TableNames) : sdaDirectory.find names = .ok (names.insert "/dev/block/sda") := by
  show sdaDirectory.findTables (BlockDirectory.sortEntries ["/dev/block/sda"]) names = _
  unfold BlockDirectory.sortEntries
  rw [List.mergeSort_singleton]
  rfl

def bootGpt : GPTData := ⟨512, [⟨"boot", true, 1, 0, 1⟩], 0, 3⟩

/-- The command on `sda`, of which all calls succeed. -/
def sdaCall (used : GptCommand) : GptCall GPTData where
  plugin := ⟨["sda"], ["sda.gpt"], []⟩
  used := used
  forceProcess := false
  onLogical := false
  answers := ⟨fun _ => none, fun _ => none, fun _ => none, fun _ => true⟩
  dir := sdaDirectory
  hash := ⟨id, fun _ => .refl _⟩
  std := .merge
  removable _ := some "0"
  openpart_open _ := none
  second := .ok noLogical

def bootWorld : GptWorld GPTData := ⟨fun n => if n = ("sda" : Str) then some bootGpt else none, fun _ => none⟩

def savedWorld : GptWorld GPTData := (sdaCall .backupTable).leaves savedTables bootWorld

/-- The partition of `sda` has been deleted. -/
def emptiedWorld : GptWorld GPTData :=
  ⟨fun _ => some ⟨512, [], 0, 3⟩, fun path => if path = ("sda.gpt" : Str) then some bootGpt else none⟩

def sdaSession : GptSession GPTData :=
  [⟨bootWorld, .command (sdaCall .backupTable), some ((sdaCall .backupTable).run savedTables bootWorld), savedWorld⟩,
    ⟨savedWorld, .outside emptiedWorld, none, emptiedWorld⟩,
    ⟨emptiedWorld, .command (sdaCall .restoreTable), some ((sdaCall .restoreTable).run savedTables emptiedWorld),
      (sdaCall .restoreTable).leaves savedTables emptiedWorld⟩]

theorem sdaCall_attempts {used : GptCommand} {w : GptWorld GPTData}
    (h : used = .backupTable ∧ w = bootWorld ∨ used = .restoreTable ∧ w = emptiedWorld) :
    ((sdaCall used).run savedTables w).attempts = [] ++ ((("sda" : Str), some ("sda.gpt" : Str)), .ok ()) :: [] := by
  rcases h with ⟨rfl, rfl⟩ | ⟨rfl, rfl⟩
  · unfold GptCall.run GptCall.store PartitionTableData.construct PartitionTableData.findTablePaths
    rw [show (sdaCall .backupTable).dir.find PartitionTableData.unscanned.localTableNames =
      .ok (TableNames.empty.insert "/dev/block/sda") from sdaDirectory_find _]
    rfl
  · unfold GptCall.run GptCall.store PartitionTableData.construct PartitionTableData.findTablePaths
    rw [show (sdaCall .restoreTable).dir.find PartitionTableData.unscanned.localTableNames =
      .ok (TableNames.empty.insert "/dev/block/sda") from sdaDirectory_find _]
    rfl

theorem sdaSession_isRun : Run.IsRun (gptStep savedTables) bootWorld sdaSession :=
  .step rfl (.step rfl (.step rfl (.stop _)))

theorem tables_given_back_sda : emptiedWorld.disks "sda" ≠ some bootGpt ∧
    ((sdaCall .restoreTable).leaves savedTables emptiedWorld).disks "sda" = some bootGpt := by
  have hsaved := sdaCall_attempts (Or.inl ⟨rfl, rfl⟩)
  have hloaded := sdaCall_attempts (Or.inr ⟨rfl, rfl⟩)
  obtain ⟨gpt, hgpt, hfile⟩ :=
    ((sdaCall .backupTable).carries bootWorld).saved rfl "sda" "sda.gpt" [] [] hsaved (fun h => (nomatch h))
  have hspares : emptiedWorld.files "sda.gpt" = savedWorld.files "sda.gpt" := by
    rw [savedWorld, hfile, ← Option.some.inj hgpt]
    rfl
  refine ⟨by decide, ?_⟩
  exact (@tables_given_back _ savedTables bootWorld "sda" "sda.gpt" [] [_] [] _ _ _ _ _ _ _ _ sdaSession_isRun
    rfl rfl hsaved (fun h => (nomatch h)) rfl rfl hloaded (fun a ha => absurd ha List.not_mem_nil)
    (fun t ht => by rw [List.mem_singleton.mp ht]; exact hspares) (fun t ht => absurd ht List.not_mem_nil)
    _ List.mem_cons_self).1

end PartitionManager
