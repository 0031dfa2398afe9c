import Mathlib.Data.List.TakeWhile
import PartitionManager.StoreCalls
import PartitionManager.Library.Batch

namespace PartitionManager

def readAll : Str := "read-all"

/-- The subcommand of `gpt` that is used. -/
inductive GptCommand where
  | readTable
  | backupTable
  | restoreTable
  deriving DecidableEq

/-- What `GptPlugin` reads from its command line. -/
structure GptPlugin where
  table_names : List Str
  file_list : List Str
  directory : Str := []

/-- What the operations ask of the device. Each may change its state, and any may fail. -/
structure TableDevice (W : Type) where
  fileIsExists : W → Str → Bool
  closeFdsOf : W → Str → W
  reReadTable : W → Str → W × Bool
  SaveGPTBackup : W → Str → Str → W × Bool
  LoadGPTBackup : W → Str → Str → W × Bool
  sync : W → Str → W × Bool

/-- How the operation on one table ends when it does not succeed. -/
inductive Trouble where
  | failed
  | stopped (stop : Stop)

/-- A table and the file that goes with it, `none` past the end of the file list. -/
abbrev TableTarget := Str × Option Str

/-- The tables that a loop turns to, with what becomes of each, and what is returned. -/
structure GptRun where
  attempts : List (TableTarget × Except Trouble Unit)
  result : Outcome Bool

def PartitionTableData.GPTDataOf (t : PartitionTableData) (name : Str) : Outcome GPTData :=
  match t.gptDataCollection.find? fun entry => squeeze entry.1 = squeeze (append ScanDevice.devBlock name) with
  | none => raise ⟨"Can't find GPT data of " ++ name, 1, false⟩
  | some entry => .ok entry.2

/-- The outcome of an attempt that reports success or failure. -/
def reported {W : Type} (r : W × Bool) : W × Except Trouble Unit := (r.1, if r.2 then .ok () else .error .failed)

namespace GptPlugin

variable {W : Type} (dev : TableDevice W) (t : PartitionTableData) (forceProcess : Bool)

/-- `SPAWN_ERROR`. -/
def spawnError : Outcome Bool := if forceProcess then .ok true else .ok false

/-- `READ_ALL_HANDLE`. -/
def readAllHandle (table_names : List Str) : Outcome (List Str) :=
  match table_names with
  | [] => .error (.undefined .indexOutOfRange)
  | first :: _ => .ok (if first = readAll then t.localTableNames.list else table_names)

/-- The loop over the table names. A table that the store does not have is passed over. -/
def tableLoop (file : Nat → Str → Option Str) (attempt : W → Str → Str → W × Except Trouble Unit) :
    Nat → List Str → W → GptRun
  | _, [], _ => ⟨[], .ok true⟩
  | i, n :: names, w =>
    if !t.hasTable n then tableLoop file attempt (i + 1) names w
    else
      match file i n with
      | none => ⟨[((n, none), .error (.stopped (.undefined .indexOutOfRange)))], .error (.undefined .indexOutOfRange)⟩
      | some path =>
        match attempt w n path with
        | (w', .ok ()) =>
          let later := tableLoop file attempt (i + 1) names w'
          ⟨((n, some path), .ok ()) :: later.attempts, later.result⟩
        | (_, .error .failed) => ⟨[((n, some path), .error .failed)], spawnError forceProcess⟩
        | (_, .error (.stopped stop)) => ⟨[((n, some path), .error (.stopped stop))], .error stop⟩

variable (p : GptPlugin)

def inDirectory (file : Str) : Str := if p.directory = [] then file else p.directory ++ '/' :: file

/-- The path that an operation uses for the `i`-th table. -/
def fileOf (command : GptCommand) (i : Nat) (n : Str) : Option Str :=
  match command with
  | .readTable => some ("/dev/block/" ++ n)
  | .backupTable => (if p.file_list = [] then some (n ++ ".gpt") else p.file_list[i]?).map p.inDirectory
  | .restoreTable => p.file_list[i]?.map p.inDirectory

def attemptRead (w : W) (n final : Str) : W × Except Trouble Unit :=
  reported (dev.reReadTable (dev.closeFdsOf w n) final)

def attemptBackup (w : W) (n output : Str) : W × Except Trouble Unit :=
  if dev.fileIsExists w output && !forceProcess then
    (w, .error (.stopped (.thrown
      ((HelperError.mk ("Output file " ++ output ++ " already exists!") 1 false).cmdlineError.withCode EX_DATAERR))))
  else
    match t.GPTDataOf n with
    | .error stop => (w, .error (.stopped stop))
    | .ok _ => reported (dev.SaveGPTBackup w n output)

def attemptRestore (w : W) (n input : Str) : W × Except Trouble Unit :=
  match t.GPTDataOf n with
  | .error stop => (w, .error (.stopped stop))
  | .ok _ =>
    match dev.LoadGPTBackup w n input with
    | (w', true) => reported (dev.sync w' n)
    | (w', false) => (w', .error .failed)

def attempt (command : GptCommand) (w : W) (n path : Str) : W × Except Trouble Unit :=
  match command with
  | .readTable => attemptRead dev w n path
  | .backupTable => attemptBackup dev t forceProcess w n path
  | .restoreTable => attemptRestore dev t w n path

def loopOf (command : GptCommand) (names : List Str) (w : W) : GptRun :=
  tableLoop t forceProcess (p.fileOf command) (attempt dev t forceProcess command) 0 names w

def reReadTables (w : W) : GptRun :=
  match readAllHandle t p.table_names with
  | .error stop => ⟨[], .error stop⟩
  | .ok names => p.loopOf dev t forceProcess .readTable names w

def backupGptTable (w : W) : GptRun :=
  if p.file_list ≠ [] ∧ p.table_names.length ≠ p.file_list.length then
    ⟨[], raise ((HelperError.mk "You must provide an output name(s) as long as the table name(s)" 1
      false).cmdlineError.withCode EX_USAGE)⟩
  else
    match readAllHandle t p.table_names with
    | .error stop => ⟨[], .error stop⟩
    | .ok names => p.loopOf dev t forceProcess .backupTable names w

def restoreGptTable (w : W) : GptRun :=
  if p.file_list ≠ [] ∧ p.table_names.length ≠ p.file_list.length then
    ⟨[], raise ((HelperError.mk "You must provide an file name(s) as long as the table name(s)" 1
      false).cmdlineError.withCode EX_USAGE)⟩
  else p.loopOf dev t forceProcess .restoreTable p.table_names w

/-- The check of the names at the start of `run`: it ends at the wildcard. -/
def checkNames : List Str → Option (Outcome Bool)
  | [] => none
  | n :: names =>
    if n = readAll then none else if !t.hasTable n then some (spawnError forceProcess) else checkNames names

def run (used : Option GptCommand) (w : W) : GptRun :=
  match checkNames t forceProcess p.table_names with
  | some result => ⟨[], result⟩
  | none =>
    match used with
    | some .readTable => p.reReadTables dev t forceProcess w
    | some .backupTable => p.backupGptTable dev t forceProcess w
    | some .restoreTable => p.restoreGptTable dev t forceProcess w
    | none => ⟨[], .ok false⟩

/-- The names with each `read-all` replaced by the tables of the store. -/
def named : List Str := p.table_names.flatMap fun n => if n = readAll then t.localTableNames.list else [n]

def targetsFrom (file : Nat → Str → Option Str) (i : Nat) (names : List Str) : List TableTarget :=
  ((names.zipIdx i).filter fun x => t.hasTable x.1).map fun x => (x.1, file x.2 x.1)

/-- The tables of a list that exist, each with the file of its place in that list. -/
def targets (command : GptCommand) (names : List Str) : List TableTarget :=
  targetsFrom t (p.fileOf command) 0 names

/-- The files do not fit the named tables. Only a backup can do without files. -/
def WrongCount (command : GptCommand) : Prop :=
  match command with
  | .readTable => False
  | .backupTable => p.file_list ≠ [] ∧ (p.named t).length ≠ p.file_list.length
  | .restoreTable => (p.named t).length ≠ p.file_list.length

/-- What a batch command promises. It turns to the named tables in their order and with
their files, and leaves one out only if the files do not fit, or without `--force` after
some trouble. -/
structure BatchDone (command : GptCommand) (run : GptRun) : Prop where
  defined : ∀ u, run.result ≠ .error (.undefined u)
  paired : run.attempts.map Prod.fst <+: p.targets t command (p.named t)
  whole : (run.attempts.map Prod.fst = p.targets t command (p.named t) ∧
        ∀ a ∈ run.attempts, ∀ stop, a.2 ≠ .error (.stopped stop)) ∨
      (p.WrongCount t command ∧ run.attempts = [] ∧ ∃ e, run.result = .error (.raised e)) ∨
      (forceProcess = false ∧ ((∃ n ∈ p.named t, t.hasTable n = false) ∨ ∃ a ∈ run.attempts, a.2 ≠ .ok ()))
  honest : run.result = .ok true → run.attempts.map Prod.fst = p.targets t command (p.named t) ∧
    (forceProcess = true ∨ (∀ n ∈ p.named t, t.hasTable n = true) ∧ ∀ a ∈ run.attempts, a.2 = .ok ())

/-- A name that is checked is not that of a table. -/
def NameMissing : Prop := ∃ n ∈ p.table_names.takeWhile (· ≠ readAll), t.hasTable n = false

/-- The files are as many as the names, if there are any. -/
def CountsAgree (command : GptCommand) : Prop :=
  command = .readTable ∨ p.file_list = [] ∨ p.table_names.length = p.file_list.length

/-- The names that the loop of a command goes through. -/
def working (command : GptCommand) : List Str :=
  if command ≠ .restoreTable ∧ p.table_names.head? = some readAll then t.localTableNames.list else p.table_names

/-- An operation on a table whose file may be missing. -/
def onTarget (act : W → Str → Str → W × Except Trouble Unit) (w : W) (x : TableTarget) : W × Except Trouble Unit :=
  match x.2 with
  | none => (w, .error (.stopped (.undefined .indexOutOfRange)))
  | some path => act w x.1 path

def attemptTarget (command : GptCommand) : W → TableTarget → W × Except Trouble Unit :=
  onTarget (attempt dev t forceProcess command)

/-- When a batch command keeps its promise. -/
structure Fits (command : GptCommand) (w : W) : Prop where
  names : p.NameMissing t → forceProcess = true → p.targets t command (p.named t) = []
  counts : ¬ p.NameMissing t → ¬ p.CountsAgree command → p.WrongCount t command ∨
    p.targets t command (p.named t) = [] ∨ (forceProcess = false ∧ ∃ n ∈ p.named t, t.hasTable n = false)
  nonempty : ¬ p.NameMissing t → p.CountsAgree command → command ≠ .restoreTable → p.table_names ≠ []
  unbroken : ¬ p.NameMissing t → p.CountsAgree command → ∀ pre x post trouble,
    p.targets t command (p.working t command) = pre ++ x :: post →
    Batch.Succeeds (attemptTarget dev t forceProcess command) w pre →
    (attemptTarget dev t forceProcess command (Batch.after (attemptTarget dev t forceProcess command) w pre) x).2 =
      .error trouble →
    (∀ u, trouble ≠ .stopped (.undefined u)) ∧ pre ++ [x] <+: p.targets t command (p.named t) ∧
      (forceProcess = true → pre ++ [x] = p.targets t command (p.named t) ∧ trouble = .failed)
  finished : ¬ p.NameMissing t → p.CountsAgree command →
    Batch.Succeeds (attemptTarget dev t forceProcess command) w (p.targets t command (p.working t command)) →
    p.targets t command (p.working t command) = p.targets t command (p.named t) ∧
      (forceProcess = true ∨ ∀ n ∈ p.named t, t.hasTable n = true)

variable {dev t forceProcess p} {command : GptCommand} {w : W}

theorem targetsFrom_cons {file : Nat → Str → Option Str} {i : Nat} {n : Str} {names : List Str} :
    targetsFrom t file i (n :: names) =
      if t.hasTable n then (n, file i n) :: targetsFrom t file (i + 1) names else targetsFrom t file (i + 1) names := by
  unfold targetsFrom
  rw [List.zipIdx_cons]
  cases hn : t.hasTable n with
  | true => simp [hn]
  | false => simp [hn]

/-- What is returned after a table on which the operation did not succeed. -/
def verdict (forceProcess : Bool) : Trouble → Outcome Bool
  | .failed => spawnError forceProcess
  | .stopped stop => .error stop

section

variable {file : Nat → Str → Option Str} {act : W → Str → Str → W × Except Trouble Unit} {i : Nat} {n : Str}
  {names : List Str}

theorem tableLoop_skips (hn : t.hasTable n = false) :
    tableLoop t forceProcess file act i (n :: names) w = tableLoop t forceProcess file act (i + 1) names w := by
  conv_lhs => rw [tableLoop]
  rw [hn]
  rfl

theorem tableLoop_goes_on (hn : t.hasTable n = true) (h : (onTarget act w (n, file i n)).2 = .ok ()) :
    tableLoop t forceProcess file act i (n :: names) w =
      ⟨((n, file i n), .ok ()) ::
          (tableLoop t forceProcess file act (i + 1) names (onTarget act w (n, file i n)).1).attempts,
        (tableLoop t forceProcess file act (i + 1) names (onTarget act w (n, file i n)).1).result⟩ := by
  conv_lhs => rw [tableLoop]
  rw [hn]
  cases hfile : file i n with
  | none =>
    rw [hfile] at h
    cases h
  | some path =>
    rw [hfile] at h
    simp only [onTarget] at h ⊢
    generalize act w n path = attempted at h ⊢
    obtain ⟨w', outcome⟩ := attempted
    cases h
    rfl

theorem tableLoop_ends (hn : t.hasTable n = true) {trouble : Trouble}
    (h : (onTarget act w (n, file i n)).2 = .error trouble) :
    tableLoop t forceProcess file act i (n :: names) w =
      ⟨[((n, file i n), .error trouble)], verdict forceProcess trouble⟩ := by
  rw [tableLoop, hn]
  cases hfile : file i n with
  | none =>
    rw [hfile] at h
    cases h
    rfl
  | some path =>
    rw [hfile] at h
    simp only [onTarget] at h ⊢
    generalize act w n path = attempted at h ⊢
    obtain ⟨w', outcome⟩ := attempted
    cases h
    cases trouble <;> rfl

theorem tableLoop_succeeds (h : Batch.Succeeds (onTarget act) w (targetsFrom t file i names)) :
    tableLoop t forceProcess file act i names w =
      ⟨(targetsFrom t file i names).map fun x => (x, .ok ()), .ok true⟩ := by
  induction names generalizing i w with
  | nil => rfl
  | cons n names ih =>
    rw [targetsFrom_cons] at h ⊢
    cases hn : t.hasTable n with
    | false =>
      rw [hn] at h
      rw [tableLoop_skips hn]
      exact ih h
    | true =>
      rw [hn] at h
      obtain ⟨hfirst, hrest⟩ := h
      rw [tableLoop_goes_on hn hfirst, ih hrest]
      rfl

theorem tableLoop_first {pre post : List TableTarget} {x : TableTarget} {trouble : Trouble}
    (hsplit : targetsFrom t file i names = pre ++ x :: post) (hpre : Batch.Succeeds (onTarget act) w pre)
    (hx : (onTarget act (Batch.after (onTarget act) w pre) x).2 = .error trouble) :
    tableLoop t forceProcess file act i names w =
      ⟨pre.map (fun x => (x, .ok ())) ++ [(x, .error trouble)], verdict forceProcess trouble⟩ := by
  induction names generalizing i w pre with
  | nil => simp [targetsFrom] at hsplit
  | cons n names ih =>
    rw [targetsFrom_cons] at hsplit
    cases hn : t.hasTable n with
    | false =>
      rw [hn] at hsplit
      rw [tableLoop_skips hn]
      exact ih hsplit hpre hx
    | true =>
      rw [hn] at hsplit
      cases pre with
      | nil =>
        obtain ⟨rfl, _⟩ := List.cons.inj hsplit
        exact tableLoop_ends hn hx
      | cons y pre =>
        obtain ⟨rfl, hrest⟩ := List.cons.inj hsplit
        rw [tableLoop_goes_on hn hpre.1, ih hrest hpre.2 hx]
        rfl

end

theorem checkNames_missing {names : List Str} (h : ∃ n ∈ names.takeWhile (· ≠ readAll), t.hasTable n = false) :
    checkNames t forceProcess names = some (spawnError forceProcess) := by
  induction names with
  | nil => simp at h
  | cons n names ih =>
    by_cases hall : n = readAll
    · simp [hall] at h
    · rw [checkNames, if_neg hall]
      cases hn : t.hasTable n with
      | false => rfl
      | true =>
        rw [List.takeWhile_cons_of_pos (by simpa using hall), List.exists_mem_cons_iff] at h
        refine ih (h.resolve_left ?_)
        rw [hn]
        exact fun h => nomatch h

theorem checkNames_passes {names : List Str} (h : ¬ ∃ n ∈ names.takeWhile (· ≠ readAll), t.hasTable n = false) :
    checkNames t forceProcess names = none := by
  induction names with
  | nil => rfl
  | cons n names ih =>
    rw [checkNames]
    by_cases hall : n = readAll
    · rw [if_pos hall]
    · rw [List.takeWhile_cons_of_pos (by simpa using hall), List.exists_mem_cons_iff, not_or] at h
      have hn : t.hasTable n = true := by simpa using h.1
      rw [if_neg hall, hn]
      exact ih h.2

theorem run_missing (h : p.NameMissing t) :
    p.run dev t forceProcess (some command) w = ⟨[], spawnError forceProcess⟩ := by
  unfold run
  rw [checkNames_missing h]

theorem run_counts (hnames : ¬ p.NameMissing t) (h : ¬ p.CountsAgree command) :
    ∃ e, p.run dev t forceProcess (some command) w = ⟨[], .error (.raised e)⟩ := by
  unfold CountsAgree at h
  rw [not_or, not_or] at h
  unfold run
  rw [checkNames_passes hnames]
  cases command with
  | readTable => exact absurd rfl h.1
  | backupTable =>
    dsimp only
    rw [backupGptTable, if_pos h.2]
    exact ⟨_, rfl⟩
  | restoreTable =>
    dsimp only
    rw [restoreGptTable, if_pos h.2]
    exact ⟨_, rfl⟩

theorem run_agreeing (hnames : ¬ p.NameMissing t) (h : p.CountsAgree command) :
    p.run dev t forceProcess (some command) w =
      if command ≠ .restoreTable ∧ p.table_names = [] then ⟨[], .error (.undefined .indexOutOfRange)⟩
      else p.loopOf dev t forceProcess command (p.working t command) w := by
  have hread : ∀ c, c ≠ GptCommand.restoreTable → (match readAllHandle t p.table_names with
      | .error stop => ⟨[], .error stop⟩
      | .ok names => p.loopOf dev t forceProcess c names w) =
      if c ≠ .restoreTable ∧ p.table_names = [] then ⟨[], .error (.undefined .indexOutOfRange)⟩
      else p.loopOf dev t forceProcess c (p.working t c) w := by
    intro c hc
    unfold working
    cases hlist : p.table_names with
    | nil => simp [readAllHandle, hc]
    | cons first rest => simp [readAllHandle, hc]
  have hcounts : command ≠ .readTable → ¬ (p.file_list ≠ [] ∧ p.table_names.length ≠ p.file_list.length) := by
    intro hc hdiffer
    rcases h with h | h | h
    · exact hc h
    · exact hdiffer.1 h
    · exact hdiffer.2 h
  unfold run
  rw [checkNames_passes hnames]
  cases command with
  | readTable => exact hread _ (by decide)
  | backupTable =>
    dsimp only
    rw [backupGptTable, if_neg (hcounts (by decide))]
    exact hread _ (by decide)
  | restoreTable =>
    dsimp only
    rw [restoreGptTable, if_neg (hcounts (by decide)), if_neg (by simp)]
    rfl

theorem mem_named_of_missing (h : p.NameMissing t) : ∃ n ∈ p.named t, t.hasTable n = false := by
  obtain ⟨n, hmem, hn⟩ := h
  have hplain : n ≠ readAll := by simpa using List.mem_takeWhile_imp hmem
  refine ⟨n, List.mem_flatMap.mpr ⟨n, (List.takeWhile_subset _) hmem, ?_⟩, hn⟩
  rw [if_neg hplain]
  exact List.mem_singleton.mpr rfl

theorem batchDone_missing (h : p.NameMissing t) :
    BatchDone t forceProcess p command ⟨[], spawnError forceProcess⟩ ↔
      (forceProcess = true → p.targets t command (p.named t) = []) := by
  constructor
  · intro hdone hforce
    subst hforce
    exact (hdone.honest rfl).1.symm
  · intro htargets
    cases forceProcess with
    | true =>
      have hnil := htargets rfl
      refine ⟨fun u hu => (nomatch hu), List.nil_prefix, Or.inl ⟨hnil.symm, ?_⟩, fun _ => ⟨hnil.symm, Or.inl rfl⟩⟩
      exact fun a ha => absurd ha List.not_mem_nil
    | false =>
      refine ⟨fun u hu => (nomatch hu), List.nil_prefix, Or.inr (Or.inr ⟨rfl, Or.inl (mem_named_of_missing h)⟩), ?_⟩
      exact fun hok => (nomatch hok)

theorem batchDone_raised {e : Exception} :
    BatchDone t forceProcess p command ⟨[], .error (.raised e)⟩ ↔ p.WrongCount t command ∨
      p.targets t command (p.named t) = [] ∨ (forceProcess = false ∧ ∃ n ∈ p.named t, t.hasTable n = false) := by
  constructor
  · intro hdone
    rcases hdone.whole with ⟨hall, _⟩ | ⟨hcount, _⟩ | ⟨hforce, hmissing | ⟨a, ha, _⟩⟩
    · exact Or.inr (Or.inl hall.symm)
    · exact Or.inl hcount
    · exact Or.inr (Or.inr ⟨hforce, hmissing⟩)
    · exact absurd ha List.not_mem_nil
  · intro h
    refine ⟨fun u hu => (nomatch hu), List.nil_prefix, ?_, fun hok => (nomatch hok)⟩
    rcases h with hcount | hnil | ⟨hforce, hmissing⟩
    · exact Or.inr (Or.inl ⟨hcount, rfl, e, rfl⟩)
    · exact Or.inl ⟨hnil.symm, fun a ha => absurd ha List.not_mem_nil⟩
    · exact Or.inr (Or.inr ⟨hforce, Or.inl hmissing⟩)

theorem map_attempts (xs : List TableTarget) :
    (xs.map fun x => (x, (Except.ok () : Except Trouble Unit))).map Prod.fst = xs := by
  rw [List.map_map]
  exact List.map_id xs

theorem batchDone_all {xs : List TableTarget} :
    BatchDone t forceProcess p command ⟨xs.map fun x => (x, .ok ()), .ok true⟩ ↔
      xs = p.targets t command (p.named t) ∧ (forceProcess = true ∨ ∀ n ∈ p.named t, t.hasTable n = true) := by
  have hok : ∀ a ∈ xs.map fun x => (x, (Except.ok () : Except Trouble Unit)), a.2 = .ok () := by
    intro a ha
    obtain ⟨x, _, rfl⟩ := List.mem_map.mp ha
    rfl
  constructor
  · intro hdone
    obtain ⟨hall, hexist⟩ := hdone.honest rfl
    rw [map_attempts] at hall
    exact ⟨hall, hexist.imp_right And.left⟩
  · intro h
    obtain ⟨hall, hexist⟩ := h
    refine ⟨fun u hu => (nomatch hu), ?_, Or.inl ⟨?_, ?_⟩, fun _ => ⟨?_, hexist.imp_right fun h => ⟨h, hok⟩⟩⟩
    · rw [map_attempts, hall]
    · rw [map_attempts, hall]
    · intro a ha stop
      rw [hok a ha]
      exact fun h => (nomatch h)
    · rw [map_attempts, hall]

theorem batchDone_first {pre : List TableTarget} {x : TableTarget} {trouble : Trouble} :
    BatchDone t forceProcess p command
        ⟨pre.map (fun x => (x, .ok ())) ++ [(x, .error trouble)], verdict forceProcess trouble⟩ ↔
      (∀ u, trouble ≠ .stopped (.undefined u)) ∧ pre ++ [x] <+: p.targets t command (p.named t) ∧
        (forceProcess = true → pre ++ [x] = p.targets t command (p.named t) ∧ trouble = .failed) := by
  have hmap : (pre.map (fun x => (x, (Except.ok () : Except Trouble Unit))) ++
      [(x, (Except.error trouble : Except Trouble Unit))]).map Prod.fst =
      pre ++ [x] := by
    rw [List.map_append, map_attempts]
    rfl
  have hlast : (x, (Except.error trouble : Except Trouble Unit)) ∈
      pre.map (fun x => (x, (Except.ok () : Except Trouble Unit))) ++ [(x, .error trouble)] :=
    List.mem_append_right _ (List.mem_singleton.mpr rfl)
  have hundefined : ∀ u, verdict forceProcess trouble ≠ .error (.undefined u) ↔ trouble ≠ .stopped (.undefined u) := by
    intro u
    cases trouble with
    | failed => cases forceProcess <;> simp [verdict, spawnError]
    | stopped stop => simp [verdict]
  constructor
  · intro hdone
    refine ⟨fun u => (hundefined u).mp (hdone.defined u), hmap ▸ hdone.paired, ?_⟩
    intro hforce
    rcases hdone.whole with ⟨hall, happlied⟩ | ⟨_, hnone, _⟩ | ⟨hnot, _⟩
    · refine ⟨hmap ▸ hall, ?_⟩
      cases trouble with
      | failed => rfl
      | stopped stop => exact absurd rfl (happlied _ hlast stop)
    · exact absurd (List.append_eq_nil_iff.mp hnone).2 (List.cons_ne_nil _ _)
    · rw [hforce] at hnot
      exact nomatch hnot
  · intro h
    obtain ⟨hdefined, hpaired, hforced⟩ := h
    refine ⟨fun u => (hundefined u).mpr (hdefined u), by rwa [hmap], ?_, ?_⟩
    · cases hforce : forceProcess with
      | false => exact Or.inr (Or.inr ⟨rfl, Or.inr ⟨_, hlast, fun h => (nomatch h)⟩⟩)
      | true =>
        obtain ⟨hall, rfl⟩ := hforced hforce
        refine Or.inl ⟨by rw [hmap, hall], ?_⟩
        intro a ha stop hstop
        rcases List.mem_append.mp ha with hpre | hx
        · obtain ⟨y, _, rfl⟩ := List.mem_map.mp hpre
          cases hstop
        · cases List.mem_singleton.mp hx
          cases hstop
    · intro hok
      cases hforce : forceProcess with
      | true => exact ⟨by rw [hmap, (hforced hforce).1], Or.inl rfl⟩
      | false =>
        rw [hforce] at hok
        cases trouble with
        | failed => cases hok
        | stopped stop => cases hok

end GptPlugin

/-- When a batch command does what it promises. -/
theorem gpt_batch_done_iff {W : Type} (dev : TableDevice W) (t : PartitionTableData) (forceProcess : Bool)
    (p : GptPlugin) (command : GptCommand) (w : W) :
    p.BatchDone t forceProcess command (p.run dev t forceProcess (some command) w) ↔
      p.Fits dev t forceProcess command w := by
  by_cases hnames : p.NameMissing t
  · rw [GptPlugin.run_missing hnames, GptPlugin.batchDone_missing hnames]
    constructor
    · intro h
      exact ⟨fun _ => h, fun h => absurd hnames h, fun h => absurd hnames h, fun h => absurd hnames h,
        fun h => absurd hnames h⟩
    · intro h
      exact h.names hnames
  by_cases hcounts : p.CountsAgree command
  · rw [GptPlugin.run_agreeing hnames hcounts]
    by_cases hempty : command ≠ .restoreTable ∧ p.table_names = []
    · rw [if_pos hempty]
      refine iff_of_false (fun h => h.defined _ rfl) ?_
      intro h
      exact h.nonempty hnames hcounts hempty.1 hempty.2
    rw [if_neg hempty, GptPlugin.loopOf]
    constructor
    · intro h
      refine ⟨fun h => absurd h hnames, fun _ h => absurd hcounts h, ?_, ?_, ?_⟩
      · intro _ _ hcommand hnil
        exact hempty ⟨hcommand, hnil⟩
      · intro _ _ pre x post trouble hsplit hpre hx
        rw [GptPlugin.tableLoop_first hsplit hpre hx] at h
        exact GptPlugin.batchDone_first.mp h
      · intro _ _ hall
        rw [GptPlugin.tableLoop_succeeds hall] at h
        exact GptPlugin.batchDone_all.mp h
    · intro h
      rcases Batch.succeeds_or_first w (p.targets t command (p.working t command)) with
        hall | ⟨pre, x, post, trouble, hsplit, hpre, hx⟩
      · rw [GptPlugin.tableLoop_succeeds hall]
        exact GptPlugin.batchDone_all.mpr (h.finished hnames hcounts hall)
      · rw [GptPlugin.tableLoop_first hsplit hpre hx]
        exact GptPlugin.batchDone_first.mpr (h.unbroken hnames hcounts pre x post trouble hsplit hpre hx)
  · obtain ⟨e, he⟩ := GptPlugin.run_counts hnames hcounts
    rw [he, GptPlugin.batchDone_raised]
    constructor
    · intro h
      exact ⟨fun h => absurd h hnames, fun _ _ => h, fun _ h => absurd h hcounts, fun _ h => absurd h hcounts,
        fun _ h => absurd h hcounts⟩
    · intro h
      exact h.counts hnames hcounts

/-- The kernel can read every table again but that of `sda`, which is busy. -/
def busyDevice : TableDevice Unit where
  fileIsExists _ _ := false
  closeFdsOf _ _ := ()
  reReadTable _ final := ((), final ≠ "/dev/block/sda")
  SaveGPTBackup _ _ _ := ((), true)
  LoadGPTBackup _ _ _ := ((), true)
  sync _ _ := ((), true)

def bothTables : GptPlugin where
  table_names := ["sda", "sdb"]
  file_list := []

/-- With `--force` a busy first table ends the command, which reports success. -/
theorem gpt_batch_stops_at_sda :
    bothTables.run busyDevice PartitionTableData.twoTables true (some .readTable) () =
        ⟨[(("sda", some "/dev/block/sda"), .error .failed)], .ok true⟩ ∧
      ¬ bothTables.BatchDone PartitionTableData.twoTables true .readTable
        (bothTables.run busyDevice PartitionTableData.twoTables true (some .readTable) ()) := by
  refine ⟨rfl, ?_⟩
  intro h
  exact absurd (h.honest rfl).1 (by decide)

end PartitionManager
