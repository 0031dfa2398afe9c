import PartitionManager.OptionLists
import PartitionManager.PluginOptions

namespace PartitionManager

/-- The partitions that a listing is about. -/
inductive Listing where
  | all
  | logicals
  | physicals
  | named (partitions : List Str)
  deriving DecidableEq

/-- `partitions.back()`. -/
def back (partitions : List Str) : Outcome Str :=
  match partitions.getLast? with
  | none => .error (.undefined .emptyVector)
  | some last => .ok last

/-- The loop that throws for the first name that no table has. -/
def requirePartitions (hasPartition : Str → Bool) (message : Str → Str) (partitions : List Str) : Outcome Unit :=
  partitions.forM fun partition => if hasPartition partition then .ok () else raise ⟨message partition, 1, false⟩

/-- The part of `run` of `info` and `sizeof` that looks at the list. -/
def listing (pTab : PartitionTableData) (dTab : DynamicTableData) (message : Str → Str) (partitions : List Str) :
    Outcome Listing := do
  let last ← back partitions
  if last = "get-all" || last = "getvar-all" then .ok .all
  else if last = "get-logicals" then .ok .logicals
  else if last = "get-physicals" then .ok .physicals
  else do
    requirePartitions (fun name => pTab.hasPartition name || dTab.hasPartition name) message partitions
    .ok (.named partitions)

def InfoPlugin.listing (pTab : PartitionTableData) (dTab : DynamicTableData) : List Str → Outcome Listing :=
  PartitionManager.listing pTab dTab fun partition => "Couldn't find partition: " ++ partition

/-- `%s` is no placeholder of this error. -/
def PartitionSizePlugin.listing (pTab : PartitionTableData) (dTab : DynamicTableData) : List Str → Outcome Listing :=
  PartitionManager.listing pTab dTab fun _ => "Couldn't find partition: %s"

/-- The part of `readPartitionMetadata` that looks at the list. -/
def LpMetadataPlugin.listing (dTab : DynamicTableData) (partitions : List Str) : Outcome Listing := do
  let last ← back partitions
  if last = "get-all" || last = "getvar-all" then .ok .all
  else do
    requirePartitions dTab.hasPartition (fun partition => "Couldn't find logical partition: " ++ partition) partitions
    .ok (.named partitions)

def Variables.gptPlugin (dest : Variables) : GptPlugin where
  table_names := (dest "GptPlugin::table_names").vector
  file_list := (dest "GptPlugin::file_list").vector
  directory := (dest "GptPlugin::directory").text

/-- No element of an empty list, and none past the end of a list, was read. -/
def ReadsInRange {α : Type} (result : Outcome α) : Prop :=
  result ≠ .error (.undefined .emptyVector) ∧ result ≠ .error (.undefined .indexOutOfRange)

/-- Whatever the tables are and the device does, the operation reads its lists in range. -/
def GptPlugin.RunsInRange (p : GptPlugin) (command : GptCommand) : Prop :=
  ∀ (W : Type) (dev : TableDevice W) (t : PartitionTableData) (forceProcess : Bool) (w : W),
    ReadsInRange (p.run dev t forceProcess (some command) w).result

namespace ListCommand

/-- `run` of the plugin reads its lists in range. -/
def RunsInRange (command : ListCommand) (dest : Variables) : Prop :=
  match command with
  | info => ∀ pTab dTab, ReadsInRange (InfoPlugin.listing pTab dTab (dest "InfoPlugin::partitions").vector)
  | sizeof =>
    ∀ pTab dTab, ReadsInRange (PartitionSizePlugin.listing pTab dTab (dest "PartitionSizePlugin::partitions").vector)
  | readPartition => ∀ dTab, ReadsInRange (LpMetadataPlugin.listing dTab (dest "LpMetadataPlugin::partitions").vector)
  | gpt command => dest.gptPlugin.RunsInRange command

/-- When `run` starts, its required lists hold something, and it reads its lists in range. -/
structure ListsReady (command : ListCommand) (dest : Variables) : Prop where
  nonempty : ∀ entry ∈ command.requiredLists, (dest entry.2).vector ≠ []
  inRange : command.RunsInRange dest

end ListCommand

namespace App

variable {D : Type} (app : App D)

/-- A token gives the text to the option. -/
def GivesTo (argv : List Str) (vars : CmdState D) (o : OptRef) (text : Str) : Prop :=
  ∃ use ∈ app.parseUses argv vars, use.given = some (o, text)

end App

/-- Each text for a required list is more than commas. If `read-all` is the first table of
a backup, there are no outputs or not as many as names. -/
structure ListCommand.ListsNamed (command : ListCommand) (app : App Variables) (i : Nat) (argv : List Str)
    (vars : CmdState Variables) : Prop where
  lists : ∀ entry ∈ command.requiredLists, ∀ text, app.GivesTo argv vars ⟨i :: command.below, entry.1⟩ text →
    ∃ c ∈ text, c ≠ ','
  wildcard : command = .gpt .backupTable → ∀ tables outputs, app.GivesTo argv vars ⟨i :: command.below, 0⟩ tables →
    app.GivesTo argv vars ⟨i :: command.below, 1⟩ outputs → (split tables ',').head? = some readAll →
      split outputs ',' = [] ∨ (split tables ',').length ≠ (split outputs ',').length

section

variable {α : Type}

theorem readsInRange_raise (e : HelperError) : ReadsInRange (raise e : Outcome α) :=
  ⟨fun h => (nomatch h), fun h => (nomatch h)⟩

theorem readsInRange_ok (a : α) : ReadsInRange (.ok a : Outcome α) := ⟨fun h => (nomatch h), fun h => (nomatch h)⟩

theorem requirePartitions_cases (hasPartition : Str → Bool) (message : Str → Str) (partitions : List Str) :
    requirePartitions hasPartition message partitions = .ok () ∨
      ∃ e, requirePartitions hasPartition message partitions = raise e := by
  induction partitions with
  | nil => exact Or.inl rfl
  | cons first rest ih =>
    rw [requirePartitions, List.forM_eq_forM, List.forM_cons]
    cases hasPartition first with
    | false => exact Or.inr ⟨⟨message first, 1, false⟩, rfl⟩
    | true => exact ih

theorem requirePartitions_inRange (hasPartition : Str → Bool) (message : Str → Str) (partitions : List Str)
    (found : Listing) : ReadsInRange (do requirePartitions hasPartition message partitions; .ok found) := by
  rcases requirePartitions_cases hasPartition message partitions with hall | ⟨e, hmissing⟩
  · rw [hall]
    exact readsInRange_ok found
  · rw [hmissing]
    exact readsInRange_raise e

theorem back_ok {partitions : List Str} (hne : partitions ≠ []) : ∃ last, back partitions = .ok last := by
  refine ⟨partitions.getLast hne, ?_⟩
  rw [back, List.getLast?_eq_some_getLast hne]

/-- A list that holds something is read in range. -/
theorem listing_inRange {partitions : List Str} (hne : partitions ≠ []) (pTab : PartitionTableData)
    (dTab : DynamicTableData) (message : Str → Str) : ReadsInRange (listing pTab dTab message partitions) := by
  obtain ⟨last, hlast⟩ := back_ok hne
  rw [listing, hlast]
  show ReadsInRange (ite _ _ _)
  split
  · exact readsInRange_ok _
  · split
    · exact readsInRange_ok _
    · split
      · exact readsInRange_ok _
      · exact requirePartitions_inRange _ message partitions _

theorem LpMetadataPlugin.listing_inRange {partitions : List Str} (hne : partitions ≠ []) (dTab : DynamicTableData) :
    ReadsInRange (LpMetadataPlugin.listing dTab partitions) := by
  obtain ⟨last, hlast⟩ := back_ok hne
  rw [listing, hlast]
  show ReadsInRange (ite _ _ _)
  split
  · exact readsInRange_ok _
  · exact requirePartitions_inRange _ _ partitions _

end

namespace GptPlugin

section

variable {W : Type} {dev : TableDevice W} {t : PartitionTableData} {forceProcess : Bool} {p : GptPlugin}

/-- The operation on one table does not touch the lists. -/
theorem attempt_inRange (command : GptCommand) (w : W) (n path : Str) (u : Undefined) :
    (attempt dev t forceProcess command w n path).2 ≠ .error (.stopped (.undefined u)) := by
  have hreported : ∀ r : W × Bool, (reported r).2 ≠ .error (.stopped (.undefined u)) := by
    intro r
    unfold reported
    cases r.2 <;> exact fun h => nomatch h
  have hdata : ∀ stop, t.GPTDataOf n = .error stop → stop ≠ .undefined u := by
    intro stop h
    unfold PartitionTableData.GPTDataOf at h
    split at h
    · cases h
      exact fun h => nomatch h
    · cases h
  cases command with
  | readTable => exact hreported _
  | backupTable =>
    unfold attempt attemptBackup
    dsimp only
    split
    · exact fun h => nomatch h
    · split
      next stop hstop =>
        intro h
        cases h
        exact hdata _ hstop rfl
      next => exact hreported _
  | restoreTable =>
    unfold attempt attemptRestore
    dsimp only
    split
    next stop hstop =>
      intro h
      cases h
      exact hdata _ hstop rfl
    next =>
      split
      · exact hreported _
      · exact fun h => nomatch h

/-- A loop that finds a file for each of its tables reads its lists in range. -/
theorem tableLoop_inRange {file : Nat → Str → Option Str} {command : GptCommand} {names : List Str} {i : Nat} {w : W}
    (hfile : ∀ j, j < names.length → ∀ n, file (i + j) n ≠ none) :
    ReadsInRange (tableLoop t forceProcess file (attempt dev t forceProcess command) i names w).result := by
  rcases @Batch.succeeds_or_first _ _ _ (onTarget (attempt dev t forceProcess command)) w
      (targetsFrom t file i names) with hall | ⟨pre, x, post, trouble, hsplit, hpre, hx⟩
  · rw [tableLoop_succeeds hall]
    exact readsInRange_ok true
  · rw [tableLoop_first hsplit hpre hx]
    have htrouble : ∀ u, trouble ≠ .stopped (.undefined u) := by
      rintro u rfl
      obtain ⟨y, hy, rfl⟩ := List.mem_map.mp (show x ∈ targetsFrom t file i names by rw [hsplit]; simp)
      obtain ⟨hbound, hlt, _⟩ := List.mem_zipIdx (List.mem_of_mem_filter hy)
      obtain ⟨path, hpath⟩ := Option.ne_none_iff_exists'.mp (hfile (y.2 - i) (by omega) y.1)
      rw [Nat.add_sub_cancel' hbound] at hpath
      rw [hpath] at hx
      exact attempt_inRange command _ y.1 path u hx
    cases trouble with
    | failed =>
      cases forceProcess with
      | true => exact readsInRange_ok true
      | false => exact readsInRange_ok false
    | stopped stop =>
      exact ⟨fun h => htrouble _ (congrArg Trouble.stopped (Except.error.inj h)),
        fun h => htrouble _ (congrArg Trouble.stopped (Except.error.inj h))⟩

/-- A loop whose operations succeed gets to a table that has no file. -/
theorem tableLoop_reaches {file : Nat → Str → Option Str} {act : W → Str → Str → W × Except Trouble Unit}
    {names : List Str} (hnames : ∀ n ∈ names, t.hasTable n = true)
    (hact : ∀ n ∈ names, ∀ w path, (act w n path).2 = .ok ()) {i j : Nat} {n : Str} (hn : names[j]? = some n)
    (hfile : file (i + j) n = none) (w : W) :
    (tableLoop t forceProcess file act i names w).result = .error (.undefined .indexOutOfRange) := by
  induction names generalizing i j w with
  | nil => cases hn
  | cons first rest ih =>
    obtain ⟨hfirst, hrest⟩ := List.forall_mem_cons.mp hnames
    obtain ⟨hactFirst, hactRest⟩ := List.forall_mem_cons.mp hact
    by_cases hmissing : file i first = none
    · have hends : (onTarget act w (first, file i first)).2 = .error (.stopped (.undefined .indexOutOfRange)) := by
        rw [hmissing]
        rfl
      rw [tableLoop_ends hfirst hends]
      rfl
    · obtain ⟨path, hpath⟩ := Option.ne_none_iff_exists'.mp hmissing
      have hgoes : (onTarget act w (first, file i first)).2 = .ok () := by
        rw [hpath]
        exact hactFirst w path
      rw [tableLoop_goes_on hfirst hgoes]
      cases j with
      | zero =>
        cases hn
        exact absurd hfile hmissing
      | succ j =>
        refine ih hrest hactRest hn ?_ _
        rw [Nat.add_assoc, Nat.add_comm 1 j]
        exact hfile

theorem fileOf_unfiled {command : GptCommand} (hempty : p.file_list = []) (hrestore : command ≠ .restoreTable)
    {j : Nat} {n : Str} : p.fileOf command j n ≠ none := by
  cases command with
  | readTable => simp [fileOf]
  | backupTable => simp [fileOf, hempty]
  | restoreTable => exact absurd rfl hrestore

theorem fileOf_filed {command : GptCommand} {j : Nat} (hj : command ≠ .readTable → j < p.file_list.length) {n : Str} :
    p.fileOf command j n ≠ none := by
  cases command with
  | readTable => simp [fileOf]
  | backupTable =>
    have hlt : j < p.file_list.length := hj (by decide)
    have hne : p.file_list ≠ [] := List.ne_nil_of_length_pos (by omega)
    simp [fileOf, hne, hlt]
  | restoreTable =>
    have hlt : j < p.file_list.length := hj (by decide)
    simp [fileOf, hlt]

/-- As many names, each of another length. -/
def fullNames (count : Nat) : List Str := (List.range count).map fun k => List.replicate (k + 1) 'a'

theorem fullNames_nodup (count : Nat) : (fullNames count).Nodup := by
  refine List.nodup_range.map ?_
  intro k l h
  simpa using congrArg List.length h

theorem fullNames_fileNames (count : Nat) : ∀ name ∈ fullNames count, '/' ∉ name := by
  intro name hname
  obtain ⟨k, _, rfl⟩ := List.mem_map.mp hname
  simp [List.mem_replicate]

theorem noPartition_physical : ∀ p ∈ ([] : List Partition), p.isLogical = false := by
  intro p hp
  cases hp

/-- As many tables, with a name of another length each. -/
def fullTables (count : Nat) : PartitionTableData where
  gptDataCollection := (fullNames count).map fun n => (append ScanDevice.devBlock n, ⟨512, [], 0, 3⟩)
  localPartitions := []
  localTableNames := ⟨fullNames count, fullNames_nodup count, fullNames_fileNames count⟩
  physical := noPartition_physical

/-- Nothing goes wrong on this device. -/
def soundDevice : TableDevice Unit where
  fileIsExists _ _ := false
  closeFdsOf _ _ := ()
  reReadTable _ _ := ((), true)
  SaveGPTBackup _ _ _ := ((), true)
  LoadGPTBackup _ _ _ := ((), true)
  sync _ _ := ((), true)

theorem fullTables_backup {count : Nat} {n : Str} (hn : n ∈ (fullTables count).localTableNames.list) (w : Unit)
    (path : Str) : (attempt soundDevice (fullTables count) false .backupTable w n path).2 = .ok () := by
  have hfound : ((fullTables count).gptDataCollection.find? fun entry =>
      squeeze entry.1 = squeeze (append ScanDevice.devBlock n)).isSome = true := by
    refine List.find?_isSome.mpr ⟨(append ScanDevice.devBlock n, ⟨512, [], 0, 3⟩), ?_, by simp⟩
    exact List.mem_map.mpr ⟨n, hn, rfl⟩
  obtain ⟨entry, hentry⟩ := Option.isSome_iff_exists.mp hfound
  have hdata : (fullTables count).GPTDataOf n = .ok entry.2 := by
    rw [PartitionTableData.GPTDataOf, hentry]
  show (attemptBackup soundDevice (fullTables count) false w n path).2 = .ok ()
  rw [attemptBackup, hdata]
  rfl

/-- All tables are backed up to as many files as names were typed: one table more has no file. -/
theorem backup_all_outOfRange (htables : p.table_names ≠ []) (hall : p.table_names.head? = some readAll)
    (hfiled : p.file_list ≠ []) (hlength : p.table_names.length = p.file_list.length) :
    ¬ p.RunsInRange .backupTable := by
  intro h
  have hnames : ¬ p.NameMissing (fullTables (p.file_list.length + 1)) := by
    intro hmissing
    obtain ⟨first, rest, hlist⟩ := List.exists_cons_of_ne_nil htables
    have hfirst : first = readAll := by
      rw [hlist] at hall
      exact Option.some.inj hall
    obtain ⟨n, hn, _⟩ := hmissing
    rw [hlist, List.takeWhile_cons_of_neg (by simpa using hfirst)] at hn
    cases hn
  let t := fullTables (p.file_list.length + 1)
  have hrun : p.run soundDevice t false (some .backupTable) () =
      if GptCommand.backupTable ≠ .restoreTable ∧ p.table_names = [] then ⟨[], .error (.undefined .indexOutOfRange)⟩
      else p.loopOf soundDevice t false .backupTable (p.working t .backupTable) () :=
    run_agreeing hnames (Or.inr (Or.inr hlength))
  have hworking : p.working t .backupTable = t.localTableNames.list := by
    rw [working, if_pos ⟨by decide, hall⟩]
  have hfile : p.fileOf .backupTable (0 + p.file_list.length) (List.replicate (p.file_list.length + 1) 'a') = none := by
    simp [fileOf, hfiled]
  have hlast : t.localTableNames.list[p.file_list.length]? = some (List.replicate (p.file_list.length + 1) 'a') := by
    simp [t, fullTables, fullNames]
  have hhas : ∀ n ∈ t.localTableNames.list, t.hasTable n = true := fun n hn =>
    (List.contains_iff_mem).mpr hn
  refine (h Unit soundDevice t false ()).2 ?_
  rw [hrun, if_neg (fun hempty => htables hempty.2), loopOf, hworking]
  exact tableLoop_reaches hhas (fun n hn w path => fullTables_backup hn w path) hlast hfile ()

/-- Typed names are worked on one by one, each with its file. -/
theorem working_length {t : PartitionTableData} {command : GptCommand} (hcounts : p.CountsAgree command)
    (hread : command ≠ .readTable) (hfiled : p.file_list ≠ [])
    (hall : command = .backupTable → p.table_names.head? ≠ some readAll) :
    (p.working t command).length = p.file_list.length := by
  rw [working, if_neg]
  · exact (hcounts.resolve_left hread).resolve_left hfiled
  · intro hboth
    cases command with
    | readTable => exact hread rfl
    | backupTable => exact hall rfl hboth.2
    | restoreTable => exact hboth.1 rfl

/-- With its lists filled, an operation reads them in range, unless all tables are to be
backed up to files whose number is that of the names typed. -/
theorem runsInRange_iff {command : GptCommand} (htables : p.table_names ≠ [])
    (hfiles : command = .restoreTable → p.file_list ≠ []) : p.RunsInRange command ↔
      (command = .backupTable → p.table_names.head? = some readAll →
        p.file_list = [] ∨ p.table_names.length ≠ p.file_list.length) := by
  constructor
  · intro h hcommand hall
    by_contra hcounts
    obtain ⟨hfiled, hlength⟩ := not_or.mp hcounts
    subst hcommand
    exact backup_all_outOfRange htables hall hfiled (not_not.mp hlength) h
  · intro h W dev t forceProcess w
    by_cases hnames : p.NameMissing t
    · rw [run_missing hnames]
      cases forceProcess with
      | true => exact readsInRange_ok true
      | false => exact readsInRange_ok false
    · by_cases hcounts : p.CountsAgree command
      · rw [run_agreeing hnames hcounts, if_neg (fun hempty => htables hempty.2)]
        refine tableLoop_inRange ?_
        intro j hj n
        rw [Nat.zero_add]
        by_cases hnone : p.file_list = [] ∧ command ≠ .restoreTable
        · exact fileOf_unfiled hnone.1 hnone.2
        · refine fileOf_filed fun hread => ?_
          have hfiled : p.file_list ≠ [] := by
            intro hempty
            by_cases hrestore : command = .restoreTable
            · exact hfiles hrestore hempty
            · exact hnone ⟨hempty, hrestore⟩
          refine hj.trans_eq (working_length hcounts hread hfiled fun hbackup hall => ?_)
          exact (h hbackup hall).elim hfiled fun hdiffer =>
            hdiffer ((hcounts.resolve_left hread).resolve_left hfiled)
      · obtain ⟨e, he⟩ := @run_counts _ dev t forceProcess p command w hnames hcounts
        rw [he]
        exact ⟨by rintro ⟨⟩, by rintro ⟨⟩⟩

end

end GptPlugin

/-- The option puts a positional value into the list. -/
structure CmdOption.TakesList (option : CmdOption Variables) (name : Str) : Prop where
  setter : option.setter = some ((Variable.named name).setter .vector_string)
  transformer : option.transformer = none
  positional : ∀ n ∈ option.valid_names, n.head? ≠ some '-'

theorem CmdOption.TakesList.decode {option : CmdOption Variables} {name : Str} (h : option.TakesList name)
    (text : Str) : option.decode .vector_string text = .ok (.strings (split text ',')) := by
  have htext : option.transformed text = .ok text := by
    rw [CmdOption.transformed, h.transformer]
    rfl
  exact CmdOption.decode_ok_iff.mpr ⟨text, htext, rfl⟩

namespace ListCommand

theorem required_at {command : ListCommand} {entry : Nat × Str} (h : entry ∈ command.requiredLists) :
    command.destinations[entry.1]? = some (some entry.2) ∧ ∃ option, command.cmd.options[entry.1]? = some option ∧
      option.is_required = true ∧ option.TakesList entry.2 := by
  cases command with
  | info | sizeof | readPartition =>
    obtain rfl := List.mem_singleton.mp h
    exact ⟨rfl, _, rfl, rfl, rfl, rfl, by decide⟩
  | gpt command =>
    cases command with
    | readTable | backupTable =>
      obtain rfl := List.mem_singleton.mp h
      exact ⟨rfl, _, rfl, rfl, rfl, rfl, by decide⟩
    | restoreTable =>
      rcases List.mem_pair.mp h with rfl | rfl
      · exact ⟨rfl, _, rfl, rfl, rfl, rfl, by decide⟩
      · exact ⟨rfl, _, rfl, rfl, rfl, rfl, by decide⟩

theorem superior_version (command : ListCommand) {option : CmdOption Variables} (hmem : option ∈ command.cmd.options)
    (h : option.superior = true) : option = versionFlag := by
  have hall : ∀ options : List (CmdOption Variables), (options.all fun option => !option.superior) = true →
      ∀ option ∈ options, option.superior ≠ true := by
    intro options hplain option hmem hsuperior
    have hfalse := List.all_eq_true.mp hplain option hmem
    rw [hsuperior] at hfalse
    cases hfalse
  have hlast : ∀ options : List (CmdOption Variables), (options.all fun option => !option.superior) = true →
      option ∈ options ++ [versionFlag] → option = versionFlag := by
    intro options hplain hmem
    rcases List.mem_append.mp hmem with hearlier | hversion
    · exact absurd h (hall options hplain option hearlier)
    · exact List.mem_singleton.mp hversion
  cases command with
  | info => exact hlast (infoCmd.options.take 11) rfl hmem
  | sizeof => exact hlast (sizeofCmd.options.take 6) rfl hmem
  | readPartition => exact absurd h (hall _ rfl option hmem)
  | gpt command =>
    cases command with
    | _ => exact absurd h (hall _ rfl option hmem)

theorem cmd_innermost (command : ListCommand) : command.cmd.subcommands = [] := by
  cases command with
  | info | sizeof | readPartition => rfl
  | gpt command => cases command <;> rfl

end ListCommand

section

variable {app : App Variables} {directoryIsExists : Str → Bool} {i : Nat} {command : ListCommand} {argv : List Str}
  {vars vars' : CmdState Variables}

/-- The version flag ends the program, so it is not used on a command line that is accepted. -/
theorem App.Offers.superior_unused (hoffers : app.Offers directoryIsExists i command)
    (h : app.parse argv vars = .ok vars') {o : OptRef} {option : CmdOption Variables}
    (hbelow : i :: command.below <+: o.path) (hat : app.option? o = some option) (hsuperior : option.superior = true)
    {use : TokenUse} (hmem : use ∈ app.parseUses argv vars) : use.option ≠ some o := by
  obtain ⟨path, k⟩ := o
  obtain ⟨rest, rfl⟩ := hbelow
  have hlevel : app.level (i :: (command.below ++ rest)) = command.cmd.nested rest :=
    (hoffers.level _).trans (Subcommand.nested_append command.nested_below rest)
  have hversion : option = versionFlag := by
    cases rest with
    | nil =>
      rw [List.append_nil, hoffers.option_at] at hat
      exact command.superior_version (List.mem_of_getElem? hat) hsuperior
    | cons j rest =>
      have hnone : command.cmd.nested (j :: rest) = none := by
        rw [Subcommand.nested, command.cmd_innermost]
        rfl
      rw [hnone] at hlevel
      simp only [App.option?, App.optionsAt, List.cons_append, hlevel] at hat
      cases hat
  intro ho
  obtain ⟨raw, assign, _, haccept⟩ := App.parse_accepts h hmem ho
  rw [App.accept_at hat, hversion] at haccept
  cases haccept

/-- The list of an option that was used is its one value, split at the commas. -/
theorem list_taken (h : app.parse argv vars = .ok vars') {o : OptRef} {option : CmdOption Variables} {name : Str}
    (hat : app.option? o = some option) (hlist : option.TakesList name)
    {active_chain : List Nat} (hchain : chainOf (app.parseUses argv vars) = active_chain)
    (howns : app.Owns o (Variable.named name) active_chain) {use : TokenUse}
    (hmem : use ∈ app.parseUses argv vars) (ho : use.option = some o) :
    ∃ text, (∀ other, app.GivesTo argv vars o other ↔ other = text) ∧ (vars'.dest name).vector = split text ',' := by
  subst hchain
  obtain ⟨text, rfl⟩ := App.parse_positional h hat hlist.positional hmem ho
  obtain ⟨before, after, hsplit⟩ := List.append_of_mem hmem
  have honce := App.parse_positional_once h hat hlist.positional hsplit ho
  refine ⟨text, fun other => ?_, ?_⟩
  · constructor
    · intro hgives
      obtain ⟨use', hmem', hgiven⟩ := hgives
      have hoption := TokenUse.given_option hgiven
      rw [hsplit, List.mem_append, List.mem_cons] at hmem'
      rcases hmem' with hbefore | rfl | hafter
      · exact absurd hoption (honce use' (List.mem_append_left after hbefore))
      · cases hgiven
        rfl
      · exact absurd hoption (honce use' (List.mem_append_right before hafter))
    · rintro rfl
      exact ⟨_, hmem, rfl⟩
  · have hlast : ∀ later ∈ after, later.option ≠ some o := fun later hlater =>
      honce later (List.mem_append_right before hlater)
    have hvalue := App.parse_given h hsplit rfl hlast hat hlist.setter howns
    rw [hlist.decode text] at hvalue
    have hstored : vars'.dest name = .strings (split text ',') := (Except.ok.inj hvalue).symm
    rw [hstored]
    rfl

/-- A text has a part unless it is all commas. -/
theorem split_ne_nil_iff {text : Str} : split text ',' ≠ [] ↔ ∃ c ∈ text, c ≠ ',' := by
  rw [Ne, split_eq_fields, Delimited.fields_eq_nil_iff]
  push Not
  rfl

section

variable (hoffers : app.Offers directoryIsExists i command) (h : app.parse argv vars = .ok vars')
  (hchain : chainOf (app.parseUses argv vars) = i :: command.below)
  (hunused : ∀ o : OptRef, o.path ≠ [] → vars.isUsed o = false)

include hoffers h hchain

/-- The outputs of a backup are what their one value says, or none. -/
theorem outputs_taken (hcommand : command = .gpt .backupTable) (hfiles : (vars.dest "GptPlugin::file_list").vector = [])
    (hnone : vars.default_value ⟨i :: command.below, 1⟩ = none) :
    (∃ outputs, (∀ other, app.GivesTo argv vars ⟨i :: command.below, 1⟩ other ↔ other = outputs) ∧
        (vars'.dest "GptPlugin::file_list").vector = split outputs ',') ∨
      (∀ other, ¬ app.GivesTo argv vars ⟨i :: command.below, 1⟩ other) ∧
        (vars'.dest "GptPlugin::file_list").vector = [] := by
  subst hcommand
  have hat : app.option? ⟨i :: (ListCommand.gpt .backupTable).below, 1⟩ =
      some (addOption ["output(s)"] "GptPlugin::file_list" .vector_string) := hoffers.option_at 1
  have howns : app.Owns ⟨i :: (ListCommand.gpt .backupTable).below, 1⟩ (Variable.named "GptPlugin::file_list")
      (i :: (ListCommand.gpt .backupTable).below) := hoffers.owns rfl
  by_cases hused : ∃ use ∈ app.parseUses argv vars, use.option = some ⟨i :: (ListCommand.gpt .backupTable).below, 1⟩
  · obtain ⟨use, hmem, ho⟩ := hused
    exact Or.inl (list_taken h hat ⟨rfl, rfl, by decide⟩ hchain howns hmem ho)
  · right
    have hno : ∀ use ∈ app.parseUses argv vars,
        use.option ≠ some ⟨i :: (ListCommand.gpt .backupTable).below, 1⟩ := by
      intro use hmem ho
      exact hused ⟨use, hmem, ho⟩
    constructor
    · intro other hgives
      obtain ⟨use, hmem, hgiven⟩ := hgives
      exact hno use hmem (TokenUse.given_option hgiven)
    · have howns' : app.Owns ⟨i :: (ListCommand.gpt .backupTable).below, 1⟩ (Variable.named "GptPlugin::file_list")
          (chainOf (app.parseUses argv vars)) := by
        rw [hchain]
        exact howns
      have hkept := App.parse_unset h hno hnone howns'
      exact (congrArg Value.vector hkept).trans hfiles

include hunused

/-- Each required list is what its one value says. -/
theorem required_taken {entry : Nat × Str} (hentry : entry ∈ command.requiredLists) :
    ∃ text, (∀ other, app.GivesTo argv vars ⟨i :: command.below, entry.1⟩ other ↔ other = text) ∧
      (vars'.dest entry.2).vector = split text ',' := by
  obtain ⟨hdest, option, hoption, hrequired, hlist⟩ := ListCommand.required_at hentry
  have hat : app.option? ⟨i :: command.below, entry.1⟩ = some option := (hoffers.option_at _).trans hoption
  have hlevel : (i :: command.below) <+: chainOf (app.parseUses argv vars) := by rw [hchain]
  have hmarks : ∀ o' : OptRef, i :: command.below <+: o'.path → vars.isUsed o' = false := by
    intro o' hbelow
    refine hunused o' ?_
    rintro hnil
    rw [hnil] at hbelow
    exact List.cons_ne_nil _ _ (List.prefix_nil.mp hbelow)
  obtain ⟨use, hmem, ho⟩ := App.parse_requires h hlevel (List.cons_ne_nil i _) hat hrequired hmarks
    fun o' other hbelow hother hsuperior use hmem => hoffers.superior_unused h hbelow hother hsuperior hmem
  exact list_taken h hat hlist hchain (hoffers.owns hdest) hmem ho

theorem nonempty_iff : (∀ entry ∈ command.requiredLists, (vars'.dest entry.2).vector ≠ []) ↔
    ∀ entry ∈ command.requiredLists, ∀ text, app.GivesTo argv vars ⟨i :: command.below, entry.1⟩ text →
      ∃ c ∈ text, c ≠ ',' := by
  refine forall_congr' fun entry => forall_congr' fun hentry => ?_
  obtain ⟨text, hgives, hvalue⟩ := required_taken hoffers h hchain hunused hentry
  rw [hvalue, split_ne_nil_iff]
  constructor
  · intro hmore other hother
    rw [(hgives other).mp hother]
    exact hmore
  · intro hall
    exact hall text ((hgives text).mpr rfl)

/-- Once the required lists hold something, only a backup can read out of range. -/
theorem runsInRange_of_nonempty (hfiles : (vars.dest "GptPlugin::file_list").vector = [])
    (hnone : command = .gpt .backupTable → vars.default_value ⟨i :: command.below, 1⟩ = none)
    (hnonempty : ∀ entry ∈ command.requiredLists, (vars'.dest entry.2).vector ≠ []) :
    command.RunsInRange vars'.dest ↔ (command = .gpt .backupTable → ∀ tables outputs,
      app.GivesTo argv vars ⟨i :: command.below, 0⟩ tables → app.GivesTo argv vars ⟨i :: command.below, 1⟩ outputs →
        (split tables ',').head? = some readAll →
          split outputs ',' = [] ∨ (split tables ',').length ≠ (split outputs ',').length) := by
  cases command with
  | info =>
    refine iff_of_true (fun pTab dTab => listing_inRange ?_ pTab dTab _) fun hcommand => nomatch hcommand
    exact hnonempty (0, _) (List.mem_singleton.mpr rfl)
  | sizeof =>
    refine iff_of_true (fun pTab dTab => listing_inRange ?_ pTab dTab _) fun hcommand => nomatch hcommand
    exact hnonempty (0, _) (List.mem_singleton.mpr rfl)
  | readPartition =>
    refine iff_of_true (fun dTab => LpMetadataPlugin.listing_inRange ?_ dTab) fun hcommand => nomatch hcommand
    exact hnonempty (0, _) (List.mem_singleton.mpr rfl)
  | gpt command =>
    have htables : vars'.dest.gptPlugin.table_names ≠ [] := by
      refine hnonempty (0, "GptPlugin::table_names") ?_
      cases command <;> simp [ListCommand.requiredLists]
    have hfiled : command = .restoreTable → vars'.dest.gptPlugin.file_list ≠ [] := by
      rintro rfl
      exact hnonempty (1, "GptPlugin::file_list") (by simp [ListCommand.requiredLists])
    refine (GptPlugin.runsInRange_iff htables hfiled).trans ?_
    rw [ListCommand.gpt.injEq]
    refine forall_congr' fun hcommand => ?_
    subst hcommand
    have hentry : ((0, "GptPlugin::table_names") : Nat × Str) ∈ (ListCommand.gpt .backupTable).requiredLists :=
      List.mem_singleton.mpr rfl
    obtain ⟨tables, hgives, hnames⟩ := required_taken hoffers h hchain hunused hentry
    have htyped : vars'.dest.gptPlugin.table_names = split tables ',' := hnames
    rw [htyped]
    rcases outputs_taken hoffers h hchain rfl hfiles (hnone rfl) with ⟨outputs, hgivesOut, hout⟩ | ⟨hno, hout⟩
    · have hfile : vars'.dest.gptPlugin.file_list = split outputs ',' := hout
      rw [hfile]
      constructor
      · intro hcounts tables' outputs' htables' houtputs'
        rw [(hgives tables').mp htables', (hgivesOut outputs').mp houtputs']
        exact hcounts
      · intro hcounts
        exact hcounts tables outputs ((hgives tables).mpr rfl) ((hgivesOut outputs).mpr rfl)
    · have hfile : vars'.dest.gptPlugin.file_list = [] := hout
      exact iff_of_true (fun _ => Or.inl hfile) fun tables' outputs' _ houtputs' => absurd houtputs' (hno outputs')

end

/-- When `run` starts, the required lists hold something and are read in range exactly if
their texts are more than commas and `read-all` is not backed up to as many files as names. -/
theorem required_lists_iff {no_unknown_arg_error : Bool} {dest : Variables}
    (hoffers : app.Offers directoryIsExists i command) (hfiles : (dest "GptPlugin::file_list").vector = [])
    (hearly : app.beforePlugins.parse_earlies no_unknown_arg_error argv (app.fresh dest) = .ok vars)
    (h : app.parse argv vars = .ok vars') (hchain : chainOf (app.parseUses argv vars) = i :: command.below) :
    command.ListsReady vars'.dest ↔ command.ListsNamed app i argv vars := by
  have hleaves : ∀ option ∈ app.beforePlugins.options, option.Leaves (Variable.named "GptPlugin::file_list") := by
    have hmain : app.beforePlugins.options = mainOptions directoryIsExists := hoffers.options
    rw [hmain]
    exact mainOptions_leave (by decide)
  have hkept := App.parse_earlies_keeps hearly hleaves
  have hunused : ∀ o : OptRef, o.path ≠ [] → vars.isUsed o = false := fun o hpath => hkept.isUsed o hpath
  have hempty : (vars.dest "GptPlugin::file_list").vector = [] := (congrArg Value.vector hkept.dest).trans hfiles
  have hnone : command = .gpt .backupTable → vars.default_value ⟨i :: command.below, 1⟩ = none := by
    intro hcommand
    have hoption : app.option? ⟨i :: command.below, 1⟩ = command.cmd.options[1]? := hoffers.option_at 1
    rw [hcommand] at hoption ⊢
    rw [hkept.default_value _ (List.cons_ne_nil i _)]
    exact App.fresh_default_value hoption _
  have hnonempty := nonempty_iff hoffers h hchain hunused
  have hrange := runsInRange_of_nonempty hoffers h hchain hunused hempty hnone
  constructor
  · intro hready
    exact ⟨hnonempty.mp hready.nonempty, (hrange hready.nonempty).mp hready.inRange⟩
  · intro hnamed
    have hfilled := hnonempty.mpr hnamed.lists
    exact ⟨hfilled, (hrange hfilled).mpr hnamed.wildcard⟩

end

/-- The program with the plugins that work on lists of names. -/
def pmtApp : App Variables where
  options := mainOptions fun _ => true
  subcommands := [infoCmd, sizeofCmd, lpMetadataCmd, gptCmd]
  groups := []
  auto_help_enabled := true

/-- No list holds anything before the command line is parsed. -/
def unsetVariables : Variables := fun _ => .strings []

theorem required_list_of_boot : ∃ vars vars',
    pmtApp.beforePlugins.parse_earlies true ["pmt", "info", "boot"] (pmtApp.fresh unsetVariables) = .ok vars ∧
    pmtApp.parse ["pmt", "info", "boot"] vars = .ok vars' ∧
    (ListCommand.info.ListsReady vars'.dest ↔
      ListCommand.info.ListsNamed pmtApp 0 ["pmt", "info", "boot"] vars) := by
  have hoffers : pmtApp.Offers (fun _ => true) 0 .info := ⟨rfl, rfl⟩
  have hearly : pmtApp.beforePlugins.parse_earlies true ["pmt", "info", "boot"] (pmtApp.fresh unsetVariables) =
      .ok (pmtApp.fresh unsetVariables) := rfl
  exact ⟨_, _, hearly, rfl, required_lists_iff hoffers rfl hearly rfl rfl⟩

/-- `pmt info ,` is accepted with no partition, and `run` takes the last one. Outputs as many as
the names typed are too few for all tables. -/
theorem comma_names_no_partition :
    (∃ vars vars',
      pmtApp.beforePlugins.parse_earlies true ["pmt", "info", ","] (pmtApp.fresh unsetVariables) = .ok vars ∧
      pmtApp.parse ["pmt", "info", ","] vars = .ok vars' ∧
      (vars'.dest "InfoPlugin::partitions").vector = [] ∧ ¬ ListCommand.info.ListsReady vars'.dest ∧
      ∀ pTab dTab, InfoPlugin.listing pTab dTab (vars'.dest "InfoPlugin::partitions").vector =
        .error (.undefined .emptyVector)) ∧
    ∃ vars vars',
      pmtApp.beforePlugins.parse_earlies true ["pmt", "gpt", "backup-table", "read-all", "out"]
        (pmtApp.fresh unsetVariables) = .ok vars ∧
      pmtApp.parse ["pmt", "gpt", "backup-table", "read-all", "out"] vars = .ok vars' ∧
      (vars'.dest.gptPlugin.run GptPlugin.soundDevice PartitionTableData.twoTables false (some .backupTable) ()).result =
        .error (.undefined .indexOutOfRange) := by
  refine ⟨⟨_, _, rfl, rfl, rfl, ?_, fun pTab dTab => rfl⟩, ⟨_, _, rfl, rfl, rfl⟩⟩
  intro h
  exact h.nonempty (0, "InfoPlugin::partitions") (List.mem_singleton.mpr rfl) rfl

end PartitionManager
