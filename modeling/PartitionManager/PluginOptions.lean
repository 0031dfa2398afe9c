import PartitionManager.EarlyOptions
import PartitionManager.GptTables
import PartitionManager.OwnVariables

namespace PartitionManager

/-- The variables of the program that options write to, by their names in the source. -/
abbrev Variables := Str → Value

def Variable.named (name : Str) : Variable Variables where
  get dest := dest name
  set value dest := Function.update dest name value
  get_set value dest := Function.update_self name value dest

def Value.vector : Value → List Str
  | .strings ss => ss
  | _ => []

def Value.text : Value → Str
  | .string s => s
  | _ => []

/-- An option is positional if its name does not start with a dash. -/
def addOption (valid_names : List Str) (dest : Str) (T : Destination) : CmdOption Variables where
  valid_names
  setter := some ((Variable.named dest).setter T)
  is_positional := valid_names.all fun name => name.head? ≠ some '-'

def addFlag (valid_names : List Str) (dest : Str) : CmdOption Variables :=
  { addOption valid_names dest .bool with is_flag := true }

/-- The flag of every plugin: its callback prints the version and ends the program. -/
def versionFlag : CmdOption Variables where
  valid_names := ["-v", "--version"]
  setter := some fun _ => .ok id
  is_flag := true
  superior := true
  callback := some (.error (.exited 0))

/-- The options that `main` adds. -/
def mainOptions (directoryIsExists : Str → Bool) : List (CmdOption Variables) := [
  { addOption ["-L", "--log-file"] "Flags.logFile" .string with early := true },
  { addOption ["-p", "--plugins"] "plugins" .vector_string with early := true },
  { addOption ["-d", "--plugin-directory"] "pluginPath" .string with
    early := true
    checker := some fun s => if directoryIsExists s then .ok () else
      raise ((HelperError.mk (s ++ ": Directory is not exists.") 1 false).withCode EX_USAGE) },
  { addFlag ["-V", "--verbose"] "Flags.verboseMode" with early := true },
  { addFlag ["-q", "--quiet"] "Flags.quietProcess" with early := true },
  addFlag ["-s", "--select-on-duplicate"] "Flags.noWorkOnUsed",
  addFlag ["-f", "--force"] "Flags.forceProcess",
  addFlag ["-l", "--logical"] "Flags.onLogical",
  addFlag ["-v", "--version"] "Flags.viewVersion",
  addFlag ["--license"] "Flags.viewLicense"]

def infoCmd : Subcommand Variables where
  name := "info"
  options := [
    { addOption ["partition(s)"] "InfoPlugin::partitions" .vector_string with is_required := true },
    { addFlag ["-J", "--json"] "InfoPlugin::jsonFormat" with default_value := some "0" },
    { addFlag ["--as-byte"] "InfoPlugin::asByte" with default_value := some "1" },
    { addFlag ["--as-kilobyte"] "InfoPlugin::asKiloBytes" with default_value := some "0" },
    { addFlag ["--as-megabyte"] "InfoPlugin::asMega" with default_value := some "0" },
    { addFlag ["--as-gigabyte"] "InfoPlugin::asGiga" with default_value := some "0" },
    { addOption ["--json-partition-name"] "InfoPlugin::jNamePartition" .string with default_value := some "name" },
    { addOption ["--json-table-name"] "InfoPlugin::jNameTable" .string with default_value := some "table" },
    { addOption ["--json-size-name"] "InfoPlugin::jNameSize" .string with default_value := some "size" },
    { addOption ["--json-logical-name"] "InfoPlugin::jNameLogical" .string with default_value := some "isLogical" },
    { addOption ["--json-indent-size"] "InfoPlugin::jIndentSize" .int with default_value := some "2" },
    versionFlag]
  subcommands := []
  requires_subcommand := false
  groups := []

def sizeofCmd : Subcommand Variables where
  name := "sizeof"
  options := [
    { addOption ["partition(s)"] "PartitionSizePlugin::partitions" .vector_string with is_required := true },
    { addFlag ["--as-byte"] "PartitionSizePlugin::asByte" with default_value := some "0" },
    { addFlag ["--as-kilobyte"] "PartitionSizePlugin::asKiloBytes" with default_value := some "0" },
    { addFlag ["--as-megabyte"] "PartitionSizePlugin::asMega" with default_value := some "1" },
    { addFlag ["--as-gigabyte"] "PartitionSizePlugin::asGiga" with default_value := some "0" },
    { addFlag ["--only-size"] "PartitionSizePlugin::onlySize" with default_value := some "0" },
    versionFlag]
  subcommands := []
  requires_subcommand := false
  groups := []

def readGroupsCmd : Subcommand Variables where
  name := "read-groups"
  options := []
  subcommands := []
  requires_subcommand := false
  groups := []

def readPartitionCmd : Subcommand Variables where
  name := "read-partition"
  options := [
    { addOption ["partition(s)"] "LpMetadataPlugin::partitions" .vector_string with is_required := true }]
  subcommands := []
  requires_subcommand := false
  groups := []

def lpMetadataCmd : Subcommand Variables where
  name := "lp-metadata"
  options := [versionFlag]
  subcommands := [readGroupsCmd, readPartitionCmd]
  requires_subcommand := true
  groups := []

def readTableCmd : Subcommand Variables where
  name := "read-table"
  options := [{ addOption ["table(s)"] "GptPlugin::table_names" .vector_string with is_required := true }]
  subcommands := []
  requires_subcommand := false
  groups := []

def backupTableCmd : Subcommand Variables where
  name := "backup-table"
  options := [
    { addOption ["table(s)"] "GptPlugin::table_names" .vector_string with is_required := true },
    addOption ["output(s)"] "GptPlugin::file_list" .vector_string,
    addOption ["-o", "--output-directory"] "GptPlugin::directory" .string]
  subcommands := []
  requires_subcommand := false
  groups := []

def restoreTableCmd : Subcommand Variables where
  name := "restore-table"
  options := [
    { addOption ["table(s)"] "GptPlugin::table_names" .vector_string with is_required := true },
    { addOption ["file(s)"] "GptPlugin::file_list" .vector_string with is_required := true },
    addOption ["-F", "--file-directory"] "GptPlugin::directory" .string]
  subcommands := []
  requires_subcommand := false
  groups := []

def gptCmd : Subcommand Variables where
  name := "gpt"
  options := [versionFlag]
  subcommands := [readTableCmd, backupTableCmd, restoreTableCmd]
  requires_subcommand := true
  groups := []

/-- The subcommands that work on lists of names. -/
inductive ListCommand where
  | info
  | sizeof
  | readPartition
  | gpt (command : GptCommand)
  deriving DecidableEq

namespace ListCommand

/-- The main command of the plugin. -/
def mainCmd : ListCommand → Subcommand Variables
  | info => infoCmd
  | sizeof => sizeofCmd
  | readPartition => lpMetadataCmd
  | gpt _ => gptCmd

/-- The way from the main command to the subcommand. -/
def below : ListCommand → List Nat
  | info | sizeof => []
  | readPartition => [1]
  | gpt .readTable => [0]
  | gpt .backupTable => [1]
  | gpt .restoreTable => [2]

def cmd : ListCommand → Subcommand Variables
  | info => infoCmd
  | sizeof => sizeofCmd
  | readPartition => readPartitionCmd
  | gpt .readTable => readTableCmd
  | gpt .backupTable => backupTableCmd
  | gpt .restoreTable => restoreTableCmd

/-- The positions of the required options, and their lists. -/
def requiredLists : ListCommand → List (Nat × Str)
  | info => [(0, "InfoPlugin::partitions")]
  | sizeof => [(0, "PartitionSizePlugin::partitions")]
  | readPartition => [(0, "LpMetadataPlugin::partitions")]
  | gpt .readTable | gpt .backupTable => [(0, "GptPlugin::table_names")]
  | gpt .restoreTable => [(0, "GptPlugin::table_names"), (1, "GptPlugin::file_list")]

theorem nested_below (command : ListCommand) : command.mainCmd.nested command.below = some command.cmd := by
  cases command with
  | info | sizeof | readPartition => rfl
  | gpt command => cases command <;> rfl

/-- The variables of its options, in their order. The version flag has none. -/
def destinations : ListCommand → List (Option Str)
  | info => [some "InfoPlugin::partitions", some "InfoPlugin::jsonFormat", some "InfoPlugin::asByte",
      some "InfoPlugin::asKiloBytes", some "InfoPlugin::asMega", some "InfoPlugin::asGiga",
      some "InfoPlugin::jNamePartition", some "InfoPlugin::jNameTable", some "InfoPlugin::jNameSize",
      some "InfoPlugin::jNameLogical", some "InfoPlugin::jIndentSize", none]
  | sizeof => [some "PartitionSizePlugin::partitions", some "PartitionSizePlugin::asByte",
      some "PartitionSizePlugin::asKiloBytes", some "PartitionSizePlugin::asMega", some "PartitionSizePlugin::asGiga",
      some "PartitionSizePlugin::onlySize", none]
  | readPartition => [some "LpMetadataPlugin::partitions"]
  | gpt .readTable => [some "GptPlugin::table_names"]
  | gpt _ => [some "GptPlugin::table_names", some "GptPlugin::file_list", some "GptPlugin::directory"]

end ListCommand

/-- The variables of the options of `main`. -/
def mainDestinations : List (Option Str) :=
  [some "Flags.logFile", some "plugins", some "pluginPath", some "Flags.verboseMode", some "Flags.quietProcess",
    some "Flags.noWorkOnUsed", some "Flags.forceProcess", some "Flags.onLogical", some "Flags.viewVersion",
    some "Flags.viewLicense"]

/-- The option writes to this variable, or to none. -/
def CmdOption.Writes (option : CmdOption Variables) : Option Str → Prop
  | none => option.setter = some fun _ => .ok id
  | some name => ∃ T, option.setter = some ((Variable.named name).setter T)

theorem CmdOption.Writes.leaves {option : CmdOption Variables} {written : Option Str} (h : option.Writes written)
    {name : Str} (hne : written ≠ some name) : option.Leaves (Variable.named name) := by
  intro setter hsetter raw assign haccept dest
  cases written with
  | none =>
    have hid : setter = fun _ => .ok id := Option.some.inj (hsetter.symm.trans h)
    rw [hid] at haccept
    cases haccept
    rfl
  | some other =>
    obtain ⟨T, hother⟩ := h
    rw [Option.some.inj (hsetter.symm.trans hother)] at haccept
    obtain ⟨value, _, rfl⟩ := CmdOption.setter_ok_iff.mp haccept
    exact Function.update_of_ne (fun heq => hne (congrArg some heq.symm)) value dest

theorem leaves_of_writes {options : List (CmdOption Variables)} {dests : List (Option Str)} {name : Str}
    (hwrite : List.Forall₂ CmdOption.Writes options dests) {k : Nat} {option : CmdOption Variables}
    (hat : options[k]? = some option) (hne : dests[k]? ≠ some (some name)) : option.Leaves (Variable.named name) := by
  obtain ⟨hlt, rfl⟩ := List.getElem?_eq_some_iff.mp hat
  have hlt' : k < dests.length := hwrite.length_eq ▸ hlt
  refine ((List.forall₂_iff_get.mp hwrite).2 k hlt hlt').leaves ?_
  intro heq
  exact hne (List.getElem?_eq_some_iff.mpr ⟨hlt', heq⟩)

theorem mainOptions_write (directoryIsExists : Str → Bool) :
    List.Forall₂ CmdOption.Writes (mainOptions directoryIsExists) mainDestinations := by
  repeat first
    | exact .nil
    | refine .cons ⟨_, rfl⟩ ?_

theorem mainOptions_leave {directoryIsExists : Str → Bool} {name : Str} (hne : some name ∉ mainDestinations) :
    ∀ option ∈ mainOptions directoryIsExists, option.Leaves (Variable.named name) := by
  intro option hmem
  obtain ⟨k, hat⟩ := List.mem_iff_getElem?.mp hmem
  refine leaves_of_writes (mainOptions_write directoryIsExists) hat ?_
  exact fun hmain => hne (List.mem_of_getElem? hmain)

theorem ListCommand.options_write (command : ListCommand) :
    List.Forall₂ CmdOption.Writes command.cmd.options command.destinations := by
  cases command with
  | info | sizeof | readPartition =>
    repeat first
      | exact .nil
      | refine .cons ⟨_, rfl⟩ ?_
      | refine .cons rfl ?_
  | gpt command =>
    cases command with
    | _ =>
      repeat first
        | exact .nil
        | refine .cons ⟨_, rfl⟩ ?_

/-- The App of `main`, with the plugin of the command as its `i`-th subcommand. -/
structure App.Offers (app : App Variables) (directoryIsExists : Str → Bool) (i : Nat) (command : ListCommand) :
    Prop where
  options : app.options = mainOptions directoryIsExists
  mainCmd : app.subcommands[i]? = some command.mainCmd

theorem ListCommand.destinations_nodup (command : ListCommand) : command.destinations.Nodup := by
  cases command with
  | info | sizeof | readPartition => decide
  | gpt command => cases command <;> decide

theorem ListCommand.destinations_own (command : ListCommand) : ∀ written ∈ command.destinations,
    written ∉ mainDestinations := by
  cases command with
  | info | sizeof | readPartition => decide
  | gpt command => cases command <;> decide

theorem ListCommand.prefix_cases {command : ListCommand} {i : Nat} {path : List Nat}
    (h : path <+: i :: command.below) :
    path = [] ∨ path = i :: command.below ∨ (path = [i] ∧ command.mainCmd.options = [versionFlag]) := by
  rcases List.prefix_cons_iff.mp h with rfl | ⟨rest, rfl, hrest⟩
  · exact Or.inl rfl
  · right
    cases command with
    | info | sizeof =>
      left
      rw [List.prefix_nil.mp hrest]
      rfl
    | readPartition =>
      rcases List.prefix_cons_iff.mp hrest with rfl | ⟨rest', rfl, hrest'⟩
      · exact Or.inr ⟨rfl, rfl⟩
      · left
        rw [List.prefix_nil.mp hrest']
        rfl
    | gpt command =>
      cases command with
      | _ =>
        rcases List.prefix_cons_iff.mp hrest with rfl | ⟨rest', rfl, hrest'⟩
        · exact Or.inr ⟨rfl, rfl⟩
        · left
          rw [List.prefix_nil.mp hrest']
          rfl

namespace App.Offers

variable {app : App Variables} {directoryIsExists : Str → Bool} {i : Nat} {command : ListCommand}

theorem level (h : app.Offers directoryIsExists i command) (path : List Nat) :
    app.level (i :: path) = command.mainCmd.nested path := by
  rw [App.level, root, Subcommand.nested, h.mainCmd]

theorem option_at (h : app.Offers directoryIsExists i command) (k : Nat) :
    app.option? ⟨i :: command.below, k⟩ = command.cmd.options[k]? := by
  rw [option?, optionsAt, h.level, command.nested_below]
  rfl

/-- The variable of an option of the command is its own. -/
theorem owns (h : app.Offers directoryIsExists i command) {k : Nat} {name : Str}
    (hk : command.destinations[k]? = some (some name)) :
    app.Owns ⟨i :: command.below, k⟩ (Variable.named name) (i :: command.below) := by
  intro other option hne hprefix hat
  obtain ⟨path, index⟩ := other
  rcases ListCommand.prefix_cases hprefix with rfl | rfl | ⟨rfl, hversion⟩
  · have hoption : (mainOptions directoryIsExists)[index]? = some option := by
      rw [← h.options]
      exact hat
    exact mainOptions_leave (command.destinations_own _ (List.mem_of_getElem? hk)) option
      (List.mem_of_getElem? hoption)
  · rw [h.option_at] at hat
    refine leaves_of_writes command.options_write hat ?_
    intro hsame
    have hlt := (List.getElem?_eq_some_iff.mp hsame).1
    have hindex : index = k := (List.getElem?_inj hlt command.destinations_nodup).mp (hsame.trans hk.symm)
    exact hne (by rw [hindex])
  · have hoption : [versionFlag][index]? = some option := by
      rw [option?, optionsAt, h.level] at hat
      rw [← hversion]
      exact hat
    obtain rfl := List.mem_singleton.mp (List.mem_of_getElem? hoption)
    have hwrites : versionFlag.Writes none := rfl
    refine hwrites.leaves ?_
    rintro ⟨⟩

end App.Offers

end PartitionManager
