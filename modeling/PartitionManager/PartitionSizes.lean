import PartitionManager.SizeUnits

namespace PartitionManager

namespace PartitionSizePlugin

section

variable (abi : Abi) (fs : FileSystem)

def multiple (dest : Variables) : Option SizeUnit :=
  chosenUnit (dest "PartitionSizePlugin::asByte").truth (dest "PartitionSizePlugin::asKiloBytes").truth
    (dest "PartitionSizePlugin::asMega").truth (dest "PartitionSizePlugin::asGiga").truth

/-- The name is printed as a C string. -/
def getter (onlySize : Bool) (multiple : Option SizeUnit) (p : Partition) : Outcome Str :=
  if onlySize then p.formattedSizeString abi fs multiple true
  else do
    let size ← p.formattedSizeString abi fs multiple
    .ok (p.name.takeWhile (· ≠ '\x00') ++ ": " ++ size)

variable (pTab : PartitionTableData) (dTab : DynamicTableData)

/-- The part of `run` after the unit is known. -/
def printSizes (multiple : Option SizeUnit) (dest : Variables) : List Str × Outcome Unit :=
  match listing pTab dTab (dest "PartitionSizePlugin::partitions").vector with
  | .error stop => ([], .error stop)
  | .ok found =>
    printLines (getter abi fs (dest "PartitionSizePlugin::onlySize").truth multiple) (listed pTab dTab found)

def run (dest : Variables) : List Str × Outcome Unit := printSizes abi fs pTab dTab (multiple dest) dest

end

/-- Whatever the partitions are, their sizes are printed in the unit. -/
def PrintsIn (dest : Variables) (size_unit : SizeUnit) : Prop :=
  ∀ abi fs pTab dTab, run abi fs pTab dTab dest = printSizes abi fs pTab dTab (some size_unit) dest

end PartitionSizePlugin

/-- The place of the flag among the options of `sizeof`. -/
def SizeUnit.flag : SizeUnit → Nat
  | BYTE => 1
  | KiB => 2
  | MiB => 3
  | GiB => 4

/-- A token names the option. -/
def App.NamesOption {D : Type} (app : App D) (argv : List Str) (vars : CmdState D) (o : OptRef) : Prop :=
  ∃ use ∈ app.parseUses argv vars, use.option = some o

/-- A flag that writes to the bool variable and has a default. -/
structure CmdOption.TakesFlag (option : CmdOption Variables) (name text : Str) : Prop where
  setter : option.setter = some ((Variable.named name).setter .bool)
  transformer : option.transformer = none
  is_flag : option.is_flag = true
  is_positional : option.is_positional = false
  default_value : option.default_value = some text

theorem CmdOption.TakesFlag.decode {option : CmdOption Variables} {name text : Str} (h : option.TakesFlag name text)
    (raw : Str) : option.decode .bool raw = from_string .bool raw := by
  rw [CmdOption.decode, CmdOption.transformed, h.transformer]
  rfl

theorem exists_last {α : Type} {p : α → Prop} {l : List α} (h : ∃ x ∈ l, p x) :
    ∃ before x after, l = before ++ x :: after ∧ p x ∧ ∀ y ∈ after, ¬ p y := by
  induction l with
  | nil =>
    obtain ⟨x, hx, _⟩ := h
    cases hx
  | cons first rest ih =>
    by_cases hrest : ∃ x ∈ rest, p x
    · obtain ⟨before, x, after, rfl, hx, hafter⟩ := ih hrest
      exact ⟨first :: before, x, after, rfl, hx, hafter⟩
    · obtain ⟨x, hx, hp⟩ := h
      rcases List.mem_cons.mp hx with rfl | hmem
      · exact ⟨[], x, rest, rfl, hp, fun y hy hpy => hrest ⟨y, hy, hpy⟩⟩
      · exact absurd ⟨x, hmem, hp⟩ hrest

section

variable {app : App Variables} {directoryIsExists : Str → Bool} {i : Nat} {argv : List Str}
  {vars vars' : CmdState Variables}

/-- A flag is named by a token of its own. -/
theorem App.parse_flag (h : app.parse argv vars = .ok vars') {o : OptRef} {option : CmdOption Variables}
    {name text : Str} (hat : app.option? o = some option) (hflag : option.TakesFlag name text) {use : TokenUse}
    (hmem : use ∈ app.parseUses argv vars) (ho : use.option = some o) : ∃ token, use = .flag token o := by
  obtain ⟨before, after, hsplit⟩ := List.append_of_mem hmem
  have hproper := App.parse_proper h before use after hsplit
  have hvalued : ∀ token option', app.Names (chainOf before) token o option' → option'.is_flag ≠ false := by
    intro token option' hnamed
    obtain ⟨_, _, hat', _⟩ := hnamed
    cases hat.symm.trans hat'
    rw [hflag.is_flag]
    exact Bool.noConfusion
  cases use with
  | subcommand token index => cases ho
  | valueless token next o' => exact hproper.elim
  | flag token o' =>
    cases ho
    exact ⟨token, rfl⟩
  | equals token arg_value o' | separate token value o' =>
    cases ho
    obtain ⟨option', hnamed, hvalue, _⟩ := hproper
    exact absurd hvalue (hvalued _ _ hnamed)
  | positional token o' =>
    cases ho
    obtain ⟨_, _, ⟨option', hposition⟩, _⟩ := hproper
    have hoption : option.is_positional = true := by
      have hat' := getPositionalOption_some hposition
      cases hat.symm.trans hat'
      exact (List.mem_filter.mp (List.mem_of_getElem? hposition)).2
    rw [hflag.is_positional] at hoption
    cases hoption

section

variable (h : app.parse argv vars = .ok vars') {o : OptRef} {option : CmdOption Variables} {name text : Str}
  (hat : app.option? o = some option) (hflag : option.TakesFlag name text)
  (howns : app.Owns o (Variable.named name) (chainOf (app.parseUses argv vars)))

include h hat hflag howns

theorem flag_named (hnamed : app.NamesOption argv vars o) : vars'.dest name = .bool true := by
  obtain ⟨before, use, after, hsplit, ho, hlast⟩ := exists_last hnamed
  have hmem : use ∈ app.parseUses argv vars := by
    rw [hsplit]
    exact List.mem_append_right before List.mem_cons_self
  obtain ⟨token, rfl⟩ := App.parse_flag h hat hflag hmem ho
  have hvalue := App.parse_given h hsplit rfl hlast hat hflag.setter howns
  rw [hflag.decode] at hvalue
  exact (Except.ok.inj hvalue).symm

theorem flag_omitted (hlevel : o.path <+: chainOf (app.parseUses argv vars)) (hunused : vars.isUsed o = false)
    (htext : vars.default_value o = some text) (homitted : ¬ app.NamesOption argv vars o) :
    from_string .bool text = .ok (vars'.dest name) := by
  have hno : ∀ use ∈ app.parseUses argv vars, use.option ≠ some o := fun use hmem ho => homitted ⟨use, hmem, ho⟩
  have hvalue := App.parse_omitted h hno hlevel hunused htext hat hflag.setter howns
  rw [hflag.decode] at hvalue
  exact hvalue

end

/-- What a flag of the subcommand stores after both passes. -/
theorem sizeof_flag_taken {no_unknown_arg_error : Bool} {dest : Variables}
    (hoffers : app.Offers directoryIsExists i .sizeof)
    (hearly : app.beforePlugins.parse_earlies no_unknown_arg_error argv (app.fresh dest) = .ok vars)
    (h : app.parse argv vars = .ok vars') (hchain : chainOf (app.parseUses argv vars) = [i])
    {k : Nat} {name text : Str} {option : CmdOption Variables} (hoption : sizeofCmd.options[k]? = some option)
    (hflag : option.TakesFlag name text) (hdest : ListCommand.sizeof.destinations[k]? = some (some name)) :
    (app.NamesOption argv vars ⟨[i], k⟩ → vars'.dest name = .bool true) ∧
      (¬ app.NamesOption argv vars ⟨[i], k⟩ → from_string .bool text = .ok (vars'.dest name)) := by
  have hat : app.option? ⟨[i], k⟩ = some option := (hoffers.option_at k).trans hoption
  have howns : app.Owns ⟨[i], k⟩ (Variable.named name) (chainOf (app.parseUses argv vars)) := by
    rw [hchain]
    exact hoffers.owns hdest
  have hmain : app.beforePlugins.options = mainOptions directoryIsExists := hoffers.options
  have hearlies : App.EarlyKept (Variable.named name) (app.fresh dest) vars := by
    refine App.parse_earlies_keeps hearly ?_
    rw [hmain]
    exact mainOptions_leave (ListCommand.destinations_own .sizeof _ (List.mem_of_getElem? hdest))
  have htext : vars.default_value ⟨[i], k⟩ = some text := by
    rw [hearlies.default_value _ (List.cons_ne_nil i _), App.fresh_default_value hat]
    exact hflag.default_value
  have hlevel : [i] <+: chainOf (app.parseUses argv vars) := by rw [hchain]
  exact ⟨flag_named h hat hflag howns,
    flag_omitted h hat hflag howns hlevel (hearlies.isUsed _ (List.cons_ne_nil i _)) htext⟩

/-- The unit is that of the default, unless the one flag that overrides it is named. -/
theorem multiple_taken {no_unknown_arg_error : Bool} {dest : Variables}
    (hoffers : app.Offers directoryIsExists i .sizeof)
    (hearly : app.beforePlugins.parse_earlies no_unknown_arg_error argv (app.fresh dest) = .ok vars)
    (h : app.parse argv vars = .ok vars') (hchain : chainOf (app.parseUses argv vars) = [i]) :
    (app.NamesOption argv vars ⟨[i], SizeUnit.GiB.flag⟩ ∧
        PartitionSizePlugin.multiple vars'.dest = some .GiB) ∨
      (¬ app.NamesOption argv vars ⟨[i], SizeUnit.GiB.flag⟩ ∧
        PartitionSizePlugin.multiple vars'.dest = some .MiB) := by
  have hmega : (vars'.dest "PartitionSizePlugin::asMega").truth = true := by
    obtain ⟨hnamed, homitted⟩ := sizeof_flag_taken (k := 3) hoffers hearly h hchain rfl ⟨rfl, rfl, rfl, rfl, rfl⟩ rfl
    by_cases hused : app.NamesOption argv vars ⟨[i], 3⟩
    · rw [hnamed hused]
      rfl
    · rw [← Except.ok.inj (homitted hused)]
      rfl
  obtain ⟨hnamed, homitted⟩ := sizeof_flag_taken (k := 4) hoffers hearly h hchain rfl ⟨rfl, rfl, rfl, rfl, rfl⟩ rfl
  unfold PartitionSizePlugin.multiple chosenUnit
  rw [hmega]
  by_cases hused : app.NamesOption argv vars ⟨[i], 4⟩
  · left
    refine ⟨hused, ?_⟩
    rw [hnamed hused]
    rfl
  · right
    refine ⟨hused, ?_⟩
    rw [← Except.ok.inj (homitted hused)]
    rfl

end

def megabytePartition (name : Str) : Partition := { bootPartition (2 ^ 20) with gptPart := ⟨name, true, 1, 0, 1⟩ }

/-- A device whose partitions have these names, and one megabyte each. -/
def megabyteTable (names : List Str) : PartitionTableData where
  gptDataCollection := []
  localPartitions := names.map megabytePartition
  localTableNames := (bootTable 1).localTableNames
  physical := by
    intro p hp
    obtain ⟨name, _, rfl⟩ := List.mem_map.mp hp
    rfl

/-- A device with one logical partition, of one megabyte. -/
def megabyteSuper : DynamicTableData where
  localPartitions := [
    { bootPartition (2 ^ 20) with logicalPartitionPath := "/dev/block/mapper/system", isLogical := true }]
  lpMetadata := none
  supported := true

theorem megabyteTable_hasPartition {names : List Str} {name : Str} (h : name ∈ names) :
    (megabyteTable names).hasPartition name = true := by
  refine List.any_eq_true.mpr ⟨_, List.mem_map_of_mem h, ?_⟩
  exact decide_eq_true rfl

theorem requirePartitions_megabyteTable {names : List Str} (dTab : DynamicTableData) (message : Str → Str)
    {partitions : List Str} (h : ∀ name ∈ partitions, name ∈ names) :
    requirePartitions (fun name => (megabyteTable names).hasPartition name || dTab.hasPartition name) message
      partitions = .ok () := by
  induction partitions with
  | nil => rfl
  | cons first rest ih =>
    have hfirst := megabyteTable_hasPartition (h first List.mem_cons_self)
    rw [requirePartitions, List.forM_eq_forM, List.forM_cons]
    simp only [hfirst, Bool.true_or, if_true]
    exact ih fun name hname => h name (List.mem_cons_of_mem _ hname)

/-- With these tables there is something to print, of one megabyte, for every list of names. -/
theorem megabyte_listed {partitions : List Str} (hne : partitions ≠ []) : ∃ found p ps,
    PartitionSizePlugin.listing (megabyteTable partitions) megabyteSuper partitions = .ok found ∧
      listed (megabyteTable partitions) megabyteSuper found = p :: ps ∧
      p.size .arm64_v8a bootFileSystem = .ok (2 ^ 20) := by
  obtain ⟨first, rest, rfl⟩ := List.exists_cons_of_ne_nil hne
  obtain ⟨last, hlast⟩ := back_ok hne
  have hrequired := requirePartitions_megabyteTable megabyteSuper (fun _ => "Couldn't find partition: %s")
    (fun name hname => hname : ∀ name ∈ first :: rest, name ∈ first :: rest)
  have hfind : (megabyteTable (first :: rest)).localPartitions.find? (fun p => p.name = first) =
      some (megabytePartition first) := List.find?_cons_of_pos (decide_eq_true rfl)
  have hnamed : ∃ ps, listed (megabyteTable (first :: rest)) megabyteSuper (.named (first :: rest)) =
      megabytePartition first :: ps := by
    rw [listed, List.filterMap_cons, hfind]
    exact ⟨_, rfl⟩
  obtain ⟨ps, hnamed⟩ := hnamed
  unfold PartitionSizePlugin.listing PartitionManager.listing
  rw [hlast, hrequired]
  show ∃ found p ps, ite _ _ _ = _ ∧ _
  split
  · exact ⟨_, _, _, rfl, rfl, rfl⟩
  · split
    · exact ⟨_, _, _, rfl, rfl, rfl⟩
    · split
      · exact ⟨_, _, _, rfl, rfl, rfl⟩
      · exact ⟨_, _, _, rfl, hnamed, rfl⟩

/-- The same line is not printed in the two units. -/
theorem getter_ne {p : Partition} (hsize : p.size .arm64_v8a bootFileSystem = .ok (2 ^ 20))
    {size_unit : SizeUnit} (hunit : size_unit = .BYTE ∨ size_unit = .KiB) (onlySize : Bool) :
    ∃ text other, PartitionSizePlugin.getter .arm64_v8a bootFileSystem onlySize (some .MiB) p = .ok text ∧
      PartitionSizePlugin.getter .arm64_v8a bootFileSystem onlySize (some size_unit) p = .ok other ∧ text ≠ other := by
  have hdiffer : ∀ no_type, sizeText (2 ^ 20) (some .MiB) no_type ≠ sizeText (2 ^ 20) (some size_unit) no_type := by
    intro no_type
    rcases hunit with rfl | rfl
    · cases no_type <;> decide
    · cases no_type <;> decide
  unfold PartitionSizePlugin.getter
  rw [Partition.formattedSizeString_of_size hsize, Partition.formattedSizeString_of_size hsize,
    Partition.formattedSizeString_of_size hsize, Partition.formattedSizeString_of_size hsize]
  cases onlySize with
  | true => exact ⟨_, _, rfl, rfl, hdiffer true⟩
  | false =>
    refine ⟨_, _, rfl, rfl, ?_⟩
    intro heq
    exact hdiffer false (List.append_cancel_left heq)

/-- What is printed in megabytes is not what is printed in a smaller unit, unless nothing is. -/
theorem printSizes_eq_iff {dest : Variables} {size_unit : SizeUnit} (hunit : size_unit = .BYTE ∨ size_unit = .KiB) :
    (∀ abi fs pTab dTab, PartitionSizePlugin.printSizes abi fs pTab dTab (some .MiB) dest =
        PartitionSizePlugin.printSizes abi fs pTab dTab (some size_unit) dest) ↔
      (dest "PartitionSizePlugin::partitions").vector = [] := by
  constructor
  · intro h
    by_contra hne
    obtain ⟨found, p, ps, hlisting, hlisted, hsize⟩ := megabyte_listed hne
    obtain ⟨text, other, htext, hother, hdiffer⟩ :=
      getter_ne hsize hunit (dest "PartitionSizePlugin::onlySize").truth
    have hsame := h .arm64_v8a bootFileSystem (megabyteTable (dest "PartitionSizePlugin::partitions").vector)
      megabyteSuper
    unfold PartitionSizePlugin.printSizes at hsame
    simp only [hlisting, hlisted, printLines, htext, hother] at hsame
    exact hdiffer (List.head_eq_of_cons_eq (congrArg Prod.fst hsame))
  · intro hnone abi fs pTab dTab
    unfold PartitionSizePlugin.printSizes
    rw [hnone]
    rfl

section

variable {app : App Variables} {directoryIsExists : Str → Bool} {i : Nat} {argv : List Str}
  {vars vars' : CmdState Variables}

/-- The sizes are printed in the unit that was asked for, or in megabytes if none was, unless
bytes or kilobytes were asked for: the default of `--as-megabyte` overrides these. -/
theorem sizeof_unit_iff {no_unknown_arg_error : Bool} {dest : Variables}
    (hoffers : app.Offers directoryIsExists i .sizeof)
    (hearly : app.beforePlugins.parse_earlies no_unknown_arg_error argv (app.fresh dest) = .ok vars)
    (h : app.parse argv vars = .ok vars') (hchain : chainOf (app.parseUses argv vars) = [i])
    {asked : Option SizeUnit}
    (hasked : ∀ size_unit : SizeUnit, app.NamesOption argv vars ⟨[i], size_unit.flag⟩ ↔ asked = some size_unit) :
    PartitionSizePlugin.PrintsIn vars'.dest (asked.getD .MiB) ↔
      (asked ≠ some .BYTE ∧ asked ≠ some .KiB) ∨
        ∀ text, app.GivesTo argv vars ⟨[i], 0⟩ text → ∀ c ∈ text, c = ',' := by
  have hunused : ∀ o : OptRef, o.path ≠ [] → vars.isUsed o = false := by
    have hmain : app.beforePlugins.options = mainOptions directoryIsExists := hoffers.options
    have hleaves : ∀ option ∈ app.beforePlugins.options,
        option.Leaves (Variable.named "PartitionSizePlugin::asMega") := by
      rw [hmain]
      exact mainOptions_leave (by decide)
    exact fun o hpath => (App.parse_earlies_keeps hearly hleaves).isUsed o hpath
  have hempty : (vars'.dest "PartitionSizePlugin::partitions").vector = [] ↔
      ∀ text, app.GivesTo argv vars ⟨[i], 0⟩ text → ∀ c ∈ text, c = ',' := by
    obtain ⟨text, hgives, hvalue⟩ := required_taken hoffers h hchain hunused (List.mem_singleton.mpr rfl)
    have hcommas : split text ',' = [] ↔ ∀ c ∈ text, c = ',' := by
      rw [split_eq_fields, Delimited.fields_eq_nil_iff]
    rw [hvalue, hcommas]
    constructor
    · intro hall other hother
      rw [(hgives other).mp hother]
      exact hall
    · intro hall
      exact hall text ((hgives text).mpr rfl)
  unfold PartitionSizePlugin.PrintsIn PartitionSizePlugin.run
  rcases multiple_taken hoffers hearly h hchain with ⟨hnamed, hmultiple⟩ | ⟨homitted, hmultiple⟩
  · rw [(hasked .GiB).mp hnamed, hmultiple]
    exact iff_of_true (fun abi fs pTab dTab => rfl) (Or.inl ⟨by decide, by decide⟩)
  · rw [hmultiple]
    cases asked with
    | none => exact iff_of_true (fun abi fs pTab dTab => rfl) (Or.inl ⟨by decide, by decide⟩)
    | some size_unit =>
      cases size_unit with
      | MiB => exact iff_of_true (fun abi fs pTab dTab => rfl) (Or.inl ⟨by decide, by decide⟩)
      | GiB => exact absurd ((hasked .GiB).mpr rfl) homitted
      | BYTE =>
        refine (printSizes_eq_iff (Or.inl rfl)).trans (hempty.trans ?_)
        exact (or_iff_right fun hother => hother.1 rfl).symm
      | KiB =>
        refine (printSizes_eq_iff (Or.inr rfl)).trans (hempty.trans ?_)
        exact (or_iff_right fun hother => hother.2 rfl).symm

end

/-- `pmt sizeof boot` with the flag of a unit. -/
theorem named_units (flag : Str) (k : Nat) {argv : List Str} {vars : CmdState Variables}
    (huses : pmtApp.parseUses argv vars =
      [.subcommand "sizeof" 1, .positional "boot" ⟨[1], 0⟩, .flag flag ⟨[1], k⟩]) (size_unit : SizeUnit) :
    pmtApp.NamesOption argv vars ⟨[1], size_unit.flag⟩ ↔ size_unit.flag = k := by
  have hlist : size_unit.flag ≠ 0 := by cases size_unit <;> exact Nat.succ_ne_zero _
  unfold App.NamesOption
  rw [huses]
  simp [TokenUse.option, hlist.symm, eq_comm]

theorem sizeof_unit_gigabyte : ∃ vars vars',
    pmtApp.beforePlugins.parse_earlies true ["pmt", "sizeof", "boot", "--as-gigabyte"] (pmtApp.fresh unsetVariables) =
      .ok vars ∧
    pmtApp.parse ["pmt", "sizeof", "boot", "--as-gigabyte"] vars = .ok vars' ∧
    (PartitionSizePlugin.PrintsIn vars'.dest ((some SizeUnit.GiB).getD .MiB) ↔
      (some SizeUnit.GiB ≠ some .BYTE ∧ some SizeUnit.GiB ≠ some .KiB) ∨
        ∀ text, pmtApp.GivesTo ["pmt", "sizeof", "boot", "--as-gigabyte"] vars ⟨[1], 0⟩ text →
          ∀ c ∈ text, c = ',') := by
  have hoffers : pmtApp.Offers (fun _ => true) 1 .sizeof := ⟨rfl, rfl⟩
  have hearly : pmtApp.beforePlugins.parse_earlies true ["pmt", "sizeof", "boot", "--as-gigabyte"]
      (pmtApp.fresh unsetVariables) = .ok (pmtApp.fresh unsetVariables) := rfl
  refine ⟨_, _, hearly, rfl, sizeof_unit_iff hoffers hearly rfl rfl fun size_unit => ?_⟩
  refine (named_units "--as-gigabyte" 4 rfl size_unit).trans ?_
  cases size_unit <;> decide

/-- With `--as-byte` a partition of 64 MiB is one of `64.00MiB`. -/
theorem byte_flag_overridden : ∃ vars vars',
    pmtApp.beforePlugins.parse_earlies true ["pmt", "sizeof", "boot", "--as-byte"] (pmtApp.fresh unsetVariables) =
      .ok vars ∧
    pmtApp.parse ["pmt", "sizeof", "boot", "--as-byte"] vars = .ok vars' ∧
    (∀ size_unit : SizeUnit,
      pmtApp.NamesOption ["pmt", "sizeof", "boot", "--as-byte"] vars ⟨[1], size_unit.flag⟩ ↔ size_unit = .BYTE) ∧
    (PartitionSizePlugin.run .arm64_v8a bootFileSystem (bootTable 67108864) megabyteSuper vars'.dest).1 =
      ["boot: 64.00MiB"] ∧
    ¬ PartitionSizePlugin.PrintsIn vars'.dest .BYTE := by
  refine ⟨pmtApp.fresh unsetVariables, _, rfl, rfl, fun size_unit => ?_, by decide, ?_⟩
  · refine (named_units "--as-byte" 1 rfl size_unit).trans ?_
    cases size_unit <;> decide
  · intro h
    have hlines := congrArg Prod.fst (h .arm64_v8a bootFileSystem (bootTable 67108864) megabyteSuper)
    revert hlines
    decide

end PartitionManager
