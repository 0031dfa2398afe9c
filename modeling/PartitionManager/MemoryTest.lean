import PartitionManager.PartitionSizes

namespace PartitionManager

/-- A function that gives back a text, stored as one that gives back nothing. -/
def voidFunction (func : Str → Str) (raw : Str) : Outcome Unit :=
  let _ := func raw
  .ok ()

namespace MemoryTestPlugin

/-- The texts `/sdcard` and `/storage` are looked for anywhere in the path. -/
def checkTestDirectory (directoryIsExists : Str → Bool) (val : Str) : Str :=
  if ("/sdcard" : Str) <:+: val ∨ ("/storage" : Str) <:+: val then
    "Sequential read tests on FUSE-mounted paths do not give correct results, so its use is prohibited (by pmt)!"
  else if val ≠ "/data/local/tmp" ∧ directoryIsExists val = false then
    "Couldn't find directory: " ++ val ++ ", no root? Try executing in ADB shell."
  else ""

end MemoryTestPlugin

/-- The subcommand, with what its first option checks. -/
def memtestCmdWith (fp : Doubles) (checker : Str → Outcome Unit) : Subcommand Variables where
  name := "memtest"
  options := [
    { addOption ["testDirectory"] "MemoryTestPlugin::testPath" .string with
      default_value := some "/data/local/tmp", checker := some checker },
    { addOption ["-s", "--file-size"] "MemoryTestPlugin::testFileSize" .unsigned_long_long with
      transformer := some (AsSizeValue fp false), default_value := some "1GB" },
    { addFlag ["--no-read-test"] "MemoryTestPlugin::doNotReadTest" with default_value := some "0" },
    versionFlag]
  subcommands := []
  requires_subcommand := false
  groups := []

def memtestCmd (fp : Doubles) (directoryIsExists : Str → Bool) : Subcommand Variables :=
  memtestCmdWith fp (voidFunction (MemoryTestPlugin.checkTestDirectory directoryIsExists))

def memtestDestinations : List (Option Str) :=
  [some "MemoryTestPlugin::testPath", some "MemoryTestPlugin::testFileSize",
    some "MemoryTestPlugin::doNotReadTest", none]

def App.withSubcommand (app : App Variables) (i : Nat) (cmd : Subcommand Variables) : App Variables :=
  { app with subcommands := app.subcommands.set i cmd }

/-- The directories that the check accepts. -/
structure TestDirectory (directoryIsExists : Str → Bool) (val : Str) : Prop where
  sdcard : ¬ ("/sdcard" : Str) <:+: val
  storage : ¬ ("/storage" : Str) <:+: val
  found : val = "/data/local/tmp" ∨ directoryIsExists val = true

/-- `run` of the plugin works in the directory, and the user named one. -/
def App.TestsIn (app : App Variables) (i : Nat) (argv : List Str) (vars : CmdState Variables) (val : Str) : Prop :=
  ∃ vars', app.parse argv vars = .ok vars' ∧ chainOf (app.parseUses argv vars) = [i] ∧
    app.NamesOption argv vars ⟨[i], 0⟩ ∧ vars'.dest "MemoryTestPlugin::testPath" = .string val

/-- The check takes effect: no other directory is worked in, and one is rejected. -/
structure App.ChecksDirectory (app : App Variables) (directoryIsExists : Str → Bool) (i : Nat) (argv : List Str)
    (vars : CmdState Variables) : Prop where
  reached : ∀ val, app.TestsIn i argv vars val → TestDirectory directoryIsExists val
  rejected : ∀ val, app.GivesTo argv vars ⟨[i], 0⟩ val → ¬ TestDirectory directoryIsExists val →
    ∃ stop, app.parse argv vars = .error stop

theorem checkTestDirectory_iff {directoryIsExists : Str → Bool} {val : Str} :
    MemoryTestPlugin.checkTestDirectory directoryIsExists val = [] ↔ TestDirectory directoryIsExists val := by
  unfold MemoryTestPlugin.checkTestDirectory
  split
  next h =>
    refine iff_of_false (fun heq => nomatch heq) ?_
    rintro ⟨hsdcard, hstorage, _⟩
    exact h.elim hsdcard hstorage
  next h =>
    obtain ⟨hsdcard, hstorage⟩ := not_or.mp h
    split
    next hmissing =>
      refine iff_of_false (fun heq => nomatch heq) ?_
      rintro ⟨_, _, hfound | hfound⟩
      · exact hmissing.1 hfound
      · rw [hmissing.2] at hfound
        cases hfound
    next hfound =>
      refine iff_of_true rfl ⟨hsdcard, hstorage, ?_⟩
      by_contra hnone
      obtain ⟨hother, habsent⟩ := not_or.mp hnone
      exact hfound ⟨hother, Bool.eq_false_iff.mpr habsent⟩

section

variable {app : App Variables} {fp : Doubles} {directoryIsExists : Str → Bool} {checker : Str → Outcome Unit} {i : Nat}

theorem memtest_option_at (hi : i < app.subcommands.length) (k : Nat) :
    (app.withSubcommand i (memtestCmdWith fp checker)).option? ⟨[i], k⟩ =
      (memtestCmdWith fp checker).options[k]? := by
  have hat : (app.withSubcommand i (memtestCmdWith fp checker)).subcommands[i]? =
      some (memtestCmdWith fp checker) := List.getElem?_set_self hi
  rw [App.option?, App.optionsAt, App.level, App.root, Subcommand.nested, hat]
  rfl

theorem memtest_owns (hi : i < app.subcommands.length) (hmain : app.options = mainOptions directoryIsExists) :
    (app.withSubcommand i (memtestCmdWith fp checker)).Owns ⟨[i], 0⟩ (Variable.named "MemoryTestPlugin::testPath")
      [i] := by
  have hwrites : List.Forall₂ CmdOption.Writes (memtestCmdWith fp checker).options memtestDestinations :=
    .cons ⟨_, rfl⟩ (.cons ⟨_, rfl⟩ (.cons ⟨_, rfl⟩ (.cons rfl .nil)))
  intro other option hne hprefix hat
  obtain ⟨path, index⟩ := other
  rcases List.prefix_cons_iff.mp hprefix with rfl | ⟨rest, rfl, hrest⟩
  · have hoption : (mainOptions directoryIsExists)[index]? = some option := by
      rw [← hmain]
      exact hat
    exact mainOptions_leave (by decide) option (List.mem_of_getElem? hoption)
  · obtain rfl := List.prefix_nil.mp hrest
    rw [memtest_option_at hi] at hat
    refine leaves_of_writes hwrites hat ?_
    intro hsame
    have hfirst : memtestDestinations[0]? = some (some ("MemoryTestPlugin::testPath" : Str)) := rfl
    have hlt := (List.getElem?_eq_some_iff.mp hsame).1
    have hindex : index = 0 := (List.getElem?_inj hlt (by decide)).mp (hsame.trans hfirst.symm)
    exact hne (by rw [hindex])

/-- The one value of `testDirectory` is the path. -/
theorem testPath_taken (hi : i < app.subcommands.length) (hmain : app.options = mainOptions directoryIsExists)
    {argv : List Str} {vars vars' : CmdState Variables}
    (h : (app.withSubcommand i (memtestCmdWith fp checker)).parse argv vars = .ok vars')
    (hchain : chainOf ((app.withSubcommand i (memtestCmdWith fp checker)).parseUses argv vars) = [i])
    (hnamed : (app.withSubcommand i (memtestCmdWith fp checker)).NamesOption argv vars ⟨[i], 0⟩) :
    ∃ val, (app.withSubcommand i (memtestCmdWith fp checker)).GivesTo argv vars ⟨[i], 0⟩ val ∧
      vars'.dest "MemoryTestPlugin::testPath" = .string val := by
  have hat := @memtest_option_at app fp checker i hi 0
  have hpositional : ∀ name ∈ [("testDirectory" : Str)], name.head? ≠ some '-' := by decide
  obtain ⟨before, use, after, hsplit, ho, hlast⟩ := exists_last hnamed
  have hmem : use ∈ (app.withSubcommand i (memtestCmdWith fp checker)).parseUses argv vars := by
    rw [hsplit]
    exact List.mem_append_right before List.mem_cons_self
  obtain ⟨val, rfl⟩ := App.parse_positional h hat hpositional hmem ho
  have howns : (app.withSubcommand i (memtestCmdWith fp checker)).Owns ⟨[i], 0⟩
      (Variable.named "MemoryTestPlugin::testPath")
      (chainOf ((app.withSubcommand i (memtestCmdWith fp checker)).parseUses argv vars)) := by
    rw [hchain]
    exact memtest_owns hi hmain
  have hvalue := App.parse_given h hsplit rfl hlast hat rfl howns
  exact ⟨val, ⟨_, hmem, rfl⟩, (Except.ok.inj hvalue).symm⟩

/-- No check that answers with a text changes what `parse` does. On a command line that it
accepts, the one of the plugin takes effect exactly if it has nothing to say about the
directories named. -/
theorem memtest_checks_iff (hi : i < app.subcommands.length) (hmain : app.options = mainOptions directoryIsExists)
    (fp : Doubles) (argv : List Str) (vars : CmdState Variables) :
    (∀ check : Str → Str, (app.withSubcommand i (memtestCmdWith fp (voidFunction check))).parse argv vars =
      (app.withSubcommand i (memtestCmd fp directoryIsExists)).parse argv vars) ∧
    ∀ vars', (app.withSubcommand i (memtestCmd fp directoryIsExists)).parse argv vars = .ok vars' →
      ((app.withSubcommand i (memtestCmd fp directoryIsExists)).ChecksDirectory directoryIsExists i argv vars ↔
        ∀ val, (app.withSubcommand i (memtestCmd fp directoryIsExists)).GivesTo argv vars ⟨[i], 0⟩ val →
          MemoryTestPlugin.checkTestDirectory directoryIsExists val = []) := by
  refine ⟨fun check => rfl, fun vars' haccepted => ?_⟩
  simp only [checkTestDirectory_iff]
  constructor
  · intro h val hgives
    by_contra hbad
    obtain ⟨stop, hstop⟩ := h.rejected val hgives hbad
    cases haccepted.symm.trans hstop
  · intro hall
    refine ⟨?_, fun val hgives hbad => absurd (hall val hgives) hbad⟩
    rintro val ⟨vars'', hparse, hchain, hnamed, hpath⟩
    obtain ⟨val', hgives, hpath'⟩ := testPath_taken hi hmain hparse hchain hnamed
    rw [hpath] at hpath'
    cases hpath'
    exact hall val hgives

end

/-- `main` with the plugin as its only one, on a device without directories. -/
def memtestMain : App Variables where
  options := mainOptions fun _ => false
  subcommands := [memtestCmd wholeDoubles fun _ => false]
  groups := []
  auto_help_enabled := true

def memtestArgv (path : Str) : List Str := ["pmt", "memtest", "-s", "2GB", path]

theorem memtest_checks_tmp :
    memtestMain.ChecksDirectory (fun _ => false) 0 (memtestArgv "/data/local/tmp")
      (memtestMain.fresh unsetVariables) := by
  have huses : memtestMain.parseUses (memtestArgv "/data/local/tmp") (memtestMain.fresh unsetVariables) =
      [.subcommand "memtest" 0, .separate "-s" "2GB" ⟨[0], 1⟩, .positional "/data/local/tmp" ⟨[0], 0⟩] := rfl
  obtain ⟨vars', haccepted⟩ : ∃ vars', memtestMain.parse (memtestArgv "/data/local/tmp")
      (memtestMain.fresh unsetVariables) = .ok vars' := ⟨_, rfl⟩
  have hiff := (@memtest_checks_iff memtestMain (fun _ => false) 0 (by decide) rfl wholeDoubles _ _).2 vars' haccepted
  refine hiff.mpr ?_
  rintro val ⟨use, hmem, hgiven⟩
  change use ∈ memtestMain.parseUses (memtestArgv "/data/local/tmp") (memtestMain.fresh unsetVariables) at hmem
  rw [huses] at hmem
  rcases List.mem_cons.mp hmem with rfl | hmem
  · cases hgiven
  · rcases List.mem_cons.mp hmem with rfl | hmem
    · cases hgiven
    · obtain rfl := List.mem_singleton.mp hmem
      cases hgiven
      decide

/-- `pmt memtest /sdcard` is accepted. -/
theorem sdcard_accepted :
    (∃ vars', memtestMain.parse ["pmt", "memtest", "/sdcard"] (memtestMain.fresh unsetVariables) = .ok vars' ∧
      vars'.dest "MemoryTestPlugin::testPath" = .string "/sdcard") ∧
    ¬ memtestMain.ChecksDirectory (fun _ => false) 0 ["pmt", "memtest", "/sdcard"]
        (memtestMain.fresh unsetVariables) := by
  refine ⟨⟨_, rfl, rfl⟩, fun h => ?_⟩
  have huses : memtestMain.parseUses ["pmt", "memtest", "/sdcard"] (memtestMain.fresh unsetVariables) =
      [.subcommand "memtest" 0, .positional "/sdcard" ⟨[0], 0⟩] := rfl
  have hnamed : memtestMain.NamesOption ["pmt", "memtest", "/sdcard"] (memtestMain.fresh unsetVariables)
      ⟨[0], 0⟩ := by
    refine ⟨.positional "/sdcard" ⟨[0], 0⟩, ?_, rfl⟩
    rw [huses]
    exact List.mem_cons_of_mem _ List.mem_cons_self
  have hgood := h.reached "/sdcard" ⟨_, rfl, rfl, hnamed, rfl⟩
  exact hgood.sdcard (List.infix_refl _)

end PartitionManager
