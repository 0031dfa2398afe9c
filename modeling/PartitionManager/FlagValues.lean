import PartitionManager.TypedOptions

namespace PartitionManager

section

variable {D : Type}

namespace App

variable (app : App D)

/-- The token is `name=v`, and turns on a flag that writes to the bool variable. -/
structure GivesFlag (use : TokenUse) (v : Str) (option : CmdOption D) (var : Variable D) : Prop where
  token : ∃ token o, use = .flag token o ∧ app.option? o = some option ∧ '=' ∈ token ∧ argValue token = v
  setter : option.setter = some (var.setter .bool)

/-- If the pass accepts the command line, each flag that was given a value has it. -/
def HonoursFlags (pass : Pass) (argv : List Str) (vars : CmdState D) : Prop :=
  ∀ vars', pass.run app argv vars = .ok vars' → ∀ before use, (before, use) ∈ pass.acts app argv vars →
    ∀ v option var, app.GivesFlag use v option var → ∃ after, app.perform pass.missing before use = .ok after ∧
      from_string .bool v = .ok (var.get after.dest)

/-- No flag that is read on an accepted command line is given a value that means
something else than `true`. -/
def AffirmsFlags (pass : Pass) (argv : List Str) (vars : CmdState D) : Prop :=
  ∀ vars', pass.run app argv vars = .ok vars' → ∀ before use, (before, use) ∈ pass.acts app argv vars →
    ∀ v option var, app.GivesFlag use v option var → from_string .bool v = option.decode .bool "true"

end App

variable {app : App D}

/-- A flag that is turned on holds what its option makes of `true`, whatever the token says. -/
theorem App.GivesFlag.holds {use : TokenUse} {v : Str} {option : CmdOption D} {var : Variable D}
    (h : app.GivesFlag use v option var) {missing : Str} {before after : CmdState D}
    (hperform : app.perform missing before use = .ok after) :
    option.decode .bool "true" = .ok (var.get after.dest) := by
  obtain ⟨token, o, rfl, hat, _, _⟩ := h.token
  obtain ⟨assign, haccept, rfl⟩ := perform_flag hat hperform
  exact CmdOption.get_of_accept h.setter haccept before.dest

theorem flag_values_iff (app : App D) (pass : Pass) (argv : List Str) (vars : CmdState D) :
    app.HonoursFlags pass argv vars ↔ app.AffirmsFlags pass argv vars := by
  constructor
  · intro h vars' hrun before use hmem v option var hgives
    obtain ⟨after, hperform, hvalue⟩ := h vars' hrun before use hmem v option var hgives
    rw [hvalue, hgives.holds hperform]
  · intro h vars' hrun before use hmem v option var hgives
    obtain ⟨after, hperform⟩ := Pass.performed hrun hmem
    refine ⟨after, hperform, ?_⟩
    rw [h vars' hrun before use hmem v option var hgives]
    exact hgives.holds hperform

end

structure FlagVariables where
  quietProcess : Value
  forceProcess : Value

def FlagVariables.quiet : Variable FlagVariables where
  get := FlagVariables.quietProcess
  set value vars := { vars with quietProcess := value }
  get_set _ _ := rfl

def FlagVariables.force : Variable FlagVariables where
  get := FlagVariables.forceProcess
  set value vars := { vars with forceProcess := value }
  get_set _ _ := rfl

/-- Two of the global flags that `main` adds. -/
def flagApp : App FlagVariables where
  options := [
    { valid_names := ["-q", "--quiet"], setter := some (FlagVariables.quiet.setter .bool), early := true,
      is_flag := true },
    { valid_names := ["-f", "--force"], setter := some (FlagVariables.force.setter .bool), is_flag := true }]
  subcommands := []
  groups := []
  auto_help_enabled := true

def flagsOff : FlagVariables := ⟨.bool false, .bool false⟩

/-- `--force=false` forces, and `--quiet=false` silences. -/
theorem force_false_forces :
    (∃ vars, flagApp.parse ["pmt", "--force=false"] (flagApp.fresh flagsOff) = .ok vars ∧
      vars.dest.forceProcess = .bool true) ∧
    ¬ flagApp.HonoursFlags .parse ["pmt", "--force=false"] (flagApp.fresh flagsOff) ∧
    (∃ vars, flagApp.parse_earlies true ["pmt", "--quiet=false"] (flagApp.fresh flagsOff) = .ok vars ∧
      vars.dest.quietProcess = .bool true) ∧
    ¬ flagApp.HonoursFlags (.early true) ["pmt", "--quiet=false"] (flagApp.fresh flagsOff) := by
  refine ⟨⟨_, rfl, rfl⟩, ?_, ⟨_, rfl, rfl⟩, ?_⟩
  · intro h
    have hforce : flagApp.GivesFlag (.flag "--force=false" ⟨[], 1⟩) "false" flagApp.options[1] FlagVariables.force :=
      ⟨⟨"--force=false", ⟨[], 1⟩, rfl, rfl, by decide, by decide⟩, rfl⟩
    obtain ⟨after, hperform, hvalue⟩ := h _ rfl _ _ (List.mem_singleton.mpr rfl) _ _ _ hforce
    have hheld := hforce.holds hperform
    rw [← hvalue] at hheld
    cases hheld
  · intro h
    have hquiet : flagApp.GivesFlag (.flag "--quiet=false" ⟨[], 0⟩) "false" flagApp.options[0] FlagVariables.quiet :=
      ⟨⟨"--quiet=false", ⟨[], 0⟩, rfl, rfl, by decide, by decide⟩, rfl⟩
    obtain ⟨after, hperform, hvalue⟩ := h _ rfl _ _ (List.mem_singleton.mpr rfl) _ _ _ hquiet
    have hheld := hquiet.holds hperform
    rw [← hvalue] at hheld
    cases hheld

end PartitionManager
