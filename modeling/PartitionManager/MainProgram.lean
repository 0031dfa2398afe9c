import PartitionManager.ErrorChain
import PartitionManager.FileCalls
import PartitionManager.Library.Words
import PartitionManager.Plugins
import PartitionManager.Stores
import PartitionManager.UsedCommands

namespace PartitionManager

def EXIT_FAILURE : Int := 1

/-- `std::filesystem::path::extension` of a file name. -/
def extension (path : Str) : Str :=
  match (filename path).reverse.dropWhile (· ≠ '.') with
  | [] => []
  | [_] => []
  | _ :: _ =>
    if filename path = ".." then [] else '.' :: ((filename path).reverse.takeWhile (· ≠ '.')).reverse

example : extension "plugins/lib.v2.so" = ".so".toList ∧ extension "plugins/.so" = [] := by decide

/-- The arguments that `main` takes from its standard input: `std::getline`, and `>>` on each line. -/
def stdinTokens (text : Str) : List Str :=
  ((Words.lineReader '\n').all text).flatMap (Words.wordReader isspace).all

/-- What a process finds when it starts: its input, the plugins, the variables before any option is
read, and the device. `command` is what `onLoad` of a plugin adds to the App. -/
structure Host where
  stdin : Option Str
  directoryIsExists : Str → Bool
  directory_iterator : Str → Outcome (List Str)
  created : List BasicPlugin
  library : Str → PluginLibrary
  command : BasicPlugin → Subcommand Variables
  unset : Variables
  flags : Outcome BasicFlags
  isHasRootPrivileges : Bool
  run : BasicPlugin → Variables → Outcome Bool

/-- The plugins while they are loaded; `offered` are those whose `onLoad` was called. -/
structure Loading where
  manager : PluginManager := {}
  offered : List BasicPlugin := []

/-- The plugins whose `onLoad` a call reaches. -/
def LoadCall.offers (m : PluginManager) : LoadCall → List BasicPlugin
  | .loadBuiltinPlugins created =>
    created.takeWhile BasicPlugin.onLoad ++ (created.dropWhile BasicPlugin.onLoad).take 1
  | .loadPlugin _ (.creates plugin) => if m.alreadyExists plugin.getName then [] else [plugin]
  | .loadPlugin _ _ => []

/-- The value that the call returns is not looked at. -/
def Loading.load (s : Loading) (c : LoadCall) : Outcome Loading := do
  let _ ← (s.manager.loadCall c).2
  .ok ⟨(s.manager.loadCall c).1, s.offered ++ c.offers s.manager⟩

/-- `runUsed` of plugins whose `run` may also throw, and the plugins whose `run` was called. -/
def PluginManager.runUsedWith (m : PluginManager) (used : BasicPlugin → Bool) (run : BasicPlugin → Outcome Bool) :
    Outcome Bool × List BasicPlugin :=
  match m.plugins.find? fun plugin => used plugin.plugin with
  | some found => (run found.plugin, [found.plugin])
  | none =>
    match m.builtinPlugins.find? used with
    | some found => (run found, [found])
    | none => (.ok false, [])

namespace Loading

variable (s : Loading)

/-- `used` of a plugin: whether the command line uses the subcommand that its `onLoad` added. -/
def used (vars : CmdState Variables) (plugin : BasicPlugin) : Bool := vars.subcommandUsed [s.offered.idxOf plugin]

end Loading

namespace Host

variable (host : Host)

/-- The arguments as the passes read them, each up to its first null character. -/
def arguments (argv : List Str) : List Str :=
  argv ++ (host.stdin.elim [] stdinTokens).map path_c_str

def app (offered : List BasicPlugin) : App Variables where
  options := mainOptions host.directoryIsExists
  subcommands := offered.map host.command
  groups := []
  auto_help_enabled := true

def loadPlugins (paths : List Str) (s : Loading) : Outcome Loading :=
  paths.foldlM (fun s path => s.load (.loadPlugin path (host.library path))) s

/-- The part of `main` that loads the plugins. -/
def load (dest : Variables) : Outcome Loading := do
  let s ← Loading.load {} (.loadBuiltinPlugins host.created)
  let s ← host.loadPlugins (dest "plugins").vector s
  if (dest "pluginPath").text = [] then .ok s
  else do
    let entries ← host.directory_iterator (dest "pluginPath").text
    host.loadPlugins (entries.filter fun entry => extension entry = ".so") s

end Host

/-- The options of the subcommands that were added come with their default texts. -/
def App.adopt (app : App Variables) (vars : CmdState Variables) : CmdState Variables :=
  { vars with default_value := fun o =>
      if o.path = [] then vars.default_value o else (app.fresh vars.dest).default_value o }

/-- What `main` has when it calls `runUsed`. -/
structure Prepared where
  loading : Loading
  early : CmdState Variables
  vars : CmdState Variables

/-- Nothing was asked of the program. -/
abbrev Prepared.ShowsUsage (p : Prepared) (args : List Str) : Prop :=
  args.length < 2 ∨
    args.length = 3 ∧ ((p.vars.dest "plugins").vector ≠ [] ∨ (p.vars.dest "pluginPath").text ≠ [])

namespace Host

variable (host : Host)

/-- Both passes, with the plugins loaded between them. -/
def prepare (args : List Str) : Outcome Prepared := do
  let early ← (host.app []).parse_earlies true args ((host.app []).fresh host.unset)
  let loading ← host.load early.dest
  let vars ← (host.app loading.offered).parse args ((host.app loading.offered).adopt early)
  .ok ⟨loading, early, vars⟩

/-- What `main` looks at after `parse`: the code it returns with, if it does. -/
def checks (args : List Str) (flags : BasicFlags) (p : Prepared) : Outcome (Option Int) :=
  if p.ShowsUsage args then .ok (some EXIT_FAILURE)
  else if p.vars.dest "Flags.viewLicense" = .bool true then .ok (some 0)
  else if p.vars.dest "Flags.viewVersion" = .bool true then .ok (some 0)
  else if !host.isHasRootPrivileges then raise ⟨"This program requires super-user privileges.", 1, false⟩
  else do
    BasicFlags.tableChecks { flags with
      onLogical := p.vars.dest "Flags.onLogical" = .bool true
      forceProcess := p.vars.dest "Flags.forceProcess" = .bool true }
    if p.loading.manager.getUsed (p.loading.used p.vars) = [] then
      raise ⟨"Unknown main command speficied! Use --help for more information.", 1, false⟩
    else .ok none

/-- The `try` block of `main`, and the plugins whose `run` was called. -/
def tryBlock (argv : List Str) : Outcome Int × List BasicPlugin :=
  let checked : Outcome (Prepared × Option Int) := do
    let flags ← host.flags
    let p ← host.prepare (host.arguments argv)
    let code ← host.checks (host.arguments argv) flags p
    .ok (p, code)
  match checked with
  | .error stop => (.error stop, [])
  | .ok (_, some code) => (.ok code, [])
  | .ok (p, none) =>
    let ran := p.loading.manager.runUsedWith (p.loading.used p.vars) fun plugin => host.run plugin p.vars.dest
    (ran.1.map fun ok => if ok then 0 else 1, ran.2)

/-- The handler of `main`. -/
def caught (argv0 : Str) : Outcome Int → Outcome Int
  | .error (.raised (.helper error)) => .ok (handleError argv0 error).2
  | ended => ended

/-- `main`, and the plugins whose `run` was called. -/
def main (argv : List Str) : Outcome Int × List BasicPlugin :=
  (caught ((host.arguments argv).headD []) (host.tryBlock argv).1, (host.tryBlock argv).2)

end Host

/-- What `parse` makes of the arguments. -/
def Host.uses (host : Host) (args : List Str) (p : Prepared) : List TokenUse :=
  (host.app p.loading.offered).parseUses args ((host.app []).fresh host.unset)

/-- The first subcommand on the command line is the one that the plugin added. -/
def Host.Names (host : Host) (args : List Str) (p : Prepared) (plugin : BasicPlugin) : Prop :=
  (calledNames (host.uses args p)).head? = some (host.command plugin).name ∧
    ∃ index, (chainOf (host.uses args p)).head? = some index ∧ p.loading.offered[index]? = some plugin

/-- `run` of the plugin should be called. -/
structure Host.Calls (host : Host) (argv : List Str) (plugin : BasicPlugin) (p : Prepared) : Prop where
  prepared : host.prepare (host.arguments argv) = .ok p
  named : host.Names (host.arguments argv) p plugin
  registered : plugin ∈ p.loading.manager.registered
  nameless : plugin.getName ≠ []
  usage : ¬ p.ShowsUsage (host.arguments argv)
  license : p.vars.dest "Flags.viewLicense" ≠ .bool true
  version : p.vars.dest "Flags.viewVersion" ≠ .bool true
  root : host.isHasRootPrivileges = true
  tables : ∃ flags t, host.flags = .ok flags ∧ flags.partitionTables.1 = some t ∧ t.tableNamesEmpty = false ∧
    (t.valid = true ∨ p.vars.dest "Flags.forceProcess" = .bool true) ∧
    (p.vars.dest "Flags.onLogical" = .bool true → t.isHasSuperPartition = true)

section

variable {D : Type} {app : App D} {vars vars' : CmdState D} {argv : List Str}

/-- The token that made a subcommand active named the first one of its level that has the name. -/
theorem App.called_first (h : app.parse argv vars = .ok vars') {k index : Nat}
    (hindex : (chainOf (app.parseUses argv vars))[k]? = some index) :
    ∃ token, (calledNames (app.parseUses argv vars))[k]? = some token ∧
      getSubcommand token (app.subcommandsAt ((chainOf (app.parseUses argv vars)).take k)) = some index := by
  obtain ⟨s, hplays, _, _⟩ := parse_plays h
  obtain ⟨before, token, after, huses, hbefore, hname⟩ := called_at hindex
  refine ⟨token, hname, ?_⟩
  rw [huses, TokenLoop.plays_append_iff] at hplays
  obtain ⟨t, hplayed, hlater⟩ := hplays
  obtain ⟨⟨first, values, htokens, _, hread⟩, _⟩ := TokenLoop.plays_cons_iff.mp hlater
  have hchain : t.active_chain = chainOf before := plays_chain hplayed
  cases htokens
  have hcases := readToken_cases (parseLoop_read (hread []))
  rw [hchain, hbefore] at hcases
  rcases hcases with ⟨_, option, o, _, huse⟩ | ⟨_, ⟨_, hsub, huse⟩ | ⟨_, _, _, huse⟩⟩
  · have hoption := optionUse_option option o token (([] : List Str) ++ []).head?
    rw [← huse] at hoption
    cases hoption
  · cases huse
    exact hsub
  · cases huse

end

namespace Loading

variable {s s' : Loading} {c : LoadCall}

theorem load_ok (h : s.load c = .ok s') :
    s'.manager = (s.manager.loadCall c).1 ∧ s'.offered = s.offered ++ c.offers s.manager := by
  obtain ⟨_, _, h⟩ := Checks.bind_ok_iff.mp h
  cases h
  exact ⟨rfl, rfl⟩

/-- Whatever is registered has been offered its place on the command line. -/
def Offered (s : Loading) : Prop := ∀ plugin ∈ s.manager.registered, plugin ∈ s.offered

theorem Offered.load (hs : s.Offered) (h : s.load c = .ok s') : s'.Offered := by
  obtain ⟨hmanager, hoffered⟩ := load_ok h
  intro plugin hmem
  rw [hmanager] at hmem
  rw [hoffered, List.mem_append]
  cases c with
  | loadBuiltinPlugins created =>
    simp only [PluginManager.loadCall, PluginManager.loadBuiltinPlugins_fst, PluginManager.registered,
      List.mem_append] at hmem
    rcases hmem with hplugins | hbuiltin | hnew
    · exact Or.inl (hs plugin (List.mem_append_left _ hplugins))
    · exact Or.inl (hs plugin (List.mem_append_right _ hbuiltin))
    · exact Or.inr (List.mem_append_left _ hnew)
  | loadPlugin pluginPath library =>
    cases library with
    | unopened dlerror | noCreator dlerror => exact Or.inl (hs plugin hmem)
    | creates other =>
      by_cases hexists : s.manager.alreadyExists other.getName = true
      · simp only [PluginManager.loadCall, PluginManager.loadPlugin, if_pos hexists] at hmem
        exact Or.inl (hs plugin hmem)
      · simp only [PluginManager.loadCall, PluginManager.loadPlugin, if_neg hexists, PluginManager.registered,
          List.map_append, List.mem_append, List.map_cons, List.map_nil, List.mem_singleton] at hmem
        rcases hmem with (hplugins | rfl) | hbuiltin
        · exact Or.inl (hs plugin (List.mem_append_left _ hplugins))
        · simp [LoadCall.offers, hexists]
        · exact Or.inl (hs plugin (List.mem_append_right _ hbuiltin))

end Loading

namespace Host

variable {host : Host}

theorem loadPlugins_offered {paths : List Str} {s s' : Loading} (hs : s.Offered)
    (h : host.loadPlugins paths s = .ok s') : s'.Offered :=
  (Checks.foldlM_ok (fun _ _ _ hc hstep => Loading.Offered.load hc hstep) hs h).1

theorem load_offered {dest : Variables} {s : Loading} (h : host.load dest = .ok s) : s.Offered := by
  obtain ⟨built, hbuilt, h⟩ := Checks.bind_ok_iff.mp h
  obtain ⟨listed, hlisted, h⟩ := Checks.bind_ok_iff.mp h
  have hempty : ({} : Loading).Offered := fun plugin hmem => absurd hmem List.not_mem_nil
  have hs := loadPlugins_offered (Loading.Offered.load hempty hbuilt) hlisted
  split at h
  next =>
    cases h
    exact hs
  next =>
    obtain ⟨entries, _, h⟩ := Checks.bind_ok_iff.mp h
    exact loadPlugins_offered hs h

end Host

theorem getSubcommand_iff {D : Type} {name : Str} {subcommands : List (Subcommand D)} {index : Nat} :
    getSubcommand name subcommands = some index ↔ ∃ cmd, subcommands[index]? = some cmd ∧ cmd.name = name ∧
      ∀ (j : Nat) other, j < index → subcommands[j]? = some other → other.name ≠ name := by
  rw [getSubcommand, List.findIdx?_eq_some_iff_getElem]
  constructor
  · intro h
    obtain ⟨hlt, hname, hfirst⟩ := h
    refine ⟨subcommands[index], List.getElem?_eq_getElem hlt, by simpa using hname, fun j other hj hother => ?_⟩
    obtain ⟨hjlt, rfl⟩ := List.getElem?_eq_some_iff.mp hother
    simpa using hfirst j hj
  · intro h
    obtain ⟨cmd, hcmd, hname, hfirst⟩ := h
    obtain ⟨hlt, rfl⟩ := List.getElem?_eq_some_iff.mp hcmd
    refine ⟨hlt, by simpa using hname, fun j hj => ?_⟩
    have hne := hfirst j subcommands[j] hj (List.getElem?_eq_getElem (by omega))
    simpa using hne

namespace Host

variable {host : Host} {args : List Str} {p : Prepared}

/-- The used plugin is the one that the command line names. -/
theorem used_iff (h : host.prepare args = .ok p) {plugin : BasicPlugin} (hoffered : plugin ∈ p.loading.offered) :
    p.loading.used p.vars plugin = true ↔ host.Names args p plugin := by
  obtain ⟨early, hearly, h⟩ := Checks.bind_ok_iff.mp h
  obtain ⟨loading, hload, h⟩ := Checks.bind_ok_iff.mp h
  obtain ⟨vars, hparse, h⟩ := Checks.bind_ok_iff.mp h
  cases h
  have hunused : ∀ path, ((host.app loading.offered).adopt early).subcommandUsed path = false :=
    fun path => congrFun (App.parse_earlies_subcommandUsed hearly) path
  have hmarks := App.parse_marksChain hunused hparse
  have huses : (host.app loading.offered).parseUses args ((host.app loading.offered).adopt early) =
      host.uses args ⟨loading, early, vars⟩ := App.parseUses_eq args _ _
  have hused := hmarks.next_iff [] (loading.offered.idxOf plugin)
  rw [List.nil_append, and_iff_right List.nil_prefix, List.length_nil, ← List.head?_eq_getElem?, huses] at hused
  have hfirst : ∀ index, (chainOf (host.uses args ⟨loading, early, vars⟩)).head? = some index →
      ∃ token, (calledNames (host.uses args ⟨loading, early, vars⟩)).head? = some token ∧
        ∃ plugin', loading.offered[index]? = some plugin' ∧ (host.command plugin').name = token ∧
          ∀ (j : Nat) other, j < index → loading.offered[j]? = some other → (host.command other).name ≠ token := by
    intro index hindex
    rw [List.head?_eq_getElem?, ← huses] at hindex
    obtain ⟨token, hcalled, hsub⟩ := App.called_first hparse hindex
    rw [huses, ← List.head?_eq_getElem?] at hcalled
    obtain ⟨cmd, hcmd, hname, hbefore⟩ := getSubcommand_iff.mp hsub
    have hoffers : ∀ j : Nat, ((host.app loading.offered).subcommandsAt [])[j]? =
        (loading.offered[j]?).map host.command := fun j => List.getElem?_map
    obtain ⟨plugin', hplugin, rfl⟩ := Option.map_eq_some_iff.mp ((hoffers index).symm.trans hcmd)
    refine ⟨token, hcalled, plugin', hplugin, hname, fun j other hj hother => hbefore j (host.command other) hj ?_⟩
    exact (hoffers j).trans (by rw [hother]; rfl)
  rw [Loading.used, hused]
  constructor
  · intro hhead
    obtain ⟨token, hcalled, plugin', hplugin, hname, _⟩ := hfirst _ hhead
    rw [List.getElem?_idxOf hoffered] at hplugin
    cases hplugin
    exact ⟨hname ▸ hcalled, _, hhead, List.getElem?_idxOf hoffered⟩
  · intro hnamed
    obtain ⟨_, index, hhead, hat⟩ := hnamed
    obtain ⟨token, _, plugin', hplugin, hname, hbefore⟩ := hfirst index hhead
    cases hat.symm.trans hplugin
    rw [hhead]
    -- an equal plugin further on the left would have been named instead
    have hle : ¬ loading.offered.idxOf plugin < index := by
      intro hlt
      exact hbefore _ plugin hlt (List.getElem?_idxOf hoffered) hname
    have hge : ¬ index < loading.offered.idxOf plugin := by
      intro hlt
      obtain ⟨hbound, hget⟩ := List.getElem?_eq_some_iff.mp hat
      have hother := List.not_of_lt_findIdx hlt
      simp [hget] at hother
    congr 1
    omega

theorem Names.unique {plugin other : BasicPlugin} (h : host.Names args p plugin) (hother : host.Names args p other) :
    plugin = other := by
  obtain ⟨_, index, hindex, hat⟩ := h
  obtain ⟨_, index', hindex', hat'⟩ := hother
  cases hindex.symm.trans hindex'
  exact Option.some.inj (hat.symm.trans hat')

/-- The search for a used plugin finds the one that the command line names. -/
theorem find_used_iff (h : host.prepare args = .ok p) (plugin : BasicPlugin) :
    p.loading.manager.registered.find? (p.loading.used p.vars) = some plugin ↔
      plugin ∈ p.loading.manager.registered ∧ host.Names args p plugin := by
  have hoffered : p.loading.Offered := by
    obtain ⟨early, _, h⟩ := Checks.bind_ok_iff.mp h
    obtain ⟨loading, hload, h⟩ := Checks.bind_ok_iff.mp h
    obtain ⟨vars, _, h⟩ := Checks.bind_ok_iff.mp h
    cases h
    exact load_offered hload
  constructor
  · intro hfind
    have hmem := List.mem_of_find?_eq_some hfind
    exact ⟨hmem, (used_iff h (hoffered plugin hmem)).mp (List.find?_some hfind)⟩
  · intro hcalled
    obtain ⟨hmem, hnamed⟩ := hcalled
    have hused := (used_iff h (hoffered plugin hmem)).mpr hnamed
    cases hfind : p.loading.manager.registered.find? (p.loading.used p.vars) with
    | none => exact absurd hused (by simpa using List.find?_eq_none.mp hfind plugin hmem)
    | some other =>
      have hother := (used_iff h (hoffered other (List.mem_of_find?_eq_some hfind))).mp (List.find?_some hfind)
      rw [hnamed.unique hother]

end Host

theorem PluginManager.runUsedWith_eq (m : PluginManager) (used : BasicPlugin → Bool)
    (run : BasicPlugin → Outcome Bool) : m.runUsedWith used run =
      ((m.registered.find? used).map fun plugin => (run plugin, [plugin])).getD (.ok false, []) :=
  search_eq used m (fun plugin => (run plugin, [plugin])) (.ok false, [])

theorem BasicFlags.tableChecks_ok_iff {flags : BasicFlags} : tableChecks flags = .ok () ↔
    ∃ t, flags.partitionTables.1 = some t ∧ t.tableNamesEmpty = false ∧
      (t.valid = true ∨ flags.forceProcess = true) ∧ (flags.onLogical = true → t.isHasSuperPartition = true) := by
  unfold tableChecks
  cases flags.partitionTables.1 with
  | none => simp
  | some t =>
    simp only [Option.some.injEq, exists_eq_left']
    cases t.tableNamesEmpty with
    | true => simp [raise]
    | false =>
      cases t.valid <;> cases flags.forceProcess <;> cases flags.onLogical <;> cases t.isHasSuperPartition <;>
        simp [raise]

namespace Host

variable {host : Host} {args : List Str} {p : Prepared}

theorem checks_none_iff {flags : BasicFlags} : host.checks args flags p = .ok none ↔
    ¬ p.ShowsUsage args ∧
    p.vars.dest "Flags.viewLicense" ≠ .bool true ∧ p.vars.dest "Flags.viewVersion" ≠ .bool true ∧
    host.isHasRootPrivileges = true ∧
    (∃ t, flags.partitionTables.1 = some t ∧ t.tableNamesEmpty = false ∧
      (t.valid = true ∨ p.vars.dest "Flags.forceProcess" = .bool true) ∧
      (p.vars.dest "Flags.onLogical" = .bool true → t.isHasSuperPartition = true)) ∧
    p.loading.manager.getUsed (p.loading.used p.vars) ≠ [] := by
  have htables := @BasicFlags.tableChecks_ok_iff { flags with
    onLogical := p.vars.dest "Flags.onLogical" = .bool true
    forceProcess := p.vars.dest "Flags.forceProcess" = .bool true }
  simp only [decide_eq_true_eq] at htables
  rw [← htables]
  unfold checks
  split
  next h => exact iff_of_false (fun h => nomatch h) fun hall => hall.1 h
  next h =>
    rw [and_iff_right h]
    split
    next h => exact iff_of_false (fun h => nomatch h) fun hall => hall.1 h
    next h =>
      rw [and_iff_right h]
      split
      next h => exact iff_of_false (fun h => nomatch h) fun hall => hall.1 h
      next h =>
        rw [and_iff_right h]
        split
        next h =>
          refine iff_of_false (fun h => nomatch h) fun hall => ?_
          simp [hall.1] at h
        next h =>
          rw [and_iff_right (by simpa using h), Checks.bind_ok_iff]
          constructor
          · intro hchecks
            obtain ⟨_, htables, hused⟩ := hchecks
            split at hused
            next => cases hused
            next hnamed => exact ⟨htables, hnamed⟩
          · intro hall
            exact ⟨(), hall.1, if_neg hall.2⟩

theorem tryBlock_none {argv : List Str} (h : ∀ flags p, host.flags = .ok flags →
    host.prepare (host.arguments argv) = .ok p → host.checks (host.arguments argv) flags p ≠ .ok none) :
    (host.tryBlock argv).2 = [] := by
  unfold tryBlock
  cases hflags : host.flags with
  | error stop => rfl
  | ok flags =>
    cases hp : host.prepare (host.arguments argv) with
    | error stop => rfl
    | ok p =>
      have hchecks := h flags p hflags hp
      simp only [bind, Except.bind]
      cases hcode : host.checks (host.arguments argv) flags p with
      | error stop => rfl
      | ok code =>
        cases code with
        | none => exact absurd hcode hchecks
        | some code => rfl

theorem tryBlock_eq {argv : List Str} {flags : BasicFlags} (hflags : host.flags = .ok flags)
    (hp : host.prepare (host.arguments argv) = .ok p) (hchecks : host.checks (host.arguments argv) flags p = .ok none) :
    host.tryBlock argv = ((p.loading.manager.runUsedWith (p.loading.used p.vars) fun plugin =>
        host.run plugin p.vars.dest).1.map fun ok => if ok then 0 else 1,
      (p.loading.manager.runUsedWith (p.loading.used p.vars) fun plugin => host.run plugin p.vars.dest).2) := by
  unfold tryBlock
  rw [hflags, hp]
  simp only [bind, Except.bind, hchecks]

/-- A plugin that should run is the one that runs. -/
theorem Calls.tryBlock {argv : List Str} {plugin : BasicPlugin} (h : host.Calls argv plugin p) : host.tryBlock argv =
    ((host.run plugin p.vars.dest).map fun ok => if ok then 0 else 1, [plugin]) := by
  have hfind := (find_used_iff h.prepared plugin).mpr ⟨h.registered, h.named⟩
  obtain ⟨flags, t, hflags, htables⟩ := h.tables
  have hused : p.loading.manager.getUsed (p.loading.used p.vars) ≠ [] := by
    rw [PluginManager.getUsed_eq, hfind]
    exact h.nameless
  have hchecks := checks_none_iff.mpr ⟨h.usage, h.license, h.version, h.root, ⟨t, htables⟩, hused⟩
  rw [tryBlock_eq hflags h.prepared hchecks, PluginManager.runUsedWith_eq, hfind]
  rfl

/-- What runs is a plugin that should. -/
theorem calls_of_ran (host : Host) (argv : List Str) : (host.tryBlock argv).2 = [] ∨
    ∃ plugin p, host.Calls argv plugin p ∧ (host.tryBlock argv).2 = [plugin] := by
  by_cases hready : ∃ flags p, host.flags = .ok flags ∧ host.prepare (host.arguments argv) = .ok p ∧
      host.checks (host.arguments argv) flags p = .ok none
  · obtain ⟨flags, p, hflags, hp, hchecks⟩ := hready
    obtain ⟨husage, hlicense, hversion, hroot, ⟨t, htables⟩, hused⟩ := checks_none_iff.mp hchecks
    rw [PluginManager.getUsed_eq] at hused
    cases hfind : p.loading.manager.registered.find? (p.loading.used p.vars) with
    | none =>
      rw [hfind] at hused
      exact absurd rfl hused
    | some plugin =>
      rw [hfind] at hused
      obtain ⟨hmem, hnamed⟩ := (find_used_iff hp plugin).mp hfind
      have hcalls : host.Calls argv plugin p :=
        ⟨hp, hnamed, hmem, hused, husage, hlicense, hversion, hroot, flags, t, hflags, htables⟩
      exact Or.inr ⟨plugin, p, hcalls, by rw [hcalls.tryBlock]⟩
  · refine Or.inl (tryBlock_none fun flags p hflags hp hchecks => ?_)
    exact hready ⟨flags, p, hflags, hp, hchecks⟩

/-- `main` calls `run` of the one plugin whose subcommand is the first on the command line, of no
plugin unless every check has passed, and returns what `run` made of it. -/
theorem main_dispatch (host : Host) (argv : List Str) :
    ((host.main argv).2 = [] ∨ ∃ plugin, (host.main argv).2 = [plugin]) ∧
      (∀ plugin, plugin ∈ (host.main argv).2 ↔ ∃ p, host.Calls argv plugin p) ∧
      ∀ plugin p, host.Calls argv plugin p → (host.main argv).1 = caught ((host.arguments argv).headD [])
        ((host.run plugin p.vars.dest).map fun ok => if ok then 0 else 1) := by
  refine ⟨?_, fun plugin => ⟨fun hmem => ?_, fun hcalls => ?_⟩, fun plugin p hcalls => ?_⟩
  · rcases calls_of_ran host argv with hnone | ⟨plugin, p, _, hran⟩
    · exact Or.inl hnone
    · exact Or.inr ⟨plugin, hran⟩
  · change plugin ∈ (host.tryBlock argv).2 at hmem
    rcases calls_of_ran host argv with hnone | ⟨other, p, hcalls, hran⟩
    · rw [hnone] at hmem
      cases hmem
    · rw [hran, List.mem_singleton] at hmem
      exact ⟨p, hmem ▸ hcalls⟩
  · obtain ⟨p, hcalls⟩ := hcalls
    change plugin ∈ (host.tryBlock argv).2
    rw [hcalls.tryBlock]
    exact List.mem_singleton.mpr rfl
  · unfold main
    rw [hcalls.tryBlock]

/-- What comes in over the standard input might as well stand on the command line, however it is
laid out in lines and blanks; and arguments without blanks can be sent that way. -/
theorem main_stdin (host : Host) (argv : List Str) :
    (∀ text, ∃ tokens, (∀ other, Words.Spaced isspace text other ↔ other = tokens) ∧
      { host with stdin := some text }.main argv =
        { host with stdin := none }.main (argv ++ tokens.map path_c_str)) ∧
    ∀ tokens : List Str, (∀ token ∈ tokens, token ≠ [] ∧ ∀ c ∈ token, isspace c = false ∧ c ≠ '\x00') →
      { host with stdin := some (tokens.flatMap (· ++ ['\n'])) }.main argv =
        { host with stdin := none }.main (argv ++ tokens) := by
  have hmain : ∀ text tokens, Words.Spaced isspace text tokens → { host with stdin := some text }.main argv =
      { host with stdin := none }.main (argv ++ tokens.map path_c_str) := by
    intro text tokens hspaced
    have hwords : stdinTokens text = tokens := by
      rw [← hspaced.all_eq]
      exact Words.words_of_lines '\n' (by decide) text
    have harguments : { host with stdin := some text }.arguments argv =
        { host with stdin := none }.arguments (argv ++ tokens.map path_c_str) := by
      simp only [arguments, Option.elim_some, Option.elim_none, hwords, List.map_nil, List.append_nil]
    unfold main tryBlock
    rw [harguments]
    rfl
  refine ⟨fun text => ⟨(Words.wordReader isspace).all text, fun other => ?_, ?_⟩, fun tokens hclean => ?_⟩
  · rw [← Words.all_eq_iff]
    exact eq_comm
  · exact hmain text _ (Words.spaced_all text)
  · have hkept : tokens.map path_c_str = tokens := by
      have hwhole : ∀ token ∈ tokens, path_c_str token = id token := fun token hmem =>
        List.takeWhile_eq_self_iff.mpr fun c hc => by simpa using ((hclean token hmem).2 c hc).2
      rw [List.map_congr_left hwhole, List.map_id]
    rw [hmain _ tokens (Words.spaced_lines (by decide) fun token hmem =>
      ⟨(hclean token hmem).1, fun c hc => ((hclean token hmem).2 c hc).1⟩), hkept]

end Host

def infoPlugin : BasicPlugin := { getName := "InfoPlugin".toList, onLoad := true, run := true }

/-- A privileged process that has two plugins built in, on a device whose only partition is `boot`. -/
def infoHost : Host where
  stdin := none
  directoryIsExists _ := true
  directory_iterator _ := .ok []
  created := [flashPlugin, infoPlugin]
  library _ := .unopened []
  command plugin := if plugin = infoPlugin then infoCmd else { infoCmd with name := "flash" }
  unset := unsetVariables
  flags := .ok (bootFlags 1)
  isHasRootPrivileges := true
  run _ _ := .ok true

theorem main_dispatch_info : infoHost.main ["pmt", "-f", "info", "boot"] = (.ok 0, [infoPlugin]) ∧
    ∃ p, infoHost.Calls ["pmt", "-f", "info", "boot"] infoPlugin p := by
  have hmain : infoHost.main ["pmt", "-f", "info", "boot"] = (.ok 0, [infoPlugin]) := rfl
  refine ⟨hmain, ((Host.main_dispatch infoHost _).2.1 infoPlugin).mp ?_⟩
  rw [hmain]
  exact List.mem_singleton.mpr rfl

end PartitionManager
