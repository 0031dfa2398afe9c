import Mathlib.Data.List.Find
import PartitionManager.Basic
import PartitionManager.Library.Lookup
import PartitionManager.Library.Run

namespace PartitionManager

/-- What the functions of a plugin return. -/
structure BasicPlugin where
  getName : Str
  onLoad : Bool
  run : Bool
  deriving DecidableEq

/-- A plugin that came out of a library, under the name it had when it was loaded. -/
structure Plugin where
  name : Str
  plugin : BasicPlugin
  deriving DecidableEq

/-- What `dlopen` and `dlsym` find at a path, with the text of `dlerror`. -/
inductive PluginLibrary where
  | unopened (dlerror : Str)
  | noCreator (dlerror : Str)
  | creates (plugin : BasicPlugin)

structure PluginManager where
  builtinPlugins : List BasicPlugin := []
  plugins : List Plugin := []
  deriving DecidableEq

inductive LoadCall where
  | loadBuiltinPlugins (created : List BasicPlugin)
  | loadPlugin (pluginPath : Str) (library : PluginLibrary)

namespace PluginManager

variable (used : BasicPlugin → Bool) (m : PluginManager)

/-- `created` is what the registered factories make. -/
def loadBuiltinPlugins (m : PluginManager) : List BasicPlugin → PluginManager × Bool
  | [] => (m, true)
  | pluginHandle :: created =>
    if !pluginHandle.onLoad then (m, false)
    else loadBuiltinPlugins { m with builtinPlugins := m.builtinPlugins ++ [pluginHandle] } created

def alreadyExists (name : Str) : Bool :=
  m.plugins.any (fun plugin => plugin.name = name) || m.builtinPlugins.any fun plugin => plugin.getName = name

def loadPlugin (pluginPath : Str) : PluginLibrary → PluginManager × Outcome Bool
  | .unopened dlerror =>
    (m, raise { message := "dlopen failed: ".toList ++ pluginPath ++ ": ".toList ++ dlerror })
  | .noCreator dlerror =>
    (m, raise { message := "dlsym failed: ".toList ++ pluginPath ++ ": create_plugin: ".toList ++ dlerror })
  | .creates plugin =>
    if m.alreadyExists plugin.getName then (m, .ok false)
    -- the result of `onLoad` is not looked at
    else ({ m with plugins := m.plugins ++ [⟨plugin.getName, plugin⟩] }, .ok true)

/-- The result, and the plugins whose `run` was called for it. -/
def run (name : Str) : Bool × List BasicPlugin :=
  match m.plugins.find? fun plugin => plugin.name = name with
  | some found => (found.plugin.run, [found.plugin])
  | none =>
    match m.builtinPlugins.find? fun plugin => plugin.getName = name with
    | some found => (found.run, [found])
    | none => (false, [])

def runUsed : Bool × List BasicPlugin :=
  match m.plugins.find? fun plugin => used plugin.plugin with
  | some found => (found.plugin.run, [found.plugin])
  | none =>
    match m.builtinPlugins.find? used with
    | some found => (found.run, [found])
    | none => (false, [])

def getUsed : Str :=
  match m.plugins.find? fun plugin => used plugin.plugin with
  | some found => found.plugin.getName
  | none =>
    match m.builtinPlugins.find? used with
    | some found => found.getName
    | none => []

def getPlugin (name : Str) : Option BasicPlugin :=
  if !m.alreadyExists name then none
  else
    match m.plugins.find? fun plugin => plugin.plugin.getName = name with
    | some found => some found.plugin
    | none => m.builtinPlugins.find? fun plugin => plugin.getName = name

def loadCall : LoadCall → PluginManager × Outcome Bool
  | .loadBuiltinPlugins created => ((m.loadBuiltinPlugins created).1, .ok (m.loadBuiltinPlugins created).2)
  | .loadPlugin pluginPath library => m.loadPlugin pluginPath library

/-- Every call can be made at any time. -/
def loadStep (m : PluginManager) (c : LoadCall) : Option (PluginManager × Outcome Bool) := some (m.loadCall c)

/-- All plugins, in the order in which they are looked through. -/
def registered : List BasicPlugin := m.plugins.map Plugin.plugin ++ m.builtinPlugins

def names : List Str := m.registered.map BasicPlugin.getName

end PluginManager

/-- The plugins that should be registered, if the given names are taken: those that load
and bring a name of their own. -/
def admitted (names : List Str) : List BasicPlugin → List BasicPlugin
  | [] => []
  | plugin :: created =>
    if plugin.onLoad ∧ plugin.getName ∉ names then plugin :: admitted (plugin.getName :: names) created
    else admitted names created

namespace PluginManager

variable (used : BasicPlugin → Bool) (m : PluginManager)

/-- The registry after a call that refuses no more and no less than it should. -/
def afterCall : LoadCall → PluginManager
  | .loadBuiltinPlugins created => { m with builtinPlugins := m.builtinPlugins ++ admitted m.names created }
  | .loadPlugin _ (.creates plugin) =>
    { m with plugins := m.plugins ++ (admitted m.names [plugin]).map fun plugin => ⟨plugin.getName, plugin⟩ }
  | .loadPlugin _ _ => m

/-- `runUsed` runs the one plugin that goes by the name `getUsed` returns, and none if
none is used. -/
def RunsNamed : Prop :=
  (∃ plugin, used plugin = true ∧ m.getPlugin (m.getUsed used) = some plugin ∧
    m.runUsed used = (plugin.run, [plugin]) ∧ m.run (m.getUsed used) = m.runUsed used) ∨
  ((∀ plugin ∈ m.registered, used plugin = false) ∧ m.getUsed used = [] ∧ m.runUsed used = (false, []))

structure Sound : Prop where
  distinct : m.names.Nodup
  loaded : ∀ plugin ∈ m.registered, plugin.onLoad = true
  named : ∀ plugin ∈ m.plugins, plugin.name = plugin.plugin.getName

/-- No plugin comes with a taken name or refuses to load unless nothing hangs on it. -/
def Careful (m : PluginManager) : LoadCall → Prop
  | .loadBuiltinPlugins created =>
    (m.names ++ (created.takeWhile BasicPlugin.onLoad).map BasicPlugin.getName).Nodup ∧
      ∀ plugin ∈ created.dropWhile BasicPlugin.onLoad, plugin.onLoad = true →
        plugin.getName ∈ m.names ++ (created.takeWhile BasicPlugin.onLoad).map BasicPlugin.getName
  | .loadPlugin _ (.creates plugin) => plugin.getName ∈ m.names ∨ plugin.onLoad = true
  | .loadPlugin _ _ => True

end PluginManager

abbrev LoadTransition := Run.Transition PluginManager LoadCall (Outcome Bool)

/-- After a call, every plugin has a name of its own and was loaded, the refused ones left
no trace, and whatever the command line uses is what runs. -/
structure LoadTransition.Good (t : LoadTransition) : Prop where
  distinct : t.after.names.Nodup
  loaded : ∀ plugin ∈ t.after.registered, plugin.onLoad = true
  registry : t.after = t.before.afterCall t.label
  runs : ∀ used, t.after.RunsNamed used

theorem of_mem_admitted {names : List Str} {created : List BasicPlugin} {plugin : BasicPlugin}
    (h : plugin ∈ admitted names created) : plugin.onLoad = true ∧ plugin.getName ∉ names := by
  induction created generalizing names with
  | nil => simp [admitted] at h
  | cons head created ih =>
    unfold admitted at h
    split at h
    next hhead =>
      cases h with
      | head => exact hhead
      | tail _ h =>
        obtain ⟨hload, hfresh⟩ := ih h
        exact ⟨hload, fun hmem => hfresh (List.mem_cons_of_mem _ hmem)⟩
    next => exact ih h

theorem admitted_nodup {names : List Str} (hnames : names.Nodup) (created : List BasicPlugin) :
    (names ++ (admitted names created).map BasicPlugin.getName).Nodup := by
  induction created generalizing names with
  | nil => simpa [admitted] using hnames
  | cons head created ih =>
    unfold admitted
    split
    next hhead =>
      have htail := ih (List.nodup_cons.mpr ⟨hhead.2, hnames⟩)
      rw [List.map_cons]
      exact (List.perm_middle.nodup_iff).mpr htail
    next => exact ih hnames

theorem admitted_eq_nil_iff {names : List Str} {created : List BasicPlugin} :
    admitted names created = [] ↔ ∀ plugin ∈ created, plugin.onLoad = true → plugin.getName ∈ names := by
  induction created with
  | nil => simp [admitted]
  | cons head created ih =>
    unfold admitted
    rw [List.forall_mem_cons]
    split
    next hhead => simp [hhead]
    next hhead =>
      have hname : head.onLoad = true → head.getName ∈ names := by
        intro hload
        by_contra hname
        exact hhead ⟨hload, hname⟩
      exact ⟨fun h => ⟨hname, ih.mp h⟩, fun h => ih.mpr h.2⟩

/-- Stopping at the first refusal registers the right plugins just when no name comes
twice before it and nothing after it would have been admitted. -/
theorem takeWhile_eq_admitted_iff {names : List Str} (hnames : names.Nodup) {created : List BasicPlugin} :
    created.takeWhile BasicPlugin.onLoad = admitted names created ↔
      (names ++ (created.takeWhile BasicPlugin.onLoad).map BasicPlugin.getName).Nodup ∧
      ∀ plugin ∈ created.dropWhile BasicPlugin.onLoad, plugin.onLoad = true →
        plugin.getName ∈ names ++ (created.takeWhile BasicPlugin.onLoad).map BasicPlugin.getName := by
  induction created generalizing names with
  | nil => simpa [admitted] using hnames
  | cons head created ih =>
    cases hload : head.onLoad with
    | false =>
      have hnil := @admitted_eq_nil_iff names (head :: created)
      rw [List.takeWhile_cons_of_neg (by simp [hload]), List.dropWhile_cons_of_neg (by simp [hload]), eq_comm, hnil]
      simp [hnames]
    | true =>
      rw [List.takeWhile_cons_of_pos hload, List.dropWhile_cons_of_pos hload, List.map_cons]
      have hperm := @List.perm_middle _ head.getName names
        ((created.takeWhile BasicPlugin.onLoad).map BasicPlugin.getName)
      rw [hperm.nodup_iff]
      simp only [hperm.mem_iff]
      by_cases hname : head.getName ∈ names
      · have hleft : head :: created.takeWhile BasicPlugin.onLoad ≠ admitted names (head :: created) := by
          intro heq
          exact (of_mem_admitted (heq ▸ List.mem_cons_self)).2 hname
        have hright :
            ¬(head.getName :: (names ++ (created.takeWhile BasicPlugin.onLoad).map BasicPlugin.getName)).Nodup :=
          fun hnodup => (List.nodup_cons.mp hnodup).1 (List.mem_append_left _ hname)
        exact iff_of_false hleft fun h => hright h.1
      · have hadmitted : admitted names (head :: created) = head :: admitted (head.getName :: names) created := by
          rw [admitted, if_pos ⟨hload, hname⟩]
        rw [hadmitted, List.cons_inj_right]
        exact ih (List.nodup_cons.mpr ⟨hname, hnames⟩)

namespace PluginManager

variable {m : PluginManager}

theorem loadBuiltinPlugins_fst (m : PluginManager) (created : List BasicPlugin) :
    (m.loadBuiltinPlugins created).1 =
      { m with builtinPlugins := m.builtinPlugins ++ created.takeWhile BasicPlugin.onLoad } := by
  induction created generalizing m with
  | nil => simp [loadBuiltinPlugins]
  | cons head created ih =>
    unfold loadBuiltinPlugins
    cases hload : head.onLoad with
    | false => simp [hload]
    | true => simp [hload, ih]

theorem find?_registered (p : BasicPlugin → Bool) (m : PluginManager) :
    m.registered.find? p =
      ((m.plugins.find? fun plugin => p plugin.plugin).map Plugin.plugin).or (m.builtinPlugins.find? p) := by
  unfold registered
  rw [List.find?_append, List.find?_map]
  rfl

/-- Looking through the loaded plugins and then the built-in ones is one search of all. -/
theorem search_eq {α : Type} (p : BasicPlugin → Bool) (m : PluginManager) (result : BasicPlugin → α) (missing : α) :
    (match m.plugins.find? fun plugin => p plugin.plugin with
      | some found => result found.plugin
      | none =>
        match m.builtinPlugins.find? p with
        | some found => result found
        | none => missing) = ((m.registered.find? p).map result).getD missing := by
  rw [find?_registered]
  cases m.plugins.find? fun plugin => p plugin.plugin with
  | some found => rfl
  | none => cases m.builtinPlugins.find? p <;> rfl

theorem getUsed_eq (used : BasicPlugin → Bool) (m : PluginManager) :
    m.getUsed used = ((m.registered.find? used).map BasicPlugin.getName).getD [] :=
  search_eq used m BasicPlugin.getName []

theorem runUsed_eq (used : BasicPlugin → Bool) (m : PluginManager) :
    m.runUsed used = ((m.registered.find? used).map fun plugin => (plugin.run, [plugin])).getD (false, []) :=
  search_eq used m (fun plugin => (plugin.run, [plugin])) (false, [])

namespace Sound

theorem find?_name (h : m.Sound) (name : Str) :
    m.plugins.find? (fun plugin => plugin.name = name) =
      m.plugins.find? fun plugin => plugin.plugin.getName = name := by
  apply List.find?_congr
  intro plugin hmem
  rw [h.named plugin hmem]

theorem run_eq (h : m.Sound) (name : Str) :
    m.run name = ((m.registered.find? fun plugin => plugin.getName = name).map
      fun plugin => (plugin.run, [plugin])).getD (false, []) := by
  rw [run, h.find?_name]
  exact search_eq (fun plugin => plugin.getName = name) m (fun plugin => (plugin.run, [plugin])) (false, [])

theorem alreadyExists_iff (h : m.Sound) (name : Str) : m.alreadyExists name = true ↔ name ∈ m.names := by
  unfold alreadyExists names registered
  rw [List.map_append, List.mem_append, Bool.or_eq_true, List.map_map, List.mem_map, List.mem_map]
  simp only [List.any_eq_true, decide_eq_true_eq, Function.comp_apply]
  apply or_congr_left
  apply exists_congr
  intro plugin
  apply and_congr_right
  intro hmem
  rw [h.named plugin hmem]

theorem getPlugin_eq (h : m.Sound) (name : Str) :
    m.getPlugin name = m.registered.find? fun plugin => plugin.getName = name := by
  unfold getPlugin
  cases hexists : m.alreadyExists name with
  | true =>
    rw [find?_registered]
    cases m.plugins.find? fun plugin => plugin.plugin.getName = name <;> rfl
  | false =>
    have hname : name ∉ m.names := by simp [← h.alreadyExists_iff, hexists]
    have hnone : m.registered.find? (fun plugin => plugin.getName = name) = none := by
      rw [List.find?_eq_none]
      intro plugin hmem heq
      exact hname (List.mem_map.mpr ⟨plugin, hmem, by simpa using heq⟩)
    exact hnone.symm

theorem runsNamed (h : m.Sound) (used : BasicPlugin → Bool) : m.RunsNamed used := by
  cases hfind : m.registered.find? used with
  | none =>
    have hunused : ∀ plugin ∈ m.registered, used plugin = false := by simpa using hfind
    exact .inr ⟨hunused, by rw [getUsed_eq, hfind]; rfl, by rw [runUsed_eq, hfind]; rfl⟩
  | some found =>
    have hname : m.getUsed used = found.getName := by rw [getUsed_eq, hfind]; rfl
    have hruns : m.runUsed used = (found.run, [found]) := by rw [runUsed_eq, hfind]; rfl
    have hfound := Lookup.find?_of_nodup h.distinct (List.mem_of_find?_eq_some hfind)
    refine .inl ⟨found, List.find?_some hfind, ?_, hruns, ?_⟩
    · rw [h.getPlugin_eq, hname, hfound]
    · rw [h.run_eq, hname, hfound, hruns]
      rfl

/-- What the calls should do keeps the registry sound. -/
theorem afterCall (h : m.Sound) (c : LoadCall) : (m.afterCall c).Sound := by
  cases c with
  | loadBuiltinPlugins created =>
    have hnames : (m.afterCall (.loadBuiltinPlugins created)).names =
        m.names ++ (admitted m.names created).map BasicPlugin.getName := by
      simp [PluginManager.afterCall, names, registered]
    refine ⟨hnames ▸ admitted_nodup h.distinct created, ?_, h.named⟩
    intro plugin hmem
    rw [PluginManager.afterCall, registered, ← List.append_assoc, List.mem_append] at hmem
    exact hmem.elim (h.loaded plugin) fun hnew => (of_mem_admitted hnew).1
  | loadPlugin pluginPath library =>
    cases library with
    | unopened dlerror => exact h
    | noCreator dlerror => exact h
    | creates plugin =>
      have hregistered : (m.afterCall (.loadPlugin pluginPath (.creates plugin))).registered =
          m.plugins.map Plugin.plugin ++ admitted m.names [plugin] ++ m.builtinPlugins := by
        simp [PluginManager.afterCall, registered, Function.comp_def]
      have hperm : (m.afterCall (.loadPlugin pluginPath (.creates plugin))).registered.Perm
          (m.registered ++ admitted m.names [plugin]) := by
        rw [hregistered, registered, List.append_assoc, List.append_assoc]
        exact (List.perm_append_comm).append_left _
      refine ⟨?_, ?_, ?_⟩
      · have hnodup := admitted_nodup h.distinct [plugin]
        rw [names, ← List.map_append] at hnodup
        exact (hperm.map _).nodup_iff.mpr hnodup
      · intro other hmem
        exact (List.mem_append.mp (hperm.mem_iff.mp hmem)).elim (h.loaded other) fun hnew => (of_mem_admitted hnew).1
      · intro other hmem
        rw [PluginManager.afterCall, List.mem_append, List.mem_map] at hmem
        rcases hmem with hold | ⟨_, _, rfl⟩
        · exact h.named other hold
        · rfl

/-- One call does what it should just when it is a careful one. -/
theorem loadCall_eq_iff (h : m.Sound) (c : LoadCall) : (m.loadCall c).1 = m.afterCall c ↔ m.Careful c := by
  cases c with
  | loadBuiltinPlugins created =>
    have hcode : (m.loadCall (.loadBuiltinPlugins created)).1 =
        { m with builtinPlugins := m.builtinPlugins ++ created.takeWhile BasicPlugin.onLoad } :=
      m.loadBuiltinPlugins_fst created
    rw [hcode, PluginManager.afterCall, PluginManager.mk.injEq, and_iff_left rfl, List.append_cancel_left_eq]
    exact takeWhile_eq_admitted_iff h.distinct
  | loadPlugin pluginPath library =>
    cases library with
    | unopened dlerror => exact iff_of_true rfl trivial
    | noCreator dlerror => exact iff_of_true rfl trivial
    | creates plugin =>
      have hadmitted := @admitted_eq_nil_iff m.names [plugin]
      by_cases hname : plugin.getName ∈ m.names
      · have hexists := (h.alreadyExists_iff _).mpr hname
        have hnil : admitted m.names [plugin] = [] := hadmitted.mpr (by simp [hname])
        have hcode : (m.loadCall (.loadPlugin pluginPath (.creates plugin))).1 = m := by
          simp [loadCall, loadPlugin, hexists]
        refine iff_of_true ?_ (.inl hname)
        simp [hcode, PluginManager.afterCall, hnil]
      · have hexists : m.alreadyExists plugin.getName = false := by simpa [← h.alreadyExists_iff] using hname
        have hcode : (m.loadCall (.loadPlugin pluginPath (.creates plugin))).1 =
            { m with plugins := m.plugins ++ [⟨plugin.getName, plugin⟩] } := by
          simp [loadCall, loadPlugin, hexists]
        rw [hcode, PluginManager.afterCall, PluginManager.mk.injEq, and_iff_right rfl, List.append_cancel_left_eq]
        cases hload : plugin.onLoad <;> simp [admitted, Careful, hname, hload]

theorem good_iff (h : m.Sound) (c : LoadCall) (shown : Outcome Bool) :
    LoadTransition.Good ⟨m, c, shown, (m.loadCall c).1⟩ ↔ m.Careful c := by
  rw [← h.loadCall_eq_iff c]
  refine ⟨fun hgood => hgood.registry, fun hafter => ?_⟩
  have hsound : (m.loadCall c).1.Sound := hafter ▸ h.afterCall c
  exact ⟨hsound.distinct, hsound.loaded, hafter, hsound.runsNamed⟩

end Sound

theorem sound_empty : Sound {} := ⟨List.nodup_nil, by simp [registered], by simp⟩

end PluginManager

open PluginManager in
/-- In a run of loads, the registry is what it should be after every call just when every
call is a careful one. -/
theorem registry_sound_iff {ts : List LoadTransition} (hrun : Run.IsRun loadStep {} ts) :
    (∀ t ∈ ts, t.Good) ↔ ∀ t ∈ ts, t.before.Careful t.label := by
  refine Run.forall_iff_of_invariant ?_ ?_ sound_empty hrun
  · intro m c shown m' h hstep
    obtain rfl : (m.loadCall c).1 = m' := congrArg Prod.fst (Option.some.inj hstep)
    exact h.good_iff c shown
  · intro m c shown m' h hstep hcareful
    obtain rfl : (m.loadCall c).1 = m' := congrArg Prod.fst (Option.some.inj hstep)
    have hafter : (m.loadCall c).1 = m.afterCall c := (h.loadCall_eq_iff c).mpr hcareful
    exact hafter ▸ h.afterCall c

def backupPlugin : BasicPlugin := { getName := "BackupPlugin".toList, onLoad := true, run := true }

def flashPlugin : BasicPlugin := { getName := "FlashPlugin".toList, onLoad := true, run := true }

/-- A plugin that cannot start. -/
def stuckPlugin : BasicPlugin := { getName := "StuckPlugin".toList, onLoad := false, run := false }

theorem registry_sound_two : ∃ ts : List LoadTransition, Run.IsRun PluginManager.loadStep {} ts ∧
    ts.map (fun t => t.after.registered) = [[backupPlugin, flashPlugin], [backupPlugin, flashPlugin]] ∧
    ∀ t ∈ ts, t.Good := by
  have hrun : Run.IsRun PluginManager.loadStep {} _ := Run.isRun_of_trace (show Run.trace PluginManager.loadStep {}
    [.loadBuiltinPlugins [backupPlugin, flashPlugin], .loadPlugin "again.so".toList (.creates flashPlugin)] = some _
      from rfl)
  refine ⟨_, hrun, rfl, (registry_sound_iff hrun).mpr ?_⟩
  rw [List.forall_mem_cons, List.forall_mem_singleton]
  exact ⟨⟨by decide, by decide⟩, .inl (by decide)⟩

/-- The first built-in plugin that refuses keeps the next one out, and an external one
that refuses is registered. -/
theorem refused_plugins : ∃ ts : List LoadTransition, Run.IsRun PluginManager.loadStep {} ts ∧ ¬(∀ t ∈ ts, t.Good) ∧
    ts.map (fun t => (t.label, t.after.registered)) =
      [(.loadBuiltinPlugins [stuckPlugin, flashPlugin], []),
       (.loadPlugin "stuck.so".toList (.creates stuckPlugin), [stuckPlugin])] := by
  refine ⟨_, Run.isRun_of_trace (show Run.trace PluginManager.loadStep {}
    [.loadBuiltinPlugins [stuckPlugin, flashPlugin], .loadPlugin "stuck.so".toList (.creates stuckPlugin)] = some _
      from rfl), ?_, rfl⟩
  intro hgood
  have hfirst := (hgood _ List.mem_cons_self).registry
  exact absurd hfirst (by decide)

end PartitionManager
