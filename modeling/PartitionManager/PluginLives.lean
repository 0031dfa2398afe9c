import PartitionManager.Plugins

namespace PartitionManager

/-- Who has made a plugin object: a factory of the registry, or a library. -/
inductive PluginKind where
  | builtin
  | external
  deriving DecidableEq

/-- The object behind a pointer to a plugin. Objects are numbered as they are made. -/
structure PluginObject where
  id : Nat
  kind : PluginKind
  plugin : BasicPlugin
  deriving DecidableEq

/-- What happens to one object. -/
inductive PluginEvent where
  | made (kind : PluginKind) (name : Str)
  | onLoad (result : Bool)
  | run
  | onUnload
  | destroyed
  deriving DecidableEq

/-- `PluginManager` with its objects, and how many have been made for it. -/
structure PluginOwner where
  builtinPlugins : List PluginObject := []
  plugins : List (Str × PluginObject) := []
  made : Nat := 0
  destructed : Bool := false

inductive OwnerCall where
  | load (call : LoadCall)
  | run (name : Str)
  | runUsed (used : PluginObject → Bool)
  | destruct

namespace PluginOwner

variable (m : PluginOwner)

def registered : List PluginObject := m.plugins.map Prod.snd ++ m.builtinPlugins

/-- The manager as its functions see it, without the identities of the objects. -/
def forget : PluginManager where
  builtinPlugins := m.builtinPlugins.map PluginObject.plugin
  plugins := m.plugins.map fun plugin => ⟨plugin.1, plugin.2.plugin⟩

/-- A refused object stays behind: the pointer to it is a plain one. -/
def loadBuiltinPlugins (m : PluginOwner) : List BasicPlugin → PluginOwner × List (Nat × PluginEvent)
  | [] => (m, [])
  | pluginHandle :: created =>
    let events := [(m.made, .made .builtin pluginHandle.getName), (m.made, .onLoad pluginHandle.onLoad)]
    if !pluginHandle.onLoad then ({ m with made := m.made + 1 }, events)
    else
      let object := ⟨m.made, .builtin, pluginHandle⟩
      let rest := loadBuiltinPlugins
        { m with made := m.made + 1, builtinPlugins := m.builtinPlugins ++ [object] } created
      (rest.1, events ++ rest.2)

def loadPlugin : PluginLibrary → PluginOwner × List (Nat × PluginEvent)
  | .unopened _ => (m, [])
  | .noCreator _ => (m, [])
  | .creates plugin =>
    if m.forget.alreadyExists plugin.getName then
      ({ m with made := m.made + 1 }, [(m.made, .made .external plugin.getName), (m.made, .destroyed)])
    else
      ({ m with made := m.made + 1, plugins := m.plugins ++ [(plugin.getName, ⟨m.made, .external, plugin⟩)] },
        [(m.made, .made .external plugin.getName), (m.made, .onLoad plugin.onLoad)])

def load : LoadCall → PluginOwner × List (Nat × PluginEvent)
  | .loadBuiltinPlugins created => m.loadBuiltinPlugins created
  | .loadPlugin _ library => m.loadPlugin library

/-- The object whose `run` is called. -/
def runs (name : Str) : Option PluginObject :=
  match m.plugins.find? fun plugin => plugin.1 = name with
  | some found => some found.2
  | none => m.builtinPlugins.find? fun object => object.plugin.getName = name

def runsUsed (used : PluginObject → Bool) : Option PluginObject :=
  match m.plugins.find? fun plugin => used plugin.2 with
  | some found => some found.2
  | none => m.builtinPlugins.find? used

/-- The destructor, and after it those of the members. -/
def destruct : List (Nat × PluginEvent) :=
  (m.plugins.flatMap fun plugin => [(plugin.2.id, .onUnload), (plugin.2.id, .destroyed)]) ++
    (m.builtinPlugins.map fun object => (object.id, .onUnload)) ++
    m.builtinPlugins.map fun object => (object.id, .destroyed)

def step (m : PluginOwner) (call : OwnerCall) : Option (PluginOwner × List (Nat × PluginEvent)) :=
  if m.destructed then none
  else
    match call with
    | .load call => some (m.load call)
    | .run name => some (m, (m.runs name).toList.map fun object => (object.id, .run))
    | .runUsed used => some (m, (m.runsUsed used).toList.map fun object => (object.id, .run))
    | .destruct => some ({ m with builtinPlugins := [], plugins := [], destructed := true }, m.destruct)

end PluginOwner

/-- What has happened to one of the objects. -/
def eventsOf (id : Nat) (events : List (Nat × PluginEvent)) : List PluginEvent :=
  events.filterMap fun event => if event.1 = id then some event.2 else none

/-- The life so far of an object that the manager has: made, loaded once, and run. -/
def PluginObject.Lives (object : PluginObject) (events : List PluginEvent) : Prop :=
  (object.kind = .builtin → object.plugin.onLoad = true) ∧ ∃ runs,
    events = .made object.kind object.plugin.getName :: .onLoad object.plugin.onLoad :: List.replicate runs .run

/-- An object that goes through this is registered under `name`: it is loaded, and does not
refuse if it is a built-in one. -/
def RegisteredAs (name : Str) (happened : List PluginEvent) : Prop :=
  ∃ kind result later, happened = .made kind name :: .onLoad result :: later ∧ (kind = .builtin → result = true)

/-- An object that was made before the one with this number has the name. -/
def TakenBefore (id : Nat) (events : List (Nat × PluginEvent)) (name : Str) : Prop :=
  ∃ earlier < id, RegisteredAs name (eventsOf earlier events)

/-- The life of an object that the manager does not have any more, or has never had. A
built-in one that refuses is never destroyed, an external one with a taken name is not
loaded. -/
inductive PluginLifeOver (taken : Str → Prop) : List PluginEvent → Prop
  | refused (name : Str) : PluginLifeOver taken [.made .builtin name, .onLoad false]
  | duplicate {name : Str} (h : taken name) : PluginLifeOver taken [.made .external name, .destroyed]
  | unloaded (kind : PluginKind) (name : Str) (result : Bool) (runs : Nat) (h : kind = .builtin → result = true) :
      PluginLifeOver taken
        (.made kind name :: .onLoad result :: (List.replicate runs .run ++ [.onUnload, .destroyed]))

/-- Every object is loaded at most once, run while it is registered only, unloaded once after
that and destroyed once after that, if it is not one that refused to load. -/
structure PluginOwner.Orderly (m : PluginOwner) (events : List (Nat × PluginEvent)) : Prop where
  distinct : (m.registered.map PluginObject.id).Nodup
  below : ∀ object ∈ m.registered, object.id < m.made
  named : ∀ plugin ∈ m.plugins, plugin.1 = plugin.2.plugin.getName
  lives : ∀ object ∈ m.registered, object.Lives (eventsOf object.id events)
  unmade : ∀ id, m.made ≤ id → eventsOf id events = []
  ended : ∀ id < m.made, id ∉ m.registered.map PluginObject.id →
    PluginLifeOver (TakenBefore id events) (eventsOf id events)
  gone : m.destructed = true → m.registered = []

/-- What a call does is what the functions of the manager do, but for the identities. -/
def PluginOwner.Forgets (t : Run.Transition PluginOwner OwnerCall (List (Nat × PluginEvent))) : Prop :=
  match t.label with
  | .load call => t.after.forget = (t.before.forget.loadCall call).1
  | .run name => (t.before.runs name).toList.map PluginObject.plugin = (t.before.forget.run name).2
  | .runUsed used => ∀ used' : BasicPlugin → Bool, (∀ object, used object = used' object.plugin) →
    (t.before.runsUsed used).toList.map PluginObject.plugin = (t.before.forget.runUsed used').2
  | .destruct => True

section

variable {id : Nat} {events : List (Nat × PluginEvent)}

theorem eventsOf_append (id : Nat) (events new : List (Nat × PluginEvent)) :
    eventsOf id (events ++ new) = eventsOf id events ++ eventsOf id new := List.filterMap_append

theorem eventsOf_of_forall_ne (h : ∀ event ∈ events, event.1 ≠ id) : eventsOf id events = [] := by
  unfold eventsOf
  rw [List.filterMap_eq_nil_iff]
  intro event hmem
  exact if_neg (h event hmem)

theorem eventsOf_append_of_ne {new : List (Nat × PluginEvent)} (h : ∀ event ∈ new, event.1 ≠ id) :
    eventsOf id (events ++ new) = eventsOf id events := by
  rw [eventsOf_append, eventsOf_of_forall_ne h, List.append_nil]

theorem eventsOf_self (id : Nat) (happened : List PluginEvent) :
    eventsOf id (happened.map fun event => (id, event)) = happened := by
  unfold eventsOf
  rw [List.filterMap_map]
  simp

/-- In a list that says the same of each of different objects, it is said of each once. -/
theorem eventsOf_each {objects : List PluginObject} {object : PluginObject} (happened : List PluginEvent)
    (hdistinct : (objects.map PluginObject.id).Nodup) (hmem : object ∈ objects) :
    eventsOf object.id (objects.flatMap fun object => happened.map fun event => (object.id, event)) =
      happened := by
  induction objects with
  | nil => cases hmem
  | cons first objects ih =>
    rw [List.map_cons, List.nodup_cons] at hdistinct
    rw [List.flatMap_cons, eventsOf_append]
    rcases List.mem_cons.mp hmem with rfl | hmem
    · have hnone : eventsOf object.id
          (objects.flatMap fun object => happened.map fun event => (object.id, event)) = [] := by
        refine eventsOf_of_forall_ne fun event hevent heq => ?_
        obtain ⟨other, hother, hevent⟩ := List.mem_flatMap.mp hevent
        obtain ⟨_, _, rfl⟩ := List.mem_map.mp hevent
        exact hdistinct.1 (List.mem_map.mpr ⟨other, hother, heq⟩)
      rw [eventsOf_self, hnone, List.append_nil]
    · have hnone : eventsOf object.id (happened.map fun event => (first.id, event)) = [] := by
        refine eventsOf_of_forall_ne fun event hevent heq => ?_
        obtain ⟨_, _, rfl⟩ := List.mem_map.mp hevent
        exact hdistinct.1 (List.mem_map.mpr ⟨object, hmem, heq.symm⟩)
      rw [hnone, List.nil_append]
      exact ih hdistinct.2 hmem

theorem eventsOf_each_none {objects : List PluginObject} (happened : List PluginEvent)
    (h : id ∉ objects.map PluginObject.id) :
    eventsOf id (objects.flatMap fun object => happened.map fun event => (object.id, event)) = [] := by
  refine eventsOf_of_forall_ne fun event hevent heq => h ?_
  obtain ⟨object, hmem, hevent⟩ := List.mem_flatMap.mp hevent
  obtain ⟨_, _, rfl⟩ := List.mem_map.mp hevent
  exact List.mem_map.mpr ⟨object, hmem, heq⟩

end

theorem TakenBefore.append {id : Nat} {events : List (Nat × PluginEvent)} {name : Str}
    (h : TakenBefore id events name) (new : List (Nat × PluginEvent)) : TakenBefore id (events ++ new) name := by
  obtain ⟨earlier, hearlier, kind, result, later, heq, hkind⟩ := h
  refine ⟨earlier, hearlier, kind, result, later ++ eventsOf earlier new, ?_, hkind⟩
  rw [eventsOf_append, heq, List.cons_append, List.cons_append]

/-- A life that is over stays so, whatever else happens. -/
theorem PluginLifeOver.append {id : Nat} {events : List (Nat × PluginEvent)} {happened : List PluginEvent}
    (h : PluginLifeOver (TakenBefore id events) happened) (new : List (Nat × PluginEvent)) :
    PluginLifeOver (TakenBefore id (events ++ new)) happened := by
  cases h with
  | refused name => exact .refused name
  | duplicate htaken => exact .duplicate (htaken.append new)
  | unloaded kind name result runs hkind => exact .unloaded kind name result runs hkind

theorem PluginObject.Lives.run {object : PluginObject} {events : List PluginEvent} (h : object.Lives events) :
    object.Lives (events ++ [.run]) := by
  obtain ⟨hkind, runs, rfl⟩ := h
  exact ⟨hkind, runs + 1, by rw [List.replicate_succ', List.cons_append, List.cons_append]⟩

theorem PluginObject.Lives.ended {object : PluginObject} {events : List PluginEvent} (h : object.Lives events)
    (taken : Str → Prop) : PluginLifeOver taken (events ++ [.onUnload, .destroyed]) := by
  obtain ⟨hkind, runs, rfl⟩ := h
  exact .unloaded object.kind object.plugin.getName object.plugin.onLoad runs hkind

theorem PluginObject.Lives.registeredAs {object : PluginObject} {events : List PluginEvent} (h : object.Lives events) :
    RegisteredAs object.plugin.getName events := by
  obtain ⟨hkind, runs, rfl⟩ := h
  exact ⟨object.kind, object.plugin.onLoad, List.replicate runs .run, rfl, hkind⟩

namespace PluginOwner

variable {m m' : PluginOwner} {events : List (Nat × PluginEvent)}

namespace Orderly

theorem start : Orderly {} [] := by
  refine ⟨List.nodup_nil, ?_, ?_, ?_, fun _ _ => rfl, fun id h => ?_, fun h => nomatch h⟩
  · intro object hmem
    cases hmem
  · intro plugin hmem
    cases hmem
  · intro object hmem
    cases hmem
  · exact absurd h (Nat.not_lt_zero id)

/-- A new object is loaded and registered. -/
theorem register (h : m.Orderly events) (kind : PluginKind) (plugin : BasicPlugin)
    (hkind : kind = .builtin → plugin.onLoad = true) (hmade : m'.made = m.made + 1)
    (hregistered : m'.registered.Perm (⟨m.made, kind, plugin⟩ :: m.registered))
    (hnamed : ∀ plugin ∈ m'.plugins, plugin.1 = plugin.2.plugin.getName) (hdestructed : m'.destructed = false) :
    m'.Orderly (events ++ [(m.made, .made kind plugin.getName), (m.made, .onLoad plugin.onLoad)]) := by
  have hids := hregistered.map PluginObject.id
  have hfresh : m.made ∉ m.registered.map PluginObject.id := by
    intro hmem
    obtain ⟨object, hobject, heq⟩ := List.mem_map.mp hmem
    exact absurd (h.below object hobject) (by omega)
  have hnew : eventsOf m.made (events ++ [(m.made, .made kind plugin.getName), (m.made, .onLoad plugin.onLoad)]) =
      [.made kind plugin.getName, .onLoad plugin.onLoad] := by
    rw [eventsOf_append, h.unmade _ (Nat.le_refl _)]
    exact eventsOf_self m.made [.made kind plugin.getName, .onLoad plugin.onLoad]
  have hold : ∀ id ≠ m.made,
      eventsOf id (events ++ [(m.made, .made kind plugin.getName), (m.made, .onLoad plugin.onLoad)]) =
        eventsOf id events := by
    intro id hne
    refine eventsOf_append_of_ne ?_
    simpa using fun heq => hne heq.symm
  refine ⟨?_, ?_, hnamed, ?_, ?_, ?_, ?_⟩
  · rw [hids.nodup_iff, List.map_cons, List.nodup_cons]
    exact ⟨hfresh, h.distinct⟩
  · intro object hmem
    rcases List.mem_cons.mp (hregistered.mem_iff.mp hmem) with rfl | hmem
    · rw [hmade]
      exact Nat.lt_succ_self m.made
    · have hbelow := h.below object hmem
      omega
  · intro object hmem
    rcases List.mem_cons.mp (hregistered.mem_iff.mp hmem) with rfl | hmem
    · exact ⟨hkind, 0, hnew⟩
    · rw [hold _ (by have hbelow := h.below object hmem; omega)]
      exact h.lives object hmem
  · intro id hid
    rw [hold id (by omega)]
    exact h.unmade id (by omega)
  · intro id hid hnot
    have hne : id ≠ m.made := by
      rintro rfl
      exact hnot (hids.mem_iff.mpr List.mem_cons_self)
    rw [hold id hne]
    exact (h.ended id (by omega) fun hmem => hnot (hids.mem_iff.mpr (List.mem_cons_of_mem _ hmem))).append _
  · intro hgone
    rw [hdestructed] at hgone
    cases hgone

/-- A new object is not registered. -/
theorem discard (h : m.Orderly events) {first second : PluginEvent}
    (hover : PluginLifeOver (TakenBefore m.made events) [first, second]) :
    ({ m with made := m.made + 1 } : PluginOwner).Orderly (events ++ [(m.made, first), (m.made, second)]) := by
  have hnew : eventsOf m.made (events ++ [(m.made, first), (m.made, second)]) = [first, second] := by
    rw [eventsOf_append, h.unmade _ (Nat.le_refl _)]
    exact eventsOf_self m.made [first, second]
  have hold : ∀ id ≠ m.made, eventsOf id (events ++ [(m.made, first), (m.made, second)]) = eventsOf id events := by
    intro id hne
    refine eventsOf_append_of_ne ?_
    simpa using fun heq => hne heq.symm
  refine ⟨h.distinct, ?_, h.named, ?_, ?_, ?_, h.gone⟩
  · intro object hmem
    exact Nat.lt_succ_of_lt (h.below object hmem)
  · intro object hmem
    rw [hold _ (Nat.ne_of_lt (h.below object hmem))]
    exact h.lives object hmem
  · intro id hid
    dsimp only at hid
    rw [hold id (by omega)]
    exact h.unmade id (by omega)
  · intro id hid hnot
    dsimp only at hid
    by_cases hne : id = m.made
    · rw [hne, hnew]
      exact hover.append _
    · rw [hold id hne]
      exact (h.ended id (by omega) hnot).append _

theorem run (h : m.Orderly events) {object : PluginObject} (hmem : object ∈ m.registered) :
    m.Orderly (events ++ [(object.id, .run)]) := by
  have hself : eventsOf object.id (events ++ [(object.id, .run)]) = eventsOf object.id events ++ [.run] := by
    rw [eventsOf_append]
    exact congrArg _ (eventsOf_self object.id [.run])
  have hold : ∀ id ≠ object.id, eventsOf id (events ++ [(object.id, .run)]) = eventsOf id events := by
    intro id hne
    refine eventsOf_append_of_ne ?_
    simpa using fun heq => hne heq.symm
  refine ⟨h.distinct, h.below, h.named, ?_, ?_, ?_, h.gone⟩
  · intro other hother
    by_cases heq : other.id = object.id
    · obtain rfl := List.inj_on_of_nodup_map h.distinct hother hmem heq
      rw [hself]
      exact (h.lives other hmem).run
    · rw [hold _ heq]
      exact h.lives other hother
  · intro id hid
    have hbelow := h.below object hmem
    rw [hold id (by omega)]
    exact h.unmade id hid
  · intro id hid hnot
    rw [hold id (fun heq => hnot (heq ▸ List.mem_map.mpr ⟨object, hmem, rfl⟩))]
    exact (h.ended id hid hnot).append _

/-- A name that exists is that of an object that has been registered before. -/
theorem taken (h : m.Orderly events) {name : Str} (hexists : m.forget.alreadyExists name = true) :
    TakenBefore m.made events name := by
  have hobject : ∃ object ∈ m.registered, object.plugin.getName = name := by
    unfold PluginManager.alreadyExists at hexists
    rcases Bool.or_eq_true_iff.mp hexists with hplugin | hbuiltin
    · obtain ⟨_, hforget, hname⟩ := List.any_eq_true.mp hplugin
      obtain ⟨plugin, hmem, rfl⟩ := List.mem_map.mp hforget
      refine ⟨plugin.2, List.mem_append_left _ (List.mem_map_of_mem hmem), ?_⟩
      rw [← h.named plugin hmem]
      simpa using hname
    · obtain ⟨_, hforget, hname⟩ := List.any_eq_true.mp hbuiltin
      obtain ⟨object, hmem, rfl⟩ := List.mem_map.mp hforget
      exact ⟨object, List.mem_append_right _ hmem, by simpa using hname⟩
  obtain ⟨object, hmem, rfl⟩ := hobject
  exact ⟨object.id, h.below object hmem, (h.lives object hmem).registeredAs⟩

/-- The destructor unloads and destroys every object that is registered, and nothing else. -/
theorem eventsOf_destruct (h : m.Orderly events) :
    (∀ object ∈ m.registered, eventsOf object.id m.destruct = [.onUnload, .destroyed]) ∧
      ∀ id, id ∉ m.registered.map PluginObject.id → eventsOf id m.destruct = [] := by
  have hdestruct : m.destruct =
      ((m.plugins.map Prod.snd).flatMap fun object =>
        [PluginEvent.onUnload, .destroyed].map fun event => (object.id, event)) ++
      (m.builtinPlugins.flatMap fun object => [PluginEvent.onUnload].map fun event => (object.id, event)) ++
      m.builtinPlugins.flatMap fun object => [PluginEvent.destroyed].map fun event => (object.id, event) := by
    unfold PluginOwner.destruct
    rw [List.flatMap_map]
    simp only [List.map_cons, List.map_nil, ← List.map_eq_flatMap]
  have hdistinct := h.distinct
  unfold registered at hdistinct ⊢
  rw [List.map_append] at hdistinct ⊢
  obtain ⟨hplugins, hbuiltin, hapart⟩ := List.nodup_append.mp hdistinct
  rw [hdestruct]
  simp only [eventsOf_append]
  constructor
  · intro object hmem
    rcases List.mem_append.mp hmem with hmem | hmem
    · have hnot : object.id ∉ m.builtinPlugins.map PluginObject.id := fun hin =>
        hapart _ (List.mem_map.mpr ⟨object, hmem, rfl⟩) _ hin rfl
      rw [eventsOf_each _ hplugins hmem, eventsOf_each_none _ hnot, eventsOf_each_none _ hnot]
      rfl
    · have hnot : object.id ∉ (m.plugins.map Prod.snd).map PluginObject.id := fun hin =>
        hapart _ hin _ (List.mem_map.mpr ⟨object, hmem, rfl⟩) rfl
      rw [eventsOf_each_none _ hnot, eventsOf_each _ hbuiltin hmem, eventsOf_each _ hbuiltin hmem]
      rfl
  · intro id hid
    rw [List.mem_append, not_or] at hid
    rw [eventsOf_each_none _ hid.1, eventsOf_each_none _ hid.2, eventsOf_each_none _ hid.2]
    rfl

theorem destruct (h : m.Orderly events) :
    ({ m with builtinPlugins := [], plugins := [], destructed := true } : PluginOwner).Orderly
      (events ++ m.destruct) := by
  obtain ⟨hregistered, hothers⟩ := h.eventsOf_destruct
  have hnone : ({ m with builtinPlugins := [], plugins := [], destructed := true } : PluginOwner).registered = [] :=
    rfl
  refine ⟨List.nodup_nil, ?_, ?_, ?_, ?_, ?_, fun _ => rfl⟩
  · intro object hmem
    rw [hnone] at hmem
    cases hmem
  · intro plugin hmem
    cases hmem
  · intro object hmem
    rw [hnone] at hmem
    cases hmem
  · intro id hid
    have hnot : id ∉ m.registered.map PluginObject.id := by
      intro hin
      obtain ⟨object, hmem, rfl⟩ := List.mem_map.mp hin
      exact absurd (h.below object hmem) (Nat.not_lt.mpr hid)
    rw [eventsOf_append, h.unmade id hid, hothers id hnot]
    rfl
  · intro id hid _
    rw [eventsOf_append]
    by_cases hin : id ∈ m.registered.map PluginObject.id
    · obtain ⟨object, hmem, rfl⟩ := List.mem_map.mp hin
      rw [hregistered object hmem]
      exact (h.lives object hmem).ended _
    · rw [hothers id hin, List.append_nil]
      exact (h.ended id hid hin).append _

end Orderly

/-- Built-in plugins are loaded until one refuses. -/
theorem loadBuiltinPlugins_orderly (hm : m.destructed = false) (h : m.Orderly events) (created : List BasicPlugin) :
    (m.loadBuiltinPlugins created).1.destructed = false ∧
      (m.loadBuiltinPlugins created).1.Orderly (events ++ (m.loadBuiltinPlugins created).2) := by
  induction created generalizing m events with
  | nil =>
    unfold loadBuiltinPlugins
    rw [List.append_nil]
    exact ⟨hm, h⟩
  | cons pluginHandle created ih =>
    unfold loadBuiltinPlugins
    dsimp only
    split
    next hrefused =>
      refine ⟨hm, ?_⟩
      have hfalse : pluginHandle.onLoad = false := by simpa using hrefused
      rw [hfalse]
      exact h.discard (.refused pluginHandle.getName)
    next hloads =>
      dsimp only
      rw [← List.append_assoc]
      refine ih (by exact hm) (h.register .builtin pluginHandle (fun _ => by simpa using hloads) rfl ?_ h.named hm)
      unfold registered
      dsimp only
      rw [← List.append_assoc]
      exact List.perm_append_singleton _ _

theorem loadPlugin_orderly (hm : m.destructed = false) (h : m.Orderly events) (library : PluginLibrary) :
    (m.loadPlugin library).1.destructed = false ∧
      (m.loadPlugin library).1.Orderly (events ++ (m.loadPlugin library).2) := by
  cases library with
  | unopened dlerror | noCreator dlerror =>
    dsimp only [loadPlugin]
    rw [List.append_nil]
    exact ⟨hm, h⟩
  | creates plugin =>
    unfold loadPlugin
    dsimp only
    split
    next hexists => exact ⟨hm, h.discard (.duplicate (h.taken hexists))⟩
    next =>
      refine ⟨hm, h.register .external plugin nofun rfl ?_ ?_ hm⟩
      · unfold registered
        rw [List.map_append]
        simp only [List.map_cons, List.map_nil, List.append_assoc]
        exact List.perm_middle
      · intro entry hmem
        rcases List.mem_append.mp hmem with hmem | hmem
        · exact h.named entry hmem
        · rw [List.mem_singleton.mp hmem]

theorem runs_registered {name : Str} {object : PluginObject} (h : m.runs name = some object) :
    object ∈ m.registered := by
  unfold runs at h
  split at h
  next found hfound =>
    cases h
    exact List.mem_append_left _ (List.mem_map.mpr ⟨found, List.mem_of_find?_eq_some hfound, rfl⟩)
  next => exact List.mem_append_right _ (List.mem_of_find?_eq_some h)

theorem runsUsed_registered {used : PluginObject → Bool} {object : PluginObject} (h : m.runsUsed used = some object) :
    object ∈ m.registered := by
  unfold runsUsed at h
  split at h
  next found hfound =>
    cases h
    exact List.mem_append_left _ (List.mem_map.mpr ⟨found, List.mem_of_find?_eq_some hfound, rfl⟩)
  next => exact List.mem_append_right _ (List.mem_of_find?_eq_some h)

theorem Orderly.step {call : OwnerCall} {new : List (Nat × PluginEvent)} (h : m.Orderly events)
    (hstep : m.step call = some (m', new)) : m'.Orderly (events ++ new) := by
  unfold PluginOwner.step at hstep
  split at hstep
  next => cases hstep
  next hm =>
    have hm' : m.destructed = false := by simpa using hm
    cases call with
    | load call =>
      cases call with
      | loadBuiltinPlugins created =>
        have heq := Option.some.inj hstep
        have hafter := (loadBuiltinPlugins_orderly hm' h created).2
        rwa [show m.loadBuiltinPlugins created = (m', new) from heq] at hafter
      | loadPlugin pluginPath library =>
        have heq := Option.some.inj hstep
        have hafter := (loadPlugin_orderly hm' h library).2
        rwa [show m.loadPlugin library = (m', new) from heq] at hafter
    | run name =>
      cases hstep
      cases hruns : m.runs name with
      | none => simpa using h
      | some object => exact h.run (runs_registered hruns)
    | runUsed used =>
      cases hstep
      cases hruns : m.runsUsed used with
      | none => simpa using h
      | some object => exact h.run (runsUsed_registered hruns)
    | destruct =>
      cases hstep
      exact h.destruct

/-- Without identities, loading is what it is for the functions of the manager. -/
theorem forget_load (m : PluginOwner) (call : LoadCall) : (m.load call).1.forget = (m.forget.loadCall call).1 := by
  cases call with
  | loadBuiltinPlugins created =>
    show (m.loadBuiltinPlugins created).1.forget = (m.forget.loadBuiltinPlugins created).1
    induction created generalizing m with
    | nil => rfl
    | cons pluginHandle created ih =>
      unfold loadBuiltinPlugins PluginManager.loadBuiltinPlugins
      split
      next => rfl
      next =>
        dsimp only
        rw [ih]
        simp [forget]
  | loadPlugin pluginPath library =>
    show (m.loadPlugin library).1.forget = (m.forget.loadPlugin pluginPath library).1
    cases library with
    | unopened dlerror | noCreator dlerror => rfl
    | creates plugin =>
      unfold loadPlugin PluginManager.loadPlugin
      dsimp only
      split
      next => rfl
      next => simp [forget]

/-- And so is running. -/
theorem forget_run (m : PluginOwner) (name : Str) :
    (m.forget.run name).2 = (m.runs name).toList.map PluginObject.plugin := by
  unfold PluginManager.run runs forget
  simp only [List.find?_map, Function.comp_def]
  cases m.plugins.find? fun plugin => plugin.1 = name with
  | some found => rfl
  | none => cases m.builtinPlugins.find? fun object => object.plugin.getName = name <;> rfl

theorem forget_runUsed (m : PluginOwner) (used : BasicPlugin → Bool) :
    (m.forget.runUsed used).2 = (m.runsUsed fun object => used object.plugin).toList.map PluginObject.plugin := by
  unfold PluginManager.runUsed runsUsed forget
  simp only [List.find?_map, Function.comp_def]
  cases m.plugins.find? fun plugin => used plugin.2.plugin with
  | some found => rfl
  | none => cases m.builtinPlugins.find? fun object => used object.plugin <;> rfl

theorem step_forgets {call : OwnerCall} {new : List (Nat × PluginEvent)} (hstep : m.step call = some (m', new)) :
    Forgets ⟨m, call, new, m'⟩ := by
  unfold PluginOwner.step at hstep
  split at hstep
  next => cases hstep
  next =>
    cases call with
    | load call =>
      have heq := Option.some.inj hstep
      have hload := forget_load m call
      rwa [heq] at hload
    | run name => exact (forget_run m name).symm
    | runUsed used =>
      intro used' hused
      rw [forget_runUsed]
      have hsame : used = fun object => used' object.plugin := funext hused
      rw [hsame]
    | destruct => trivial

theorem lives_of_run {ts : List (Run.Transition PluginOwner OwnerCall (List (Nat × PluginEvent)))}
    (h : m.Orderly events) (hrun : Run.IsRun step m ts) :
    (Run.last m ts).Orderly (events ++ ts.flatMap Run.Transition.shown) := by
  induction hrun generalizing events with
  | stop s =>
    show s.Orderly (events ++ [])
    rw [List.append_nil]
    exact h
  | step hstep rest ih =>
    rw [Run.last_cons, List.flatMap_cons, ← List.append_assoc]
    exact ih (h.step hstep)

end PluginOwner

/-- Whatever is called in whatever order, every plugin object leads an orderly life, and all
of them are over when the manager has been destructed. -/
theorem plugin_lives {ts : List (Run.Transition PluginOwner OwnerCall (List (Nat × PluginEvent)))}
    (hrun : Run.IsRun PluginOwner.step {} ts) :
    (Run.last {} ts).Orderly (ts.flatMap Run.Transition.shown) ∧ ∀ t ∈ ts, PluginOwner.Forgets t := by
  refine ⟨PluginOwner.lives_of_run .start hrun, fun t ht => ?_⟩
  exact PluginOwner.step_forgets (Run.step_of_mem hrun t ht)

/-- Two built-in plugins, of which the second refuses to load, a library with a name that is
taken and one with a plugin of its own. -/
def pluginCalls : List OwnerCall :=
  [.load (.loadBuiltinPlugins [⟨"InfoPlugin", true, true⟩, ⟨"TypePlugin", false, true⟩]),
    .load (.loadPlugin "libinfo.so" (.creates ⟨"InfoPlugin", true, true⟩)),
    .load (.loadPlugin "libmine.so" (.creates ⟨"MyPlugin", false, true⟩)),
    .run "MyPlugin", .runUsed fun object => object.id = 0, .destruct]

def pluginRun : List (Run.Transition PluginOwner OwnerCall (List (Nat × PluginEvent))) :=
  (Run.trace PluginOwner.step {} pluginCalls).getD []

theorem plugin_lives_four : (Run.last {} pluginRun).Orderly (pluginRun.flatMap Run.Transition.shown) ∧
    ∀ t ∈ pluginRun, PluginOwner.Forgets t :=
  plugin_lives (Run.isRun_getD_trace (by decide))

example : (List.range 4).map (fun id => eventsOf id (pluginRun.flatMap Run.Transition.shown)) =
    [[.made .builtin "InfoPlugin", .onLoad true, .run, .onUnload, .destroyed],
      [.made .builtin "TypePlugin", .onLoad false], [.made .external "InfoPlugin", .destroyed],
      [.made .external "MyPlugin", .onLoad false, .run, .onUnload, .destroyed]] := by decide

end PartitionManager
