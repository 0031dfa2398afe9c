import PartitionManager.Flags
import PartitionManager.Library.Run

namespace PartitionManager

/-- A `std::future`: the task it belongs to, and whether its value has been taken. -/
structure Future where
  task : Nat
  released : Bool
  deriving DecidableEq

/-- `AsyncManager`. Tasks are numbered in the order `addProcess` got them. -/
structure AsyncManager (α : Type) where
  tasks : List Nat
  futures : List Future
  results : List α
  get : Bool

/-- Who waits for `getResults` to come back. -/
inductive Caller where
  | user
  | operator
  deriving DecidableEq

/-- The thread that uses the manager: outside it, or in the loop of `getResults`
with the next future to wait for. -/
inductive Call where
  | idle
  | collecting (caller : Caller) (i : Nat)
  | undefined (u : Undefined)
  deriving DecidableEq

/-- What `getResults` hands back: its results, or the exception that left it. -/
structure Handback (α : Type) where
  caller : Caller
  outcome : Except Exception (List α)

/-- A manager together with its started threads. -/
structure AsyncWorld (α : Type) where
  manager : AsyncManager α
  added : Nat
  outcome : Nat → Option (Except Exception α)
  call : Call

/-- The calls on the manager, the end of a thread, and the next step of `getResults`. -/
inductive AsyncLabel (α : Type) where
  | addProcess
  | startAll
  | getResults (caller : Caller)
  | collect
  | finish (task : Nat) (outcome : Except Exception α)

namespace AsyncManager

variable {α : Type}

def empty : AsyncManager α := ⟨[], [], [], false⟩

def addProcess (m : AsyncManager α) (task : Nat) : AsyncManager α := { m with tasks := m.tasks ++ [task] }

def startAll (m : AsyncManager α) : AsyncManager α :=
  { m with futures := m.futures ++ m.tasks.map fun task => ⟨task, false⟩, tasks := [] }

/-- `finalize`, for results that `view` as a message and a success flag. -/
def finalize (view : α → Str × Bool) (m : AsyncManager α) : Outcome Bool :=
  if !m.get then .ok false
  else
    let failed := m.results.filter fun res => !(view res).2
    let oss : Str := (failed.map fun res => (view res).1 ++ "\n").flatten
    if oss ≠ [] then raise ⟨oss, 1, false⟩
    else .ok (m.results.all fun res => (view res).2)

end AsyncManager

namespace AsyncWorld

variable {α : Type}

def start : AsyncWorld α := ⟨.empty, 0, fun _ => none, .idle⟩

/-- The tasks whose threads have been started. -/
def started (w : AsyncWorld α) : List Nat := w.manager.futures.map Future.task

def collectStep (w : AsyncWorld α) (caller : Caller) (i : Nat) : Option (AsyncWorld α × Option (Handback α)) :=
  match w.manager.futures[i]? with
  | none =>
    some ({ w with manager := { w.manager with get := true }, call := .idle },
      some ⟨caller, .ok w.manager.results⟩)
  | some future =>
    if future.released then some ({ w with call := .undefined .releasedFuture }, none)
    else
      let futures := w.manager.futures.set i { future with released := true }
      match w.outcome future.task with
      | none => none
      | some (.ok a) =>
        let results := w.manager.results ++ [a]
        some ({ w with manager := { w.manager with futures, results }, call := .collecting caller (i + 1) },
          none)
      | some (.error e) =>
        some ({ w with manager := { w.manager with futures }, call := .idle }, some ⟨caller, .error e⟩)

def step (w : AsyncWorld α) (label : AsyncLabel α) : Option (AsyncWorld α × Option (Handback α)) :=
  match label, w.call with
  | .addProcess, .idle =>
    some ({ w with manager := w.manager.addProcess w.added, added := w.added + 1 }, none)
  | .startAll, .idle => some ({ w with manager := w.manager.startAll }, none)
  | .getResults caller, .idle =>
    if w.manager.get then some (w, some ⟨caller, .ok w.manager.results⟩)
    else some ({ w with call := .collecting caller 0 }, none)
  | .collect, .collecting caller i => w.collectStep caller i
  | .finish task outcome, _ =>
    if task ∈ w.started ∧ w.outcome task = none then
      some ({ w with outcome := Function.update w.outcome task (some outcome) }, none)
    else none
  | _, _ => none

/-- The outcomes a handback tells its caller about. -/
def reported (h : Handback α) : List (Except Exception α) :=
  match h.outcome with
  | .ok results => results.map .ok
  | .error e => [.error e]

abbrev AsyncStep (α : Type) := Run.Transition (AsyncWorld α) (AsyncLabel α) (Option (Handback α))

/-- Control comes back only after every started task has finished, with the
outcome of each, once and in the order of their addition. -/
structure Isolated (t : AsyncStep α) : Prop where
  reports : ∀ h, t.shown = some h → t.after.started.Pairwise (· < ·) ∧
    t.after.started.map t.after.outcome = (reported h).map some
  defined : ∀ u, t.after.call ≠ .undefined u

/-- No task was started since an earlier `getResults` returned; no earlier one
threw; and an exception is met only if no other task has been started. -/
structure Careful (t : AsyncStep α) : Prop where
  cached : ∀ caller, t.label = .getResults caller → t.before.manager.get = true →
    ∀ future ∈ t.before.manager.futures, future.released = true
  fresh : ∀ caller i future, t.label = .collect → t.before.call = .collecting caller i →
    t.before.manager.futures[i]? = some future → future.released = false
  alone : ∀ caller i future e, t.label = .collect → t.before.call = .collecting caller i →
    t.before.manager.futures[i]? = some future → t.before.outcome future.task = some (.error e) →
    t.before.manager.futures.length = 1

/-- What one step can be. -/
inductive StepCase (w : AsyncWorld α) :
    AsyncLabel α → AsyncWorld α → Option (Handback α) → Prop
  | added (hidle : w.call = .idle) : StepCase w .addProcess
      { w with manager := w.manager.addProcess w.added, added := w.added + 1 } none
  | launched (hidle : w.call = .idle) : StepCase w .startAll
      { w with manager := w.manager.startAll } none
  | cached (caller : Caller) (hidle : w.call = .idle) (hget : w.manager.get = true) :
      StepCase w (.getResults caller) w (some ⟨caller, .ok w.manager.results⟩)
  | entered (caller : Caller) (hidle : w.call = .idle) (hget : w.manager.get = false) :
      StepCase w (.getResults caller) { w with call := .collecting caller 0 } none
  | collected (caller : Caller) (i : Nat) (hcall : w.call = .collecting caller i)
      (hend : w.manager.futures[i]? = none) : StepCase w .collect
      { w with manager := { w.manager with get := true }, call := .idle }
      (some ⟨caller, .ok w.manager.results⟩)
  | stuck (caller : Caller) (i : Nat) (future : Future) (hcall : w.call = .collecting caller i)
      (hf : w.manager.futures[i]? = some future) (hr : future.released = true) :
      StepCase w .collect { w with call := .undefined .releasedFuture } none
  | took (caller : Caller) (i : Nat) (future : Future) (a : α) (hcall : w.call = .collecting caller i)
      (hf : w.manager.futures[i]? = some future) (hr : future.released = false)
      (ho : w.outcome future.task = some (.ok a)) : StepCase w .collect
      { w with
        manager :=
          { w.manager with
            futures := w.manager.futures.set i { future with released := true }
            results := w.manager.results ++ [a] }
        call := .collecting caller (i + 1) } none
  | threw (caller : Caller) (i : Nat) (future : Future) (e : Exception)
      (hcall : w.call = .collecting caller i) (hf : w.manager.futures[i]? = some future)
      (hr : future.released = false) (ho : w.outcome future.task = some (.error e)) :
      StepCase w .collect
      { w with
        manager := { w.manager with futures := w.manager.futures.set i { future with released := true } }
        call := .idle } (some ⟨caller, .error e⟩)
  | finished (task : Nat) (outcome : Except Exception α) (hs : task ∈ w.started)
      (ho : w.outcome task = none) : StepCase w (.finish task outcome)
      { w with outcome := Function.update w.outcome task (some outcome) } none

theorem collectStep_cases {w w' : AsyncWorld α} {caller : Caller} {i : Nat} {o : Option (Handback α)}
    (hcall : w.call = .collecting caller i) (h : w.collectStep caller i = some (w', o)) :
    StepCase w .collect w' o := by
  unfold collectStep at h
  split at h
  next hend =>
    cases h
    exact .collected caller i hcall hend
  next future hf =>
    split at h
    next hr =>
      cases h
      exact .stuck caller i future hcall hf hr
    next hr =>
      have hr' : future.released = false := by simpa using hr
      dsimp only at h
      split at h
      next => cases h
      next a ho =>
        cases h
        exact .took caller i future a hcall hf hr' ho
      next e ho =>
        cases h
        exact .threw caller i future e hcall hf hr' ho

theorem step_cases {w w' : AsyncWorld α} {label : AsyncLabel α} {o : Option (Handback α)}
    (h : w.step label = some (w', o)) : StepCase w label w' o := by
  unfold step at h
  split at h
  next hidle => cases h; exact .added hidle
  next hidle => cases h; exact .launched hidle
  next caller hidle =>
    split at h
    next hget => cases h; exact .cached caller hidle hget
    next hget => cases h; exact .entered caller hidle (by simpa using hget)
  next caller i hcall => exact collectStep_cases hcall h
  next _ _ task outcome =>
    split at h
    next hfree => cases h; exact .finished task outcome hfree.1 hfree.2
    next => cases h
  next => cases h

/-- No exception so far: the first `k` futures have been taken, their values are the results. -/
structure Clean (w : AsyncWorld α) (k : Nat) : Prop where
  within : k ≤ w.manager.futures.length
  released : ∀ i future, w.manager.futures[i]? = some future → (future.released = true ↔ i < k)
  results : (w.started.take k).map w.outcome = w.manager.results.map fun a => some (.ok a)
  phase : (w.call = .idle ∧ w.manager.get = false ∧ k = 0) ∨
    (∃ caller, w.call = .collecting caller k ∧ w.manager.get = false) ∨
    (w.call = .idle ∧ w.manager.get = true)

/-- After an exception: the first future is gone and the results have not been kept. -/
structure Broken (w : AsyncWorld α) : Prop where
  unfinished : w.manager.get = false
  first : ∃ future, w.manager.futures[0]? = some future ∧ future.released = true
  phase : w.call = .idle ∨ ∃ caller, w.call = .collecting caller 0

structure Inv (w : AsyncWorld α) : Prop where
  numbered : w.started ++ w.manager.tasks = List.range w.added
  state : (∃ k, w.Clean k) ∨ w.Broken

theorem start_inv : (start : AsyncWorld α).Inv := by
  refine ⟨rfl, Or.inl ⟨0, ⟨Nat.le_refl 0, ?_, rfl, Or.inl ⟨rfl, rfl, rfl⟩⟩⟩⟩
  intro i future h
  simp [start, AsyncManager.empty] at h

theorem Inv.started_sorted {w : AsyncWorld α} (h : w.Inv) : w.started.Pairwise (· < ·) := by
  have hsub : List.Sublist w.started (List.range w.added) := by
    rw [← h.numbered]
    exact List.sublist_append_left _ _
  exact List.pairwise_lt_range.sublist hsub

theorem started_length (w : AsyncWorld α) : w.started.length = w.manager.futures.length :=
  List.length_map _

theorem Clean.results_length {w : AsyncWorld α} {k : Nat} (h : w.Clean k) :
    w.manager.results.length = k := by
  have hl := congrArg List.length h.results
  simp only [List.length_map, List.length_take, started_length] at hl
  have := h.within
  omega

theorem map_task_set {futures : List Future} {i : Nat} {future : Future} (h : futures[i]? = some future) :
    (futures.set i { future with released := true }).map Future.task = futures.map Future.task := by
  have hlt := (List.getElem?_eq_some_iff.mp h).1
  apply List.ext_getElem?
  intro j
  rw [List.getElem?_map, List.getElem?_map]
  by_cases hj : i = j
  · subst hj
    rw [List.getElem?_set_self hlt, h]
    rfl
  · rw [List.getElem?_set_ne hj]

/-- A list of results is everything there is to tell exactly when all futures have been taken. -/
theorem Clean.results_whole_iff {w : AsyncWorld α} {k : Nat} (h : w.Clean k) :
    w.started.map w.outcome = (w.manager.results.map .ok).map some ↔ k = w.manager.futures.length := by
  constructor
  · intro he
    have hl := congrArg List.length he
    simp only [List.length_map, started_length, h.results_length] at hl
    exact hl.symm
  · intro hk
    have hall : w.started.take k = w.started := by
      rw [List.take_of_length_le]
      rw [started_length, hk]
    have hr := h.results
    rw [hall] at hr
    rw [hr, List.map_map]
    rfl

theorem Inv.defined {w : AsyncWorld α} (h : w.Inv) (u : Undefined) : w.call ≠ .undefined u := by
  rcases h.state with ⟨k, hc⟩ | hb
  · rcases hc.phase with ⟨hi, _⟩ | ⟨_, hi, _⟩ | ⟨hi, _⟩ <;> rw [hi] <;> simp
  · rcases hb.phase with hi | ⟨_, hi⟩ <;> rw [hi] <;> simp

/-- While results are collected, the future waited for is the first one not yet taken. -/
theorem Inv.collecting {w : AsyncWorld α} {caller : Caller} {i : Nat} (h : w.Inv)
    (hcall : w.call = .collecting caller i) : w.Clean i ∨ (w.Broken ∧ i = 0) := by
  rcases h.state with ⟨k, hc⟩ | hb
  · refine Or.inl ?_
    rcases hc.phase with ⟨hi, _⟩ | ⟨_, hi, _⟩ | ⟨hi, _⟩
    · rw [hi] at hcall
      cases hcall
    · rw [hi] at hcall
      cases hcall
      exact hc
    · rw [hi] at hcall
      cases hcall
  · refine Or.inr ⟨hb, ?_⟩
    rcases hb.phase with hi | ⟨_, hi⟩
    · rw [hi] at hcall
      cases hcall
    · rw [hi] at hcall
      cases hcall
      rfl

theorem careful_of_other {w w' : AsyncWorld α} {label : AsyncLabel α} {o : Option (Handback α)}
    (hget : ∀ caller, label ≠ .getResults caller) (hcollect : label ≠ .collect) : Careful ⟨w, label, o, w'⟩ where
  cached := fun caller hl => absurd hl (hget caller)
  fresh := fun _ _ _ hl => absurd hl hcollect
  alone := fun _ _ _ _ hl => absurd hl hcollect

/-- While results are collected, only the future whose turn it is matters. -/
theorem careful_of_turn {w w' : AsyncWorld α} {o : Option (Handback α)} {caller : Caller} {i : Nat}
    (hcall : w.call = .collecting caller i)
    (hfresh : ∀ future, w.manager.futures[i]? = some future → future.released = false)
    (halone : ∀ future e, w.manager.futures[i]? = some future → w.outcome future.task = some (.error e) →
      w.manager.futures.length = 1) : Careful ⟨w, .collect, o, w'⟩ where
  cached := by
    intro _ hl
    cases hl
  fresh := by
    intro _ _ future _ hc hf
    rw [hcall] at hc
    cases hc
    exact hfresh future hf
  alone := by
    intro _ _ future e _ hc hf ho
    rw [hcall] at hc
    cases hc
    exact halone future e hf ho

theorem isolated_cached_iff {w : AsyncWorld α} {caller : Caller} (hw : w.Inv) (hget : w.manager.get = true) :
    Isolated ⟨w, .getResults caller, some ⟨caller, .ok w.manager.results⟩, w⟩ ↔
      Careful ⟨w, .getResults caller, some ⟨caller, .ok w.manager.results⟩, w⟩ := by
  rcases hw.state with ⟨k, hc⟩ | hb
  · constructor
    · intro h
      have hk := hc.results_whole_iff.mp (h.reports _ rfl).2
      refine ⟨fun _ _ _ future hf => ?_, fun _ _ _ hl => (nomatch hl), fun _ _ _ _ hl => (nomatch hl)⟩
      obtain ⟨i, hi⟩ := List.mem_iff_getElem?.mp hf
      have hlt : i < w.manager.futures.length := (List.getElem?_eq_some_iff.mp hi).1
      exact (hc.released i future hi).mpr (by omega)
    · intro h
      refine ⟨fun _ he => ?_, hw.defined⟩
      cases he
      refine ⟨hw.started_sorted, hc.results_whole_iff.mpr ?_⟩
      have hall := h.cached caller rfl hget
      have hle := hc.within
      by_contra hne
      have hlt : k < w.manager.futures.length := by omega
      have hk := List.getElem?_eq_getElem hlt
      have hrel := (hc.released k _ hk).mp (hall _ (List.getElem_mem hlt))
      omega
  · rw [hb.unfinished] at hget
    cases hget

theorem isolated_threw_iff {w w' : AsyncWorld α} {caller : Caller} {i : Nat} {future : Future}
    {e : Exception} (hw : w.Inv) (hcall : w.call = .collecting caller i)
    (hf : w.manager.futures[i]? = some future) (hr : future.released = false)
    (ho : w.outcome future.task = some (.error e)) (hstarted : w'.started = w.started)
    (houtcome : w'.outcome = w.outcome) (hidle : w'.call = .idle) :
    Isolated ⟨w, .collect, some ⟨caller, .error e⟩, w'⟩ ↔
      Careful ⟨w, .collect, some ⟨caller, .error e⟩, w'⟩ := by
  constructor
  · intro h
    have hl := congrArg List.length (h.reports _ rfl).2
    simp only [hstarted, List.length_map, started_length, reported, List.length_cons,
      List.length_nil] at hl
    refine careful_of_turn hcall ?_ fun _ _ _ _ => hl
    intro future' hf'
    rw [hf] at hf'
    cases hf'
    exact hr
  · intro h
    have hone : w.manager.futures.length = 1 := h.alone caller i future e rfl hcall hf ho
    obtain ⟨only, honly⟩ := List.length_eq_one_iff.mp hone
    have hi : i = 0 := by
      have hlt := (List.getElem?_eq_some_iff.mp hf).1
      omega
    have hfuture : only = future := by
      rw [honly, hi] at hf
      exact Option.some.inj hf
    refine ⟨fun _ he => ?_, fun u => by rw [hidle]; simp⟩
    cases he
    dsimp only
    rw [hstarted, houtcome]
    refine ⟨hw.started_sorted, ?_⟩
    simp only [started, honly, hfuture, List.map_cons, List.map_nil, ho, reported]

theorem isolated_iff_careful {w w' : AsyncWorld α} {label : AsyncLabel α} {o : Option (Handback α)}
    (hw : w.Inv) (h : w.step label = some (w', o)) :
    Isolated ⟨w, label, o, w'⟩ ↔ Careful ⟨w, label, o, w'⟩ := by
  cases step_cases h with
  | added hidle =>
    refine iff_of_true ⟨fun _ he => (nomatch he), fun u => ?_⟩
      (careful_of_other (by simp) (by simp))
    exact hw.defined u
  | launched hidle =>
    refine iff_of_true ⟨fun _ he => (nomatch he), fun u => ?_⟩
      (careful_of_other (by simp) (by simp))
    exact hw.defined u
  | cached caller hidle hget => exact isolated_cached_iff hw hget
  | entered caller hidle hget =>
    refine iff_of_true ⟨fun _ he => (nomatch he), fun u => by simp⟩
      ⟨fun _ _ hg => ?_, fun _ _ _ hl => (nomatch hl), fun _ _ _ _ hl => (nomatch hl)⟩
    dsimp only at hg
    rw [hget] at hg
    cases hg
  | collected caller i hcall hend =>
    have hover : ∀ future, w.manager.futures[i]? ≠ some future := by
      intro future hf
      rw [hend] at hf
      cases hf
    refine iff_of_true ⟨fun _ he => ?_, fun u => by simp⟩
      (careful_of_turn hcall (fun future hf => absurd hf (hover future)) fun future _ hf => absurd hf (hover future))
    · cases he
      rcases hw.collecting hcall with hc | ⟨hb, rfl⟩
      · refine ⟨hw.started_sorted, hc.results_whole_iff.mpr ?_⟩
        have hle := List.getElem?_eq_none_iff.mp hend
        have := hc.within
        omega
      · obtain ⟨future, hf, _⟩ := hb.first
        exact absurd hf (hover future)
  | stuck caller i future hcall hf hr =>
    refine iff_of_false (fun h => h.defined _ rfl) fun h => ?_
    have hfresh := h.fresh caller i future rfl hcall hf
    rw [hr] at hfresh
    cases hfresh
  | took caller i future a hcall hf hr ho =>
    refine iff_of_true ⟨fun _ he => (nomatch he), fun u => by simp⟩ (careful_of_turn hcall ?_ ?_)
    · intro other hother
      rw [hf] at hother
      cases hother
      exact hr
    · intro other e hother he
      rw [hf] at hother
      cases hother
      rw [ho] at he
      cases he
  | threw caller i future e hcall hf hr ho =>
    exact isolated_threw_iff hw hcall hf hr ho (map_task_set hf) rfl rfl
  | finished task outcome hs ho =>
    refine iff_of_true ⟨fun _ he => (nomatch he), fun u => ?_⟩
      (careful_of_other (by simp) (by simp))
    exact hw.defined u

theorem Clean.unfinished {w : AsyncWorld α} {caller : Caller} {i : Nat} (h : w.Clean i)
    (hcall : w.call = .collecting caller i) : w.manager.get = false := by
  rcases h.phase with ⟨_, hg, _⟩ | ⟨_, _, hg⟩ | ⟨hi, _⟩
  · exact hg
  · exact hg
  · rw [hi] at hcall
    cases hcall

theorem started_launched (w : AsyncWorld α) :
    ({ w with manager := w.manager.startAll } : AsyncWorld α).started = w.started ++ w.manager.tasks := by
  simp [started, AsyncManager.startAll, Function.comp_def]

/-- The tasks that are launched come after all futures that have been taken. -/
theorem Clean.launched {w : AsyncWorld α} {k : Nat} (h : w.Clean k) :
    Clean { w with manager := w.manager.startAll } k := by
  have hwithin := h.within
  refine ⟨?_, ?_, ?_, h.phase⟩
  · simp only [AsyncManager.startAll, List.length_append]
    omega
  · intro i future hi
    simp only [AsyncManager.startAll] at hi
    by_cases hlt : i < w.manager.futures.length
    · rw [List.getElem?_append_left hlt] at hi
      exact h.released i future hi
    · rw [List.getElem?_append_right (by omega), List.getElem?_map] at hi
      obtain ⟨task, _, hf⟩ := Option.map_eq_some_iff.mp hi
      rw [← hf]
      simp only [Bool.false_eq_true, false_iff]
      omega
  · rw [started_launched, List.take_append_of_le_length]
    · exact h.results
    · rw [started_length]
      exact hwithin

/-- A task that finishes was not among those whose results have been taken. -/
theorem Clean.finished {w : AsyncWorld α} {k task : Nat} (h : w.Clean k) (ho : w.outcome task = none)
    (outcome : Except Exception α) :
    Clean { w with outcome := Function.update w.outcome task (some outcome) } k := by
  refine ⟨h.within, h.released, ?_, h.phase⟩
  have hr := h.results
  rw [← hr]
  refine List.map_congr_left fun other hother => ?_
  have hsome : ∃ a, w.outcome other = some (.ok a) := by
    have hm : w.outcome other ∈ (w.started.take k).map w.outcome := List.mem_map_of_mem hother
    rw [hr] at hm
    obtain ⟨a, _, ha⟩ := List.mem_map.mp hm
    exact ⟨a, ha.symm⟩
  obtain ⟨a, ha⟩ := hsome
  have hne : other ≠ task := by
    rintro rfl
    rw [ho] at ha
    cases ha
  exact Function.update_of_ne hne _ _

theorem Clean.took {w : AsyncWorld α} {caller : Caller} {i : Nat} {future : Future} {a : α}
    (h : w.Clean i) (hcall : w.call = .collecting caller i) (hf : w.manager.futures[i]? = some future)
    (ho : w.outcome future.task = some (.ok a)) :
    Clean { w with
      manager :=
        { w.manager with
          futures := w.manager.futures.set i { future with released := true }
          results := w.manager.results ++ [a] }
      call := .collecting caller (i + 1) } (i + 1) := by
  have hlt : i < w.manager.futures.length := (List.getElem?_eq_some_iff.mp hf).1
  have hunfinished := h.unfinished hcall
  refine ⟨by rw [List.length_set]; exact hlt, ?_, ?_, Or.inr (Or.inl ⟨caller, rfl, hunfinished⟩)⟩
  · intro j other hj
    by_cases he : i = j
    · subst he
      dsimp only at hj
      rw [List.getElem?_set_self hlt] at hj
      cases hj
      simp
    · dsimp only at hj
      rw [List.getElem?_set_ne he] at hj
      rw [h.released j other hj]
      omega
  · have hlast : w.started[i]? = some future.task := by
      simp only [started, List.getElem?_map, hf, Option.map_some]
    have hstarted : started { w with
        manager :=
          { w.manager with
            futures := w.manager.futures.set i { future with released := true }
            results := w.manager.results ++ [a] }
        call := .collecting caller (i + 1) } = w.started := map_task_set hf
    dsimp only
    rw [hstarted, List.take_add_one, hlast, List.map_append, h.results, List.map_append]
    simp [ho]

section

variable {w : AsyncWorld α} {caller : Caller} {i : Nat} {future : Future}

theorem Inv.added (hw : w.Inv) :
    Inv { w with manager := w.manager.addProcess w.added, added := w.added + 1 } := by
  refine ⟨?_, ?_⟩
  · have hn := hw.numbered
    simp only [started, AsyncManager.addProcess] at hn ⊢
    rw [← List.append_assoc, hn, List.range_succ]
  · rcases hw.state with ⟨k, hc⟩ | hb
    · exact Or.inl ⟨k, ⟨hc.within, hc.released, hc.results, hc.phase⟩⟩
    · exact Or.inr ⟨hb.unfinished, hb.first, hb.phase⟩

theorem Inv.launched (hw : w.Inv) : Inv { w with manager := w.manager.startAll } := by
  refine ⟨by rw [started_launched, ← hw.numbered]; simp [AsyncManager.startAll], ?_⟩
  rcases hw.state with ⟨k, hc⟩ | hb
  · exact Or.inl ⟨k, hc.launched⟩
  · obtain ⟨future, hf, hr⟩ := hb.first
    refine Or.inr ⟨hb.unfinished, ⟨future, ?_, hr⟩, hb.phase⟩
    have hlt := (List.getElem?_eq_some_iff.mp hf).1
    simp only [AsyncManager.startAll]
    rw [List.getElem?_append_left hlt]
    exact hf

theorem Inv.entered (hw : w.Inv) (hidle : w.call = .idle) (hget : w.manager.get = false) (caller : Caller) :
    Inv { w with call := .collecting caller 0 } := by
  refine ⟨hw.numbered, ?_⟩
  rcases hw.state with ⟨k, hc⟩ | hb
  · obtain ⟨_, _, rfl⟩ | ⟨_, hi, _⟩ | ⟨_, hg⟩ := hc.phase
    · exact Or.inl ⟨0, ⟨hc.within, hc.released, hc.results, Or.inr (Or.inl ⟨caller, rfl, hget⟩)⟩⟩
    · rw [hidle] at hi
      cases hi
    · rw [hget] at hg
      cases hg
  · exact Or.inr ⟨hb.unfinished, hb.first, Or.inr ⟨caller, rfl⟩⟩

theorem Inv.collected (hw : w.Inv) (hcall : w.call = .collecting caller i) (hend : w.manager.futures[i]? = none) :
    Inv { w with manager := { w.manager with get := true }, call := .idle } := by
  refine ⟨hw.numbered, ?_⟩
  rcases hw.collecting hcall with hc | ⟨hb, rfl⟩
  · exact Or.inl ⟨i, ⟨hc.within, hc.released, hc.results, Or.inr (Or.inr ⟨rfl, rfl⟩)⟩⟩
  · obtain ⟨future, hf, _⟩ := hb.first
    rw [hend] at hf
    cases hf

theorem Inv.took {a : α} (hw : w.Inv) (hcall : w.call = .collecting caller i)
    (hf : w.manager.futures[i]? = some future) (hr : future.released = false)
    (ho : w.outcome future.task = some (.ok a)) :
    Inv { w with
      manager :=
        { w.manager with
          futures := w.manager.futures.set i { future with released := true }
          results := w.manager.results ++ [a] }
      call := .collecting caller (i + 1) } := by
  refine ⟨?_, ?_⟩
  · rw [← hw.numbered]
    simp only [started, map_task_set hf]
  · rcases hw.collecting hcall with hc | ⟨hb, rfl⟩
    · exact Or.inl ⟨i + 1, hc.took hcall hf ho⟩
    · obtain ⟨other, hother, hrel⟩ := hb.first
      rw [hf] at hother
      cases hother
      rw [hr] at hrel
      cases hrel

theorem Inv.threw (hw : w.Inv) (hcall : w.call = .collecting caller i)
    (hf : w.manager.futures[i]? = some future) (hone : w.manager.futures.length = 1) :
    Inv { w with
      manager := { w.manager with futures := w.manager.futures.set i { future with released := true } }
      call := .idle } := by
  refine ⟨?_, Or.inr ?_⟩
  · rw [← hw.numbered]
    simp only [started, map_task_set hf]
  · have hlt := (List.getElem?_eq_some_iff.mp hf).1
    obtain rfl : i = 0 := by omega
    have hunfinished : w.manager.get = false := by
      rcases hw.collecting hcall with hc | ⟨hb, _⟩
      · exact hc.unfinished hcall
      · exact hb.unfinished
    exact ⟨hunfinished, ⟨_, List.getElem?_set_self hlt, rfl⟩, Or.inl rfl⟩

theorem Inv.finished {task : Nat} (hw : w.Inv) (ho : w.outcome task = none) (outcome : Except Exception α) :
    Inv { w with outcome := Function.update w.outcome task (some outcome) } := by
  refine ⟨hw.numbered, ?_⟩
  rcases hw.state with ⟨k, hc⟩ | hb
  · exact Or.inl ⟨k, hc.finished ho outcome⟩
  · exact Or.inr ⟨hb.unfinished, hb.first, hb.phase⟩

end

theorem inv_of_careful {w w' : AsyncWorld α} {label : AsyncLabel α} {o : Option (Handback α)}
    (hw : w.Inv) (h : w.step label = some (w', o)) (hcareful : Careful ⟨w, label, o, w'⟩) : w'.Inv := by
  cases step_cases h with
  | added hidle => exact hw.added
  | launched hidle => exact hw.launched
  | cached caller hidle hget => exact hw
  | entered caller hidle hget => exact hw.entered hidle hget caller
  | collected caller i hcall hend => exact hw.collected hcall hend
  | stuck caller i future hcall hf hr =>
    have hfresh := hcareful.fresh caller i future rfl hcall hf
    rw [hr] at hfresh
    cases hfresh
  | took caller i future a hcall hf hr ho => exact hw.took hcall hf hr ho
  | threw caller i future e hcall hf hr ho => exact hw.threw hcall hf (hcareful.alone caller i future e rfl hcall hf ho)
  | finished task outcome hs ho => exact hw.finished ho outcome

/-- Every handback of a run is complete exactly when each of its steps is careful. -/
theorem getResults_isolated_iff {ts : List (AsyncStep α)} (h : Run.IsRun step start ts) :
    (∀ t ∈ ts, Isolated t) ↔ ∀ t ∈ ts, Careful t :=
  Run.forall_iff_of_invariant (fun _ _ _ _ hw hs => isolated_iff_careful hw hs)
    (fun _ _ _ _ hw hs hc => inv_of_careful hw hs hc) start_inv h

/-- Two tasks are started and one of them throws while the other still runs. -/
def twoTasks (e : Exception) : List (AsyncLabel AsyncResult) :=
  [.addProcess, .addProcess, .startAll, .getResults .user, .finish 0 (.error e), .collect]

def canceled : Exception := .helper ⟨"Operation canceled by user.", 1, false⟩

/-- Two tasks, of which the second returns first, and a getResults that waits for both. -/
def lateFirst (first second : AsyncResult) : List (AsyncLabel AsyncResult) :=
  [.addProcess, .addProcess, .startAll, .getResults .user, .finish 1 (.ok second), .finish 0 (.ok first), .collect,
    .collect, .collect]

def bootSaved : AsyncResult := ⟨"boot.img", true⟩

def superFailed : AsyncResult := ⟨"super", false⟩

def lateFirstRun : List (AsyncStep AsyncResult) := (Run.trace step start (lateFirst bootSaved superFailed)).getD []

/-- No cached answer is given and no exception is met. -/
def undisturbed (t : AsyncStep α) : Bool :=
  match t.label, t.before.call with
  | .getResults _, _ => !t.before.manager.get
  | .collect, .collecting _ i => t.before.manager.futures[i]?.all fun future =>
      !future.released && (t.before.outcome future.task).all Except.isOk
  | _, _ => true

theorem careful_of_undisturbed {t : AsyncStep α} (h : undisturbed t = true) : Careful t := by
  obtain ⟨w, label, o, w'⟩ := t
  have hturn : ∀ caller i future, label = .collect → w.call = .collecting caller i →
      w.manager.futures[i]? = some future → future.released = false ∧
        ∀ e, w.outcome future.task ≠ some (.error e) := by
    intro caller i future hlabel hcall hfuture
    simp only [undisturbed, hlabel, hcall, hfuture, Option.all_some, Bool.and_eq_true, Bool.not_eq_true'] at h
    refine ⟨h.1, fun e he => ?_⟩
    rw [he] at h
    exact nomatch h.2
  refine ⟨fun caller hlabel hget => ?_, fun caller i future hl hc hf => (hturn caller i future hl hc hf).1, ?_⟩
  · dsimp only at hlabel hget
    subst hlabel
    simp [undisturbed, hget] at h
  · intro caller i future e hl hc hf he
    exact absurd he ((hturn caller i future hl hc hf).2 e)

theorem getResults_isolated_late_first :
    (∃ t ∈ lateFirstRun, t.shown.map Handback.outcome = some (.ok [bootSaved, superFailed])) ∧
      ∀ t ∈ lateFirstRun, Isolated t := by
  have hrun : Run.IsRun step start lateFirstRun := Run.isRun_getD_trace rfl
  have hundisturbed : lateFirstRun.all undisturbed = true := by decide
  refine ⟨⟨_, List.mem_of_getLast? rfl, rfl⟩, (getResults_isolated_iff hrun).mpr fun t ht => ?_⟩
  exact careful_of_undisturbed (List.all_eq_true.mp hundisturbed t ht)

/-- The exception of the first task hands control back while the second still runs. -/
theorem getResults_abandons_task : ∃ ts, Run.IsRun step (start : AsyncWorld AsyncResult) ts ∧
    ∃ t ∈ ts, t.shown.map Handback.outcome = some (.error canceled) ∧ 1 ∈ t.after.started ∧
      t.after.outcome 1 = none ∧ ¬ Isolated t := by
  refine ⟨(Run.trace step start (twoTasks canceled)).getD [], Run.isRun_getD_trace rfl, _,
    List.mem_of_getLast? rfl, rfl, by decide, rfl, fun h => ?_⟩
  have hreports := (h.reports ⟨.user, .error canceled⟩ rfl).2
  exact absurd (congrArg List.length hreports) (by decide)

end AsyncWorld

namespace AsyncManager

end AsyncManager

end PartitionManager
