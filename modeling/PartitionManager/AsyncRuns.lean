import PartitionManager.AsyncManager
import PartitionManager.Library.Checks

namespace PartitionManager

namespace AsyncManager

variable {α : Type}

/-- What `operator()` should come to, given what the threads end with in the order of their addition. -/
def answer (view : α → Str × Bool) : Except Exception (List α) → Outcome Bool
  | .error e => .error (.raised e)
  | .ok results =>
    if results.all fun res => (view res).2 then .ok true
    else raise ⟨(results.filter fun res => !(view res).2).flatMap fun res => (view res).1 ++ "\n", 1, false⟩

/-- The rest of `operator()`, once `getResults` has come back. -/
def finish (view : α → Str × Bool) (m : AsyncManager α) (h : Handback α) : Outcome Bool :=
  match h.outcome with
  | .error e => .error (.raised e)
  | .ok _ => m.finalize view

theorem finalize_eq {view : α → Str × Bool} {m : AsyncManager α} (hget : m.get = true) :
    m.finalize view = answer view (.ok m.results) := by
  have hempty : ((m.results.filter fun res => !(view res).2).map fun res => (view res).1 ++ "\n").flatten = [] ↔
      (m.results.all fun res => (view res).2) = true := by
    rw [List.flatten_eq_nil_iff, List.all_eq_true]
    constructor
    · intro h res hres
      by_contra hfailed
      have hmem : (view res).1 ++ "\n".toList ∈
          (m.results.filter fun res => !(view res).2).map fun res => (view res).1 ++ "\n" :=
        List.mem_map.mpr ⟨res, List.mem_filter.mpr ⟨hres, by simpa using hfailed⟩, rfl⟩
      exact absurd (h _ hmem) (by simp)
    · intro h message hmessage
      obtain ⟨res, hres, _⟩ := List.mem_map.mp hmessage
      obtain ⟨hmem, hfailed⟩ := List.mem_filter.mp hres
      simp [h res hmem] at hfailed
  unfold finalize answer
  simp only [hget, Bool.not_true, Bool.false_eq_true, if_false]
  by_cases hall : (m.results.all fun res => (view res).2) = true
  · rw [if_neg (not_not.mpr (hempty.mpr hall)), if_pos hall, hall]
  · rw [if_pos (fun h => hall (hempty.mp h)), if_neg hall]
    rfl

end AsyncManager

namespace AsyncWorld

variable {α : Type}

/-- What can happen once the threads have been started and each task ends with its own outcome. -/
def Ends (outs : Nat → Except Exception α) : AsyncLabel α → Prop
  | .finish task outcome => outcome = outs task
  | .getResults _ => True
  | .collect => True
  | .addProcess => False
  | .startAll => False

/-- The tasks that still run, and the results that are still to be taken. -/
def left (n k : Nat) (w : AsyncWorld α) : Nat :=
  ((List.range n).countP fun task => (w.outcome task).isNone) + (n - k) + if w.call = .idle then 1 else 0

/-- The threads run, and no call of `getResults` has come back. -/
structure Waiting (outs : Nat → Except Exception α) (n k : Nat) (w : AsyncWorld α) : Prop where
  started : w.started = List.range n
  outcome : ∀ task o, w.outcome task = some o → o = outs task
  clean : w.Clean k
  unfinished : w.manager.get = false

/-- All results have been taken. -/
structure Answered (outs : Nat → Except Exception α) (n : Nat) (w : AsyncWorld α) : Prop where
  finished : ∀ task ∈ w.started, w.outcome task ≠ none
  idle : w.call = .idle
  get : w.manager.get = true
  results : (List.range n).mapM outs = .ok w.manager.results

/-- An exception has come out of `getResults`, which can only end in undefined behaviour from now on. -/
structure Spent (w : AsyncWorld α) : Prop where
  unfinished : w.manager.get = false
  first : ∃ future, w.manager.futures[0]? = some future ∧ future.released = true
  phase : ∀ caller i, w.call = .collecting caller i → i = 0

variable {outs : Nat → Except Exception α} {n k : Nat} {w w' : AsyncWorld α} {label : AsyncLabel α}
  {o : Option (Handback α)}

theorem Spent.step (hw : w.Spent) (h : w.step label = some (w', o)) (hends : Ends outs label) :
    o = none ∧ w'.Spent := by
  obtain ⟨first, hfirst, hreleased⟩ := hw.first
  cases step_cases h with
  | added hidle => exact hends.elim
  | launched hidle => exact hends.elim
  | cached caller hidle hget =>
    rw [hw.unfinished] at hget
    cases hget
  | entered caller hidle hget =>
    refine ⟨rfl, hget, hw.first, fun caller' i hcall => ?_⟩
    cases hcall
    rfl
  | collected caller i hcall hend =>
    obtain rfl := hw.phase caller i hcall
    rw [hfirst] at hend
    cases hend
  | stuck caller i future hcall hf hr => exact ⟨rfl, hw.unfinished, hw.first, fun _ _ hcall => nomatch hcall⟩
  | took caller i future a hcall hf hr ho | threw caller i future e hcall hf hr ho =>
    obtain rfl := hw.phase caller i hcall
    rw [hfirst] at hf
    cases hf
    rw [hreleased] at hr
    cases hr
  | finished task outcome hs ho => exact ⟨rfl, hw.unfinished, hw.first, hw.phase⟩

theorem Answered.step (hw : w.Answered outs n) (h : w.step label = some (w', o)) (hends : Ends outs label) :
    (∃ caller, o = some ⟨caller, .ok w'.manager.results⟩) ∧ w'.Answered outs n := by
  cases step_cases h with
  | added hidle => exact hends.elim
  | launched hidle => exact hends.elim
  | cached caller hidle hget => exact ⟨⟨caller, rfl⟩, hw⟩
  | entered caller hidle hget =>
    rw [hw.get] at hget
    cases hget
  | collected caller i hcall hend | stuck caller i future hcall hf hr | took caller i future a hcall hf hr ho
  | threw caller i future e hcall hf hr ho =>
    rw [hw.idle] at hcall
    cases hcall
  | finished task outcome hs ho => exact absurd ho (hw.finished task hs)

namespace Waiting

variable (hw : w.Waiting outs n k)

include hw

theorem length : w.manager.futures.length = n := by
  rw [← started_length, hw.started, List.length_range]

theorem taken : List.Forall₂ (fun task a => outs task = .ok a) ((List.range n).take k) w.manager.results := by
  have hresults : List.Forall₂ (fun task a => w.outcome task = some (.ok a)) ((List.range n).take k)
      w.manager.results := by
    have heq := hw.clean.results
    rw [hw.started, ← List.forall₂_eq_eq_eq, List.forall₂_map_left_iff, List.forall₂_map_right_iff] at heq
    exact heq
  exact hresults.imp fun task a h => (hw.outcome task _ h).symm

/-- The future waited for is the one of the task with its number. -/
theorem task {future : Future} (hf : w.manager.futures[k]? = some future) : future.task = k ∧ k < n := by
  have hlt := (List.getElem?_eq_some_iff.mp hf).1
  rw [hw.length] at hlt
  have hat : w.started[k]? = some future.task := by
    simp only [AsyncWorld.started, List.getElem?_map, hf, Option.map_some]
  rw [hw.started, List.getElem?_range hlt] at hat
  exact ⟨(Option.some.inj hat).symm, hlt⟩

theorem collecting {caller : Caller} {i : Nat} (hcall : w.call = .collecting caller i) : i = k := by
  rcases hw.clean.phase with ⟨hi, _⟩ | ⟨_, hi, _⟩ | ⟨hi, _⟩
  · rw [hi] at hcall
    cases hcall
  · rw [hi] at hcall
    cases hcall
    rfl
  · rw [hi] at hcall
    cases hcall

end Waiting

/-- A task that ends was counted among those that run. -/
theorem countP_finished {outcome : Nat → Option (Except Exception α)} {task : Nat} (result : Except Exception α)
    (htask : task < n) (hnone : outcome task = none) :
    ((List.range n).countP fun other => (Function.update outcome task (some result) other).isNone) + 1 =
      (List.range n).countP fun other => (outcome other).isNone := by
  obtain ⟨before, after, hsplit⟩ := List.append_of_mem (List.mem_range.mpr htask)
  have hnodup : (before ++ task :: after).Nodup := hsplit ▸ List.nodup_range
  have hothers : ∀ other ∈ before ++ after, Function.update outcome task (some result) other = outcome other := by
    intro other hmem
    refine Function.update_of_ne ?_ _ _
    rintro rfl
    rw [List.nodup_append, List.nodup_cons] at hnodup
    rcases List.mem_append.mp hmem with hbefore | hafter
    · exact hnodup.2.2 other hbefore other List.mem_cons_self rfl
    · exact hnodup.2.1.1 hafter
  rw [hsplit, List.countP_append, List.countP_append, List.countP_cons, List.countP_cons, Function.update_self, hnone]
  have hbefore : before.countP (fun other => (Function.update outcome task (some result) other).isNone) =
      before.countP fun other => (outcome other).isNone :=
    List.countP_congr fun other hmem => by rw [hothers other (List.mem_append_left _ hmem)]
  have hafter : after.countP (fun other => (Function.update outcome task (some result) other).isNone) =
      after.countP fun other => (outcome other).isNone :=
    List.countP_congr fun other hmem => by rw [hothers other (List.mem_append_right _ hmem)]
  rw [hbefore, hafter]
  simp only [Option.isNone_some, Option.isNone_none, Bool.false_eq_true, if_false, if_true]
  omega

/-- The world once the result of a future has been taken. -/
def taking (w : AsyncWorld α) (caller : Caller) (i : Nat) (future : Future) (a : α) : AsyncWorld α :=
  { w with
    manager :=
      { w.manager with
        futures := w.manager.futures.set i { future with released := true }
        results := w.manager.results ++ [a] }
    call := .collecting caller (i + 1) }

namespace Waiting

variable (hw : w.Waiting outs n k) {caller : Caller} {i : Nat} {future : Future}

include hw

theorem entered (caller : Caller) (hidle : w.call = .idle) (hget : w.manager.get = false) :
    ∃ k', Waiting outs n k' { w with call := .collecting caller 0 } ∧
      left n k' { w with call := .collecting caller 0 } + 1 = left n k w := by
  obtain ⟨_, _, rfl⟩ | ⟨_, hi, _⟩ | ⟨_, hg⟩ := hw.clean.phase
  · have hclean := hw.clean
    refine ⟨0, ⟨hw.started, hw.outcome, ⟨hclean.within, hclean.released, hclean.results,
      Or.inr (Or.inl ⟨caller, rfl, hget⟩)⟩, hget⟩, ?_⟩
    simp [left, hidle]
  · rw [hidle] at hi
    cases hi
  · rw [hget] at hg
    cases hg

/-- When there is no further future, every task has ended with a result. -/
theorem collected (hcall : w.call = .collecting caller i) (hend : w.manager.futures[i]? = none) :
    Answered outs n { w with manager := { w.manager with get := true }, call := .idle } := by
  obtain rfl := hw.collecting hcall
  have hle := List.getElem?_eq_none_iff.mp hend
  rw [hw.length] at hle
  have htaken := hw.taken
  rw [List.take_of_length_le (by rw [List.length_range]; exact hle)] at htaken
  refine ⟨fun task hmem hnone => ?_, rfl, rfl, Checks.mapM_ok_iff.mpr htaken⟩
  have hresults := hw.clean.results
  rw [List.take_of_length_le (by rw [hw.started, List.length_range]; exact hle)] at hresults
  have houtcome : w.outcome task ∈ w.started.map w.outcome := List.mem_map_of_mem hmem
  rw [hresults] at houtcome
  obtain ⟨a, _, ha⟩ := List.mem_map.mp houtcome
  rw [hnone] at ha
  cases ha

theorem took {a : α} (hcall : w.call = .collecting caller i) (hf : w.manager.futures[i]? = some future)
    (ho : w.outcome future.task = some (.ok a)) :
    ∃ k', Waiting outs n k' (w.taking caller i future a) ∧ left n k' (w.taking caller i future a) + 1 = left n k w := by
  obtain rfl := hw.collecting hcall
  obtain ⟨_, hlt⟩ := hw.task hf
  refine ⟨i + 1, ⟨?_, hw.outcome, hw.clean.took hcall hf ho, hw.unfinished⟩, ?_⟩
  · rw [← hw.started]
    exact map_task_set hf
  · simp only [left, taking, hcall, reduceCtorEq, if_false]
    omega

/-- The exception is the one of the first task that ends with one. -/
theorem mapM_threw {e : Exception} (hcall : w.call = .collecting caller i) (hf : w.manager.futures[i]? = some future)
    (ho : w.outcome future.task = some (.error e)) : (List.range n).mapM outs = .error e := by
  obtain rfl := hw.collecting hcall
  obtain ⟨htask, hlt⟩ := hw.task hf
  have hout : outs i = .error e := by rw [← htask, ← hw.outcome _ _ ho]
  have hsplit : List.range n = (List.range n).take i ++ i :: (List.range n).drop (i + 1) := by
    have hdrop := List.drop_eq_getElem_cons (l := List.range n) (i := i) (by rw [List.length_range]; exact hlt)
    rw [List.getElem_range] at hdrop
    rw [← hdrop, List.take_append_drop]
  rw [hsplit]
  exact Checks.mapM_error_of hw.taken hout

/-- The first future has given its result away then. -/
theorem first_released (hcall : w.call = .collecting caller i) (hf : w.manager.futures[i]? = some future) :
    ∃ first, (w.manager.futures.set i { future with released := true })[0]? = some first ∧ first.released = true := by
  obtain rfl := hw.collecting hcall
  have hbound := (List.getElem?_eq_some_iff.mp hf).1
  by_cases hi : i = 0
  · subst hi
    exact ⟨_, List.getElem?_set_self hbound, rfl⟩
  · obtain ⟨first, hfirst⟩ : ∃ first, w.manager.futures[0]? = some first := ⟨_, List.getElem?_eq_getElem (by omega)⟩
    refine ⟨first, ?_, (hw.clean.released 0 first hfirst).mpr (by omega)⟩
    rw [List.getElem?_set_ne hi, hfirst]

theorem finished {task : Nat} (hs : task ∈ w.started) (ho : w.outcome task = none) :
    Waiting outs n k { w with outcome := Function.update w.outcome task (some (outs task)) } ∧
      left n k { w with outcome := Function.update w.outcome task (some (outs task)) } + 1 = left n k w := by
  have htask : task < n := by
    rw [hw.started] at hs
    exact List.mem_range.mp hs
  refine ⟨⟨hw.started, fun other result hresult => ?_, hw.clean.finished ho (outs task), hw.unfinished⟩, ?_⟩
  · dsimp only at hresult
    by_cases hother : other = task
    · subst hother
      rw [Function.update_self] at hresult
      cases hresult
      rfl
    · rw [Function.update_of_ne hother] at hresult
      exact hw.outcome other result hresult
  · have hcount := countP_finished (outs task) htask ho
    simp only [left] at hcount ⊢
    omega

/-- One step while `getResults` has not come back. -/
theorem step (h : w.step label = some (w', o)) (hends : Ends outs label) :
    (o = none ∧ ∃ k', w'.Waiting outs n k' ∧ left n k' w' + 1 = left n k w) ∨
    (∃ caller, o = some ⟨caller, .ok w'.manager.results⟩ ∧ w'.Answered outs n) ∨
    ∃ caller e, o = some ⟨caller, .error e⟩ ∧ (List.range n).mapM outs = .error e ∧ w'.Spent := by
  cases step_cases h with
  | added hidle => exact hends.elim
  | launched hidle => exact hends.elim
  | cached caller hidle hget =>
    rw [hw.unfinished] at hget
    cases hget
  | entered caller hidle hget => exact Or.inl ⟨rfl, hw.entered caller hidle hget⟩
  | collected caller i hcall hend => exact Or.inr (Or.inl ⟨caller, rfl, hw.collected hcall hend⟩)
  | stuck caller i future hcall hf hr =>
    obtain rfl := hw.collecting hcall
    exact absurd ((hw.clean.released i future hf).mp hr) (Nat.lt_irrefl i)
  | took caller i future a hcall hf hr ho => exact Or.inl ⟨rfl, hw.took hcall hf ho⟩
  | threw caller i future e hcall hf hr ho =>
    exact Or.inr (Or.inr ⟨caller, e, rfl, hw.mapM_threw hcall hf ho, hw.unfinished, hw.first_released hcall hf,
      fun _ _ hcall => nomatch hcall⟩)
  | finished task outcome hs ho =>
    obtain rfl : outcome = outs task := hends
    exact Or.inl ⟨rfl, k, hw.finished hs ho⟩

end Waiting

/-- The manager after `n` tasks have been added and started. -/
def launched (n : Nat) : AsyncWorld α where
  manager := ⟨[], (List.range n).map fun task => ⟨task, false⟩, [], false⟩
  added := n
  outcome _ := none
  call := .idle

theorem launched_waiting (outs : Nat → Except Exception α) (n : Nat) : (launched n).Waiting outs n 0 := by
  refine ⟨?_, fun task o h => (nomatch h), ⟨Nat.zero_le _, ?_, rfl, Or.inl ⟨rfl, rfl, rfl⟩⟩, rfl⟩
  · simp [started, launched, Function.comp_def]
  · intro i future hf
    obtain ⟨task, _, rfl⟩ := Option.map_eq_some_iff.mp (List.getElem?_map.symm.trans hf)
    simp

theorem launched_left (n : Nat) : left n 0 (launched n : AsyncWorld α) = 2 * n + 1 := by
  have hcount : ((List.range n).countP fun task => ((launched n : AsyncWorld α).outcome task).isNone) = n := by
    have hall := List.countP_eq_length (p := fun task => ((launched n : AsyncWorld α).outcome task).isNone)
      (l := List.range n)
    rw [hall.mpr fun task _ => rfl, List.length_range]
  simp only [left, hcount]
  simp [launched]
  omega

/-- The manager after `n` tasks have been added. -/
def loaded (n : Nat) : AsyncWorld α := ⟨⟨List.range n, [], [], false⟩, n, fun _ => none, .idle⟩

/-- Adding tasks one after the other and starting them. -/
theorem last_of_setup {m : Nat} {setup : List (AsyncStep α)} (hrun : Run.IsRun step (loaded m) setup)
    (hsetup : setup.map Run.Transition.label = List.replicate n .addProcess ++ [.startAll]) :
    Run.last (loaded m) setup = launched (m + n) := by
  induction n generalizing m setup with
  | zero =>
    obtain ⟨t, rfl, hlabel⟩ := List.map_eq_singleton_iff.mp hsetup
    obtain ⟨_, hstep, _⟩ := Run.isRun_cons hrun
    rw [hlabel] at hstep
    have hafter : t.after = launched m := (congrArg Prod.fst (Option.some.inj hstep)).symm
    rw [Run.last_cons, hafter]
    rfl
  | succ n ih =>
    rw [List.replicate_succ, List.cons_append] at hsetup
    obtain ⟨t, rest, rfl, hlabel, hlabels⟩ := List.map_eq_cons_iff.mp hsetup
    obtain ⟨_, hstep, hrest⟩ := Run.isRun_cons hrun
    rw [hlabel] at hstep
    have hafter : t.after = loaded (m + 1) := by
      have heq : _ = t.after := congrArg Prod.fst (Option.some.inj hstep)
      rw [← heq]
      simp only [loaded, AsyncManager.addProcess, List.range_succ]
    rw [hafter] at hrest
    rw [Run.last_cons, hafter, ih hrest hlabels]
    congr 1
    omega

/-- Before the first handback, in the middle of a run of `n` tasks. -/
theorem waiting_of_run (hw : w.Waiting outs n k) {ts : List (AsyncStep α)} (hrun : Run.IsRun step w ts)
    (hends : ∀ t ∈ ts, Ends outs t.label) (hnone : ∀ t ∈ ts, t.shown = none) :
    ∃ k', (Run.last w ts).Waiting outs n k' ∧ ts.length + left n k' (Run.last w ts) = left n k w := by
  induction hrun generalizing k with
  | stop s => exact ⟨k, hw, Nat.zero_add _⟩
  | @step s s' l o ts hstep rest ih =>
    rw [List.forall_mem_cons] at hends hnone
    rcases hw.step hstep hends.1 with ⟨_, k', hnext, hleft⟩ | ⟨caller, hshown, _⟩ | ⟨caller, e, hshown, _⟩
    · obtain ⟨k'', hlast, hlength⟩ := ih hnext hends.2 hnone.2
      rw [Run.last_cons, List.length_cons]
      dsimp only
      exact ⟨k'', hlast, by omega⟩
    · cases hnone.1.symm.trans hshown
    · cases hnone.1.symm.trans hshown

/-- While `getResults` has not come back, something can go on. -/
theorem Waiting.exists_step (hw : w.Waiting outs n k) :
    ∃ label, (AsyncWorld.step w label).isSome = true ∧ Ends outs label := by
  rcases hw.clean.phase with ⟨hidle, hget, _⟩ | ⟨caller, hcall, hget⟩ | ⟨_, hget⟩
  · refine ⟨.getResults .operator, ?_, trivial⟩
    simp [AsyncWorld.step, hidle, hget]
  · cases hf : w.manager.futures[k]? with
    | none =>
      refine ⟨.collect, ?_, trivial⟩
      simp [AsyncWorld.step, hcall, collectStep, hf]
    | some future =>
      have hreleased : future.released = false := by
        have hiff := hw.clean.released k future hf
        simpa using hiff
      cases ho : w.outcome future.task with
      | some result =>
        refine ⟨.collect, ?_, trivial⟩
        cases result with
        | ok a => simp [AsyncWorld.step, hcall, collectStep, hf, hreleased, ho]
        | error e => simp [AsyncWorld.step, hcall, collectStep, hf, hreleased, ho]
      | none =>
        have hmem : future.task ∈ w.started := List.mem_map_of_mem (List.mem_of_getElem? hf)
        refine ⟨.finish future.task (outs future.task), ?_, rfl⟩
        simp only [AsyncWorld.step]
        rw [if_pos ⟨hmem, ho⟩]
        rfl
  · rw [hw.unfinished] at hget
    cases hget

/-- So it comes back in the end. -/
theorem Waiting.comes_back (hw : w.Waiting outs n k) : ∃ more : List (AsyncStep α), Run.IsRun AsyncWorld.step w more ∧
    (∀ t ∈ more, Ends outs t.label) ∧ ∃ t ∈ more, t.shown ≠ none := by
  induction hleft : left n k w using Nat.strongRecOn generalizing k w with
  | ind m ih =>
    obtain ⟨label, hsome, hends⟩ := hw.exists_step
    obtain ⟨⟨w', o⟩, hstep⟩ := Option.isSome_iff_exists.mp hsome
    rcases hw.step hstep hends with ⟨_, k', hnext, hless⟩ | ⟨caller, rfl, _⟩ | ⟨caller, e, rfl, _⟩
    · obtain ⟨more, hrun, hall, t, hmem, hshown⟩ := ih (left n k' w') (by omega) hnext rfl
      exact ⟨⟨w, label, o, w'⟩ :: more, .step hstep hrun, List.forall_mem_cons.mpr ⟨hends, hall⟩, t,
        List.mem_cons_of_mem _ hmem, hshown⟩
    · exact ⟨[⟨w, label, _, w'⟩], .step hstep (.stop _), List.forall_mem_singleton.mpr hends, _,
        List.mem_singleton.mpr rfl, nofun⟩
    · exact ⟨[⟨w, label, _, w'⟩], .step hstep (.stop _), List.forall_mem_singleton.mpr hends, _,
        List.mem_singleton.mpr rfl, nofun⟩

/-- What every handback of a run tells. -/
def Tells (view : α → Str × Bool) (outs : Nat → Except Exception α) (n : Nat) (t : AsyncStep α) : Prop :=
  ∀ h, t.shown = some h →
    h.outcome = (List.range n).mapM outs ∧
      t.after.manager.finish view h = AsyncManager.answer view ((List.range n).mapM outs)

theorem tells_of_results {view : α → Str × Bool} {t : AsyncStep α} {caller : Caller}
    (hshown : t.shown = some ⟨caller, .ok t.after.manager.results⟩) (hafter : t.after.Answered outs n) :
    Tells view outs n t := by
  intro h hh
  cases hshown.symm.trans hh
  refine ⟨hafter.results.symm, ?_⟩
  rw [hafter.results]
  exact AsyncManager.finalize_eq hafter.get

theorem tells_of_run (view : α → Str × Bool) (hw : (∃ k, w.Waiting outs n k) ∨ w.Answered outs n ∨ w.Spent)
    {ts : List (AsyncStep α)} (hrun : Run.IsRun step w ts) (hends : ∀ t ∈ ts, Ends outs t.label) :
    ∀ t ∈ ts, Tells view outs n t := by
  refine @Run.forall_of_careful _ _ _ _ (fun w => (∃ k, w.Waiting outs n k) ∨ w.Answered outs n ∨ w.Spent)
    (fun _ label => Ends outs label) _ ?_ _ _ hw hrun hends
  rintro w label o w' (⟨k, hw⟩ | hw | hw) hstep hlabel
  · rcases hw.step hstep hlabel with ⟨rfl, k', hnext, _⟩ | ⟨caller, rfl, hnext⟩ | ⟨caller, e, rfl, herror, hnext⟩
    · exact ⟨fun h hh => (nomatch hh), Or.inl ⟨k', hnext⟩⟩
    · exact ⟨tells_of_results rfl hnext, Or.inr (Or.inl hnext)⟩
    · refine ⟨fun h hh => ?_, Or.inr (Or.inr hnext)⟩
      cases hh
      rw [herror]
      exact ⟨rfl, rfl⟩
  · obtain ⟨⟨caller, rfl⟩, hnext⟩ := hw.step hstep hlabel
    exact ⟨tells_of_results rfl hnext, Or.inr (Or.inl hnext)⟩
  · obtain ⟨rfl, hnext⟩ := hw.step hstep hlabel
    exact ⟨fun h hh => (nomatch hh), Or.inr (Or.inr hnext)⟩

/-- When `n` tasks have been started, the order in which their threads end makes no difference:
`operator()` comes back after at most `2 * n + 2` steps with the answer that the outcomes have in
the order of their addition. -/
theorem operator_in_any_order {outs : Nat → Except Exception α} {n : Nat} {setup ts : List (AsyncStep α)}
    (view : α → Str × Bool) (hrun : Run.IsRun step start (setup ++ ts))
    (hsetup : setup.map Run.Transition.label = List.replicate n .addProcess ++ [.startAll])
    (hends : ∀ t ∈ ts, Ends outs t.label) :
    (∀ t ∈ ts, Tells view outs n t) ∧
      ((∀ t ∈ ts, t.shown = none) → ts.length ≤ 2 * n + 1 ∧
        ∃ more, Run.IsRun step start (setup ++ ts ++ more) ∧ (∀ t ∈ more, Ends outs t.label) ∧
          ∃ t ∈ more, t.shown ≠ none) := by
  obtain ⟨hfirst, hlater⟩ := Run.isRun_append hrun
  have hlast : Run.last start setup = launched n := by
    have h := last_of_setup (m := 0) hfirst hsetup
    rwa [Nat.zero_add] at h
  rw [hlast] at hlater
  have hwaiting := launched_waiting outs n
  refine ⟨tells_of_run view (Or.inl ⟨0, hwaiting⟩) hlater hends, fun hnone => ?_⟩
  obtain ⟨k, hstill, hlength⟩ := waiting_of_run hwaiting hlater hends hnone
  rw [launched_left] at hlength
  obtain ⟨more, hmore, hall, hshown⟩ := hstill.comes_back
  refine ⟨by omega, more, ?_, hall, hshown⟩
  rw [List.append_assoc]
  refine hfirst.append ?_
  rw [hlast]
  exact hlater.append hmore

/-- The second of two tasks fails, and ends first. -/
def lateFailure : Nat → Except Exception AsyncResult
  | 0 => .ok (.Success "boot has been written.")
  | _ => .ok (.Error "Failed to open system.")

theorem operator_in_any_order_two : ∃ setup ts : List (AsyncStep AsyncResult),
    Run.IsRun step start (setup ++ ts) ∧ (∀ t ∈ ts, Tells (fun r => (r.message, r.result)) lateFailure 2 t) ∧
    ∃ t ∈ ts, ∃ h, t.shown = some h ∧ t.after.manager.finish (fun r => (r.message, r.result)) h =
      raise ⟨"Failed to open system.\n", 1, false⟩ := by
  let labels : List (AsyncLabel AsyncResult) := [.finish 1 (lateFailure 1), .getResults .operator,
    .finish 0 (lateFailure 0), .collect, .collect, .collect]
  let ts := (Run.trace step (launched 2) labels).getD []
  have hrun : Run.IsRun step start ((Run.trace step start [.addProcess, .addProcess, .startAll]).getD [] ++ ts) :=
    (Run.isRun_getD_trace rfl).append (Run.isRun_getD_trace rfl)
  have hlabels : ts.map Run.Transition.label = labels := rfl
  have hends : ∀ label ∈ labels, Ends lateFailure label := by
    simp [labels, Ends]
  have hall : ∀ t ∈ ts, Ends lateFailure t.label := fun t ht => hends t.label (hlabels ▸ List.mem_map_of_mem ht)
  have htells := (operator_in_any_order (n := 2) (fun r => (r.message, r.result)) hrun rfl hall).1
  have hmem : ts[5] ∈ ts := List.getElem_mem _
  refine ⟨_, ts, hrun, htells, ts[5], hmem, ⟨.operator, _⟩, rfl, ?_⟩
  exact (htells ts[5] hmem _ rfl).2

end AsyncWorld

end PartitionManager
