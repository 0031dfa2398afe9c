import Mathlib.Data.List.Basic
import Mathlib.Data.List.Induction

namespace Run

/-- One step of a labelled system, and what it shows outside. -/
structure Transition (σ ℓ ο : Type) where
  before : σ
  label : ℓ
  shown : ο
  after : σ

variable {σ ℓ ο : Type} (step : σ → ℓ → Option (σ × ο))

/-- The transitions of a run that starts in a given state. -/
inductive IsRun : σ → List (Transition σ ℓ ο) → Prop
  | stop (s : σ) : IsRun s []
  | step {s s' : σ} {l : ℓ} {o : ο} {ts : List (Transition σ ℓ ο)} (h : step s l = some (s', o))
    (rest : IsRun s' ts) : IsRun s (⟨s, l, o, s'⟩ :: ts)

/-- The run that takes the given labels one by one. -/
def trace : σ → List ℓ → Option (List (Transition σ ℓ ο))
  | _, [] => some []
  | s, l :: ls =>
    match step s l with
    | none => none
    | some (s', o) => (trace s' ls).map (⟨s, l, o, s'⟩ :: ·)

variable {step}

theorem isRun_of_trace {s : σ} {ls : List ℓ} {ts : List (Transition σ ℓ ο)}
    (h : trace step s ls = some ts) : IsRun step s ts := by
  induction ls generalizing s ts with
  | nil =>
    cases h
    exact .stop s
  | cons l ls ih =>
    unfold trace at h
    split at h
    next => cases h
    next s' o hstep =>
      obtain ⟨rest, hrest, rfl⟩ := Option.map_eq_some_iff.mp h
      exact .step hstep (ih hrest)

theorem isRun_getD_trace {s : σ} {ls : List ℓ} (h : (trace step s ls).isSome = true) :
    IsRun step s ((trace step s ls).getD []) := by
  obtain ⟨ts, hts⟩ := Option.isSome_iff_exists.mp h
  rw [hts]
  exact isRun_of_trace hts

/-- Two conditions on single steps that agree wherever an invariant holds, and
of which the second keeps the invariant, agree on whole runs. -/
theorem forall_iff_of_invariant {Inv : σ → Prop} {Good Careful : Transition σ ℓ ο → Prop}
    (agree : ∀ s l o s', Inv s → step s l = some (s', o) →
      (Good ⟨s, l, o, s'⟩ ↔ Careful ⟨s, l, o, s'⟩))
    (keep : ∀ s l o s', Inv s → step s l = some (s', o) → Careful ⟨s, l, o, s'⟩ → Inv s')
    {s : σ} {ts : List (Transition σ ℓ ο)} (hs : Inv s) (hrun : IsRun step s ts) :
    (∀ t ∈ ts, Good t) ↔ ∀ t ∈ ts, Careful t := by
  induction hrun with
  | stop s => simp
  | step h rest ih =>
    have hone := agree _ _ _ _ hs h
    rw [List.forall_mem_cons, List.forall_mem_cons, hone]
    apply and_congr_right
    intro hc
    exact ih (keep _ _ _ _ hs h hc)

/-- What careful steps do, if they keep an invariant, every step of a careful run does. -/
theorem forall_of_careful {Inv : σ → Prop} {Careful : σ → ℓ → Prop} {Good : Transition σ ℓ ο → Prop}
    (keep : ∀ s l o s', Inv s → step s l = some (s', o) → Careful s l → Good ⟨s, l, o, s'⟩ ∧ Inv s')
    {s : σ} {ts : List (Transition σ ℓ ο)} (hs : Inv s) (hrun : IsRun step s ts)
    (hcareful : ∀ t ∈ ts, Careful t.before t.label) : ∀ t ∈ ts, Good t := by
  induction hrun with
  | stop s => simp
  | step h rest ih =>
    rw [List.forall_mem_cons] at hcareful ⊢
    obtain ⟨hgood, hnext⟩ := keep _ _ _ _ hs h hcareful.1
    exact ⟨hgood, ih hnext hcareful.2⟩

/-- An invariant that careful steps keep holds after every step of a careful run. -/
theorem after_of_careful {Inv : σ → Prop} {Careful : σ → ℓ → Prop}
    (keep : ∀ s l o s', Inv s → step s l = some (s', o) → Careful s l → Inv s')
    {s : σ} {ts : List (Transition σ ℓ ο)} (hs : Inv s) (hrun : IsRun step s ts)
    (hcareful : ∀ t ∈ ts, Careful t.before t.label) : ∀ t ∈ ts, Inv t.after := by
  refine @forall_of_careful _ _ _ _ Inv Careful (fun t => Inv t.after) ?_ _ _ hs hrun hcareful
  intro s l o s' hs h hc
  have hnext := keep s l o s' hs h hc
  exact ⟨hnext, hnext⟩

/-- The invariant rule for runs. -/
theorem forall_of_invariant {Inv : σ → Prop} {Good : Transition σ ℓ ο → Prop}
    (keep : ∀ s l o s', Inv s → step s l = some (s', o) → Good ⟨s, l, o, s'⟩ ∧ Inv s')
    {s : σ} {ts : List (Transition σ ℓ ο)} (hs : Inv s) (hrun : IsRun step s ts) :
    ∀ t ∈ ts, Good t :=
  forall_of_careful (fun s l o s' hs h (_ : True) => keep s l o s' hs h) hs hrun fun _ _ => trivial

/-- The state a run ends in. -/
def last (s : σ) (ts : List (Transition σ ℓ ο)) : σ := (ts.getLast?.map Transition.after).getD s

theorem last_cons (s : σ) (t : Transition σ ℓ ο) (ts : List (Transition σ ℓ ο)) :
    last s (t :: ts) = last t.after ts := by
  cases ts with
  | nil => rfl
  | cons t' ts =>
    unfold last
    rw [List.getLast?_cons_cons, List.getLast?_cons]
    rfl

/-- An invariant that careful steps keep holds at the end of a careful run. -/
theorem last_of_careful {Inv : σ → Prop} {Careful : σ → ℓ → Prop}
    (keep : ∀ s l o s', Inv s → step s l = some (s', o) → Careful s l → Inv s')
    {s : σ} {ts : List (Transition σ ℓ ο)} (hs : Inv s) (hrun : IsRun step s ts)
    (hcareful : ∀ t ∈ ts, Careful t.before t.label) : Inv (last s ts) := by
  induction hrun with
  | stop s => exact hs
  | step h rest ih =>
    rw [List.forall_mem_cons] at hcareful
    rw [last_cons]
    exact ih (keep _ _ _ _ hs h hcareful.1) hcareful.2

theorem isRun_cons {s : σ} {t : Transition σ ℓ ο} {ts : List (Transition σ ℓ ο)} (h : IsRun step s (t :: ts)) :
    t.before = s ∧ step s t.label = some (t.after, t.shown) ∧ IsRun step t.after ts := by
  cases h with
  | step h rest => exact ⟨rfl, h, rest⟩

/-- Every transition of a run is a step. -/
theorem step_of_mem {s : σ} {ts : List (Transition σ ℓ ο)} (h : IsRun step s ts) :
    ∀ t ∈ ts, step t.before t.label = some (t.after, t.shown) := by
  induction h with
  | stop s => simp
  | step h rest ih =>
    rw [List.forall_mem_cons]
    exact ⟨h, ih⟩

theorem isRun_append {s : σ} {ts ts' : List (Transition σ ℓ ο)} (h : IsRun step s (ts ++ ts')) :
    IsRun step s ts ∧ IsRun step (last s ts) ts' := by
  induction ts generalizing s with
  | nil => exact ⟨.stop s, h⟩
  | cons t ts ih =>
    obtain ⟨hbefore, hstep, hrest⟩ := isRun_cons h
    obtain ⟨hfirst, hsecond⟩ := ih hrest
    subst hbefore
    refine ⟨.step hstep hfirst, ?_⟩
    rwa [last_cons]

theorem IsRun.append {s : σ} {ts ts' : List (Transition σ ℓ ο)} (h : IsRun step s ts)
    (hlater : IsRun step (last s ts) ts') : IsRun step s (ts ++ ts') := by
  induction h with
  | stop s => exact hlater
  | step hstep rest ih =>
    rw [last_cons] at hlater
    exact .step hstep (ih hlater)

theorem last_concat (s : σ) (ts : List (Transition σ ℓ ο)) (t : Transition σ ℓ ο) : last s (ts ++ [t]) = t.after := by
  unfold last
  rw [List.getLast?_concat]
  rfl

/-- What a run has shown: its labels with their answers, the newest first. -/
def log (ts : List (Transition σ ℓ ο)) : List (ℓ × ο) := (ts.map fun t => (t.label, t.shown)).reverse

/-- An invariant of a state and of what the run has shown so far holds before every step. -/
theorem before_of_log {Inv : List (ℓ × ο) → σ → Prop} {s : σ} {ts : List (Transition σ ℓ ο)}
    (start : Inv [] s)
    (keep : ∀ shown v l o v', Inv shown v → step v l = some (v', o) → Inv ((l, o) :: shown) v')
    (hrun : IsRun step s ts) {earlier later : List (Transition σ ℓ ο)} {t : Transition σ ℓ ο}
    (hts : ts = earlier ++ t :: later) : Inv (log earlier) t.before ∧ step t.before t.label = some (t.after, t.shown) := by
  subst hts
  obtain ⟨hearlier, hrest⟩ := isRun_append hrun
  obtain ⟨hbefore, hstep, _⟩ := isRun_cons hrest
  rw [hbefore]
  refine ⟨?_, hstep⟩
  clear hrun hrest hbefore hstep
  -- the invariant is carried from the first step on
  induction earlier using List.reverseRecOn with
  | nil => exact start
  | append_singleton earlier u ih =>
    obtain ⟨hfirst, hlast⟩ := isRun_append hearlier
    obtain ⟨hbefore, hstep, _⟩ := isRun_cons hlast
    have hlog : log (earlier ++ [u]) = (u.label, u.shown) :: log earlier := by
      unfold log
      rw [List.map_append, List.reverse_append]
      rfl
    rw [last_concat, hlog]
    exact keep _ _ _ _ _ (ih hfirst) hstep

/-- What no step changes is the same in the end. -/
theorem last_of_kept {γ : Type} (f : σ → γ) {s : σ} {ts : List (Transition σ ℓ ο)} (h : IsRun step s ts)
    (hkept : ∀ t ∈ ts, f t.after = f t.before) : f (last s ts) = f s := by
  induction h with
  | stop s => rfl
  | @step s s' l o ts hstep rest ih =>
    rw [List.forall_mem_cons] at hkept
    rw [last_cons]
    exact (ih hkept.2).trans hkept.1

/-- And at every point before it. -/
theorem after_of_kept {γ : Type} (f : σ → γ) {s : σ} {ts : List (Transition σ ℓ ο)} (h : IsRun step s ts)
    (hkept : ∀ t ∈ ts, f t.after = f t.before) : ∀ t ∈ ts, f t.after = f s := by
  induction h with
  | stop s => simp
  | @step s s' l o ts hstep rest ih =>
    rw [List.forall_mem_cons] at hkept ⊢
    exact ⟨hkept.1, fun t ht => (ih hkept.2 t ht).trans hkept.1⟩

end Run
