import Mathlib.Algebra.Order.Ring.Nat
import Mathlib.Data.List.Count
import Mathlib.Data.List.Induction
import Mathlib.Data.Nat.Find
import Mathlib.Data.Set.Basic
import Mathlib.Logic.Function.Basic
import PartitionManager.Library.Loop

namespace Workers

open Loop

variable {ι κ σ ρ : Type} {β : κ → Type}

/-- A shared store of cells, and where each worker stands: before another turn, or done. -/
structure Pool (ι σ ρ : Type) {κ : Type} (β : κ → Type) where
  store : (c : κ) → β c
  worker : ι → Turn σ ρ

def paired (store : (c : κ) → β c) : Turn σ ρ → Turn (((c : κ) → β c) × σ) (((c : κ) → β c) × ρ)
  | .again s => .again (store, s)
  | .leave r => .leave (store, r)

section

variable (turn : ι → ((c : κ) → β c) → σ → ((c : κ) → β c) × Turn σ ρ)

/-- The loop of one worker that has the store to itself. -/
def alone (i : ι) (s : ((c : κ) → β c) × σ) : Turn (((c : κ) → β c) × σ) (((c : κ) → β c) × ρ) :=
  paired (turn i s.1 s.2).1 (turn i s.1 s.2).2

/-- One turn of the `i`-th worker; there is none once it is done. -/
def step [DecidableEq ι] (pool : Pool ι σ ρ β) (i : ι) : Option (Pool ι σ ρ β) :=
  match pool.worker i with
  | .leave _ => none
  | .again s =>
    some ⟨(turn i pool.store s).1, Function.update pool.worker i (turn i pool.store s).2⟩

/-- The workers take turns in the given order. -/
def exec [DecidableEq ι] (pool : Pool ι σ ρ β) (schedule : List ι) : Option (Pool ι σ ρ β) :=
  schedule.foldlM (step turn) pool

/-- From a state it can be in, each worker looks at the cells it reads and changes
those it writes, and gets to another such state. -/
structure Confined (inv : ι → σ → Prop) (reads writes : ι → Set κ) : Prop where
  subset : ∀ i, writes i ⊆ reads i
  kept : ∀ i store s s', inv i s → (turn i store s).2 = .again s' → inv i s'
  frame : ∀ i store s, inv i s → ∀ c ∉ writes i, (turn i store s).1 c = store c
  sees : ∀ i store store' s, inv i s → (∀ c ∈ reads i, store c = store' c) →
    (turn i store s).2 = (turn i store' s).2 ∧ ∀ c ∈ reads i, (turn i store s).1 c = (turn i store' s).1 c

/-- What the `i`-th worker does alone in `k` turns. -/
def After (i : ι) (k : Nat) (store : (c : κ) → β c) (worker : Turn σ ρ) (store' : (c : κ) → β c)
    (worker' : Turn σ ρ) : Prop :=
  match worker with
  | .leave r => k = 0 ∧ store' = store ∧ worker' = .leave r
  | .again s => run (alone turn i) k (store, s) = paired store' worker'

/-- The pool has got here as if each worker had been alone, with the turns it had. -/
structure Apart [DecidableEq ι] (inv : ι → σ → Prop) (reads writes : ι → Set κ) (pool : Pool ι σ ρ β)
    (schedule : List ι) (pool' : Pool ι σ ρ β) : Prop where
  worker : ∀ i, ∃ store, After turn i (schedule.count i) pool.store (pool.worker i) store (pool'.worker i) ∧
    ∀ c ∈ reads i, pool'.store c = store c
  inv : ∀ i s, pool'.worker i = .again s → inv i s
  frame : ∀ c, (∀ i, c ∉ writes i) → pool'.store c = pool.store c

def Done (pool : Pool ι σ ρ β) : Prop := ∀ i, ∃ r, pool.worker i = .leave r

/-- Alone, the `i`-th worker is done after `k` turns and not before. -/
def Takes (pool : Pool ι σ ρ β) (i : ι) (k : Nat) : Prop :=
  match pool.worker i with
  | .leave _ => k = 0
  | .again s =>
    (∃ r, run (alone turn i) k (pool.store, s) = .leave r) ∧
      ∀ j < k, ∃ s', run (alone turn i) j (pool.store, s) = .again s'

end

section

variable {turn : ι → ((c : κ) → β c) → σ → ((c : κ) → β c) × Turn σ ρ}

theorem paired_again {store store' : (c : κ) → β c} {worker : Turn σ ρ} {s : σ}
    (h : paired store worker = .again (store', s)) : store = store' ∧ worker = .again s := by
  cases worker with
  | again s' =>
    cases h
    exact ⟨rfl, rfl⟩
  | leave r => cases h

theorem paired_leave {store store' : (c : κ) → β c} {worker : Turn σ ρ} {r : ρ}
    (h : paired store worker = .leave (store', r)) : store = store' ∧ worker = .leave r := by
  cases worker with
  | again s => cases h
  | leave r' =>
    cases h
    exact ⟨rfl, rfl⟩

theorem paired_inj {store store' : (c : κ) → β c} {worker worker' : Turn σ ρ}
    (h : paired store worker = paired store' worker') : store = store' ∧ worker = worker' := by
  cases worker' with
  | again s => exact paired_again h
  | leave r => exact paired_leave h

theorem After.zero (i : ι) (store : (c : κ) → β c) (worker : Turn σ ρ) :
    After turn i 0 store worker store worker := by
  cases worker with
  | leave r => exact ⟨rfl, rfl, rfl⟩
  | again s => rfl

theorem After.succ {i : ι} {k : Nat} {store store' : (c : κ) → β c} {worker : Turn σ ρ} {s : σ}
    (h : After turn i k store worker store' (.again s)) :
    After turn i (k + 1) store worker (turn i store' s).1 (turn i store' s).2 := by
  cases worker with
  | leave r =>
    obtain ⟨_, _, he⟩ := h
    cases he
  | again s0 =>
    have hat : At (alone turn i) (store, s0) k (store', s) := h
    exact run_succ_of_at hat

theorem After.returns {i : ι} {k : Nat} {store store' : (c : κ) → β c} {s : σ} {r : ρ}
    (h : After turn i k store (.again s) store' (.leave r)) : Returns (alone turn i) (store, s) (store', r) :=
  ⟨k, h⟩

/-- What every turn of a worker keeps, it keeps alone. -/
theorem After.keeps {i : ι} {k : Nat} {store store' : (c : κ) → β c} {worker worker' : Turn σ ρ}
    {P : ((c : κ) → β c) → Turn σ ρ → Prop} (hstep : ∀ store s, P store (.again s) →
      P (turn i store s).1 (turn i store s).2) (hstart : P store worker)
    (h : After turn i k store worker store' worker') : P store' worker' := by
  cases worker with
  | leave r =>
    obtain ⟨_, rfl, rfl⟩ := h
    exact hstart
  | again s =>
    have hrun : run (alone turn i) k (store, s) = paired store' worker' := h
    clear h
    induction k generalizing store' worker' with
    | zero =>
      obtain ⟨rfl, rfl⟩ := paired_again hrun.symm
      exact hstart
    | succ k ih =>
      rw [run_succ_last] at hrun
      cases hk : run (alone turn i) k (store, s) with
      | again t =>
        have hbefore : P t.1 (.again t.2) := ih hk
        have hnext : paired (turn i t.1 t.2).1 (turn i t.1 t.2).2 = paired store' worker' := by
          simpa only [hk, alone] using hrun
        have hafter := hstep t.1 t.2 hbefore
        obtain ⟨hstore, hworker⟩ := paired_inj hnext
        rwa [hstore, hworker] at hafter
      | leave t =>
        have hdone : Turn.leave t = paired store' worker' := by simpa only [hk] using hrun
        have hbefore : P t.1 (.leave t.2) := ih hk
        obtain ⟨rfl, rfl⟩ := paired_leave hdone.symm
        exact hbefore

theorem Takes.leaves {pool : Pool ι σ ρ β} {i : ι} {k : Nat} {s : σ} (h : Takes turn pool i k)
    (hs : pool.worker i = .again s) : ∃ r, run (alone turn i) k (pool.store, s) = .leave r := by
  unfold Takes at h
  rw [hs] at h
  exact h.1

variable [DecidableEq ι]

theorem step_cases {pool pool' : Pool ι σ ρ β} {i : ι} (h : step turn pool i = some pool') :
    ∃ s, pool.worker i = .again s ∧
      pool' = ⟨(turn i pool.store s).1, Function.update pool.worker i (turn i pool.store s).2⟩ := by
  unfold step at h
  split at h
  next => cases h
  next s hs =>
    cases h
    exact ⟨s, hs, rfl⟩

theorem exec_append {pool pool' : Pool ι σ ρ β} {schedule : List ι} {i : ι}
    (h : exec turn pool (schedule ++ [i]) = some pool') :
    ∃ before, exec turn pool schedule = some before ∧ step turn before i = some pool' := by
  unfold exec at h
  rw [List.foldlM_append] at h
  obtain ⟨before, hbefore, hstep⟩ := Option.bind_eq_some_iff.mp h
  refine ⟨before, hbefore, ?_⟩
  simpa using hstep

variable {inv : ι → σ → Prop} {reads writes : ι → Set κ} {pool pool' : Pool ι σ ρ β} {schedule : List ι}

theorem Apart.start (hinv : ∀ i s, pool.worker i = .again s → inv i s) :
    Apart turn inv reads writes pool [] pool where
  worker i := ⟨pool.store, by simpa using After.zero i pool.store (pool.worker i), fun _ _ => rfl⟩
  inv := hinv
  frame _ _ := rfl

/-- A turn of one worker is a turn of it alone, and none of the others sees it. -/
theorem Apart.step {pool'' : Pool ι σ ρ β} {i : ι} (hturn : Confined turn inv reads writes)
    (hapart : ∀ i j, i ≠ j → ∀ c ∈ writes i, c ∉ reads j) (h : Apart turn inv reads writes pool schedule pool')
    (hstep : step turn pool' i = some pool'') : Apart turn inv reads writes pool (schedule ++ [i]) pool'' := by
  obtain ⟨s, hs, rfl⟩ := step_cases hstep
  have hi := h.inv i s hs
  constructor
  · intro j
    obtain ⟨store, hafter, hsame⟩ := h.worker j
    dsimp only
    by_cases hj : j = i
    · subst hj
      rw [hs] at hafter
      obtain ⟨hnext, hcells⟩ := hturn.sees j pool'.store store s hi hsame
      refine ⟨(turn j store s).1, ?_, hcells⟩
      rw [Function.update_self, hnext, List.count_append, List.count_singleton_self]
      exact hafter.succ
    · refine ⟨store, ?_, fun c hc => ?_⟩
      · rw [Function.update_of_ne hj, List.count_append, List.count_singleton]
        simpa [Ne.symm hj] using hafter
      · have hout : c ∉ writes i := fun hi => hapart i j (Ne.symm hj) c hi hc
        rw [hturn.frame i pool'.store s hi c hout]
        exact hsame c hc
  · intro j s' hs'
    dsimp only at hs'
    by_cases hj : j = i
    · subst hj
      rw [Function.update_self] at hs'
      exact hturn.kept j pool'.store s s' hi hs'
    · rw [Function.update_of_ne hj] at hs'
      exact h.inv j s' hs'
  · intro c hc
    dsimp only
    rw [hturn.frame i pool'.store s hi c (hc i)]
    exact h.frame c hc

/-- Workers that write nothing that others read do in any order what each does alone. -/
theorem exec_apart (hturn : Confined turn inv reads writes)
    (hapart : ∀ i j, i ≠ j → ∀ c ∈ writes i, c ∉ reads j)
    (hinv : ∀ i s, pool.worker i = .again s → inv i s) (h : exec turn pool schedule = some pool') :
    Apart turn inv reads writes pool schedule pool' := by
  induction schedule using List.reverseRecOn generalizing pool' with
  | nil =>
    cases h
    exact .start hinv
  | append_singleton schedule i ih =>
    obtain ⟨before, hbefore, hstep⟩ := exec_append h
    exact (ih hbefore).step hturn hapart hstep

/-- So the order does not matter: all that finish leave the same store and the same results. -/
theorem exec_confluent {schedule' : List ι} {pool'' : Pool ι σ ρ β} (hturn : Confined turn inv reads writes)
    (hapart : ∀ i j, i ≠ j → ∀ c ∈ writes i, c ∉ reads j)
    (hinv : ∀ i s, pool.worker i = .again s → inv i s) (h : exec turn pool schedule = some pool')
    (h' : exec turn pool schedule' = some pool'') (hdone : Done pool') (hdone' : Done pool'') :
    pool' = pool'' := by
  have hrun := exec_apart hturn hapart hinv h
  have hrun' := exec_apart hturn hapart hinv h'
  have hone : ∀ i, pool'.worker i = pool''.worker i ∧ ∀ c ∈ reads i, pool'.store c = pool''.store c := by
    intro i
    obtain ⟨store, hafter, hsame⟩ := hrun.worker i
    obtain ⟨store', hafter', hsame'⟩ := hrun'.worker i
    obtain ⟨r, hr⟩ := hdone i
    obtain ⟨r', hr'⟩ := hdone' i
    rw [hr] at hafter
    rw [hr'] at hafter'
    rw [hr, hr']
    cases hw : pool.worker i with
    | leave early =>
      rw [hw] at hafter hafter'
      obtain ⟨_, rfl, he⟩ := hafter
      obtain ⟨_, rfl, he'⟩ := hafter'
      exact ⟨he.trans he'.symm, fun c hc => (hsame c hc).trans (hsame' c hc).symm⟩
    | again s =>
      rw [hw] at hafter hafter'
      obtain ⟨rfl, rfl⟩ := Prod.mk.inj (returns_unique hafter.returns hafter'.returns)
      exact ⟨rfl, fun c hc => (hsame c hc).trans (hsame' c hc).symm⟩
  rcases pool' with ⟨store, worker⟩
  rcases pool'' with ⟨store', worker'⟩
  have hworker : worker = worker' := funext fun i => (hone i).1
  have hstore : store = store' := by
    funext c
    by_cases hc : ∃ i, c ∈ writes i
    · obtain ⟨i, hi⟩ := hc
      exact (hone i).2 c (hturn.subset i hi)
    · have hout : ∀ i, c ∉ writes i := fun i hi => hc ⟨i, hi⟩
      exact (hrun.frame c hout).trans (hrun'.frame c hout).symm
  rw [hworker, hstore]

/-- While a worker is not done, it can take a turn. -/
theorem exists_step (h : ¬ Done pool) : ∃ i pool', step turn pool i = some pool' := by
  unfold Done at h
  rw [not_forall] at h
  obtain ⟨i, hi⟩ := h
  cases hw : pool.worker i with
  | leave r => exact absurd ⟨r, hw⟩ hi
  | again s => exact ⟨i, _, by rw [step, hw]⟩

end

end Workers
