import Mathlib.Order.Basic
import Mathlib.Tactic.ByContra

namespace Loop

/-- What one turn of a loop body does: go round again in a new state, or leave
the loop with a result. -/
inductive Turn (σ ρ : Type) where
  | again (s : σ)
  | leave (r : ρ)

variable {σ ρ : Type} {body : σ → Turn σ ρ}

/-- At most `fuel` turns of the loop. -/
def run (body : σ → Turn σ ρ) : Nat → σ → Turn σ ρ
  | 0, s => .again s
  | fuel + 1, s =>
    match body s with
    | .again s' => run body fuel s'
    | .leave r => .leave r

/-- After `k` turns the loop is still running, in state `s'`. -/
def At (body : σ → Turn σ ρ) (s : σ) (k : Nat) (s' : σ) : Prop := run body k s = .again s'

def Returns (body : σ → Turn σ ρ) (s : σ) (r : ρ) : Prop := ∃ k, run body k s = .leave r

def RunsForever (body : σ → Turn σ ρ) (s : σ) : Prop := ∀ k, ∃ s', At body s k s'

theorem run_succ_last (k : Nat) (s : σ) :
    run body (k + 1) s = match run body k s with
      | .again s' => body s'
      | .leave r => .leave r := by
  induction k generalizing s with
  | zero => simp only [run]; cases body s <;> rfl
  | succ k ih =>
    rw [run, run]
    cases body s with
    | again s' => exact ih s'
    | leave r => rfl

theorem run_succ_of_at {s s' : σ} {k : Nat} (h : At body s k s') : run body (k + 1) s = body s' := by
  unfold At at h
  rw [run_succ_last, h]

theorem at_zero (s : σ) : At body s 0 s := rfl

theorem at_succ {s s' s'' : σ} {k : Nat} (h : At body s k s') (hb : body s' = .again s'') :
    At body s (k + 1) s'' := (run_succ_of_at h).trans hb

theorem at_unique {s s₁ s₂ : σ} {k : Nat} (h₁ : At body s k s₁) (h₂ : At body s k s₂) :
    s₁ = s₂ := Turn.again.inj (h₁.symm.trans h₂)

/-- The turn before: a loop still running after `k + 1` turns was running after `k`. -/
theorem at_pred {s s'' : σ} {k : Nat} (h : At body s (k + 1) s'') :
    ∃ s', At body s k s' ∧ body s' = .again s'' := by
  unfold At at h
  rw [run_succ_last] at h
  cases hk : run body k s with
  | again s' => exact ⟨s', hk, by simpa [hk] using h⟩
  | leave r => simp [hk] at h

theorem at_of_le {s s' : σ} {j k : Nat} (h : At body s k s') (hj : j ≤ k) :
    ∃ s'', At body s j s'' := by
  induction k generalizing s' with
  | zero =>
    obtain rfl : j = 0 := by omega
    exact ⟨s, rfl⟩
  | succ k ih =>
    rcases Nat.lt_or_ge k j with hlt | hle
    · obtain rfl : j = k + 1 := by omega
      exact ⟨s', h⟩
    · obtain ⟨prev, hp, _⟩ := at_pred h
      exact ih hp hle

theorem returns_of_at {s s' : σ} {k : Nat} {r : ρ} (h : At body s k s')
    (hb : body s' = .leave r) : Returns body s r := by
  exact ⟨k + 1, (run_succ_of_at h).trans hb⟩

theorem run_leave_mono {s : σ} {k : Nat} {r : ρ} (h : run body k s = .leave r) (extra : Nat) :
    run body (k + extra) s = .leave r := by
  induction extra with
  | zero => exact h
  | succ extra ih => rw [← Nat.add_assoc, run_succ_last, ih]

theorem returns_unique {s : σ} {r₁ r₂ : ρ} (h₁ : Returns body s r₁) (h₂ : Returns body s r₂) :
    r₁ = r₂ := by
  obtain ⟨k₁, hk₁⟩ := h₁
  obtain ⟨k₂, hk₂⟩ := h₂
  have e₁ := run_leave_mono hk₁ k₂
  have e₂ := run_leave_mono hk₂ k₁
  rw [Nat.add_comm] at e₂
  exact Turn.leave.inj (e₁.symm.trans e₂)

/-- A loop that returns does so from the state of its last turn. -/
theorem last_turn {s : σ} {r : ρ} (h : Returns body s r) :
    ∃ k s', At body s k s' ∧ body s' = .leave r := by
  obtain ⟨k, hk⟩ := h
  induction k with
  | zero => simp [run] at hk
  | succ k ih =>
    rw [run_succ_last] at hk
    cases hs : run body k s with
    | again s' => exact ⟨k, s', hs, by simpa [hs] using hk⟩
    | leave r' =>
      have he : r' = r := by simpa [hs] using hk
      exact ih (he ▸ hs)

theorem not_returns_of_runsForever {s : σ} {r : ρ} (h : RunsForever body s) :
    ¬ Returns body s r := by
  intro h
  obtain ⟨k, hk⟩ := h
  obtain ⟨s', hs⟩ := h k
  exact absurd (hk.symm.trans hs) (by simp)

theorem returns_or_runsForever (s : σ) : (∃ r, Returns body s r) ∨ RunsForever body s := by
  by_cases h : ∃ r, Returns body s r
  · exact Or.inl h
  · refine Or.inr fun k => ?_
    cases hk : run body k s with
    | again s' => exact ⟨s', hk⟩
    | leave r => exact absurd ⟨r, k, hk⟩ h

/-- The result of a loop that has been left. -/
def Turn.left : Turn σ ρ → Option ρ
  | .again _ => none
  | .leave r => some r

def Turn.map {τ : Type} (f : σ → τ) : Turn σ ρ → Turn τ ρ
  | .again s => .again (f s)
  | .leave r => .leave r

theorem left_eq_some_iff {turn : Turn σ ρ} {r : ρ} : turn.left = some r ↔ turn = .leave r := by
  cases turn with
  | again s => simp [Turn.left]
  | leave r' => simp [Turn.left]

@[simp] theorem left_map {τ : Type} (f : σ → τ) (turn : Turn σ ρ) : (turn.map f).left = turn.left := by
  cases turn with
  | again s => rfl
  | leave r => rfl

/-- The simulation rule: a body that does in the images of states what another does in the
states themselves runs like it. -/
theorem run_map {τ : Type} {body' : τ → Turn τ ρ} (f : σ → τ) {I : σ → Prop}
    (keep : ∀ s s', I s → body s = .again s' → I s') (sim : ∀ s, I s → body' (f s) = (body s).map f)
    {s : σ} (h0 : I s) (k : Nat) : run body' k (f s) = (run body k s).map f := by
  induction k generalizing s with
  | zero => rfl
  | succ k ih =>
    have hbody := sim s h0
    rw [run, run, hbody]
    cases hs : body s with
    | again s' => exact ih (keep s s' h0 hs)
    | leave r => rfl

/-- The invariant rule: what holds at the start and is kept by every further
turn holds whenever the loop is still running. -/
theorem at_invariant {I : σ → Prop} (step : ∀ s s', I s → body s = .again s' → I s')
    {s s' : σ} {k : Nat} (h0 : I s) (h : At body s k s') : I s' := by
  induction k generalizing s' with
  | zero => exact Turn.again.inj h ▸ h0
  | succ k ih =>
    obtain ⟨prev, hp, hb⟩ := at_pred h
    exact step prev s' (ih hp) hb

/-- The variant rule: a loop whose measure drops on every further turn returns. -/
theorem returns_of_measure {I : σ → Prop} (measure : σ → Nat)
    (step : ∀ s s', I s → body s = .again s' → I s' ∧ measure s' < measure s)
    {s : σ} (h0 : I s) : ∃ r, Returns body s r := by
  rcases (returns_or_runsForever s : _ ∨ RunsForever body s) with h | h
  · exact h
  · have drop : ∀ k s', At body s k s' → I s' ∧ measure s' + k ≤ measure s := by
      intro k
      induction k with
      | zero => intro s' hs; obtain rfl := Turn.again.inj hs; exact ⟨h0, by simp⟩
      | succ k ih =>
        intro s' hs
        obtain ⟨prev, hp, hb⟩ := at_pred hs
        obtain ⟨hi, hm⟩ := ih prev hp
        obtain ⟨hi', hm'⟩ := step prev s' hi hb
        exact ⟨hi', by omega⟩
    obtain ⟨s', hs⟩ := h (measure s + 1)
    have := (drop _ _ hs).2
    omega

end Loop
