import PartitionManager.Library.Loop

namespace Pieces

/-- Where a loop stands that works through a range piece by piece: how much is
done, how many calls that took, and what they have built up. -/
structure State (α : Type) where
  done : Nat
  turn : Nat
  acc : α

section

variable {α β ε : Type} (size limit : Nat) (call : Nat → Nat → Nat → Except ε (List β))
  (put : α → Nat → List β → α)

/-- One turn: a call for what is left of the range, for at most `limit` elements. -/
def step (s : State α) : Loop.Turn (State α) (α × Except ε Unit) :=
  if s.done < size then
    match call s.turn s.done (min limit (size - s.done)) with
    | .error e => .leave (s.acc, .error e)
    | .ok piece => .again ⟨s.done + piece.length, s.turn + 1, put s.acc s.done piece⟩
  else .leave (s.acc, .ok ())

/-- No call yields more than it was asked for. -/
def Bounded : Prop := ∀ i p count piece, call i p count = .ok piece → piece.length ≤ count

/-- Every further piece leads from what holds before it to what holds after it: `P` is about the
number of calls, how much is done, and what has been built up. -/
def Keeps (P : Nat → Nat → α → Prop) : Prop :=
  ∀ i p a piece, p < size → P i p a → call i p (min limit (size - p)) = .ok piece →
    P (i + 1) (p + piece.length) (put a p piece)

end

section

variable {α β ε : Type} {size limit : Nat} {call : Nat → Nat → Nat → Except ε (List β)}
  {put : α → Nat → List β → α} {P : Nat → Nat → α → Prop} {s s' : State α} {r : α × Except ε Unit}

theorem step_again_iff : step size limit call put s = .again s' ↔
    s.done < size ∧ ∃ piece, call s.turn s.done (min limit (size - s.done)) = .ok piece ∧
      s' = ⟨s.done + piece.length, s.turn + 1, put s.acc s.done piece⟩ := by
  unfold step
  by_cases hmore : s.done < size
  · rw [if_pos hmore]
    cases hcall : call s.turn s.done (min limit (size - s.done)) with
    | error e => simp
    | ok piece => simp [hmore, eq_comm]
  · rw [if_neg hmore]
    simp [hmore]

theorem step_leave_iff : step size limit call put s = .leave r ↔
    (size ≤ s.done ∧ r = (s.acc, .ok ())) ∨
      ∃ e, s.done < size ∧ call s.turn s.done (min limit (size - s.done)) = .error e ∧ r = (s.acc, .error e) := by
  unfold step
  by_cases hmore : s.done < size
  · have hleft : ¬ size ≤ s.done := by omega
    rw [if_pos hmore]
    cases hcall : call s.turn s.done (min limit (size - s.done)) with
    | error e => simp [hmore, hleft, eq_comm]
    | ok piece => simp [hleft]
  · rw [if_neg hmore]
    simp [hmore, Nat.le_of_not_lt hmore, eq_comm]

/-- The turns are counted. -/
theorem at_turn {k : Nat} (h : Loop.At (step size limit call put) s k s') : s'.turn = s.turn + k := by
  induction k generalizing s' with
  | zero =>
    have hs := Loop.at_unique h (Loop.at_zero s)
    rw [hs, Nat.add_zero]
  | succ k ih =>
    obtain ⟨prev, hprev, hstep⟩ := Loop.at_pred h
    obtain ⟨_, piece, _, hs'⟩ := step_again_iff.mp hstep
    have hturn := ih hprev
    rw [hs']
    show prev.turn + 1 = s.turn + (k + 1)
    omega

/-- The invariant rule of such a loop. -/
theorem at_keeps (hb : Bounded call) (hk : Keeps size limit call put P) (hdone : s.done ≤ size)
    (h0 : P s.turn s.done s.acc) {k : Nat} (h : Loop.At (step size limit call put) s k s') :
    s'.done ≤ size ∧ P s'.turn s'.done s'.acc := by
  refine Loop.at_invariant (I := fun s => s.done ≤ size ∧ P s.turn s.done s.acc) ?_ ⟨hdone, h0⟩ h
  intro t t' ht hstep
  obtain ⟨hmore, piece, hcall, ht'⟩ := step_again_iff.mp hstep
  have hlength := hb _ _ _ _ hcall
  have hle : t.done + piece.length ≤ size := by omega
  rw [ht']
  exact ⟨hle, hk _ _ _ _ hmore ht.2 hcall⟩

/-- What holds where the loop ends: the whole range is done, or a call has failed. -/
theorem returns_keeps (hb : Bounded call) (hk : Keeps size limit call put P) (hdone : s.done ≤ size)
    (h0 : P s.turn s.done s.acc) (h : Loop.Returns (step size limit call put) s r) :
    (∃ i, P i size r.1 ∧ r.2 = .ok ()) ∨
      ∃ e i p, p < size ∧ P i p r.1 ∧ call i p (min limit (size - p)) = .error e ∧ r.2 = .error e := by
  obtain ⟨k, t, hat, hleave⟩ := Loop.last_turn h
  obtain ⟨hle, hP⟩ := at_keeps hb hk hdone h0 hat
  rcases step_leave_iff.mp hleave with ⟨hall, hr⟩ | ⟨e, hmore, hcall, hr⟩
  · have hsize : t.done = size := by omega
    rw [hr, ← hsize]
    exact Or.inl ⟨t.turn, hP, rfl⟩
  · rw [hr]
    exact Or.inr ⟨e, t.turn, t.done, hmore, hP, hcall, rfl⟩

/-- The loop ends if no piece is empty. -/
theorem returns_of_progress
    (h : ∀ i p piece, p < size → call i p (min limit (size - p)) = .ok piece → 0 < piece.length) :
    ∃ r, Loop.Returns (step size limit call put) s r := by
  refine Loop.returns_of_measure (I := fun _ => True) (fun t => size - t.done) ?_ trivial
  intro t t' _ hstep
  obtain ⟨hmore, piece, hcall, ht'⟩ := step_again_iff.mp hstep
  have hpos := h _ _ _ hmore hcall
  rw [ht']
  refine ⟨trivial, ?_⟩
  show size - (t.done + piece.length) < size - t.done
  omega

/-- The loop ends if one of its calls fails whatever it is asked. -/
theorem returns_of_failure {i : Nat} (hi : s.turn ≤ i) (h : ∀ p count, ∃ e, call i p count = .error e) :
    ∃ r, Loop.Returns (step size limit call put) s r := by
  rcases (Loop.returns_or_runsForever s : _ ∨ Loop.RunsForever (step size limit call put) s) with hr | hforever
  · exact hr
  · exfalso
    obtain ⟨t, hat⟩ := hforever (i - s.turn + 1)
    obtain ⟨prev, hprev, hstep⟩ := Loop.at_pred hat
    obtain ⟨_, piece, hcall, _⟩ := step_again_iff.mp hstep
    have hturn : prev.turn = i := by
      have := at_turn hprev
      omega
    rw [hturn] at hcall
    obtain ⟨e, he⟩ := h prev.done (min limit (size - prev.done))
    rw [he] at hcall
    cases hcall

/-- The loop does not end if nothing fails and the pieces stop short of the end of the range. -/
theorem runsForever_of_short {last : Nat} (hlast : last < size) (hs : s.done ≤ last)
    (h : ∀ i p count, p ≤ last → ∃ piece, call i p count = .ok piece ∧ p + piece.length ≤ last) :
    Loop.RunsForever (step size limit call put) s := by
  have hat : ∀ k, ∃ t, Loop.At (step size limit call put) s k t ∧ t.done ≤ last := by
    intro k
    induction k with
    | zero => exact ⟨s, Loop.at_zero s, hs⟩
    | succ k ih =>
      obtain ⟨t, ht, hle⟩ := ih
      obtain ⟨piece, hcall, hlength⟩ := h t.turn t.done (min limit (size - t.done)) hle
      have hmore : t.done < size := by omega
      have hstep : step size limit call put t = .again ⟨t.done + piece.length, t.turn + 1, put t.acc t.done piece⟩ :=
        step_again_iff.mpr ⟨hmore, piece, hcall, rfl⟩
      exact ⟨_, Loop.at_succ ht hstep, hlength⟩
  intro k
  obtain ⟨t, ht, _⟩ := hat k
  exact ⟨t, ht⟩

end

end Pieces
