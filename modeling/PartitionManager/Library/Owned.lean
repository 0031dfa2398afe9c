import Mathlib.Logic.Function.Basic

/-! Slots that hold resources, of which each live one is held exactly once. -/

namespace Owned

variable {X R : Type}

structure Exclusive (slot : X → Option R) (live : R → Prop) : Prop where
  alive : ∀ x r, slot x = some r → live r
  unique : ∀ x y r, slot x = some r → slot y = some r → x = y
  kept : ∀ r, live r → ∃ x, slot x = some r

variable {slot : X → Option R} {live live' : R → Prop} {x y : X} {r : R}

theorem Exclusive.of_iff (h : Exclusive slot live) (hlive : ∀ r, live r ↔ live' r) : Exclusive slot live' :=
  ⟨fun x r hx => (hlive r).mp (h.alive x r hx), h.unique, fun r hr => h.kept r ((hlive r).mpr hr)⟩

/-- A resource that no slot held comes to life in an empty one. -/
theorem Exclusive.acquire [DecidableEq X] (h : Exclusive slot live) (hx : slot x = none) (hr : ¬ live r) :
    Exclusive (Function.update slot x (some r)) (fun q => q = r ∨ live q) := by
  have hnew : ∀ z q, Function.update slot x (some r) z = some q ↔ (z = x ∧ q = r) ∨ (z ≠ x ∧ slot z = some q) := by
    intro z q
    by_cases hz : z = x
    · subst z
      simp [eq_comm]
    · simp [hz]
  refine ⟨?_, ?_, ?_⟩
  · intro z q hq
    rcases (hnew z q).mp hq with ⟨_, rfl⟩ | ⟨_, hz⟩
    · exact Or.inl rfl
    · exact Or.inr (h.alive z q hz)
  · intro z z' q hq hq'
    rcases (hnew z q).mp hq with ⟨rfl, rfl⟩ | ⟨_, hz⟩
    · rcases (hnew z' q).mp hq' with ⟨rfl, _⟩ | ⟨_, hz'⟩
      · rfl
      · exact absurd (h.alive z' q hz') hr
    · rcases (hnew z' q).mp hq' with ⟨rfl, rfl⟩ | ⟨_, hz'⟩
      · exact absurd (h.alive z q hz) hr
      · exact h.unique z z' q hz hz'
  · intro q hq
    rcases hq with rfl | hq
    · exact ⟨x, (hnew x q).mpr (Or.inl ⟨rfl, rfl⟩)⟩
    · obtain ⟨z, hz⟩ := h.kept q hq
      have hzx : z ≠ x := by
        intro heq
        rw [heq, hx] at hz
        cases hz
      exact ⟨z, (hnew z q).mpr (Or.inr ⟨hzx, hz⟩)⟩

/-- A resource dies with the slot that held it. -/
theorem Exclusive.release [DecidableEq X] (h : Exclusive slot live) (hx : slot x = some r) :
    Exclusive (Function.update slot x none) (fun q => q ≠ r ∧ live q) := by
  have hnew : ∀ z q, Function.update slot x none z = some q ↔ z ≠ x ∧ slot z = some q := by
    intro z q
    by_cases hz : z = x
    · subst z
      simp
    · simp [hz]
  refine ⟨?_, ?_, ?_⟩
  · intro z q hq
    obtain ⟨hzx, hz⟩ := (hnew z q).mp hq
    refine ⟨?_, h.alive z q hz⟩
    intro heq
    subst q
    exact hzx (h.unique z x r hz hx)
  · intro z z' q hq hq'
    exact h.unique z z' q ((hnew z q).mp hq).2 ((hnew z' q).mp hq').2
  · intro q hq
    obtain ⟨z, hz⟩ := h.kept q hq.2
    refine ⟨z, (hnew z q).mpr ⟨?_, hz⟩⟩
    intro heq
    rw [heq, hx] at hz
    exact hq.1 (Option.some.inj hz).symm

/-- What one slot held moves to an empty one. -/
theorem Exclusive.transfer [DecidableEq X] (h : Exclusive slot live) (hy : slot y = none) (hxy : x ≠ y) :
    Exclusive (Function.update (Function.update slot y (slot x)) x none) live := by
  have hnew : ∀ z q, Function.update (Function.update slot y (slot x)) x none z = some q ↔
      (z = y ∧ slot x = some q) ∨ (z ≠ x ∧ z ≠ y ∧ slot z = some q) := by
    intro z q
    by_cases hzx : z = x
    · subst z
      simp [hxy]
    · by_cases hzy : z = y
      · subst z
        simp [hzx]
      · simp [hzx, hzy]
  refine ⟨?_, ?_, ?_⟩
  · intro z q hq
    rcases (hnew z q).mp hq with ⟨_, hx⟩ | ⟨_, _, hz⟩
    · exact h.alive x q hx
    · exact h.alive z q hz
  · intro z z' q hq hq'
    rcases (hnew z q).mp hq with ⟨rfl, hx⟩ | ⟨hzx, _, hz⟩
    · rcases (hnew z' q).mp hq' with ⟨rfl, _⟩ | ⟨hzx', _, hz'⟩
      · rfl
      · exact absurd (h.unique z' x q hz' hx) hzx'
    · rcases (hnew z' q).mp hq' with ⟨rfl, hx⟩ | ⟨_, _, hz'⟩
      · exact absurd (h.unique z x q hz hx) hzx
      · exact h.unique z z' q hz hz'
  · intro q hq
    obtain ⟨z, hz⟩ := h.kept q hq
    by_cases hzx : z = x
    · exact ⟨y, (hnew y q).mpr (Or.inl ⟨rfl, hzx ▸ hz⟩)⟩
    · have hzy : z ≠ y := by
        intro heq
        rw [heq, hy] at hz
        cases hz
      exact ⟨z, (hnew z q).mpr (Or.inr ⟨hzx, hzy, hz⟩)⟩

end Owned
