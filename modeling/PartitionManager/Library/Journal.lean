import Mathlib.Logic.Function.Basic

namespace Journal

variable {κ β : Type} [DecidableEq κ]

/-- The value that the newest entry for a cell gives it; the newest entry stands first. -/
def newest (entries : List (κ × β)) (k : κ) : Option β := (entries.find? fun e => e.1 = k).map Prod.snd

/-- The cells after all entries, the last one of the list first. -/
def replay (cells : κ → β) (entries : List (κ × β)) : κ → β :=
  entries.foldr (fun e cells => Function.update cells e.1 e.2) cells

theorem replay_append (cells : κ → β) (newer older : List (κ × β)) :
    replay cells (newer ++ older) = replay (replay cells older) newer :=
  List.foldr_append

theorem newest_cons (e : κ × β) (entries : List (κ × β)) (k : κ) :
    newest (e :: entries) k = if e.1 = k then some e.2 else newest entries k := by
  unfold newest
  rw [List.find?_cons]
  by_cases h : e.1 = k
  · simp [h]
  · simp [h]

/-- A cell holds what the newest entry for it says, or else what it held at first. -/
theorem replay_eq (cells : κ → β) (entries : List (κ × β)) (k : κ) :
    replay cells entries k = (newest entries k).getD (cells k) := by
  induction entries with
  | nil => rfl
  | cons e entries ih =>
    rw [newest_cons]
    show Function.update (replay cells entries) e.1 e.2 k = _
    by_cases h : e.1 = k
    · subst h
      rw [Function.update_self, if_pos rfl]
      rfl
    · rw [Function.update_of_ne (Ne.symm h), if_neg h, ih]

end Journal
