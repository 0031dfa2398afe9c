import Mathlib.Data.List.Basic

/-! Items that are worked off one after the other, in a world that each attempt may change. -/

namespace Batch

variable {W α ρ : Type} (attempt : W → α → W × Except ρ Unit)

/-- The world after all attempts. -/
def after (w : W) (xs : List α) : W := xs.foldl (fun w x => (attempt w x).1) w

/-- Every attempt succeeds, each in the world that those before it leave. -/
def Succeeds : W → List α → Prop
  | _, [] => True
  | w, x :: xs => (attempt w x).2 = .ok () ∧ Succeeds (attempt w x).1 xs

variable {attempt}

/-- If not all succeed, there is a first that does not. -/
theorem succeeds_or_first (w : W) (xs : List α) : Succeeds attempt w xs ∨
    ∃ pre x post r, xs = pre ++ x :: post ∧ Succeeds attempt w pre ∧
      (attempt (after attempt w pre) x).2 = .error r := by
  induction xs generalizing w with
  | nil => exact Or.inl trivial
  | cons x xs ih =>
    cases hx : (attempt w x).2 with
    | error r => exact Or.inr ⟨[], x, xs, r, rfl, trivial, hx⟩
    | ok _ =>
      rcases ih (attempt w x).1 with hall | ⟨pre, y, post, r, hxs, hpre, hy⟩
      · exact Or.inl ⟨hx, hall⟩
      · exact Or.inr ⟨x :: pre, y, post, r, by rw [hxs]; rfl, ⟨hx, hpre⟩, hy⟩

/-- A log tells what each attempt gave in the world that those before it left. -/
def Logged (attempt : W → α → W × Except ρ Unit) : W → List (α × Except ρ Unit) → Prop
  | _, [] => True
  | w, (x, r) :: log => (attempt w x).2 = r ∧ Logged attempt (attempt w x).1 log

theorem after_cons (w : W) (x : α) (xs : List α) : after attempt w (x :: xs) = after attempt (attempt w x).1 xs := rfl

theorem after_append (w : W) (xs ys : List α) :
    after attempt w (xs ++ ys) = after attempt (after attempt w xs) ys := List.foldl_append

theorem Logged.append {w : W} {log later : List (α × Except ρ Unit)} (h : Logged attempt w (log ++ later)) :
    Logged attempt w log ∧ Logged attempt (after attempt w (log.map Prod.fst)) later := by
  induction log generalizing w with
  | nil => exact ⟨trivial, h⟩
  | cons entry log ih =>
    obtain ⟨hfirst, hrest⟩ := h
    obtain ⟨hlog, hlater⟩ := ih hrest
    exact ⟨⟨hfirst, hlog⟩, hlater⟩

/-- The invariant rule for logged attempts. -/
theorem Logged.keeps {Inv : W → Prop} {w : W} {log : List (α × Except ρ Unit)} (h : Logged attempt w log)
    (start : Inv w) (keep : ∀ w, ∀ entry ∈ log, Inv w → (attempt w entry.1).2 = entry.2 → Inv (attempt w entry.1).1) :
    Inv (after attempt w (log.map Prod.fst)) := by
  induction log generalizing w with
  | nil => exact start
  | cons entry log ih =>
    obtain ⟨hfirst, hrest⟩ := h
    exact ih hrest (keep w entry List.mem_cons_self start hfirst) fun w e he => keep w e (List.mem_cons_of_mem _ he)

section

variable {γ ε : Type} (visit : α → List γ × Except ε Bool)

/-- A loop over all items that adds up whether they went well. Only an exception ends it
early. -/
def sweep : List α → Bool → List γ × Except ε Bool
  | [], success => ([], .ok success)
  | x :: xs, success =>
    match visit x with
    | (calls, .error e) => (calls, .error e)
    | (calls, .ok well) =>
      let later := sweep xs (success && well)
      (calls ++ later.1, later.2)

variable {visit}

theorem sweep_ok {well : α → Bool} {xs : List α} (h : ∀ x ∈ xs, (visit x).2 = .ok (well x)) (success : Bool) :
    sweep visit xs success = (xs.flatMap fun x => (visit x).1, .ok (success && xs.all well)) := by
  induction xs generalizing success with
  | nil => simp [sweep]
  | cons x xs ih =>
    have hx : visit x = ((visit x).1, .ok (well x)) := Prod.ext rfl (h x List.mem_cons_self)
    have hxs := ih fun y hy => h y (List.mem_cons_of_mem x hy)
    rw [sweep, hx]
    simp only [hxs, List.flatMap_cons, List.all_cons, Bool.and_assoc]

theorem sweep_error {xs : List α} (h : ∃ x ∈ xs, ∃ e, (visit x).2 = .error e) (success : Bool) :
    ∃ e, (sweep visit xs success).2 = .error e := by
  induction xs generalizing success with
  | nil => simp at h
  | cons x xs ih =>
    cases hx : (visit x).2 with
    | error e =>
      have hvisit : visit x = ((visit x).1, .error e) := Prod.ext rfl hx
      rw [sweep, hvisit]
      exact ⟨e, rfl⟩
    | ok well =>
      have hvisit : visit x = ((visit x).1, .ok well) := Prod.ext rfl hx
      rw [sweep, hvisit]
      refine ih ?_ (success && well)
      obtain ⟨y, hy, e, he⟩ := h
      rcases List.mem_cons.mp hy with rfl | hmem
      · rw [hx] at he
        cases he
      · exact ⟨y, hmem, e, he⟩

end

end Batch
