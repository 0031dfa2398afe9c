import Mathlib.Data.List.Basic

namespace Descriptors

/-- The descriptors of a process: what each number is open on. -/
abbrev Table (F : Type) := List (Option F)

namespace Table

variable {F : Type}

def file (t : Table F) (fd : Nat) : Option F := t[fd]?.join

def put : Table F → Nat → Option F → Table F
  | [], 0, f => [f]
  | [], fd + 1, f => none :: put [] fd f
  | _ :: t, 0, f => f :: t
  | g :: t, fd + 1, f => g :: put t fd f

/-- The lowest number that is not in use. -/
def lowest (t : Table F) : Nat := t.findIdx Option.isNone

def open_ (t : Table F) (f : F) : Nat × Table F := (t.lowest, t.put t.lowest (some f))

def close (t : Table F) (fd : Nat) : Table F := t.put fd none

/-- It fails for a number that is not in use. -/
def dup (t : Table F) (fd : Nat) : Option (Nat × Table F) := (t.file fd).map t.open_

/-- It fails, and changes nothing, if the first number is not in use. -/
def dup2 (t : Table F) (fd fd' : Nat) : Table F :=
  match t.file fd with
  | none => t
  | some f => t.put fd' (some f)

theorem file_put (t : Table F) (fd : Nat) (f : Option F) (n : Nat) :
    (t.put fd f).file n = if n = fd then f else t.file n := by
  induction fd generalizing t n with
  | zero =>
    cases t with
    | nil => cases n <;> rfl
    | cons g t => cases n <;> rfl
  | succ fd ih =>
    have hcases : ∀ (g : Option F) (t' : Table F), file (g :: t'.put fd f) n =
        if n = fd + 1 then f else file (g :: t') n := by
      intro g t'
      cases n with
      | zero => rfl
      | succ n =>
        refine (ih t' n).trans ?_
        simp only [Nat.add_right_cancel_iff]
        rfl
    cases t with
    | nil =>
      refine (hcases none []).trans ?_
      cases n <;> rfl
    | cons g t => exact hcases g t

theorem file_put_self (t : Table F) (fd : Nat) (f : Option F) : (t.put fd f).file fd = f := by
  rw [file_put, if_pos rfl]

theorem file_put_ne (t : Table F) {fd n : Nat} (f : Option F) (h : n ≠ fd) : (t.put fd f).file n = t.file n := by
  rw [file_put, if_neg h]

theorem file_lowest (t : Table F) : t.file t.lowest = none := by
  unfold file lowest
  by_cases h : t.findIdx Option.isNone < t.length
  · have hnone := List.findIdx_getElem (w := h)
    rw [List.getElem?_eq_getElem h]
    exact Option.isNone_iff_eq_none.mp hnone
  · rw [List.getElem?_eq_none (Nat.le_of_not_lt h)]
    rfl

/-- A number that was not in use has been given out for a file. -/
structure Gives (t t' : Table F) (number : Nat) (f : F) : Prop where
  free : t.file number = none
  file : t'.file number = some f
  kept : ∀ fd, fd ≠ number → t'.file fd = t.file fd

theorem gives_open (t : Table F) (f : F) : t.Gives (t.open_ f).2 t.lowest f :=
  ⟨t.file_lowest, file_put_self _ _ _, fun _ h => file_put_ne _ _ h⟩

variable {t t' : Table F} {number fd : Nat} {f g : F}

theorem Gives.ne (h : t.Gives t' number f) (hused : t.file fd = some g) : fd ≠ number := by
  rintro rfl
  rw [h.free] at hused
  cases hused

theorem Gives.keeps (h : t.Gives t' number f) (hused : t.file fd = some g) : t'.file fd = some g :=
  (h.kept fd (h.ne hused)).trans hused

/-- What is free after a number was given out was free before. -/
theorem Gives.free_before (h : t.Gives t' number f) (hfree : t'.file fd = none) : fd ≠ number ∧ t.file fd = none := by
  have hne : fd ≠ number := by
    rintro rfl
    rw [h.file] at hfree
    cases hfree
  exact ⟨hne, (h.kept fd hne).symm.trans hfree⟩

end Table

end Descriptors
