import Mathlib.Data.List.Basic
import Mathlib.Data.List.TakeWhile

/-! Lists that are read piece by piece, and texts that are read word by word. -/

namespace Words

variable {α β : Type}

/-- A read takes a piece off the front of a list, if there is one. -/
structure Reader (α β : Type) where
  read : List α → Option (β × List α)
  shorter : ∀ {xs piece rest}, read xs = some (piece, rest) → rest.length < xs.length

/-- All that a loop reads. -/
def Reader.all (r : Reader α β) (xs : List α) : List β :=
  match h : r.read xs with
  | none => []
  | some (piece, rest) =>
    have := r.shorter h
    piece :: r.all rest
termination_by xs.length

theorem Reader.all_none {r : Reader α β} {xs : List α} (h : r.read xs = none) : r.all xs = [] := by
  rw [all]
  split
  next => rfl
  next hsome => rw [h] at hsome; cases hsome

theorem Reader.all_some {r : Reader α β} {xs rest : List α} {piece : β} (h : r.read xs = some (piece, rest)) :
    r.all xs = piece :: r.all rest := by
  rw [all]
  split
  next hnone => rw [h] at hnone; cases hnone
  next other more hsome =>
    rw [h] at hsome
    cases hsome
    rfl

section

variable (isSep : α → Bool)

/-- The first word and what comes after it. -/
def word (xs : List α) : Option (List α × List α) :=
  match xs.dropWhile isSep with
  | [] => none
  | first :: rest => some (first :: rest.takeWhile (fun x => !isSep x), rest.dropWhile fun x => !isSep x)

theorem word_shorter {xs piece rest : List α} (h : word isSep xs = some (piece, rest)) : rest.length < xs.length := by
  unfold word at h
  split at h
  next => cases h
  next first more hdrop =>
    cases h
    have hdropped := (List.dropWhile_suffix isSep (l := xs)).length_le
    have hafter := (List.dropWhile_suffix (fun x => !isSep x) (l := more)).length_le
    rw [hdrop, List.length_cons] at hdropped
    omega

def wordReader : Reader α (List α) where
  read := word isSep
  shorter := word_shorter isSep

/-- The words stand in the text in this order, between separators. -/
inductive Spaced : List α → List (List α) → Prop
  | blank {gap : List α} (hgap : ∀ x ∈ gap, isSep x = true) : Spaced gap []
  | word {gap piece rest : List α} {pieces : List (List α)} (hgap : ∀ x ∈ gap, isSep x = true) (hne : piece ≠ [])
      (hpiece : ∀ x ∈ piece, isSep x = false) (hend : ∀ x, rest.head? = some x → isSep x = true)
      (later : Spaced rest pieces) : Spaced (gap ++ piece ++ rest) (piece :: pieces)

end

variable {isSep : α → Bool}

theorem not_of_dropWhile {p : α → Bool} {xs rest : List α} {x : α} (h : xs.dropWhile p = x :: rest) : p x = false := by
  have hhead := List.head?_dropWhile_not p xs
  rw [h] at hhead
  exact hhead

theorem dropWhile_gap {gap rest : List α} (hgap : ∀ x ∈ gap, isSep x = true) :
    (gap ++ rest).dropWhile isSep = rest.dropWhile isSep := by
  induction gap with
  | nil => rfl
  | cons x gap ih =>
    obtain ⟨hx, hgap⟩ := List.forall_mem_cons.mp hgap
    rw [List.cons_append, List.dropWhile_cons_of_pos hx]
    exact ih hgap

theorem takeWhile_piece {piece rest : List α} (hpiece : ∀ x ∈ piece, isSep x = false)
    (hend : ∀ x, rest.head? = some x → isSep x = true) :
    (piece ++ rest).takeWhile (fun x => !isSep x) = piece ∧ (piece ++ rest).dropWhile (fun x => !isSep x) = rest := by
  induction piece with
  | nil =>
    cases rest with
    | nil => exact ⟨rfl, rfl⟩
    | cons x rest => simp [hend x rfl]
  | cons x piece ih =>
    obtain ⟨hx, hpiece⟩ := List.forall_mem_cons.mp hpiece
    obtain ⟨htake, hdrop⟩ := ih hpiece
    simp [hx, htake, hdrop]

theorem word_blank {gap : List α} (hgap : ∀ x ∈ gap, isSep x = true) : word isSep gap = none := by
  have hdrop : gap.dropWhile isSep = [] := List.dropWhile_eq_nil_iff.mpr hgap
  unfold word
  rw [hdrop]

theorem word_piece {gap piece rest : List α} (hgap : ∀ x ∈ gap, isSep x = true) (hne : piece ≠ [])
    (hpiece : ∀ x ∈ piece, isSep x = false) (hend : ∀ x, rest.head? = some x → isSep x = true) :
    word isSep (gap ++ piece ++ rest) = some (piece, rest) := by
  obtain ⟨first, more, rfl⟩ := List.exists_cons_of_ne_nil hne
  obtain ⟨hfirst, hmore⟩ := List.forall_mem_cons.mp hpiece
  obtain ⟨htake, hdrop⟩ := takeWhile_piece hmore hend
  unfold word
  rw [List.append_assoc, dropWhile_gap hgap, List.cons_append, List.dropWhile_cons_of_neg (by simp [hfirst])]
  simp only [htake, hdrop]

/-- A text that has a word in it starts with separators, the word and the end of it. -/
theorem word_cases (isSep : α → Bool) (xs : List α) : (∀ x ∈ xs, isSep x = true) ∨ ∃ gap piece rest, xs = gap ++ piece ++ rest ∧
    (∀ x ∈ gap, isSep x = true) ∧ piece ≠ [] ∧ (∀ x ∈ piece, isSep x = false) ∧
    ∀ x, rest.head? = some x → isSep x = true := by
  cases hdrop : xs.dropWhile isSep with
  | nil => exact Or.inl (List.dropWhile_eq_nil_iff.mp hdrop)
  | cons first more =>
    refine Or.inr ⟨xs.takeWhile isSep, (first :: more).takeWhile fun x => !isSep x,
      (first :: more).dropWhile fun x => !isSep x, ?_, fun x hx => List.mem_takeWhile_imp hx, ?_, ?_, ?_⟩
    · rw [List.append_assoc, List.takeWhile_append_dropWhile, ← hdrop, List.takeWhile_append_dropWhile]
    · rw [List.takeWhile_cons_of_pos (by simp [not_of_dropWhile hdrop])]
      exact List.cons_ne_nil _ _
    · intro x hx
      simpa using List.mem_takeWhile_imp hx
    · intro x hx
      cases hrest : (first :: more).dropWhile fun x => !isSep x with
      | nil => rw [hrest] at hx; cases hx
      | cons y rest =>
        rw [hrest] at hx
        cases hx
        simpa using not_of_dropWhile hrest

theorem spaced_all (xs : List α) : Spaced isSep xs ((wordReader isSep).all xs) := by
  induction hlength : xs.length using Nat.strongRecOn generalizing xs with
  | ind n ih =>
    rcases word_cases isSep xs with hblank | ⟨gap, piece, rest, rfl, hgap, hne, hpiece, hend⟩
    · rw [Reader.all_none (r := wordReader isSep) (word_blank hblank)]
      exact .blank hblank
    · have hread : (wordReader isSep).read (gap ++ piece ++ rest) = some (piece, rest) :=
        word_piece hgap hne hpiece hend
      rw [Reader.all_some hread]
      refine .word hgap hne hpiece hend (ih _ ?_ rest rfl)
      rw [← hlength]
      exact (wordReader isSep).shorter hread

theorem Spaced.all_eq {xs : List α} {pieces : List (List α)} (h : Spaced isSep xs pieces) :
    (wordReader isSep).all xs = pieces := by
  induction h with
  | blank hgap => exact Reader.all_none (word_blank hgap)
  | word hgap hne hpiece hend later ih =>
    have hread := word_piece hgap hne hpiece hend
    rw [Reader.all_some (r := wordReader isSep) hread, ih]

/-- The words that are read are the ones that stand in the text. -/
theorem all_eq_iff {xs : List α} {pieces : List (List α)} :
    (wordReader isSep).all xs = pieces ↔ Spaced isSep xs pieces :=
  ⟨fun h => h ▸ spaced_all xs, Spaced.all_eq⟩

theorem Spaced.pad {gap xs : List α} {pieces : List (List α)} (hgap : ∀ x ∈ gap, isSep x = true)
    (h : Spaced isSep xs pieces) : Spaced isSep (gap ++ xs) pieces := by
  cases h with
  | blank hmore => exact .blank (List.forall_mem_append.mpr ⟨hgap, hmore⟩)
  | word hmore hne hpiece hend later =>
    rw [← List.append_assoc, ← List.append_assoc]
    exact .word (List.forall_mem_append.mpr ⟨hgap, hmore⟩) hne hpiece hend later

/-- A separator ends a word, whatever comes after it. -/
theorem Spaced.append {xs ys : List α} {sep : α} {pieces more : List (List α)} (hsep : isSep sep = true)
    (h : Spaced isSep xs pieces) (hlater : Spaced isSep ys more) : Spaced isSep (xs ++ sep :: ys) (pieces ++ more) := by
  induction h with
  | blank hgap =>
    have hpadded : Spaced isSep ([sep] ++ ys) more := hlater.pad (by simpa using hsep)
    exact hpadded.pad hgap
  | @word gap piece rest pieces hgap hne hpiece hend later ih =>
    rw [List.append_assoc (gap ++ piece)]
    refine .word hgap hne hpiece ?_ ih
    intro x hx
    cases rest with
    | nil =>
      cases hx
      exact hsep
    | cons y rest => exact hend x hx

/-- Words that each end with a separator. -/
theorem spaced_lines {sep : α} {pieces : List (List α)} (hsep : isSep sep = true)
    (h : ∀ piece ∈ pieces, piece ≠ [] ∧ ∀ x ∈ piece, isSep x = false) :
    Spaced isSep (pieces.flatMap (· ++ [sep])) pieces := by
  induction pieces with
  | nil => exact .blank fun x hx => nomatch hx
  | cons piece pieces ih =>
    obtain ⟨⟨hne, hpiece⟩, hlater⟩ := List.forall_mem_cons.mp h
    have hone : Spaced isSep ([] ++ piece ++ []) [piece] :=
      .word (fun x hx => nomatch hx) hne hpiece (fun x hx => nomatch hx) (.blank fun x hx => nomatch hx)
    rw [List.nil_append, List.append_nil] at hone
    have hlines := hone.append hsep (ih hlater)
    rw [List.flatMap_cons, List.append_assoc]
    exact hlines

section

variable [DecidableEq α] (newline : α)

/-- The first line and what comes after its end. -/
def line : List α → Option (List α × List α)
  | [] => none
  | x :: xs => some ((x :: xs).takeWhile (· ≠ newline), ((x :: xs).dropWhile (· ≠ newline)).drop 1)

theorem line_cases (xs : List α) : xs = [] ∨ (∃ first rest, xs = first ++ newline :: rest ∧
    line newline xs = some (first, rest)) ∨ line newline xs = some (xs, []) := by
  cases xs with
  | nil => exact Or.inl rfl
  | cons x xs =>
    refine Or.inr ?_
    have hsplit := List.takeWhile_append_dropWhile (p := fun y => decide (y ≠ newline)) (l := x :: xs)
    cases hdrop : (x :: xs).dropWhile fun y => decide (y ≠ newline) with
    | nil =>
      rw [hdrop, List.append_nil] at hsplit
      exact Or.inr (by simp only [line, hdrop, hsplit, List.drop_nil])
    | cons y rest =>
      have hy : y = newline := by simpa using not_of_dropWhile hdrop
      subst hy
      rw [hdrop] at hsplit
      exact Or.inl ⟨_, rest, hsplit.symm, by simp only [line, hdrop, List.drop_one, List.tail_cons]⟩

theorem line_shorter {xs first rest : List α} (h : line newline xs = some (first, rest)) : rest.length < xs.length := by
  cases xs with
  | nil => cases h
  | cons x xs =>
    cases h
    have hdropped := (List.dropWhile_suffix (fun y => decide (y ≠ newline)) (l := x :: xs)).length_le
    rw [List.length_cons] at hdropped ⊢
    rw [List.length_drop]
    omega

def lineReader : Reader α (List α) where
  read := line newline
  shorter := line_shorter newline

/-- Reading words line by line is reading the words of the whole text. -/
theorem words_of_lines (hnewline : isSep newline = true) (xs : List α) :
    ((lineReader newline).all xs).flatMap (wordReader isSep).all = (wordReader isSep).all xs := by
  induction hlength : xs.length using Nat.strongRecOn generalizing xs with
  | ind n ih =>
    rcases line_cases newline xs with rfl | ⟨first, rest, rfl, hread⟩ | hread
    · rw [Reader.all_none (r := lineReader newline) rfl, Reader.all_none (r := wordReader isSep) rfl]
      rfl
    · have hshorter := line_shorter newline hread
      rw [Reader.all_some (r := lineReader newline) hread, List.flatMap_cons, ih _ (hlength ▸ hshorter) rest rfl]
      exact (Spaced.append hnewline (spaced_all first) (spaced_all rest)).all_eq.symm
    · rw [Reader.all_some (r := lineReader newline) hread, Reader.all_none (r := lineReader newline) rfl]
      simp

end

end Words
