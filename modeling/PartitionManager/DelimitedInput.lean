import PartitionManager.OptionLists

namespace PartitionManager

def duplicateElement : HelperError :=
  (HelperError.mk "Duplicate element in your inputs!" 1 false).cmdlineError.withCode EX_USAGE

/-- The loop of `splitIfHasDelim` over the elements; `set` holds those it has seen. -/
def checkDuplicates (set : List Str) : List Str → Outcome Unit
  | [] => .ok ()
  | str :: vec => if set.any (· = str) then raise duplicateElement else checkDuplicates (str :: set) vec

def splitIfHasDelim (s : Str) (delim : Char) (checkForBadUsage : Bool) : Outcome (List Str) :=
  if delim ∉ s then .ok []
  else do
    let vec := split s delim
    if checkForBadUsage then checkDuplicates [] vec
    .ok vec

/-- The two vectors that `processCommandLine` takes by reference. -/
structure InputVectors where
  vec1 : List Str
  vec2 : List Str
  deriving DecidableEq

/-- The whole string becomes the element of a vector that is still empty. -/
def pushWhole (vec : List Str) (s : Str) : List Str :=
  if vec.isEmpty && !s.isEmpty then vec ++ [s] else vec

/-- The vectors after the call, and how it ended. -/
def processCommandLine (vecs : InputVectors) (s1 s2 : Str) (delim : Char) (checkForBadUsage : Bool) :
    InputVectors × Outcome Unit :=
  match splitIfHasDelim s1 delim checkForBadUsage with
  | .error stop => (vecs, .error stop)
  | .ok vec1 =>
    match splitIfHasDelim s2 delim checkForBadUsage with
    | .error stop => ({ vecs with vec1 }, .error stop)
    | .ok vec2 => (⟨pushWhole vec1 s1, pushWhole vec2 s2⟩, .ok ())

/-- The vector holds the pieces of the string between delimiters, without the empty ones. -/
structure HoldsPieces (s : Str) (delim : Char) (vec : List Str) : Prop where
  pieces : vec = Delimited.fields delim s
  proper : ∀ piece ∈ vec, piece ≠ [] ∧ delim ∉ piece
  none : (∀ c ∈ s, c = delim) → vec = []

def HasEqualPieces (s : Str) (delim : Char) : Prop := ¬ (Delimited.fields delim s).Nodup

instance (s : Str) (delim : Char) : Decidable (HasEqualPieces s delim) := inferInstanceAs (Decidable (¬ _))

/-- The call throws for equal pieces that it is to check for, and for nothing
else; when it returns, the vectors hold the pieces of their strings. -/
structure ProcessesInput (s1 s2 : Str) (delim : Char) (checkForBadUsage : Bool)
    (result : InputVectors × Outcome Unit) : Prop where
  throws_iff : result.2 = raise duplicateElement ↔
    checkForBadUsage = true ∧ (HasEqualPieces s1 delim ∨ HasEqualPieces s2 delim)
  returns : result.2 ≠ raise duplicateElement →
    result.2 = .ok () ∧ HoldsPieces s1 delim result.1.vec1 ∧ HoldsPieces s2 delim result.1.vec2

/-- The string is not empty, and nothing but delimiters. -/
def OnlyDelimiters (s : Str) (delim : Char) : Prop := s ≠ [] ∧ ∀ c ∈ s, c = delim

section

variable {s : Str} {delim : Char} {check : Bool} {set vec : List Str}

theorem checkDuplicates_eq : checkDuplicates set vec =
    if vec.Nodup ∧ ∀ str ∈ vec, str ∉ set then .ok () else raise duplicateElement := by
  induction vec generalizing set with
  | nil => simp [checkDuplicates]
  | cons str vec ih =>
    unfold checkDuplicates
    by_cases hseen : str ∈ set
    · have hfail : ¬ ((str :: vec).Nodup ∧ ∀ x ∈ str :: vec, x ∉ set) := by
        intro h
        exact h.2 str List.mem_cons_self hseen
      rw [if_pos (by simpa using hseen), if_neg hfail]
    · rw [if_neg (by simpa using hseen), ih]
      refine if_congr ?_ rfl rfl
      rw [List.nodup_cons, List.forall_mem_cons]
      constructor
      · intro h
        obtain ⟨hnodup, hnew⟩ := h
        refine ⟨⟨?_, hnodup⟩, hseen, ?_⟩
        · intro hmem
          exact hnew str hmem List.mem_cons_self
        · intro x hx hset
          exact hnew x hx (List.mem_cons_of_mem _ hset)
      · intro h
        obtain ⟨⟨hfresh, hnodup⟩, _, hnew⟩ := h
        refine ⟨hnodup, ?_⟩
        intro x hx hmem
        rcases List.mem_cons.mp hmem with rfl | hset
        · exact hfresh hx
        · exact hnew x hx hset

/-- A string without the delimiter is at most one piece. -/
theorem nodup_fields_of_not_mem (h : delim ∉ s) : (Delimited.fields delim s).Nodup := by
  by_cases hs : s = []
  · subst s
    exact List.nodup_nil
  · rw [Delimited.fields_of_not_mem hs h]
    exact List.nodup_singleton s

theorem splitIfHasDelim_eq : splitIfHasDelim s delim check =
    if check = true ∧ HasEqualPieces s delim then raise duplicateElement
    else .ok (if delim ∈ s then Delimited.fields delim s else []) := by
  unfold splitIfHasDelim HasEqualPieces
  by_cases hdelim : delim ∈ s
  · rw [if_neg (not_not.mpr hdelim), if_pos hdelim, split_eq_fields]
    cases check with
    | false => rfl
    | true =>
      dsimp only
      rw [if_pos rfl, checkDuplicates_eq]
      by_cases hnodup : (Delimited.fields delim s).Nodup
      · rw [if_pos ⟨hnodup, fun x _ => List.not_mem_nil⟩, if_neg (fun h => h.2 hnodup)]
        rfl
      · rw [if_neg (fun h => hnodup h.1), if_pos ⟨rfl, hnodup⟩]
        rfl
  · rw [if_pos hdelim, if_neg (fun h => h.2 (nodup_fields_of_not_mem hdelim)), if_neg hdelim]

/-- The fallback takes a string of nothing but delimiters for a piece. -/
theorem pushWhole_of_onlyDelimiters (h : OnlyDelimiters s delim) :
    pushWhole (if delim ∈ s then Delimited.fields delim s else []) s = [s] := by
  have hfields : Delimited.fields delim s = [] := Delimited.fields_eq_nil_iff.mpr h.2
  rw [hfields, ite_self]
  simp [pushWhole, h.1]

/-- The fallback restores the one piece of a string without delimiters. -/
theorem pushWhole_of_not_onlyDelimiters (h : ¬ OnlyDelimiters s delim) :
    pushWhole (if delim ∈ s then Delimited.fields delim s else []) s = Delimited.fields delim s := by
  by_cases hs : s = []
  · subst s
    rfl
  · by_cases hdelim : delim ∈ s
    · have hfields : Delimited.fields delim s ≠ [] := by
        intro hnil
        exact h ⟨hs, Delimited.fields_eq_nil_iff.mp hnil⟩
      rw [if_pos hdelim]
      simp [pushWhole, hfields]
    · rw [if_neg hdelim, Delimited.fields_of_not_mem hs hdelim]
      simp [pushWhole, hs]

theorem holdsPieces_fields : HoldsPieces s delim (Delimited.fields delim s) where
  pieces := rfl
  proper := fun _ hpiece =>
    ⟨(Delimited.mem_fields_iff.mp hpiece).2, Delimited.not_mem_of_mem_fields hpiece⟩
  none := Delimited.fields_eq_nil_iff.mpr

theorem holdsPieces_pushWhole_iff :
    HoldsPieces s delim (pushWhole (if delim ∈ s then Delimited.fields delim s else []) s) ↔
      ¬ OnlyDelimiters s delim := by
  by_cases h : OnlyDelimiters s delim
  · rw [pushWhole_of_onlyDelimiters h]
    refine iff_of_false ?_ (not_not.mpr h)
    intro hpieces
    have hnil := hpieces.none h.2
    cases hnil
  · rw [pushWhole_of_not_onlyDelimiters h]
    exact iff_of_true holdsPieces_fields h

end

/-- Where both strings pass the check, the call is right about each on its own. -/
theorem processesInput_iff {vecs : InputVectors} {s1 s2 : Str} {delim : Char} {check : Bool}
    (h1 : ¬ (check = true ∧ HasEqualPieces s1 delim)) (h2 : ¬ (check = true ∧ HasEqualPieces s2 delim)) :
    ProcessesInput s1 s2 delim check (processCommandLine vecs s1 s2 delim check) ↔
      ¬ OnlyDelimiters s1 delim ∧ ¬ OnlyDelimiters s2 delim := by
  have hresult : processCommandLine vecs s1 s2 delim check =
      (⟨pushWhole (if delim ∈ s1 then Delimited.fields delim s1 else []) s1,
        pushWhole (if delim ∈ s2 then Delimited.fields delim s2 else []) s2⟩, .ok ()) := by
    unfold processCommandLine
    rw [splitIfHasDelim_eq, if_neg h1, splitIfHasDelim_eq, if_neg h2]
  have hnoThrow : (Except.ok () : Outcome Unit) ≠ raise duplicateElement := by
    intro h
    cases h
  rw [hresult]
  constructor
  · intro h
    obtain ⟨_, hvec1, hvec2⟩ := h.returns hnoThrow
    exact ⟨holdsPieces_pushWhole_iff.mp hvec1, holdsPieces_pushWhole_iff.mp hvec2⟩
  · intro h
    refine ⟨?_, fun _ => ?_⟩
    · refine iff_of_false hnoThrow ?_
      intro hequal
      rcases hequal.2 with hs1 | hs2
      · exact h1 ⟨hequal.1, hs1⟩
      · exact h2 ⟨hequal.1, hs2⟩
    · exact ⟨rfl, holdsPieces_pushWhole_iff.mpr h.1, holdsPieces_pushWhole_iff.mpr h.2⟩

/-- A call that throws as it should is right whatever it leaves in the vectors. -/
theorem processesInput_of_throw {vecs : InputVectors} {s1 s2 : Str} {delim : Char} {check : Bool}
    (hcheck : check = true) (hequal : HasEqualPieces s1 delim ∨ HasEqualPieces s2 delim) :
    ProcessesInput s1 s2 delim check (processCommandLine vecs s1 s2 delim check) := by
  have hthrow : (processCommandLine vecs s1 s2 delim check).2 = raise duplicateElement := by
    unfold processCommandLine
    rw [splitIfHasDelim_eq, splitIfHasDelim_eq]
    by_cases hs1 : HasEqualPieces s1 delim
    · rw [if_pos ⟨hcheck, hs1⟩]
      rfl
    · have h1 : ¬ (check = true ∧ HasEqualPieces s1 delim) := fun h => hs1 h.2
      have h2 : check = true ∧ HasEqualPieces s2 delim := ⟨hcheck, hequal.resolve_left hs1⟩
      rw [if_neg h1, if_pos h2]
      rfl
  exact ⟨iff_of_true hthrow ⟨hcheck, hequal⟩, fun h => absurd hthrow h⟩

/-- The call keeps to its purpose exactly where it throws for equal pieces or
neither string is made of delimiters only. -/
theorem processCommandLine_processesInput_iff (vecs : InputVectors) (s1 s2 : Str) (delim : Char) (check : Bool) :
    ProcessesInput s1 s2 delim check (processCommandLine vecs s1 s2 delim check) ↔
      (check = true ∧ (HasEqualPieces s1 delim ∨ HasEqualPieces s2 delim)) ∨
        (¬ OnlyDelimiters s1 delim ∧ ¬ OnlyDelimiters s2 delim) := by
  by_cases hthrow : check = true ∧ (HasEqualPieces s1 delim ∨ HasEqualPieces s2 delim)
  · exact iff_of_true (processesInput_of_throw hthrow.1 hthrow.2) (Or.inl hthrow)
  · have h1 : ¬ (check = true ∧ HasEqualPieces s1 delim) := fun h => hthrow ⟨h.1, Or.inl h.2⟩
    have h2 : ¬ (check = true ∧ HasEqualPieces s2 delim) := fun h => hthrow ⟨h.1, Or.inr h.2⟩
    rw [processesInput_iff h1 h2, or_iff_right hthrow]

theorem processCommandLine_only_delimiters :
    ¬ ProcessesInput [','] [] ',' true (processCommandLine ⟨[], []⟩ [','] [] ',' true) := by
  intro h
  have hreturns : (processCommandLine ⟨[], []⟩ [','] [] ',' true).2 ≠ raise duplicateElement := by decide
  have hnil := (h.returns hreturns).2.1.none (List.forall_mem_singleton.mpr rfl)
  revert hnil
  decide

end PartitionManager
