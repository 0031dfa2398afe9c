import Mathlib.Data.List.Infix

namespace Delimited

variable {α : Type} {sep other x : α} {xs field : List α} {parts : List (List α)}

theorem infix_intercalate (hfield : field ∈ parts) : field <:+: [sep].intercalate parts := by
  induction parts with
  | nil => exact absurd hfield List.not_mem_nil
  | cons first rest ih =>
    by_cases hrest : rest = []
    · subst hrest
      obtain rfl := List.mem_singleton.mp hfield
      simpa only [List.intercalate_singleton] using List.infix_refl field
    · rw [List.intercalate_cons_of_ne_nil hrest]
      rcases List.mem_cons.mp hfield with rfl | hlater
      · rw [List.append_assoc]
        exact (List.prefix_append field _).isInfix
      · exact (ih hlater).trans (List.suffix_append _ _).isInfix

variable [BEq α]

/-- What stands between the separators of a list, without the empty parts. -/
def fields (sep : α) (xs : List α) : List (List α) := (xs.splitOn sep).filter fun field => !field.isEmpty

theorem mem_fields_iff : field ∈ fields sep xs ↔ field ∈ xs.splitOn sep ∧ field ≠ [] := by
  simp [fields]

variable [LawfulBEq α]

theorem not_mem_of_mem_splitOn (h : field ∈ xs.splitOn sep) : sep ∉ field := by
  induction xs generalizing field with
  | nil =>
    have hnil : field = [] := by simpa using h
    rw [hnil]
    exact List.not_mem_nil
  | cons y ys ih =>
    rw [List.splitOn_cons_eq_if_modifyHead] at h
    by_cases hy : y = sep
    · rw [if_pos (by simpa using hy)] at h
      rcases List.mem_cons.mp h with rfl | hlater
      · exact List.not_mem_nil
      · exact ih hlater
    · rw [if_neg (by simpa using hy)] at h
      obtain ⟨first, rest, hsplit⟩ := List.exists_cons_of_ne_nil (List.splitOn_ne_nil sep ys)
      rw [hsplit, List.modifyHead_cons] at h
      rcases List.mem_cons.mp h with rfl | hlater
      · have hfirst : sep ∉ first := ih (by rw [hsplit]; exact List.mem_cons_self)
        intro hmem
        rcases List.mem_cons.mp hmem with hsep | hmem
        · exact hy hsep.symm
        · exact hfirst hmem
      · exact ih (by rw [hsplit]; exact List.mem_cons_of_mem _ hlater)

/-- What starts a list and has no separator in it starts the first part. -/
theorem exists_prefix_splitOn {part : List α} (hpart : sep ∉ part) (h : part <+: xs) :
    ∃ first rest, xs.splitOn sep = first :: rest ∧ part <+: first := by
  induction xs generalizing part with
  | nil => exact ⟨[], [], rfl, h⟩
  | cons y ys ih =>
    rw [List.splitOn_cons_eq_if_modifyHead]
    cases part with
    | nil =>
      obtain ⟨first, rest, hsplit, _⟩ := ih hpart (List.nil_prefix)
      rw [hsplit]
      by_cases hy : y = sep
      · rw [if_pos (by simpa using hy)]
        exact ⟨[], first :: rest, rfl, List.nil_prefix⟩
      · rw [if_neg (by simpa using hy)]
        exact ⟨y :: first, rest, rfl, List.nil_prefix⟩
    | cons z part =>
      obtain ⟨rfl, hprefix⟩ := List.cons_prefix_cons.mp h
      rw [List.mem_cons, not_or] at hpart
      obtain ⟨first, rest, hsplit, hfirst⟩ := ih hpart.2 hprefix
      rw [hsplit, if_neg (by simpa using Ne.symm hpart.1)]
      exact ⟨z :: first, rest, rfl, List.cons_prefix_cons.mpr ⟨rfl, hfirst⟩⟩

/-- What has no separator in it stands within one part. -/
theorem exists_infix_splitOn {part : List α} (hpart : sep ∉ part) (h : part <:+: xs) :
    ∃ field ∈ xs.splitOn sep, part <:+: field := by
  induction xs with
  | nil => exact ⟨[], List.mem_singleton_self _, h⟩
  | cons y ys ih =>
    rcases List.infix_cons_iff.mp h with hprefix | hinfix
    · obtain ⟨first, rest, hsplit, hfirst⟩ := exists_prefix_splitOn hpart hprefix
      rw [hsplit]
      exact ⟨first, List.mem_cons_self, hfirst.isInfix⟩
    · obtain ⟨field, hfield, hin⟩ := ih hinfix
      obtain ⟨first, rest, hsplit⟩ := List.exists_cons_of_ne_nil (List.splitOn_ne_nil sep ys)
      rw [hsplit] at hfield
      rw [List.splitOn_cons_eq_if_modifyHead, hsplit]
      by_cases hy : y = sep
      · rw [if_pos (by simpa using hy)]
        exact ⟨field, List.mem_cons_of_mem _ hfield, hin⟩
      · rw [if_neg (by simpa using hy), List.modifyHead_cons]
        rcases List.mem_cons.mp hfield with rfl | hlater
        · exact ⟨y :: field, List.mem_cons_self, List.infix_cons hin⟩
        · exact ⟨field, List.mem_cons_of_mem _ hlater, hin⟩

/-- Nothing but separators is lost. -/
theorem exists_mem_splitOn (hx : x ∈ xs) (hne : x ≠ sep) : ∃ field ∈ xs.splitOn sep, x ∈ field := by
  have hpart : sep ∉ [x] := by
    intro hmem
    exact hne (List.mem_singleton.mp hmem).symm
  obtain ⟨field, hfield, hin⟩ := exists_infix_splitOn hpart ((List.singleton_infix_iff x xs).mpr hx)
  exact ⟨field, hfield, (List.singleton_infix_iff x field).mp hin⟩

theorem not_mem_of_mem_fields (h : field ∈ fields sep xs) : sep ∉ field :=
  not_mem_of_mem_splitOn (mem_fields_iff.mp h).1

theorem exists_mem_fields (hx : x ∈ xs) (hne : x ≠ sep) : ∃ field ∈ fields sep xs, x ∈ field := by
  obtain ⟨field, hfield, hmem⟩ := exists_mem_splitOn hx hne
  exact ⟨field, mem_fields_iff.mpr ⟨hfield, List.ne_nil_of_mem hmem⟩, hmem⟩

theorem fields_of_not_mem (hne : xs ≠ []) (h : sep ∉ xs) : fields sep xs = [xs] := by
  rw [fields, List.splitOn_eq_singleton h]
  simp [hne]

/-- A list of nothing but separators has no fields. -/
theorem fields_eq_nil_iff : fields sep xs = [] ↔ ∀ x ∈ xs, x = sep := by
  constructor
  · intro h x hx
    by_contra hne
    obtain ⟨field, hfield, _⟩ := exists_mem_fields hx hne
    rw [h] at hfield
    exact List.not_mem_nil hfield
  · intro h
    refine List.eq_nil_iff_forall_not_mem.mpr fun field hfield => ?_
    obtain ⟨hmem, hne⟩ := mem_fields_iff.mp hfield
    obtain ⟨x, hx⟩ := List.exists_mem_of_ne_nil field hne
    have hin : x ∈ xs := by
      have hjoin : [sep].intercalate (xs.splitOn sep) = xs := List.intercalate_splitOn sep
      rw [← hjoin]
      exact (infix_intercalate hmem).subset hx
    exact not_mem_of_mem_splitOn hmem (h x hin ▸ hx)

theorem fields_append_cons (xs ys : List α) : fields sep (xs ++ sep :: ys) = fields sep xs ++ fields sep ys := by
  unfold fields
  rw [List.splitOn_append_cons_self, List.filter_append]

/-- Parts that are joined by a separator are the fields again. -/
theorem fields_intercalate (hne : parts ≠ []) (hparts : ∀ part ∈ parts, part ≠ [] ∧ sep ∉ part) :
    fields sep ([sep].intercalate parts) = parts := by
  rw [fields, List.splitOn_intercalate sep (fun part hpart => (hparts part hpart).2) hne]
  refine List.filter_eq_self.mpr fun part hpart => ?_
  simpa using (hparts part hpart).1

/-- Parts that are joined by another separator are the fields only where nothing was joined. -/
theorem fields_intercalate_other_iff (hother : other ≠ sep) (hne : parts ≠ [])
    (hparts : ∀ part ∈ parts, part ≠ [] ∧ other ∉ part) :
    fields sep ([other].intercalate parts) = parts ↔ ∃ part, parts = [part] ∧ sep ∉ part := by
  obtain ⟨first, rest, rfl⟩ := List.exists_cons_of_ne_nil hne
  cases rest with
  | nil =>
    have hfirst : first ≠ [] := (hparts first List.mem_cons_self).1
    rw [List.intercalate_singleton]
    constructor
    · intro h
      have hmem : first ∈ fields sep first := by
        rw [h]
        exact List.mem_cons_self
      exact ⟨first, rfl, not_mem_of_mem_fields hmem⟩
    · intro h
      obtain ⟨part, hpart, hsep⟩ := h
      obtain rfl := List.singleton_inj.mp hpart
      exact fields_of_not_mem hfirst hsep
  | cons second rest =>
    constructor
    · intro h
      -- the separator that joined the first two parts is still in a field
      have hjoin : other ∈ [other].intercalate (first :: second :: rest) := by
        rw [List.intercalate_cons_cons]
        simp
      obtain ⟨field, hfield, hmem⟩ := exists_mem_fields hjoin hother
      rw [h] at hfield
      exact absurd hmem (hparts field hfield).2
    · intro h
      obtain ⟨part, hpart, _⟩ := h
      cases hpart

end Delimited
