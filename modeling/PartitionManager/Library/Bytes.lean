import Mathlib.Data.List.Basic

namespace Bytes

variable {α : Type}

/-- The `count` elements of `content` from `offset` on, fewer at its end. -/
def slice (content : List α) (offset count : Nat) : List α := (content.drop offset).take count

theorem slice_length (content : List α) (offset count : Nat) :
    (slice content offset count).length = min count (content.length - offset) := by
  simp [slice]

theorem take_append_slice (content : List α) (offset count : Nat) :
    content.take offset ++ slice content offset count = content.take (offset + count) :=
  List.take_add.symm

theorem take_add_slice_length (content : List α) (offset count : Nat) :
    content.take (offset + (slice content offset count).length) = content.take (offset + count) := by
  have hlength := slice_length content offset count
  by_cases hend : offset + count ≤ content.length
  · have hfull : (slice content offset count).length = count := by omega
    rw [hfull]
  · rw [List.take_of_length_le (by omega), List.take_of_length_le (by omega)]

/-- A slice goes on with what the next one has, whatever there is of it. -/
theorem slice_append_slice (content : List α) (offset first count : Nat) :
    slice content offset first ++ slice content (offset + first) count =
      slice content offset (first + (slice content (offset + first) count).length) := by
  have hlength := slice_length content (offset + first) count
  have hsplit : slice content offset (first + (slice content (offset + first) count).length) =
      slice content offset first ++ slice content (offset + first) (slice content (offset + first) count).length := by
    unfold slice
    rw [List.take_add, List.drop_drop]
  rw [hsplit]
  congr 1
  unfold slice
  rw [List.take_eq_take_iff]
  rw [List.length_take, List.length_drop]
  omega

theorem slice_getElem? (content : List α) (offset count i : Nat) :
    (slice content offset count)[i]? = if i < count then content[offset + i]? else none := by
  unfold slice
  rw [List.getElem?_take, List.getElem?_drop]

theorem slice_succ {content : List α} {offset count : Nat} (h : offset + count < content.length) :
    slice content offset (count + 1) = slice content offset count ++ [content[offset + count]] := by
  unfold slice
  rw [List.take_add_one, List.getElem?_drop, List.getElem?_eq_getElem h]
  rfl

/-- A list occurs in another where one of its slices is that list. -/
theorem infix_iff_slice {pattern content : List α} : pattern <:+: content ↔
    ∃ i, i + pattern.length ≤ content.length ∧ slice content i pattern.length = pattern := by
  constructor
  · rintro ⟨before, after, rfl⟩
    refine ⟨before.length, by simp, ?_⟩
    unfold slice
    rw [List.append_assoc, List.drop_left, List.take_left]
  · rintro ⟨i, _, h⟩
    rw [← h]
    exact (List.take_prefix _ _).isInfix.trans (List.drop_suffix _ _).isInfix

theorem slice_take (content : List α) (offset count count' : Nat) :
    (slice content offset count).take count' = slice content offset (min count' count) := by
  unfold slice
  rw [List.take_take]

theorem slice_of_append {content rest : List α} {offset count : Nat}
    (h : offset + count ≤ content.length) : slice (content ++ rest) offset count = slice content offset count := by
  unfold slice
  rw [List.drop_append_of_le_length (by omega), List.take_append_of_le_length]
  rw [List.length_drop]
  omega

theorem slice_replicate_append {content : List α} {a : α} {total offset count : Nat}
    (h : content.length ≤ offset) (hle : offset + count ≤ content.length + total) :
    slice (content ++ List.replicate total a) offset count = List.replicate count a := by
  apply List.ext_getElem?
  intro i
  rw [slice_getElem?]
  split
  next hi =>
    rw [List.getElem?_append_right (by omega), List.getElem?_replicate, List.getElem?_replicate,
      if_pos (by omega), if_pos hi]
  next hi => rw [List.getElem?_eq_none (by rw [List.length_replicate]; omega)]

/-- A slice of a slice that reaches that far is one of the whole. -/
theorem slice_slice {content : List α} {offset count offset' count' : Nat}
    (h : offset' + count' ≤ (slice content offset count).length) :
    slice (slice content offset count) offset' count' = slice content (offset + offset') count' := by
  have hlength := slice_length content offset count
  apply List.ext_getElem?
  intro i
  by_cases hi : i < count'
  · rw [slice_getElem?, if_pos hi, slice_getElem?, if_pos (by omega), slice_getElem?, if_pos hi, Nat.add_assoc]
  · rw [slice_getElem?, if_neg hi, slice_getElem?, if_neg hi]

/-- In any case it is how that one begins. -/
theorem slice_slice_prefix (content : List α) (offset count offset' count' : Nat) :
    slice (slice content offset count) offset' count' <+: slice content (offset + offset') count' := by
  rw [List.prefix_iff_getElem?]
  intro i hi
  have hlength := slice_length (slice content offset count) offset' count'
  have hinner := slice_length content offset count
  have hread := List.getElem?_eq_getElem hi
  rw [slice_getElem?, if_pos (by omega), slice_getElem?, if_pos (by omega)] at hread
  rw [slice_getElem?, if_pos (by omega), Nat.add_assoc]
  exact hread

/-- `content` with `chunk` laid over it from `offset` on. -/
def overwrite (content : List α) (offset : Nat) (chunk : List α) : List α :=
  content.take offset ++ chunk ++ content.drop (offset + chunk.length)

theorem overwrite_length {content chunk : List α} {offset : Nat}
    (h : offset + chunk.length ≤ content.length) :
    (overwrite content offset chunk).length = content.length := by
  simp only [overwrite, List.length_append, List.length_take, List.length_drop]
  omega

theorem overwrite_append (before rest chunk : List α) :
    overwrite (before ++ rest) before.length chunk = before ++ chunk ++ rest.drop chunk.length := by
  unfold overwrite
  rw [List.take_left, ← List.drop_drop, List.drop_left]

/-- Inside the range an overwritten list holds the chunk, outside it what it held before. -/
theorem overwrite_getElem? {content chunk : List α} {offset : Nat}
    (h : offset + chunk.length ≤ content.length) (i : Nat) :
    (overwrite content offset chunk)[i]? =
      if offset ≤ i ∧ i < offset + chunk.length then chunk[i - offset]? else content[i]? := by
  have ht : (content.take offset).length = offset := by
    rw [List.length_take]
    omega
  unfold overwrite
  rcases Nat.lt_or_ge i offset with hlt | hge
  · rw [List.append_assoc, List.getElem?_append_left (by omega), List.getElem?_take_of_lt hlt,
      if_neg (by omega)]
  · rcases Nat.lt_or_ge i (offset + chunk.length) with hin | hout
    · rw [List.getElem?_append_left (by rw [List.length_append]; omega),
        List.getElem?_append_right (by omega), ht, if_pos ⟨hge, hin⟩]
    · rw [List.getElem?_append_right (by rw [List.length_append]; omega), List.getElem?_drop,
        List.length_append, ht, if_neg (by omega)]
      congr 1
      omega

/-- What has been laid over a list is read back from there. -/
theorem slice_overwrite {content chunk : List α} {offset : Nat} (h : offset + chunk.length ≤ content.length) :
    slice (overwrite content offset chunk) offset chunk.length = chunk := by
  apply List.ext_getElem?
  intro i
  rw [slice_getElem?]
  split
  next hi => rw [overwrite_getElem? h, if_pos ⟨by omega, by omega⟩, Nat.add_sub_cancel_left]
  next hi => rw [List.getElem?_eq_none (by omega)]

end Bytes
