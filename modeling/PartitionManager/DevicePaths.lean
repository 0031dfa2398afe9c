import PartitionManager.DefaultTexts
import PartitionManager.Scan

namespace PartitionManager

/-- `isdigit(path.back())`. -/
def endsInDigit (path : Str) : Bool :=
  match path.getLast? with
  | some back => back.isDigit
  | none => false

/-- The device that `scan` opens for slot `i` of the table at `p`. -/
def partPath (p : Str) (i : Nat) : Str :=
  p ++ (if endsInDigit p then ['p'] else []) ++ to_string ((i + 1) % 2 ^ 32)

/-- The path ends in a digit followed by 'p'. -/
def EndsLikeSlot (path : Str) : Prop := path.getLast? = some 'p' ∧ endsInDigit path.dropLast = true

instance (path : Str) : Decidable (EndsLikeSlot path) := inferInstanceAs (Decidable (_ ∧ _))

section

variable {t t' stem stem' digits digits' : Str} {i i' : Nat}

/-- The two places of the source build the same text. -/
theorem slotPath_eq_partPath (t : Str) (i : Nat) : Partition.slotPath t i = partPath t i := by
  have hend : (t.getLast?.map Char.isDigit).getD false = endsInDigit t := by
    unfold endsInDigit
    cases t.getLast? with
    | none => rfl
    | some back => rfl
  unfold Partition.slotPath partPath
  dsimp only
  rw [hend]
  rfl

/-- A text is the digits at its end and what stands before them in one way only. -/
theorem eq_of_append_digits (hdigits : ∀ c ∈ digits, c.isDigit = true) (hdigits' : ∀ c ∈ digits', c.isDigit = true)
    (hstem : endsInDigit stem = false) (hstem' : endsInDigit stem' = false)
    (h : stem ++ digits = stem' ++ digits') : stem = stem' ∧ digits = digits' := by
  have hlast : ∀ {a more : Str}, endsInDigit (a ++ more) = false → (∀ c ∈ more, c.isDigit = true) → more = [] := by
    intro a more hend hmore
    by_contra hne
    have hback : (a ++ more).getLast? = some (more.getLast hne) := by
      rw [List.getLast?_append, List.getLast?_eq_some_getLast hne]
      rfl
    have hdigit := hmore _ (List.getLast_mem hne)
    unfold endsInDigit at hend
    rw [hback] at hend
    dsimp only at hend
    rw [hdigit] at hend
    cases hend
  rcases List.append_eq_append_iff.mp h with ⟨more, hmore, hrest⟩ | ⟨more, hmore, hrest⟩
  · have hnil : more = [] := by
      apply hlast (hmore ▸ hstem')
      intro c hc
      exact hdigits c (hrest ▸ List.mem_append_left _ hc)
    subst hnil
    exact ⟨by rw [hmore, List.append_nil], by rw [hrest, List.nil_append]⟩
  · have hnil : more = [] := by
      apply hlast (hmore ▸ hstem)
      intro c hc
      exact hdigits' c (hrest ▸ List.mem_append_left _ hc)
    subst hnil
    exact ⟨by rw [hmore, List.append_nil], by rw [hrest, List.nil_append]⟩

/-- The table with its separator: what comes before the number of the slot. -/
def slotStem (t : Str) : Str := t ++ if endsInDigit t then ['p'] else []

theorem endsInDigit_slotStem (t : Str) : endsInDigit (slotStem t) = false := by
  unfold slotStem
  cases hend : endsInDigit t with
  | true =>
    rw [if_pos rfl]
    unfold endsInDigit
    rw [List.getLast?_concat]
    rfl
  | false =>
    rw [if_neg Bool.false_ne_true, List.append_nil]
    exact hend

theorem endsLikeSlot_concat (h : endsInDigit t = true) : EndsLikeSlot (t ++ ['p']) := by
  refine ⟨List.getLast?_concat, ?_⟩
  rw [List.dropLast_concat]
  exact h

/-- The separator could only be part of a table that ends like a slot. -/
theorem slotStem_inj (ht : ¬ EndsLikeSlot t) (ht' : ¬ EndsLikeSlot t') (h : slotStem t = slotStem t') : t = t' := by
  unfold slotStem at h
  cases hend : endsInDigit t with
  | true =>
    cases hend' : endsInDigit t' with
    | true =>
      rw [hend, hend'] at h
      exact List.append_cancel_right h
    | false =>
      rw [hend, hend', if_pos rfl, if_neg Bool.false_ne_true, List.append_nil] at h
      exact absurd (h ▸ endsLikeSlot_concat hend) ht'
  | false =>
    cases hend' : endsInDigit t' with
    | true =>
      rw [hend, hend', if_pos rfl, if_neg Bool.false_ne_true, List.append_nil] at h
      exact absurd (h ▸ endsLikeSlot_concat hend') ht
    | false =>
      rw [hend, hend', if_neg Bool.false_ne_true, List.append_nil, List.append_nil] at h
      exact h

theorem to_string_inj {n m : Nat} (h : to_string n = to_string m) : n = m := by
  rw [← digitsValue_to_string n, h, digitsValue_to_string]

theorem partPath_inj (ht : ¬ EndsLikeSlot t) (ht' : ¬ EndsLikeSlot t') (hi : i < 2 ^ 32 - 1) (hi' : i' < 2 ^ 32 - 1)
    (h : partPath t i = partPath t' i') : t = t' ∧ i = i' := by
  obtain ⟨hstem, hnumber⟩ := eq_of_append_digits (to_string_digits _) (to_string_digits _)
    (endsInDigit_slotStem t) (endsInDigit_slotStem t') h
  have hslot := to_string_inj hnumber
  exact ⟨slotStem_inj ht ht' hstem, by omega⟩

end

/-- `path()` of a partition is the device that `scan` opens for its slot, and no
other slot has that device. -/
theorem device_paths_identify_slots (p p' : Partition) (hp : p.isLogical = false) (hp' : p'.isLogical = false)
    (hslot : ¬ EndsLikeSlot p.localTablePath) (hslot' : ¬ EndsLikeSlot p'.localTablePath)
    (hi : p.localIndex < 2 ^ 32 - 1) (hi' : p'.localIndex < 2 ^ 32 - 1) :
    p.path = partPath p.localTablePath p.localIndex ∧
    (∀ (dev : ScanDevice) (part : GPTPart), (dev.register p.localTablePath p.localIndex part).op =
      dev.openpart_open p.path) ∧
    (p.path = p'.path ↔ p.localTablePath = p'.localTablePath ∧ p.localIndex = p'.localIndex) := by
  have hpath : ∀ q : Partition, q.isLogical = false → q.path = partPath q.localTablePath q.localIndex := by
    intro q hq
    rw [Partition.path, hq, slotPath_eq_partPath]
    rfl
  refine ⟨hpath p hp, ?_, ?_⟩
  · intro dev part
    rw [hpath p hp, ← slotPath_eq_partPath]
    rfl
  · rw [hpath p hp, hpath p' hp']
    constructor
    · intro h
      exact partPath_inj hslot hslot' hi hi' h
    · intro h
      rw [h.1, h.2]

def emmcSlot : Partition := { Partition.empty with localTablePath := "/dev/block/mmcblk0" }

def scsiSlot : Partition := { Partition.empty with localTablePath := "/dev/block/sda", localIndex := 11 }

theorem emmcSlot_path_ne_scsiSlot_path : emmcSlot.path ≠ scsiSlot.path := by
  intro h
  have hident := device_paths_identify_slots emmcSlot scsiSlot rfl rfl (by decide) (by decide) (by decide) (by decide)
  exact absurd (hident.2.2.mp h).2 (by decide)

end PartitionManager
