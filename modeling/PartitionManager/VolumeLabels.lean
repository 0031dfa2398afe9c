import PartitionManager.Filesystems
import PartitionManager.Library.Utf16

namespace PartitionManager

/-- `sizeof(op->label)`. -/
def labelSize : Nat := 256

/-- `sizeof(sb.s_volume_name)`, which erofs shares. -/
def volumeNameSize : Nat := 16

/-- `MAX_VOLUME_NAME` of f2fs, in units. -/
def MAX_VOLUME_NAME : Nat := 512

/-- The superblocks that a label is read from. -/
inductive SuperblockFormat where
  | ext4
  | f2fs
  | erofs
  | vfat
  deriving DecidableEq

/-- `strncpy` into an array: the text of the source, then zeros up to `count`. -/
def strncpyInto (dest : List UInt8) (src : Nat → UInt8) (offset count : Nat) : List UInt8 :=
  Bytes.overwrite dest 0
    (strncpy src offset count ++ List.replicate (count - (strncpy src offset count).length) 0)

def volume_name (sb : Nat → UInt8) (i : Nat) : Nat := field sb (124 + 2 * i) 2

/-- The loop of `read_f2fs_info` from `i` on, with `n` turns left, and the terminator behind it. -/
def copyUnits (sb : Nat → UInt8) : Nat → Nat → List UInt8 → List UInt8
  | 0, i, label => label.set i 0
  | n + 1, i, label =>
    if volume_name sb i ≠ 0 then copyUnits sb n (i + 1) (label.set i (UInt8.ofNat (volume_name sb i)))
    else label.set i 0

/-- The loop of `read_vfat_info`, with `n` places left to look at. -/
def cleanSpaces : Nat → List UInt8 → List UInt8
  | 0, label => label
  | n + 1, label => if label[n]? = some 0x20 then cleanSpaces n (label.set n 0) else label

def vol_label (bs : Nat → UInt8) : List UInt8 :=
  if Bytes.window bs 82 8 = fat32Type then Bytes.window bs 71 MSDOS_NAME else Bytes.window bs 43 MSDOS_NAME

namespace SuperblockFormat

variable (format : SuperblockFormat) (sb : Nat → UInt8)

/-- The array `op->label` after the function that reads this superblock. -/
def storeLabel (label : List UInt8) : List UInt8 :=
  match format with
  | ext4 => (strncpyInto label sb 120 (labelSize - 1)).set (labelSize - 1) 0
  | f2fs => copyUnits sb (labelSize - 1) 0 label
  | erofs => (strncpyInto label sb 64 (labelSize - 1)).set (labelSize - 1) 0
  | vfat => cleanSpaces MSDOS_NAME ((Bytes.overwrite label 0 (vol_label sb)).set MSDOS_NAME 0)

/-- The bytes of the volume-name field. -/
def volumeField : List UInt8 :=
  match format with
  | ext4 => Bytes.window sb 120 volumeNameSize
  | f2fs => Bytes.window sb 124 (2 * MAX_VOLUME_NAME)
  | erofs => Bytes.window sb 64 volumeNameSize
  | vfat => vol_label sb

/-- The units of an f2fs name, up to its end. -/
def units (bytes : List UInt8) : List Nat :=
  ((List.range MAX_VOLUME_NAME).map fun i => Bytes.decode (Bytes.slice bytes (2 * i) 2)).takeWhile (· ≠ 0)

/-- The label that the bytes of a field stand for. -/
def decodeField (bytes : List UInt8) : List UInt8 :=
  match format with
  | ext4 | erofs => bytes.takeWhile (· ≠ 0)
  | f2fs => Utf16.toUtf8 (units bytes)
  | vfat => bytes.rdropWhile (· = 0x20)

/-- Whatever follows the field and whatever the label was, it becomes that of the field,
with a terminator inside the array. -/
def LabelFromField : Prop :=
  ∀ sb' label, format.volumeField sb' = format.volumeField sb → label.length = labelSize →
    (format.storeLabel sb' label).length = labelSize ∧
      format.decodeField (format.volumeField sb) ++ [0] <+: format.storeLabel sb' label

/-- The fields that are copied right: those that end themselves, and f2fs names in ASCII
that fit the array. -/
def FieldCopied : Prop :=
  match format with
  | ext4 | erofs => 0 ∈ format.volumeField sb
  | f2fs => (∀ u ∈ units (format.volumeField sb), u < 0x80) ∧ (units (format.volumeField sb)).length < labelSize
  | vfat => True

/-- What the function puts before the terminator. -/
def written : List UInt8 :=
  match format with
  | ext4 => strncpy sb 120 (labelSize - 1)
  | f2fs => (((List.range (labelSize - 1)).map (volume_name sb)).takeWhile (· ≠ 0)).map UInt8.ofNat
  | erofs => strncpy sb 64 (labelSize - 1)
  | vfat => (vol_label sb).rdropWhile (· = 0x20)

end SuperblockFormat

section

variable {sb : Nat → UInt8} {label : List UInt8}

theorem take_set_begins {i : Nat} (h : i < label.length) (b : UInt8) : label.take i ++ [b] <+: label.set i b := by
  have htake : (label.set i b).take (i + 1) = label.take i ++ [b] := by
    rw [List.take_add_one, List.take_set_of_le (Nat.le_refl i), List.getElem?_set_self h]
    rfl
  rw [← htake]
  exact List.take_prefix _ _

theorem strncpy_length_le (buf : Nat → UInt8) (offset count : Nat) : (strncpy buf offset count).length ≤ count := by
  have hle := (List.takeWhile_prefix (· ≠ 0) (l := Bytes.window buf offset count)).length_le
  rwa [Bytes.window_length] at hle

/-- With the terminator the rest of the array is zero. -/
theorem strncpyInto_set (sb : Nat → UInt8) (offset : Nat) (h : label.length = labelSize) :
    (strncpyInto label sb offset (labelSize - 1)).set (labelSize - 1) 0 =
      strncpy sb offset (labelSize - 1) ++
        List.replicate (labelSize - (strncpy sb offset (labelSize - 1)).length) 0 := by
  have hshort := strncpy_length_le sb offset (labelSize - 1)
  have hsize : labelSize = 256 := rfl
  have hchunk : (strncpy sb offset (labelSize - 1) ++
      List.replicate (labelSize - 1 - (strncpy sb offset (labelSize - 1)).length) 0).length = labelSize - 1 := by
    rw [List.length_append, List.length_replicate]
    omega
  obtain ⟨last, hlast⟩ : ∃ last, label.drop (labelSize - 1) = [last] := by
    apply List.length_eq_one_iff.mp
    rw [List.length_drop]
    omega
  unfold strncpyInto Bytes.overwrite
  rw [List.take_zero, List.nil_append, Nat.zero_add, hchunk, hlast, List.set_append_right _ _ (by omega), hchunk,
    Nat.sub_self, List.set_cons_zero, List.append_assoc, ← List.replicate_succ']
  congr 2
  omega

theorem copyUnits_begins {n i : Nat} (h : i + n < label.length) :
    label.take i ++ (((List.range' i n).map (volume_name sb)).takeWhile (· ≠ 0)).map UInt8.ofNat ++ [0] <+:
      copyUnits sb n i label := by
  induction n generalizing i label with
  | zero =>
    rw [List.range'_zero, List.map_nil, List.takeWhile_nil, List.map_nil, List.append_nil]
    exact take_set_begins (by omega) 0
  | succ n ih =>
    rw [List.range'_succ, List.map_cons, copyUnits]
    split
    next hunit =>
      rw [List.takeWhile_cons_of_pos (by simpa using hunit), List.map_cons]
      have hnext := @ih (label.set i (UInt8.ofNat (volume_name sb i))) (i + 1) (by rw [List.length_set]; omega)
      rw [List.take_add_one, List.take_set_of_le (Nat.le_refl i), List.getElem?_set_self (by omega),
        Option.toList_some, List.append_assoc (label.take i)] at hnext
      exact hnext
    next hunit =>
      rw [List.takeWhile_cons_of_neg (by simpa using hunit), List.map_nil, List.append_nil]
      exact take_set_begins (by omega) 0

theorem copyUnits_length (sb : Nat → UInt8) (n i : Nat) (label : List UInt8) :
    (copyUnits sb n i label).length = label.length := by
  induction n generalizing i label with
  | zero => exact List.length_set
  | succ n ih =>
    rw [copyUnits]
    split
    next => rw [ih, List.length_set]
    next => exact List.length_set

theorem cleanSpaces_begins {n : Nat} (h : label[n]? = some 0) :
    (label.take n).rdropWhile (· = 0x20) ++ [0] <+: cleanSpaces n label := by
  induction n generalizing label with
  | zero =>
    cases label with
    | nil => cases h
    | cons b rest =>
      cases h
      exact ⟨rest, rfl⟩
  | succ n ih =>
    have hlt := (List.getElem?_eq_some_iff.mp h).1
    rw [List.take_add_one, List.getElem?_eq_getElem (by omega), Option.toList_some, cleanSpaces]
    split
    next hspace =>
      rw [List.getElem?_eq_getElem (by omega)] at hspace
      have hrest := @ih (label.set n 0) (List.getElem?_set_self (by omega))
      rw [List.take_set_of_le (Nat.le_refl n)] at hrest
      rwa [List.rdropWhile_concat_pos _ _ _ (by simpa using hspace)]
    next hother =>
      rw [List.getElem?_eq_getElem (by omega)] at hother
      rw [List.rdropWhile_concat_neg _ _ _ (by simpa using hother)]
      have htake : label.take (n + 2) = label.take n ++ [label[n]] ++ [0] := by
        rw [List.take_add_one, h, List.take_add_one, List.getElem?_eq_getElem (by omega)]
        rfl
      rw [← htake]
      exact List.take_prefix _ _

theorem cleanSpaces_length (n : Nat) (label : List UInt8) : (cleanSpaces n label).length = label.length := by
  induction n generalizing label with
  | zero => rfl
  | succ n ih =>
    rw [cleanSpaces]
    split
    next => rw [ih, List.length_set]
    next => rfl

theorem strncpyInto_begins (sb : Nat → UInt8) (offset : Nat) (h : label.length = labelSize) :
    strncpy sb offset (labelSize - 1) ++ [0] <+: (strncpyInto label sb offset (labelSize - 1)).set (labelSize - 1) 0 := by
  have hshort := strncpy_length_le sb offset (labelSize - 1)
  have hsize : labelSize = 256 := rfl
  have hrest : labelSize - (strncpy sb offset (labelSize - 1)).length =
      labelSize - 1 - (strncpy sb offset (labelSize - 1)).length + 1 := by omega
  rw [strncpyInto_set sb offset h, hrest, List.replicate_succ, List.prefix_append_right_inj]
  exact ⟨_, rfl⟩

theorem strncpyInto_length (sb : Nat → UInt8) (offset : Nat) (h : label.length = labelSize) :
    ((strncpyInto label sb offset (labelSize - 1)).set (labelSize - 1) 0).length = labelSize := by
  have hshort := strncpy_length_le sb offset (labelSize - 1)
  have hsize : labelSize = 256 := rfl
  rw [strncpyInto_set sb offset h, List.length_append, List.length_replicate]
  omega

theorem vol_label_length (bs : Nat → UInt8) : (vol_label bs).length = MSDOS_NAME := by
  unfold vol_label
  split
  next => exact Bytes.window_length _ _ _
  next => exact Bytes.window_length _ _ _

/-- Of two texts that end in one array, one without a zero byte is not the longer one. -/
theorem length_le_of_begins {xs ys buffer : List UInt8} (hx : xs ++ [0] <+: buffer) (hy : ys ++ [0] <+: buffer)
    (h : 0 ∉ xs) : xs.length ≤ ys.length := by
  by_contra hlt
  have hend := List.prefix_iff_getElem?.mp hy ys.length (by rw [List.length_append]; exact Nat.lt_succ_self _)
  have hinside := List.prefix_iff_getElem?.mp hx ys.length (by rw [List.length_append]; omega)
  rw [List.getElem_append_right (Nat.le_refl _)] at hend
  rw [hend, List.getElem_append_left (by omega)] at hinside
  have hzero : xs[ys.length] = 0 := by
    simpa using (Option.some.inj hinside).symm
  exact h (hzero ▸ List.getElem_mem _)

namespace SuperblockFormat

variable (format : SuperblockFormat)

theorem storeLabel_length (sb : Nat → UInt8) (h : label.length = labelSize) :
    (format.storeLabel sb label).length = labelSize := by
  have hsize : labelSize = 256 := rfl
  cases format with
  | ext4 => exact strncpyInto_length sb 120 h
  | f2fs => rw [storeLabel, copyUnits_length, h]
  | erofs => exact strncpyInto_length sb 64 h
  | vfat =>
    have hvol := vol_label_length sb
    have hname : MSDOS_NAME = 11 := rfl
    rw [storeLabel, cleanSpaces_length, List.length_set, Bytes.overwrite_length (by omega), h]

theorem written_begins (sb : Nat → UInt8) (h : label.length = labelSize) :
    format.written sb ++ [0] <+: format.storeLabel sb label := by
  have hsize : labelSize = 256 := rfl
  cases format with
  | ext4 => exact strncpyInto_begins sb 120 h
  | f2fs =>
    have hcopy := @copyUnits_begins sb label (labelSize - 1) 0 (by omega)
    rwa [List.take_zero, List.nil_append, ← List.range_eq_range'] at hcopy
  | erofs => exact strncpyInto_begins sb 64 h
  | vfat =>
    have hvol := vol_label_length sb
    have hname : MSDOS_NAME = 11 := rfl
    have hlength := @Bytes.overwrite_length _ label (vol_label sb) 0 (by omega)
    have hclean := @cleanSpaces_begins ((Bytes.overwrite label 0 (vol_label sb)).set MSDOS_NAME 0) MSDOS_NAME
      (List.getElem?_set_self (by omega))
    have htake : (Bytes.overwrite label 0 (vol_label sb)).take MSDOS_NAME = vol_label sb := by
      unfold Bytes.overwrite
      rw [List.take_zero, List.nil_append, ← hvol, List.take_left]
    rwa [List.take_set_of_le (Nat.le_refl _), htake] at hclean

theorem units_volumeField (sb : Nat → UInt8) : units (f2fs.volumeField sb) =
    ((List.range MAX_VOLUME_NAME).map (volume_name sb)).takeWhile (· ≠ 0) := by
  have hunit : ∀ i ∈ List.range MAX_VOLUME_NAME,
      Bytes.decode (Bytes.slice (f2fs.volumeField sb) (2 * i) 2) = volume_name sb i := by
    intro i hi
    have hlt := List.mem_range.mp hi
    rw [volumeField, Bytes.slice_window (by omega)]
    rfl
  rw [units, List.map_congr_left hunit]

/-- The loop takes the units that fit the array, and the low byte of each. -/
theorem f2fs_written (sb : Nat → UInt8) :
    f2fs.written sb = ((units (f2fs.volumeField sb)).take (labelSize - 1)).map UInt8.ofNat := by
  have hle : min (labelSize - 1) MAX_VOLUME_NAME = labelSize - 1 := rfl
  rw [written, units_volumeField, List.take_takeWhile, ← List.map_take, List.take_range, hle]

/-- Of a field that ends itself `strncpy` copies the text and no more, however far it may go. -/
theorem strncpy_of_ends {offset : Nat} (h : 0 ∈ Bytes.window sb offset volumeNameSize) :
    strncpy sb offset (labelSize - 1) = (Bytes.window sb offset volumeNameSize).takeWhile (· ≠ 0) := by
  have hsplit := Bytes.window_append sb offset volumeNameSize (labelSize - 1 - volumeNameSize)
  rw [show volumeNameSize + (labelSize - 1 - volumeNameSize) = labelSize - 1 from rfl] at hsplit
  unfold strncpy
  rw [hsplit, List.takeWhile_append, if_neg]
  intro hall
  have hwhole := (List.takeWhile_prefix _).eq_of_length hall
  have hzero := List.takeWhile_eq_self_iff.mp hwhole 0 h
  simp at hzero

theorem length_strncpy_of_not_ends {offset : Nat} (h : 0 ∉ Bytes.window sb offset volumeNameSize)
    (hnext : sb (offset + volumeNameSize) ≠ 0) : volumeNameSize < (strncpy sb offset (labelSize - 1)).length := by
  have hsplit := Bytes.window_append sb offset volumeNameSize (labelSize - 2 - volumeNameSize + 1)
  rw [show volumeNameSize + (labelSize - 2 - volumeNameSize + 1) = labelSize - 1 from rfl, Bytes.window_succ] at hsplit
  have hfield : ∀ b ∈ Bytes.window sb offset volumeNameSize, decide (b ≠ 0) = true := by
    intro b hb
    exact decide_eq_true fun hzero => h (hzero ▸ hb)
  unfold strncpy
  rw [hsplit, List.takeWhile_append_of_pos hfield, List.takeWhile_cons_of_pos (by simpa using hnext),
    List.length_append, Bytes.window_length, List.length_cons]
  omega

theorem exists_byte_behind (sb : Nat → UInt8) (offset : Nat) : ∃ sb' : Nat → UInt8,
    Bytes.window sb' offset volumeNameSize = Bytes.window sb offset volumeNameSize ∧
      sb' (offset + volumeNameSize) ≠ 0 := by
  refine ⟨fun i => if i < offset + volumeNameSize then sb i else 0x61, ?_, ?_⟩
  · apply List.map_congr_left
    intro i hi
    exact if_pos (Nat.add_lt_add_left (List.mem_range.mp hi) offset)
  · show (if offset + volumeNameSize < offset + volumeNameSize then _ else (0x61 : UInt8)) ≠ 0
    rw [if_neg (Nat.lt_irrefl _)]
    decide

/-- A `strncpy` that is bounded by the array copies the field, and only that, if the field ends itself. -/
theorem strncpy_from_field_iff (sb : Nat → UInt8) (offset : Nat) :
    (∀ sb' label, Bytes.window sb' offset volumeNameSize = Bytes.window sb offset volumeNameSize →
      label.length = labelSize →
        ((strncpyInto label sb' offset (labelSize - 1)).set (labelSize - 1) 0).length = labelSize ∧
          (Bytes.window sb offset volumeNameSize).takeWhile (· ≠ 0) ++ [0] <+:
            (strncpyInto label sb' offset (labelSize - 1)).set (labelSize - 1) 0) ↔
      0 ∈ Bytes.window sb offset volumeNameSize := by
  constructor
  · intro hcopy
    by_contra hfull
    obtain ⟨sb', hfield, hnext⟩ := exists_byte_behind sb offset
    have hlabel : (List.replicate labelSize (0 : UInt8)).length = labelSize := List.length_replicate
    have hdecoded := (hcopy sb' _ hfield hlabel).2
    have hwritten := strncpyInto_begins sb' offset hlabel
    have hnozero : (0 : UInt8) ∉ strncpy sb' offset (labelSize - 1) := by
      intro hzero
      simpa using List.mem_takeWhile_imp hzero
    -- the text of the array is longer than the field
    have hle := length_le_of_begins hwritten hdecoded hnozero
    have hlong := length_strncpy_of_not_ends (hfield ▸ hfull) hnext
    have hshort : ((Bytes.window sb offset volumeNameSize).takeWhile (· ≠ 0)).length ≤ volumeNameSize :=
      strncpy_length_le sb offset volumeNameSize
    omega
  · intro hends sb' label hfield hlabel
    rw [← hfield] at hends ⊢
    have hwritten := strncpyInto_begins sb' offset hlabel
    rw [strncpy_of_ends hends] at hwritten
    exact ⟨strncpyInto_length sb' offset hlabel, hwritten⟩

theorem f2fs_from_field_iff (sb : Nat → UInt8) : f2fs.LabelFromField sb ↔ f2fs.FieldCopied sb := by
  have hsize : labelSize = 256 := rfl
  constructor
  · intro h
    have hlabel : (List.replicate labelSize (0 : UInt8)).length = labelSize := List.length_replicate
    have hwritten := written_begins f2fs sb hlabel
    have hdecoded := (h sb _ rfl hlabel).2
    rw [f2fs_written] at hwritten
    have hunits : 0 ∉ units (f2fs.volumeField sb) := by
      intro hzero
      simpa using List.mem_takeWhile_imp hzero
    -- no shorter than the units, and no longer than the bytes written for them
    have hle := length_le_of_begins hdecoded hwritten (Utf16.zero_not_mem_toUtf8 hunits)
    obtain ⟨hge, hascii⟩ := Utf16.toUtf8_length (units (f2fs.volumeField sb))
    rw [decodeField, List.length_map, List.length_take] at hle
    exact ⟨hascii (by omega), by omega⟩
  · rintro ⟨hascii, hfits⟩ sb' label hfield hlabel
    have hwritten := written_begins f2fs sb' hlabel
    rw [f2fs_written, hfield, List.take_of_length_le (by omega), ← Utf16.toUtf8_of_ascii hascii] at hwritten
    exact ⟨storeLabel_length f2fs sb' hlabel, hwritten⟩

/-- The label is that of the volume-name field just for the fields that are copied right. -/
theorem label_from_field_iff (sb : Nat → UInt8) : format.LabelFromField sb ↔ format.FieldCopied sb := by
  cases format with
  | ext4 => exact strncpy_from_field_iff sb 120
  | f2fs => exact f2fs_from_field_iff sb
  | erofs => exact strncpy_from_field_iff sb 64
  | vfat =>
    refine iff_of_true (fun sb' label hfield hlabel => ?_) trivial
    have hwritten := written_begins vfat sb' hlabel
    have hsame : vfat.written sb' = vfat.decodeField (vfat.volumeField sb) := by
      rw [← hfield]
      rfl
    rw [hsame] at hwritten
    exact ⟨storeLabel_length vfat sb' hlabel, hwritten⟩

end SuperblockFormat

end

/-- An ext4 superblock with a name of 16 bytes, and `/d` as the directory it was last mounted on. -/
def fullName (i : Nat) : UInt8 :=
  if i < 120 then 0 else if i < 136 then 0x61 else if i = 136 then 0x2F else if i = 137 then 0x64 else 0

/-- An f2fs superblock with the name `é`. -/
def accentedName (i : Nat) : UInt8 := if i = 124 then 0xE9 else 0

/-- The first label goes on with the directory; the second is no UTF-8. -/
theorem labels_misread :
    (SuperblockFormat.ext4.storeLabel fullName (List.replicate labelSize 0)).take 19 =
        List.replicate 16 0x61 ++ [0x2F, 0x64, 0] ∧
      ¬ SuperblockFormat.ext4.LabelFromField fullName ∧
      (SuperblockFormat.f2fs.storeLabel accentedName (List.replicate labelSize 0)).take 2 = [0xE9, 0] ∧
      SuperblockFormat.f2fs.decodeField (SuperblockFormat.f2fs.volumeField accentedName) = [0xC3, 0xA9] ∧
      ¬ SuperblockFormat.f2fs.LabelFromField accentedName := by
  have hname : SuperblockFormat.units (SuperblockFormat.f2fs.volumeField accentedName) = [0xE9] := by
    rw [SuperblockFormat.units_volumeField]
    decide +kernel
  refine ⟨by decide +kernel, fun h => ?_, by decide +kernel, ?_, fun h => ?_⟩
  · have hends := (SuperblockFormat.strncpy_from_field_iff fullName 120).mp h
    exact absurd hends (by decide)
  · rw [SuperblockFormat.decodeField, hname]
    decide
  · have hascii := ((SuperblockFormat.f2fs_from_field_iff accentedName).mp h).1 0xE9
    rw [hname] at hascii
    exact absurd (hascii (List.mem_singleton_self _)) (by decide)

end PartitionManager
