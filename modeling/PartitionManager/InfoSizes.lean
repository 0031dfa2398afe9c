import PartitionManager.SizeUnits

namespace PartitionManager

open Rounding (nearest)

inductive Json where
  | string (s : Str)
  | number (n : Int)
  | bool (b : Bool)
  | array (items : List Json)
  | object (members : List (Str × Json))

namespace InfoPlugin

def multiple (dest : Variables) : Option SizeUnit :=
  chosenUnit (dest "InfoPlugin::asByte").truth (dest "InfoPlugin::asKiloBytes").truth
    (dest "InfoPlugin::asMega").truth (dest "InfoPlugin::asGiga").truth

/-- The line of a partition in text mode. -/
def partitionLine (p : Partition) (table size : Str) : Str :=
  "partition=" ++ p.name ++ " table=" ++ table ++ " size=" ++ size ++ " isLogical=" ++
    (if p.isLogical then ("true" : Str) else "false")

/-- The object of a partition in the JSON output. -/
def partitionObject (dest : Variables) (p : Partition) (table : Str) (sizeVal : Int) : Json :=
  .object [
    ((dest "InfoPlugin::jNamePartition").text, .string p.name),
    ((dest "InfoPlugin::jNameTable").text, .string table),
    ((dest "InfoPlugin::jNameSize").text, .number sizeVal),
    ((dest "InfoPlugin::jNameLogical").text, .bool p.isLogical)]

section

variable (abi : Abi) (fs : FileSystem) (multiple : Option SizeUnit) (p : Partition)

def table : Outcome Str := if p.isLogical then .ok [] else p.tableName

def getter : Outcome Str := do
  let table ← table p
  let size ← p.formattedSizeString abi fs multiple true
  .ok (partitionLine p table size)

def partObj (dest : Variables) : Outcome Json := do
  let table ← table p
  let size ← p.formattedSizeString abi fs multiple true
  let sizeVal ← stoull size
  .ok (partitionObject dest p table sizeVal)

end

/-- The lines that are printed, and the JSON document. -/
def run (abi : Abi) (fs : FileSystem) (pTab : PartitionTableData) (dTab : DynamicTableData) (dest : Variables) :
    List Str × Outcome (Option Json) :=
  match listing pTab dTab (dest "InfoPlugin::partitions").vector with
  | .error stop => ([], .error stop)
  | .ok found =>
    let jParts := listed pTab dTab found
    if (dest "InfoPlugin::jsonFormat").truth then
      ([], do
        let partitionsArray ← jParts.mapM (partObj abi fs (multiple dest) · dest)
        .ok (some (.object [
          ("multipleType", .string ((multiple dest).elim [] SizeUnit.text)),
          ("partitions", .array partitionsArray)])))
    else
      let printed := printLines (getter abi fs (multiple dest)) jParts
      (printed.1, printed.2.map fun _ => none)

/-- The number in the JSON output is the one that text mode prints. -/
def SizesAgree (abi : Abi) (fs : FileSystem) (dest : Variables) (p : Partition) (size_unit : SizeUnit) : Prop :=
  ∃ tableText sizeText sizeVal, table p = .ok tableText ∧
    getter abi fs (some size_unit) p = .ok (partitionLine p tableText sizeText) ∧
    partObj abi fs (some size_unit) p dest = .ok (partitionObject dest p tableText sizeVal) ∧
    (sizeVal : ℚ) = decimalValue sizeText

end InfoPlugin

/-- The size in the unit is half a hundredth from a whole number at most. -/
def SizeUnit.NearWhole (size_unit : SizeUnit) (n : Nat) : Prop :=
  2 * (100 * (n % size_unit.divisor)) ≤ size_unit.divisor ∨
    2 * (100 * (size_unit.divisor - n % size_unit.divisor)) ≤ size_unit.divisor

section

variable {n : Nat} {size_unit : SizeUnit}

/-- The number that is printed is the exact quotient, rounded to two decimals. -/
theorem decimalValue_sizeText (hsmall : n < 2 ^ 53) (hunit : size_unit ≠ .BYTE) :
    decimalValue (sizeText n (some size_unit) true) = (nearest (100 * n) size_unit.divisor : ℚ) / 100 := by
  rw [sizeText_larger hsmall hunit, decimalValue_fixedText]

theorem hundredths_lt (hsmall : n < 2 ^ 53) (size_unit : SizeUnit) :
    nearest (100 * n) size_unit.divisor / 100 < 2 ^ 64 := by
  have hpos := size_unit.divisor_pos
  have herror := (Rounding.nearest_error (100 * n) hpos).2
  have hle : nearest (100 * n) size_unit.divisor ≤ nearest (100 * n) size_unit.divisor * size_unit.divisor :=
    Nat.le_mul_of_pos_right _ hpos
  have hdivisor : size_unit.divisor ≤ 2 ^ 30 := by cases size_unit <;> decide
  omega

theorem stoull_sizeText (hsmall : n < 2 ^ 53) (hunit : size_unit ≠ .BYTE) :
    stoull (sizeText n (some size_unit) true) = .ok ((nearest (100 * n) size_unit.divisor / 100 : Nat) : Int) := by
  rw [sizeText_larger hsmall hunit]
  exact stoull_fixedText (hundredths_lt hsmall size_unit)

theorem whole_hundredths_iff (h : Nat) : (((h / 100 : Nat) : Int) : ℚ) = (h : ℚ) / 100 ↔ 100 ∣ h := by
  constructor
  · intro heq
    have hmul : ((h / 100 * 100 : Nat) : ℚ) = (h : ℚ) := by
      push_cast
      rw [← Int.cast_natCast (h / 100), heq]
      norm_num
    exact ⟨h / 100, by rw [Nat.mul_comm]; exact_mod_cast hmul.symm⟩
  · intro hdvd
    obtain ⟨q, rfl⟩ := hdvd
    rw [Nat.mul_div_cancel_left q (by decide)]
    push_cast
    ring

end

namespace InfoPlugin

variable {abi : Abi} {fs : FileSystem} {p : Partition} {n : Nat}

theorem table_ok (p : Partition) : ∃ tableText, table p = .ok tableText := by
  unfold table Partition.tableName
  cases p.isLogical with
  | true => exact ⟨_, rfl⟩
  | false => exact ⟨_, rfl⟩

theorem partitionLine_inj {tableText size size' : Str}
    (h : partitionLine p tableText size = partitionLine p tableText size') : size = size' := by
  unfold partitionLine at h
  exact List.append_cancel_left (List.append_cancel_right (List.append_cancel_right h))

theorem partitionObject_inj {dest : Variables} {tableText : Str} {size size' : Int}
    (h : partitionObject dest p tableText size = partitionObject dest p tableText size') : size = size' := by
  have hmembers : ∀ {m m' : List (Str × Json)}, Json.object m = Json.object m' → m = m' := Json.object.inj
  have hvalues := List.tail_eq_of_cons_eq (List.tail_eq_of_cons_eq (hmembers h))
  exact Json.number.inj (congrArg Prod.snd (List.head_eq_of_cons_eq hvalues))

/-- The two outputs are the size as text, and as `std::stoull` reads this text. -/
theorem sizesAgree_iff (hsize : p.size abi fs = .ok n) (dest : Variables) (size_unit : SizeUnit) :
    SizesAgree abi fs dest p size_unit ↔
      ∃ sizeVal, stoull (sizeText n (some size_unit) true) = .ok sizeVal ∧
        (sizeVal : ℚ) = decimalValue (sizeText n (some size_unit) true) := by
  obtain ⟨tableText, htable⟩ := table_ok p
  have htext := Partition.formattedSizeString_of_size hsize (some size_unit) true
  have hgetter : getter abi fs (some size_unit) p =
      .ok (partitionLine p tableText (sizeText n (some size_unit) true)) := by
    rw [getter, htable, htext]
    rfl
  have hobject : partObj abi fs (some size_unit) p dest =
      (stoull (sizeText n (some size_unit) true)).map (partitionObject dest p tableText) := by
    rw [partObj, htable, htext]
    rfl
  constructor
  · intro h
    obtain ⟨tableText', size, sizeVal, htable', hline, hparsed, hsame⟩ := h
    rw [htable] at htable'
    cases htable'
    rw [hgetter] at hline
    have hshown := partitionLine_inj (Except.ok.inj hline)
    subst hshown
    rw [hobject] at hparsed
    cases hread : stoull (sizeText n (some size_unit) true) with
    | error stop =>
      rw [hread] at hparsed
      cases hparsed
    | ok value =>
      rw [hread] at hparsed
      have hvalue := partitionObject_inj (Except.ok.inj hparsed)
      subst hvalue
      exact ⟨value, rfl, hsame⟩
  · intro h
    obtain ⟨sizeVal, hread, hsame⟩ := h
    refine ⟨tableText, _, sizeVal, htable, hgetter, ?_, hsame⟩
    rw [hobject, hread]
    rfl

end InfoPlugin

/-- Both outputs say the same size exactly if it is given in bytes or is a whole number of the unit
when it is rounded. -/
theorem info_sizes_agree_iff {abi : Abi} {fs : FileSystem} {p : Partition} {n : Nat} (hsize : p.size abi fs = .ok n)
    (hsmall : n < 2 ^ 53) (dest : Variables) (size_unit : SizeUnit) :
    InfoPlugin.SizesAgree abi fs dest p size_unit ↔ size_unit.NearWhole n := by
  rw [InfoPlugin.sizesAgree_iff hsize]
  by_cases hunit : size_unit = .BYTE
  · subst hunit
    have hread : stoull (to_string n) = .ok (n : Int) := by
      refine stoull_of_strtol ?_ (by omega)
      rw [strtol_digits (to_string_ne_nil n) (to_string_digits n), digitsValue_to_string]
    refine iff_of_true ⟨n, hread, ?_⟩ ?_
    · rw [sizeText_byte, decimalValue_to_string]
      rfl
    · left
      show 2 * (100 * (n % 1)) ≤ 1
      omega
  · have heven : Even 100 := by decide
    have hnear := Rounding.dvd_nearest_iff heven (by decide) size_unit.divisor_pos n
    rw [stoull_sizeText hsmall hunit, decimalValue_sizeText hsmall hunit]
    refine Iff.trans ?_ ((whole_hundredths_iff _).trans hnear)
    constructor
    · intro h
      obtain ⟨size, hsize, hsame⟩ := h
      cases hsize
      exact hsame
    · intro h
      exact ⟨_, rfl, h⟩

theorem info_sizes_agree_boot :
    InfoPlugin.SizesAgree .arm64_v8a bootFileSystem unsetVariables (bootPartition 67108866) .MiB ↔
      SizeUnit.MiB.NearWhole 67108866 := by
  have hsize : (bootPartition 67108866).size .arm64_v8a bootFileSystem = .ok 67108866 := rfl
  exact info_sizes_agree_iff hsize (by decide) unsetVariables .MiB

/-- Of a partition of one and a half KiB, the text says `1.50` and the JSON output 1. -/
theorem half_kilobyte_dropped :
    (bootPartition 1536).formattedSizeString .arm64_v8a bootFileSystem (some .KiB) true = .ok "1.50" ∧
    stoull "1.50" = .ok 1 ∧
    ¬ InfoPlugin.SizesAgree .arm64_v8a bootFileSystem unsetVariables (bootPartition 1536) .KiB := by
  refine ⟨by decide, by decide, ?_⟩
  intro h
  have hsize : (bootPartition 1536).size .arm64_v8a bootFileSystem = .ok 1536 := rfl
  obtain ⟨size, hread, hsame⟩ := (InfoPlugin.sizesAgree_iff hsize unsetVariables .KiB).mp h
  have htext : sizeText 1536 (some .KiB) true = fixedText 150 := by decide
  rw [htext, stoull_fixedText (by decide)] at hread
  cases hread
  rw [htext, decimalValue_fixedText] at hsame
  norm_num at hsame

end PartitionManager
