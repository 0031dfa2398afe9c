import Mathlib.Algebra.Order.Field.Rat
import Mathlib.Tactic.FieldSimp
import Mathlib.Tactic.Linarith
import PartitionManager.DefaultTexts
import PartitionManager.Library.Rounding
import PartitionManager.RequiredLists

namespace PartitionManager

open Rounding (nearest)

inductive SizeUnit where
  | BYTE
  | KiB
  | MiB
  | GiB
  deriving DecidableEq

def SizeUnit.divisor : SizeUnit → Nat
  | BYTE => 1
  | KiB => 1024
  | MiB => 1024 * 1024
  | GiB => 1024 * 1024 * 1024

def SizeUnit.text : SizeUnit → Str
  | BYTE => "B"
  | KiB => "KiB"
  | MiB => "MiB"
  | GiB => "GiB"

/-- The conversion of an unsigned number to `double`, which keeps 53 bits. -/
def toDouble (n : Nat) : Nat := if n < 2 ^ 53 then n else nearest n (2 ^ (n.log2 - 52)) * 2 ^ (n.log2 - 52)

/-- A number of hundredths, as `std::fixed` and `std::setprecision(2)` print it. -/
def fixedText (hundredths : Nat) : Str :=
  to_string (hundredths / 100) ++
    ['.', Nat.digitChar (hundredths % 100 / 10), Nat.digitChar (hundredths % 10)]

/-- `formattedSizeString` of a size. A unit that is none of the four is the value `{}` of the type. -/
def sizeText (size_ : Nat) (size_unit : Option SizeUnit) (no_type : Bool) : Str :=
  let unit_str := size_unit.elim SizeUnit.BYTE.text SizeUnit.text
  let number := if size_unit = some .BYTE then to_string size_ else
    fixedText (nearest (100 * toDouble size_) (size_unit.elim 1 SizeUnit.divisor))
  if no_type then number else number ++ unit_str

def Partition.formattedSizeString (abi : Abi) (fs : FileSystem) (p : Partition) (size_unit : Option SizeUnit)
    (no_type : Bool := false) : Outcome Str := do
  let size_ ← p.size abi fs
  .ok (sizeText size_ size_unit no_type)

/-- What a text of digits and a point says. -/
def decimalValue (s : Str) : ℚ :=
  let whole := s.takeWhile (· ≠ '.')
  let fraction := (s.dropWhile (· ≠ '.')).drop 1
  digitsValue whole + digitsValue fraction / 10 ^ fraction.length

def Value.truth : Value → Bool
  | .bool b => b
  | _ => false

/-- The unit that four flags choose: a later one overrides those before it, and without any
there is none. -/
def chosenUnit (asByte asKiloBytes asMega asGiga : Bool) : Option SizeUnit :=
  let multiple := none
  let multiple := if asByte then some .BYTE else multiple
  let multiple := if asKiloBytes then some .KiB else multiple
  let multiple := if asMega then some .MiB else multiple
  if asGiga then some .GiB else multiple

/-- The partitions that a listing visits. -/
def listed (pTab : PartitionTableData) (dTab : DynamicTableData) : Listing → List Partition
  | .all => pTab.localPartitions ++ dTab.localPartitions
  | .logicals => dTab.localPartitions
  | .physicals => pTab.localPartitions
  | .named partitions =>
    partitions.filterMap (fun name => pTab.localPartitions.find? fun p => p.name = name) ++
      partitions.filterMap dTab.partition

/-- A getter that prints a line for each partition, up to one that throws. -/
def printLines (line : Partition → Outcome Str) : List Partition → List Str × Outcome Unit
  | [] => ([], .ok ())
  | p :: ps =>
    match line p with
    | .error stop => ([], .error stop)
    | .ok text => (text :: (printLines line ps).1, (printLines line ps).2)

theorem Partition.formattedSizeString_of_size {abi : Abi} {fs : FileSystem} {p : Partition} {n : Nat}
    (h : p.size abi fs = .ok n) (size_unit : Option SizeUnit) (no_type : Bool) :
    p.formattedSizeString abi fs size_unit no_type = .ok (sizeText n size_unit no_type) := by
  rw [formattedSizeString, h]
  rfl

theorem SizeUnit.divisor_pos (size_unit : SizeUnit) : 0 < size_unit.divisor := by cases size_unit <;> decide

theorem toDouble_of_lt {n : Nat} (h : n < 2 ^ 53) : toDouble n = n := if_pos h

theorem sizeText_byte (n : Nat) : sizeText n (some .BYTE) true = to_string n := rfl

theorem sizeText_larger {n : Nat} (h : n < 2 ^ 53) {size_unit : SizeUnit} (hunit : size_unit ≠ .BYTE) :
    sizeText n (some size_unit) true = fixedText (nearest (100 * n) size_unit.divisor) := by
  have hother : some size_unit ≠ some SizeUnit.BYTE := fun heq => hunit (Option.some.inj heq)
  unfold sizeText
  rw [if_neg hother, toDouble_of_lt h]
  rfl

theorem decimalValue_append {whole : Str} (hwhole : ∀ c ∈ whole, c ≠ '.') (fraction : Str) :
    decimalValue (whole ++ '.' :: fraction) = digitsValue whole + digitsValue fraction / 10 ^ fraction.length := by
  have hpos : ∀ c ∈ whole, decide (c ≠ '.') = true := fun c hc => decide_eq_true (hwhole c hc)
  unfold decimalValue
  rw [List.takeWhile_append_of_pos hpos, List.dropWhile_append_of_pos hpos, List.takeWhile_cons_of_neg (by simp),
    List.dropWhile_cons_of_neg (by simp), List.append_nil]
  rfl

theorem to_string_ne_dot (n : Nat) : ∀ c ∈ to_string n, c ≠ '.' := by
  rintro _ hc rfl
  exact absurd (to_string_digits n _ hc) (by decide)

theorem decimalValue_to_string (n : Nat) : decimalValue (to_string n) = n := by
  have hpos : ∀ c ∈ to_string n, decide (c ≠ '.') = true := fun c hc => decide_eq_true (to_string_ne_dot n c hc)
  unfold decimalValue
  rw [List.takeWhile_eq_self_iff.mpr hpos, List.dropWhile_eq_nil_iff.mpr hpos]
  have hempty : digitsValue [] = 0 := rfl
  simp [digitsValue_to_string, hempty]

theorem digitsValue_pair {a b : Nat} (ha : a < 10) (hb : b < 10) :
    digitsValue [Nat.digitChar a, Nat.digitChar b] = 10 * a + b := by
  have hall : ∀ a < 10, ∀ b < 10, digitsValue [Nat.digitChar a, Nat.digitChar b] = 10 * a + b := by decide
  exact hall a ha b hb

theorem decimalValue_fixedText (hundredths : Nat) : decimalValue (fixedText hundredths) = hundredths / 100 := by
  have hpair := @digitsValue_pair (hundredths % 100 / 10) (hundredths % 10) (by omega) (by omega)
  have hrest : 10 * (hundredths % 100 / 10) + hundredths % 10 = hundredths % 100 := by omega
  have hsplit := Nat.div_add_mod hundredths 100
  unfold fixedText
  rw [decimalValue_append (to_string_ne_dot _), hpair, hrest, digitsValue_to_string]
  have hcast : (hundredths : ℚ) = 100 * (hundredths / 100 : Nat) + (hundredths % 100 : Nat) := by
    exact_mod_cast hsplit.symm
  rw [hcast]
  norm_num
  ring

theorem stoull_of_strtol {s : Str} {n : Nat} (hread : strtol s = some (n : Int)) (h : n < 2 ^ 64) :
    stoull s = .ok (n : Int) := by
  have hmod : (n : Int) % 2 ^ 64 = n := by omega
  rw [stoull, stoInteger, hread]
  dsimp only
  rw [if_pos (by omega)]
  exact congrArg Except.ok hmod

/-- An integer parser stops at the point. -/
theorem stoull_fixedText {hundredths : Nat} (h : hundredths / 100 < 2 ^ 64) :
    stoull (fixedText hundredths) = .ok ((hundredths / 100 : Nat) : Int) := by
  refine stoull_of_strtol ?_ h
  rw [fixedText, strtol_append (to_string_ne_nil _) (to_string_digits _) rfl, digitsValue_to_string]

end PartitionManager
