import Mathlib.Data.List.TakeWhile
import PartitionManager.TypedOptions

namespace PartitionManager

/-- `std::to_string` of a signed number. -/
def signed_to_string (n : Int) : Str := if n < 0 then '-' :: to_string n.natAbs else to_string n.natAbs

/-- The types that have a default value of their own. -/
inductive ScalarType where
  | bool
  | char
  | int
  | unsigned_int
  | long
  | unsigned_long
  | long_long
  | unsigned_long_long
  deriving DecidableEq

namespace ScalarType

variable (abi : Abi) (signed_char : Bool)

def min : ScalarType → Int
  | bool => 0
  | char => if signed_char then -128 else 0
  | int => -2 ^ 31
  | unsigned_int => 0
  | long => -2 ^ (abi.bits - 1)
  | unsigned_long => 0
  | long_long => -2 ^ 63
  | unsigned_long_long => 0

def max : ScalarType → Int
  | bool => 1
  | char => if signed_char then 127 else 255
  | int => 2 ^ 31 - 1
  | unsigned_int => 2 ^ 32 - 1
  | long => 2 ^ (abi.bits - 1) - 1
  | unsigned_long => 2 ^ abi.bits - 1
  | long_long => 2 ^ 63 - 1
  | unsigned_long_long => 2 ^ 64 - 1

/-- The value that a variable of the type holds for a number. -/
def value : ScalarType → Int → Value
  | bool, n => .bool (n ≠ 0)
  | _, n => .number n

def from_string : ScalarType → Str → Outcome Value
  | bool, s => PartitionManager.from_string .bool s
  | char, s => PartitionManager.from_string (.char signed_char) s
  | int, s => PartitionManager.from_string .int s
  | unsigned_int, s => PartitionManager.from_string .unsigned_int s
  | long, s => PartitionManager.from_string (.long abi) s
  | unsigned_long, s => PartitionManager.from_string (.unsigned_long abi) s
  | long_long, s => PartitionManager.from_string .long_long s
  | unsigned_long_long, s => PartitionManager.from_string .unsigned_long_long s

end ScalarType

section

variable {D : Type}

/-- The default that `defaultValue` stores. The conversion from a bool or a char is the
one of `int`. -/
def CmdOption.defaultValue (option : CmdOption D) (v : Int) : CmdOption D :=
  { option with default_value := some (signed_to_string v) }

/-- The setter that the constructor of an option makes for a variable of the type. -/
def ScalarType.setter (abi : Abi) (signed_char : Bool) (T : ScalarType) (dest : Variable D) (raw : Str) :
    Outcome (D → D) := (T.from_string abi signed_char raw).map dest.set

/-- Leaving the option out throws nothing, sets its variable to the value, and keeps
the text for the next pass. -/
def SetsDefault (vars : CmdState D) (o : OptRef) (option : CmdOption D) (dest : Variable D) (value : Value) : Prop :=
  ∃ vars', setDefault vars o option = .ok vars' ∧ dest.get vars'.dest = value ∧
    vars'.default_value o = vars.default_value o

end

section

variable {abi : Abi} {signed_char : Bool} {digits : Str}

theorem isspace_of_isDigit {c : Char} (h : c.isDigit = true) : isspace c = false := by
  have hlow := (Char.isDigit_iff_toNat.mp h).1
  have hblank : c ≠ ' ' := by
    rintro rfl
    exact absurd hlow (by decide)
  have hcontrol : ¬ c ≤ '\r' := by
    intro hle
    have hval : c.toNat ≤ '\r'.toNat := UInt32.le_iff_toNat_le.mp hle
    exact absurd (hlow.trans hval) (by decide)
  simp [isspace, hblank, hcontrol]

theorem readSign_digits {c : Char} (hc : c.isDigit = true) (rest : Str) :
    readSign ((c :: rest).dropWhile isspace) = (false, c :: rest) := by
  rw [List.dropWhile_cons_of_neg (by simp [isspace_of_isDigit hc])]
  unfold readSign
  split
  next heq =>
    cases heq
    exact absurd hc (by decide)
  next heq =>
    cases heq
    exact absurd hc (by decide)
  next => rfl

/-- A number ends where the digits do. -/
theorem strtol_append {rest : Str} (hne : digits ≠ []) (hdigits : ∀ c ∈ digits, c.isDigit = true)
    (hstop : rest.takeWhile Char.isDigit = []) : strtol (digits ++ rest) = some (digitsValue digits : Int) := by
  obtain ⟨c, later, rfl⟩ := List.exists_cons_of_ne_nil hne
  have hnumber : (c :: later ++ rest).takeWhile Char.isDigit = c :: later := by
    rw [List.takeWhile_append_of_pos hdigits, hstop, List.append_nil]
  unfold strtol
  rw [List.cons_append, readSign_digits (hdigits c List.mem_cons_self), ← List.cons_append, hnumber]
  rfl

theorem strtol_digits (hne : digits ≠ []) (hdigits : ∀ c ∈ digits, c.isDigit = true) :
    strtol digits = some (digitsValue digits : Int) := by
  have hall := @strtol_append digits [] hne hdigits rfl
  rwa [List.append_nil] at hall

theorem strtol_negated (hne : digits ≠ []) (hdigits : ∀ c ∈ digits, c.isDigit = true) :
    strtol ('-' :: digits) = some (-(digitsValue digits : Int)) := by
  obtain ⟨c, rest, rfl⟩ := List.exists_cons_of_ne_nil hne
  have hsign : readSign (('-' :: c :: rest).dropWhile isspace) = (true, c :: rest) := rfl
  unfold strtol
  rw [hsign, List.takeWhile_eq_self_iff.mpr hdigits]
  rfl

theorem digitsValue_to_string (n : Nat) : digitsValue (to_string n) = n :=
  Nat.ofDigitChars_toDigits (by decide) (by decide)

theorem to_string_digits (n : Nat) : ∀ c ∈ to_string n, c.isDigit = true := fun _ hc =>
  Nat.isDigit_of_mem_toDigits (by decide) (by decide) hc

theorem to_string_ne_nil (n : Nat) : to_string n ≠ [] := Nat.toDigits_ne_nil

/-- A number is read from its own text. -/
theorem strtol_signed_to_string (n : Int) : strtol (signed_to_string n) = some n := by
  unfold signed_to_string
  by_cases hn : n < 0
  · rw [if_pos hn, strtol_negated (to_string_ne_nil _) (to_string_digits _), digitsValue_to_string]
    exact congrArg some (by omega)
  · rw [if_neg hn, strtol_digits (to_string_ne_nil _) (to_string_digits _), digitsValue_to_string]
    exact congrArg some (by omega)

theorem stoInteger_signed_to_string {lo hi n : Int} : stoInteger lo hi (signed_to_string n) =
    if lo ≤ n ∧ n ≤ hi then .ok n else raiseStd .out_of_range := by
  unfold stoInteger
  rw [strtol_signed_to_string]

/-- A number below the width is left alone by the conversion to an unsigned type. -/
theorem unsigned_signed_to_string {width : Nat} {v : Int} (hlo : 0 ≤ v) (hhi : v ≤ 2 ^ width - 1) :
    (stoInteger (-(2 ^ width - 1)) (2 ^ width - 1) (signed_to_string v)).map (· % 2 ^ width) = .ok v := by
  have hmod : v % 2 ^ width = v := Int.emod_eq_of_lt hlo (by omega)
  rw [stoInteger_signed_to_string, if_pos ⟨by omega, hhi⟩]
  exact congrArg Except.ok hmod

theorem map_number_ok_iff {x : Outcome Int} {v : Int} : x.map Value.number = .ok (.number v) ↔ x = .ok v := by
  cases x with
  | error stop => exact iff_of_false (fun h => nomatch h) (fun h => nomatch h)
  | ok n =>
    constructor
    · intro h
      exact congrArg Except.ok (Value.number.inj (Except.ok.inj h))
    · intro h
      cases h
      rfl

/-- A char is read back as the character its number starts with. -/
theorem char_decodes_iff {v : Int} (hhi : v ≤ 255) :
    char_from_string signed_char (signed_to_string v) = .ok v ↔ v = 53 := by
  by_cases hv : v < 0
  · have htext : signed_to_string v = '-' :: to_string v.natAbs := if_pos hv
    have hdash : toChar signed_char '-' = 45 := by cases signed_char <;> rfl
    rw [htext]
    refine iff_of_false (fun h => ?_) (by omega)
    have hsame : toChar signed_char '-' = v := Except.ok.inj h
    omega
  · obtain ⟨n, rfl⟩ := Int.eq_ofNat_of_zero_le (not_lt.mp hv)
    have htext : signed_to_string n = to_string n := if_neg hv
    have hall : ∀ signed : Bool, ∀ n < 256, (char_from_string signed (to_string n) = .ok (n : Int) ↔ n = 53) := by
      decide +kernel
    rw [htext, hall signed_char n (by omega)]
    omega

theorem ScalarType.decodes_iff (abi : Abi) (signed_char : Bool) (T : ScalarType) {v : Int}
    (hlo : T.min abi signed_char ≤ v) (hhi : v ≤ T.max abi signed_char) :
    T.from_string abi signed_char (signed_to_string v) = .ok (T.value v) ↔
      (T = .char → v = 53) ∧ (T = .unsigned_int → v < 2 ^ 31) := by
  cases T with
  | bool =>
    have hv : v = 0 ∨ v = 1 := by
      have hlo' : 0 ≤ v := hlo
      have hhi' : v ≤ 1 := hhi
      omega
    rcases hv with rfl | rfl
    · exact iff_of_true rfl (by decide)
    · exact iff_of_true rfl (by decide)
  | char =>
    have hmax : v ≤ 255 := by
      cases signed_char with
      | false => exact hhi
      | true => exact le_trans hhi (show (127 : Int) ≤ 255 by decide)
    have hdecode : ScalarType.char.from_string abi signed_char (signed_to_string v) = .ok (.number v) ↔ v = 53 :=
      map_number_ok_iff.trans (char_decodes_iff hmax)
    exact hdecode.trans ⟨fun h => ⟨fun _ => h, by rintro ⟨⟩⟩, fun h => h.1 rfl⟩
  | unsigned_int =>
    have hread : stoi (signed_to_string v) = if -2 ^ 31 ≤ v ∧ v ≤ 2 ^ 31 - 1 then .ok v else raiseStd .out_of_range :=
      stoInteger_signed_to_string
    have hlo' : 0 ≤ v := hlo
    rw [ScalarType.from_string, PartitionManager.from_string, hread]
    by_cases hv : v < 2 ^ 31
    · rw [if_pos (by omega)]
      refine iff_of_true ?_ ⟨by rintro ⟨⟩, fun _ => hv⟩
      have hmod : v % 2 ^ 32 = v := by omega
      exact congrArg (fun n => Except.ok (Value.number n)) hmod
    · rw [if_neg (by omega)]
      exact iff_of_false (by rintro ⟨⟩) fun h => hv (h.2 rfl)
  | int | long | long_long =>
    refine iff_of_true (map_number_ok_iff.mpr ?_) ⟨by rintro ⟨⟩, by rintro ⟨⟩⟩
    exact stoInteger_signed_to_string.trans (if_pos ⟨hlo, hhi⟩)
  | unsigned_long =>
    refine iff_of_true (map_number_ok_iff.mpr ?_) ⟨by rintro ⟨⟩, by rintro ⟨⟩⟩
    exact unsigned_signed_to_string hlo hhi
  | unsigned_long_long =>
    refine iff_of_true (map_number_ok_iff.mpr ?_) ⟨by rintro ⟨⟩, by rintro ⟨⟩⟩
    exact @unsigned_signed_to_string 64 v hlo hhi

section

variable {D : Type} {dest : Variable D} {option : CmdOption D} {vars : CmdState D} {o : OptRef}

/-- An option that is left out is set to what its default reads as. -/
theorem setsDefault_iff {T : ScalarType} {text : Str} {value : Value}
    (hsetter : option.setter = some (T.setter abi signed_char dest)) (hplain : option.transformer = none)
    (hunused : vars.isUsed o = false) (htext : vars.default_value o = some text) :
    SetsDefault vars o option dest value ↔ T.from_string abi signed_char text = .ok value := by
  have hstep : setDefault vars o option = (T.from_string abi signed_char text).map fun found => { vars with
      default_value := Function.update vars.default_value o (some text), dest := dest.set found vars.dest } := by
    unfold setDefault CmdOption.acceptDefault
    rw [htext, hunused, hplain, hsetter]
    show (((T.from_string abi signed_char text).map dest.set).bind fun assign => Except.ok (text, assign)).bind _ = _
    cases T.from_string abi signed_char text with
    | error stop => rfl
    | ok found => rfl
  unfold SetsDefault
  rw [hstep]
  cases T.from_string abi signed_char text with
  | error stop => exact iff_of_false (fun h => nomatch h.choose_spec.1) (fun h => nomatch h)
  | ok found =>
    constructor
    · intro h
      obtain ⟨vars', hvars, hvalue, _⟩ := h
      cases hvars
      exact congrArg Except.ok ((dest.get_set found vars.dest).symm.trans hvalue)
    · intro h
      cases h
      refine ⟨_, rfl, dest.get_set value vars.dest, ?_⟩
      rw [htext]
      exact Function.update_self o (some text) vars.default_value

/-- Every default but a char and the upper half of the unsigned ints is read back as it was. -/
theorem default_value_survives_iff (T : ScalarType) {v : Int} (hlo : T.min abi signed_char ≤ v)
    (hhi : v ≤ T.max abi signed_char) (hsetter : option.setter = some (T.setter abi signed_char dest))
    (hplain : option.transformer = none) (hunused : vars.isUsed o = false)
    (htext : vars.default_value o = (option.defaultValue v).default_value) :
    SetsDefault vars o (option.defaultValue v) dest (T.value v) ↔
      (T = .char → v = 53) ∧ (T = .unsigned_int → v < 2 ^ 31) :=
  (@setsDefault_iff abi signed_char D dest (option.defaultValue v) vars o T _ _ hsetter hplain hunused htext).trans
    (T.decodes_iff abi signed_char hlo hhi)

end

end

/-- A number option with a default. -/
def delayOption (T : ScalarType) : CmdOption Value where
  valid_names := ["--delay"]
  setter := some (T.setter .arm64_v8a false .whole)

def delayApp (T : ScalarType) (v : Int) : App Value where
  options := [(delayOption T).defaultValue v]
  subcommands := []
  groups := []
  auto_help_enabled := true

theorem default_value_survives_delay : SetsDefault ((delayApp .int (-5)).fresh (.number 0)) ⟨[], 0⟩
    ((delayOption .int).defaultValue (-5)) .whole (.number (-5)) ↔
      (ScalarType.int = .char → (-5 : Int) = 53) ∧ (ScalarType.int = .unsigned_int → (-5 : Int) < 2 ^ 31) :=
  @default_value_survives_iff .arm64_v8a false Value .whole (delayOption .int) _ ⟨[], 0⟩ .int (-5) (by decide) (by decide)
    rfl rfl rfl rfl

/-- The char `A` comes back as `6`, and three thousand million is out of range. -/
theorem default_is_not_read_back :
    (∃ vars, (delayApp .char 65).parse ["pmt"] ((delayApp .char 65).fresh (.number 0)) = .ok vars ∧
      vars.dest = .number 54) ∧
    ¬ SetsDefault ((delayApp .char 65).fresh (.number 0)) ⟨[], 0⟩ ((delayOption .char).defaultValue 65) .whole
      (.number 65) ∧
    (delayApp .unsigned_int 3000000000).parse ["pmt"] ((delayApp .unsigned_int 3000000000).fresh (.number 0)) =
      raiseStd .out_of_range ∧
    ¬ SetsDefault ((delayApp .unsigned_int 3000000000).fresh (.number 0)) ⟨[], 0⟩
      ((delayOption .unsigned_int).defaultValue 3000000000) .whole (.number 3000000000) := by
  refine ⟨⟨_, rfl, by decide⟩, fun h => ?_, rfl, fun h => ?_⟩
  · have hread := (@setsDefault_iff .arm64_v8a false Value .whole ((delayOption .char).defaultValue 65) _ ⟨[], 0⟩ .char _ _
      rfl rfl rfl rfl).mp h
    revert hread
    decide
  · have hread := (@setsDefault_iff .arm64_v8a false Value .whole ((delayOption .unsigned_int).defaultValue 3000000000) _
      ⟨[], 0⟩ .unsigned_int _ _ rfl rfl rfl rfl).mp h
    revert hread
    decide +kernel

end PartitionManager
