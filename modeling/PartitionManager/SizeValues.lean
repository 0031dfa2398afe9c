import Mathlib.Data.Rat.Floor
import PartitionManager.DefaultTexts

namespace PartitionManager

/-- What IEEE 754 says of the doubles that sizes are computed in: the whole numbers below `2^53`
are doubles and those from there on are whole, a number that is a double is read and multiplied
without rounding, and the conversion of a product drops its fraction. -/
structure Doubles.Arithmetic (fp : Doubles) where
  value : fp.Double → ℚ
  nonneg : ∀ x, 0 ≤ value x
  whole : ∀ n : Nat, n < 2 ^ 53 → ∃ x, value x = n
  large : ∀ x, 2 ^ 53 ≤ value x → ∃ n : Nat, value x = n
  strtod : ∀ digits x, digits ≠ [] → (∀ c ∈ digits, c.isDigit = true) → value x = digitsValue digits →
    ∃ y, fp.strtod digits = some y ∧ value y = value x
  times : fp.Double → UInt64 → fp.Double
  unrounded : ∀ x (m : UInt64) y, value y = value x * m.toNat → value (times x m) = value y
  converted : ∀ x m, value (times x m) < 2 ^ 64 → (fp.toUInt64 x m).toNat = ⌊value (times x m)⌋₊

/-- The power of 1024 that a unit in upper case stands for. -/
def unitPower (unit : Str) : Option Nat :=
  if unit = [] then some 0
  else if unit = "K" ∨ unit = "KB" ∨ unit = "KIB" then some 1
  else if unit = "M" ∨ unit = "MB" ∨ unit = "MIB" then some 2
  else if unit = "G" ∨ unit = "GB" ∨ unit = "GIB" then some 3
  else if unit = "T" ∨ unit = "TB" ∨ unit = "TIB" then some 4
  else none

/-- What follows the number and the spaces, in upper case. -/
def sizeSuffix (s : Str) : Str := ((s.drop (numberPrefix s).length).dropWhile (· = ' ')).map Char.toUpper

section

variable {fp : Doubles} (arith : fp.Arithmetic)

/-- The number of the text, times its unit, is a `uint64_t`. -/
def SizeInRange (s : Str) : Prop :=
  ∀ num, fp.strtod (numberPrefix s) = some num →
    arith.value (arith.times num (multiplier false (sizeSuffix s))) < 2 ^ 64

/-- The text has a suffix that is no unit, or more than one dot. -/
def MalformedSize (s : Str) : Prop := unitPower (sizeSuffix s) = none ∨ 1 < (numberPrefix s).count '.'

/-- A whole number with a unit, and no more than a double holds. -/
structure WholeSize (s : Str) (n power : Nat) : Prop where
  text : ∃ digits spaces unit, s = digits ++ List.replicate spaces ' ' ++ unit ∧ digits ≠ [] ∧
    (∀ c ∈ digits, c.isDigit = true) ∧ digitsValue digits = n ∧ unitPower (unit.map Char.toUpper) = some power
  small : n * 1024 ^ power < 2 ^ 53

/-- What size expressions promise. -/
structure SizeLaw (s : Str) : Prop where
  multiplied : ∀ n power, WholeSize s n power → AsSizeValue fp false s = .ok (to_string (n * 1024 ^ power))
  rejects : MalformedSize s → ∃ stop, AsSizeValue fp false s = .error stop
  stable : ∀ out, AsSizeValue fp false s = .ok out → SizeInRange arith s ∧ AsSizeValue fp false out = .ok out

/-- The texts that keep the promise: no `TB`, nothing malformed that starts with a number, no overflow. -/
structure SizeKept (s : Str) : Prop where
  terabytes : sizeSuffix s = "TB" → ∀ n power, WholeSize s n power → n = 0
  unread : MalformedSize s → ¬ SizeText fp s
  inRange : SizeText fp s → SizeInRange arith s

theorem AsSizeValue_ok_iff {use_si : Bool} {s out : Str} : AsSizeValue fp use_si s = .ok out ↔
    ∃ num, startsNumber (numberPrefix s) = true ∧ fp.strtod (numberPrefix s) = some num ∧
      out = to_string (fp.toUInt64 num (multiplier use_si (sizeSuffix s))).toNat := by
  unfold AsSizeValue
  by_cases hs : s = []
  · subst hs
    refine iff_of_false (fun h => nomatch h) fun h => ?_
    obtain ⟨num, hstarts, _⟩ := h
    cases hstarts
  · rw [if_neg hs, Checks.bind_ok_iff]
    constructor
    · intro h
      obtain ⟨num, hnum, hout⟩ := h
      unfold stod at hnum
      cases hstarts : startsNumber (numberPrefix s) with
      | false =>
        rw [hstarts] at hnum
        cases hnum
      | true =>
        rw [hstarts] at hnum
        cases hread : fp.strtod (numberPrefix s) with
        | none =>
          rw [hread] at hnum
          cases hnum
        | some found =>
          rw [hread] at hnum
          cases hnum
          exact ⟨num, rfl, rfl, (Except.ok.inj hout).symm⟩
    · intro h
      obtain ⟨num, hstarts, hread, rfl⟩ := h
      refine ⟨num, ?_, rfl⟩
      unfold stod
      rw [hstarts, hread]
      rfl

/-- A text that is refused does not start with a number that can be read. -/
theorem AsSizeValue_error_iff {s : Str} : (∃ stop, AsSizeValue fp false s = .error stop) ↔ ¬ SizeText fp s := by
  have hok : (∃ out, AsSizeValue fp false s = .ok out) ↔ SizeText fp s := by
    constructor
    · intro h
      obtain ⟨out, hout⟩ := h
      obtain ⟨num, hstarts, hread, _⟩ := AsSizeValue_ok_iff.mp hout
      exact ⟨hstarts, by rw [hread]; rfl⟩
    · intro h
      obtain ⟨num, hread⟩ := Option.isSome_iff_exists.mp h.2
      exact ⟨_, AsSizeValue_ok_iff.mpr ⟨num, h.1, hread, rfl⟩⟩
  rw [← hok]
  cases AsSizeValue fp false s with
  | error stop => exact iff_of_true ⟨stop, rfl⟩ fun h => (nomatch h.choose_spec)
  | ok out => exact iff_of_false (fun h => nomatch h.choose_spec) fun h => h ⟨out, rfl⟩

end

theorem unitPower_cases {unit : Str} {power : Nat} (h : unitPower unit = some power) :
    (unit = [] ∧ power = 0) ∨ ((unit = "K" ∨ unit = "KB" ∨ unit = "KIB") ∧ power = 1) ∨
      ((unit = "M" ∨ unit = "MB" ∨ unit = "MIB") ∧ power = 2) ∨
      ((unit = "G" ∨ unit = "GB" ∨ unit = "GIB") ∧ power = 3) ∨
      ((unit = "T" ∨ unit = "TB" ∨ unit = "TIB") ∧ power = 4) := by
  unfold unitPower at h
  split at h
  next hunit => exact Or.inl ⟨hunit, (Option.some.inj h).symm⟩
  next =>
    split at h
    next hunit => exact Or.inr (Or.inl ⟨hunit, (Option.some.inj h).symm⟩)
    next =>
      split at h
      next hunit => exact Or.inr (Or.inr (Or.inl ⟨hunit, (Option.some.inj h).symm⟩))
      next =>
        split at h
        next hunit => exact Or.inr (Or.inr (Or.inr (Or.inl ⟨hunit, (Option.some.inj h).symm⟩)))
        next =>
          split at h
          next hunit => exact Or.inr (Or.inr (Or.inr (Or.inr ⟨hunit, (Option.some.inj h).symm⟩)))
          next => cases h

/-- A unit starts with its letter, so it is not mistaken for a part of the number. -/
theorem unitPower_head {unit : Str} {power : Nat} (h : unitPower unit = some power) :
    ∀ c ∈ unit.head?, c = 'K' ∨ c = 'M' ∨ c = 'G' ∨ c = 'T' := by
  rcases unitPower_cases h with ⟨rfl, _⟩ | ⟨rfl | rfl | rfl, _⟩ | ⟨rfl | rfl | rfl, _⟩ | ⟨rfl | rfl | rfl, _⟩ |
    ⟨rfl | rfl | rfl, _⟩ <;> rintro _ ⟨⟩ <;> decide

/-- All units but `TB` are multiplied out. -/
theorem multiplier_of_unit {unit : Str} {power : Nat} (h : unitPower unit = some power) (hunit : unit ≠ "TB") :
    (multiplier false unit).toNat = 1024 ^ power := by
  rcases unitPower_cases h with ⟨rfl, rfl⟩ | ⟨rfl | rfl | rfl, rfl⟩ | ⟨rfl | rfl | rfl, rfl⟩ | ⟨rfl | rfl | rfl, rfl⟩ |
    ⟨rfl | rfl | rfl, rfl⟩ <;> first | exact absurd rfl hunit | rfl

section

variable {digits unit : Str} {spaces power : Nat}

theorem takeWhile_nil_of_head {p : Char → Bool} {s : Str} (h : ∀ c ∈ s.head?, p c = false) : s.takeWhile p = [] := by
  cases s with
  | nil => rfl
  | cons c rest => exact List.takeWhile_cons_of_neg (by simp [h c rfl])

theorem unit_head (hunit : unitPower (unit.map Char.toUpper) = some power) :
    ∀ c ∈ unit.head?, c ≠ ' ' ∧ c ≠ '.' ∧ c.isDigit = false := by
  intro c hc
  have hletter : ∀ u ∈ (unit.map Char.toUpper).head?, u = 'K' ∨ u = 'M' ∨ u = 'G' ∨ u = 'T' := unitPower_head hunit
  rw [List.head?_map] at hletter
  have hupper := hletter c.toUpper (Option.mem_map_of_mem _ hc)
  refine ⟨?_, ?_, ?_⟩
  · rintro rfl
    exact absurd hupper (by decide)
  · rintro rfl
    exact absurd hupper (by decide)
  · by_contra h
    have hdigit : c.isDigit = true := by simpa using h
    have hhigh := (Char.isDigit_iff_toNat.mp hdigit).2
    -- a digit is no small letter, so it is its own upper case
    have hsame : c.toUpper = c := by
      unfold Char.toUpper
      refine dif_neg fun hlower => ?_
      have hlow : 'a'.toNat ≤ c.toNat := UInt32.le_iff_toNat_le.mp hlower.1
      exact absurd (hlow.trans hhigh) (by decide)
    rw [hsame] at hupper
    rcases hupper with rfl | rfl | rfl | rfl <;> exact absurd hdigit (by decide)

theorem numberPrefix_whole (hdigits : ∀ c ∈ digits, c.isDigit = true)
    (hunit : unitPower (unit.map Char.toUpper) = some power) :
    numberPrefix (digits ++ List.replicate spaces ' ' ++ unit) = digits := by
  have hhead : ∀ c ∈ (List.replicate spaces ' ' ++ unit).head?, (c.isDigit || c = '.') = false := by
    intro c hc
    cases spaces with
    | zero =>
      obtain ⟨_, hdot, hdigit⟩ := unit_head hunit c hc
      simp [hdot, hdigit]
    | succ spaces =>
      cases hc
      decide
  have hall : ∀ c ∈ digits, (c.isDigit || c = '.') = true := fun c hc => by simp [hdigits c hc]
  unfold numberPrefix
  rw [List.append_assoc, List.takeWhile_append_of_pos hall, takeWhile_nil_of_head hhead, List.append_nil]

theorem sizeSuffix_whole (hdigits : ∀ c ∈ digits, c.isDigit = true)
    (hunit : unitPower (unit.map Char.toUpper) = some power) :
    sizeSuffix (digits ++ List.replicate spaces ' ' ++ unit) = unit.map Char.toUpper := by
  have hblank : (List.replicate spaces ' ' ++ unit).dropWhile (· = ' ') = unit := by
    induction spaces with
    | zero =>
      cases unit with
      | nil => rfl
      | cons c rest =>
        have hc := (unit_head hunit c rfl).1
        exact List.dropWhile_cons_of_neg (by simpa using hc)
    | succ spaces ih => exact ih
  unfold sizeSuffix
  rw [numberPrefix_whole hdigits hunit, List.append_assoc, List.drop_left, hblank]

end

section

variable {fp : Doubles} (arith : fp.Arithmetic)

theorem startsNumber_digits {digits : Str} (hne : digits ≠ []) (hdigits : ∀ c ∈ digits, c.isDigit = true) :
    startsNumber digits = true := by
  obtain ⟨c, rest, rfl⟩ := List.exists_cons_of_ne_nil hne
  have hc := hdigits c List.mem_cons_self
  unfold startsNumber
  split
  next heq =>
    cases heq
    exact absurd hc (by decide)
  next heq =>
    cases heq
    exact hc
  next heq => cases heq

/-- A whole product below `2^53` is computed without rounding. -/
theorem Doubles.Arithmetic.product {num : fp.Double} {n : Nat} {m : UInt64} (hnum : arith.value num = n)
    (hsmall : n * m.toNat < 2 ^ 53) :
    arith.value (arith.times num m) = (n * m.toNat : Nat) ∧ (fp.toUInt64 num m).toNat = n * m.toNat := by
  obtain ⟨y, hy⟩ := arith.whole (n * m.toNat) hsmall
  have hexact : arith.value (arith.times num m) = (n * m.toNat : Nat) := by
    rw [arith.unrounded num m y (by rw [hy, hnum]; push_cast; rfl), hy]
  refine ⟨hexact, ?_⟩
  have hrange : arith.value (arith.times num m) < 2 ^ 64 := by
    rw [hexact]
    exact_mod_cast hsmall.trans (by decide)
  rw [arith.converted num m hrange, hexact]
  exact Nat.floor_natCast _

/-- A whole number with a unit is multiplied by what the code takes the unit for. -/
theorem WholeSize.eval (arith : fp.Arithmetic) {s : Str} {n power : Nat} (h : WholeSize s n power) :
    unitPower (sizeSuffix s) = some power ∧
      AsSizeValue fp false s = .ok (to_string (n * (multiplier false (sizeSuffix s)).toNat)) := by
  obtain ⟨digits, spaces, unit, rfl, hne, hdigits, rfl, hunit⟩ := h.text
  have hfront := @numberPrefix_whole digits unit spaces power hdigits hunit
  have hsuffix := @sizeSuffix_whole digits unit spaces power hdigits hunit
  have hpos : 1 ≤ 1024 ^ power := Nat.one_le_pow _ _ (by decide)
  have hle : (multiplier false (unit.map Char.toUpper)).toNat ≤ 1024 ^ power := by
    by_cases hterabytes : unit.map Char.toUpper = "TB"
    · rw [hterabytes]
      exact hpos
    · exact (multiplier_of_unit hunit hterabytes).le
  have hsmall : digitsValue digits * (multiplier false (unit.map Char.toUpper)).toNat < 2 ^ 53 :=
    (Nat.mul_le_mul_left _ hle).trans_lt h.small
  have hnumber : digitsValue digits < 2 ^ 53 := (Nat.le_mul_of_pos_right _ hpos).trans_lt h.small
  obtain ⟨x, hx⟩ := arith.whole _ hnumber
  obtain ⟨num, hread, hnum⟩ := arith.strtod digits x hne hdigits hx
  have hproduct := (arith.product (hnum.trans hx) hsmall).2
  rw [hsuffix]
  refine ⟨hunit, AsSizeValue_ok_iff.mpr ⟨num, ?_, ?_, ?_⟩⟩
  · rw [hfront]
    exact startsNumber_digits hne hdigits
  · rw [hfront]
    exact hread
  · rw [hsuffix, hproduct]

/-- A number that a double holds is a size that stays as it is. -/
theorem AsSizeValue_to_string {m : Nat} {x : fp.Double} (hx : arith.value x = m) (hrange : m < 2 ^ 64) :
    AsSizeValue fp false (to_string m) = .ok (to_string m) := by
  have hdigits := to_string_digits m
  have hplain : to_string m ++ List.replicate 0 ' ' ++ [] = to_string m := by simp
  have hfront := @numberPrefix_whole (to_string m) [] 0 0 hdigits rfl
  have hsuffix := @sizeSuffix_whole (to_string m) [] 0 0 hdigits rfl
  rw [hplain] at hfront hsuffix
  obtain ⟨num, hread, hnum⟩ := arith.strtod (to_string m) x (to_string_ne_nil m) hdigits
    (hx.trans (by rw [digitsValue_to_string]))
  have hone : (multiplier false []).toNat = 1 := rfl
  have hexact : arith.value (arith.times num (multiplier false [])) = m := by
    rw [arith.unrounded num _ num (by rw [hone, Nat.cast_one, mul_one]), hnum, hx]
  refine AsSizeValue_ok_iff.mpr ⟨num, ?_, ?_, ?_⟩
  · rw [hfront]
    exact startsNumber_digits (to_string_ne_nil m) hdigits
  · rw [hfront]
    exact hread
  · have hconverted := arith.converted num (multiplier false []) (by rw [hexact]; exact_mod_cast hrange)
    rw [hexact, Nat.floor_natCast] at hconverted
    rw [hsuffix, List.map_nil, hconverted]

/-- The result of a conversion is a double again. -/
theorem Doubles.Arithmetic.converted_whole {num : fp.Double} {m : UInt64}
    (hrange : arith.value (arith.times num m) < 2 ^ 64) : ∃ x, arith.value x = (fp.toUInt64 num m).toNat := by
  rw [arith.converted num m hrange]
  rcases lt_or_ge (arith.value (arith.times num m)) (2 ^ 53) with hsmall | hlarge
  · refine arith.whole _ ?_
    have hfloor : ⌊arith.value (arith.times num m)⌋₊ < 2 ^ 53 := by
      refine (Nat.floor_lt (arith.nonneg _)).mpr ?_
      exact_mod_cast hsmall
    exact hfloor
  · obtain ⟨k, hk⟩ := arith.large _ hlarge
    refine ⟨arith.times num m, ?_⟩
    rw [hk, Nat.floor_natCast]

/-- A size is what it should be exactly where no `TB`, no malformed text that starts with a
number and no overflow gets in the way. -/
theorem size_law_iff (s : Str) : SizeLaw arith s ↔ SizeKept arith s := by
  constructor
  · intro h
    refine ⟨?_, ?_, ?_⟩
    · intro hterabytes n power hwhole
      obtain ⟨hunit, heval⟩ := hwhole.eval arith
      have htext := Except.ok.inj ((h.multiplied n power hwhole).symm.trans heval)
      have hsame : n * 1024 ^ power = n * (multiplier false (sizeSuffix s)).toNat := by
        rw [← digitsValue_to_string (n * 1024 ^ power), htext, digitsValue_to_string]
      have hpower : power = 4 := by
        rw [hterabytes] at hunit
        exact (Option.some.inj hunit).symm
      have hone : (multiplier false (sizeSuffix s)).toNat = 1 := by
        rw [hterabytes]
        rfl
      rw [hone, hpower] at hsame
      omega
    · intro hmalformed
      exact AsSizeValue_error_iff.mp (h.rejects hmalformed)
    · intro htext
      obtain ⟨num, hread⟩ := Option.isSome_iff_exists.mp htext.2
      exact (h.stable _ (AsSizeValue_ok_iff.mpr ⟨num, htext.1, hread, rfl⟩)).1
  · intro h
    refine ⟨?_, ?_, ?_⟩
    · intro n power hwhole
      obtain ⟨hunit, heval⟩ := hwhole.eval arith
      rw [heval]
      by_cases hterabytes : sizeSuffix s = "TB"
      · have hzero := h.terabytes hterabytes n power hwhole
        rw [hzero, Nat.zero_mul, Nat.zero_mul]
      · rw [multiplier_of_unit hunit hterabytes]
    · intro hmalformed
      exact AsSizeValue_error_iff.mpr (h.unread hmalformed)
    · intro out hout
      obtain ⟨num, hstarts, hread, rfl⟩ := AsSizeValue_ok_iff.mp hout
      have hrange := h.inRange ⟨hstarts, by rw [hread]; rfl⟩
      obtain ⟨x, hx⟩ := arith.converted_whole (hrange num hread)
      exact ⟨hrange, AsSizeValue_to_string arith hx (UInt64.toNat_lt _)⟩

end

/-- The arithmetic of sizes that are whole numbers. -/
def wholeArithmetic : wholeDoubles.Arithmetic where
  value (num : Nat) := num
  nonneg _ := Nat.cast_nonneg _
  whole n _ := ⟨n, rfl⟩
  large x _ := ⟨x, rfl⟩
  strtod digits x _ hdigits hx := by
    refine ⟨digitsValue digits, ?_, hx.symm⟩
    exact congrArg (fun text => some (digitsValue text)) (List.takeWhile_eq_self_iff.mpr hdigits)
  times (num : Nat) multiplier := (num * multiplier.toNat : Nat)
  unrounded x m y h := by
    rw [h]
    exact Nat.cast_mul x m.toNat
  converted := by
    intro (x : Nat) m h
    have hrange : x * m.toNat < 2 ^ 64 := by exact_mod_cast h
    have hmod : (UInt64.ofNat (x * m.toNat)).toNat = x * m.toNat := by
      rw [UInt64.toNat_ofNat', Nat.mod_eq_of_lt hrange]
    exact hmod.trans (Nat.floor_natCast (R := ℚ) _).symm

theorem size_law_of_kilobytes : SizeLaw wholeArithmetic "4 kb" ↔ SizeKept wholeArithmetic "4 kb" :=
  size_law_iff wholeArithmetic _

/-- A terabyte is one byte, and neither an unknown unit nor a third part of a number is refused. -/
theorem terabyte_is_one_byte :
    (AsSizeValue wholeDoubles false "1TB" = .ok "1" ∧ ¬ SizeLaw wholeArithmetic "1TB") ∧
    (AsSizeValue wholeDoubles false "5XB" = .ok "5" ∧ ¬ SizeLaw wholeArithmetic "5XB") ∧
    (AsSizeValue wholeDoubles false "1.2.3" = .ok "1" ∧ ¬ SizeLaw wholeArithmetic "1.2.3") := by
  have hterabyte : AsSizeValue wholeDoubles false "1TB" = .ok "1" := by decide +kernel
  have hunknown : AsSizeValue wholeDoubles false "5XB" = .ok "5" := by decide +kernel
  have hdots : AsSizeValue wholeDoubles false "1.2.3" = .ok "1" := by decide +kernel
  refine ⟨⟨hterabyte, fun h => ?_⟩, ⟨hunknown, fun h => ?_⟩, ⟨hdots, fun h => ?_⟩⟩
  · have hwhole : WholeSize "1TB" 1 4 :=
      ⟨⟨"1", 0, "TB", by decide, by decide, List.forall_mem_singleton.mpr rfl, by decide, by decide⟩, by decide⟩
    have hvalue := (h.multiplied 1 4 hwhole).symm.trans hterabyte
    revert hvalue
    decide +kernel
  · obtain ⟨stop, hstop⟩ := h.rejects (Or.inl (by decide))
    rw [hunknown] at hstop
    cases hstop
  · obtain ⟨stop, hstop⟩ := h.rejects (Or.inr (by decide))
    rw [hdots] at hstop
    cases hstop

end PartitionManager
