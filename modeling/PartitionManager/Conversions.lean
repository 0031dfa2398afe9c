import PartitionManager.Library.Checks
import PartitionManager.Basic

namespace PartitionManager

/-- The parts of a text between delimiters, without the empty ones. -/
def split (s : Str) (delim : Char) : List Str := (s.splitOn delim).filter (· ≠ [])

def isspace (c : Char) : Bool := c = ' ' || ('\t' ≤ c && c ≤ '\r')

/-- Whether a number is negative, and the text after its sign. -/
def readSign : Str → Bool × Str
  | '-' :: s => (true, s)
  | '+' :: s => (false, s)
  | s => (false, s)

def digitsValue (digits : Str) : Nat := digits.foldl (fun n c => 10 * n + (c.toNat - '0'.toNat)) 0

/-- The number a text starts with, after any space, as `strtol` and its kin read it.
What follows it does not matter. -/
def strtol (s : Str) : Option Int :=
  match (readSign (s.dropWhile isspace)).2.takeWhile Char.isDigit with
  | [] => none
  | digits =>
    some (if (readSign (s.dropWhile isspace)).1 then -(digitsValue digits : Int) else digitsValue digits)

example : strtol " -12ab" = some (-12) := by decide

/-- `stoi` and its kin: a number of the type between the bounds. -/
def stoInteger (lo hi : Int) (s : Str) : Outcome Int :=
  match strtol s with
  | none => raiseStd .invalid_argument
  | some n => if lo ≤ n ∧ n ≤ hi then .ok n else raiseStd .out_of_range

def stoi (s : Str) : Outcome Int := stoInteger (-2 ^ 31) (2 ^ 31 - 1) s

def stol (abi : Abi) (s : Str) : Outcome Int := stoInteger (-2 ^ (abi.bits - 1)) (2 ^ (abi.bits - 1) - 1) s

def stoll (s : Str) : Outcome Int := stoInteger (-2 ^ 63) (2 ^ 63 - 1) s

/-- A sign is accepted, and the number is taken modulo the width. -/
def stoul (abi : Abi) (s : Str) : Outcome Int :=
  (stoInteger (-(2 ^ abi.bits - 1)) (2 ^ abi.bits - 1) s).map (· % 2 ^ abi.bits)

def stoull (s : Str) : Outcome Int := (stoInteger (-(2 ^ 64 - 1)) (2 ^ 64 - 1) s).map (· % 2 ^ 64)

/-- The value of a character as a `char`. -/
def toChar (signed_char : Bool) (c : Char) : Int :=
  if signed_char then (c.toNat + 128) % 256 - 128 else c.toNat % 256

def char_from_string (signed_char : Bool) : Str → Outcome Int
  | [] => raise ((HelperError.mk "Empty char option" 1 false).cmdlineError.withCode EX_DATAERR)
  | c :: _ => .ok (toChar signed_char c)

/-- The types of the variables that options write to, less those of floating point and
the pointers. -/
inductive Destination where
  | char (signed_char : Bool)
  | int
  | unsigned_int
  | long (abi : Abi)
  | unsigned_long (abi : Abi)
  | long_long
  | unsigned_long_long
  | bool
  | string
  | path
  | vector_int
  | vector_string
  deriving DecidableEq

inductive Value where
  | number (n : Int)
  | bool (b : Bool)
  | string (s : Str)
  | numbers (ns : List Int)
  | strings (ss : List Str)
  deriving DecidableEq

def from_string : Destination → Str → Outcome Value
  | .char signed_char, s => (char_from_string signed_char s).map .number
  | .int, s => (stoi s).map .number
  | .unsigned_int, s => (stoi s).map fun n => .number (n % 2 ^ 32)
  | .long abi, s => (stol abi s).map .number
  | .unsigned_long abi, s => (stoul abi s).map .number
  | .long_long, s => (stoll s).map .number
  | .unsigned_long_long, s => (stoull s).map .number
  | .bool, s =>
    if s = "true" ∨ s = "1" ∨ s = "yes" then .ok (.bool true)
    else if s = "false" ∨ s = "0" ∨ s = "no" then .ok (.bool false)
    else raise ((HelperError.mk ("Invalid bool value: " ++ s) 1 false).cmdlineError.withCode EX_DATAERR)
  | .string, s => .ok (.string s)
  | .path, s => .ok (.string s)
  | .vector_int, s => (((split s ',').mapM stoi).map .numbers)
  | .vector_string, s => .ok (.strings (split s ','))

/-- The floating point that sizes are computed in: `strtod`, which has no result
where it reports a range error, and a product as a `uint64_t`. -/
structure Doubles where
  Double : Type
  strtod : Str → Option Double
  toUInt64 : Double → UInt64 → UInt64

/-- The digits and dots that a text starts with. -/
def numberPrefix (s : Str) : Str := s.takeWhile fun c => c.isDigit || c = '.'

/-- A text of digits and dots starts with a number. -/
def startsNumber : Str → Bool
  | '.' :: c :: _ => c.isDigit
  | c :: _ => c.isDigit
  | [] => false

/-- `stod` of digits and dots. -/
def stod (fp : Doubles) (s : Str) : Outcome fp.Double :=
  if !startsNumber s then raiseStd .invalid_argument
  else
    match fp.strtod s with
    | none => raiseStd .out_of_range
    | some num => .ok num

def multiplier (use_si : Bool) (suffix : Str) : UInt64 :=
  if use_si then
    if suffix = "K" ∨ suffix = "KB" then 1000
    else if suffix = "M" ∨ suffix = "MB" then 1000 * 1000
    else if suffix = "G" ∨ suffix = "GB" then 1000 * 1000 * 1000
    else if suffix = "T" ∨ suffix = "TB" then 1000 * 1000 * 1000 * 1000
    else 1
  else if suffix = "K" ∨ suffix = "KIB" then 1024
  else if suffix = "M" ∨ suffix = "MIB" then 1024 * 1024
  else if suffix = "G" ∨ suffix = "GIB" then 1024 * 1024 * 1024
  else if suffix = "T" ∨ suffix = "TIB" then 1024 * 1024 * 1024 * 1024
  else if suffix = "KB" then 1024
  else if suffix = "MB" then 1024 * 1024
  else if suffix = "GB" then 1024 * 1024 * 1024
  else 1

def AsSizeValue (fp : Doubles) (use_si : Bool) (s : Str) : Outcome Str :=
  if s = [] then raiseStd .invalid_argument
  else do
    let num ← stod fp (numberPrefix s)
    let suffix := ((s.drop (numberPrefix s).length).dropWhile (· = ' ')).map Char.toUpper
    .ok (to_string (fp.toUInt64 num (multiplier use_si suffix)).toNat)

/-- What may end a pass over the command line: the exception that `main` catches, or
the end of the process. -/
def Stop.Contained : Stop → Prop
  | .raised (.helper _) => True
  | .exited _ => True
  | _ => False

/-- A call that returns, or ends with nothing but what may end a pass. -/
def Contained {α : Type} (result : Outcome α) : Prop := ∀ stop, result = .error stop → stop.Contained

/-- The text starts with a number between the bounds. -/
def InRange (lo hi : Int) (s : Str) : Prop := ∃ n, strtol s = some n ∧ lo ≤ n ∧ n ≤ hi

/-- The texts that can be converted, or are refused as they should be. -/
def Destination.Reads : Destination → Str → Prop
  | .int, s => InRange (-2 ^ 31) (2 ^ 31 - 1) s
  | .unsigned_int, s => InRange (-2 ^ 31) (2 ^ 31 - 1) s
  | .long abi, s => InRange (-2 ^ (abi.bits - 1)) (2 ^ (abi.bits - 1) - 1) s
  | .unsigned_long abi, s => InRange (-(2 ^ abi.bits - 1)) (2 ^ abi.bits - 1) s
  | .long_long, s => InRange (-2 ^ 63) (2 ^ 63 - 1) s
  | .unsigned_long_long, s => InRange (-(2 ^ 64 - 1)) (2 ^ 64 - 1) s
  | .vector_int, s => ∀ part ∈ split s ',', InRange (-2 ^ 31) (2 ^ 31 - 1) part
  | .char _, _ => True
  | .bool, _ => True
  | .string, _ => True
  | .path, _ => True
  | .vector_string, _ => True

/-- The texts that are sizes. -/
def SizeText (fp : Doubles) (s : Str) : Prop :=
  startsNumber (numberPrefix s) = true ∧ (fp.strtod (numberPrefix s)).isSome = true

section

variable {α β : Type}

theorem contained_ok (a : α) : Contained (.ok a : Outcome α) := by
  intro stop h
  cases h

theorem contained_error {stop : Stop} : Contained (.error stop : Outcome α) ↔ stop.Contained := by
  constructor
  · intro h
    exact h stop rfl
  · intro h stop' h'
    cases h'
    exact h

theorem contained_raise (e : HelperError) : Contained (raise e : Outcome α) := contained_error.mpr trivial

theorem not_contained_raiseStd (e : StdException) : ¬ Contained (raiseStd e : Outcome α) := contained_error.mp

theorem contained_map {f : α → β} {result : Outcome α} : Contained (result.map f) ↔ Contained result := by
  cases result with
  | error stop => exact contained_error.trans contained_error.symm
  | ok a => exact iff_of_true (contained_ok _) (contained_ok _)

theorem contained_bind {f : α → Outcome β} {result : Outcome α} :
    Contained (result >>= f) ↔ Contained result ∧ ∀ a, result = .ok a → Contained (f a) := by
  cases result with
  | error stop =>
    have hsame : Contained (Except.error stop >>= f) ↔ Contained (.error stop : Outcome α) :=
      contained_error.trans contained_error.symm
    rw [hsame]
    exact (and_iff_left fun a h => nomatch h).symm
  | ok a =>
    constructor
    · intro h
      refine ⟨contained_ok a, fun a' h' => ?_⟩
      cases h'
      exact h
    · intro h
      exact h.2 a rfl

end

theorem stoInteger_contained_iff {lo hi : Int} {s : Str} : Contained (stoInteger lo hi s) ↔ InRange lo hi s := by
  unfold stoInteger InRange
  cases hs : strtol s with
  | none => exact iff_of_false (not_contained_raiseStd _) (by simp)
  | some n =>
    by_cases hn : lo ≤ n ∧ n ≤ hi
    · dsimp only
      rw [if_pos hn]
      exact iff_of_true (contained_ok n) ⟨n, rfl, hn⟩
    · dsimp only
      rw [if_neg hn]
      refine iff_of_false (not_contained_raiseStd _) ?_
      intro h
      obtain ⟨n', hn', hrange⟩ := h
      cases hn'
      exact hn hrange

theorem mapM_contained_iff {α β : Type} {f : α → Outcome β} {xs : List α}
    (hall : ∀ x ∈ xs, Contained (f x) → ∃ y, f x = .ok y) :
    Contained (xs.mapM f) ↔ ∀ x ∈ xs, Contained (f x) := by
  induction xs with
  | nil => exact iff_of_true (contained_ok _) fun x hx => absurd hx List.not_mem_nil
  | cons x xs ih =>
    obtain ⟨hx, hrest⟩ := List.forall_mem_cons.mp hall
    rw [List.mapM_cons, contained_bind, List.forall_mem_cons, ← ih hrest]
    refine and_congr_right fun hcontained => ?_
    obtain ⟨y, hy⟩ := hx hcontained
    constructor
    · intro h
      exact (contained_bind.mp (h y hy)).1
    · intro h y' _
      exact contained_bind.mpr ⟨h, fun ys _ => contained_ok _⟩

theorem stoInteger_ok_of_inRange {lo hi : Int} {s : Str} (h : InRange lo hi s) : ∃ n, stoInteger lo hi s = .ok n := by
  obtain ⟨n, hn, hrange⟩ := h
  refine ⟨n, ?_⟩
  simp only [stoInteger, hn]
  exact if_pos hrange

/-- Only the conversions to numbers raise what `main` does not catch. -/
theorem from_string_contained_iff (T : Destination) (s : Str) : Contained (from_string T s) ↔ T.Reads s := by
  cases T with
  | char signed_char =>
    refine iff_of_true (contained_map.mpr ?_) trivial
    cases s with
    | nil => exact contained_raise _
    | cons c s => exact contained_ok _
  | int => rw [from_string, contained_map, stoi, stoInteger_contained_iff, Destination.Reads]
  | unsigned_int => rw [from_string, contained_map, stoi, stoInteger_contained_iff, Destination.Reads]
  | long abi => rw [from_string, contained_map, stol, stoInteger_contained_iff, Destination.Reads]
  | unsigned_long abi =>
    rw [from_string, contained_map, stoul, contained_map, stoInteger_contained_iff, Destination.Reads]
  | long_long => rw [from_string, contained_map, stoll, stoInteger_contained_iff, Destination.Reads]
  | unsigned_long_long =>
    rw [from_string, contained_map, stoull, contained_map, stoInteger_contained_iff, Destination.Reads]
  | bool =>
    refine iff_of_true ?_ trivial
    simp only [from_string]
    split
    next => exact contained_ok _
    next =>
      split
      next => exact contained_ok _
      next => exact contained_raise _
  | string => exact iff_of_true (contained_ok _) trivial
  | path => exact iff_of_true (contained_ok _) trivial
  | vector_int =>
    have hall : ∀ part ∈ split s ',', Contained (stoi part) → ∃ n, stoi part = .ok n := by
      intro part _ hpart
      exact stoInteger_ok_of_inRange (stoInteger_contained_iff.mp hpart)
    rw [from_string, contained_map, mapM_contained_iff hall]
    simp only [stoi, stoInteger_contained_iff]
    rfl
  | vector_string => exact iff_of_true (contained_ok _) trivial

theorem AsSizeValue_contained_iff {fp : Doubles} {use_si : Bool} {s : Str} :
    Contained (AsSizeValue fp use_si s) ↔ SizeText fp s := by
  unfold AsSizeValue SizeText
  by_cases hs : s = []
  · rw [if_pos hs, hs]
    exact iff_of_false (not_contained_raiseStd _) (by simp [numberPrefix, startsNumber])
  · rw [if_neg hs, contained_bind, stod]
    cases hstart : startsNumber (numberPrefix s) with
    | false => exact iff_of_false (fun h => not_contained_raiseStd _ h.1) (by simp)
    | true =>
      cases hnum : fp.strtod (numberPrefix s) with
      | none => exact iff_of_false (fun h => not_contained_raiseStd _ h.1) (by simp)
      | some num => exact iff_of_true ⟨contained_ok _, fun _ _ => contained_ok _⟩ ⟨rfl, rfl⟩

end PartitionManager
