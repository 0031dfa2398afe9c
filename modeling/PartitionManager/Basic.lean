import Mathlib.Algebra.Order.Ring.Int
import Mathlib.Data.Char
import Mathlib.Data.List.Infix
import Mathlib.Data.List.Lex
import Mathlib.Data.List.Nodup

namespace PartitionManager

/-- C++ strings: a list of `char`. -/
abbrev Str := List Char

instance : Coe String Str := ⟨String.toList⟩

abbrev Errno := Nat

def EPERM : Errno := 1
def ENOENT : Errno := 2
def EIO : Errno := 5
def EACCES : Errno := 13
def EEXIST : Errno := 17
def EINVAL : Errno := 22

def PATH_MAX : Nat := 4096

def EX_USAGE : Int := 64
def EX_DATAERR : Int := 65

/-- `Helper::Error`: what a throw of it carries. -/
structure HelperError where
  message : Str
  ec : Int := 1
  is_cmdline_error : Bool := false
  deriving DecidableEq

def HelperError.withCode (e : HelperError) (ec : Int) : HelperError := { e with ec }

def HelperError.cmdlineError (e : HelperError) : HelperError := { e with is_cmdline_error := true }

/-- The copy constructor takes over the message only. -/
def HelperError.copy (e : HelperError) : HelperError := { message := e.message }

/-- Exceptions of the standard library that the program does not raise itself. -/
inductive StdException where
  | out_of_range
  | invalid_argument
  | filesystem_error
  | bad_function_call
  deriving DecidableEq

inductive Exception where
  | helper (e : HelperError)
  | std (e : StdException)
  deriving DecidableEq

/-- Uses of the language that have no defined result. -/
inductive Undefined where
  | nullDereference
  | emptyOptional
  | emptyVector
  | indexOutOfRange
  | releasedFuture
  deriving DecidableEq

/-- How a call ends when it does not return: by an exception, by ending the
process, by undefined behaviour, or not at all. -/
inductive Stop where
  | raised (e : Exception)
  | exited (code : Int)
  | undefined (u : Undefined)
  | never
  deriving DecidableEq

abbrev Outcome (α : Type) := Except Stop α

/-- `throw`: the builders return references, so the exception is a copy of what they built. -/
def Stop.thrown (e : HelperError) : Stop := .raised (.helper e.copy)

def raise {α : Type} (e : HelperError) : Outcome α := .error (.thrown e)

def raiseStd {α : Type} (e : StdException) : Outcome α := .error (.raised (.std e))

def to_string (n : Nat) : Str := Nat.toDigits 10 n

/-- `std::filesystem::path::filename`. -/
def filename (path : Str) : Str := (path.reverse.takeWhile (· ≠ '/')).reverse

/-- `std::filesystem::path::operator/=`: an absolute right operand replaces the left one. -/
def append (path entry : Str) : Str :=
  if entry.head? = some '/' then entry
  else if path = [] ∨ path.getLast? = some '/' then path ++ entry
  else path ++ '/' :: entry

/-- Two paths are equal if their elements are: a slash after another one does not count. -/
def squeeze : Str → Str
  | '/' :: '/' :: path => squeeze ('/' :: path)
  | c :: path => c :: squeeze path
  | [] => []

/-- The two targets of `TARGET_ABI_LIST`. -/
inductive Abi where
  | arm64_v8a
  | armeabi_v7a
  deriving DecidableEq

/-- Width of `size_t`, `ssize_t` and `GenericSizeType`. -/
def Abi.bits : Abi → Nat
  | .arm64_v8a => 64
  | .armeabi_v7a => 32

def Abi.SSIZE_MAX (abi : Abi) : Nat := 2 ^ (abi.bits - 1) - 1

/-- Conversion of an integer to `size_t`. -/
def Abi.toSize (abi : Abi) (x : Int) : Nat := (x % 2 ^ abi.bits).toNat

/-- Conversion of an integer to `uint64_t`. -/
def toUInt64 (x : Int) : Nat := (x % 2 ^ 64).toNat

/-- A sum of two `ssize_t`. What becomes of one that does not fit is left open. -/
def Abi.addSsize (abi : Abi) (overflow : Int → Int) (a b : Int) : Int :=
  if -(abi.SSIZE_MAX : Int) - 1 ≤ a + b ∧ a + b ≤ abi.SSIZE_MAX then a + b else overflow (a + b)

/-- What the add instruction makes of it. -/
def Abi.wrap (abi : Abi) (x : Int) : Int := (x + 2 ^ (abi.bits - 1)) % 2 ^ abi.bits - 2 ^ (abi.bits - 1)

/-- Only a slash before a slash is dropped. -/
theorem squeeze_cons {c : Char} {path : Str} (h : c = '/' → path.head? ≠ some '/') :
    squeeze (c :: path) = c :: squeeze path := by
  cases path with
  | nil => simp [squeeze]
  | cons d rest =>
    rw [squeeze]
    intro rest' hc heq
    exact h hc (by simp [(List.cons.inj heq).1])

theorem squeeze_of_plain {path : Str} (h : '/' ∉ path) : squeeze path = path := by
  induction path with
  | nil => simp [squeeze]
  | cons c path ih =>
    have hc : c ≠ '/' := by
      rintro rfl
      exact h List.mem_cons_self
    rw [squeeze_cons fun heq => absurd heq hc, ih fun hmem => h (List.mem_cons_of_mem _ hmem)]

theorem Abi.toSize_of_nonneg {abi : Abi} {x : Int} (h0 : 0 ≤ x) (h : x < 2 ^ abi.bits) :
    abi.toSize x = x.toNat := by
  rw [toSize, Int.emod_eq_of_lt h0 h]

theorem Abi.toSize_natCast {abi : Abi} {n : Nat} (h : n < 2 ^ abi.bits) : abi.toSize n = n := by
  rw [toSize_of_nonneg (by omega) (by exact_mod_cast h)]
  simp

theorem Abi.SSIZE_MAX_lt (abi : Abi) : abi.SSIZE_MAX < 2 ^ abi.bits := by
  cases abi <;> decide

theorem Abi.bits_le (abi : Abi) : 2 ^ abi.bits ≤ 2 ^ 64 := by
  cases abi <;> decide

theorem toUInt64_natCast {n : Nat} (h : n < 2 ^ 64) : toUInt64 n = n := by
  unfold toUInt64
  omega

theorem Abi.addSsize_of_le {abi : Abi} {a b : Nat} (overflow : Int → Int) (h : a + b ≤ abi.SSIZE_MAX) :
    abi.addSsize overflow a b = (a + b : Nat) := by
  unfold addSsize
  rw [if_pos (by omega)]
  omega

theorem Abi.addSsize_of_lt {abi : Abi} {a b : Nat} (overflow : Int → Int) (h : abi.SSIZE_MAX < a + b) :
    abi.addSsize overflow a b = overflow (a + b : Nat) := by
  unfold addSsize
  rw [if_neg (by omega)]
  norm_cast

end PartitionManager
