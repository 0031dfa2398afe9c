import PartitionManager.Basic

namespace PartitionManager

/-- `std::ostringstream`: its text, and the formatting state `Ios` that manipulators change. -/
structure Ostringstream (Ios : Type) [Inhabited Ios] where
  str : Str := []
  ios : Ios := default

/-- What inserting a value does: the text it adds and the formatting state it leaves. -/
abbrev Inserter (Ios : Type) := Ios → Str × Ios

variable {Ios : Type} [Inhabited Ios]

def Ostringstream.insert (oss : Ostringstream Ios) (msg : Inserter Ios) : Ostringstream Ios :=
  ⟨oss.str ++ (msg oss.ios).1, (msg oss.ios).2⟩

/-- `Helper::Error` as it is built. -/
structure Error (Ios : Type) [Inhabited Ios] extends HelperError where
  oss : Ostringstream Ios

namespace Error

/-- `Error(const Error &)`. -/
def copy (other : Error Ios) : Error Ios := { other.toHelperError.copy with oss := {} }

def write (e : Error Ios) (msg : Inserter Ios) : Error Ios :=
  { e with
    oss := e.oss.insert msg
    message := (e.oss.insert msg).str }

end Error

inductive ValueCategory where
  | prvalue
  | xvalue
  | lvalue
  deriving DecidableEq

/-- The expressions that build an error, by the value category of their result.
The inserter of values is only callable on a temporary. -/
inductive ErrorChain (Ios : Type) : ValueCategory → Type where
  | default : ErrorChain Ios .prvalue
  | format (text : Str) : ErrorChain Ios .prvalue
  | insert {c : ValueCategory} (chain : ErrorChain Ios c) (rvalue : c ≠ .lvalue) (msg : Inserter Ios) :
    ErrorChain Ios .xvalue
  | manipulate {c : ValueCategory} (chain : ErrorChain Ios c) (msg : Inserter Ios) : ErrorChain Ios .lvalue
  | withCode {c : ValueCategory} (chain : ErrorChain Ios c) (ec : Int) : ErrorChain Ios .xvalue
  | cmdlineError {c : ValueCategory} (chain : ErrorChain Ios c) (v : Bool) : ErrorChain Ios .xvalue

namespace ErrorChain

/-- The error that a chain builds. -/
def built {c : ValueCategory} : ErrorChain Ios c → Error Ios
  | .default => { message := [], oss := {} }
  | .format text => { message := text, oss := { str := text } }
  | .insert chain _ msg => chain.built.write msg
  | .manipulate chain msg => chain.built.write msg
  | .withCode chain ec => { chain.built with ec := ec }
  | .cmdlineError chain v => { chain.built with is_cmdline_error := v }

/-- The exception that `throw` makes of a chain: the object itself if it has no
name and no reference to it was made, and a copy otherwise. -/
def thrown : {c : ValueCategory} → ErrorChain Ios c → Error Ios
  | .prvalue, chain => chain.built
  | .xvalue, chain => chain.built.copy
  | .lvalue, chain => chain.built.copy

/-- The code of the last `withCode`. -/
def lastCode {c : ValueCategory} : ErrorChain Ios c → Option Int
  | .default => none
  | .format _ => none
  | .insert chain _ _ => chain.lastCode
  | .manipulate chain _ => chain.lastCode
  | .withCode _ ec => some ec
  | .cmdlineError chain _ => chain.lastCode

/-- The argument of the last `cmdlineError`. -/
def lastFlag {c : ValueCategory} : ErrorChain Ios c → Option Bool
  | .default => none
  | .format _ => none
  | .insert chain _ _ => chain.lastFlag
  | .manipulate chain _ => chain.lastFlag
  | .withCode chain _ => chain.lastFlag
  | .cmdlineError _ v => some v

end ErrorChain

def RED : Str := "\x1b[31m"
def BOLD : Str := "\x1b[1m"
def STYLE_RESET : Str := "\x1b[0m"

/-- `main`'s handler: what it writes to `stderr`, and what `main` returns. -/
def handleError (argv0 : Str) (error : HelperError) : Str × Int :=
  if error.is_cmdline_error then (argv0 ++ ": " ++ error.message ++ "\n", error.ec)
  else (RED ++ BOLD ++ "FAIL:" ++ STYLE_RESET ++ "\n" ++ error.message ++ "\n", error.ec)

namespace ErrorChain

variable {c : ValueCategory} (chain : ErrorChain Ios c)

theorem built_ec : chain.built.ec = chain.lastCode.getD 1 := by
  induction chain with
  | default => rfl
  | format text => rfl
  | insert chain rvalue msg ih => exact ih
  | manipulate chain msg ih => exact ih
  | withCode chain ec ih => rfl
  | cmdlineError chain v ih => exact ih

theorem built_flag : chain.built.is_cmdline_error = chain.lastFlag.getD false := by
  induction chain with
  | default => rfl
  | format text => rfl
  | insert chain rvalue msg ih => exact ih
  | manipulate chain msg ih => exact ih
  | withCode chain ec ih => exact ih
  | cmdlineError chain v ih => rfl

/-- A chain without a builder call has the defaults of the class. -/
theorem built_of_prvalue (chain : ErrorChain Ios .prvalue) :
    chain.built.toHelperError = chain.built.toHelperError.copy := by
  cases chain with
  | default => rfl
  | format text => rfl

/-- Whatever the category, the message is all that gets through a throw. -/
theorem thrown_eq_copy : chain.thrown.toHelperError = chain.built.toHelperError.copy := by
  cases c with
  | prvalue => exact built_of_prvalue chain
  | xvalue => rfl
  | lvalue => rfl

/-- The exception reports what the chain built, and `main` returns the built
code, exactly if no code but 1 was set last and no flag but `false`. -/
theorem caught_eq_built_iff (argv0 : Str) :
    (chain.thrown.message = chain.built.message ∧ chain.thrown.ec = chain.built.ec ∧
        chain.thrown.is_cmdline_error = chain.built.is_cmdline_error ∧
        (handleError argv0 chain.thrown.toHelperError).2 = chain.built.ec) ↔
      (∀ ec, chain.lastCode = some ec → ec = 1) ∧ ∀ v, chain.lastFlag = some v → v = false := by
  have hcode : (∀ ec, chain.lastCode = some ec → ec = 1) ↔ 1 = chain.built.ec := by
    rw [built_ec]
    cases chain.lastCode with
    | none => simp
    | some ec => simp [eq_comm]
  have hflag : (∀ v, chain.lastFlag = some v → v = false) ↔ false = chain.built.is_cmdline_error := by
    rw [built_flag]
    cases chain.lastFlag with
    | none => simp
    | some v => simp [eq_comm]
  have hexit : (handleError argv0 chain.thrown.toHelperError).2 = chain.thrown.ec := by
    unfold handleError
    split
    next => rfl
    next => rfl
  rw [hcode, hflag, hexit, thrown_eq_copy]
  constructor
  · intro h
    exact ⟨h.2.1, h.2.2.1⟩
  · intro h
    exact ⟨rfl, h.1, h.2, h.1⟩

/-- The usage error of a missing output name reaches `main` with code 1 and without its flag. -/
theorem usage_code_is_lost :
    let chain : ErrorChain Unit .xvalue :=
      .withCode (.cmdlineError (.format "You must provide an output name(s) as long as the table name(s)") true) EX_USAGE
    chain.built.ec = 64 ∧ chain.built.is_cmdline_error = true ∧
      chain.thrown.ec = 1 ∧ chain.thrown.is_cmdline_error = false ∧
      (handleError "pmt" chain.thrown.toHelperError).2 ≠ chain.built.ec := by
  decide

end ErrorChain

end PartitionManager
