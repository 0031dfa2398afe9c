import PartitionManager.Basic
import PartitionManager.Library.TokenLoop

namespace PartitionManager

/-- An option by its place: the positions of the subcommands that lead to the
list that holds it, none for the App's own, and its position in that list. -/
structure OptRef where
  path : List Nat
  index : Nat
  deriving DecidableEq

/-- `Option`, without its state. `D` are the variables that options write to;
a callable is `none` where nothing was set, and so is `default_value` where
there is no `default_setter`. -/
structure CmdOption (D : Type) where
  valid_names : List Str
  setter : Option (Str → Outcome (D → D)) := none
  default_value : Option Str := none
  callback : Option (Outcome Unit) := none
  checker : Option (Str → Outcome Unit) := none
  transformer : Option (Str → Outcome Str) := none
  is_required : Bool := false
  is_positional : Bool := false
  is_flag : Bool := false
  early : Bool := false
  superior : Bool := false

structure OptionGroup where
  name : Str
  group_options : List OptRef
  min_required : Int := 0
  max_required : Int := -1

structure Subcommand (D : Type) where
  name : Str
  options : List (CmdOption D)
  subcommands : List (Subcommand D)
  requires_subcommand : Bool
  groups : List OptionGroup

structure App (D : Type) where
  options : List (CmdOption D)
  subcommands : List (Subcommand D)
  groups : List OptionGroup
  auto_help_enabled : Bool

/-- What parsing changes: the `is_found` marks of options and subcommands, the
stored default texts, and the destinations. -/
structure CmdState (D : Type) where
  isUsed : OptRef → Bool
  subcommandUsed : List Nat → Bool
  default_value : OptRef → Option Str
  dest : D

/-- What `parse` makes of a token, together with the next one where it is a value. -/
inductive TokenUse where
  | subcommand (token : Str) (index : Nat)
  | flag (token : Str) (o : OptRef)
  | equals (token arg_value : Str) (o : OptRef)
  | separate (token value : Str) (o : OptRef)
  | valueless (token : Str) (next : Option Str) (o : OptRef)
  | positional (token : Str) (o : OptRef)

namespace TokenUse

def tokens : TokenUse → List Str
  | subcommand token _ => [token]
  | flag token _ => [token]
  | equals token _ _ => [token]
  | separate token value _ => [token, value]
  | valueless token _ _ => [token]
  | positional token _ => [token]

def option : TokenUse → Option OptRef
  | subcommand _ _ => none
  | flag _ o => some o
  | equals _ _ o => some o
  | separate _ _ o => some o
  | valueless _ _ o => some o
  | positional _ o => some o

def subcommandIndex : TokenUse → Option Nat
  | subcommand _ index => some index
  | _ => none

def positionalOption : TokenUse → Option OptRef
  | positional _ o => some o
  | _ => none

def takesNext : TokenUse → Bool
  | separate _ _ _ => true
  | _ => false

end TokenUse

def usageError (message : Str) : Stop :=
  .thrown ((HelperError.mk message 1 false).cmdlineError.withCode EX_USAGE)

/-- `token.at(0)`. -/
def charAt0 : Str → Outcome Char
  | [] => raiseStd .out_of_range
  | c :: _ => .ok c

def argName (token : Str) : Str := token.takeWhile (· ≠ '=')

def argValue (token : Str) : Str := (token.dropWhile (· ≠ '=')).drop 1

section

variable {D : Type}

/-- The conversions and checks of `doToDoList`, up to its assignment. -/
def CmdOption.accept (option : CmdOption D) (raw : Str) : Outcome (D → D) := do
  let raw ← option.transformer.elim (.ok raw) (· raw)
  option.checker.elim (.ok ()) (· raw)
  let assign ← option.setter.elim (.ok id) (· raw)
  option.callback.elim (.ok ()) id
  .ok assign

def CmdOption.doToDoList (option : CmdOption D) (o : OptRef) (raw : Str) (vars : CmdState D) :
    Outcome (CmdState D) := do
  let assign ← option.accept raw
  .ok { vars with isUsed := Function.update vars.isUsed o true, dest := assign vars.dest }

/-- The assignment of the default, if there is one. -/
def CmdOption.acceptDefault (option : CmdOption D) (text : Str) : Outcome (Str × (D → D)) := do
  let text ← option.transformer.elim (.ok text) (· text)
  let assign ← option.setter.elim (raiseStd .bad_function_call) (· text)
  .ok (text, assign)

def setDefault (vars : CmdState D) (o : OptRef) (option : CmdOption D) : Outcome (CmdState D) :=
  match vars.default_value o with
  | none => .ok vars
  | some text =>
    if vars.isUsed o then .ok vars
    else do
      let (text, assign) ← option.acceptDefault text
      .ok { vars with default_value := Function.update vars.default_value o (some text), dest := assign vars.dest }

/-- The loop that sets the defaults of one list of options. -/
def setDefaults (path : List Nat) (options : List (CmdOption D)) (vars : CmdState D) : Outcome (CmdState D) :=
  options.zipIdx.foldlM (fun vars arg => setDefault vars ⟨path, arg.2⟩ arg.1) vars

/-- The loop that looks for a missing option among those that are due. -/
def requireOptions (message : Str) (due : CmdOption D → Bool) (path : List Nat) (options : List (CmdOption D))
    (isUsed : OptRef → Bool) : Outcome Unit :=
  match options.zipIdx.find? fun arg => due arg.1 && !isUsed ⟨path, arg.2⟩ with
  | none => .ok ()
  | some arg =>
    match arg.1.valid_names with
    | [] => .error (.undefined .emptyVector)
    | name :: _ => .error (usageError (message ++ name))

def OptionGroup.usedCount (group : OptionGroup) (isUsed : OptRef → Bool) : Nat :=
  group.group_options.countP isUsed

def OptionGroup.validate (group : OptionGroup) (isUsed : OptRef → Bool) : Outcome Unit :=
  if group.min_required ≤ 0 ∧ group.max_required < 0 then .ok ()
  else if 0 < group.min_required ∧ group.usedCount isUsed < group.min_required then
    .error (usageError ("Option group '" ++ group.name ++ "': at least " ++ to_string group.min_required.toNat ++
      " option(s) required, " ++ to_string (group.usedCount isUsed) ++ " given."))
  else if 0 ≤ group.max_required ∧ group.max_required < group.usedCount isUsed then
    .error (usageError ("Option group '" ++ group.name ++ "': at most " ++ to_string group.max_required.toNat ++
      " option(s) allowed, " ++ to_string (group.usedCount isUsed) ++ " given."))
  else .ok ()

def validateGroups (groups : List OptionGroup) (isUsed : OptRef → Bool) : Outcome Unit :=
  groups.forM (·.validate isUsed)

/-- The subcommand that a path of positions leads to. -/
def Subcommand.nested : Subcommand D → List Nat → Option (Subcommand D)
  | cmd, [] => some cmd
  | cmd, i :: path =>
    match cmd.subcommands[i]? with
    | none => none
    | some sub => sub.nested path

mutual

/-- `anySuperiorIsUsed` of the subcommand at `path`. -/
def Subcommand.anySuperiorIsUsed (isUsed : OptRef → Bool) (path : List Nat) : Subcommand D → Bool
  | ⟨_, options, subcommands, _, _⟩ =>
    options.zipIdx.any (fun arg => arg.1.superior && isUsed ⟨path, arg.2⟩) ||
      Subcommand.anyNestedSuperior isUsed path 0 subcommands

def Subcommand.anyNestedSuperior (isUsed : OptRef → Bool) (path : List Nat) (index : Nat) :
    List (Subcommand D) → Bool
  | [] => false
  | cmd :: rest =>
    cmd.anySuperiorIsUsed isUsed (path ++ [index]) || Subcommand.anyNestedSuperior isUsed path (index + 1) rest

end

namespace App

variable (app : App D)

/-- The App itself, read as the outermost level of its tree. -/
def root : Subcommand D := ⟨[], app.options, app.subcommands, false, app.groups⟩

def level (path : List Nat) : Option (Subcommand D) := app.root.nested path

def optionsAt (path : List Nat) : List (CmdOption D) := ((app.level path).map (·.options)).getD []

def subcommandsAt (path : List Nat) : List (Subcommand D) := ((app.level path).map (·.subcommands)).getD []

def groupsAt (path : List Nat) : List OptionGroup := ((app.level path).map (·.groups)).getD []

def option? (o : OptRef) : Option (CmdOption D) := (app.optionsAt o.path)[o.index]?

def getFullPath (path : List Nat) : Str :=
  List.intercalate " " (path.inits.tail.map fun path => ((app.level path).map (·.name)).getD [])

/-- A freshly built App. -/
def fresh (dest : D) : CmdState D where
  isUsed _ := false
  subcommandUsed _ := false
  default_value o := (app.option? o).bind (·.default_value)
  dest

end App

/-- The first option of a list that has the name, and its position. -/
def findOption (name : Str) (arg_list : List (CmdOption D)) : Option (CmdOption D × Nat) :=
  arg_list.zipIdx.find? fun arg => arg.1.valid_names.contains name

def positionals (arg_list : List (CmdOption D)) : List (CmdOption D × Nat) :=
  arg_list.zipIdx.filter fun arg => arg.1.is_positional

def getPositionalOption (index : Nat) (arg_list : List (CmdOption D)) : Option (CmdOption D × Nat) :=
  (positionals arg_list)[index]?

def getSubcommand (name : Str) (subcommands : List (Subcommand D)) : Option Nat :=
  subcommands.findIdx? fun cmd => cmd.name = name

/-- The lists that are searched while `active_chain` is active: from the
innermost subcommand to the outermost, then the App. -/
def levels (active_chain : List Nat) : List (List Nat) := active_chain.inits.reverse

/-- What becomes of a token that names this option. -/
def optionUse (option : CmdOption D) (o : OptRef) (token : Str) (next : Option Str) : TokenUse :=
  if option.is_flag then .flag token o
  else if '=' ∈ token then .equals token (argValue token) o
  else
    match next with
    | some (c :: value) => if c = '-' then .valueless token next o else .separate token (c :: value) o
    | _ => .valueless token next o

/-- How a pass ends when an option has no value: an empty next token has no first character. -/
def missingValue (message token : Str) (next : Option Str) : Stop :=
  if next = some [] then .raised (.std .out_of_range) else usageError (message ++ argName token)

/-- The local variables of `parse`. The positional indices are kept by level,
the App's own under the empty path. -/
structure ParseState (D : Type) where
  vars : CmdState D
  active_chain : List Nat
  positional_index : List Nat → Nat

namespace App

variable (app : App D)

def doToDoList (o : OptRef) (raw : Str) (vars : CmdState D) : Outcome (CmdState D) :=
  match app.option? o with
  | none => .error (.undefined .nullDereference)
  | some option => option.doToDoList o raw vars

def lookupOption (name : Str) (active_chain : List Nat) : Option (CmdOption D × OptRef) :=
  (levels active_chain).findSome? fun path =>
    (findOption name (app.optionsAt path)).map fun arg => (arg.1, ⟨path, arg.2⟩)

def lookupPositional (active_chain : List Nat) (positional_index : List Nat → Nat) :
    Option (CmdOption D × OptRef) :=
  (levels active_chain).findSome? fun path =>
    (getPositionalOption (positional_index path) (app.optionsAt path)).map fun arg => (arg.1, ⟨path, arg.2⟩)

/-- The part of the loop body of `parse` that finds out what a token is. -/
def readToken (active_chain : List Nat) (positional_index : List Nat → Nat) (token : Str) (next : Option Str) :
    Outcome TokenUse :=
  if app.auto_help_enabled && (token = "-h" || token = "--help") then .error (.exited 0)
  else do
    let first ← charAt0 token
    if first = '-' then
      match app.lookupOption (argName token) active_chain with
      | none => .error (usageError ("Unknown option: " ++ argName token))
      | some (option, o) => .ok (optionUse option o token next)
    else
      match getSubcommand token (app.subcommandsAt active_chain) with
      | some index => .ok (.subcommand token index)
      | none =>
        match app.lookupPositional active_chain positional_index with
        | none => .error (usageError ("Unexpected option/subcommand: " ++ token))
        | some (_, o) => .ok (.positional token o)

/-- What a pass does with the options of a token. -/
def perform (missing : Str) (vars : CmdState D) : TokenUse → Outcome (CmdState D)
  | .subcommand _ _ => .ok vars
  | .flag _ o => app.doToDoList o "true" vars
  | .equals _ arg_value o => app.doToDoList o arg_value vars
  | .separate _ value o => app.doToDoList o value vars
  | .valueless token next _ => .error (missingValue missing token next)
  | .positional token o => app.doToDoList o token vars

end App

def ParseState.advance (s : ParseState D) (vars : CmdState D) : TokenUse → ParseState D
  | .subcommand _ index =>
    { s with
      vars := { vars with subcommandUsed := Function.update vars.subcommandUsed (s.active_chain ++ [index]) true }
      active_chain := s.active_chain ++ [index] }
  | .positional _ o =>
    { s with
      vars
      positional_index := Function.update s.positional_index o.path (s.positional_index o.path + 1) }
  | _ => { s with vars }

namespace App

variable (app : App D)

/-- The token loop of `parse`. -/
def parseLoop : TokenLoop Str TokenUse (ParseState D) Stop where
  read s token next := (app.readToken s.active_chain s.positional_index token next).map some
  act s use := do
    let vars ← app.perform "Missing option value for: " s.vars use
    .ok (s.advance vars use)
  takesNext := TokenUse.takesNext

/-- The checks of one active subcommand, then its defaults. -/
def finishActive (active_chain : List Nat) (vars : CmdState D) (path : List Nat) : Outcome (CmdState D) :=
  match app.level path with
  | none => .error (.undefined .nullDereference)
  | some cmd =>
    let waived := cmd.anySuperiorIsUsed vars.isUsed path
    if cmd.requires_subcommand && !waived && path = active_chain then
      .error (usageError ("Subcommand '" ++ app.getFullPath path ++ "' requires a nested subcommand."))
    else do
      requireOptions "Missing required subcommand option: " (fun option => option.is_required && !waived) path
        cmd.options vars.isUsed
      validateGroups cmd.groups vars.isUsed
      setDefaults path cmd.options vars

def parse (argv : List Str) (vars : CmdState D) : Outcome (CmdState D) :=
  match argv with
  | [] => .error (.undefined .nullDereference)
  | _ :: args => do
    let s ← (app.parseLoop.run 1 args false ⟨vars, [], fun _ => 0⟩).2
    requireOptions "Missing required option: " (·.is_required) [] app.options s.vars.isUsed
    let vars ← setDefaults [] app.options s.vars
    validateGroups app.groups vars.isUsed
    s.active_chain.inits.tail.foldlM (app.finishActive s.active_chain) vars

end App

end

/-- Stores a value under the name of its variable. -/
def store (name raw : Str) : Outcome (List (Str × Str) → List (Str × Str)) := .ok ((name, raw) :: ·)

/-- A part of the command line of `main`, with the `flash` plugin loaded. -/
def mainApp (directoryIsExists : Str → Bool) : App (List (Str × Str)) where
  options := [
    { valid_names := ["-d", "--plugin-directory"], setter := some (store "pluginPath"), early := true,
      checker := some fun s => if directoryIsExists s then .ok () else
        raise ((HelperError.mk (s ++ ": Directory is not exists.") 1 false).withCode EX_USAGE) },
    { valid_names := ["-q", "--quiet"], setter := some (store "quietProcess"), early := true, is_flag := true }]
  subcommands := [
    { name := "flash"
      options := [
        { valid_names := ["partition(s)"], setter := some (store "partitions"), is_positional := true,
          is_required := true },
        { valid_names := ["imageFile(s)"], setter := some (store "imageNames"), is_positional := true,
          is_required := true },
        { valid_names := ["-d", "--delete"], setter := some (store "deleteAfterProgress"), is_flag := true,
          default_value := some "0" },
        { valid_names := ["-v", "--version"], setter := some fun _ => .ok id, is_flag := true, superior := true,
          callback := some (.error (.exited 0)) }]
      subcommands := []
      requires_subcommand := false
      groups := [] }]
  groups := []
  auto_help_enabled := true

end PartitionManager
