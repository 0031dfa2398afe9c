import Mathlib.Logic.Function.Conjugate
import PartitionManager.MalformedArgs

namespace PartitionManager

/-- A positional value and the option it goes to. -/
def TokenUse.placed : TokenUse → Option (Str × OptRef)
  | positional token o => some (token, o)
  | _ => none

/-- The use is an occurrence of the option by its name. -/
def TokenUse.Occurs (use : TokenUse) (o : OptRef) : Prop := use.option = some o ∧ use.positionalOption = none

section

variable {D : Type}

namespace App

variable (app : App D)

/-- What a use writes to the destinations. -/
def assignment (use : TokenUse) : Outcome (D → D) :=
  use.given.elim (.ok id) fun given => app.accept given.1 given.2

/-- What the two uses write can be written in either order. -/
def Independent (use other : TokenUse) : Prop :=
  ∀ assign assign', app.assignment use = .ok assign → app.assignment other = .ok assign' →
    Function.Commute assign assign'

/-- No name of the option is declared by a subcommand of the chain. -/
def Unshadowed (o : OptRef) (active_chain : List Nat) : Prop :=
  ∀ option, app.option? o = some option → ∀ path, path <+: active_chain → path ≠ [] →
    ∀ other ∈ app.optionsAt path, ∀ name ∈ option.valid_names, name ∉ other.valid_names

/-- `parse` ends alike, and means the same by its positional values. -/
structure SameOutcome (argv argv' : List Str) (vars : CmdState D) : Prop where
  parse : app.parse argv' vars = app.parse argv vars
  active_chain : chainOf (app.parseUses argv' vars) = chainOf (app.parseUses argv vars)
  placed : (app.parseUses argv' vars).filterMap TokenUse.placed = (app.parseUses argv vars).filterMap TokenUse.placed

end App

def CmdState.mark (vars : CmdState D) (o : OptRef) (assign : D → D) : CmdState D :=
  { vars with isUsed := Function.update vars.isUsed o true, dest := assign vars.dest }

/-- A pass whose option wrote `assign`. -/
def ParseState.give (s : ParseState D) (use : TokenUse) (assign : D → D) : ParseState D :=
  match use.given with
  | none => s.advance s.vars use
  | some (o, _) => s.advance (s.vars.mark o assign) use

theorem CmdState.mark_comm (vars : CmdState D) (o o' : OptRef) {assign assign' : D → D}
    (hcommute : Function.Commute assign assign') :
    (vars.mark o assign).mark o' assign' = (vars.mark o' assign').mark o assign := by
  have hdest : assign' (assign vars.dest) = assign (assign' vars.dest) := (hcommute vars.dest).symm
  have hused : Function.update (Function.update vars.isUsed o true) o' true =
      Function.update (Function.update vars.isUsed o' true) o true := by
    by_cases ho : o = o'
    · rw [ho]
    · exact Function.update_comm ho true true vars.isUsed
  simp only [mark, hdest, hused]

end

section

variable {D : Type} {app : App D} {s t s' : ParseState D} {use other : TokenUse} {o : OptRef}

namespace ParseState

theorem give_active_chain (s : ParseState D) (use : TokenUse) (assign : D → D) :
    (s.give use assign).active_chain = s.active_chain ++ use.subcommandIndex.toList := by
  cases use <;> simp [give, TokenUse.given, advance, TokenUse.subcommandIndex]

theorem give_positional_index (s : ParseState D) (hplain : use.positionalOption = none) (assign : D → D) :
    (s.give use assign).positional_index = s.positional_index := by
  cases use with
  | positional token o => cases hplain
  | _ => rfl

theorem give_comm (s : ParseState D) (huse : use.Occurs o) {assign assign' : D → D}
    (hcommute : Function.Commute assign assign') :
    (s.give use assign).give other assign' = (s.give other assign').give use assign := by
  have hmark := fun o o' => s.vars.mark_comm o o' hcommute
  cases use with
  | subcommand token index => cases huse.1
  | positional token o => cases huse.2
  | valueless token next o => cases other <;> rfl
  | flag token o | equals token arg_value o | separate token value o =>
    cases other with
    | subcommand token' index => rfl
    | valueless token' next o' => rfl
    | flag token' o' | equals token' arg_value' o' | separate token' value' o' | positional token' o' =>
      simp only [give, TokenUse.given, advance, hmark o o']

end ParseState

namespace App

theorem perform_ok (missing : Str) (vars vars' : CmdState D) : app.perform missing vars use = .ok vars' ↔
    (∀ token next o, use ≠ .valueless token next o) ∧ ∃ assign, app.assignment use = .ok assign ∧
      vars' = use.given.elim vars fun given => vars.mark given.1 assign := by
  have hdo : ∀ o raw, app.doToDoList o raw vars = .ok vars' ↔
      ∃ assign, app.accept o raw = .ok assign ∧ vars' = vars.mark o assign := by
    intro o raw
    unfold doToDoList accept
    cases app.option? o with
    | none => simp
    | some option =>
      dsimp only
      rw [CmdOption.doToDoList, Checks.bind_ok_iff]
      refine exists_congr fun assign => and_congr_right fun _ => ?_
      rw [Except.ok.injEq, eq_comm]
      rfl
  cases use with
  | subcommand token index =>
    simp [perform, assignment, TokenUse.given, eq_comm]
  | valueless token next o => simp [perform]
  | flag token o | equals token arg_value o | separate token value o | positional token o =>
    refine (hdo o _).trans (and_iff_right ?_).symm
    intro _ _ _ heq
    cases heq

theorem parseLoop_act_ok : app.parseLoop.act s use = .ok t ↔
    (∀ token next o, use ≠ .valueless token next o) ∧
      ∃ assign, app.assignment use = .ok assign ∧ t = s.give use assign := by
  have hgive : ∀ assign, s.advance (use.given.elim s.vars fun given => s.vars.mark given.1 assign) use =
      s.give use assign := by
    intro assign
    unfold ParseState.give
    cases use.given <;> rfl
  constructor
  · intro h
    obtain ⟨vars, hperform, rfl⟩ := parseLoop_act h
    obtain ⟨hvalued, assign, hassign, rfl⟩ := (perform_ok _ _ _).mp hperform
    exact ⟨hvalued, assign, hassign, hgive assign⟩
  · intro h
    obtain ⟨hvalued, assign, hassign, rfl⟩ := h
    have hperform := (perform_ok "Missing option value for: " s.vars _).mpr ⟨hvalued, assign, hassign, rfl⟩
    exact Checks.bind_ok_iff.mpr ⟨_, hperform, congrArg Except.ok (hgive assign)⟩

/-- The next token only counts for an option. -/
theorem readToken_plain {token : Str} (hdash : token.head? ≠ some '-') (active_chain : List Nat)
    (positional_index : List Nat → Nat) (next next' : Option Str) :
    app.readToken active_chain positional_index token next' =
      app.readToken active_chain positional_index token next := by
  cases token with
  | nil => rfl
  | cons c rest =>
    have hc : c ≠ '-' := by simpa using hdash
    simp [readToken, charAt0, bind, Except.bind, hc]

/-- An option is read by what its name finds. -/
theorem readToken_named {token : Str} (hdash : token.head? = some '-') {active_chain active_chain' : List Nat}
    {positional_index positional_index' : List Nat → Nat} {next next' : Option Str}
    (hlookup : app.lookupOption (argName token) active_chain' = app.lookupOption (argName token) active_chain)
    (hsame : ∀ option o, app.lookupOption (argName token) active_chain = some (option, o) →
      optionUse option o token next' = optionUse option o token next) :
    app.readToken active_chain' positional_index' token next' =
      app.readToken active_chain positional_index token next := by
  cases token with
  | nil => cases hdash
  | cons c rest =>
    obtain rfl : c = '-' := by simpa using hdash
    simp only [readToken, charAt0, bind, Except.bind, if_true, hlookup]
    cases hfound : app.lookupOption (argName ('-' :: rest)) active_chain with
    | none => rfl
    | some found => simp only [hsame found.1 found.2 hfound]

theorem optionUse_steady {option : CmdOption D} {token : Str} {next : Option Str}
    (hvalued : ∀ token' next' o', optionUse option o token next ≠ .valueless token' next' o')
    (htakes : (optionUse option o token next).takesNext = false) (next' : Option Str) :
    optionUse option o token next' = optionUse option o token next := by
  unfold optionUse at hvalued htakes ⊢
  by_cases hflag : option.is_flag = true
  · rw [if_pos hflag, if_pos hflag]
  · rw [if_neg hflag] at hvalued htakes ⊢
    rw [if_neg hflag]
    by_cases hequals : '=' ∈ token
    · rw [if_pos hequals, if_pos hequals]
    · rw [if_neg hequals] at hvalued htakes
      split at hvalued
      next c value =>
        split at hvalued
        next => exact absurd rfl (hvalued _ _ _)
        next hc => simp [hc, TokenUse.takesNext] at htakes
      next => exact absurd rfl (hvalued _ _ _)

theorem parseLoop_reads_of {token : Str} {next : Option Str}
    (h : app.readToken s.active_chain s.positional_index token next = .ok use) :
    app.parseLoop.read s token next = .ok (some use) := by
  simp only [parseLoop, h]
  rfl

theorem parseLoop_steady (s : ParseState D) (token : Str) (next : Option Str) (use : TokenUse) (t : ParseState D)
    (hread : app.parseLoop.read s token next = .ok (some use)) (hact : app.parseLoop.act s use = .ok t)
    (htakes : use.takesNext = false) (next' : Option Str) : app.parseLoop.read s token next' = .ok (some use) := by
  have htoken := parseLoop_read hread
  have hvalued := (parseLoop_act_ok.mp hact).1
  refine parseLoop_reads_of ?_
  rcases readToken_cases htoken with ⟨hdash, option, o, hfound, rfl⟩ | ⟨hdash, _⟩
  · rw [← htoken]
    refine readToken_named hdash rfl fun option' o' hfound' => ?_
    cases hfound.symm.trans hfound'
    exact optionUse_steady hvalued htakes next'
  · rw [← htoken]
    exact readToken_plain hdash _ _ _ _

theorem reads_congr (hchain : t.active_chain = s.active_chain) (hindex : t.positional_index = s.positional_index)
    (h : app.parseLoop.Reads TokenUse.tokens s use) : app.parseLoop.Reads TokenUse.tokens t use := by
  obtain ⟨token, values, htokens, hlength, hread⟩ := h
  refine ⟨token, values, htokens, hlength, fun rest => ?_⟩
  rw [← hread rest]
  simp only [parseLoop, hchain, hindex]

/-- An option that no subcommand of the chain shadows is read alike all along the chain. -/
theorem reads_unshadowed {active_chain : List Nat} (hglobal : o.path = []) (huse : use.Occurs o)
    (hnames : app.Unshadowed o active_chain) (ht : t.active_chain <+: active_chain)
    (h : app.parseLoop.Reads TokenUse.tokens s use) : app.parseLoop.Reads TokenUse.tokens t use := by
  obtain ⟨token, values, htokens, hlength, hread⟩ := h
  refine ⟨token, values, htokens, hlength, fun rest => parseLoop_reads_of ?_⟩
  have htoken := parseLoop_read (hread rest)
  rcases readToken_cases htoken with ⟨hdash, option, o', hfound, hoption⟩ | ⟨_, ⟨index, _, rfl⟩ | ⟨option, o', _, rfl⟩⟩
  · have ho : o' = o := by
      have hsame := huse.1
      rw [hoption, optionUse_option] at hsame
      exact Option.some.inj hsame
    subst ho
    obtain ⟨_, hat, _⟩ := lookupOption_eq_some.mp hfound
    have hthere := findOption_some hat
    have hlookup : app.lookupOption (argName token) t.active_chain = some (option, o') := by
      refine lookupOption_eq_some.mpr ⟨hglobal ▸ List.nil_prefix, hat, fun inner hinner hlt => ?_⟩
      refine List.find?_eq_none.mpr fun arg harg => ?_
      have hother := List.fst_mem_of_mem_zipIdx harg
      have hne : inner ≠ [] := by
        intro hnil
        rw [hnil] at hlt
        exact absurd hlt (Nat.not_lt_zero _)
      have hmissing := hnames option hthere.1 inner (hinner.trans ht) hne arg.1 hother (argName token) hthere.2
      simpa using hmissing
    rw [← htoken]
    exact readToken_named hdash (hlookup.trans hfound.symm) fun _ _ _ => rfl
  · cases huse.1
  · cases huse.2

theorem act_chain (h : app.parseLoop.act s use = .ok t) :
    t.active_chain = s.active_chain ++ use.subcommandIndex.toList := by
  obtain ⟨_, assign, _, rfl⟩ := parseLoop_act_ok.mp h
  exact s.give_active_chain use assign

theorem plays_chain {uses : List TokenUse} (h : app.parseLoop.Plays TokenUse.tokens s uses s') :
    s'.active_chain = s.active_chain ++ chainOf uses := by
  induction h with
  | nil s => exact (List.append_nil _).symm
  | @cons s t s' use later _ hact _ ih =>
    have hchain : chainOf (use :: later) = use.subcommandIndex.toList ++ chainOf later := by
      cases use <;> rfl
    rw [ih, act_chain hact, hchain, List.append_assoc]

/-- An occurrence of a global option changes places with the use after it. -/
theorem plays_swap_iff {after : List TokenUse} (huse : use.Occurs o) (hindependent : app.Independent use other)
    (hread : ∀ t, t.active_chain <+: s'.active_chain → app.parseLoop.Reads TokenUse.tokens t use) :
    app.parseLoop.Plays TokenUse.tokens s (use :: other :: after) s' ↔
      app.parseLoop.Plays TokenUse.tokens s (other :: use :: after) s' := by
  have hkeeps : ∀ (s : ParseState D) assign, (s.give use assign).active_chain = s.active_chain := by
    intro s assign
    have hnone : use.subcommandIndex = none := by
      have hoption := huse.1
      cases use <;> first | rfl | cases hoption
    rw [s.give_active_chain, hnone]
    exact List.append_nil _
  have hindex := fun s : ParseState D => s.give_positional_index huse.2
  simp only [TokenLoop.plays_cons_iff, parseLoop_act_ok]
  constructor
  · intro h
    obtain ⟨_, _, ⟨hvalued, assign, hassign, rfl⟩, hother, _, ⟨hvalued', assign', hassign', rfl⟩, hafter⟩ := h
    have hcomm : (s.give use assign).give other assign' = (s.give other assign').give use assign :=
      s.give_comm huse (hindependent _ _ hassign hassign')
    rw [hcomm] at hafter
    refine ⟨reads_congr (hkeeps s assign).symm (hindex s assign).symm hother, _, ⟨hvalued', assign', hassign', rfl⟩, ?_,
      _, ⟨hvalued, assign, hassign, rfl⟩, hafter⟩
    apply hread
    rw [plays_chain hafter, hkeeps]
    exact List.prefix_append _ _
  · intro h
    obtain ⟨hother, _, ⟨hvalued', assign', hassign', rfl⟩, _, _, ⟨hvalued, assign, hassign, rfl⟩, hafter⟩ := h
    have hcomm : (s.give use assign).give other assign' = (s.give other assign').give use assign :=
      s.give_comm huse (hindependent _ _ hassign hassign')
    rw [← hcomm] at hafter
    refine ⟨?_, _, ⟨hvalued, assign, hassign, rfl⟩, reads_congr (hkeeps s assign) (hindex s assign) hother, _,
      ⟨hvalued', assign', hassign', rfl⟩, hafter⟩
    apply hread
    rw [plays_chain hafter, ParseState.give_active_chain, hkeeps, List.append_assoc]
    exact List.prefix_append _ _

/-- The same for a whole stretch of uses. -/
theorem plays_moved {uses₁ uses₂ moved₁ moved₂ : List TokenUse} (huse : use.Occurs o)
    (hmoved : moved₁ ++ moved₂ = uses₁ ++ uses₂)
    (hindependent : ∀ other ∈ uses₁.drop moved₁.length ++ moved₁.drop uses₁.length, app.Independent use other)
    (hread : ∀ t, t.active_chain <+: s'.active_chain → app.parseLoop.Reads TokenUse.tokens t use)
    (h : app.parseLoop.Plays TokenUse.tokens s (uses₁ ++ use :: uses₂) s') :
    app.parseLoop.Plays TokenUse.tokens s (moved₁ ++ use :: moved₂) s' := by
  have hstretch : ∀ {s after middle}, (∀ other ∈ middle, app.Independent use other) →
      (app.parseLoop.Plays TokenUse.tokens s (use :: (middle ++ after)) s' ↔
        app.parseLoop.Plays TokenUse.tokens s (middle ++ use :: after) s') := fun hmiddle =>
    TokenLoop.plays_move_iff fun other hmem _ _ => plays_swap_iff huse (hmiddle other hmem) hread
  rcases List.append_eq_append_iff.mp hmoved with ⟨middle, rfl, rfl⟩ | ⟨middle, rfl, rfl⟩
  · rw [List.append_assoc, TokenLoop.plays_append_iff] at h
    obtain ⟨t, hbefore, hafter⟩ := h
    have hmiddle : ∀ other ∈ middle, app.Independent use other := by
      intro other hmem
      exact hindependent other (by simp [hmem])
    exact TokenLoop.plays_append_iff.mpr ⟨t, hbefore, (hstretch hmiddle).mpr hafter⟩
  · obtain ⟨t, hbefore, hafter⟩ := TokenLoop.plays_append_iff.mp h
    have hmiddle : ∀ other ∈ middle, app.Independent use other := by
      intro other hmem
      exact hindependent other (by simp [hmem])
    rw [List.append_assoc, TokenLoop.plays_append_iff]
    exact ⟨t, hbefore, (hstretch hmiddle).mp hafter⟩

theorem parse_eq_of_run {name name' : Str} {args args' : List Str} {vars : CmdState D}
    (h : (app.parseLoop.run 1 args' false ⟨vars, [], fun _ => 0⟩).2 =
      (app.parseLoop.run 1 args false ⟨vars, [], fun _ => 0⟩).2) :
    app.parse (name' :: args') vars = app.parse (name :: args) vars := by
  simp only [parse, h]

end App

/-- An occurrence of a global option may stand anywhere, as long as no option that it is
moved past writes to the same place. -/
theorem global_option_moves {argv : List Str} {dest : D} {vars : CmdState D}
    {uses₁ uses₂ moved₁ moved₂ : List TokenUse} (hparse : app.parse argv (app.fresh dest) = .ok vars)
    (huses : app.parseUses argv (app.fresh dest) = uses₁ ++ use :: uses₂) (hglobal : o.path = [])
    (huse : use.Occurs o) (hnames : app.Unshadowed o (chainOf (uses₁ ++ use :: uses₂)))
    (hmoved : moved₁ ++ moved₂ = uses₁ ++ uses₂)
    (hindependent : ∀ other ∈ uses₁.drop moved₁.length ++ moved₁.drop uses₁.length, app.Independent use other) :
    argv = argv.take 1 ++ (uses₁ ++ use :: uses₂).flatMap TokenUse.tokens ∧
      app.SameOutcome argv (argv.take 1 ++ (moved₁ ++ use :: moved₂).flatMap TokenUse.tokens) (app.fresh dest) := by
  obtain ⟨s, _, hrun, _⟩ := App.parse_ok hparse
  have hplays := TokenLoop.plays_of_run App.parseLoop_all App.parseLoop_own App.parseLoop_steady hrun
  have hsplit := TokenLoop.run_tokens App.parseLoop_all App.parseLoop_own hrun
  change (app.parseUses argv (app.fresh dest)).flatMap TokenUse.tokens = argv.tail at hsplit
  change app.parseLoop.Plays TokenUse.tokens _ (app.parseUses argv (app.fresh dest)) s at hplays
  rw [huses] at hsplit hplays
  have hchain : s.active_chain = chainOf (uses₁ ++ use :: uses₂) := App.plays_chain hplays
  have hread : ∀ t, t.active_chain <+: s.active_chain → app.parseLoop.Reads TokenUse.tokens t use := by
    intro t ht
    obtain ⟨_, _, hrest⟩ := TokenLoop.plays_append_iff.mp hplays
    have hfirst := (TokenLoop.plays_cons_iff.mp hrest).1
    exact App.reads_unshadowed hglobal huse hnames (hchain ▸ ht) hfirst
  have hplays' := App.plays_moved huse hmoved hindependent hread hplays
  obtain ⟨huses', hrun'⟩ := hplays'.run 1
  cases argv with
  | nil => cases hparse
  | cons name args =>
    have hargs : args = (uses₁ ++ use :: uses₂).flatMap TokenUse.tokens := hsplit.symm
    have hmovedUses : app.parseUses ((name :: args).take 1 ++ (moved₁ ++ use :: moved₂).flatMap TokenUse.tokens)
        (app.fresh dest) = moved₁ ++ use :: moved₂ := huses'
    refine ⟨congrArg (List.cons name) hargs, App.parse_eq_of_run (hrun'.trans hrun.symm), ?_, ?_⟩
    · rw [hmovedUses, huses, ← hchain]
      exact (App.plays_chain hplays').symm
    · have hplaced : use.placed = none := by
        have hnone := huse.2
        cases use <;> first | rfl | cases hnone
      have hall := congrArg (List.filterMap TokenUse.placed) hmoved
      rw [List.filterMap_append, List.filterMap_append] at hall
      rw [hmovedUses, huses, List.filterMap_append, List.filterMap_cons_none hplaced, hall, List.filterMap_append,
        List.filterMap_cons_none hplaced]

end

/-- Writes the variable of that name. -/
def setVariable (name raw : Str) : Outcome ((Str → Str) → Str → Str) := .ok fun vars => Function.update vars name raw

/-- An App with two global options, the second of which writes the given variable. -/
def loggedApp (name : Str) : App (Str → Str) where
  options := [
    { valid_names := ["-L", "--log-file"], setter := some (setVariable "logFile") },
    { valid_names := ["-o", "--output"], setter := some (setVariable name) }]
  subcommands := [
    { name := "backup"
      options := [{ valid_names := ["partition(s)"], setter := some (setVariable "partitions"), is_positional := true }]
      subcommands := []
      requires_subcommand := false
      groups := [] }]
  groups := []
  auto_help_enabled := true

theorem setVariable_commute {name name' : Str} (hne : name ≠ name') (raw raw' : Str) :
    Function.Commute (fun vars : Str → Str => Function.update vars name raw)
      fun vars => Function.update vars name' raw' :=
  fun vars => Function.update_comm hne.symm raw' raw vars

theorem log_file_moves : (loggedApp "output").SameOutcome ["pmt", "backup", "boot", "-o", "out", "-L", "log.txt"]
    ["pmt", "-L", "log.txt", "backup", "boot", "-o", "out"] ((loggedApp "output").fresh fun _ => []) := by
  have hparse : ∃ vars, (loggedApp "output").parse ["pmt", "backup", "boot", "-o", "out", "-L", "log.txt"]
      ((loggedApp "output").fresh fun _ => []) = .ok vars := ⟨_, rfl⟩
  obtain ⟨vars, hparse⟩ := hparse
  refine (@global_option_moves _ _ _ ⟨[], 0⟩ _ _ _
    [.subcommand "backup" 0, .positional "boot" ⟨[0], 0⟩, .separate "-o" "out" ⟨[], 1⟩] [] []
    [.subcommand "backup" 0, .positional "boot" ⟨[0], 0⟩, .separate "-o" "out" ⟨[], 1⟩]
    hparse rfl rfl ⟨rfl, rfl⟩ ?_ rfl ?_).2
  · intro option hoption path hpath hne other hother
    cases hoption
    change path <+: [0] at hpath
    cases path with
    | nil => exact absurd rfl hne
    | cons i rest =>
      obtain ⟨rfl, hrest⟩ := List.cons_prefix_cons.mp hpath
      obtain rfl := List.prefix_nil.mp hrest
      obtain rfl := List.mem_singleton.mp hother
      decide
  · intro other hother assign assign' hassign hassign'
    cases hassign
    change other ∈ [TokenUse.subcommand "backup" 0, .positional "boot" ⟨[0], 0⟩, .separate "-o" "out" ⟨[], 1⟩] at hother
    simp only [List.mem_cons, List.not_mem_nil, or_false] at hother
    rcases hother with rfl | rfl | rfl
    · cases hassign'
      exact Function.Commute.id_right
    · cases hassign'
      exact setVariable_commute (by decide) _ _
    · cases hassign'
      exact setVariable_commute (by decide) _ _

/-- Two options that share a variable: the last one wins. -/
theorem shared_variable_moves : ∃ vars vars',
    (loggedApp "logFile").parse ["pmt", "-L", "a", "-o", "b"] ((loggedApp "logFile").fresh fun _ => []) = .ok vars ∧
    (loggedApp "logFile").parse ["pmt", "-o", "b", "-L", "a"] ((loggedApp "logFile").fresh fun _ => []) = .ok vars' ∧
    (loggedApp "logFile").parseUses ["pmt", "-L", "a", "-o", "b"] ((loggedApp "logFile").fresh fun _ => []) =
      [.separate "-L" "a" ⟨[], 0⟩, .separate "-o" "b" ⟨[], 1⟩] ∧
    (loggedApp "logFile").Unshadowed ⟨[], 0⟩ [] ∧
    vars.dest "logFile" = "b".toList ∧ vars'.dest "logFile" = "a".toList := by
  refine ⟨_, _, rfl, rfl, rfl, ?_, rfl, rfl⟩
  intro option _ path hpath hne
  exact absurd (List.prefix_nil.mp hpath) hne

end PartitionManager
