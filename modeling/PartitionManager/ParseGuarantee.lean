import PartitionManager.CommandTokens

namespace PartitionManager

/-- The subcommands that have become active. -/
def chainOf (uses : List TokenUse) : List Nat := uses.filterMap TokenUse.subcommandIndex

/-- How many positional values a level has taken. -/
def taken (uses : List TokenUse) (path : List Nat) : Nat :=
  (uses.filterMap TokenUse.positionalOption).countP fun o => o.path = path

def used (uses : List TokenUse) (o : OptRef) : Bool := uses.any fun use => use.option = some o

/-- The value that a use gives to its option. -/
def TokenUse.given : TokenUse → Option (OptRef × Str)
  | subcommand _ _ => none
  | flag _ o => some (o, "true")
  | equals _ arg_value o => some (o, arg_value)
  | separate _ value o => some (o, value)
  | valueless _ _ _ => none
  | positional token o => some (o, token)

def OptionGroup.InBounds (group : OptionGroup) (isUsed : OptRef → Bool) : Prop :=
  group.min_required ≤ group.usedCount isUsed ∧
    (0 ≤ group.max_required → group.usedCount isUsed ≤ group.max_required)

def OptionGroup.Within (group : OptionGroup) (uses : List TokenUse) : Prop :=
  group.min_required ≤ group.usedCount (used uses) ∧
    (0 ≤ group.max_required → group.usedCount (used uses) ≤ group.max_required)

section

variable {D : Type} (app : App D)

/-- The default that an unused option has. -/
def CmdOption.leftOut (option : CmdOption D) (isUsed : OptRef → Bool) (o : OptRef) : Option (OptRef × Str) :=
  if isUsed o then none else option.default_value.map (Prod.mk o)

namespace App

/-- What `parse` acts on. -/
def parseVisits (argv : List Str) (vars : CmdState D) : List (TokenLoop.Visit (ParseState D) TokenUse) :=
  (app.parseLoop.run 1 argv.tail false ⟨vars, [], fun _ => 0⟩).1

def parseUses (argv : List Str) (vars : CmdState D) : List TokenUse :=
  (app.parseVisits argv vars).map TokenLoop.Visit.use

def accept (o : OptRef) (raw : Str) : Outcome (D → D) :=
  match app.option? o with
  | none => .error (.undefined .nullDereference)
  | some option => option.accept raw

/-- The destinations after an option has been given a value. -/
def writeGiven (dest : D) (value : OptRef × Str) : Outcome D := do
  let assign ← app.accept value.1 value.2
  .ok (assign dest)

/-- The destinations after an option has been set to its default. -/
def writeDefault (dest : D) (value : OptRef × Str) : Outcome D :=
  match app.option? value.1 with
  | none => .error (.undefined .nullDereference)
  | some option => do
    let (_, assign) ← option.acceptDefault value.2
    .ok (assign dest)

/-- The options of a level that are not used and have a default. -/
def leftOutAt (isUsed : OptRef → Bool) (path : List Nat) : List (OptRef × Str) :=
  (app.optionsAt path).zipIdx.filterMap fun arg => arg.1.leftOut isUsed ⟨path, arg.2⟩

/-- Those of the App, then those of each active subcommand. -/
def leftOut (uses : List TokenUse) : List (OptRef × Str) :=
  (chainOf uses).inits.flatMap (app.leftOutAt (used uses))

/-- Every value has gone to its option, in the order of the uses, and then every
option that was left out has been set to its default. -/
def Writes (uses : List TokenUse) (dest after : D) : Prop :=
  ∃ read, (uses.filterMap TokenUse.given).foldlM app.writeGiven dest = .ok read ∧
    (app.leftOut uses).foldlM app.writeDefault read = .ok after

/-- The token names an option of the App or of an active subcommand. -/
def Names (active_chain : List Nat) (token : Str) (o : OptRef) (option : CmdOption D) : Prop :=
  token.head? = some '-' ∧ o.path <+: active_chain ∧ app.option? o = some option ∧
    argName token ∈ option.valid_names

/-- A positional value goes to the next positional option of its level, and the
levels inside that one have none left. -/
def Fills (before : List TokenUse) (token : Str) (o : OptRef) : Prop :=
  token.head? ≠ some '-' ∧ o.path <+: chainOf before ∧
    (∃ option, getPositionalOption (taken before o.path) (app.optionsAt o.path) = some (option, o.index)) ∧
    ∀ inner, inner <+: chainOf before → o.path.length < inner.length →
      (positionals (app.optionsAt inner)).length ≤ taken before inner

/-- What a use has to be, given those before it. -/
def Proper (before : List TokenUse) : TokenUse → Prop
  | .subcommand token index => token.head? ≠ some '-' ∧
      ∃ cmd, (app.subcommandsAt (chainOf before))[index]? = some cmd ∧ cmd.name = token
  | .flag token o => ∃ option, app.Names (chainOf before) token o option ∧ option.is_flag = true
  | .equals token arg_value o => ∃ option, app.Names (chainOf before) token o option ∧ option.is_flag = false ∧
      token = argName token ++ '=' :: arg_value
  | .separate token value o => ∃ option, app.Names (chainOf before) token o option ∧ option.is_flag = false ∧
      '=' ∉ token ∧ value.head? ≠ some '-'
  | .valueless _ _ _ => False
  | .positional token o => app.Fills before token o

/-- A superior option of the subcommand at `path`, or of one below it, was used. -/
def SuperiorUsed (uses : List TokenUse) (path : List Nat) : Prop :=
  ∃ o option, path <+: o.path ∧ app.option? o = some option ∧ option.superior = true ∧ used uses o = true

end App

/-- What a successful `parse` promises of the arguments. -/
structure Guarantee (args : List Str) (uses : List TokenUse) : Prop where
  split : uses.flatMap TokenUse.tokens = args
  proper : ∀ before use after, uses = before ++ use :: after → app.Proper before use
  once : (uses.filterMap TokenUse.positionalOption).Nodup
  appRequired : ∀ (k : Nat) option, app.options[k]? = some option → option.is_required = true →
    used uses ⟨[], k⟩ = true
  required : ∀ path, path <+: chainOf uses → path ≠ [] → ∀ (k : Nat) option,
    (app.optionsAt path)[k]? = some option → option.is_required = true →
    used uses ⟨path, k⟩ = true ∨ app.SuperiorUsed uses path
  groups : ∀ path, path <+: chainOf uses → ∀ group ∈ app.groupsAt path, group.Within uses
  nested : ∀ cmd, app.level (chainOf uses) = some cmd → cmd.requires_subcommand = true →
    app.SuperiorUsed uses (chainOf uses)

end

theorem chainOf_append (before : List TokenUse) (use : TokenUse) :
    chainOf (before ++ [use]) = chainOf before ++ use.subcommandIndex.toList := by
  rw [chainOf, List.filterMap_append]
  cases h : use.subcommandIndex <;> simp [chainOf, h]

theorem taken_append (before : List TokenUse) (use : TokenUse) (path : List Nat) :
    taken (before ++ [use]) path =
      taken before path + (use.positionalOption.toList.countP fun o => o.path = path) := by
  rw [taken, List.filterMap_append, List.countP_append]
  cases h : use.positionalOption <;> simp [taken, h]

theorem taken_lt {before after : List TokenUse} {use : TokenUse} {o : OptRef}
    (h : use.positionalOption = some o) : taken before o.path < taken (before ++ use :: after) o.path := by
  simp only [taken, List.filterMap_append, List.filterMap_cons, h, List.countP_append, List.countP_cons,
    decide_true, if_true]
  omega

theorem used_append (before : List TokenUse) (use : TokenUse) (o : OptRef) :
    used (before ++ [use]) o = (decide (use.option = some o) || used before o) := by
  rw [used, List.any_append, List.any_cons, List.any_nil, Bool.or_false, Bool.or_comm]
  rfl

section

variable {D : Type} {app : App D}

theorem App.lookupOption_names {active_chain : List Nat} {token : Str} {option : CmdOption D} {o : OptRef}
    (hdash : token.head? = some '-')
    (h : app.lookupOption (argName token) active_chain = some (option, o)) :
    app.Names active_chain token o option := by
  obtain ⟨hwithin, hfound, _⟩ := lookupOption_eq_some.mp h
  obtain ⟨hat, hname⟩ := findOption_some hfound
  exact ⟨hdash, hwithin, hat, hname⟩

theorem argName_argValue {token : Str} (h : '=' ∈ token) : token = argName token ++ '=' :: argValue token := by
  induction token with
  | nil => exact absurd h List.not_mem_nil
  | cons c rest ih =>
    by_cases hc : c = '='
    · subst hc
      simp [argName, argValue]
    · have hrest : '=' ∈ rest := (List.mem_cons.mp h).resolve_left (fun heq => hc heq.symm)
      have htail := ih hrest
      simp only [argName, argValue] at htail ⊢
      rw [List.takeWhile_cons_of_pos (by simpa using hc), List.dropWhile_cons_of_pos (by simpa using hc),
        List.cons_append, ← htail]

/-- One token that could be read is used properly, unless its value is missing. -/
theorem App.readToken_proper {before : List TokenUse} {token : Str} {next : Option Str} {use : TokenUse}
    (h : app.readToken (chainOf before) (taken before) token next = .ok use)
    (hvalue : ∀ token next o, use ≠ .valueless token next o) : app.Proper before use := by
  rcases readToken_cases h with ⟨hdash, option, o, hfound, rfl⟩ | ⟨hdash, hplain⟩
  · have hnames := lookupOption_names hdash hfound
    unfold optionUse at hvalue ⊢
    split at hvalue
    next hflag =>
      rw [if_pos hflag]
      exact ⟨option, hnames, hflag⟩
    next hflag =>
      rw [if_neg hflag]
      split at hvalue
      next hequals =>
        rw [if_pos hequals]
        exact ⟨option, hnames, by simpa using hflag, argName_argValue hequals⟩
      next hequals =>
        rw [if_neg hequals]
        split at hvalue
        next c value =>
          split at hvalue
          next => exact absurd rfl (hvalue _ _ _)
          next hc =>
            rw [if_neg hc]
            exact ⟨option, hnames, by simpa using hflag, hequals, by simpa using hc⟩
        next => exact absurd rfl (hvalue _ _ _)
  · rcases hplain with ⟨index, hsub, rfl⟩ | ⟨option, o, hfound, rfl⟩
    · obtain ⟨cmd, hcmd, hname⟩ := getSubcommand_some hsub
      exact ⟨hdash, cmd, hcmd, hname⟩
    · obtain ⟨hwithin, hat, hinner⟩ := lookupPositional_some hfound
      exact ⟨hdash, hwithin, ⟨option, hat⟩, hinner⟩

theorem App.perform_valued {missing : Str} {vars vars' : CmdState D} {use : TokenUse}
    (h : app.perform missing vars use = .ok vars') (token : Str) (next : Option Str) (o : OptRef) :
    use ≠ .valueless token next o := by
  rintro rfl
  cases h

/-- What running a use leaves behind: the mark of its option, and in the destinations what
the option makes of the value. -/
theorem App.perform_cases {missing : Str} {vars vars' : CmdState D} {use : TokenUse}
    (h : app.perform missing vars use = .ok vars') : (use.option = none ∧ use.given = none ∧ vars' = vars) ∨
      ∃ (o : OptRef) (raw : Str) (assign : D → D), use.option = some o ∧ use.given = some (o, raw) ∧
        app.accept o raw = .ok assign ∧
        vars' = { vars with isUsed := Function.update vars.isUsed o true, dest := assign vars.dest } := by
  have hdo : ∀ o raw, app.doToDoList o raw vars = .ok vars' → ∃ assign : D → D, app.accept o raw = .ok assign ∧
      vars' = { vars with isUsed := Function.update vars.isUsed o true, dest := assign vars.dest } := by
    intro o raw hdo
    unfold doToDoList at hdo
    split at hdo
    next => cases hdo
    next option hat =>
      obtain ⟨assign, haccept, hdo⟩ := Checks.bind_ok_iff.mp hdo
      cases hdo
      refine ⟨assign, ?_, rfl⟩
      rw [accept, hat]
      exact haccept
  cases use with
  | subcommand token index =>
    cases h
    exact Or.inl ⟨rfl, rfl, rfl⟩
  | valueless token next o => cases h
  | flag token o | equals token arg_value o | separate token value o | positional token o =>
    obtain ⟨assign, haccept, hvars⟩ := hdo o _ h
    exact Or.inr ⟨o, _, assign, rfl, rfl, haccept, hvars⟩

theorem App.perform_isUsed {missing : Str} {vars vars' : CmdState D} {use : TokenUse}
    (h : app.perform missing vars use = .ok vars') (o : OptRef) :
    vars'.isUsed o = (decide (use.option = some o) || vars.isUsed o) := by
  rcases perform_cases h with ⟨hnone, _, rfl⟩ | ⟨o', raw, assign, hoption, _, _, rfl⟩
  · simp [hnone]
  · have hsame : use.option = some o ↔ o = o' := by
      rw [hoption, Option.some.injEq]
      exact eq_comm
    simp only [hsame, Function.update_apply]
    by_cases ho : o = o'
    · simp [ho]
    · simp [ho]

theorem ParseState.advance_isUsed (s : ParseState D) (vars : CmdState D) (use : TokenUse) :
    (s.advance vars use).vars.isUsed = vars.isUsed := by
  cases use <;> rfl

theorem ParseState.advance_values (s : ParseState D) (vars : CmdState D) (use : TokenUse) :
    (s.advance vars use).vars.dest = vars.dest ∧ (s.advance vars use).vars.default_value = vars.default_value := by
  cases use <;> exact ⟨rfl, rfl⟩

/-- The loop variables of `parse` are what the uses say. -/
structure ParseState.Tracks (uses : List TokenUse) (s : ParseState D) : Prop where
  chain : s.active_chain = chainOf uses
  positionals : s.positional_index = taken uses
  isUsed : s.vars.isUsed = used uses

theorem ParseState.Tracks.advance {s : ParseState D} {before : List TokenUse} (hs : s.Tracks before)
    {vars : CmdState D} {use : TokenUse}
    (hused : ∀ o, vars.isUsed o = (decide (use.option = some o) || s.vars.isUsed o)) :
    (s.advance vars use).Tracks (before ++ [use]) := by
  have htaken : ∀ path, taken (before ++ [use]) path = _ := taken_append before use
  have hmarked : (s.advance vars use).vars.isUsed = used (before ++ [use]) := by
    funext o
    rw [advance_isUsed, hused, used_append, hs.isUsed]
  cases use with
  | subcommand token index =>
    refine ⟨?_, funext fun path => ?_, hmarked⟩
    · rw [chainOf_append, ← hs.chain]
      rfl
    · rw [htaken, ← hs.positionals]
      rfl
  | positional token o =>
    refine ⟨?_, funext fun path => ?_, hmarked⟩
    · rw [chainOf_append, ← hs.chain]
      exact (List.append_nil _).symm
    · rw [htaken, ← hs.positionals]
      simp only [ParseState.advance, Function.update_apply, TokenUse.positionalOption, Option.toList_some,
        List.countP_singleton, decide_eq_true_eq]
      by_cases hpath : path = o.path
      · simp [hpath]
      · simp [hpath, Ne.symm hpath]
  | _ =>
    refine ⟨?_, funext fun path => ?_, hmarked⟩
    · rw [chainOf_append, ← hs.chain]
      exact (List.append_nil _).symm
    · rw [htaken, ← hs.positionals]
      rfl

/-- One turn of the token loop. -/
theorem App.parseLoop_step {before : List TokenUse} {s s' : ParseState D} {token : Str} {next : Option Str}
    {use : TokenUse} (hs : s.Tracks before) (hread : app.parseLoop.read s token next = .ok (some use))
    (hact : app.parseLoop.act s use = .ok s') : app.Proper before use ∧ s'.Tracks (before ++ [use]) := by
  obtain ⟨vars, hperform, rfl⟩ := parseLoop_act hact
  have htoken := parseLoop_read hread
  rw [hs.chain, hs.positionals] at htoken
  exact ⟨readToken_proper htoken (perform_valued hperform), hs.advance (perform_isUsed hperform)⟩

/-- The whole token loop of a freshly built App. -/
theorem App.parseLoop_ok {dest : D} {args : List Str} {s : ParseState D}
    (h : (app.parseLoop.run 1 args false ⟨app.fresh dest, [], fun _ => 0⟩).2 = .ok s) :
    s.Tracks ((app.parseLoop.run 1 args false ⟨app.fresh dest, [], fun _ => 0⟩).1.map TokenLoop.Visit.use) ∧
      ∀ before use after,
        (app.parseLoop.run 1 args false ⟨app.fresh dest, [], fun _ => 0⟩).1.map TokenLoop.Visit.use =
          before ++ use :: after → app.Proper before use := by
  refine TokenLoop.run_ok ParseState.Tracks app.Proper ?_ ⟨rfl, rfl, rfl⟩ h
  exact fun before s token next use s' hs hread hact => parseLoop_step hs hread hact

/-- The uses so far have given their values, and no default has been set. -/
structure ParseState.Wrote (app : App D) (dest : D) (uses : List TokenUse) (s : ParseState D) : Prop where
  given : (uses.filterMap TokenUse.given).foldlM app.writeGiven dest = .ok s.vars.dest
  stored : s.vars.default_value = (app.fresh dest).default_value

theorem ParseState.Wrote.step {dest : D} {before : List TokenUse} {s s' : ParseState D} {use : TokenUse}
    (hs : s.Wrote app dest before) (hact : app.parseLoop.act s use = .ok s') : s'.Wrote app dest (before ++ [use]) := by
  obtain ⟨vars, hperform, rfl⟩ := App.parseLoop_act hact
  obtain ⟨hdest, hstored⟩ := s.advance_values vars use
  rcases App.perform_cases hperform with ⟨_, hgiven, rfl⟩ | ⟨o, raw, assign, _, hgiven, haccept, rfl⟩
  · refine ⟨?_, hstored.trans hs.stored⟩
    rw [List.filterMap_append, List.filterMap_cons, hgiven, hdest]
    simpa using hs.given
  · refine ⟨?_, hstored.trans hs.stored⟩
    rw [List.filterMap_append, List.filterMap_cons, hgiven, hdest, List.foldlM_append, hs.given]
    refine Checks.bind_ok_iff.mpr ⟨_, rfl, ?_⟩
    simp only [List.filterMap_nil, List.foldlM_cons, List.foldlM_nil, App.writeGiven, haccept]
    rfl

theorem App.parseLoop_wrote {dest : D} {args : List Str} {s : ParseState D}
    (h : (app.parseLoop.run 1 args false ⟨app.fresh dest, [], fun _ => 0⟩).2 = .ok s) :
    s.Wrote app dest ((app.parseLoop.run 1 args false ⟨app.fresh dest, [], fun _ => 0⟩).1.map
      TokenLoop.Visit.use) :=
  (TokenLoop.run_ok (ParseState.Wrote app dest) (fun _ _ => True)
    (fun _ _ _ _ _ _ hs _ hact => ⟨trivial, hs.step hact⟩) ⟨rfl, rfl⟩ h).1

theorem positional_unique {arg_list : List (CmdOption D)} {i j k : Nat} {option option' : CmdOption D}
    (hi : getPositionalOption i arg_list = some (option, k)) (hj : getPositionalOption j arg_list = some (option', k)) :
    i = j := by
  have hat : ∀ n x, getPositionalOption n arg_list = some (x, k) →
      ((positionals arg_list).map Prod.snd)[n]? = some k := by
    intro n x hn
    rw [List.getElem?_map, ← getPositionalOption, hn]
    rfl
  have hlt := (List.getElem?_eq_some_iff.mp (hat i option hi)).1
  apply (List.getElem?_inj hlt (positionals_nodup arg_list)).mp
  rw [hat i option hi, hat j option' hj]

/-- Positional values that are used properly go to different options. -/
theorem positionals_once {uses : List TokenUse}
    (h : ∀ before use after, uses = before ++ use :: after → app.Proper before use) :
    (uses.filterMap TokenUse.positionalOption).Nodup := by
  induction uses using List.reverseRecOn with
  | nil => simp
  | append_singleton before use ih =>
    have hbefore := ih fun pre use' post heq => h pre use' (post ++ [use]) (by rw [heq]; simp)
    rw [List.filterMap_append]
    cases hpositional : use.positionalOption with
    | none => simpa [hpositional] using hbefore
    | some o =>
      have hnew : o ∉ before.filterMap TokenUse.positionalOption := by
        intro hmem
        obtain ⟨use', hmem', hsame⟩ := List.mem_filterMap.mp hmem
        obtain ⟨pre, post, rfl⟩ := List.append_of_mem hmem'
        have hfirst := h pre use' (post ++ [use]) (by simp)
        have hlast := h (pre ++ use' :: post) use [] rfl
        have hlt : taken pre o.path < taken (pre ++ use' :: post) o.path := taken_lt hsame
        cases use' <;> simp only [TokenUse.positionalOption, reduceCtorEq, Option.some.injEq] at hsame
        cases use <;> simp only [TokenUse.positionalOption, reduceCtorEq, Option.some.injEq] at hpositional
        subst hsame hpositional
        obtain ⟨_, _, ⟨_, hat⟩, _⟩ := hfirst
        obtain ⟨_, _, ⟨_, hat'⟩, _⟩ := hlast
        have := positional_unique hat hat'
        omega
      simp only [List.filterMap_cons, hpositional, List.filterMap_nil]
      rw [← List.concat_eq_append]
      exact List.Nodup.concat hnew hbefore

/-- A way through the tree goes on from where its first part ends. -/
theorem Subcommand.nested_bind (cmd : Subcommand D) (path below : List Nat) :
    cmd.nested (path ++ below) = (cmd.nested path).bind fun sub => sub.nested below := by
  induction path generalizing cmd with
  | nil => rfl
  | cons i path ih =>
    simp only [List.cons_append, nested]
    cases cmd.subcommands[i]? with
    | none => rfl
    | some child => exact ih child

theorem Subcommand.nested_append {cmd sub : Subcommand D} {path : List Nat} (h : cmd.nested path = some sub)
    (below : List Nat) : cmd.nested (path ++ below) = sub.nested below := by
  rw [nested_bind, h, Option.bind_some]

mutual

/-- If `anySuperiorIsUsed`, there is such an option in the subcommand or below it. -/
theorem Subcommand.superior_of_any {isUsed : OptRef → Bool} {path : List Nat} :
    ∀ cmd : Subcommand D, cmd.anySuperiorIsUsed isUsed path = true →
      ∃ (below : List Nat) (sub : Subcommand D) (k : Nat) (option : CmdOption D), cmd.nested below = some sub ∧
        sub.options[k]? = some option ∧ option.superior = true ∧ isUsed ⟨path ++ below, k⟩ = true
  | ⟨name, options, subcommands, requires_subcommand, groups⟩ => by
    intro h
    rw [anySuperiorIsUsed, Bool.or_eq_true] at h
    rcases h with hown | hnested
    · obtain ⟨arg, hmem, harg⟩ := List.any_eq_true.mp hown
      rw [Bool.and_eq_true] at harg
      refine ⟨[], _, arg.2, arg.1, rfl, List.mem_zipIdx_iff_getElem?.mp hmem, harg.1, ?_⟩
      rw [List.append_nil]
      exact harg.2
    · obtain ⟨i, child, hchild, below, sub, k, option, hsub, hoption, hsuperior, hfound⟩ :=
        superior_of_anyNested subcommands 0 hnested
      refine ⟨i :: below, sub, k, option, ?_, hoption, hsuperior, ?_⟩
      · simp only [nested, hchild]
        exact hsub
      · rwa [Nat.zero_add] at hfound

theorem Subcommand.superior_of_anyNested {isUsed : OptRef → Bool} {path : List Nat} :
    ∀ (subcommands : List (Subcommand D)) (index : Nat), anyNestedSuperior isUsed path index subcommands = true →
      ∃ (i : Nat) (child : Subcommand D), subcommands[i]? = some child ∧
        ∃ (below : List Nat) (sub : Subcommand D) (k : Nat) (option : CmdOption D), child.nested below = some sub ∧
          sub.options[k]? = some option ∧ option.superior = true ∧
            isUsed ⟨path ++ (index + i) :: below, k⟩ = true
  | [], _ => by
    intro h
    cases h
  | cmd :: rest, index => by
    intro h
    rw [anyNestedSuperior, Bool.or_eq_true] at h
    rcases h with hfirst | hrest
    · obtain ⟨below, sub, k, option, hsub, hoption, hsuperior, hfound⟩ := superior_of_any cmd hfirst
      refine ⟨0, cmd, rfl, below, sub, k, option, hsub, hoption, hsuperior, ?_⟩
      rwa [List.append_assoc] at hfound
    · obtain ⟨i, child, hchild, below, sub, k, option, hsub, hoption, hsuperior, hfound⟩ :=
        superior_of_anyNested rest (index + 1) hrest
      refine ⟨i + 1, child, hchild, below, sub, k, option, hsub, hoption, hsuperior, ?_⟩
      rwa [Nat.add_right_comm, Nat.add_assoc index i 1] at hfound

end

theorem App.superior_of_any {isUsed : OptRef → Bool} {path : List Nat} {cmd : Subcommand D}
    (hcmd : app.level path = some cmd) (h : cmd.anySuperiorIsUsed isUsed path = true) :
    ∃ o option, path <+: o.path ∧ app.option? o = some option ∧ option.superior = true ∧ isUsed o = true := by
  obtain ⟨below, sub, k, option, hsub, hoption, hsuperior, hfound⟩ := cmd.superior_of_any h
  refine ⟨⟨path ++ below, k⟩, option, List.prefix_append path below, ?_, hsuperior, hfound⟩
  have hlevel : app.level (path ++ below) = some sub := (Subcommand.nested_append hcmd below).trans hsub
  simp only [option?, optionsAt, hlevel]
  exact hoption

theorem requireOptions_ok_iff {message : Str} {due : CmdOption D → Bool} {path : List Nat}
    {options : List (CmdOption D)} {isUsed : OptRef → Bool} :
    requireOptions message due path options isUsed = .ok () ↔ ∀ (k : Nat) option, options[k]? = some option →
      due option = true → isUsed ⟨path, k⟩ = true := by
  unfold requireOptions
  constructor
  · intro h k option hoption hdue
    split at h
    next hnone =>
      have hnot := List.find?_eq_none.mp hnone (option, k) (List.mem_zipIdx_iff_getElem?.mpr hoption)
      simpa [hdue] using hnot
    next => split at h <;> cases h
  · intro h
    have hnone : (options.zipIdx.find? fun arg => due arg.1 && !isUsed ⟨path, arg.2⟩) = none := by
      rw [List.find?_eq_none]
      intro arg hmem hmissing
      rw [Bool.and_eq_true, Bool.not_eq_true'] at hmissing
      have hfound := h arg.2 arg.1 (List.mem_zipIdx_iff_getElem?.mp hmem) hmissing.1
      rw [hmissing.2] at hfound
      cases hfound
    rw [hnone]

theorem OptionGroup.validate_ok_iff {group : OptionGroup} {isUsed : OptRef → Bool} :
    group.validate isUsed = .ok () ↔ group.InBounds isUsed := by
  unfold validate InBounds
  split
  next => exact iff_of_true rfl ⟨by omega, by omega⟩
  next =>
    split
    next => exact iff_of_false (fun h => nomatch h) (by omega)
    next =>
      split
      next => exact iff_of_false (fun h => nomatch h) (by omega)
      next => exact iff_of_true rfl ⟨by omega, by omega⟩

theorem validateGroups_ok_iff {groups : List OptionGroup} {isUsed : OptRef → Bool} :
    validateGroups groups isUsed = .ok () ↔ ∀ group ∈ groups, group.InBounds isUsed := by
  induction groups with
  | nil => exact iff_of_true rfl fun group hmem => absurd hmem List.not_mem_nil
  | cons group groups ih =>
    rw [List.forall_mem_cons, ← ih, ← OptionGroup.validate_ok_iff]
    constructor
    · intro h
      obtain ⟨_, hgroup, hrest⟩ := Checks.bind_ok_iff.mp h
      exact ⟨hgroup, hrest⟩
    · intro h
      exact Checks.bind_ok_iff.mpr ⟨(), h.1, h.2⟩

theorem setDefault_kept {vars : CmdState D} {o : OptRef} {option : CmdOption D}
    (h : vars.isUsed o = true ∨ vars.default_value o = none) : setDefault vars o option = .ok vars := by
  unfold setDefault
  rcases h with hused | hnone
  · cases vars.default_value o with
    | none => rfl
    | some text => exact if_pos hused
  · rw [hnone]

theorem setDefault_due {vars : CmdState D} {o : OptRef} {option : CmdOption D} {raw : Str}
    (hunused : vars.isUsed o = false) (hraw : vars.default_value o = some raw) : setDefault vars o option = (do
      let (text, assign) ← option.acceptDefault raw
      .ok { vars with
        default_value := Function.update vars.default_value o (some text), dest := assign vars.dest }) := by
  unfold setDefault
  rw [hraw, hunused]
  rfl

/-- Setting a default changes at most the stored text of its option and the destination. -/
theorem setDefault_cases {vars vars' : CmdState D} {o : OptRef} {option : CmdOption D}
    (h : setDefault vars o option = .ok vars') :
    ((vars.isUsed o = true ∨ vars.default_value o = none) ∧ vars' = vars) ∨
    ∃ (raw text : Str) (assign : D → D), vars.isUsed o = false ∧ vars.default_value o = some raw ∧
      option.acceptDefault raw = .ok (text, assign) ∧ vars' = { vars with
        default_value := Function.update vars.default_value o (some text), dest := assign vars.dest } := by
  by_cases hkept : vars.isUsed o = true ∨ vars.default_value o = none
  · rw [setDefault_kept hkept] at h
    cases h
    exact Or.inl ⟨hkept, rfl⟩
  · rw [not_or, Bool.not_eq_true] at hkept
    obtain ⟨raw, hraw⟩ := Option.ne_none_iff_exists'.mp hkept.2
    rw [setDefault_due hkept.1 hraw] at h
    obtain ⟨⟨text, assign⟩, haccept, h⟩ := Checks.bind_ok_iff.mp h
    cases h
    exact Or.inr ⟨raw, text, assign, hkept.1, hraw, haccept, rfl⟩

theorem setDefault_isUsed {vars vars' : CmdState D} {o : OptRef} {option : CmdOption D}
    (h : setDefault vars o option = .ok vars') : vars'.isUsed = vars.isUsed := by
  rcases setDefault_cases h with ⟨_, rfl⟩ | ⟨raw, text, assign, _, _, _, rfl⟩
  · rfl
  · rfl

theorem setDefault_others {vars vars' : CmdState D} {o : OptRef} {option : CmdOption D}
    (h : setDefault vars o option = .ok vars') {o' : OptRef} (hne : o' ≠ o) :
    vars'.default_value o' = vars.default_value o' := by
  rcases setDefault_cases h with ⟨_, rfl⟩ | ⟨raw, text, assign, _, _, _, rfl⟩
  · rfl
  · exact Function.update_of_ne hne _ _

theorem setDefaults_isUsed {path : List Nat} {options : List (CmdOption D)} {vars vars' : CmdState D}
    (h : setDefaults path options vars = .ok vars') : vars'.isUsed = vars.isUsed :=
  (Checks.foldlM_ok (fun _ _ _ hc hstep => (setDefault_isUsed hstep).trans hc) rfl h).1

theorem setDefaults_default_value {path : List Nat} {options : List (CmdOption D)} {vars vars' : CmdState D}
    {o : OptRef} (h : setDefaults path options vars = .ok vars') (hne : o.path ≠ path) :
    vars'.default_value o = vars.default_value o := by
  have hkeep : ∀ c (arg : CmdOption D × Nat) c', c.default_value o = vars.default_value o →
      setDefault c ⟨path, arg.2⟩ arg.1 = .ok c' → c'.default_value o = vars.default_value o := by
    intro c arg c' hc hstep
    refine (setDefault_others hstep ?_).trans hc
    intro heq
    exact hne (congrArg OptRef.path heq)
  exact (Checks.foldlM_ok hkeep rfl h).1

/-- The defaults of a level are written in their order. -/
theorem setDefaults_write {path : List Nat} {args : List (CmdOption D × Nat)} {vars vars' : CmdState D}
    (hnodup : (args.map Prod.snd).Nodup) (hat : ∀ arg ∈ args, app.option? ⟨path, arg.2⟩ = some arg.1)
    (hstored : ∀ arg ∈ args, vars.default_value ⟨path, arg.2⟩ = arg.1.default_value)
    (h : args.foldlM (fun vars arg => setDefault vars ⟨path, arg.2⟩ arg.1) vars = .ok vars') :
    (args.filterMap fun arg => arg.1.leftOut vars.isUsed ⟨path, arg.2⟩).foldlM app.writeDefault vars.dest =
      .ok vars'.dest := by
  induction args generalizing vars with
  | nil =>
    cases h
    rfl
  | cons arg args ih =>
    rw [List.foldlM_cons] at h
    obtain ⟨next, hset, hrest⟩ := Checks.bind_ok_iff.mp h
    rw [List.map_cons, List.nodup_cons] at hnodup
    obtain ⟨hfirst, hlater⟩ := List.forall_mem_cons.mp hat
    obtain ⟨htext, htexts⟩ := List.forall_mem_cons.mp hstored
    have hothers : ∀ other ∈ args, next.default_value ⟨path, other.2⟩ = other.1.default_value := by
      intro other hmem
      refine (setDefault_others hset ?_).trans (htexts other hmem)
      intro heq
      exact hnodup.1 (List.mem_map.mpr ⟨other, hmem, congrArg OptRef.index heq⟩)
    have hwritten := ih hnodup.2 hlater hothers hrest
    rw [setDefault_isUsed hset] at hwritten
    rcases setDefault_cases hset with ⟨hkept, rfl⟩ | ⟨raw, text, assign, hunused, hraw, haccept, rfl⟩
    · -- nothing is due for this option
      have hnone : arg.1.leftOut next.isUsed ⟨path, arg.2⟩ = none := by
        rw [htext] at hkept
        unfold CmdOption.leftOut
        rcases hkept with hused | hnone
        · rw [if_pos hused]
        · rw [hnone]
          split <;> rfl
      rw [List.filterMap_cons, hnone]
      exact hwritten
    · rw [htext] at hraw
      have hdue : arg.1.leftOut vars.isUsed ⟨path, arg.2⟩ = some (⟨path, arg.2⟩, raw) := by
        rw [CmdOption.leftOut, hunused, hraw]
        rfl
      rw [List.filterMap_cons, hdue, List.foldlM_cons]
      refine Checks.bind_ok_iff.mpr ⟨assign vars.dest, ?_, hwritten⟩
      rw [App.writeDefault, hfirst]
      exact Checks.bind_ok_iff.mpr ⟨_, haccept, rfl⟩

theorem App.leftOutAt_write {path : List Nat} {dest : D} {vars vars' : CmdState D}
    (hstored : ∀ k, vars.default_value ⟨path, k⟩ = (app.fresh dest).default_value ⟨path, k⟩)
    (h : setDefaults path (app.optionsAt path) vars = .ok vars') :
    (app.leftOutAt vars.isUsed path).foldlM app.writeDefault vars.dest = .ok vars'.dest := by
  have hat : ∀ arg ∈ (app.optionsAt path).zipIdx, app.option? ⟨path, arg.2⟩ = some arg.1 :=
    fun arg hmem => List.mem_zipIdx_iff_getElem?.mp hmem
  refine setDefaults_write ?_ hat (fun arg hmem => ?_) h
  · rw [List.zipIdx_map_snd]
    exact List.nodup_range'
  · rw [hstored, fresh]
    dsimp only
    rw [hat arg hmem]
    rfl

/-- So are those of all levels: none of them has been set at another. -/
theorem App.levels_write {paths : List (List Nat)} {dest : D} {vars vars' : CmdState D} (hnodup : paths.Nodup)
    (hstored : ∀ path ∈ paths, ∀ k, vars.default_value ⟨path, k⟩ = (app.fresh dest).default_value ⟨path, k⟩)
    (h : paths.foldlM (fun vars path => setDefaults path (app.optionsAt path) vars) vars = .ok vars') :
    (paths.flatMap (app.leftOutAt vars.isUsed)).foldlM app.writeDefault vars.dest = .ok vars'.dest := by
  induction paths generalizing vars with
  | nil =>
    cases h
    rfl
  | cons path paths ih =>
    rw [List.foldlM_cons] at h
    obtain ⟨next, hset, hrest⟩ := Checks.bind_ok_iff.mp h
    rw [List.nodup_cons] at hnodup
    obtain ⟨hfirst, hlater⟩ := List.forall_mem_cons.mp hstored
    have hothers : ∀ other ∈ paths, ∀ k,
        next.default_value ⟨other, k⟩ = (app.fresh dest).default_value ⟨other, k⟩ := by
      intro other hmem k
      refine (setDefaults_default_value hset ?_).trans (hlater other hmem k)
      rintro rfl
      exact hnodup.1 hmem
    have hwritten := ih hnodup.2 hothers hrest
    rw [setDefaults_isUsed hset] at hwritten
    rw [List.flatMap_cons, List.foldlM_append]
    exact Checks.bind_ok_iff.mpr ⟨_, leftOutAt_write hfirst hset, hwritten⟩

theorem App.finishActive_defaults {active_chain path : List Nat} {vars vars' : CmdState D}
    (h : app.finishActive active_chain vars path = .ok vars') :
    setDefaults path (app.optionsAt path) vars = .ok vars' := by
  unfold finishActive at h
  split at h
  next => cases h
  next cmd hcmd =>
    dsimp only at h
    split at h
    next => cases h
    next =>
      obtain ⟨_, _, h⟩ := Checks.bind_ok_iff.mp h
      obtain ⟨_, _, h⟩ := Checks.bind_ok_iff.mp h
      simpa only [optionsAt, hcmd, Option.map_some, Option.getD_some] using h

theorem App.parseLoop_own (s : ParseState D) (token : Str) (next : Option Str) (use : TokenUse)
    (h : app.parseLoop.read s token next = .ok (some use)) :
    (use.takesNext = false ∧ use.tokens = [token]) ∨
      (use.takesNext = true ∧ ∃ value, next = some value ∧ use.tokens = [token, value]) := by
  rcases readToken_tokens (parseLoop_read h) with hone | ⟨htakes, c, value, _, hnext, htokens⟩
  · exact Or.inl hone
  · exact Or.inr ⟨htakes, c :: value, hnext, htokens⟩

/-- What the checks of an active subcommand leave behind when they pass. -/
structure FinishedActive (app : App D) (uses : List TokenUse) (active_chain path : List Nat) : Prop where
  required : ∀ (k : Nat) option, (app.optionsAt path)[k]? = some option → option.is_required = true →
    used uses ⟨path, k⟩ = true ∨ app.SuperiorUsed uses path
  groups : ∀ group ∈ app.groupsAt path, group.Within uses
  nested : path = active_chain → ∀ cmd, app.level path = some cmd → cmd.requires_subcommand = true →
    app.SuperiorUsed uses path

theorem App.finishActive_ok {uses : List TokenUse} {active_chain path : List Nat} {vars vars' : CmdState D}
    (hused : vars.isUsed = used uses) (h : app.finishActive active_chain vars path = .ok vars') :
    vars'.isUsed = used uses ∧ FinishedActive app uses active_chain path := by
  unfold finishActive at h
  split at h
  next => cases h
  next cmd hcmd =>
    rw [hused] at h
    dsimp only at h
    split at h
    next => cases h
    next hnested =>
      obtain ⟨_, hrequire, h⟩ := Checks.bind_ok_iff.mp h
      obtain ⟨_, hgroups, h⟩ := Checks.bind_ok_iff.mp h
      refine ⟨(setDefaults_isUsed h).trans hused, ?_, ?_, ?_⟩
      · intro k option hoption hrequired
        by_cases hwaived : cmd.anySuperiorIsUsed (used uses) path = true
        · exact Or.inr (superior_of_any hcmd hwaived)
        · simp only [optionsAt, hcmd, Option.map_some, Option.getD_some] at hoption
          exact Or.inl (requireOptions_ok_iff.mp hrequire k option hoption (by simp [hrequired, hwaived]))
      · intro group hmem
        simp only [groupsAt, hcmd, Option.map_some, Option.getD_some] at hmem
        exact validateGroups_ok_iff.mp hgroups group hmem
      · intro hlast other hother hrequires
        cases hcmd.symm.trans hother
        refine superior_of_any hcmd ?_
        simpa [hrequires, hlast] using hnested

theorem mem_inits_tail {active_chain path : List Nat} :
    path ∈ active_chain.inits.tail ↔ path <+: active_chain ∧ path ≠ [] := by
  cases active_chain with
  | nil => simp
  | cons i chain =>
    rw [List.inits_cons, List.tail_cons, ← List.mem_inits, List.inits_cons]
    simp only [List.mem_map, List.mem_cons]
    constructor
    · intro h
      obtain ⟨rest, hrest, rfl⟩ := h
      exact ⟨Or.inr ⟨rest, hrest, rfl⟩, List.cons_ne_nil i rest⟩
    · rintro ⟨rfl | hrest, hne⟩
      · exact absurd rfl hne
      · exact hrest

/-- Whatever is asked of a command line, a successful `parse` has found it. -/
theorem App.parse_guaranteed {argv : List Str} {dest : D} {vars : CmdState D}
    (h : app.parse argv (app.fresh dest) = .ok vars) :
    Guarantee app argv.tail (app.parseUses argv (app.fresh dest)) ∧
      vars.isUsed = used (app.parseUses argv (app.fresh dest)) := by
  obtain ⟨s, defaulted, htokens, hrequire, hdefaults, hgroups, hactive⟩ := parse_ok h
  have hsplit := TokenLoop.run_tokens parseLoop_all parseLoop_own htokens
  obtain ⟨htracks, hproper⟩ := parseLoop_ok htokens
  change (app.parseUses argv (app.fresh dest)).flatMap TokenUse.tokens = argv.tail at hsplit
  change s.Tracks (app.parseUses argv (app.fresh dest)) at htracks
  change ∀ before use after, app.parseUses argv (app.fresh dest) = _ → _ at hproper
  generalize app.parseUses argv (app.fresh dest) = uses at hsplit htracks hproper
  have hused : defaulted.isUsed = used uses := (setDefaults_isUsed hdefaults).trans htracks.isUsed
  have hchain : s.active_chain = chainOf uses := htracks.chain
  obtain ⟨hend, hturns⟩ :=
    Checks.foldlM_ok (fun _ _ _ hc hstep => (finishActive_ok hc hstep).1) hused hactive
  have hfinished : ∀ path, path <+: chainOf uses → path ≠ [] →
      FinishedActive app uses (chainOf uses) path := by
    intro path hpath hne
    rw [← hchain] at hpath
    obtain ⟨c, c', hc, hstep⟩ := hturns path (mem_inits_tail.mpr ⟨hpath, hne⟩)
    rw [← hchain]
    exact (finishActive_ok hc hstep).2
  rw [htracks.isUsed] at hrequire
  rw [hused] at hgroups
  refine ⟨⟨hsplit, hproper, positionals_once hproper, ?_, ?_, ?_, ?_⟩, hend⟩
  · exact requireOptions_ok_iff.mp hrequire
  · exact fun path hpath hne => (hfinished path hpath hne).required
  · intro path hpath
    by_cases hne : path = []
    · subst hne
      exact validateGroups_ok_iff.mp hgroups
    · exact (hfinished path hpath hne).groups
  · intro cmd hcmd hrequires
    have hne : chainOf uses ≠ [] := by
      intro hnil
      rw [hnil] at hcmd
      cases hcmd
      cases hrequires
    exact (hfinished _ (List.prefix_refl _) hne).nested rfl cmd hcmd hrequires

/-- What a successful `parse` leaves in the destinations is what its uses and the defaults write. -/
theorem App.parse_writes {argv : List Str} {dest : D} {vars : CmdState D}
    (h : app.parse argv (app.fresh dest) = .ok vars) :
    app.Writes (app.parseUses argv (app.fresh dest)) dest vars.dest := by
  obtain ⟨s, defaulted, htokens, _, hdefaults, _, hactive⟩ := parse_ok h
  have hwrote : s.Wrote app dest (app.parseUses argv (app.fresh dest)) := parseLoop_wrote htokens
  have htracks : s.Tracks (app.parseUses argv (app.fresh dest)) := (parseLoop_ok htokens).1
  refine ⟨s.vars.dest, hwrote.given, ?_⟩
  have hlevels : s.active_chain.inits.foldlM
      (fun vars path => setDefaults path (app.optionsAt path) vars) s.vars = .ok vars := by
    have hinits : s.active_chain.inits = [] :: s.active_chain.inits.tail := by
      cases s.active_chain <;> rfl
    rw [hinits, List.foldlM_cons]
    exact Checks.bind_ok_iff.mpr ⟨defaulted, hdefaults, Checks.foldlM_mono (fun _ _ _ => finishActive_defaults) hactive⟩
  have hnodup : s.active_chain.inits.Nodup :=
    (inits_pairwise s.active_chain).imp fun hlt heq => absurd (congrArg List.length heq) (Nat.ne_of_lt hlt)
  have hwritten := levels_write hnodup (fun path _ k => congrFun hwrote.stored ⟨path, k⟩) hlevels
  rwa [htracks.chain, htracks.isUsed] at hwritten

/-- A successful `parse` has put every token to its proper use, found all that is asked of a
command line, and given each value to its option. -/
theorem parse_guarantee {argv : List Str} {dest : D} {vars : CmdState D}
    (h : app.parse argv (app.fresh dest) = .ok vars) :
    Guarantee app argv.tail (app.parseUses argv (app.fresh dest)) ∧
      vars.isUsed = used (app.parseUses argv (app.fresh dest)) ∧
      app.Writes (app.parseUses argv (app.fresh dest)) dest vars.dest := by
  obtain ⟨hguarantee, hused⟩ := App.parse_guaranteed h
  exact ⟨hguarantee, hused, App.parse_writes h⟩

end

def flashArgv : List Str := ["pmt", "flash", "boot", "-q", "boot.img", "--delete"]

theorem parse_guarantee_flash : ∃ vars,
    (mainApp fun _ => true).parse flashArgv ((mainApp fun _ => true).fresh []) = .ok vars ∧
      Guarantee (mainApp fun _ => true) flashArgv.tail
        ((mainApp fun _ => true).parseUses flashArgv ((mainApp fun _ => true).fresh [])) ∧
      vars.isUsed = used ((mainApp fun _ => true).parseUses flashArgv ((mainApp fun _ => true).fresh [])) ∧
      (mainApp fun _ => true).Writes
        ((mainApp fun _ => true).parseUses flashArgv ((mainApp fun _ => true).fresh [])) [] vars.dest := by
  obtain ⟨vars, h⟩ : ∃ vars, (mainApp fun _ => true).parse flashArgv ((mainApp fun _ => true).fresh []) = .ok vars :=
    ⟨_, rfl⟩
  exact ⟨vars, h, parse_guarantee h⟩

end PartitionManager
