import PartitionManager.ParseGuarantee

namespace PartitionManager

section

variable {D : Type}

/-- The part of the loop body of `parse_earlies` that finds out what a token is.
It only looks at the options of the App. -/
def readEarly (options : List (CmdOption D)) (no_unknown_arg_error : Bool) (token : Str) (next : Option Str) :
    Outcome (Option TokenUse) := do
  let first ← charAt0 token
  if first = '-' then
    match findOption (argName token) options with
    | none =>
      if no_unknown_arg_error then .ok none else .error (usageError ("Unknown option: " ++ argName token))
    | some (option, index) =>
      if option.early then .ok (some (optionUse option ⟨[], index⟩ token next)) else .ok none
  else .ok none

namespace App

variable (app : App D)

/-- The token loop of `parse_earlies`. -/
def earlyLoop (no_unknown_arg_error : Bool) : TokenLoop Str TokenUse (CmdState D) Stop where
  read _ token next := readEarly app.options no_unknown_arg_error token next
  act vars use := app.perform "Missing early option value for: " vars use
  takesNext := TokenUse.takesNext

def parse_earlies (no_unknown_arg_error : Bool) (argv : List Str) (vars : CmdState D) : Outcome (CmdState D) := do
  let vars ← ((app.earlyLoop no_unknown_arg_error).run 0 argv false vars).2
  requireOptions "Missing required early option: " (fun option => option.is_required && option.early) []
    app.options vars.isUsed
  setDefaults [] app.options vars

/-- The App during the early pass: the subcommands are added after it. -/
def beforePlugins : App D := { app with subcommands := [] }

/-- What the early pass acts on, as `main` calls it. -/
def earlyVisits (argv : List Str) (vars : CmdState D) : List (TokenLoop.Visit (CmdState D) TokenUse) :=
  ((app.beforePlugins.earlyLoop true).run 0 argv false vars).1

/-- The use is one of an early global option. -/
def IsEarly (use : TokenUse) : Prop :=
  ∃ (k : Nat) (option : CmdOption D), use.option = some ⟨[], k⟩ ∧ app.options[k]? = some option ∧ option.early = true

/-- The two passes use the tokens of the early options alike, and the first
accepts what the second would accept alone. -/
structure PassesAgree (argv : List Str) (dest : D) : Prop where
  same : ∀ vars vars' i use, (i, use) ∈ TokenLoop.uses (app.earlyVisits argv vars) ↔
    (i, use) ∈ TokenLoop.uses (app.parseVisits argv vars') ∧ app.IsEarly use
  accepts : ∀ vars, app.parse argv (app.fresh dest) = .ok vars →
    ∃ vars', app.beforePlugins.parse_earlies true argv (app.beforePlugins.fresh dest) = .ok vars'

/-- `parse` gets to every token that makes the early pass act, at a point where
no active subcommand has an option of that name; and no early option is one that
only `parse` can see. -/
structure Clear (argv : List Str) (dest : D) : Prop where
  reached : ∀ v ∈ app.earlyVisits argv (app.fresh dest), ∃ r ∈ app.parseVisits argv (app.fresh dest),
    r.index = v.index ∧ ∀ path, path <+: r.state.active_chain → path ≠ [] → ∀ token,
      argv[v.index]? = some token → findOption (argName token) (app.optionsAt path) = none
  positional : ∀ r ∈ app.parseVisits argv (app.fresh dest), app.IsEarly r.use → r.use.positionalOption = none
  program : argv.head? = some [] → (∀ r ∈ app.parseVisits argv (app.fresh dest), ¬ app.IsEarly r.use) ∧
    ∀ vars, app.parse argv (app.fresh dest) ≠ .ok vars
  defaults : ∀ vars, app.parse argv (app.fresh dest) = .ok vars → ∀ r ∈ app.parseVisits argv (app.fresh dest),
    ∀ (k : Nat) option text, r.use.option = some ⟨[], k⟩ → app.options[k]? = some option → option.early = false →
      option.default_value = some text → ∃ accepted, option.acceptDefault text = .ok accepted

end App

end

section

variable {D : Type} {app : App D} {token : Str} {next : Option Str} {use : TokenUse}

theorem readEarly_some {options : List (CmdOption D)} {no_unknown_arg_error : Bool}
    (h : readEarly options no_unknown_arg_error token next = .ok (some use)) :
    token.head? = some '-' ∧ ∃ option k, findOption (argName token) options = some (option, k) ∧
      option.early = true ∧ use = optionUse option ⟨[], k⟩ token next := by
  cases token with
  | nil => cases h
  | cons c rest =>
    obtain ⟨first, hfirst, h⟩ := Checks.bind_ok_iff.mp h
    cases hfirst
    split at h
    next hdash =>
      split at h
      next => split at h <;> cases h
      next option k hfound =>
        split at h
        next hearly =>
          cases h
          exact ⟨by simp [hdash], option, k, hfound, hearly, rfl⟩
        next => cases h
    next => cases h

theorem readEarly_of_plain {options : List (CmdOption D)} {c : Char} {rest : Str} (hc : c ≠ '-') :
    readEarly options true (c :: rest) next = .ok none := by
  simp only [readEarly, charAt0, bind, Except.bind, if_neg hc]

/-- A token that is not empty is never an error. -/
theorem readEarly_error {options : List (CmdOption D)} {stop : Stop}
    (h : readEarly options true token next = .error stop) : token = [] := by
  cases token with
  | nil => rfl
  | cons c rest =>
    simp only [readEarly, charAt0, bind, Except.bind, if_true] at h
    split at h
    next =>
      split at h
      next => cases h
      next => split at h <;> cases h
    next => cases h

theorem App.readEarly_isEarly {no_unknown_arg_error : Bool}
    (h : readEarly app.options no_unknown_arg_error token next = .ok (some use)) :
    app.IsEarly use ∧ use.positionalOption = none := by
  obtain ⟨_, option, k, hfound, hearly, rfl⟩ := readEarly_some h
  obtain ⟨hoption, hpositional⟩ := optionUse_parts option ⟨[], k⟩ token next
  exact ⟨⟨k, option, hoption, (findOption_some hfound).1, hearly⟩, hpositional⟩

end

section

variable {D : Type} {app : App D}

theorem CmdOption.doToDoList_ok_iff {option : CmdOption D} {o : OptRef} {raw : Str} {vars : CmdState D} :
    (∃ vars', option.doToDoList o raw vars = .ok vars') ↔ ∃ assign, option.accept raw = .ok assign := by
  unfold doToDoList
  cases option.accept raw with
  | error stop => exact ⟨fun ⟨_, h⟩ => (nomatch h), fun ⟨_, h⟩ => (nomatch h)⟩
  | ok assign => exact ⟨fun _ => ⟨assign, rfl⟩, fun _ => ⟨_, rfl⟩⟩

/-- Whether a use is accepted depends neither on the pass nor on what came before. -/
theorem App.perform_ok_iff {app' : App D} {missing missing' : Str} {vars vars' : CmdState D} {use : TokenUse}
    (hsame : ∀ o, use.option = some o → app.option? o = app'.option? o) :
    (∃ v, app.perform missing vars use = .ok v) ↔ ∃ v, app'.perform missing' vars' use = .ok v := by
  have hdo : ∀ o raw, app.option? o = app'.option? o →
      ((∃ v, app.doToDoList o raw vars = .ok v) ↔ ∃ v, app'.doToDoList o raw vars' = .ok v) := by
    intro o raw ho
    unfold doToDoList
    rw [← ho]
    cases app.option? o with
    | none => exact ⟨fun ⟨_, h⟩ => (nomatch h), fun ⟨_, h⟩ => (nomatch h)⟩
    | some option =>
      dsimp only
      rw [CmdOption.doToDoList_ok_iff, CmdOption.doToDoList_ok_iff]
  cases use with
  | subcommand token index => exact ⟨fun _ => ⟨vars', rfl⟩, fun _ => ⟨vars, rfl⟩⟩
  | flag token o => exact hdo o _ (hsame o rfl)
  | equals token arg_value o => exact hdo o _ (hsame o rfl)
  | separate token value o => exact hdo o _ (hsame o rfl)
  | valueless token next o => exact ⟨fun ⟨_, h⟩ => (nomatch h), fun ⟨_, h⟩ => (nomatch h)⟩
  | positional token o => exact hdo o _ (hsame o rfl)

theorem App.parseLoop_act_ok_iff {s : ParseState D} {use : TokenUse} :
    (∃ s', app.parseLoop.act s use = .ok s') ↔
      ∃ vars, app.perform "Missing option value for: " s.vars use = .ok vars := by
  constructor
  · intro h
    obtain ⟨s', hact⟩ := h
    obtain ⟨vars, hperform, _⟩ := parseLoop_act hact
    exact ⟨vars, hperform⟩
  · intro h
    obtain ⟨vars, hperform⟩ := h
    exact ⟨s.advance vars use, by simp only [parseLoop, hperform, bind, Except.bind]⟩

/-- What the passes act on does not depend on the state they start from. -/
theorem App.parseVisits_uses (argv : List Str) (vars vars' : CmdState D) :
    TokenLoop.uses (app.parseVisits argv vars) = TokenLoop.uses (app.parseVisits argv vars') := by
  refine TokenLoop.run_uses_congr (fun s t token next (h : s.active_chain = t.active_chain ∧
    s.positional_index = t.positional_index) => ?_) ?_ ?_ (fun _ => rfl) ⟨rfl, rfl⟩
  · simp only [parseLoop, h.1, h.2]
  · intro s t use _
    rw [parseLoop_act_ok_iff, parseLoop_act_ok_iff]
    exact perform_ok_iff fun o _ => rfl
  · rintro s t use s' t' ⟨hchain, hindex⟩ hact hact'
    obtain ⟨v, _, rfl⟩ := parseLoop_act hact
    obtain ⟨v', _, rfl⟩ := parseLoop_act hact'
    cases use <;> simp [ParseState.advance, hchain, hindex]

theorem App.earlyVisits_uses (argv : List Str) (vars vars' : CmdState D) :
    TokenLoop.uses (app.earlyVisits argv vars) = TokenLoop.uses (app.earlyVisits argv vars') :=
  TokenLoop.run_uses_congr (fun _ _ _ _ (_ : True) => rfl) (fun _ _ _ _ => perform_ok_iff fun _ _ => rfl)
    (fun _ _ _ _ _ _ _ _ => trivial) (fun _ => rfl) trivial

theorem App.readToken_nil {active_chain : List Nat} {positional_index : List Nat → Nat} {next : Option Str} :
    ∃ stop, app.readToken active_chain positional_index [] next = .error stop := by
  unfold readToken
  split
  · exact ⟨_, rfl⟩
  · exact ⟨_, rfl⟩

/-- The two loops turn together, as far as early options go. -/
theorem App.earlyLoop_follows : TokenLoop.Follows (app.beforePlugins.earlyLoop true) app.parseLoop
    (fun use => app.IsEarly use ∧ use.positionalOption = none) where
  all := parseLoop_all
  stop s t token next stop hread := by
    rw [readEarly_error hread]
    obtain ⟨stop', hstop⟩ : ∃ stop', app.readToken t.active_chain t.positional_index [] next = .error stop' :=
      readToken_nil
    exact ⟨stop', by simp only [parseLoop, hstop, Except.map]⟩
  missed s t token next use hnone hread := by
    rintro ⟨⟨k, option, hoption, hat, hearly⟩, hpositional⟩
    rcases readToken_cases (parseLoop_read hread) with ⟨hdash, option', o, hfound, rfl⟩ |
      ⟨_, ⟨index, _, rfl⟩ | ⟨option', o, _, rfl⟩⟩
    · rw [optionUse_option] at hoption
      cases hoption
      obtain ⟨_, hname, _⟩ := lookupOption_eq_some.mp hfound
      obtain ⟨hat', _⟩ := findOption_some hname
      cases hat.symm.trans hat'
      cases token with
      | nil => cases hdash
      | cons c rest =>
        cases hdash
        have hfirst : findOption (argName ('-' :: rest)) app.beforePlugins.options = some (option', k) := hname
        simp only [earlyLoop, readEarly, charAt0, bind, Except.bind, if_true, hfirst] at hnone
        rw [if_pos hearly] at hnone
        cases hnone
    · cases hoption
    · cases hpositional
  value t token next use hread htakes := by
    rcases readToken_tokens (parseLoop_read hread) with ⟨hnot, _⟩ | ⟨_, c, value, hc, hnext, _⟩
    · exact absurd (htakes.symm.trans hnot) (by simp)
    · exact ⟨c :: value, hnext, fun s next' => readEarly_of_plain hc⟩
  act s t s' token next use hread := by
    obtain ⟨_, option, k, _, _, rfl⟩ := readEarly_some hread
    rw [parseLoop_act_ok_iff]
    refine perform_ok_iff fun o ho => ?_
    rw [optionUse_option] at ho
    cases ho
    rfl
  takesNext use := rfl

theorem App.mem_earlyVisits {argv : List Str} {vars : CmdState D} {v : TokenLoop.Visit (CmdState D) TokenUse}
    (h : v ∈ app.earlyVisits argv vars) : ∃ token, argv[v.index]? = some token ∧
      readEarly app.options true token argv[v.index + 1]? = .ok (some v.use) := by
  obtain ⟨k, token, hindex, htoken, hread⟩ := TokenLoop.mem_run h
  rw [Nat.zero_add] at hindex
  subst hindex
  exact ⟨token, htoken, hread⟩

theorem App.mem_parseVisits {argv : List Str} {vars : CmdState D} {r : TokenLoop.Visit (ParseState D) TokenUse}
    (h : r ∈ app.parseVisits argv vars) : 0 < r.index ∧ ∃ token, argv[r.index]? = some token ∧
      app.readToken r.state.active_chain r.state.positional_index token argv[r.index + 1]? = .ok r.use := by
  obtain ⟨k, token, hindex, htoken, hread⟩ := TokenLoop.mem_run h
  rw [List.getElem?_tail] at htoken hread
  have hk : r.index = k + 1 := by omega
  rw [hk]
  exact ⟨Nat.succ_pos k, token, htoken, parseLoop_read hread⟩

/-- A token that makes the early pass act is used alike by `parse` exactly where
no active subcommand has an option of that name. -/
theorem App.same_use_iff {token : Str} {next : Option Str} {use use' : TokenUse} {active_chain : List Nat}
    {positional_index : List Nat → Nat} (hearly : readEarly app.options true token next = .ok (some use))
    (hparse : app.readToken active_chain positional_index token next = .ok use') :
    use' = use ↔ ∀ path, path <+: active_chain → path ≠ [] →
      findOption (argName token) (app.optionsAt path) = none := by
  obtain ⟨hdash, option, k, hname, _, rfl⟩ := readEarly_some hearly
  rcases readToken_cases hparse with ⟨_, option', o, hfound, rfl⟩ | ⟨hplain, _⟩
  · obtain ⟨hwithin, hname', hinner⟩ := lookupOption_eq_some.mp hfound
    constructor
    · intro hsame path hpath hne
      have hoption := congrArg TokenUse.option hsame
      rw [optionUse_option, optionUse_option] at hoption
      cases hoption
      exact hinner path hpath (List.length_pos_iff.mpr hne)
    · intro hnone
      have hroot : o.path = [] := by
        by_contra hne
        rw [hnone o.path hwithin hne] at hname'
        cases hname'
      obtain ⟨path, index⟩ := o
      dsimp only at hroot hname'
      subst hroot
      cases hname.symm.trans hname'
      rfl
  · exact absurd hdash hplain

theorem mem_uses {σ υ : Type} {visits : List (TokenLoop.Visit σ υ)} {i : Nat} {use : υ} :
    (i, use) ∈ TokenLoop.uses visits ↔ ∃ v ∈ visits, v.index = i ∧ v.use = use := by
  simp [TokenLoop.uses]

/-- The first two conditions of `Clear`, as an inclusion. -/
theorem App.reached_iff {argv : List Str} {vars vars' : CmdState D} :
    (∀ v ∈ app.earlyVisits argv vars, ∃ r ∈ app.parseVisits argv vars', r.index = v.index ∧
      ∀ path, path <+: r.state.active_chain → path ≠ [] → ∀ token, argv[v.index]? = some token →
        findOption (argName token) (app.optionsAt path) = none) ↔
      ∀ u ∈ TokenLoop.uses (app.earlyVisits argv vars), u ∈ TokenLoop.uses (app.parseVisits argv vars') := by
  constructor
  · rintro h ⟨i, use⟩ hu
    obtain ⟨v, hv, rfl, rfl⟩ := mem_uses.mp hu
    obtain ⟨r, hr, hindex, hnone⟩ := h v hv
    obtain ⟨token, htoken, hearly⟩ := mem_earlyVisits hv
    obtain ⟨_, token', htoken', hparse⟩ := mem_parseVisits hr
    rw [hindex] at htoken' hparse
    cases htoken.symm.trans htoken'
    have hsame := (same_use_iff hearly hparse).mpr fun path hpath hne => hnone path hpath hne token htoken
    exact mem_uses.mpr ⟨r, hr, hindex, hsame⟩
  · intro h v hv
    obtain ⟨r, hr, hindex, hsame⟩ := mem_uses.mp (h _ (mem_uses.mpr ⟨v, hv, rfl, rfl⟩))
    obtain ⟨token, htoken, hearly⟩ := mem_earlyVisits hv
    obtain ⟨_, token', htoken', hparse⟩ := mem_parseVisits hr
    rw [hindex] at htoken' hparse
    cases htoken.symm.trans htoken'
    refine ⟨r, hr, hindex, fun path hpath hne token' htoken' => ?_⟩
    cases htoken.symm.trans htoken'
    exact (same_use_iff hearly hparse).mp hsame path hpath hne

theorem App.isEarly_of_mem {argv : List Str} {vars : CmdState D} {i : Nat} {use : TokenUse}
    (h : (i, use) ∈ TokenLoop.uses (app.earlyVisits argv vars)) :
    app.IsEarly use ∧ use.positionalOption = none := by
  obtain ⟨v, hv, rfl, rfl⟩ := mem_uses.mp h
  obtain ⟨_, _, hread⟩ := mem_earlyVisits hv
  exact readEarly_isEarly hread

/-- The early pass does nothing with an `argv[0]` that is neither empty nor acted on. -/
theorem App.earlyLoop_program {c : Char} {name : Str} {args : List Str} {vars : CmdState D}
    (hnone : ∀ u ∈ TokenLoop.uses (app.earlyVisits ((c :: name) :: args) vars), 0 < u.1) :
    (app.beforePlugins.earlyLoop true).run 0 ((c :: name) :: args) false vars =
      (app.beforePlugins.earlyLoop true).run 1 args false vars := by
  cases hread : (app.beforePlugins.earlyLoop true).read vars (c :: name) args.head? with
  | error stop => cases readEarly_error hread
  | ok found =>
    cases found with
    | none => exact TokenLoop.run_ignored hread
    | some use =>
      have hfirst := hnone _ (TokenLoop.first_mem_uses hread)
      exact absurd hfirst (Nat.lt_irrefl 0)

theorem setDefault_ok_iff {vars : CmdState D} {o : OptRef} {option : CmdOption D} :
    (∃ vars', setDefault vars o option = .ok vars') ↔ (vars.isUsed o = false → ∀ text,
      vars.default_value o = some text → ∃ accepted, option.acceptDefault text = .ok accepted) := by
  constructor
  · intro hset hunused text htext
    obtain ⟨vars', h⟩ := hset
    rw [setDefault_due hunused htext] at h
    obtain ⟨accepted, haccept, _⟩ := Checks.bind_ok_iff.mp h
    exact ⟨accepted, haccept⟩
  · intro h
    by_cases hkept : vars.isUsed o = true ∨ vars.default_value o = none
    · exact ⟨vars, setDefault_kept hkept⟩
    · rw [not_or, Bool.not_eq_true] at hkept
      obtain ⟨text, htext⟩ := Option.ne_none_iff_exists'.mp hkept.2
      obtain ⟨accepted, haccept⟩ := h hkept.1 text htext
      rw [setDefault_due hkept.1 htext]
      exact ⟨_, Checks.bind_ok_iff.mpr ⟨accepted, haccept, rfl⟩⟩

/-- The defaults of a list are set without an exception exactly if each of those
that are needed is accepted. -/
theorem setDefaults_ok_iff {path : List Nat} {options : List (CmdOption D)} {vars : CmdState D} :
    (∃ vars', setDefaults path options vars = .ok vars') ↔ ∀ (k : Nat) option, options[k]? = some option →
      vars.isUsed ⟨path, k⟩ = false → ∀ text, vars.default_value ⟨path, k⟩ = some text →
        ∃ accepted, option.acceptDefault text = .ok accepted := by
  have hfrom : ∀ (options : List (CmdOption D)) n (vars : CmdState D),
      (∃ vars', (options.zipIdx n).foldlM (fun vars arg => setDefault vars ⟨path, arg.2⟩ arg.1) vars = .ok vars') ↔
        ∀ (k : Nat) option, options[k]? = some option → vars.isUsed ⟨path, n + k⟩ = false → ∀ text,
          vars.default_value ⟨path, n + k⟩ = some text → ∃ accepted, option.acceptDefault text = .ok accepted := by
    intro options
    induction options with
    | nil => exact fun n vars => ⟨fun _ k option h => by simp at h, fun _ => ⟨vars, rfl⟩⟩
    | cons first rest ih =>
      intro n vars
      have hother : ∀ k, (⟨path, n + 1 + k⟩ : OptRef) ≠ ⟨path, n⟩ := by
        intro k heq
        have hindex := congrArg OptRef.index heq
        dsimp only at hindex
        omega
      rw [List.zipIdx_cons, List.foldlM_cons]
      constructor
      · rintro ⟨vars', h⟩ k option hoption
        obtain ⟨next, hfirst, hrest⟩ := Checks.bind_ok_iff.mp h
        cases k with
        | zero =>
          cases hoption
          exact setDefault_ok_iff.mp ⟨next, hfirst⟩
        | succ k =>
          have hlater := (ih (n + 1) next).mp ⟨vars', hrest⟩ k option hoption
          rw [setDefault_isUsed hfirst, setDefault_others hfirst (hother k), Nat.add_right_comm] at hlater
          exact hlater
      · intro h
        obtain ⟨next, hfirst⟩ := setDefault_ok_iff.mpr (h 0 first rfl)
        have hrest : ∃ vars', (rest.zipIdx (n + 1)).foldlM
            (fun vars arg => setDefault vars ⟨path, arg.2⟩ arg.1) next = .ok vars' := by
          rw [ih (n + 1) next]
          intro k option hoption
          rw [setDefault_isUsed hfirst, setDefault_others hfirst (hother k), Nat.add_right_comm]
          exact h (k + 1) option hoption
        obtain ⟨vars', hrest⟩ := hrest
        exact ⟨vars', Checks.bind_ok_iff.mpr ⟨next, hfirst, hrest⟩⟩
  have hall := hfrom options 0 vars
  simp only [Nat.zero_add] at hall
  exact hall

theorem used_map {σ : Type} {visits : List (TokenLoop.Visit σ TokenUse)} {o : OptRef} :
    used (visits.map TokenLoop.Visit.use) o = true ↔ ∃ v ∈ visits, v.use.option = some o := by
  simp [used]

theorem App.perform_default_value {missing : Str} {vars vars' : CmdState D} {use : TokenUse}
    (h : app.perform missing vars use = .ok vars') : vars'.default_value = vars.default_value := by
  rcases perform_cases h with ⟨_, _, rfl⟩ | ⟨o, raw, assign, _, _, _, rfl⟩ <;> rfl

/-- The early pass marks what it uses, and its loop leaves the defaults alone. -/
theorem App.earlyLoop_ok {argv : List Str} {dest : D} {vars : CmdState D}
    (h : ((app.beforePlugins.earlyLoop true).run 0 argv false (app.beforePlugins.fresh dest)).2 = .ok vars) :
    vars.isUsed = used ((app.earlyVisits argv (app.beforePlugins.fresh dest)).map TokenLoop.Visit.use) ∧
      vars.default_value = (app.beforePlugins.fresh dest).default_value := by
  constructor
  · refine (TokenLoop.run_ok (fun before s => s.isUsed = used before) (fun _ _ => True) ?_ rfl h).1
    intro before s token next use s' hs _ hact
    refine ⟨trivial, funext fun o => ?_⟩
    rw [perform_isUsed hact, used_append, hs]
  · exact TokenLoop.run_invariant (fun s => s.default_value = (app.beforePlugins.fresh dest).default_value)
      (fun s use s' hs hact => (perform_default_value hact).trans hs) rfl h

theorem App.parseLoop_default {args : List Str} {dest : D} {s : ParseState D}
    (h : (app.parseLoop.run 1 args false ⟨app.fresh dest, [], fun _ => 0⟩).2 = .ok s) :
    s.vars.default_value = (app.fresh dest).default_value := by
  refine TokenLoop.run_invariant (fun s => s.vars.default_value = (app.fresh dest).default_value) ?_ rfl h
  intro s use s' hs hact
  obtain ⟨vars, hperform, rfl⟩ := parseLoop_act hact
  cases use <;> exact (perform_default_value hperform).trans hs

/-- Where the early pass acts on nothing but what `parse` uses alike, it uses
whatever `parse` uses of the early options by name. -/
theorem App.used_early {argv : List Str} {vars vars' : CmdState D} (hname : argv.head? ≠ some [])
    (hincl : ∀ u ∈ TokenLoop.uses (app.earlyVisits argv vars), u ∈ TokenLoop.uses (app.parseVisits argv vars')) :
    (∀ u ∈ TokenLoop.uses (app.parseVisits argv vars'), app.IsEarly u.2 ∧ u.2.positionalOption = none →
      u ∈ TokenLoop.uses (app.earlyVisits argv vars)) ∧
    ((∃ s, (app.parseLoop.run 1 argv.tail false ⟨vars', [], fun _ => 0⟩).2 = .ok s) →
      ∃ s, ((app.beforePlugins.earlyLoop true).run 0 argv false vars).2 = .ok s) := by
  cases argv with
  | nil => exact ⟨fun u hu => absurd hu List.not_mem_nil, fun _ => ⟨vars, rfl⟩⟩
  | cons program args =>
    cases program with
    | nil => exact absurd rfl hname
    | cons c name =>
      have hprogram : (app.beforePlugins.earlyLoop true).run 0 ((c :: name) :: args) false vars =
          (app.beforePlugins.earlyLoop true).run 1 args false vars := by
        refine earlyLoop_program fun u hu => ?_
        obtain ⟨r, hr, rfl⟩ := List.mem_map.mp (hincl u hu)
        exact (mem_parseVisits hr).1
      simp only [earlyVisits, hprogram] at hincl ⊢
      exact earlyLoop_follows.complete (fun h => h) (fun h => absurd h Bool.false_ne_true) hincl

/-- An empty `argv[0]` stops the early pass before it has done anything. -/
theorem App.earlyLoop_unnamed {argv : List Str} (hname : argv.head? = some []) (vars : CmdState D) :
    (app.beforePlugins.earlyLoop true).run 0 argv false vars = ([], .error (.raised (.std .out_of_range))) := by
  obtain ⟨args, rfl⟩ : ∃ args, argv = [] :: args := List.head?_eq_some_iff.mp hname
  exact TokenLoop.run_unread rfl

theorem App.PassesAgree.clear {argv : List Str} {dest : D} (hagree : app.PassesAgree argv dest) :
    app.Clear argv dest := by
  have hearly : ∀ r ∈ app.parseVisits argv (app.fresh dest), app.IsEarly r.use →
      (r.index, r.use) ∈ TokenLoop.uses (app.earlyVisits argv (app.fresh dest)) :=
    fun r hr hearly => (hagree.same _ _ _ _).mpr ⟨mem_uses.mpr ⟨r, hr, rfl, rfl⟩, hearly⟩
  refine ⟨?_, ?_, ?_, ?_⟩
  · rw [reached_iff]
    exact fun u hu => ((hagree.same _ _ u.1 u.2).mp hu).1
  · exact fun r hr h => (isEarly_of_mem (hearly r hr h)).2
  · intro hname
    constructor
    · intro r hr h
      have hmem := hearly r hr h
      rw [earlyVisits, earlyLoop_unnamed hname] at hmem
      exact absurd hmem List.not_mem_nil
    · intro vars hparse
      obtain ⟨vars', hpass⟩ := hagree.accepts vars hparse
      obtain ⟨_, hloop, _⟩ := Checks.bind_ok_iff.mp hpass
      rw [earlyLoop_unnamed hname] at hloop
      cases hloop
  · intro vars hparse r hr k option text _ hat hlate htext
    obtain ⟨vars', hpass⟩ := hagree.accepts vars hparse
    obtain ⟨marked, hloop, hpass⟩ := Checks.bind_ok_iff.mp hpass
    obtain ⟨_, _, hdefaults⟩ := Checks.bind_ok_iff.mp hpass
    obtain ⟨hmarked, hkept⟩ := earlyLoop_ok hloop
    -- the early pass has not used the option, so it has set its default
    have hunused : marked.isUsed ⟨[], k⟩ = false := by
      rw [Bool.eq_false_iff, hmarked, ne_eq, used_map]
      intro h
      obtain ⟨v, hv, hoption⟩ := h
      obtain ⟨⟨k', option', hoption', hat', hearly'⟩, _⟩ := isEarly_of_mem (mem_uses.mpr ⟨v, hv, rfl, rfl⟩)
      cases hoption.symm.trans hoption'
      cases hat.symm.trans hat'
      rw [hlate] at hearly'
      cases hearly'
    have htext' : marked.default_value ⟨[], k⟩ = some text := by
      rw [hkept, ← htext]
      exact congrArg (·.bind CmdOption.default_value) hat
    exact setDefaults_ok_iff.mp ⟨vars', hdefaults⟩ k option hat hunused text htext'

theorem App.Clear.same {argv : List Str} {dest : D} (hclear : app.Clear argv dest) (vars vars' : CmdState D)
    (i : Nat) (use : TokenUse) : (i, use) ∈ TokenLoop.uses (app.earlyVisits argv vars) ↔
      (i, use) ∈ TokenLoop.uses (app.parseVisits argv vars') ∧ app.IsEarly use := by
  rw [earlyVisits_uses argv vars (app.fresh dest), parseVisits_uses argv vars' (app.fresh dest)]
  have hincl := reached_iff.mp hclear.reached
  constructor
  · exact fun h => ⟨hincl _ h, (isEarly_of_mem h).1⟩
  · intro h
    obtain ⟨hparse, hearly⟩ := h
    obtain ⟨r, hr, rfl, rfl⟩ := mem_uses.mp hparse
    have hname : argv.head? ≠ some [] := fun hname => (hclear.program hname).1 r hr hearly
    exact (used_early hname hincl).1 _ hparse ⟨hearly, hclear.positional r hr hearly⟩

theorem App.Clear.accepts {argv : List Str} {dest : D} (hclear : app.Clear argv dest) {vars : CmdState D}
    (hparse : app.parse argv (app.fresh dest) = .ok vars) :
    ∃ vars', app.beforePlugins.parse_earlies true argv (app.beforePlugins.fresh dest) = .ok vars' := by
  obtain ⟨s, defaulted, htokens, hrequire, hdefaults, _, _⟩ := parse_ok hparse
  have hname : argv.head? ≠ some [] := fun hname => (hclear.program hname).2 vars hparse
  have hincl : ∀ u ∈ TokenLoop.uses (app.earlyVisits argv (app.beforePlugins.fresh dest)),
      u ∈ TokenLoop.uses (app.parseVisits argv (app.fresh dest)) :=
    fun u hu => ((hclear.same _ _ u.1 u.2).mp hu).1
  obtain ⟨marked, hloop⟩ := (used_early hname hincl).2 ⟨s, htokens⟩
  obtain ⟨hmarked, hkept⟩ := earlyLoop_ok hloop
  have hused := (parseLoop_ok htokens).1.isUsed
  -- an early option that `parse` has used was used by the early pass
  have hboth : ∀ (k : Nat) option, app.options[k]? = some option → option.early = true →
      s.vars.isUsed ⟨[], k⟩ = true → marked.isUsed ⟨[], k⟩ = true := by
    intro k option hat hearly hk
    rw [hused, used_map] at hk
    obtain ⟨r, hr, hoption⟩ := hk
    have hsame := (hclear.same (app.beforePlugins.fresh dest) (app.fresh dest) r.index r.use).mpr
      ⟨mem_uses.mpr ⟨r, hr, rfl, rfl⟩, k, option, hoption, hat, hearly⟩
    obtain ⟨v, hv, _, hsame⟩ := mem_uses.mp hsame
    rw [hmarked, used_map]
    exact ⟨v, hv, hsame ▸ hoption⟩
  have hrequired : requireOptions "Missing required early option: " (fun option => option.is_required && option.early)
      [] app.beforePlugins.options marked.isUsed = .ok () := by
    rw [requireOptions_ok_iff]
    intro k option hat hdue
    rw [Bool.and_eq_true] at hdue
    exact hboth k option hat hdue.2 (requireOptions_ok_iff.mp hrequire k option hat hdue.1)
  obtain ⟨vars', hset⟩ : ∃ vars', setDefaults [] app.beforePlugins.options marked = .ok vars' := by
    rw [setDefaults_ok_iff]
    intro k option hat hunused text htext
    rw [hkept] at htext
    have htext' : option.default_value = some text := by
      rw [← htext]
      exact (congrArg (·.bind CmdOption.default_value) hat).symm
    by_cases hk : s.vars.isUsed ⟨[], k⟩ = true
    · have hlate : option.early = false := by
        by_contra hearly
        rw [hboth k option hat (by simpa using hearly) hk] at hunused
        cases hunused
      rw [hused, used_map] at hk
      obtain ⟨r, hr, hoption⟩ := hk
      exact hclear.defaults vars hparse r hr k option text hoption hat hlate htext'
    · refine setDefaults_ok_iff.mp ⟨defaulted, hdefaults⟩ k option hat (by simpa using hk) text ?_
      rw [parseLoop_default htokens]
      exact htext
  exact ⟨vars', Checks.bind_ok_iff.mpr ⟨marked, hloop, Checks.bind_ok_iff.mpr ⟨(), hrequired, hset⟩⟩⟩

/-- The passes agree exactly on the command lines that are clear. -/
theorem passes_agree_iff (argv : List Str) (dest : D) : app.PassesAgree argv dest ↔ app.Clear argv dest :=
  ⟨App.PassesAgree.clear, fun hclear => ⟨hclear.same, fun _ => hclear.accepts⟩⟩

end

/-- `-d` means `--delete` to `flash`, and `--plugin-directory` to the early pass. -/
def deleteArgv : List Str := ["pmt", "flash", "boot", "boot.img", "-d"]

theorem delete_is_refused :
    (∃ vars, (mainApp fun _ => true).parse deleteArgv ((mainApp fun _ => true).fresh []) = .ok vars ∧
      ("deleteAfterProgress".toList, "true".toList) ∈ vars.dest) ∧
    (mainApp fun _ => true).beforePlugins.parse_earlies true deleteArgv
      ((mainApp fun _ => true).beforePlugins.fresh []) =
        .error (usageError "Missing early option value for: -d") ∧
    ¬ (mainApp fun _ => true).PassesAgree deleteArgv [] := by
  obtain ⟨vars, hparse, hdest⟩ : ∃ vars,
      (mainApp fun _ => true).parse deleteArgv ((mainApp fun _ => true).fresh []) = .ok vars ∧
        ("deleteAfterProgress".toList, "true".toList) ∈ vars.dest := ⟨_, rfl, by decide⟩
  have hrefused : (mainApp fun _ => true).beforePlugins.parse_earlies true deleteArgv
      ((mainApp fun _ => true).beforePlugins.fresh []) =
        .error (usageError "Missing early option value for: -d") := by rfl
  refine ⟨⟨vars, hparse, hdest⟩, hrefused, fun hagree => ?_⟩
  obtain ⟨vars', haccepted⟩ := hagree.accepts vars hparse
  rw [hrefused] at haccepted
  cases haccepted

end PartitionManager
