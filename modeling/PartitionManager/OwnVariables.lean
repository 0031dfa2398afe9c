import PartitionManager.SuperiorOptions
import PartitionManager.TypedOptions

namespace PartitionManager

section

variable {D : Type}

/-- The option does not write to the variable. -/
def CmdOption.Leaves (option : CmdOption D) (var : Variable D) : Prop :=
  ∀ setter, option.setter = some setter → ∀ raw assign, setter raw = .ok assign →
    ∀ dest, var.get (assign dest) = var.get dest

/-- Nothing is left to set for the option when the tokens are read. -/
def CmdState.Settled (vars : CmdState D) (o : OptRef) : Prop := vars.isUsed o = true ∨ vars.default_value o = none

/-- No other option of the active levels writes to the variable of this one. -/
def App.Owns (app : App D) (o : OptRef) (var : Variable D) (active_chain : List Nat) : Prop :=
  ∀ other option, other ≠ o → other.path <+: active_chain → app.option? other = some option → option.Leaves var

namespace CmdOption.Leaves

variable {option : CmdOption D} {var : Variable D} {raw : Str} {assign : D → D}

theorem accept (h : option.Leaves var) (haccept : option.accept raw = .ok assign) (dest : D) :
    var.get (assign dest) = var.get dest := by
  obtain ⟨text, _, haccept⟩ := Checks.bind_ok_iff.mp haccept
  obtain ⟨_, _, haccept⟩ := Checks.bind_ok_iff.mp haccept
  obtain ⟨assign', hset, haccept⟩ := Checks.bind_ok_iff.mp haccept
  obtain ⟨_, _, haccept⟩ := Checks.bind_ok_iff.mp haccept
  cases haccept
  cases hsetter : option.setter with
  | none =>
    rw [hsetter] at hset
    cases hset
    rfl
  | some setter =>
    rw [hsetter] at hset
    exact h setter hsetter text assign hset dest

theorem acceptDefault (h : option.Leaves var) {text : Str} (haccept : option.acceptDefault raw = .ok (text, assign))
    (dest : D) : var.get (assign dest) = var.get dest := by
  obtain ⟨text', _, haccept⟩ := Checks.bind_ok_iff.mp haccept
  obtain ⟨assign', hset, haccept⟩ := Checks.bind_ok_iff.mp haccept
  cases haccept
  cases hsetter : option.setter with
  | none =>
    rw [hsetter] at hset
    cases hset
  | some setter =>
    rw [hsetter] at hset
    exact h setter hsetter text assign hset dest

end CmdOption.Leaves

/-- What a default writes is what the option makes of it. -/
theorem CmdOption.acceptDefault_ok_iff {option : CmdOption D} {var : Variable D} {T : Destination}
    (hsetter : option.setter = some (var.setter T)) {raw text : Str} {assign : D → D} :
    option.acceptDefault raw = .ok (text, assign) ↔ option.transformed raw = .ok text ∧
      ∃ value, from_string T text = .ok value ∧ assign = var.set value := by
  unfold acceptDefault
  rw [hsetter, Checks.bind_ok_iff]
  constructor
  · intro h
    obtain ⟨text', htext, h⟩ := h
    obtain ⟨assign', hset, h⟩ := Checks.bind_ok_iff.mp h
    cases h
    obtain ⟨value, hvalue, hassign⟩ := setter_ok_iff.mp hset
    exact ⟨htext, value, hvalue, hassign.symm⟩
  · intro h
    obtain ⟨htext, value, hvalue, rfl⟩ := h
    refine ⟨text, htext, Checks.bind_ok_iff.mpr ⟨var.set value, ?_, rfl⟩⟩
    exact setter_ok_iff.mpr ⟨value, hvalue, rfl⟩

variable {app : App D} {o : OptRef} {option : CmdOption D} {var : Variable D} {T : Destination}

theorem App.fresh_default_value (hat : app.option? o = some option) (dest : D) :
    (app.fresh dest).default_value o = option.default_value := by
  show (app.option? o).bind (·.default_value) = _
  rw [hat]
  rfl

/-- A default that is set fills its variable. -/
theorem setDefault_fills {vars vars' : CmdState D} {text : Str} (hsetter : option.setter = some (var.setter T))
    (hunused : vars.isUsed o = false) (htext : vars.default_value o = some text)
    (h : setDefault vars o option = .ok vars') : option.decode T text = .ok (var.get vars'.dest) := by
  rw [setDefault_due hunused htext] at h
  obtain ⟨⟨text', assign⟩, haccept, h⟩ := Checks.bind_ok_iff.mp h
  cases h
  obtain ⟨htext', value, hvalue, rfl⟩ := (CmdOption.acceptDefault_ok_iff hsetter).mp haccept
  rw [CmdOption.decode_ok_iff]
  exact ⟨text', htext', hvalue.trans (congrArg Except.ok (var.get_set value vars.dest).symm)⟩

theorem setDefault_settled {vars vars' : CmdState D} {o' : OptRef} (hdone : vars.Settled o)
    (h : setDefault vars o' option = .ok vars') : vars'.Settled o := by
  rcases hdone with hused | hnone
  · left
    rw [setDefault_isUsed h, hused]
  · right
    by_cases hsame : o = o'
    · subst hsame
      rw [setDefault_kept (Or.inr hnone)] at h
      cases h
      exact hnone
    · rw [setDefault_others h hsame, hnone]

theorem setDefault_leaves {vars vars' : CmdState D} (hleaves : ¬ vars.Settled o → option.Leaves var)
    (h : setDefault vars o option = .ok vars') : var.get vars'.dest = var.get vars.dest := by
  rcases setDefault_cases h with ⟨_, rfl⟩ | ⟨raw, text, assign, hunused, hraw, haccept, rfl⟩
  · rfl
  · refine (hleaves ?_).acceptDefault haccept vars.dest
    rw [CmdState.Settled, hunused, hraw]
    simp

section

variable {path : List Nat} {options : List (CmdOption D)} {vars vars' : CmdState D}

/-- The defaults of a level do not touch a variable that none of its options has to fill. -/
theorem setDefaults_leaves (hothers : ∀ (k : Nat) other, options[k]? = some other → (⟨path, k⟩ : OptRef) ≠ o →
    other.Leaves var) (hdone : path ≠ o.path ∨ vars.Settled o) (h : setDefaults path options vars = .ok vars') :
    var.get vars'.dest = var.get vars.dest ∧ (vars.Settled o → vars'.Settled o) := by
  have hkeep := Checks.foldlM_invariant
    (fun _ c => var.get c.dest = var.get vars.dest ∧ (vars.Settled o → c.Settled o)) ⟨rfl, id⟩ ?_
    (List.append_nil options.zipIdx).symm h
  · exact hkeep
  · intro pre arg post c c' hsplit hc hstep
    refine ⟨(setDefault_leaves ?_ hstep).trans hc.1, fun hdone => setDefault_settled (hc.2 hdone) hstep⟩
    intro hopen
    have hmem : arg ∈ options.zipIdx := by
      rw [hsplit]
      simp
    refine hothers arg.2 arg.1 (List.mem_zipIdx_iff_getElem?.mp hmem) ?_
    rintro rfl
    rcases hdone with hpath | hdone
    · exact hpath rfl
    · exact hopen (hc.2 hdone)

/-- What setting the default of an option that was left out brings about, and the other
defaults of its level keep, holds after them. -/
theorem setDefaults_own (P : CmdState D → Prop) {text : Str} (hat : options[o.index]? = some option)
    (hunused : vars.isUsed o = false) (htext : vars.default_value o = some text)
    (hown : ∀ c c', c.isUsed o = false → c.default_value o = some text → setDefault c o option = .ok c' → P c')
    (hkeep : ∀ (k : Nat) other c c', options[k]? = some other → (⟨o.path, k⟩ : OptRef) ≠ o →
      setDefault c ⟨o.path, k⟩ other = .ok c' → P c → P c')
    (h : setDefaults o.path options vars = .ok vars') : P vars' := by
  have hend : o.index ∈ options.zipIdx.map Prod.snd :=
    List.mem_map.mpr ⟨(option, o.index), List.mem_zipIdx_iff_getElem?.mpr hat, rfl⟩
  have hall := Checks.foldlM_invariant (fun pre c => c.isUsed = vars.isUsed ∧
      (o.index ∉ pre.map Prod.snd → c.default_value o = some text) ∧ (o.index ∈ pre.map Prod.snd → P c))
    ⟨rfl, fun _ => htext, fun h => absurd h List.not_mem_nil⟩ ?_ (List.append_nil options.zipIdx).symm h
  · exact hall.2.2 hend
  · intro pre arg post c c' hsplit hc hstep
    obtain ⟨hused, hbefore, hafter⟩ := hc
    have hmem : arg ∈ options.zipIdx := by
      rw [hsplit]
      simp
    have hthere := List.mem_zipIdx_iff_getElem?.mp hmem
    have hsnd : (options.zipIdx.map Prod.snd).Nodup := by
      rw [List.zipIdx_map_snd]
      exact List.nodup_range'
    rw [hsplit, List.map_append, List.map_cons, List.nodup_middle, List.nodup_cons, List.mem_append, not_or] at hsnd
    refine ⟨(setDefault_isUsed hstep).trans hused, ?_, ?_⟩
    · intro hnew
      rw [List.map_append, List.mem_append, not_or] at hnew
      refine (setDefault_others hstep ?_).trans (hbefore hnew.1)
      intro heq
      exact hnew.2 (List.mem_singleton.mpr (congrArg OptRef.index heq))
    · intro hdone
      rw [List.map_append, List.mem_append] at hdone
      by_cases harg : o.index = arg.2
      · have hsame : (⟨o.path, arg.2⟩ : OptRef) = o := by rw [← harg]
        rw [← harg, hat] at hthere
        rw [hsame, ← Option.some.inj hthere] at hstep
        rw [← harg] at hsnd
        exact hown c c' (by rw [hused, hunused]) (hbefore hsnd.1.1) hstep
      · have hearlier : o.index ∈ pre.map Prod.snd :=
          hdone.resolve_right fun hlast => harg (List.mem_singleton.mp hlast)
        refine hkeep arg.2 arg.1 c c' hthere ?_ hstep (hafter hearlier)
        intro heq
        exact harg (congrArg OptRef.index heq).symm

/-- The defaults of its level fill the variable of an option that was left out. -/
theorem setDefaults_fills (hothers : ∀ (k : Nat) other, options[k]? = some other → (⟨o.path, k⟩ : OptRef) ≠ o →
    other.Leaves var) (hat : options[o.index]? = some option) (hsetter : option.setter = some (var.setter T))
    (hunused : vars.isUsed o = false) {text : Str} (htext : vars.default_value o = some text)
    (h : setDefaults o.path options vars = .ok vars') : option.decode T text = .ok (var.get vars'.dest) := by
  refine setDefaults_own (fun c => option.decode T text = .ok (var.get c.dest)) hat hunused htext ?_ ?_ h
  · intro c c' hc hctext hstep
    exact setDefault_fills hsetter hc hctext hstep
  · intro k other c c' hother hne hstep hfilled
    rw [hfilled, setDefault_leaves (fun _ => hothers k other hother hne) hstep]

/-- They store what its transformer makes of the default. -/
theorem setDefaults_stores (hat : options[o.index]? = some option) (hunused : vars.isUsed o = false) {text : Str}
    (htext : vars.default_value o = some text) (h : setDefaults o.path options vars = .ok vars') :
    ∃ text', option.transformed text = .ok text' ∧ vars'.default_value o = some text' := by
  refine setDefaults_own (fun c => ∃ text', option.transformed text = .ok text' ∧ c.default_value o = some text')
    hat hunused htext ?_ ?_ h
  · intro c c' hc hctext hstep
    rw [setDefault_due hc hctext] at hstep
    obtain ⟨⟨text', assign⟩, haccept, hstep⟩ := Checks.bind_ok_iff.mp hstep
    cases hstep
    obtain ⟨text'', htransformed, haccept⟩ := Checks.bind_ok_iff.mp haccept
    obtain ⟨_, _, haccept⟩ := Checks.bind_ok_iff.mp haccept
    cases haccept
    exact ⟨text', htransformed, Function.update_self _ _ _⟩
  · intro k other c c' hother hne hstep hstored
    rw [setDefault_others hstep fun heq => hne heq.symm]
    exact hstored

end

namespace App

variable {active_chain : List Nat} {c c' : CmdState D} {step : FinishStep}

theorem defaults_mem_finishSteps {path : List Nat} :
    FinishStep.defaults path ∈ finishSteps active_chain ↔ path <+: active_chain := by
  rw [finishSteps, List.mem_append, List.mem_flatMap]
  constructor
  · intro h
    rcases h with hroot | ⟨path', hmem, hstep⟩
    · have hpath : path = [] := by simpa using hroot
      rw [hpath]
      exact List.nil_prefix
    · have hpath : path = path' := by simpa [activeSteps] using hstep
      rw [hpath]
      exact (mem_inits_tail.mp hmem).1
  · intro h
    by_cases hne : path = []
    · exact Or.inl (by simp [hne])
    · exact Or.inr ⟨path, mem_inits_tail.mpr ⟨h, hne⟩, by simp [activeSteps]⟩

/-- A step that only looks changes nothing. -/
theorem runStep_obligation (hstep : step.isObligation = true) (h : app.runStep active_chain c step = .ok c') :
    c' = c := by
  cases step with
  | required path | groups path =>
    obtain ⟨_, _, h⟩ := Checks.bind_ok_iff.mp h
    exact (Except.ok.inj h).symm
  | nested path =>
    simp only [runStep] at h
    split at h
    next => cases h
    next => exact (Except.ok.inj h).symm
  | defaults path => cases hstep

theorem Owns.level (howns : app.Owns o var active_chain) {path : List Nat} (hpath : path <+: active_chain)
    (k : Nat) (other : CmdOption D) (hother : (app.optionsAt path)[k]? = some other) (hne : (⟨path, k⟩ : OptRef) ≠ o) :
    other.Leaves var := howns ⟨path, k⟩ other hne hpath hother

/-- After the tokens nothing is written to the variable of an option that is settled. -/
theorem steps_leave (howns : app.Owns o var active_chain) {vars vars' : CmdState D} (hdone : vars.Settled o)
    (h : (finishSteps active_chain).foldlM (app.runStep active_chain) vars = .ok vars') :
    var.get vars'.dest = var.get vars.dest := by
  have hkeep := Checks.foldlM_invariant
    (fun _ c => c.Settled o ∧ var.get c.dest = var.get vars.dest) ⟨hdone, rfl⟩ ?_
    (List.append_nil (finishSteps active_chain)).symm h
  · exact hkeep.2
  · intro pre step post c c' hsplit hc hstep
    cases step with
    | defaults path =>
      have hpath : path <+: active_chain := defaults_mem_finishSteps.mp (by rw [hsplit]; simp)
      obtain ⟨hleaves, hkeeps⟩ := setDefaults_leaves (howns.level hpath) (Or.inr hc.1) hstep
      exact ⟨hkeeps hc.1, hleaves.trans hc.2⟩
    | required path | groups path | nested path =>
      rw [runStep_obligation rfl hstep]
      exact hc

/-- After the tokens the default of an option that was left out goes to its variable. -/
theorem steps_fill (howns : app.Owns o var active_chain) (hpath : o.path <+: active_chain)
    (hat : app.option? o = some option) (hsetter : option.setter = some (var.setter T)) {vars vars' : CmdState D}
    (hunused : vars.isUsed o = false) {text : Str} (htext : vars.default_value o = some text)
    (h : (finishSteps active_chain).foldlM (app.runStep active_chain) vars = .ok vars') :
    option.decode T text = .ok (var.get vars'.dest) := by
  have hkeep := Checks.foldlM_invariant (fun pre c => c.isUsed o = false ∧
      (FinishStep.defaults o.path ∉ pre → c.default_value o = some text) ∧
      (FinishStep.defaults o.path ∈ pre → option.decode T text = .ok (var.get c.dest)))
    ⟨hunused, fun _ => htext, fun h => absurd h List.not_mem_nil⟩ ?_
    (List.append_nil (finishSteps active_chain)).symm h
  · exact hkeep.2.2 (defaults_mem_finishSteps.mpr hpath)
  · intro pre step post c c' hsplit hc hstep
    obtain ⟨hused, hbefore, hafter⟩ := hc
    have hfresh := finishSteps_fresh hsplit
    cases step with
    | defaults path =>
      have hwithin : path <+: active_chain := defaults_mem_finishSteps.mp (by rw [hsplit]; simp)
      refine ⟨by rw [setDefaults_isUsed hstep, hused], ?_, ?_⟩
      · intro hnew
        rw [List.mem_append, not_or] at hnew
        refine (setDefaults_default_value hstep ?_).trans (hbefore hnew.1)
        rintro rfl
        exact hnew.2 (List.mem_singleton.mpr rfl)
      · intro hdone
        rw [List.mem_append] at hdone
        by_cases hlevel : path = o.path
        · subst hlevel
          exact setDefaults_fills (howns.level hpath) hat hsetter hused (hbefore hfresh) hstep
        · have hearlier : FinishStep.defaults o.path ∈ pre := by
            refine hdone.resolve_right fun hlast => hlevel ?_
            exact (FinishStep.defaults.inj (List.mem_singleton.mp hlast)).symm
          rw [hafter hearlier, (setDefaults_leaves (howns.level hwithin) (Or.inl hlevel) hstep).1]
    | required path | groups path | nested path =>
      rw [runStep_obligation rfl hstep]
      refine ⟨hused, fun hnew => hbefore fun hmem => hnew (List.mem_append_left _ hmem), fun hdone => hafter ?_⟩
      rcases List.mem_append.mp hdone with hearlier | hlast
      · exact hearlier
      · cases List.mem_singleton.mp hlast

/-- A use is one of an option of the active levels. -/
theorem readToken_within {positional_index : List Nat → Nat} {token : Str} {next : Option Str} {use : TokenUse}
    (h : app.readToken active_chain positional_index token next = .ok use) (ho : use.option = some o) :
    o.path <+: active_chain ∧ ∃ option, app.option? o = some option := by
  refine ⟨?_, readToken_option h ho⟩
  rcases readToken_cases h with ⟨_, option, o', hfound, rfl⟩ | ⟨_, ⟨index, _, rfl⟩ | ⟨option, o', hfound, rfl⟩⟩
  · rw [optionUse_option] at ho
    cases ho
    exact (lookupOption_eq_some.mp hfound).1
  · cases ho
  · cases ho
    exact (lookupPositional_some hfound).1

end App

theorem TokenUse.given_option {use : TokenUse} {raw : Str} (h : use.given = some (o, raw)) : use.option = some o := by
  cases use <;> cases h <;> rfl

namespace ParseState

variable (s : ParseState D) (use : TokenUse) (assign : D → D)

theorem give_default_value : (s.give use assign).vars.default_value = s.vars.default_value := by
  cases use <;> rfl

theorem give_unnamed (h : use.option ≠ some o) : (s.give use assign).vars.isUsed o = s.vars.isUsed o := by
  have hupdate : ∀ o', use.option = some o' → Function.update s.vars.isUsed o' true o = s.vars.isUsed o := by
    intro o' ho'
    refine Function.update_of_ne ?_ _ _
    rintro rfl
    exact h ho'
  cases use with
  | subcommand token index => rfl
  | valueless token next o' => rfl
  | flag token o' | equals token arg_value o' | separate token value o' | positional token o' => exact hupdate o' rfl

end ParseState

namespace App

variable {s s' : ParseState D} {uses : List TokenUse}

/-- The uses of other options leave the variable, the mark and all stored texts alone. -/
theorem plays_leave (h : app.parseLoop.Plays TokenUse.tokens s uses s') (howns : app.Owns o var s'.active_chain)
    (hno : ∀ use ∈ uses, use.option ≠ some o) :
    var.get s'.vars.dest = var.get s.vars.dest ∧ s'.vars.isUsed o = s.vars.isUsed o ∧
      s'.vars.default_value = s.vars.default_value := by
  induction h with
  | nil s => exact ⟨rfl, rfl, rfl⟩
  | @cons s t s' use later hread hact rest ih =>
    obtain ⟨hfirst, hlater⟩ := List.forall_mem_cons.mp hno
    obtain ⟨hget, hused, htext⟩ := ih howns hlater
    have hchain : s.active_chain <+: s'.active_chain := by
      rw [plays_chain rest, act_chain hact, List.append_assoc]
      exact List.prefix_append _ _
    obtain ⟨_, assign, hassign, rfl⟩ := parseLoop_act_ok.mp hact
    rw [ParseState.give_default_value] at htext
    rw [s.give_unnamed use assign hfirst] at hused
    refine ⟨hget.trans ?_, hused, htext⟩
    cases hgiven : use.given with
    | none => cases use <;> first | rfl | cases hgiven
    | some given =>
      obtain ⟨o', raw⟩ := given
      have hoption := TokenUse.given_option hgiven
      obtain ⟨token, values, _, _, htoken⟩ := hread
      obtain ⟨hwithin, option', hat⟩ := readToken_within (parseLoop_read (htoken [])) hoption
      have haccept : option'.accept raw = .ok assign := by
        rw [assignment, hgiven] at hassign
        exact (accept_at hat raw).symm.trans hassign
      have hne : o' ≠ o := by
        rintro rfl
        exact hfirst hoption
      have hdest : (s.give use assign).vars.dest = assign s.vars.dest := by
        cases use <;> first | rfl | cases hgiven
      rw [hdest]
      exact (howns o' option' hne (hwithin.trans hchain) hat).accept haccept _

/-- A value that is given and not given again is in its variable when the tokens are read. -/
theorem plays_give {before after : List TokenUse} {use : TokenUse} {raw : Str}
    (h : app.parseLoop.Plays TokenUse.tokens s (before ++ use :: after) s') (hgiven : use.given = some (o, raw))
    (hlast : ∀ later ∈ after, later.option ≠ some o) (hat : app.option? o = some option)
    (hsetter : option.setter = some (var.setter T)) (howns : app.Owns o var s'.active_chain) :
    option.decode T raw = .ok (var.get s'.vars.dest) ∧ s'.vars.isUsed o = true := by
  obtain ⟨t, _, hrest⟩ := TokenLoop.plays_append_iff.mp h
  obtain ⟨_, r, hact, hafter⟩ := TokenLoop.plays_cons_iff.mp hrest
  obtain ⟨hget, hused, _⟩ := plays_leave hafter howns hlast
  obtain ⟨_, assign, hassign, rfl⟩ := parseLoop_act_ok.mp hact
  have haccept : option.accept raw = .ok assign := by
    rw [assignment, hgiven] at hassign
    exact (accept_at hat raw).symm.trans hassign
  have hmark : (t.give use assign).vars.dest = assign t.vars.dest ∧ (t.give use assign).vars.isUsed o = true := by
    have hoption := TokenUse.given_option hgiven
    cases use with
    | subcommand token index => cases hgiven
    | valueless token next o' => cases hgiven
    | flag token o' | equals token arg_value o' | separate token value o' | positional token o' =>
      cases hoption
      exact ⟨rfl, Function.update_self _ _ _⟩
  rw [hget, hused, hmark.1]
  exact ⟨CmdOption.get_of_accept hsetter haccept _, hmark.2⟩

/-- The stations of a `parse` that returns, with the uses of its tokens. -/
theorem parse_plays {argv : List Str} {vars vars' : CmdState D} (h : app.parse argv vars = .ok vars') :
    ∃ s, app.parseLoop.Plays TokenUse.tokens ⟨vars, [], fun _ => 0⟩ (app.parseUses argv vars) s ∧
      s.active_chain = chainOf (app.parseUses argv vars) ∧
      (finishSteps s.active_chain).foldlM (app.runStep s.active_chain) s.vars = .ok vars' := by
  obtain ⟨s, _, hrun, _⟩ := parse_ok h
  have hplays := TokenLoop.plays_of_run parseLoop_all parseLoop_own parseLoop_steady hrun
  refine ⟨s, hplays, plays_chain hplays, ?_⟩
  cases argv with
  | nil => cases h
  | cons cmd_name args => exact (parse_of_reads ⟨cmd_name, args, rfl, hrun⟩).symm.trans h

variable {argv : List Str} {vars vars' : CmdState D}

/-- An option that was given a value holds the last one. -/
theorem parse_given (h : app.parse argv vars = .ok vars') {before after : List TokenUse} {use : TokenUse} {raw : Str}
    (huses : app.parseUses argv vars = before ++ use :: after) (hgiven : use.given = some (o, raw))
    (hlast : ∀ later ∈ after, later.option ≠ some o) (hat : app.option? o = some option)
    (hsetter : option.setter = some (var.setter T)) (howns : app.Owns o var (chainOf (app.parseUses argv vars))) :
    option.decode T raw = .ok (var.get vars'.dest) := by
  obtain ⟨s, hplays, hchain, hsteps⟩ := parse_plays h
  rw [← hchain] at howns
  rw [huses] at hplays
  obtain ⟨hvalue, hused⟩ := plays_give hplays hgiven hlast hat hsetter howns
  rw [steps_leave howns (Or.inl hused) hsteps]
  exact hvalue

/-- An option that was left out holds its default. -/
theorem parse_omitted (h : app.parse argv vars = .ok vars')
    (hno : ∀ use ∈ app.parseUses argv vars, use.option ≠ some o)
    (hlevel : o.path <+: chainOf (app.parseUses argv vars)) (hunused : vars.isUsed o = false) {text : Str}
    (htext : vars.default_value o = some text) (hat : app.option? o = some option)
    (hsetter : option.setter = some (var.setter T)) (howns : app.Owns o var (chainOf (app.parseUses argv vars))) :
    option.decode T text = .ok (var.get vars'.dest) := by
  obtain ⟨s, hplays, hchain, hsteps⟩ := parse_plays h
  rw [← hchain] at howns hlevel
  obtain ⟨_, hused, htexts⟩ := plays_leave hplays howns hno
  exact steps_fill howns hlevel hat hsetter (hused.trans hunused) (by rw [htexts, htext]) hsteps

/-- An option that was left out and has no default keeps its variable as it was. -/
theorem parse_unset (h : app.parse argv vars = .ok vars')
    (hno : ∀ use ∈ app.parseUses argv vars, use.option ≠ some o) (hnone : vars.default_value o = none)
    (howns : app.Owns o var (chainOf (app.parseUses argv vars))) : var.get vars'.dest = var.get vars.dest := by
  obtain ⟨s, hplays, hchain, hsteps⟩ := parse_plays h
  rw [← hchain] at howns
  obtain ⟨hget, _, htexts⟩ := plays_leave hplays howns hno
  rw [steps_leave howns (Or.inr ((congrFun htexts o).trans hnone)) hsteps]
  exact hget

/-- Whatever state `parse` starts from, each token is used properly. -/
theorem parse_proper (h : app.parse argv vars = .ok vars') : ∀ before use after,
    app.parseUses argv vars = before ++ use :: after → app.Proper before use := by
  obtain ⟨s, _, hrun, _⟩ := parse_ok h
  -- the marks are set to those of the uses, where the state had others
  let tracked (before : List TokenUse) (s : ParseState D) : ParseState D :=
    { s with vars := { s.vars with isUsed := used before } }
  refine (TokenLoop.run_ok (fun before s => (tracked before s).Tracks before) app.Proper ?_ ⟨rfl, rfl, rfl⟩ hrun).2
  intro before s token next use s' hs hread hact
  obtain ⟨vars, hperform, rfl⟩ := parseLoop_act hact
  have htoken := parseLoop_read hread
  have hchain : s.active_chain = chainOf before := hs.chain
  have hindex : s.positional_index = taken before := hs.positionals
  rw [hchain, hindex] at htoken
  refine ⟨readToken_proper htoken (perform_valued hperform), ?_⟩
  have hnext : (ParseState.advance (tracked before s) { vars with isUsed := used (before ++ [use]) } use).Tracks
      (before ++ [use]) := hs.advance fun o => used_append before use o
  cases use with
  | _ => exact ⟨hnext.chain, hnext.positionals, rfl⟩

/-- What `parse` marks are the options that the tokens name. -/
theorem plays_marks (h : app.parseLoop.Plays TokenUse.tokens s uses s') (hused : s'.vars.isUsed o = true) :
    s.vars.isUsed o = true ∨ ∃ use ∈ uses, use.option = some o := by
  induction h with
  | nil s => exact Or.inl hused
  | @cons s t s' use later hread hact rest ih =>
    obtain ⟨_, assign, _, rfl⟩ := parseLoop_act_ok.mp hact
    by_cases hnamed : use.option = some o
    · exact Or.inr ⟨use, List.mem_cons_self, hnamed⟩
    · rcases ih hused with hbefore | ⟨later', hmem, hlater⟩
      · left
        rwa [s.give_unnamed use assign hnamed] at hbefore
      · exact Or.inr ⟨later', List.mem_cons_of_mem _ hmem, hlater⟩

/-- A required option of an active subcommand is used, if no superior one is. -/
theorem parse_requires (h : app.parse argv vars = .ok vars')
    (hlevel : o.path <+: chainOf (app.parseUses argv vars)) (hpath : o.path ≠ []) (hat : app.option? o = some option)
    (hrequired : option.is_required = true) (hunused : ∀ o', o.path <+: o'.path → vars.isUsed o' = false)
    (hsuperior : ∀ o' other, o.path <+: o'.path → app.option? o' = some other → other.superior = true →
      ∀ use ∈ app.parseUses argv vars, use.option ≠ some o') :
    ∃ use ∈ app.parseUses argv vars, use.option = some o := by
  obtain ⟨s, hplays, hchain, hsteps⟩ := parse_plays h
  rw [← hchain] at hlevel
  have hnamed : ∀ o', o.path <+: o'.path → s.vars.isUsed o' = true →
      ∃ use ∈ app.parseUses argv vars, use.option = some o' := by
    intro o' ho' hused
    rcases plays_marks hplays hused with hbefore | hmem
    · rw [hunused o' ho'] at hbefore
      cases hbefore
    · exact hmem
  have hmem : FinishStep.required o.path ∈ finishSteps s.active_chain := by
    refine List.mem_append_right _ (List.mem_flatMap.mpr ⟨o.path, mem_inits_tail.mpr ⟨hlevel, hpath⟩, ?_⟩)
    simp [activeSteps]
  have hmet : app.Met s.active_chain s.vars.isUsed (.required o.path) :=
    not_not.mp ((steps_ok_iff (List.append_nil _).symm).mp ⟨vars', hsteps⟩ _ hmem)
  rcases hmet with ⟨_, o', other, hbelow, hother, hsup, hused⟩ | hall
  · obtain ⟨use, hmem, hnames⟩ := hnamed o' hbelow hused
    exact absurd hnames (hsuperior o' other hbelow hother hsup use hmem)
  · exact hnamed o (List.prefix_refl _) (hall o.index option hat hrequired)

/-- The value that goes to an option was accepted. -/
theorem parse_accepts (h : app.parse argv vars = .ok vars') {use : TokenUse} (hmem : use ∈ app.parseUses argv vars)
    (ho : use.option = some o) : ∃ raw assign, use.given = some (o, raw) ∧ app.accept o raw = .ok assign := by
  obtain ⟨v, hv, rfl⟩ := List.mem_map.mp hmem
  obtain ⟨s, _, hrun, _⟩ := parse_ok h
  obtain ⟨t, hact⟩ := TokenLoop.acted_of_run_ok hrun hv
  obtain ⟨hvalued, assign, hassign, _⟩ := parseLoop_act_ok.mp hact
  rw [assignment] at hassign
  cases huse : v.use with
  | subcommand token index =>
    rw [huse] at ho
    cases ho
  | valueless token next o' => exact absurd huse (hvalued _ _ _)
  | flag token o' | equals token raw o' | separate token raw o' | positional raw o' =>
    rw [huse] at ho hassign
    cases ho
    exact ⟨_, assign, rfl, hassign⟩

/-- An option whose names have no dash only takes positional values. -/
theorem parse_positional (h : app.parse argv vars = .ok vars') (hat : app.option? o = some option)
    (hnames : ∀ name ∈ option.valid_names, name.head? ≠ some '-') {use : TokenUse}
    (hmem : use ∈ app.parseUses argv vars) (ho : use.option = some o) : ∃ token, use = .positional token o := by
  obtain ⟨before, after, hsplit⟩ := List.append_of_mem hmem
  have hproper := parse_proper h before use after hsplit
  have hunnamed : ∀ token option', ¬ app.Names (chainOf before) token o option' := by
    intro token option' hnamed
    obtain ⟨hdash, _, hat', hname⟩ := hnamed
    cases hat.symm.trans hat'
    refine hnames _ hname ?_
    obtain ⟨rest, rfl⟩ := List.head?_eq_some_iff.mp hdash
    rfl
  cases use with
  | subcommand token index => cases ho
  | valueless token next o' => exact hproper.elim
  | positional token o' =>
    cases ho
    exact ⟨token, rfl⟩
  | flag token o' | equals token arg_value o' | separate token value o' =>
    cases ho
    obtain ⟨option', hnamed, _⟩ := hproper
    exact absurd hnamed (hunnamed _ _)

/-- It takes one at most. -/
theorem parse_positional_once (h : app.parse argv vars = .ok vars') (hat : app.option? o = some option)
    (hnames : ∀ name ∈ option.valid_names, name.head? ≠ some '-') {before after : List TokenUse} {use : TokenUse}
    (hsplit : app.parseUses argv vars = before ++ use :: after) (ho : use.option = some o) :
    ∀ other ∈ before ++ after, other.option ≠ some o := by
  have hall : ∀ other ∈ app.parseUses argv vars, other.option = some o → other.positionalOption = some o := by
    intro other hmem hother
    obtain ⟨token, rfl⟩ := parse_positional h hat hnames hmem hother
    rfl
  have honce := positionals_once (parse_proper h)
  rw [hsplit] at hall honce
  rw [List.filterMap_append, List.filterMap_cons, hall use (by simp) ho, List.nodup_middle, List.nodup_cons,
    ← List.filterMap_append] at honce
  intro other hmem hother
  have hother' : other ∈ before ++ use :: after := by
    rw [List.mem_append, List.mem_cons]
    rcases List.mem_append.mp hmem with hbefore | hafter
    · exact Or.inl hbefore
    · exact Or.inr (Or.inr hafter)
  exact honce.1 (List.mem_filterMap.mpr ⟨other, hmem, hall other hother' hother⟩)

/-- What the early pass leaves as it was. -/
structure EarlyKept (var : Variable D) (vars vars' : CmdState D) : Prop where
  isUsed : ∀ o : OptRef, o.path ≠ [] → vars'.isUsed o = vars.isUsed o
  default_value : ∀ o : OptRef, o.path ≠ [] → vars'.default_value o = vars.default_value o
  dest : var.get vars'.dest = var.get vars.dest

/-- The early pass does not turn to subcommands, nor to a variable that no global option has. -/
theorem parse_earlies_keeps {no_unknown_arg_error : Bool}
    (h : app.parse_earlies no_unknown_arg_error argv vars = .ok vars')
    (hleaves : ∀ option ∈ app.options, option.Leaves var) : EarlyKept var vars vars' := by
  obtain ⟨marked, hloop, hrest⟩ := Checks.bind_ok_iff.mp h
  obtain ⟨_, _, hdefaults⟩ := Checks.bind_ok_iff.mp hrest
  have hmarked : EarlyKept var vars marked := by
    refine (TokenLoop.run_ok (fun _ s => EarlyKept var vars s) (fun _ _ => True) ?_
      ⟨fun _ _ => rfl, fun _ _ => rfl, rfl⟩ hloop).1
    intro before s token next use s' hs hread hact
    obtain ⟨⟨k, option, ho, hat, _⟩, _⟩ := readEarly_isEarly hread
    have hused : ∀ o : OptRef, o.path ≠ [] → s'.isUsed o = s.isUsed o := by
      intro o hpath
      rw [perform_isUsed hact o, ho]
      have hne : (⟨[], k⟩ : OptRef) ≠ o := by
        rintro rfl
        exact hpath rfl
      simp [hne]
    have hdest : var.get s'.dest = var.get s.dest := by
      obtain ⟨_, assign, hassign, rfl⟩ := (perform_ok _ _ _).mp hact
      rw [assignment] at hassign
      cases hgiven : use.given with
      | none => rfl
      | some given =>
        obtain ⟨o, raw⟩ := given
        have hoption := TokenUse.given_option hgiven
        cases ho.symm.trans hoption
        have hoption' : app.option? ⟨[], k⟩ = some option := hat
        rw [hgiven] at hassign
        have haccept : option.accept raw = .ok assign := (accept_at hoption' raw).symm.trans hassign
        exact (hleaves option (List.mem_of_getElem? hat)).accept haccept _
    refine ⟨trivial, fun o hpath => (hused o hpath).trans (hs.isUsed o hpath), fun o hpath => ?_, hdest.trans hs.dest⟩
    rw [perform_default_value hact]
    exact hs.default_value o hpath
  refine ⟨fun o hpath => ?_, fun o hpath => ?_, ?_⟩
  · rw [setDefaults_isUsed hdefaults]
    exact hmarked.isUsed o hpath
  · exact (setDefaults_default_value hdefaults hpath).trans (hmarked.default_value o hpath)
  · have hothers : ∀ (k : Nat) other, app.options[k]? = some other → (⟨[], k⟩ : OptRef) ≠ ⟨[0], 0⟩ →
        other.Leaves var := fun k other hat _ => hleaves other (List.mem_of_getElem? hat)
    exact (setDefaults_leaves hothers (Or.inl (List.cons_ne_nil 0 []).symm) hdefaults).1.trans hmarked.dest

end App

end

end PartitionManager
