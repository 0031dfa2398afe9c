import PartitionManager.Conversions
import PartitionManager.EarlyOptions
import PartitionManager.SuperiorOptions

namespace PartitionManager

/-- What an option converts its values to, and whether they are sizes. An option
without a variable has no type. -/
structure OptionType where
  dest : Option Destination
  size : Option Bool := none
  deriving DecidableEq

namespace OptionType

variable {D : Type} (fp : Doubles) (ty : OptionType)

def transform (raw : Str) : Outcome Str := ty.size.elim (.ok raw) fun use_si => AsSizeValue fp use_si raw

def convert (text : Str) : Outcome (Option Value) :=
  match ty.dest with
  | none => .ok none
  | some T => (from_string T text).map some

/-- The option is one that the constructor makes for a variable of this type, and its
transformer is `AsSizeValue` or none. -/
structure Describes (option : CmdOption D) : Prop where
  names : option.valid_names ≠ []
  setter : ∃ assign : Option Value → D → D, option.setter = some fun raw => (ty.convert raw).map assign
  transformer : option.transformer = ty.size.map (AsSizeValue fp)

def SizeReads (raw : Str) : Prop := ty.size ≠ none → SizeText fp raw

def Reads (text : Str) : Prop := ∀ T, ty.dest = some T → T.Reads text

/-- A default is set without a check. -/
def DefaultReads (raw : Str) : Prop :=
  ty.SizeReads fp raw ∧ ∀ text, ty.transform fp raw = .ok text → ty.Reads text

/-- A given value is checked before it is converted, and the callback comes last. -/
def GivenReads (option : CmdOption D) (raw : Str) : Prop :=
  ty.SizeReads fp raw ∧ ∀ text, ty.transform fp raw = .ok text →
    Contained (option.checker.elim (.ok ()) (· text)) ∧ (option.checker.elim (.ok ()) (· text) = .ok () →
      ty.Reads text ∧ ((∃ value, ty.convert text = .ok value) → Contained (option.callback.elim (.ok ()) id)))

variable {fp ty} {option : CmdOption D}

theorem transform_contained_iff {raw : Str} : Contained (ty.transform fp raw) ↔ ty.SizeReads fp raw := by
  unfold transform SizeReads
  cases ty.size with
  | none => exact iff_of_true (contained_ok raw) fun h => absurd rfl h
  | some use_si =>
    rw [Option.elim_some, AsSizeValue_contained_iff]
    exact ⟨fun h _ => h, fun h => h (by simp)⟩

theorem convert_contained_iff {text : Str} : Contained (ty.convert text) ↔ ty.Reads text := by
  unfold convert Reads
  cases ty.dest with
  | none => exact iff_of_true (contained_ok none) fun T h => nomatch h
  | some T =>
    rw [contained_map, from_string_contained_iff]
    constructor
    · intro h T' hT'
      cases hT'
      exact h
    · intro h
      exact h T rfl

theorem transformer_elim (h : ty.Describes fp option) (raw : Str) :
    option.transformer.elim (.ok raw) (· raw) = ty.transform fp raw := by
  rw [h.transformer, transform]
  cases ty.size <;> rfl

theorem accept_contained_iff (h : ty.Describes fp option) {raw : Str} :
    Contained (option.accept raw) ↔ ty.GivenReads fp option raw := by
  obtain ⟨assign, hsetter⟩ := h.setter
  rw [CmdOption.accept, transformer_elim h, contained_bind, transform_contained_iff, GivenReads]
  refine and_congr_right fun _ => forall_congr' fun text => imp_congr_right fun _ => ?_
  rw [contained_bind]
  refine and_congr_right fun _ => ?_
  simp only [hsetter, Option.elim_some]
  constructor
  · intro hrest hcheck
    obtain ⟨hconvert, hcall⟩ := contained_bind.mp (hrest () hcheck)
    refine ⟨convert_contained_iff.mp (contained_map.mp hconvert), ?_⟩
    intro hvalue
    obtain ⟨value, hvalue⟩ := hvalue
    exact (contained_bind.mp (hcall (assign value) (by rw [hvalue]; rfl))).1
  · intro hrest _ hcheck
    obtain ⟨hreads, hcall⟩ := hrest hcheck
    refine contained_bind.mpr ⟨contained_map.mpr (convert_contained_iff.mpr hreads), ?_⟩
    intro f hf
    refine contained_bind.mpr ⟨hcall ?_, fun _ _ => contained_ok _⟩
    cases hvalue : ty.convert text with
    | error stop =>
      rw [hvalue] at hf
      cases hf
    | ok value => exact ⟨value, rfl⟩

theorem acceptDefault_contained_iff (h : ty.Describes fp option) {raw : Str} :
    Contained (option.acceptDefault raw) ↔ ty.DefaultReads fp raw := by
  obtain ⟨assign, hsetter⟩ := h.setter
  rw [CmdOption.acceptDefault, transformer_elim h, contained_bind, transform_contained_iff, DefaultReads]
  refine and_congr_right fun _ => forall_congr' fun text => imp_congr_right fun _ => ?_
  simp only [hsetter, Option.elim_some]
  rw [contained_bind, contained_map, convert_contained_iff]
  exact and_iff_left fun _ _ => contained_ok _

end OptionType

section

variable {D : Type} (fp : Doubles) (typing : OptRef → OptionType) (app : App D)

/-- Every option is one that a constructor makes. -/
def App.Typed : Prop := ∀ o option, app.option? o = some option → (typing o).Describes fp option

/-- A use has a value to look at, and one that its option can convert or refuses. -/
structure App.UseReads (use : TokenUse) : Prop where
  valued : ∀ token next o, use = .valueless token next o → next ≠ some []
  given : ∀ o raw, use.given = some (o, raw) → ∀ option, app.option? o = some option →
    (typing o).GivenReads fp option raw

/-- A pass can read every token that it turns to. -/
def App.TokensRead {σ : Type} (loop : TokenLoop Str TokenUse σ Stop) (args : List Str) (s : σ) : Prop :=
  ∀ t ∈ loop.turns args false s, t.token ≠ [] ∧
    ∀ use, loop.read t.state t.token t.next = .ok (some use) → app.UseReads fp typing use

/-- Every default of the level that is set is one that its option can convert or refuses. -/
def App.LevelReads (vars : CmdState D) (path : List Nat) : Prop :=
  ∀ pre arg post, (app.optionsAt path).zipIdx = pre ++ arg :: post →
    (∀ earlier ∈ pre, ∀ stop, ¬ App.RefusedWith vars path earlier stop) →
    ∀ text, vars.default_value ⟨path, arg.2⟩ = some text → vars.isUsed ⟨path, arg.2⟩ = false →
      (typing ⟨path, arg.2⟩).DefaultReads fp text

/-- What `parse_earlies` gets to can be read. -/
structure App.EarliesRead (no_unknown_arg_error : Bool) (argv : List Str) (vars : CmdState D) : Prop where
  tokens : app.TokensRead fp typing (app.earlyLoop no_unknown_arg_error) argv vars
  defaults : ∀ vars', ((app.earlyLoop no_unknown_arg_error).run 0 argv false vars).2 = .ok vars' →
    (∀ (k : Nat) option, app.options[k]? = some option → (option.is_required && option.early) = true →
      vars'.isUsed ⟨[], k⟩ = true) → app.LevelReads fp typing vars' []

/-- What `parse` gets to can be read. -/
structure App.ParseReads (argv : List Str) (vars : CmdState D) : Prop where
  program : argv ≠ []
  tokens : app.TokensRead fp typing app.parseLoop argv.tail ⟨vars, [], fun _ => 0⟩
  defaults : ∀ s, app.Reads argv vars s → ∀ pre path post,
    finishSteps s.active_chain = pre ++ .defaults path :: post →
    (∀ step ∈ pre, ¬ app.Lacks s.active_chain s.vars step) → app.LevelReads fp typing s.vars path

variable {fp typing app}

theorem contained_usageError (message : Str) : (usageError message).Contained := trivial

theorem charAt0_contained_iff {token : Str} : Contained (charAt0 token) ↔ token ≠ [] := by
  cases token with
  | nil => exact iff_of_false (not_contained_raiseStd _) (by simp)
  | cons c rest => exact iff_of_true (contained_ok c) (List.cons_ne_nil c rest)

/-- Looking at a token fails badly only where it has no first character. -/
theorem App.readToken_contained_iff {active_chain : List Nat} {positional_index : List Nat → Nat} {token : Str}
    {next : Option Str} :
    Contained (app.readToken active_chain positional_index token next) ↔ token ≠ [] := by
  unfold readToken
  split
  next hhelp =>
    refine iff_of_true (contained_error.mpr trivial) ?_
    rintro rfl
    simp at hhelp
  next =>
    rw [contained_bind, charAt0_contained_iff]
    refine and_iff_left fun first _ => ?_
    split
    next =>
      split
      next => exact contained_error.mpr (contained_usageError _)
      next => exact contained_ok _
    next =>
      split
      next => exact contained_ok _
      next =>
        split
        next => exact contained_error.mpr (contained_usageError _)
        next => exact contained_ok _

theorem readEarly_contained_iff {options : List (CmdOption D)} {no_unknown_arg_error : Bool} {token : Str}
    {next : Option Str} : Contained (readEarly options no_unknown_arg_error token next) ↔ token ≠ [] := by
  unfold readEarly
  rw [contained_bind, charAt0_contained_iff]
  refine and_iff_left fun first _ => ?_
  split
  next =>
    split
    next =>
      split
      next => exact contained_ok _
      next => exact contained_error.mpr (contained_usageError _)
    next =>
      split
      next => exact contained_ok _
      next => exact contained_ok _
  next => exact contained_ok _

theorem getPositionalOption_some {index : Nat} {arg_list : List (CmdOption D)} {arg : CmdOption D × Nat}
    (h : getPositionalOption index arg_list = some arg) : arg_list[arg.2]? = some arg.1 := by
  have hmem : arg ∈ positionals arg_list := List.mem_of_getElem? h
  exact List.mem_zipIdx_iff_getElem?.mp (List.mem_filter.mp hmem).1

/-- A use is one of an option that the App has. -/
theorem App.readToken_option {active_chain : List Nat} {positional_index : List Nat → Nat} {token : Str}
    {next : Option Str} {use : TokenUse} {o : OptRef}
    (h : app.readToken active_chain positional_index token next = .ok use) (ho : use.option = some o) :
    ∃ option, app.option? o = some option := by
  rcases readToken_cases h with ⟨_, option, o', hfound, rfl⟩ | ⟨_, ⟨index, _, rfl⟩ | ⟨option, o', hfound, rfl⟩⟩
  · rw [optionUse_option] at ho
    cases ho
    exact ⟨option, (findOption_some (lookupOption_eq_some.mp hfound).2.1).1⟩
  · cases ho
  · cases ho
    exact ⟨option, getPositionalOption_some (lookupPositional_some hfound).2.1⟩

theorem App.readEarly_option {no_unknown_arg_error : Bool} {token : Str} {next : Option Str} {use : TokenUse}
    {o : OptRef} (h : readEarly app.options no_unknown_arg_error token next = .ok (some use))
    (ho : use.option = some o) : ∃ option, app.option? o = some option := by
  obtain ⟨_, option, k, hfound, _, rfl⟩ := readEarly_some h
  rw [optionUse_option] at ho
  cases ho
  exact ⟨option, (findOption_some hfound).1⟩

theorem App.doToDoList_contained_iff (htyped : app.Typed fp typing) {o : OptRef} {option : CmdOption D} {raw : Str}
    {vars : CmdState D} (ho : app.option? o = some option) :
    Contained (app.doToDoList o raw vars) ↔ (typing o).GivenReads fp option raw := by
  rw [← OptionType.accept_contained_iff (htyped o option ho)]
  simp only [doToDoList, ho, CmdOption.doToDoList]
  rw [contained_bind]
  exact and_iff_left fun _ _ => contained_ok _

theorem App.perform_contained_iff (htyped : app.Typed fp typing) {missing : Str} {vars : CmdState D} {use : TokenUse}
    (hfound : ∀ o, use.option = some o → ∃ option, app.option? o = some option) :
    Contained (app.perform missing vars use) ↔ app.UseReads fp typing use := by
  have hdo : ∀ o raw, use.option = some o → use.given = some (o, raw) →
      (∀ token next o, use ≠ .valueless token next o) →
      (Contained (app.doToDoList o raw vars) ↔ app.UseReads fp typing use) := by
    intro o raw ho hgiven hvalue
    obtain ⟨option, hoption⟩ := hfound o ho
    rw [doToDoList_contained_iff htyped hoption]
    constructor
    · intro h
      refine ⟨fun token next o huse => absurd huse (hvalue token next o), ?_⟩
      intro o' raw' hgiven' option' hoption'
      cases hgiven.symm.trans hgiven'
      cases hoption.symm.trans hoption'
      exact h
    · intro h
      exact h.given o raw hgiven option hoption
  cases use with
  | subcommand token index =>
    refine iff_of_true (contained_ok vars) ⟨fun _ _ _ h => (nomatch h), fun _ _ h => (nomatch h)⟩
  | valueless token next o =>
    have hmissing : (missingValue missing token next).Contained ↔ next ≠ some [] := by
      unfold missingValue
      split
      next hnext => exact iff_of_false (fun h => h) (not_not_intro hnext)
      next hnext => exact iff_of_true trivial hnext
    rw [perform, contained_error, hmissing]
    constructor
    · intro h
      refine ⟨?_, fun _ _ h => nomatch h⟩
      intro token' next' o' huse
      cases huse
      exact h
    · intro h
      exact h.valued token next o rfl
  | flag token o | equals token arg_value o | separate token value o | positional token o =>
    exact hdo o _ rfl rfl fun _ _ _ h => nomatch h

/-- A pass over the tokens ends as it should exactly if it can read what it gets to. -/
theorem App.run_contained_iff {σ : Type} {loop : TokenLoop Str TokenUse σ Stop}
    (hread : ∀ s token next, Contained (loop.read s token next) ↔ token ≠ [])
    (hact : ∀ s token next use, loop.read s token next = .ok (some use) →
      (Contained (loop.act s use) ↔ app.UseReads fp typing use))
    {index : Nat} {args : List Str} {s : σ} :
    Contained (loop.run index args false s).2 ↔ app.TokensRead fp typing loop args s := by
  constructor
  · intro h t ht
    have hstops : ∀ stop, loop.Stops t stop → stop.Contained :=
      fun stop hstop => h stop (TokenLoop.run_error_iff.mpr ⟨t, ht, hstop⟩)
    refine ⟨(hread t.state t.token t.next).mp fun stop hstop => hstops stop (Or.inl hstop), ?_⟩
    intro use huse
    exact (hact t.state t.token t.next use huse).mp fun stop hstop => hstops stop (Or.inr ⟨use, huse, hstop⟩)
  · intro h stop hstop
    obtain ⟨t, ht, hstops⟩ := TokenLoop.run_error_iff.mp hstop
    obtain ⟨htoken, huses⟩ := h t ht
    rcases hstops with hstops | ⟨use, huse, hstops⟩
    · exact (hread t.state t.token t.next).mpr htoken stop hstops
    · exact (hact t.state t.token t.next use huse).mpr (huses use huse) stop hstops

theorem requireOptions_contained {message : Str} {due : CmdOption D → Bool} {path : List Nat}
    {options : List (CmdOption D)} {isUsed : OptRef → Bool} (hnames : ∀ option ∈ options, option.valid_names ≠ []) :
    Contained (requireOptions message due path options isUsed) := by
  unfold requireOptions
  split
  next => exact contained_ok ()
  next arg hfound =>
    have hmem := List.mem_of_find?_eq_some hfound
    have hname := hnames arg.1 (List.mem_of_getElem? (List.mem_zipIdx_iff_getElem?.mp hmem))
    cases hlist : arg.1.valid_names with
    | nil => exact absurd hlist hname
    | cons name names => exact contained_error.mpr (contained_usageError _)

theorem App.Typed.names (htyped : app.Typed fp typing) {path : List Nat} :
    ∀ option ∈ app.optionsAt path, option.valid_names ≠ [] := by
  intro option hmem
  obtain ⟨k, hk⟩ := List.mem_iff_getElem?.mp hmem
  exact (htyped ⟨path, k⟩ option hk).names

theorem OptionGroup.validate_contained {group : OptionGroup} {isUsed : OptRef → Bool} :
    Contained (group.validate isUsed) := by
  unfold validate
  split
  next => exact contained_ok ()
  next =>
    split
    next => exact contained_error.mpr (contained_usageError _)
    next =>
      split
      next => exact contained_error.mpr (contained_usageError _)
      next => exact contained_ok ()

theorem validateGroups_contained {groups : List OptionGroup} {isUsed : OptRef → Bool} :
    Contained (validateGroups groups isUsed) := by
  induction groups with
  | nil => exact contained_ok ()
  | cons group groups ih => exact contained_bind.mpr ⟨OptionGroup.validate_contained, fun _ _ => ih⟩

theorem App.setDefaults_contained_iff (htyped : app.Typed fp typing) {vars : CmdState D} {path : List Nat} :
    Contained (setDefaults path (app.optionsAt path) vars) ↔ app.LevelReads fp typing vars path := by
  have hat : ∀ pre arg post, (app.optionsAt path).zipIdx = pre ++ arg :: post →
      app.option? ⟨path, arg.2⟩ = some arg.1 := by
    intro pre arg post hsplit
    have hmem : arg ∈ (app.optionsAt path).zipIdx := by
      rw [hsplit]
      simp
    exact List.mem_zipIdx_iff_getElem?.mp hmem
  constructor
  · intro h pre arg post hsplit hpre text htext hunused
    apply (OptionType.acceptDefault_contained_iff (htyped _ _ (hat pre arg post hsplit))).mp
    intro stop hstop
    exact h stop (setDefaults_error_iff.mpr ⟨pre, arg, post, hsplit, ⟨text, htext, hunused, hstop⟩, hpre⟩)
  · intro h stop hstop
    obtain ⟨pre, arg, post, hsplit, ⟨text, htext, hunused, hrefused⟩, hpre⟩ := setDefaults_error_iff.mp hstop
    have hreads := h pre arg post hsplit hpre text htext hunused
    exact (OptionType.acceptDefault_contained_iff (htyped _ _ (hat pre arg post hsplit))).mpr hreads stop hrefused

/-- Of the steps after the tokens, only those that set defaults can end otherwise. -/
theorem App.runStep_contained (htyped : app.Typed fp typing) {active_chain : List Nat} {vars : CmdState D}
    {step : FinishStep} (hstep : step.isObligation = true) : Contained (app.runStep active_chain vars step) := by
  cases step with
  | defaults path => cases hstep
  | required path => exact contained_bind.mpr ⟨requireOptions_contained htyped.names, fun _ _ => contained_ok _⟩
  | groups path => exact contained_bind.mpr ⟨validateGroups_contained, fun _ _ => contained_ok _⟩
  | nested path =>
    simp only [runStep]
    split
    next => exact contained_error.mpr (contained_usageError _)
    next => exact contained_ok _

theorem App.levelReads_congr {vars vars' : CmdState D} {path : List Nat} (hused : vars'.isUsed = vars.isUsed)
    (hvalue : ∀ k, vars'.default_value ⟨path, k⟩ = vars.default_value ⟨path, k⟩) :
    app.LevelReads fp typing vars' path ↔ app.LevelReads fp typing vars path := by
  unfold LevelReads RefusedWith
  simp only [hused, hvalue]

theorem App.steps_contained_iff (htyped : app.Typed fp typing) {active_chain : List Nat} {vars : CmdState D} :
    Contained ((finishSteps active_chain).foldlM (app.runStep active_chain) vars) ↔
      ∀ pre path post, finishSteps active_chain = pre ++ .defaults path :: post →
        (∀ step ∈ pre, ¬ app.Lacks active_chain vars step) → app.LevelReads fp typing vars path := by
  have hlevel : ∀ pre path post c, finishSteps active_chain = pre ++ .defaults path :: post →
      pre.foldlM (app.runStep active_chain) vars = .ok c →
      (Contained (app.runStep active_chain c (.defaults path)) ↔ app.LevelReads fp typing vars path) := by
    intro pre path post c hsplit hpre
    have hc := steps_untouched hsplit hpre
    have hnew := finishSteps_fresh hsplit
    rw [runStep, setDefaults_contained_iff htyped, levelReads_congr hc.1 fun k => hc.2 ⟨path, k⟩ hnew]
  constructor
  · intro h pre path post hsplit hpre
    obtain ⟨c, hc⟩ := (steps_ok_iff hsplit).mpr hpre
    apply (hlevel pre path post c hsplit hc).mp
    intro stop hstop
    exact h stop (Checks.foldlM_error_iff.mpr ⟨pre, .defaults path, post, c, hsplit, hc, hstop⟩)
  · intro h stop hstop
    obtain ⟨pre, step, post, c, hsplit, hc, hstep⟩ := Checks.foldlM_error_iff.mp hstop
    cases step with
    | defaults path =>
      have hreads := h pre path post hsplit ((steps_ok_iff hsplit).mp ⟨c, hc⟩)
      exact (hlevel pre path post c hsplit hc).mpr hreads stop hstep
    | _ => exact runStep_contained htyped rfl stop hstep

theorem App.parse_contained_iff (htyped : app.Typed fp typing) {argv : List Str} {vars : CmdState D} :
    Contained (app.parse argv vars) ↔ app.ParseReads fp typing argv vars := by
  cases argv with
  | nil => exact iff_of_false (fun h => h _ rfl) fun h => h.program rfl
  | cons cmd_name args =>
    have hloop : Contained (app.parseLoop.run 1 args false ⟨vars, [], fun _ => 0⟩).2 ↔
        app.TokensRead fp typing app.parseLoop args ⟨vars, [], fun _ => 0⟩ := by
      refine run_contained_iff (fun s token next => ?_) fun s token next use hread => ?_
      · exact contained_map.trans readToken_contained_iff
      · refine (contained_bind.trans (and_iff_left fun _ _ => contained_ok _)).trans ?_
        exact perform_contained_iff htyped fun o ho => readToken_option (parseLoop_read hread) ho
    cases hrun : (app.parseLoop.run 1 args false ⟨vars, [], fun _ => 0⟩).2 with
    | error stop =>
      have hparse : app.parse (cmd_name :: args) vars = .error stop := by
        simp only [parse, hrun]
        rfl
      rw [hparse]
      rw [hrun] at hloop
      rw [contained_error] at hloop ⊢
      constructor
      · intro h
        refine ⟨List.cons_ne_nil _ _, hloop.mp h, ?_⟩
        intro s hs
        obtain ⟨_, _, hargv, hs⟩ := hs
        cases hargv
        rw [hrun] at hs
        cases hs
      · intro h
        exact hloop.mpr h.tokens
    | ok s =>
      have hs : app.Reads (cmd_name :: args) vars s := ⟨cmd_name, args, rfl, hrun⟩
      rw [hrun] at hloop
      rw [parse_of_reads hs, steps_contained_iff htyped]
      constructor
      · intro h
        refine ⟨List.cons_ne_nil _ _, hloop.mp (contained_ok s), ?_⟩
        intro s' hs'
        obtain ⟨_, _, hargv, hs'⟩ := hs'
        cases hargv
        cases hrun.symm.trans hs'
        exact h
      · intro h
        exact h.defaults s hs

theorem App.parse_earlies_contained_iff (htyped : app.Typed fp typing) {no_unknown_arg_error : Bool}
    {argv : List Str} {vars : CmdState D} :
    Contained (app.parse_earlies no_unknown_arg_error argv vars) ↔
      app.EarliesRead fp typing no_unknown_arg_error argv vars := by
  have hloop : Contained ((app.earlyLoop no_unknown_arg_error).run 0 argv false vars).2 ↔
      app.TokensRead fp typing (app.earlyLoop no_unknown_arg_error) argv vars := by
    refine run_contained_iff (fun s token next => readEarly_contained_iff) fun s token next use hread => ?_
    exact perform_contained_iff htyped fun o ho => readEarly_option hread ho
  have hrest : ∀ vars', Contained (do
      requireOptions "Missing required early option: " (fun option => option.is_required && option.early) []
        app.options vars'.isUsed
      setDefaults [] app.options vars') ↔
      ((∀ (k : Nat) option, app.options[k]? = some option → (option.is_required && option.early) = true →
        vars'.isUsed ⟨[], k⟩ = true) → app.LevelReads fp typing vars' []) := by
    intro vars'
    have hnames : ∀ option ∈ app.optionsAt [], option.valid_names ≠ [] := htyped.names
    change ∀ option ∈ app.options, option.valid_names ≠ [] at hnames
    rw [contained_bind, and_iff_right (requireOptions_contained hnames), ← setDefaults_contained_iff htyped,
      ← requireOptions_ok_iff]
    exact ⟨fun h hok => h () hok, fun h _ hok => h hok⟩
  rw [parse_earlies, contained_bind, hloop]
  simp only [hrest]
  exact ⟨fun h => ⟨h.1, h.2⟩, fun h => ⟨h.tokens, h.defaults⟩⟩

/-- When a command line, however malformed, ends in nothing but what `main` catches. -/
theorem malformed_args_contained_iff (htyped : app.Typed fp typing) (no_unknown_arg_error : Bool) (argv : List Str)
    (vars vars' : CmdState D) :
    (Contained (app.parse_earlies no_unknown_arg_error argv vars) ∧ Contained (app.parse argv vars')) ↔
      app.EarliesRead fp typing no_unknown_arg_error argv vars ∧ app.ParseReads fp typing argv vars' := by
  rw [App.parse_earlies_contained_iff htyped, App.parse_contained_iff htyped]

end

/-- Sizes that are whole numbers. -/
def wholeDoubles : Doubles where
  Double := Nat
  strtod s := some (digitsValue (s.takeWhile Char.isDigit))
  toUInt64 num multiplier := UInt64.ofNat (num * multiplier.toNat)

/-- A part of the command line of the `backup` plugin, with the type of each variable. -/
def backupType (o : OptRef) : OptionType :=
  if o = ⟨[0], 1⟩ then { dest := some .unsigned_long_long, size := some false }
  else { dest := some .vector_string }

def assignTo (name : Str) (value : Option Value) (vars : List (Str × Option Value)) : List (Str × Option Value) :=
  (name, value) :: vars

def backupApp (fp : Doubles) : App (List (Str × Option Value)) where
  options := []
  subcommands := [
    { name := "backup"
      options := [
        { valid_names := ["partition(s)"], is_positional := true, is_required := true,
          setter := some fun raw => ((backupType ⟨[0], 0⟩).convert raw).map (assignTo "partitions") },
        { valid_names := ["-b", "--buffer-size"], transformer := some (AsSizeValue fp false),
          default_value := some "1MB",
          setter := some fun raw => ((backupType ⟨[0], 1⟩).convert raw).map (assignTo "bufferSize") }]
      subcommands := []
      requires_subcommand := false
      groups := [] }]
  groups := []
  auto_help_enabled := true

theorem backupApp_typed (fp : Doubles) : (backupApp fp).Typed fp backupType := by
  intro o option ho
  obtain ⟨path, index⟩ := o
  match path with
  | [] => cases ho
  | [0] =>
    match index with
    | 0 =>
      cases ho
      exact ⟨List.cons_ne_nil _ _, ⟨_, rfl⟩, rfl⟩
    | 1 =>
      cases ho
      exact ⟨List.cons_ne_nil _ _, ⟨_, rfl⟩, rfl⟩
    | index + 2 => cases ho
  | 0 :: i :: path => cases ho
  | (i + 1) :: path => cases ho

theorem malformed_args_contained_backup :
    (∃ vars, (backupApp wholeDoubles).parse ["pmt", "backup", "boot", "-b", "4K"]
      ((backupApp wholeDoubles).fresh []) = .ok vars) ∧
    ((Contained ((backupApp wholeDoubles).parse_earlies true ["pmt", "backup", "boot", "-b", "4K"]
          ((backupApp wholeDoubles).fresh [])) ∧
        Contained ((backupApp wholeDoubles).parse ["pmt", "backup", "boot", "-b", "4K"]
          ((backupApp wholeDoubles).fresh []))) ↔
      (backupApp wholeDoubles).EarliesRead wholeDoubles backupType true ["pmt", "backup", "boot", "-b", "4K"]
          ((backupApp wholeDoubles).fresh []) ∧
        (backupApp wholeDoubles).ParseReads wholeDoubles backupType ["pmt", "backup", "boot", "-b", "4K"]
          ((backupApp wholeDoubles).fresh [])) :=
  ⟨⟨_, rfl⟩, malformed_args_contained_iff (backupApp_typed wholeDoubles) true _ _ _⟩

/-- An empty argument ends the early pass, and a size without a number the second one,
with an exception that nothing catches. -/
theorem backup_arguments_escape : (backupApp wholeDoubles).Typed wholeDoubles backupType ∧
    (backupApp wholeDoubles).parse_earlies true ["pmt", ""] ((backupApp wholeDoubles).fresh []) =
      raiseStd .out_of_range ∧
    ¬ Contained ((backupApp wholeDoubles).parse_earlies true ["pmt", ""] ((backupApp wholeDoubles).fresh [])) ∧
    (backupApp wholeDoubles).parse ["pmt", "backup", "boot", "-b", "abc"] ((backupApp wholeDoubles).fresh []) =
      raiseStd .invalid_argument ∧
    ¬ Contained ((backupApp wholeDoubles).parse ["pmt", "backup", "boot", "-b", "abc"]
      ((backupApp wholeDoubles).fresh [])) := by
  refine ⟨backupApp_typed wholeDoubles, rfl, ?_, rfl, ?_⟩
  · exact not_contained_raiseStd StdException.out_of_range
  · exact not_contained_raiseStd StdException.invalid_argument

end PartitionManager
