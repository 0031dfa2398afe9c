import PartitionManager.Library.Checks
import PartitionManager.ParseGuarantee

namespace PartitionManager

/-- What `parse` does after its token loop, by the level of the tree it is about. -/
inductive FinishStep where
  | required (path : List Nat)
  | defaults (path : List Nat)
  | groups (path : List Nat)
  | nested (path : List Nat)
  deriving DecidableEq

/-- The step looks for something mandatory. -/
def FinishStep.isObligation : FinishStep → Bool
  | defaults _ => false
  | _ => true

def activeSteps (path : List Nat) : List FinishStep :=
  [.nested path, .required path, .groups path, .defaults path]

/-- The steps in their order: those of the App, then those of each active subcommand. -/
def finishSteps (active_chain : List Nat) : List FinishStep :=
  [.required [], .defaults [], .groups []] ++ active_chain.inits.tail.flatMap activeSteps

section

variable {D : Type} (app : App D)

namespace App

/-- Whether a subcommand lets its obligations go. The App never does. -/
def waives (isUsed : OptRef → Bool) (path : List Nat) : Bool :=
  path ≠ [] && (app.level path).any fun cmd => cmd.anySuperiorIsUsed isUsed path

def requiredMessage (path : List Nat) : Str :=
  if path = [] then "Missing required option: " else "Missing required subcommand option: "

def runStep (active_chain : List Nat) (vars : CmdState D) : FinishStep → Outcome (CmdState D)
  | .required path => do
    requireOptions (requiredMessage path) (fun option => option.is_required && !app.waives vars.isUsed path) path
      (app.optionsAt path) vars.isUsed
    .ok vars
  | .defaults path => setDefaults path (app.optionsAt path) vars
  | .groups path => do
    validateGroups (app.groupsAt path) vars.isUsed
    .ok vars
  | .nested path =>
    if ((app.level path).any fun cmd => cmd.requires_subcommand) && !app.waives vars.isUsed path &&
        path = active_chain then
      .error (usageError ("Subcommand '" ++ app.getFullPath path ++ "' requires a nested subcommand."))
    else .ok vars

/-- All tokens were recognised and given their values. -/
def Reads (argv : List Str) (vars : CmdState D) (s : ParseState D) : Prop :=
  ∃ cmd_name args, argv = cmd_name :: args ∧ (app.parseLoop.run 1 args false ⟨vars, [], fun _ => 0⟩).2 = .ok s

/-- A superior option of the App or of an active subcommand is used. -/
def SuperiorIsUsed (s : ParseState D) : Prop :=
  ∃ o option, o.path <+: s.active_chain ∧ app.option? o = some option ∧ option.superior = true ∧
    s.vars.isUsed o = true

/-- `parse` ends with an error about something mandatory: the first of the steps after
the tokens that fails is such a check. -/
def RaisesObligation (argv : List Str) (vars : CmdState D) (s : ParseState D) : Prop :=
  ∃ stop pre step post vars', finishSteps s.active_chain = pre ++ step :: post ∧ step.isObligation = true ∧
    pre.foldlM (app.runStep s.active_chain) s.vars = .ok vars' ∧
    app.runStep s.active_chain vars' step = .error stop ∧ app.parse argv vars = .error stop

/-- A used superior option waives every obligation. -/
def SuperiorWaives (argv : List Str) (vars : CmdState D) : Prop :=
  ∀ s, app.Reads argv vars s → app.SuperiorIsUsed s → ¬ app.RaisesObligation argv vars s

/-- A superior option of the subcommand at `path`, or of one below it, is used. -/
def WaivedAt (isUsed : OptRef → Bool) (path : List Nat) : Prop :=
  ∃ o option, path <+: o.path ∧ app.option? o = some option ∧ option.superior = true ∧ isUsed o = true

/-- What a check asks for is there, or it is one that a superior option waives. -/
def Met (active_chain : List Nat) (isUsed : OptRef → Bool) : FinishStep → Prop
  | .required path => (path ≠ [] ∧ app.WaivedAt isUsed path) ∨ ∀ (k : Nat) option,
      (app.optionsAt path)[k]? = some option → option.is_required = true → isUsed ⟨path, k⟩ = true
  | .defaults _ => True
  | .groups path => ∀ group ∈ app.groupsAt path, group.InBounds isUsed
  | .nested path => path = active_chain → ∀ cmd, app.level path = some cmd → cmd.requires_subcommand = true →
      app.WaivedAt isUsed path

/-- The default of an unused option of the level is one that the option does not accept. -/
def DefaultRefused (vars : CmdState D) (path : List Nat) : Prop :=
  ∃ (k : Nat) (option : CmdOption D) (text : Str) (stop : Stop), (app.optionsAt path)[k]? = some option ∧
    vars.default_value ⟨path, k⟩ = some text ∧ vars.isUsed ⟨path, k⟩ = false ∧
    option.acceptDefault text = .error stop

/-- Every obligation is met or waived, or comes after a default that is refused. -/
def ObligationsMet (s : ParseState D) : Prop :=
  ∀ pre step post, finishSteps s.active_chain = pre ++ step :: post →
    app.Met s.active_chain s.vars.isUsed step ∨
      ∃ path, FinishStep.defaults path ∈ pre ∧ app.DefaultRefused s.vars path

end App

end

section

variable {D : Type} {app : App D}

theorem Subcommand.nested_prefix {cmd sub : Subcommand D} {path below : List Nat}
    (h : cmd.nested (path ++ below) = some sub) : ∃ middle, cmd.nested path = some middle := by
  rw [nested_bind] at h
  obtain ⟨middle, hmiddle, _⟩ := Option.bind_eq_some_iff.mp h
  exact ⟨middle, hmiddle⟩

theorem Subcommand.anyNested_of_any {isUsed : OptRef → Bool} {path : List Nat} {subcommands : List (Subcommand D)}
    {child : Subcommand D} {i index : Nat} (hchild : subcommands[i]? = some child)
    (h : child.anySuperiorIsUsed isUsed (path ++ [index + i]) = true) :
    anyNestedSuperior isUsed path index subcommands = true := by
  induction subcommands generalizing i index with
  | nil => cases hchild
  | cons cmd rest ih =>
    rw [anyNestedSuperior, Bool.or_eq_true]
    cases i with
    | zero =>
      cases hchild
      exact Or.inl h
    | succ i =>
      refine Or.inr (ih hchild ?_)
      rwa [Nat.add_right_comm, Nat.add_assoc]

theorem Subcommand.any_of_superior {isUsed : OptRef → Bool} {sub : Subcommand D} {k : Nat} {option : CmdOption D}
    (hoption : sub.options[k]? = some option) (hsuperior : option.superior = true) (below : List Nat) :
    ∀ (cmd : Subcommand D) (path : List Nat), cmd.nested below = some sub → isUsed ⟨path ++ below, k⟩ = true →
      cmd.anySuperiorIsUsed isUsed path = true := by
  induction below with
  | nil =>
    intro cmd path hsub hused
    obtain ⟨name, options, subcommands, requires_subcommand, groups⟩ := cmd
    cases hsub
    rw [anySuperiorIsUsed, Bool.or_eq_true]
    refine Or.inl (List.any_eq_true.mpr ⟨(option, k), List.mem_zipIdx_iff_getElem?.mpr hoption, ?_⟩)
    rw [List.append_nil] at hused
    rw [hsuperior, hused]
    rfl
  | cons i below ih =>
    intro cmd path hsub hused
    obtain ⟨name, options, subcommands, requires_subcommand, groups⟩ := cmd
    rw [anySuperiorIsUsed, Bool.or_eq_true]
    rw [nested] at hsub
    cases hi : subcommands[i]? with
    | none =>
      rw [hi] at hsub
      cases hsub
    | some child =>
      rw [hi] at hsub
      have hchild := ih child (path ++ [i]) hsub (by rwa [List.append_assoc])
      refine Or.inr (anyNested_of_any hi ?_)
      rwa [Nat.zero_add]

namespace App

/-- The waiver of `parse` looks downward only. -/
theorem waives_iff {isUsed : OptRef → Bool} {path : List Nat} :
    app.waives isUsed path = true ↔ path ≠ [] ∧ app.WaivedAt isUsed path := by
  rw [waives, Bool.and_eq_true, decide_eq_true_eq, Option.any_eq_true]
  apply and_congr_right
  intro _
  constructor
  · intro h
    obtain ⟨cmd, hcmd, hany⟩ := h
    exact superior_of_any hcmd hany
  · intro h
    obtain ⟨o, option, hbelow, hoption, hsuperior, hused⟩ := h
    obtain ⟨below, hpath⟩ := hbelow
    cases hlevel : app.level o.path with
    | none =>
      simp only [option?, optionsAt, hlevel] at hoption
      cases hoption
    | some sub =>
      simp only [option?, optionsAt, hlevel] at hoption
      rw [← hpath] at hlevel
      obtain ⟨cmd, hcmd⟩ := Subcommand.nested_prefix hlevel
      have hsub := (Subcommand.nested_append hcmd below).symm.trans hlevel
      exact ⟨cmd, hcmd, Subcommand.any_of_superior hoption hsuperior below cmd path hsub (by rwa [hpath])⟩

/-- A required option is missed unless the subcommand waives it or it is used. -/
theorem requireOptions_fails_iff {message : Str} {due : CmdOption D → Bool} {path : List Nat}
    {options : List (CmdOption D)} {isUsed : OptRef → Bool} :
    (∃ stop, requireOptions message due path options isUsed = .error stop) ↔
      ¬ ∀ (k : Nat) option, options[k]? = some option → due option = true → isUsed ⟨path, k⟩ = true := by
  rw [Checks.check_error_iff, requireOptions_ok_iff]

theorem setDefault_error_iff {vars : CmdState D} {o : OptRef} {option : CmdOption D} {stop : Stop} :
    setDefault vars o option = .error stop ↔ ∃ text, vars.default_value o = some text ∧
      vars.isUsed o = false ∧ option.acceptDefault text = .error stop := by
  unfold setDefault
  cases htext : vars.default_value o with
  | none => simp
  | some text =>
    cases hused : vars.isUsed o with
    | true => simp
    | false => simp [Checks.bind_error_iff]

/-- The option is unused and does not accept its default. -/
def RefusedWith (vars : CmdState D) (path : List Nat) (arg : CmdOption D × Nat) (stop : Stop) : Prop :=
  ∃ text, vars.default_value ⟨path, arg.2⟩ = some text ∧ vars.isUsed ⟨path, arg.2⟩ = false ∧
    arg.1.acceptDefault text = .error stop

/-- No default of a level reads what another one of it leaves behind. -/
theorem setDefaults_error_iff {vars : CmdState D} {path : List Nat} {options : List (CmdOption D)} {stop : Stop} :
    setDefaults path options vars = .error stop ↔ ∃ pre arg post, options.zipIdx = pre ++ arg :: post ∧
      RefusedWith vars path arg stop ∧ ∀ earlier ∈ pre, ∀ stop', ¬ RefusedWith vars path earlier stop' := by
  let Untouched (pre : List (CmdOption D × Nat)) (c : CmdState D) : Prop :=
    c.isUsed = vars.isUsed ∧
      ∀ k, k ∉ pre.map Prod.snd → c.default_value ⟨path, k⟩ = vars.default_value ⟨path, k⟩
  have hsnd : (options.zipIdx.map Prod.snd).Nodup := by
    rw [List.zipIdx_map_snd]
    exact List.nodup_range'
  have hkeep : ∀ pre arg post c c', options.zipIdx = pre ++ arg :: post → Untouched pre c →
      setDefault c ⟨path, arg.2⟩ arg.1 = .ok c' → Untouched (pre ++ [arg]) c' := by
    intro pre arg post c c' _ hc hstep
    refine ⟨(setDefault_isUsed hstep).trans hc.1, ?_⟩
    intro k hk
    rw [List.map_append, List.mem_append, not_or] at hk
    refine (setDefault_others hstep ?_).trans (hc.2 k hk.1)
    intro heq
    exact hk.2 (List.mem_singleton.mpr (congrArg OptRef.index heq))
  have herr : ∀ pre arg post c stop, options.zipIdx = pre ++ arg :: post → Untouched pre c →
      (setDefault c ⟨path, arg.2⟩ arg.1 = .error stop ↔ RefusedWith vars path arg stop) := by
    intro pre arg post c stop hsplit hc
    have hfresh : arg.2 ∉ pre.map Prod.snd := by
      rw [hsplit, List.map_append, List.map_cons, List.nodup_middle, List.nodup_cons, List.mem_append, not_or] at hsnd
      exact hsnd.1.1
    rw [setDefault_error_iff, hc.1, hc.2 arg.2 hfresh]
    rfl
  exact Checks.foldlM_error_iff_of_err Untouched _ ⟨rfl, fun _ _ => rfl⟩ hkeep herr

theorem setDefaults_fails_iff {vars : CmdState D} {path : List Nat} :
    (∃ stop, setDefaults path (app.optionsAt path) vars = .error stop) ↔ app.DefaultRefused vars path := by
  constructor
  · intro h
    obtain ⟨stop, h⟩ := h
    obtain ⟨pre, arg, post, hsplit, ⟨text, hrefused⟩, _⟩ := setDefaults_error_iff.mp h
    have hmem : arg ∈ (app.optionsAt path).zipIdx := by
      rw [hsplit]
      simp
    exact ⟨arg.2, arg.1, text, stop, List.mem_zipIdx_iff_getElem?.mp hmem, hrefused⟩
  · intro h
    obtain ⟨k, option, text, stop, hoption, hrefused⟩ := h
    have hmem : (option, k) ∈ (app.optionsAt path).zipIdx := List.mem_zipIdx_iff_getElem?.mpr hoption
    have hsome : ∃ stop, RefusedWith vars path (option, k) stop := ⟨stop, text, hrefused⟩
    obtain ⟨pre, arg, post, hsplit, ⟨stop', hfirst⟩, hpre⟩ :=
      Checks.exists_first (fun arg => ∃ stop, RefusedWith vars path arg stop) hmem hsome
    exact ⟨stop', setDefaults_error_iff.mpr ⟨pre, arg, post, hsplit, hfirst, fun y hy => not_exists.mp (hpre y hy)⟩⟩

/-- What a step that fails lacks, judged from before the first step. -/
def Lacks (active_chain : List Nat) (vars : CmdState D) (step : FinishStep) : Prop :=
  match step with
  | .defaults path => app.DefaultRefused vars path
  | step => ¬ app.Met active_chain vars.isUsed step

/-- What the steps before one leave as it was. -/
def Untouched (vars : CmdState D) (pre : List FinishStep) (c : CmdState D) : Prop :=
  c.isUsed = vars.isUsed ∧ ∀ o, FinishStep.defaults o.path ∉ pre → c.default_value o = vars.default_value o

theorem runStep_required_fails_iff {active_chain path : List Nat} {vars : CmdState D} :
    (∃ stop, app.runStep active_chain vars (.required path) = .error stop) ↔
      ¬ app.Met active_chain vars.isUsed (.required path) := by
  have hrun : (∃ stop, app.runStep active_chain vars (.required path) = .error stop) ↔ ∃ stop,
      requireOptions (requiredMessage path) (fun option => option.is_required && !app.waives vars.isUsed path) path
        (app.optionsAt path) vars.isUsed = .error stop := by
    simp [runStep, Checks.bind_error_iff]
  rw [hrun, requireOptions_fails_iff, Met, ← waives_iff]
  apply not_congr
  cases app.waives vars.isUsed path with
  | true => simp
  | false => simp

theorem runStep_groups_fails_iff {active_chain path : List Nat} {vars : CmdState D} :
    (∃ stop, app.runStep active_chain vars (.groups path) = .error stop) ↔
      ¬ app.Met active_chain vars.isUsed (.groups path) := by
  have hrun : (∃ stop, app.runStep active_chain vars (.groups path) = .error stop) ↔
      ∃ stop, validateGroups (app.groupsAt path) vars.isUsed = .error stop := by
    simp [runStep, Checks.bind_error_iff]
  rw [hrun, Checks.check_error_iff, validateGroups_ok_iff, Met]

theorem runStep_nested_fails_iff {active_chain path : List Nat} {vars : CmdState D} :
    (∃ stop, app.runStep active_chain vars (.nested path) = .error stop) ↔
      ¬ app.Met active_chain vars.isUsed (.nested path) := by
  have hrun : (∃ stop, app.runStep active_chain vars (.nested path) = .error stop) ↔
      (((app.level path).any fun cmd => cmd.requires_subcommand) && !app.waives vars.isUsed path &&
        path = active_chain) = true := by
    simp only [runStep]
    split
    next h => exact iff_of_true ⟨_, rfl⟩ h
    next h => exact iff_of_false (fun ⟨_, h'⟩ => nomatch h') h
  rw [hrun, Met]
  cases hlevel : app.level path with
  | none => simp
  | some cmd =>
    by_cases hroot : path = []
    · subst hroot
      cases hlevel
      simp [root]
    · have hwaives : app.WaivedAt vars.isUsed path ↔ app.waives vars.isUsed path = true := by
        rw [waives_iff]
        exact (and_iff_right hroot).symm
      simp [hwaives]
      tauto

theorem runStep_fails_iff {active_chain : List Nat} {vars c : CmdState D} {pre : List FinishStep}
    {step : FinishStep} (hc : Untouched vars pre c) (hnew : step ∉ pre) :
    (∃ stop, app.runStep active_chain c step = .error stop) ↔ app.Lacks active_chain vars step := by
  cases step with
  | required path =>
    rw [runStep_required_fails_iff, hc.1]
    rfl
  | groups path =>
    rw [runStep_groups_fails_iff, hc.1]
    rfl
  | nested path =>
    rw [runStep_nested_fails_iff, hc.1]
    rfl
  | defaults path =>
    have hvalue : ∀ k, c.default_value ⟨path, k⟩ = vars.default_value ⟨path, k⟩ := fun k => hc.2 ⟨path, k⟩ hnew
    rw [runStep, setDefaults_fails_iff, Lacks, DefaultRefused, DefaultRefused, hc.1]
    simp only [hvalue]

theorem runStep_ok {active_chain : List Nat} {c c' : CmdState D} {step : FinishStep}
    (h : app.runStep active_chain c step = .ok c') :
    c'.isUsed = c.isUsed ∧ ∀ o, step ≠ .defaults o.path → c'.default_value o = c.default_value o := by
  cases step with
  | required path | groups path =>
    obtain ⟨_, _, h⟩ := Checks.bind_ok_iff.mp h
    cases h
    exact ⟨rfl, fun _ _ => rfl⟩
  | nested path =>
    simp only [runStep] at h
    split at h
    next => cases h
    next =>
      cases h
      exact ⟨rfl, fun _ _ => rfl⟩
  | defaults path =>
    refine ⟨setDefaults_isUsed h, fun o hne => setDefaults_default_value h ?_⟩
    intro heq
    exact hne (congrArg FinishStep.defaults heq.symm)

theorem Untouched.step {active_chain : List Nat} {vars c c' : CmdState D} {pre : List FinishStep}
    {step : FinishStep} (hc : Untouched vars pre c) (h : app.runStep active_chain c step = .ok c') :
    Untouched vars (pre ++ [step]) c' := by
  obtain ⟨hused, hvalue⟩ := runStep_ok h
  refine ⟨hused.trans hc.1, ?_⟩
  intro o ho
  rw [List.mem_append, not_or, List.mem_singleton] at ho
  exact (hvalue o fun heq => ho.2 heq.symm).trans (hc.2 o ho.1)

theorem readToken_level {active_chain : List Nat} {positional_index : List Nat → Nat} {token name : Str}
    {next : Option Str} {index : Nat}
    (h : app.readToken active_chain positional_index token next = .ok (.subcommand name index)) :
    ∃ sub, app.level (active_chain ++ [index]) = some sub := by
  rcases readToken_cases h with ⟨_, option, o, _, huse⟩ | ⟨_, ⟨index', hfound, huse⟩ | ⟨option, o, _, huse⟩⟩
  · have hnone := congrArg TokenUse.option huse
    rw [optionUse_option] at hnone
    cases hnone
  · cases huse
    obtain ⟨sub, hsub, _⟩ := getSubcommand_some hfound
    cases hlevel : app.level active_chain with
    | none =>
      simp only [subcommandsAt, hlevel] at hsub
      cases hsub
    | some cmd =>
      simp only [subcommandsAt, hlevel] at hsub
      refine ⟨sub, (Subcommand.nested_append hlevel [index]).trans ?_⟩
      simp only [Option.map_some, Option.getD_some] at hsub
      simp only [Subcommand.nested, hsub]
  · cases huse

/-- The active chain leads from subcommand to subcommand. -/
theorem Reads.level {argv : List Str} {vars : CmdState D} {s : ParseState D} (hs : app.Reads argv vars s)
    {path : List Nat} (hpath : path <+: s.active_chain) : ∃ cmd, app.level path = some cmd := by
  obtain ⟨cmd_name, args, _, hrun⟩ := hs
  have hchain : ∃ cmd, app.level s.active_chain = some cmd := by
    refine (TokenLoop.run_ok (fun _ s => ∃ cmd, app.level s.active_chain = some cmd) (fun _ _ => True) ?_
      ⟨app.root, rfl⟩ hrun).1
    intro before s token next use s' hs hread hact
    refine ⟨trivial, ?_⟩
    obtain ⟨vars', _, rfl⟩ := parseLoop_act hact
    cases use with
    | subcommand name index => exact readToken_level (parseLoop_read hread)
    | _ => exact hs
  obtain ⟨cmd, hcmd⟩ := hchain
  obtain ⟨below, hbelow⟩ := hpath
  rw [← hbelow] at hcmd
  exact Subcommand.nested_prefix hcmd

theorem finishActive_eq {active_chain path : List Nat} {cmd : Subcommand D} (hcmd : app.level path = some cmd)
    (hne : path ≠ []) (vars : CmdState D) :
    app.finishActive active_chain vars path = (activeSteps path).foldlM (app.runStep active_chain) vars := by
  have hwaives : ∀ isUsed, app.waives isUsed path = cmd.anySuperiorIsUsed isUsed path := by
    intro isUsed
    simp [waives, hcmd, hne]
  simp only [finishActive, activeSteps, List.foldlM_cons, List.foldlM_nil, runStep, hcmd, hwaives, requiredMessage,
    if_neg hne, optionsAt, groupsAt, Option.map_some, Option.getD_some, Option.any_some]
  split
  next => rfl
  next =>
    simp only [bind_assoc, Checks.ok_bind, bind_pure]

theorem parse_of_reads {argv : List Str} {vars : CmdState D} {s : ParseState D} (hs : app.Reads argv vars s) :
    app.parse argv vars = (finishSteps s.active_chain).foldlM (app.runStep s.active_chain) s.vars := by
  have hactive : ∀ c, s.active_chain.inits.tail.foldlM (app.finishActive s.active_chain) c =
      (s.active_chain.inits.tail.flatMap activeSteps).foldlM (app.runStep s.active_chain) c := by
    refine Checks.foldlM_flatMap ?_
    intro path hmem c
    obtain ⟨hpath, hne⟩ := mem_inits_tail.mp hmem
    obtain ⟨cmd, hcmd⟩ := Reads.level hs hpath
    exact finishActive_eq hcmd hne c
  obtain ⟨cmd_name, args, rfl, hrun⟩ := hs
  rw [finishSteps, List.foldlM_append]
  simp only [parse, hrun, ← hactive, List.foldlM_cons, List.foldlM_nil, runStep, bind_assoc, Checks.ok_bind, bind_pure]
  have hdue : (fun option : CmdOption D => option.is_required && !app.waives s.vars.isUsed []) =
      fun option => option.is_required := by
    funext option
    simp [waives]
  rw [hdue]
  rfl

theorem finishSteps_nodup (active_chain : List Nat) : (finishSteps active_chain).Nodup := by
  have hinits : active_chain.inits.tail.Pairwise (· ≠ ·) :=
    ((inits_pairwise active_chain).imp fun h heq => absurd (congrArg List.length heq) h.ne).sublist
      (List.tail_sublist _)
  rw [finishSteps, List.nodup_append]
  refine ⟨by decide, ?_, ?_⟩
  · rw [List.nodup_flatMap]
    refine ⟨fun path _ => by simp [activeSteps], hinits.imp ?_⟩
    intro path other hne step hstep hother
    simp only [activeSteps, List.mem_cons, List.not_mem_nil, or_false] at hstep hother
    rcases hstep with rfl | rfl | rfl | rfl <;> simp [hne] at hother
  · intro step hroot other hother heq
    subst heq
    obtain ⟨path, hmem, hstep⟩ := List.mem_flatMap.mp hother
    have hne := (mem_inits_tail.mp hmem).2
    simp only [activeSteps, List.mem_cons, List.not_mem_nil, or_false] at hroot hstep
    rcases hroot with rfl | rfl | rfl <;> simp [hne.symm] at hstep

theorem finishSteps_fresh {active_chain : List Nat} {pre post : List FinishStep} {step : FinishStep}
    (hsplit : finishSteps active_chain = pre ++ step :: post) : step ∉ pre := by
  have hnodup := finishSteps_nodup active_chain
  rw [hsplit, List.nodup_middle, List.nodup_cons, List.mem_append, not_or] at hnodup
  exact hnodup.1.1

theorem runStep_lacks_iff {active_chain : List Nat} {vars c : CmdState D} {pre post : List FinishStep}
    {step : FinishStep} (hsplit : finishSteps active_chain = pre ++ step :: post) (hc : Untouched vars pre c) :
    (∃ stop, app.runStep active_chain c step = .error stop) ↔ app.Lacks active_chain vars step :=
  runStep_fails_iff hc (finishSteps_fresh hsplit)

theorem steps_untouched {active_chain : List Nat} {vars c : CmdState D} {pre post : List FinishStep}
    (hsplit : finishSteps active_chain = pre ++ post)
    (h : pre.foldlM (app.runStep active_chain) vars = .ok c) : Untouched vars pre c :=
  Checks.foldlM_invariant (Untouched vars) ⟨rfl, fun _ _ => rfl⟩ (fun _ _ _ _ _ _ hc hstep => hc.step hstep)
    hsplit h

/-- The steps pass as long as none of them lacks anything. -/
theorem steps_ok_iff {active_chain : List Nat} {vars : CmdState D} {pre post : List FinishStep}
    (hsplit : finishSteps active_chain = pre ++ post) :
    (∃ c, pre.foldlM (app.runStep active_chain) vars = .ok c) ↔ ∀ step ∈ pre, ¬ app.Lacks active_chain vars step :=
  Checks.foldlM_ok_iff_of_bad (Untouched vars) (app.Lacks active_chain vars) ⟨rfl, fun _ _ => rfl⟩
    (fun _ _ _ _ _ _ hc hstep => hc.step hstep) (fun _ _ _ _ hsplit hc => runStep_lacks_iff hsplit hc) hsplit

/-- The error of an obligation is that of the first step that lacks something. -/
theorem raisesObligation_iff {argv : List Str} {vars : CmdState D} {s : ParseState D}
    (hs : app.Reads argv vars s) :
    app.RaisesObligation argv vars s ↔ ∃ pre step post, finishSteps s.active_chain = pre ++ step :: post ∧
      step.isObligation = true ∧ app.Lacks s.active_chain s.vars step ∧
      ∀ earlier ∈ pre, ¬ app.Lacks s.active_chain s.vars earlier := by
  have hfails : ∀ pre step post, finishSteps s.active_chain = pre ++ step :: post →
      ((∃ c stop, pre.foldlM (app.runStep s.active_chain) s.vars = .ok c ∧
          app.runStep s.active_chain c step = .error stop) ↔
        app.Lacks s.active_chain s.vars step ∧ ∀ earlier ∈ pre, ¬ app.Lacks s.active_chain s.vars earlier) := by
    intro pre step post hsplit
    rw [← steps_ok_iff hsplit]
    constructor
    · intro h
      obtain ⟨c, stop, hpre, hstep⟩ := h
      exact ⟨(runStep_lacks_iff hsplit (steps_untouched hsplit hpre)).mp ⟨stop, hstep⟩, c, hpre⟩
    · intro h
      obtain ⟨hlacks, c, hpre⟩ := h
      obtain ⟨stop, hstep⟩ := (runStep_lacks_iff hsplit (steps_untouched hsplit hpre)).mpr hlacks
      exact ⟨c, stop, hpre, hstep⟩
  constructor
  · intro h
    obtain ⟨stop, pre, step, post, c, hsplit, hobligation, hpre, hstep, _⟩ := h
    exact ⟨pre, step, post, hsplit, hobligation, (hfails pre step post hsplit).mp ⟨c, stop, hpre, hstep⟩⟩
  · intro h
    obtain ⟨pre, step, post, hsplit, hobligation, hlacks⟩ := h
    obtain ⟨c, stop, hpre, hstep⟩ := (hfails pre step post hsplit).mpr hlacks
    refine ⟨stop, pre, step, post, c, hsplit, hobligation, hpre, hstep, ?_⟩
    rw [parse_of_reads hs, Checks.foldlM_error_iff]
    exact ⟨pre, step, post, c, hsplit, hpre, hstep⟩

end App

/-- A used superior option keeps `parse` from insisting on anything exactly if everything
it does not waive is there: what the App asks for, the bounds of groups, and what is asked
for further inside than the option. -/
theorem superior_waives_iff (argv : List Str) (vars : CmdState D) :
    app.SuperiorWaives argv vars ↔
      ∀ s, app.Reads argv vars s → app.SuperiorIsUsed s → app.ObligationsMet s := by
  unfold App.SuperiorWaives
  refine forall_congr' fun s => imp_congr_right fun hs => imp_congr_right fun _ => ?_
  rw [App.raisesObligation_iff hs]
  constructor
  · intro h pre step post hsplit
    by_contra hunmet
    obtain ⟨hunmet, hdefaults⟩ := not_or.mp hunmet
    have hlacks : app.Lacks s.active_chain s.vars step := by
      cases step with
      | defaults path => exact absurd trivial hunmet
      | _ => exact hunmet
    -- what `parse` stops at comes no later, and it is no default
    have hlast : step ∈ pre ++ [step] := List.mem_append_right pre (List.mem_singleton.mpr rfl)
    obtain ⟨before, first, between, hfirst, hlacksFirst, hbefore⟩ := Checks.exists_first _ hlast hlacks
    have hsplit' : finishSteps s.active_chain = before ++ first :: (between ++ post) := by
      rw [hsplit, ← List.singleton_append, ← List.append_assoc, hfirst, List.append_assoc]
      rfl
    refine h ⟨before, first, between ++ post, hsplit', ?_, hlacksFirst, hbefore⟩
    cases first with
    | defaults path =>
      have hmem : FinishStep.defaults path ∈ pre ++ [step] := by
        rw [hfirst]
        simp
      rcases List.mem_append.mp hmem with hpre | hstep
      · exact absurd ⟨path, hpre, hlacksFirst⟩ hdefaults
      · cases List.mem_singleton.mp hstep
        exact absurd trivial hunmet
    | _ => rfl
  · intro h hraises
    obtain ⟨pre, step, post, hsplit, hobligation, hlacks, hpre⟩ := hraises
    rcases h pre step post hsplit with hmet | ⟨path, hmem, hrefused⟩
    · cases step with
      | defaults path => cases hobligation
      | _ => exact hlacks hmet
    · exact hpre _ hmem hrefused

end

/-- A command line with a superior flag of the App and one of a subcommand, which both
let the process go on. -/
def tableApp : App (List (Str × Str)) where
  options := [
    { valid_names := ["-l", "--list"], setter := some (store "list"), is_flag := true, superior := true },
    { valid_names := ["-c", "--config"], setter := some (store "config"), is_required := true }]
  subcommands := [
    { name := "gpt"
      options := [
        { valid_names := ["-s", "--short"], setter := some (store "short"), is_flag := true, superior := true }]
      subcommands := [
        { name := "read-table"
          options := [
            { valid_names := ["table(s)"], setter := some (store "table_names"), is_positional := true,
              is_required := true }]
          subcommands := []
          requires_subcommand := false
          groups := [] }]
      requires_subcommand := true
      groups := [] }]
  groups := []
  auto_help_enabled := true

/-- The App's own superior option waives nothing of the App, and that of a subcommand
nothing of the one below. -/
theorem tableApp_obligations : ¬ tableApp.SuperiorWaives ["pmt", "--list"] (tableApp.fresh []) ∧
    ¬ tableApp.SuperiorWaives ["pmt", "-c", "x", "gpt", "--short", "read-table"] (tableApp.fresh []) := by
  constructor
  · intro h
    exact h _ ⟨_, _, rfl, rfl⟩ ⟨⟨[], 0⟩, _, List.prefix_refl _, rfl, rfl, rfl⟩
      ⟨_, [], .required [], _, _, rfl, rfl, rfl, rfl, rfl⟩
  · intro h
    exact h _ ⟨_, _, rfl, rfl⟩ ⟨⟨[0], 0⟩, _, ⟨[0], rfl⟩, rfl, rfl, rfl⟩
      ⟨_, finishSteps [0] ++ [.nested [0, 0]], .required [0, 0], _, _, rfl, rfl, rfl, rfl, rfl⟩

end PartitionManager
