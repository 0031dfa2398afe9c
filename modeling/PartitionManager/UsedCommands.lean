import PartitionManager.OmittedOptions
import PartitionManager.RequiredLists

namespace PartitionManager

section

variable {D : Type}

/-- `getUsedSubcommandName` of the App, and of the subcommand at `path`. -/
def App.getUsedSubcommandName (app : App D) (vars : CmdState D) (path : List Nat) : Option Str :=
  ((app.subcommandsAt path).zipIdx.find? fun subcmd => vars.subcommandUsed (path ++ [subcmd.2])).map fun subcmd =>
    subcmd.1.name

/-- The subcommands of the chain are marked, and no others. -/
def CmdState.MarksChain (vars : CmdState D) (active_chain : List Nat) : Prop :=
  ∀ path, vars.subcommandUsed path = true ↔ path ≠ [] ∧ path <+: active_chain

/-- What `getUsedSubcommandName` should answer: the name that stands next on the chain. -/
def App.nextName (app : App D) (active_chain path : List Nat) : Option Str :=
  if path <+: active_chain then
    active_chain[path.length]?.bind fun index => ((app.subcommandsAt path)[index]?).map (·.name)
  else none

variable {app : App D} {vars vars' : CmdState D}

theorem App.perform_subcommandUsed {missing : Str} {use : TokenUse} (h : app.perform missing vars use = .ok vars') :
    vars'.subcommandUsed = vars.subcommandUsed := by
  rcases perform_cases h with ⟨_, _, rfl⟩ | ⟨o, raw, assign, _, _, _, rfl⟩
  · rfl
  · rfl

theorem CmdState.MarksChain.append {active_chain : List Nat} (h : vars.MarksChain active_chain) (index : Nat) :
    CmdState.MarksChain { vars with
      subcommandUsed := Function.update vars.subcommandUsed (active_chain ++ [index]) true }
      (active_chain ++ [index]) := by
  intro path
  by_cases hpath : path = active_chain ++ [index]
  · subst hpath
    simp
  · have hbelow : path <+: active_chain ++ [index] ↔ path <+: active_chain := by
      rw [List.prefix_concat_iff]
      exact or_iff_right hpath
    rw [hbelow, ← h path]
    simp only [Function.update_of_ne hpath]

/-- One turn of the token loop marks the subcommand that it makes active. -/
theorem ParseState.advance_marksChain {s : ParseState D} (hs : s.vars.MarksChain s.active_chain)
    (hvars : vars.subcommandUsed = s.vars.subcommandUsed) (use : TokenUse) :
    (s.advance vars use).vars.MarksChain (s.advance vars use).active_chain := by
  have hmarks : vars.MarksChain s.active_chain := by
    unfold CmdState.MarksChain
    rw [hvars]
    exact hs
  cases use with
  | subcommand token index => exact hmarks.append index
  | _ => exact hmarks

theorem setDefault_subcommandUsed {o : OptRef} {option : CmdOption D} (h : setDefault vars o option = .ok vars') :
    vars'.subcommandUsed = vars.subcommandUsed := by
  rcases setDefault_cases h with ⟨_, rfl⟩ | ⟨raw, text, assign, _, _, _, rfl⟩
  · rfl
  · rfl

theorem setDefaults_subcommandUsed {path : List Nat} {options : List (CmdOption D)}
    (h : setDefaults path options vars = .ok vars') : vars'.subcommandUsed = vars.subcommandUsed :=
  (Checks.foldlM_ok (fun _ _ _ hc hstep => (setDefault_subcommandUsed hstep).trans hc) rfl h).1

theorem App.finishActive_subcommandUsed {active_chain path : List Nat}
    (h : app.finishActive active_chain vars path = .ok vars') : vars'.subcommandUsed = vars.subcommandUsed := by
  unfold finishActive at h
  split at h
  next => cases h
  next cmd _ =>
    dsimp only at h
    split at h
    next => cases h
    next =>
      obtain ⟨_, _, h⟩ := Checks.bind_ok_iff.mp h
      obtain ⟨_, _, h⟩ := Checks.bind_ok_iff.mp h
      exact setDefaults_subcommandUsed h

/-- The early pass marks no subcommand. -/
theorem App.parse_earlies_subcommandUsed {no_unknown_arg_error : Bool} {argv : List Str}
    (h : app.parse_earlies no_unknown_arg_error argv vars = .ok vars') :
    vars'.subcommandUsed = vars.subcommandUsed := by
  obtain ⟨marked, hloop, h⟩ := Checks.bind_ok_iff.mp h
  obtain ⟨_, _, h⟩ := Checks.bind_ok_iff.mp h
  have hmarked : marked.subcommandUsed = vars.subcommandUsed :=
    TokenLoop.run_invariant (fun s => s.subcommandUsed = vars.subcommandUsed)
      (fun s use s' hs hact => (perform_subcommandUsed hact).trans hs) rfl hloop
  exact (setDefaults_subcommandUsed h).trans hmarked

/-- A successful `parse` marks the subcommands that its tokens named. -/
theorem App.parse_marksChain {argv : List Str} (hunused : ∀ path, vars.subcommandUsed path = false)
    (h : app.parse argv vars = .ok vars') : vars'.MarksChain (chainOf (app.parseUses argv vars)) := by
  obtain ⟨s, defaulted, hloop, _, hdefaults, _, hactive⟩ := parse_ok h
  have hstart : (⟨vars, [], fun _ => 0⟩ : ParseState D).vars.MarksChain [] := by
    intro path
    simp [hunused path]
  have hmarks : s.vars.MarksChain s.active_chain := by
    refine TokenLoop.run_invariant (fun t : ParseState D => t.vars.MarksChain t.active_chain) ?_ hstart hloop
    intro t use t' ht hact
    obtain ⟨vars, hperform, rfl⟩ := parseLoop_act hact
    exact ParseState.advance_marksChain ht (perform_subcommandUsed hperform) use
  have hchain : s.active_chain = chainOf (app.parseUses argv vars) :=
    plays_chain (TokenLoop.plays_of_run parseLoop_all parseLoop_own parseLoop_steady hloop)
  have hkept : vars'.subcommandUsed = s.vars.subcommandUsed :=
    (Checks.foldlM_ok (fun _ _ _ hc hstep => (finishActive_subcommandUsed hstep).trans hc)
      (setDefaults_subcommandUsed hdefaults) hactive).1
  rw [← hchain]
  unfold CmdState.MarksChain
  rw [hkept]
  exact hmarks

end

/-- The tokens that named subcommands. -/
def calledNames (uses : List TokenUse) : List Str := uses.filterMap fun use =>
  match use with
  | .subcommand token _ => some token
  | _ => none

/-- The place of the command line where the chain got a subcommand. -/
theorem called_at {uses : List TokenUse} {k index : Nat} (h : (chainOf uses)[k]? = some index) :
    ∃ before token after, uses = before ++ .subcommand token index :: after ∧
      chainOf before = (chainOf uses).take k ∧ (calledNames uses)[k]? = some token := by
  induction uses generalizing k with
  | nil => simp [chainOf] at h
  | cons use uses ih =>
    cases use with
    | subcommand token i =>
      cases k with
      | zero =>
        obtain rfl : i = index := by simpa [chainOf, TokenUse.subcommandIndex] using h
        exact ⟨[], token, uses, rfl, rfl, rfl⟩
      | succ k =>
        obtain ⟨before, called, after, rfl, hbefore, hname⟩ := ih (k := k) h
        exact ⟨.subcommand token i :: before, called, after, rfl, congrArg (i :: ·) hbefore, hname⟩
    | flag token o | equals token arg_value o | separate token value o | valueless token next o
    | positional token o =>
      obtain ⟨before, called, after, rfl, hbefore, hname⟩ := ih (k := k) h
      exact ⟨_ :: before, called, after, rfl, hbefore, hname⟩

theorem calledNames_length (uses : List TokenUse) : (calledNames uses).length = (chainOf uses).length := by
  induction uses with
  | nil => rfl
  | cons use uses ih =>
    cases use with
    | subcommand token index => exact congrArg (· + 1) ih
    | _ => exact ih

section

variable {D : Type} {app : App D} {vars : CmdState D}

theorem CmdState.MarksChain.next_iff {active_chain : List Nat} (h : vars.MarksChain active_chain) (path : List Nat)
    (index : Nat) : vars.subcommandUsed (path ++ [index]) = true ↔
      path <+: active_chain ∧ active_chain[path.length]? = some index := by
  rw [h]
  constructor
  · intro hmarked
    obtain ⟨_, rest, rfl⟩ := hmarked
    exact ⟨⟨[index] ++ rest, by simp⟩, by simp⟩
  · intro hnext
    obtain ⟨⟨rest, rfl⟩, hindex⟩ := hnext
    rw [List.getElem?_append_right (Nat.le_refl _), Nat.sub_self] at hindex
    cases rest with
    | nil => cases hindex
    | cons i more =>
      cases hindex
      exact ⟨by simp, ⟨more, by simp⟩⟩

/-- A level answers with the one subcommand of it that is marked. -/
theorem App.getUsedSubcommandName_eq {active_chain : List Nat} (h : vars.MarksChain active_chain) (path : List Nat) :
    app.getUsedSubcommandName vars path = app.nextName active_chain path := by
  unfold getUsedSubcommandName nextName
  cases hfind : (app.subcommandsAt path).zipIdx.find? fun subcmd => vars.subcommandUsed (path ++ [subcmd.2]) with
  | some subcmd =>
    have hmarked : vars.subcommandUsed (path ++ [subcmd.2]) = true := by simpa using List.find?_some hfind
    obtain ⟨hpath, hindex⟩ := (h.next_iff path subcmd.2).mp hmarked
    have hsubcmd := List.mem_zipIdx_iff_getElem?.mp (List.mem_of_find?_eq_some hfind)
    rw [if_pos hpath, hindex, Option.bind_some, hsubcmd]
    rfl
  | none =>
    rw [Option.map_none]
    split
    next hpath =>
      cases hindex : active_chain[path.length]? with
      | none => rfl
      | some index =>
        cases hsubcmd : (app.subcommandsAt path)[index]? with
        | none => simp [hsubcmd]
        | some subcmd =>
          have hunmarked := List.find?_eq_none.mp hfind (subcmd, index) (List.mem_zipIdx_iff_getElem?.mpr hsubcmd)
          exact absurd ((h.next_iff path index).mpr ⟨hpath, hindex⟩) hunmarked
    next => rfl

/-- The next name of the chain is the token that called it. -/
theorem App.nextName_eq {uses : List TokenUse}
    (h : ∀ before use after, uses = before ++ use :: after → app.Proper before use) {path : List Nat}
    (hpath : path <+: chainOf uses) : app.nextName (chainOf uses) path = (calledNames uses)[path.length]? := by
  unfold nextName
  rw [if_pos hpath]
  cases hindex : (chainOf uses)[path.length]? with
  | none =>
    have hlength := List.getElem?_eq_none_iff.mp hindex
    rw [Option.bind_none, eq_comm, List.getElem?_eq_none_iff, calledNames_length]
    exact hlength
  | some index =>
    obtain ⟨before, token, after, huses, hbefore, hname⟩ := called_at hindex
    obtain ⟨_, cmd, hcmd, hcalled⟩ := h before _ after huses
    rw [hbefore, ← List.prefix_iff_eq_take.mp hpath] at hcmd
    rw [Option.bind_some, hcmd, hname, ← hcalled]
    rfl

theorem App.parseUses_eq (argv : List Str) (vars vars' : CmdState D) :
    app.parseUses argv vars = app.parseUses argv vars' := by
  have hsame := congrArg (List.map Prod.snd) (app.parseVisits_uses argv vars vars')
  rw [TokenLoop.uses, TokenLoop.uses, List.map_map, List.map_map] at hsame
  exact hsame

/-- After both passes the subcommands in use are those that the command line named, each below the
one before it, and every level answers with the one that was named next. -/
theorem used_subcommands {argv : List Str} {dest : D} (h : app.twoPasses argv dest = .ok vars) :
    vars.MarksChain (chainOf (app.parseUses argv (app.fresh dest))) ∧
      ∀ path, app.getUsedSubcommandName vars path =
        if path <+: chainOf (app.parseUses argv (app.fresh dest)) then
          (calledNames (app.parseUses argv (app.fresh dest)))[path.length]?
        else none := by
  obtain ⟨early, hearly, hparse⟩ := Checks.bind_ok_iff.mp h
  have hunused : ∀ path, early.subcommandUsed path = false :=
    fun path => congrFun (App.parse_earlies_subcommandUsed hearly) path
  have hmarks := App.parse_marksChain hunused hparse
  have hproper := App.parse_proper hparse
  rw [App.parseUses_eq argv early (app.fresh dest)] at hmarks hproper
  refine ⟨hmarks, fun path => ?_⟩
  rw [App.getUsedSubcommandName_eq hmarks]
  by_cases hpath : path <+: chainOf (app.parseUses argv (app.fresh dest))
  · rw [if_pos hpath]
    exact App.nextName_eq hproper hpath
  · rw [App.nextName, if_neg hpath, if_neg hpath]

end

theorem used_subcommands_gpt : ∃ vars,
    pmtApp.twoPasses ["pmt", "gpt", "read-table", "sda"] unsetVariables = .ok vars ∧
    vars.MarksChain [3, 0] ∧ pmtApp.getUsedSubcommandName vars [] = some "gpt".toList ∧
    pmtApp.getUsedSubcommandName vars [3] = some "read-table".toList ∧
    pmtApp.getUsedSubcommandName vars [3, 0] = none ∧ pmtApp.getUsedSubcommandName vars [2] = none := by
  obtain ⟨vars, h⟩ : ∃ vars, pmtApp.twoPasses ["pmt", "gpt", "read-table", "sda"] unsetVariables = .ok vars :=
    ⟨_, rfl⟩
  obtain ⟨hmarks, hnames⟩ := used_subcommands h
  exact ⟨vars, h, hmarks, hnames [], hnames [3], hnames [3, 0], hnames [2]⟩

end PartitionManager
