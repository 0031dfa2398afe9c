import PartitionManager.Library.Alike
import PartitionManager.OwnVariables

namespace PartitionManager

section

variable {D : Type}

/-- What a use comes to, apart from the state: a pass carries it out or stops. -/
def App.effect (app : App D) (missing : Str) : TokenUse → Outcome (D → D)
  | .valueless token next _ => .error (missingValue missing token next)
  | use => app.assignment use

/-- The states agree on the marks and the stored texts of all other options. -/
structure CmdState.AgreeOff (o : OptRef) (vars other : CmdState D) : Prop where
  isUsed : ∀ o', o' ≠ o → other.isUsed o' = vars.isUsed o'
  default_value : ∀ o', o' ≠ o → other.default_value o' = vars.default_value o'

/-- The option is the next of its level that takes a positional value. -/
def App.IsNext (app : App D) (o : OptRef) (s : ParseState D) : Prop :=
  o.path <+: s.active_chain ∧
    ∃ option, getPositionalOption (s.positional_index o.path) (app.optionsAt o.path) = some (option, o.index)

/-- Two passes have come to the same place, but for the option. If the second has given it a
positional value, it is the next for the first. -/
structure App.Beside (app : App D) (o : OptRef) (s t : ParseState D) : Prop where
  active_chain : t.active_chain = s.active_chain
  others : ∀ path, path ≠ o.path → t.positional_index path = s.positional_index path
  level : t.positional_index = s.positional_index ∨ app.IsNext o s
  vars : CmdState.AgreeOff o s.vars t.vars

variable {app : App D}

theorem App.perform_eq (missing : Str) (vars : CmdState D) (use : TokenUse) : app.perform missing vars use =
    (app.effect missing use).map fun assign => use.given.elim vars fun given => vars.mark given.1 assign := by
  have hdo : ∀ o raw, app.doToDoList o raw vars = (app.accept o raw).map (vars.mark o) := by
    intro o raw
    unfold doToDoList accept
    cases app.option? o with
    | none => rfl
    | some option =>
      dsimp only
      rw [CmdOption.doToDoList]
      cases option.accept raw <;> rfl
  cases use with
  | subcommand token index => rfl
  | valueless token next o => rfl
  | flag token o | equals token arg_value o | separate token value o | positional token o => exact hdo o _

/-- A use is carried out alike in every state. -/
theorem App.perform_alike {R : CmdState D → CmdState D → Prop} {missing : Str} {vars other : CmdState D}
    {use : TokenUse} (hR : R vars other)
    (hmark : ∀ o raw assign, use.given = some (o, raw) → R (vars.mark o assign) (other.mark o assign)) :
    Alike R (app.perform missing vars use) (app.perform missing other use) := by
  rw [perform_eq, perform_eq]
  cases app.effect missing use with
  | error stop => exact .error stop
  | ok assign =>
    refine .ok ?_
    cases hgiven : use.given with
    | none => exact hR
    | some given => exact hmark given.1 given.2 assign hgiven

namespace CmdState.AgreeOff

variable {o : OptRef} {vars other : CmdState D}

theorem refl (vars : CmdState D) : AgreeOff o vars vars := ⟨fun _ _ => rfl, fun _ _ => rfl⟩

theorem mark (h : AgreeOff o vars other) (o' : OptRef) (assign assign' : D → D) :
    AgreeOff o (vars.mark o' assign) (other.mark o' assign') := by
  refine ⟨fun o'' hne => ?_, h.default_value⟩
  show Function.update other.isUsed o' true o'' = Function.update vars.isUsed o' true o''
  by_cases hsame : o'' = o'
  · rw [hsame, Function.update_self, Function.update_self]
  · rw [Function.update_of_ne hsame, Function.update_of_ne hsame]
    exact h.isUsed o'' hne

theorem mark_right (h : AgreeOff o vars other) (assign : D → D) : AgreeOff o vars (other.mark o assign) := by
  refine ⟨fun o'' hne => ?_, h.default_value⟩
  show Function.update other.isUsed o true o'' = vars.isUsed o''
  rw [Function.update_of_ne hne]
  exact h.isUsed o'' hne

end CmdState.AgreeOff

namespace App

variable {o : OptRef} {s t : ParseState D} {use : TokenUse} {token : Str} {next : Option Str}

/-- A positional value that does not go to the next option of its level goes further inside. -/
theorem IsNext.inside (h : app.IsNext o s) {option : CmdOption D} {o' : OptRef}
    (hfound : app.lookupPositional s.active_chain s.positional_index = some (option, o')) (hne : o' ≠ o) :
    o.path.length < o'.path.length := by
  obtain ⟨hwithin, option₀, hnext⟩ := h
  obtain ⟨hwithin', hat, hnone⟩ := lookupPositional_some hfound
  by_contra hlt
  rcases Nat.lt_or_eq_of_le (Nat.le_of_not_lt hlt) with hshort | hsame
  · have hfull := hnone o.path hwithin hshort
    have hlt := (List.getElem?_eq_some_iff.mp hnext).1
    omega
  · have hpath : o'.path = o.path :=
      (List.prefix_of_prefix_length_le hwithin' hwithin (Nat.le_of_eq hsame)).eq_of_length hsame
    rw [hpath, hnext] at hat
    have hindex : o.index = o'.index := (Prod.mk.inj (Option.some.inj hat)).2
    apply hne
    cases o
    cases o'
    cases hpath
    cases hindex
    rfl

/-- The next option is never passed by. -/
theorem IsNext.found (h : app.IsNext o s) :
    ∃ option o', app.lookupPositional s.active_chain s.positional_index = some (option, o') := by
  obtain ⟨hwithin, option₀, hnext⟩ := h
  have hsome : ((levels s.active_chain).findSome? fun path =>
      (getPositionalOption (s.positional_index path) (app.optionsAt path)).map fun arg =>
        (arg.1, (⟨path, arg.2⟩ : OptRef))).isSome = true := by
    rw [List.findSome?_isSome_iff]
    refine ⟨o.path, mem_levels.mpr hwithin, ?_⟩
    rw [hnext]
    rfl
  obtain ⟨found, hfound⟩ := Option.isSome_iff_exists.mp hsome
  exact ⟨found.1, found.2, hfound⟩

theorem Beside.lookupPositional (h : app.Beside o s t) (hne : ∀ option o',
      app.lookupPositional s.active_chain s.positional_index = some (option, o') → o' ≠ o) :
    app.lookupPositional t.active_chain t.positional_index =
      app.lookupPositional s.active_chain s.positional_index := by
  rw [h.active_chain]
  rcases h.level with hsame | hnext
  · rw [hsame]
  · obtain ⟨option, o', hfound⟩ := hnext.found
    have hinside := hnext.inside hfound (hne option o' hfound)
    have hothers : ∀ path : List Nat, o.path.length < path.length →
        t.positional_index path = s.positional_index path := by
      intro path hlt
      refine h.others path ?_
      rintro rfl
      exact Nat.lt_irrefl _ hlt
    rw [hfound]
    rw [App.lookupPositional, findSome_levels] at hfound ⊢
    obtain ⟨path, hwithin, hat, hnone⟩ := hfound
    have hpath : path = o'.path := by
      obtain ⟨arg, _, heq⟩ := Option.map_eq_some_iff.mp hat
      exact congrArg (fun found => found.2.path) heq
    rw [← hpath] at hinside
    refine ⟨path, hwithin, ?_, fun inner hinner hlt => ?_⟩
    · rw [hothers path hinside]
      exact hat
    · rw [hothers inner (by omega)]
      exact hnone inner hinner hlt

/-- What is read is the same, if it is no use of the option. -/
theorem Beside.readToken (h : app.Beside o s t) (hne : ∀ use,
      app.readToken s.active_chain s.positional_index token next = .ok use → use.option ≠ some o) :
    app.readToken t.active_chain t.positional_index token next =
      app.readToken s.active_chain s.positional_index token next := by
  cases token with
  | nil =>
    unfold App.readToken
    rfl
  | cons c rest =>
    by_cases hhelp : (app.auto_help_enabled && (c :: rest = "-h" || c :: rest = "--help")) = true
    · unfold App.readToken
      rw [if_pos hhelp, if_pos hhelp]
    · by_cases hdash : c = '-'
      · refine readToken_named (by rw [hdash]; rfl) (by rw [h.active_chain]) fun _ _ _ => rfl
      · unfold App.readToken at hne ⊢
        rw [if_neg hhelp] at hne ⊢
        rw [if_neg hhelp]
        simp only [charAt0, Checks.ok_bind, if_neg hdash] at hne ⊢
        rw [h.active_chain]
        cases hsub : getSubcommand (c :: rest) (app.subcommandsAt s.active_chain) with
        | some index => rfl
        | none =>
          rw [hsub] at hne
          dsimp only at hne ⊢
          have hlookup := h.lookupPositional fun option o' hfound => by
            rw [hfound] at hne
            have huse := hne _ rfl
            rintro rfl
            exact huse rfl
          rw [h.active_chain] at hlookup
          rw [hlookup]

/-- A positional use is of the option that is next for one. -/
theorem readToken_positional {name : Str} {o' : OptRef}
    (h : app.readToken s.active_chain s.positional_index token next = .ok (.positional name o')) :
    ∃ option, app.lookupPositional s.active_chain s.positional_index = some (option, o') := by
  rcases readToken_cases h with ⟨_, option, o'', _, huse⟩ | ⟨_, ⟨index, _, huse⟩ | ⟨option, o'', hfound, huse⟩⟩
  · have hpos := (optionUse_parts option o'' token next).2
    rw [← huse] at hpos
    cases hpos
  · cases huse
  · cases huse
    exact ⟨option, hfound⟩

theorem IsNext.give (h : app.IsNext o s) (hread : app.readToken s.active_chain s.positional_index token next = .ok use)
    (hne : use.option ≠ some o) (vars : CmdState D) : app.IsNext o (s.advance vars use) := by
  obtain ⟨hwithin, option₀, hnext⟩ := h
  cases use with
  | subcommand name index =>
    exact ⟨hwithin.trans (List.prefix_append _ _), option₀, hnext⟩
  | positional name o' =>
    refine ⟨hwithin, option₀, ?_⟩
    have hother : o.path ≠ o'.path := by
      intro hsame
      obtain ⟨option, hfound⟩ := readToken_positional hread
      have hinside := IsNext.inside ⟨hwithin, option₀, hnext⟩ hfound fun heq => hne (congrArg some heq)
      rw [hsame] at hinside
      exact Nat.lt_irrefl _ hinside
    show getPositionalOption (Function.update s.positional_index o'.path (s.positional_index o'.path + 1) o.path) _ = _
    rw [Function.update_of_ne hother]
    exact hnext
  | flag name o' | equals name value o' | separate name value o' | valueless name value o' =>
    exact ⟨hwithin, option₀, hnext⟩

/-- Both go on beside each other after a use of another option. -/
theorem Beside.advance (h : app.Beside o s t)
    (hread : app.readToken s.active_chain s.positional_index token next = .ok use) (hne : use.option ≠ some o)
    {vars other : CmdState D} (hvars : CmdState.AgreeOff o vars other) :
    app.Beside o (s.advance vars use) (t.advance other use) := by
  have hlevel : t.positional_index = s.positional_index ∨ app.IsNext o (s.advance vars use) :=
    h.level.imp_right fun hnext => hnext.give hread hne vars
  obtain ⟨hchain, hothers, _, _⟩ := h
  cases use with
  | subcommand name index =>
    refine ⟨congrArg (· ++ [index]) hchain, hothers, hlevel, hvars.1, hvars.2⟩
  | positional name o' =>
    refine ⟨hchain, fun path hpath => ?_, hlevel.imp_left fun hsame => ?_, hvars⟩
    · show Function.update t.positional_index o'.path (t.positional_index o'.path + 1) path =
        Function.update s.positional_index o'.path (s.positional_index o'.path + 1) path
      by_cases hsame : path = o'.path
      · rw [hsame, Function.update_self, Function.update_self, hothers o'.path (hsame ▸ hpath)]
      · rw [Function.update_of_ne hsame, Function.update_of_ne hsame, hothers path hpath]
    · simp only [ParseState.advance, hsame]
  | flag name o' | equals name value o' | separate name value o' | valueless name value o' =>
    exact ⟨hchain, hothers, hlevel, hvars⟩

/-- Two passes of `parse` that start beside each other end alike, if the first does not use the option. -/
theorem parseLoop_alike {i j : Nat} {args : List Str} (h : app.Beside o s t)
    (hne : ∀ v ∈ (app.parseLoop.run i args false s).1, v.use.option ≠ some o) :
    Alike (app.Beside o) (app.parseLoop.run i args false s).2 (app.parseLoop.run j args false t).2 ∧
      (app.parseLoop.run j args false t).1.map TokenLoop.Visit.use =
        (app.parseLoop.run i args false s).1.map TokenLoop.Visit.use := by
  refine TokenLoop.run_alike (fun use => use.option ≠ some o) ?_ ?_ (fun _ => rfl) h hne
  · intro s t token next h hmine
    have hsame : app.readToken t.active_chain t.positional_index token next =
        app.readToken s.active_chain s.positional_index token next :=
      h.readToken fun use huse => hmine use (parseLoop_reads_of huse)
    simp only [parseLoop, hsame]
  · intro s t token next use h hread huse
    have hperform : Alike (CmdState.AgreeOff o) (app.perform "Missing option value for: " s.vars use)
        (app.perform "Missing option value for: " t.vars use) :=
      perform_alike h.vars fun o' raw assign _ => h.vars.mark o' assign assign
    exact hperform.bind fun vars other hvars => .ok (h.advance (parseLoop_read hread) huse hvars)

/-- `parse` reads the option at the same place after both, and gives it a value after the second. -/
theorem Beside.give_own (h : app.Beside o s t)
    (hread : app.readToken t.active_chain t.positional_index token next = .ok use) (ho : use.option = some o)
    (hvalued : ∀ token next o, use ≠ .valueless token next o) (assign : D → D) :
    app.Beside o s (t.give use assign) := by
  have hagree := h.vars.mark_right assign
  obtain ⟨hchain, hothers, hlevel, _⟩ := h
  cases use with
  | subcommand name index => cases ho
  | valueless name value o' => exact absurd rfl (hvalued _ _ _)
  | flag name o' | equals name value o' | separate name value o' =>
    cases ho
    exact ⟨hchain, hothers, hlevel, hagree⟩
  | positional name o' =>
    cases ho
    refine ⟨hchain, fun path hpath => ?_, Or.inr ?_, hagree⟩
    · show Function.update t.positional_index o.path (t.positional_index o.path + 1) path = s.positional_index path
      rw [Function.update_of_ne hpath]
      exact hothers path hpath
    · rcases hlevel with hsame | hnext
      · obtain ⟨option, hfound⟩ := readToken_positional hread
        obtain ⟨hwithin, hat, _⟩ := lookupPositional_some hfound
        rw [hchain] at hwithin
        rw [hsame] at hat
        exact ⟨hwithin, option, hat⟩
      · exact hnext

/-- Tokens that `parse` gets through by themselves it gets through in front of others. -/
theorem parseLoop_append {i : Nat} {pre : List Str} (rest : List Str)
    (h : (app.parseLoop.run i pre false s).2 = .ok t) : app.parseLoop.run i (pre ++ rest) false s =
      ((app.parseLoop.run i pre false s).1 ++ (app.parseLoop.run (i + pre.length) rest false t).1,
        (app.parseLoop.run (i + pre.length) rest false t).2) := by
  refine TokenLoop.run_append parseLoop_steady ?_ ?_ (fun h => nomatch h) h
  · intro s token next hnone
    exact absurd hnone (parseLoop_all s token next)
  · intro s token use hread
    rcases parseLoop_own s token none use hread with ⟨htakes, _⟩ | ⟨_, value, hnext, _⟩
    · exact htakes
    · cases hnext

theorem readEarly_early {options : List (CmdOption D)} {no_unknown_arg_error : Bool} {option : CmdOption D} {k : Nat}
    (hdash : token.head? = some '-') (hfound : findOption (argName token) options = some (option, k))
    (hearly : option.early = true) (next : Option Str) : readEarly options no_unknown_arg_error token next =
      .ok (some (optionUse option ⟨[], k⟩ token next)) := by
  cases token with
  | nil => cases hdash
  | cons c rest =>
    obtain rfl : c = '-' := by simpa using hdash
    simp only [readEarly, charAt0, Checks.ok_bind, if_true, hfound, hearly]

/-- A token is passed over whatever comes next. -/
theorem readEarly_none {options : List (CmdOption D)} {no_unknown_arg_error : Bool}
    (h : readEarly options no_unknown_arg_error token next = .ok none) (next' : Option Str) :
    readEarly options no_unknown_arg_error token next' = .ok none := by
  rw [← h]
  cases token with
  | nil => rfl
  | cons c rest =>
    simp only [readEarly, charAt0, Checks.ok_bind] at h ⊢
    split
    next hdash =>
      rw [if_pos hdash] at h
      split
      next => rfl
      next option k hfound =>
        rw [hfound] at h
        dsimp only at h
        by_cases hearly : option.early = true
        · rw [if_pos hearly] at h
          cases h
        · rw [if_neg hearly, if_neg hearly]
    next => rfl

theorem earlyLoop_append {i : Nat} {pre : List Str} {vars vars' : CmdState D} (rest : List Str)
    (h : ((app.earlyLoop true).run i pre false vars).2 = .ok vars') :
    (app.earlyLoop true).run i (pre ++ rest) false vars =
      (((app.earlyLoop true).run i pre false vars).1 ++ ((app.earlyLoop true).run (i + pre.length) rest false vars').1,
        ((app.earlyLoop true).run (i + pre.length) rest false vars').2) := by
  refine TokenLoop.run_append ?_ ?_ ?_ (fun h => nomatch h) h
  · intro s token next use t hread hact htakes next'
    obtain ⟨hdash, option, k, hfound, hearly, rfl⟩ := readEarly_some hread
    have hvalued := ((perform_ok _ _ _).mp hact).1
    have hread' : readEarly app.options true token next' = .ok (some (optionUse option ⟨[], k⟩ token next')) :=
      readEarly_early hdash hfound hearly next'
    rw [optionUse_steady hvalued htakes next'] at hread'
    exact hread'
  · intro s token next hnone next'
    exact readEarly_none hnone next'
  · intro s token use hread
    obtain ⟨_, option, k, _, _, rfl⟩ := readEarly_some hread
    unfold optionUse
    split
    · rfl
    · split <;> rfl

end App

end

end PartitionManager
