import PartitionManager.CommandLine
import PartitionManager.Library.Checks

namespace PartitionManager

theorem mem_levels {active_chain path : List Nat} : path ∈ levels active_chain ↔ path <+: active_chain := by
  rw [levels, List.mem_reverse, List.mem_inits]

theorem inits_pairwise (chain : List Nat) : chain.inits.Pairwise fun a b => a.length < b.length := by
  induction chain with
  | nil => simp
  | cons i chain ih =>
    rw [List.inits_cons, List.pairwise_cons, List.pairwise_map]
    constructor
    · intro path hpath
      obtain ⟨rest, _, rfl⟩ := List.mem_map.mp hpath
      exact Nat.succ_pos _
    · exact ih.imp fun h => Nat.succ_lt_succ h

/-- A search through the levels finds what the innermost level that has it has. -/
theorem findSome_levels {β : Type} {f : List Nat → Option β} {active_chain : List Nat} {b : β} :
    (levels active_chain).findSome? f = some b ↔ ∃ path, path <+: active_chain ∧ f path = some b ∧
      ∀ inner, inner <+: active_chain → path.length < inner.length → f inner = none := by
  have hsorted : (levels active_chain).Pairwise fun a b => b.length < a.length := by
    rw [levels, List.pairwise_reverse]
    exact inits_pairwise active_chain
  rw [List.findSome?_eq_some_iff]
  constructor
  · intro h
    obtain ⟨before, path, after, hlevels, hpath, hnone⟩ := h
    refine ⟨path, mem_levels.mp (by simp [hlevels]), hpath, fun inner hinner hlt => ?_⟩
    have hmem := mem_levels.mpr hinner
    rw [hlevels] at hmem hsorted
    rcases List.mem_append.mp hmem with hbefore | hlater
    · exact hnone inner hbefore
    · rcases List.mem_cons.mp hlater with rfl | hafter
      · omega
      · have hshorter := (List.pairwise_cons.mp (List.pairwise_append.mp hsorted).2.1).1 inner hafter
        omega
  · intro h
    obtain ⟨path, hwithin, hpath, hnone⟩ := h
    obtain ⟨before, after, hlevels⟩ := List.append_of_mem (mem_levels.mpr hwithin)
    refine ⟨before, path, after, hlevels, hpath, fun inner hinner => ?_⟩
    rw [hlevels] at hsorted
    refine hnone inner (mem_levels.mp (by simp [hlevels, hinner])) ?_
    exact (List.pairwise_append.mp hsorted).2.2 inner hinner path List.mem_cons_self

section

variable {D : Type} {app : App D}

theorem findOption_some {name : Str} {arg_list : List (CmdOption D)} {arg : CmdOption D × Nat}
    (h : findOption name arg_list = some arg) :
    arg_list[arg.2]? = some arg.1 ∧ name ∈ arg.1.valid_names := by
  refine ⟨List.mem_zipIdx_iff_getElem?.mp (List.mem_of_find?_eq_some h), ?_⟩
  simpa using List.find?_some h

theorem positionals_nodup (arg_list : List (CmdOption D)) : ((positionals arg_list).map Prod.snd).Nodup := by
  have hall : (arg_list.zipIdx.map Prod.snd).Nodup := by
    rw [List.zipIdx_map_snd]
    exact List.nodup_range'
  exact hall.sublist (List.filter_sublist.map Prod.snd)

theorem getSubcommand_some {name : Str} {subcommands : List (Subcommand D)} {index : Nat}
    (h : getSubcommand name subcommands = some index) :
    ∃ cmd, subcommands[index]? = some cmd ∧ cmd.name = name := by
  obtain ⟨hlt, hname, _⟩ := List.findIdx?_eq_some_iff_getElem.mp h
  exact ⟨subcommands[index], List.getElem?_eq_getElem hlt, by simpa using hname⟩

namespace App

theorem lookupOption_eq_some {name : Str} {active_chain : List Nat} {option : CmdOption D} {o : OptRef} :
    app.lookupOption name active_chain = some (option, o) ↔
      o.path <+: active_chain ∧ findOption name (app.optionsAt o.path) = some (option, o.index) ∧
        ∀ inner, inner <+: active_chain → o.path.length < inner.length →
          findOption name (app.optionsAt inner) = none := by
  rw [lookupOption, findSome_levels]
  constructor
  · intro h
    obtain ⟨path, hwithin, hfound, hnone⟩ := h
    obtain ⟨arg, harg, heq⟩ := Option.map_eq_some_iff.mp hfound
    cases heq
    exact ⟨hwithin, harg, fun inner hinner hlt => Option.map_eq_none_iff.mp (hnone inner hinner hlt)⟩
  · intro h
    obtain ⟨hwithin, hfound, hnone⟩ := h
    refine ⟨o.path, hwithin, by rw [hfound]; rfl, fun inner hinner hlt => ?_⟩
    rw [hnone inner hinner hlt]
    rfl

theorem lookupPositional_some {active_chain : List Nat} {positional_index : List Nat → Nat}
    {option : CmdOption D} {o : OptRef}
    (h : app.lookupPositional active_chain positional_index = some (option, o)) :
    o.path <+: active_chain ∧
      getPositionalOption (positional_index o.path) (app.optionsAt o.path) = some (option, o.index) ∧
      ∀ inner, inner <+: active_chain → o.path.length < inner.length →
        (positionals (app.optionsAt inner)).length ≤ positional_index inner := by
  rw [lookupPositional, findSome_levels] at h
  obtain ⟨path, hwithin, hfound, hnone⟩ := h
  obtain ⟨arg, harg, heq⟩ := Option.map_eq_some_iff.mp hfound
  cases heq
  refine ⟨hwithin, harg, fun inner hinner hlt => ?_⟩
  exact List.getElem?_eq_none_iff.mp (Option.map_eq_none_iff.mp (hnone inner hinner hlt))

end App

/-- A token that names an option is a use of it, and not of a positional one. -/
theorem optionUse_parts (option : CmdOption D) (o : OptRef) (token : Str) (next : Option Str) :
    (optionUse option o token next).option = some o ∧ (optionUse option o token next).positionalOption = none := by
  unfold optionUse
  split
  next => exact ⟨rfl, rfl⟩
  next =>
    split
    next => exact ⟨rfl, rfl⟩
    next =>
      split
      next => split <;> exact ⟨rfl, rfl⟩
      next => exact ⟨rfl, rfl⟩

theorem optionUse_option (option : CmdOption D) (o : OptRef) (token : Str) (next : Option Str) :
    (optionUse option o token next).option = some o := (optionUse_parts option o token next).1

/-- What a token is made of: one of the uses of an option it names, a
subcommand, or a positional value. -/
theorem App.readToken_cases {active_chain : List Nat} {positional_index : List Nat → Nat} {token : Str}
    {next : Option Str} {use : TokenUse}
    (h : app.readToken active_chain positional_index token next = .ok use) :
    (token.head? = some '-' ∧ ∃ option o, app.lookupOption (argName token) active_chain = some (option, o) ∧
        use = optionUse option o token next) ∨
      (token.head? ≠ some '-' ∧ ((∃ index, getSubcommand token (app.subcommandsAt active_chain) = some index ∧
          use = .subcommand token index) ∨
        ∃ option o, app.lookupPositional active_chain positional_index = some (option, o) ∧
          use = .positional token o)) := by
  unfold readToken at h
  split at h
  next => cases h
  next =>
    cases token with
    | nil => cases h
    | cons c rest =>
      obtain ⟨first, hfirst, h⟩ := Checks.bind_ok_iff.mp h
      cases hfirst
      split at h
      next hdash =>
        split at h
        next => cases h
        next option o hfound =>
          cases h
          exact Or.inl ⟨by simp [hdash], option, o, hfound, rfl⟩
      next hdash =>
        refine Or.inr ⟨by simp [hdash], ?_⟩
        split at h
        next index hsub =>
          cases h
          exact Or.inl ⟨index, hsub, rfl⟩
        next =>
          split at h
          next => cases h
          next option o hfound =>
            cases h
            exact Or.inr ⟨option, o, hfound, rfl⟩

/-- A use that takes the next token as a value has that token. -/
theorem App.readToken_tokens {active_chain : List Nat} {positional_index : List Nat → Nat} {token : Str}
    {next : Option Str} {use : TokenUse}
    (h : app.readToken active_chain positional_index token next = .ok use) :
    (use.takesNext = false ∧ use.tokens = [token]) ∨
      (use.takesNext = true ∧ ∃ c value, c ≠ '-' ∧ next = some (c :: value) ∧ use.tokens = [token, c :: value]) := by
  rcases readToken_cases h with ⟨_, option, o, _, rfl⟩ | ⟨_, ⟨index, _, rfl⟩ | ⟨option, o, _, rfl⟩⟩
  · unfold optionUse
    split
    next => exact Or.inl ⟨rfl, rfl⟩
    next =>
      split
      next => exact Or.inl ⟨rfl, rfl⟩
      next =>
        split
        next c value =>
          split
          next => exact Or.inl ⟨rfl, rfl⟩
          next hdash => exact Or.inr ⟨rfl, c, value, hdash, rfl, rfl⟩
        next => exact Or.inl ⟨rfl, rfl⟩
  · exact Or.inl ⟨rfl, rfl⟩
  · exact Or.inl ⟨rfl, rfl⟩

theorem App.parseLoop_read {s : ParseState D} {token : Str} {next : Option Str} {use : TokenUse}
    (h : app.parseLoop.read s token next = .ok (some use)) :
    app.readToken s.active_chain s.positional_index token next = .ok use := by
  unfold parseLoop at h
  dsimp only at h
  cases hread : app.readToken s.active_chain s.positional_index token next with
  | error stop =>
    rw [hread] at h
    cases h
  | ok found =>
    rw [hread] at h
    cases h
    rfl

theorem App.parseLoop_all (s : ParseState D) (token : Str) (next : Option Str) :
    app.parseLoop.read s token next ≠ .ok none := by
  intro h
  unfold parseLoop at h
  dsimp only at h
  cases hread : app.readToken s.active_chain s.positional_index token next <;> rw [hread] at h <;> cases h

theorem App.parseLoop_act {s s' : ParseState D} {use : TokenUse} (h : app.parseLoop.act s use = .ok s') :
    ∃ vars, app.perform "Missing option value for: " s.vars use = .ok vars ∧ s' = s.advance vars use := by
  obtain ⟨vars, hperform, heq⟩ := Checks.bind_ok_iff.mp h
  cases heq
  exact ⟨vars, hperform, rfl⟩

/-- The stations of a `parse` that returns. -/
theorem App.parse_ok {argv : List Str} {vars vars' : CmdState D} (h : app.parse argv vars = .ok vars') :
    ∃ s defaulted, (app.parseLoop.run 1 argv.tail false ⟨vars, [], fun _ => 0⟩).2 = .ok s ∧
      requireOptions "Missing required option: " (·.is_required) [] app.options s.vars.isUsed = .ok () ∧
      setDefaults [] app.options s.vars = .ok defaulted ∧ validateGroups app.groups defaulted.isUsed = .ok () ∧
      s.active_chain.inits.tail.foldlM (app.finishActive s.active_chain) defaulted = .ok vars' := by
  cases argv with
  | nil => cases h
  | cons cmd_name args =>
    obtain ⟨s, htokens, h⟩ := Checks.bind_ok_iff.mp h
    obtain ⟨_, hrequire, h⟩ := Checks.bind_ok_iff.mp h
    obtain ⟨defaulted, hdefaults, h⟩ := Checks.bind_ok_iff.mp h
    obtain ⟨_, hgroups, h⟩ := Checks.bind_ok_iff.mp h
    exact ⟨s, defaulted, htokens, hrequire, hdefaults, hgroups, h⟩

end

end PartitionManager
