import PartitionManager.Library.Delimited
import PartitionManager.TypedOptions

namespace PartitionManager

section

variable {D : Type}

def EX_CONFIG : Int := 78

/-- An option with the delimiter among its properties. -/
structure DelimitedOption (D : Type) extends CmdOption D where
  option_delimiter : Char := ','

namespace DelimitedOption

/-- The constructor of an option for a variable of the type. -/
def new (spec : Str) (T : Destination) (dest : Variable D) : Outcome (DelimitedOption D) :=
  match split spec ',' with
  | [] => .error (.undefined .emptyVector)
  | name :: names => do
    let first ← charAt0 name
    if first ≠ '-' then
      if names ≠ [] then
        raise ((HelperError.mk "A maximum of one positional option name can be specified." 1
          false).cmdlineError.withCode EX_CONFIG)
      else .ok { valid_names := name :: names, setter := some (dest.setter T), is_positional := true }
    else if 1 < names.length then
      raise ((HelperError.mk "A maximum of two separate option/flag names can be specified." 1
        false).cmdlineError.withCode EX_CONFIG)
    else .ok { valid_names := name :: names, setter := some (dest.setter T) }

def delimiter (option : DelimitedOption D) (delim : Char) : DelimitedOption D :=
  { option with option_delimiter := delim }

end DelimitedOption

/-- The option is as its constructor made it, in what it does with a value. -/
structure CmdOption.Plain (option : CmdOption D) (dest : Variable D) (T : Destination) : Prop where
  setter : option.setter = some (dest.setter T)
  transformer : option.transformer = none
  checker : option.checker = none
  callback : option.callback = none
  is_flag : option.is_flag = false

/-- The ways to pass a text as the value of an option. -/
inductive Passes (option : CmdOption D) (o : OptRef) (text : Str) : TokenUse → Prop
  | equals {token : Str} {next : Option Str} (hequals : '=' ∈ token) (hvalue : argValue token = text) :
      Passes option o text (optionUse option o token next)
  | separate {token : Str} (hequals : '=' ∉ token) : Passes option o text (optionUse option o token (some text))
  | positional : Passes option o text (.positional text o)

/-- The strings, joined by the delimiter of the option. -/
def DelimitedOption.joined (option : DelimitedOption D) (strings : List Str) : Str :=
  List.intercalate [option.option_delimiter] strings

/-- Passing the joined strings stores the strings. -/
def DelimitedOption.StoresList (option : DelimitedOption D) (app : App D) (o : OptRef) (dest : Variable D)
    (vars : CmdState D) (strings : List Str) : Prop :=
  ∀ use, Passes option.toCmdOption o (option.joined strings) use → ∀ missing, ∃ after,
    app.perform missing vars use = .ok after ∧ dest.get after.dest = .strings strings

/-- The strings are not empty, do not start with a dash and have no delimiter in them. -/
def DelimitedOption.Joinable (option : DelimitedOption D) (strings : List Str) : Prop :=
  ∀ s ∈ strings, s ≠ [] ∧ option.option_delimiter ∉ s ∧ s.head? ≠ some '-'

theorem split_eq_fields (s : Str) (delim : Char) : split s delim = Delimited.fields delim s := by
  unfold split Delimited.fields
  congr 1
  funext part
  cases part <;> rfl

/-- Whatever the delimiter is set to, the value is split as the constructor says. -/
theorem DelimitedOption.new_plain {spec : Str} {T : Destination} {dest : Variable D} {option : DelimitedOption D}
    (h : new spec T dest = .ok option) (delim : Char) : (option.delimiter delim).Plain dest T := by
  unfold new at h
  split at h
  next => cases h
  next name names _ =>
    obtain ⟨first, _, h⟩ := Checks.bind_ok_iff.mp h
    split at h
    next =>
      split at h
      next => cases h
      next =>
        cases h
        exact ⟨rfl, rfl, rfl, rfl, rfl⟩
    next =>
      split at h
      next => cases h
      next =>
        cases h
        exact ⟨rfl, rfl, rfl, rfl, rfl⟩

variable {option : CmdOption D} {dest : Variable D} {T : Destination} {app : App D} {o : OptRef} {text : Str}

theorem CmdOption.Plain.accept_ok_iff (h : option.Plain dest T) {raw : Str} {assign : D → D} :
    option.accept raw = .ok assign ↔ ∃ value, from_string T raw = .ok value ∧ assign = dest.set value := by
  rw [CmdOption.accept_ok_iff h.setter]
  simp only [CmdOption.transformed, CmdOption.checked, h.transformer, h.checker, h.callback]
  constructor
  · intro haccept
    obtain ⟨text, value, htext, _, hvalue, _, hassign⟩ := haccept
    cases htext
    exact ⟨value, hvalue, hassign⟩
  · intro haccept
    obtain ⟨value, hvalue, hassign⟩ := haccept
    exact ⟨raw, value, rfl, rfl, hvalue, rfl, hassign⟩

/-- A text that is no option is read as the value, however it is passed. -/
theorem Passes.given (hflag : option.is_flag = false) (hne : text ≠ []) (hdash : text.head? ≠ some '-')
    {use : TokenUse} (h : Passes option o text use) : use.given = some (o, text) := by
  cases h with
  | @equals token next hequals hvalue =>
    have huse : optionUse option o token next = .equals token (argValue token) o := by
      unfold optionUse
      rw [if_neg (by simp [hflag]), if_pos hequals]
    rw [huse, hvalue]
    rfl
  | @separate token hequals =>
    obtain ⟨c, rest, rfl⟩ := List.exists_cons_of_ne_nil hne
    have hc : c ≠ '-' := by simpa using hdash
    have huse : optionUse option o token (some (c :: rest)) = .separate token (c :: rest) o := by
      unfold optionUse
      rw [if_neg (by simp [hflag]), if_neg hequals]
      exact if_neg hc
    rw [huse]
    rfl
  | positional => rfl

/-- A value that is given to a plain option is converted and stored. -/
theorem CmdOption.Plain.perform_ok_iff (h : option.Plain dest T) (hat : app.option? o = some option) {use : TokenUse}
    (hgiven : use.given = some (o, text)) {missing : Str} {vars after : CmdState D} :
    app.perform missing vars use = .ok after ↔
      ∃ value, from_string T text = .ok value ∧ after = vars.mark o (dest.set value) := by
  have hvalued : ∀ token next o, use ≠ .valueless token next o := by
    intro token next o huse
    rw [huse] at hgiven
    cases hgiven
  have hassignment : app.assignment use = option.accept text := by
    rw [App.assignment, hgiven]
    exact App.accept_at hat text
  rw [App.perform_ok, hassignment, hgiven, and_iff_right hvalued]
  constructor
  · intro hperform
    obtain ⟨assign, haccept, rfl⟩ := hperform
    obtain ⟨value, hvalue, rfl⟩ := h.accept_ok_iff.mp haccept
    exact ⟨value, hvalue, rfl⟩
  · intro hperform
    obtain ⟨value, hvalue, rfl⟩ := hperform
    exact ⟨dest.set value, h.accept_ok_iff.mpr ⟨value, hvalue, rfl⟩, rfl⟩

/-- A list comes back exactly if the delimiter is the comma of the splitter, or nothing had
to be joined and no comma is in the string. -/
theorem option_list_survives_iff {option : DelimitedOption D} (hplain : option.Plain dest .vector_string)
    (hat : app.option? o = some option.toCmdOption) {strings : List Str} (hne : strings ≠ [])
    (hstrings : option.Joinable strings) (vars : CmdState D) : option.StoresList app o dest vars strings ↔
      option.option_delimiter = ',' ∨ ∃ s, strings = [s] ∧ ',' ∉ s := by
  have hparts : ∀ s ∈ strings, s ≠ [] ∧ option.option_delimiter ∉ s := fun s hs =>
    ⟨(hstrings s hs).1, (hstrings s hs).2.1⟩
  obtain ⟨first, rest, rfl⟩ := List.exists_cons_of_ne_nil hne
  obtain ⟨hfirst, _, hdash⟩ := hstrings first List.mem_cons_self
  obtain ⟨c, tail, rfl⟩ := List.exists_cons_of_ne_nil hfirst
  -- the joined text starts as its first string does
  have hjoined : ∃ later, option.joined ((c :: tail) :: rest) = c :: later := by
    cases rest with
    | nil => exact ⟨tail, List.intercalate_singleton⟩
    | cons second rest => exact ⟨_, List.intercalate_cons_cons⟩
  obtain ⟨later, hlater⟩ := hjoined
  have hgiven : ∀ use, Passes option.toCmdOption o (option.joined ((c :: tail) :: rest)) use →
      use.given = some (o, option.joined ((c :: tail) :: rest)) := by
    intro use huse
    refine huse.given hplain.is_flag ?_ ?_
    · rw [hlater]
      exact List.cons_ne_nil _ _
    · rw [hlater]
      exact hdash
  have hstores : option.StoresList app o dest vars ((c :: tail) :: rest) ↔
      split (option.joined ((c :: tail) :: rest)) ',' = (c :: tail) :: rest := by
    constructor
    · intro h
      obtain ⟨after, hperform, hget⟩ := h _ .positional []
      obtain ⟨value, hvalue, rfl⟩ := (hplain.perform_ok_iff hat (hgiven _ .positional)).mp hperform
      have hstored : dest.get (dest.set value vars.dest) = .strings ((c :: tail) :: rest) := hget
      rw [dest.get_set] at hstored
      rw [hstored] at hvalue
      exact Value.strings.inj (Except.ok.inj hvalue)
    · intro h use huse missing
      refine ⟨_, (hplain.perform_ok_iff hat (hgiven use huse)).mpr ⟨_, rfl, rfl⟩, ?_⟩
      rw [h]
      exact dest.get_set _ _
  rw [hstores, split_eq_fields]
  by_cases hcomma : option.option_delimiter = ','
  · have hall := Delimited.fields_intercalate hne hparts
    rw [hcomma] at hall
    refine iff_of_true ?_ (Or.inl hcomma)
    rw [DelimitedOption.joined, hcomma]
    exact hall
  · rw [or_iff_right hcomma]
    exact Delimited.fields_intercalate_other_iff hcomma hne hparts

end

/-- The option for the plugin files, before `main` marks it as early. -/
def pluginsOption : DelimitedOption Value where
  valid_names := ["-p", "--plugins"]
  setter := some (Variable.whole.setter .vector_string)

def pluginsApp (delim : Char) : App Value where
  options := [(pluginsOption.delimiter delim).toCmdOption]
  subcommands := []
  groups := []
  auto_help_enabled := true

theorem pluginsOption_plain (delim : Char) : (pluginsOption.delimiter delim).Plain Variable.whole .vector_string := by
  have hnew : DelimitedOption.new "-p,--plugins" .vector_string Variable.whole = .ok pluginsOption := rfl
  exact DelimitedOption.new_plain hnew delim

theorem option_list_survives_comma :
    (pluginsOption.delimiter ',').StoresList (pluginsApp ',') ⟨[], 0⟩ Variable.whole
      ((pluginsApp ',').fresh (.strings [])) ["a", "b"] ↔ ',' = ',' ∨ ∃ s : Str, ["a".toList, "b"] = [s] ∧ ',' ∉ s :=
  option_list_survives_iff (pluginsOption_plain ',') rfl (by decide) (by unfold DelimitedOption.Joinable; decide) _

/-- With `;` set as the delimiter, `a;b` is stored as one string. -/
theorem semicolon_is_not_split :
    (∃ vars, (pluginsApp ';').parse ["pmt", "-p", "a;b"] ((pluginsApp ';').fresh (.strings [])) = .ok vars ∧
      vars.dest = .strings ["a;b"]) ∧
    (pluginsOption.delimiter ';').Joinable ["a", "b"] ∧
    (pluginsOption.delimiter ';').joined ["a", "b"] = "a;b".toList ∧
    ¬ (pluginsOption.delimiter ';').StoresList (pluginsApp ';') ⟨[], 0⟩ Variable.whole
      ((pluginsApp ';').fresh (.strings [])) ["a", "b"] := by
  refine ⟨⟨_, rfl, by decide⟩, by unfold DelimitedOption.Joinable; decide, by decide, fun h => ?_⟩
  obtain ⟨after, hperform, hget⟩ := h _ .positional []
  obtain ⟨value, hvalue, rfl⟩ := ((pluginsOption_plain ';').perform_ok_iff rfl rfl).mp hperform
  have hstored : value = .strings ["a", "b"] := hget
  rw [hstored] at hvalue
  revert hvalue
  decide

end PartitionManager
