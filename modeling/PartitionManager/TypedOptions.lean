import PartitionManager.GlobalOptions

namespace PartitionManager

/-- A variable that an option writes to. -/
structure Variable (D : Type) where
  get : D → Value
  set : Value → D → D
  get_set : ∀ value dest, get (set value dest) = value

/-- The only variable there is. -/
def Variable.whole : Variable Value where
  get value := value
  set value _ := value
  get_set _ _ := rfl

section

variable {D : Type}

/-- The setter that the constructor of an option makes for its variable. -/
def Variable.setter (var : Variable D) (T : Destination) (raw : Str) : Outcome (D → D) :=
  (from_string T raw).map var.set

namespace CmdOption

def transformed (option : CmdOption D) (raw : Str) : Outcome Str := option.transformer.elim (.ok raw) (· raw)

def checked (option : CmdOption D) (text : Str) : Outcome Unit := option.checker.elim (.ok ()) (· text)

/-- What the option makes of a text. -/
def decode (option : CmdOption D) (T : Destination) (raw : Str) : Outcome Value := do
  let text ← option.transformed raw
  from_string T text

variable {option : CmdOption D} {var : Variable D} {T : Destination} {raw : Str} {assign : D → D}

theorem decode_ok_iff {value : Value} : option.decode T raw = .ok value ↔
    ∃ text, option.transformed raw = .ok text ∧ from_string T text = .ok value := Checks.bind_ok_iff

theorem setter_ok_iff :
    var.setter T raw = .ok assign ↔ ∃ value, from_string T raw = .ok value ∧ var.set value = assign := by
  unfold Variable.setter
  cases from_string T raw with
  | error stop => exact iff_of_false (fun h => nomatch h) (fun h => nomatch h.choose_spec.1)
  | ok value =>
    constructor
    · intro h
      exact ⟨value, rfl, Except.ok.inj h⟩
    · intro h
      obtain ⟨value', hvalue, hassign⟩ := h
      cases hvalue
      exact congrArg Except.ok hassign

/-- A value that is accepted has been read, checked and assigned. -/
theorem accept_ok_iff (hsetter : option.setter = some (var.setter T)) : option.accept raw = .ok assign ↔
    ∃ text value, option.transformed raw = .ok text ∧ option.checked text = .ok () ∧
      from_string T text = .ok value ∧ option.callback.elim (.ok ()) id = .ok () ∧ assign = var.set value := by
  unfold accept
  rw [hsetter, Checks.bind_ok_iff]
  constructor
  · intro h
    obtain ⟨text, htext, h⟩ := h
    obtain ⟨_, hcheck, h⟩ := Checks.bind_ok_iff.mp h
    obtain ⟨assign', hset, h⟩ := Checks.bind_ok_iff.mp h
    obtain ⟨_, hcallback, h⟩ := Checks.bind_ok_iff.mp h
    cases h
    obtain ⟨value, hvalue, hassign⟩ := setter_ok_iff.mp hset
    exact ⟨text, value, htext, hcheck, hvalue, hcallback, hassign.symm⟩
  · intro h
    obtain ⟨text, value, htext, hcheck, hvalue, hcallback, rfl⟩ := h
    refine ⟨text, htext, Checks.bind_ok_iff.mpr ⟨(), hcheck, Checks.bind_ok_iff.mpr ⟨var.set value, ?_, ?_⟩⟩⟩
    · exact setter_ok_iff.mpr ⟨value, hvalue, rfl⟩
    · exact Checks.bind_ok_iff.mpr ⟨(), hcallback, rfl⟩

/-- The variable of an option holds what the option made of the text. -/
theorem get_of_accept (hsetter : option.setter = some (var.setter T)) (h : option.accept raw = .ok assign) (dest : D) :
    option.decode T raw = .ok (var.get (assign dest)) := by
  obtain ⟨text, value, htext, _, hvalue, _, rfl⟩ := (accept_ok_iff hsetter).mp h
  rw [var.get_set]
  exact decode_ok_iff.mpr ⟨text, htext, hvalue⟩

end CmdOption

/-- The two passes over the command line. -/
inductive Pass where
  | early (no_unknown_arg_error : Bool)
  | parse

namespace Pass

def missing : Pass → Str
  | early _ => "Missing early option value for: "
  | parse => "Missing option value for: "

/-- How the pass ends. -/
def run (app : App D) (argv : List Str) (vars : CmdState D) : Pass → Outcome (CmdState D)
  | early no_unknown_arg_error => app.parse_earlies no_unknown_arg_error argv vars
  | parse => app.parse argv vars

/-- What the pass acts on, with the state it finds. -/
def acts (app : App D) (argv : List Str) (vars : CmdState D) : Pass → List (CmdState D × TokenUse)
  | early no_unknown_arg_error =>
    ((app.earlyLoop no_unknown_arg_error).run 0 argv false vars).1.map fun v => (v.state, v.use)
  | parse => (app.parseVisits argv vars).map fun v => (v.state.vars, v.use)

variable {app : App D} {argv : List Str} {vars vars' before : CmdState D} {use : TokenUse} {pass : Pass}

/-- A pass that accepts the command line has carried out all it acts on. -/
theorem performed (h : pass.run app argv vars = .ok vars') (hmem : (before, use) ∈ pass.acts app argv vars) :
    ∃ after, app.perform pass.missing before use = .ok after := by
  cases pass with
  | early no_unknown_arg_error =>
    obtain ⟨marked, hloop, _⟩ := Checks.bind_ok_iff.mp h
    obtain ⟨v, hv, heq⟩ := List.mem_map.mp hmem
    cases heq
    exact TokenLoop.acted_of_run_ok hloop hv
  | parse =>
    obtain ⟨s, _, hloop, _⟩ := App.parse_ok h
    obtain ⟨v, hv, heq⟩ := List.mem_map.mp hmem
    cases heq
    obtain ⟨t, hact⟩ := TokenLoop.acted_of_run_ok hloop hv
    obtain ⟨after, hperform, _⟩ := App.parseLoop_act hact
    exact ⟨after, hperform⟩

end Pass

theorem App.accept_at {app : App D} {o : OptRef} {option : CmdOption D} (hat : app.option? o = some option)
    (raw : Str) : app.accept o raw = option.accept raw := by
  rw [App.accept, hat]

theorem App.perform_flag {app : App D} {missing token : Str} {o : OptRef} {option : CmdOption D}
    {vars vars' : CmdState D} (hat : app.option? o = some option)
    (h : app.perform missing vars (.flag token o) = .ok vars') :
    ∃ assign, option.accept "true" = .ok assign ∧ vars' = vars.mark o assign := by
  obtain ⟨_, assign, haccept, rfl⟩ := (App.perform_ok missing vars vars').mp h
  have hassign : app.accept o "true" = .ok assign := haccept
  rw [accept_at hat] at hassign
  exact ⟨assign, hassign, rfl⟩

end

end PartitionManager
