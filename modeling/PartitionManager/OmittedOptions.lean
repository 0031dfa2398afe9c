import Mathlib.Data.List.Find
import PartitionManager.AlikePasses

namespace PartitionManager

section

variable {D : Type}

namespace App

variable (app : App D)

/-- The early pass, and `parse` on what it leaves. -/
def twoPasses (argv : List Str) (dest : D) : Outcome (CmdState D) := do
  let vars ← app.parse_earlies true argv (app.fresh dest)
  app.parse argv vars

/-- The option is not mandatory, waives nothing and is in no group. -/
structure Optional (o : OptRef) : Prop where
  required : ∀ option, app.option? o = some option → option.is_required = false
  superior : ∀ option, app.option? o = some option → option.superior = false
  ungrouped : ∀ path, ∀ group ∈ app.groupsAt path, o ∉ group.group_options

/-- Both passes get through the first tokens. `parse` reads the next ones as one use that gives the
text to the option, and so does the early pass unless it passes them over. -/
structure PassedAfter (pre extra : List Str) (o : OptRef) (text : Str) : Prop where
  program : pre ≠ []
  early : ∀ vars, ∃ s, ((app.earlyLoop true).run 0 pre false vars).2 = .ok s ∧
    ((app.earlyLoop true).run 0 extra false s = ([], .ok s) ∨ ∃ use t,
      (app.earlyLoop true).run 0 extra false s = ([⟨0, s, use⟩], .ok t) ∧ use.given = some (o, text))
  parse : ∀ vars, ∃ s use t, (app.parseLoop.run 1 pre.tail false ⟨vars, [], fun _ => 0⟩).2 = .ok s ∧
    app.parseLoop.run 1 extra false s = ([⟨1, s, use⟩], .ok t) ∧ use.given = some (o, text)

/-- Without the tokens in the middle the variable ends with the same value, or the command line is
rejected in the same way. -/
def SameWithout (var : Variable D) (pre extra post : List Str) (dest : D) : Prop :=
  Alike (fun vars other => var.get other.dest = var.get vars.dest) (app.twoPasses (pre ++ post) dest)
    (app.twoPasses (pre ++ extra ++ post) dest)

/-- Neither pass uses the option. -/
structure LeavesOut (argv : List Str) (o : OptRef) : Prop where
  early : ∀ vars, ∀ v ∈ ((app.earlyLoop true).run 0 argv false vars).1, v.use.option ≠ some o
  parse : ∀ vars, ∀ use ∈ app.parseUses argv vars, use.option ≠ some o

end App

/-- The option is marked in the second state only, and all others alike. -/
structure CmdState.MarkedAfter (o : OptRef) (vars other : CmdState D) : Prop extends AgreeOff o vars other where
  unused : vars.isUsed o = false
  used : other.isUsed o = true

variable {app : App D} {o : OptRef} {vars other : CmdState D}

namespace App.Optional

variable (hfree : app.Optional o)

include hfree

theorem waives_eq (h : vars.AgreeOff o other) (path : List Nat) :
    app.waives other.isUsed path = app.waives vars.isUsed path := by
  rw [Bool.eq_iff_iff, waives_iff, waives_iff]
  refine and_congr_right fun _ => exists_congr fun o' => exists_congr fun option => ?_
  refine and_congr_right fun _ => and_congr_right fun hat => and_congr_right fun hsuperior => ?_
  have hne : o' ≠ o := by
    rintro rfl
    rw [hfree.superior option hat] at hsuperior
    cases hsuperior
  rw [h.isUsed o' hne]

theorem requireOptions_eq (h : vars.AgreeOff o other) {message : Str} {due : CmdOption D → Bool} {path : List Nat}
    (hdue : ∀ option, due option = true → option.is_required = true) :
    requireOptions message due path (app.optionsAt path) other.isUsed =
      requireOptions message due path (app.optionsAt path) vars.isUsed := by
  have hsame : ∀ arg ∈ (app.optionsAt path).zipIdx,
      (due arg.1 && !other.isUsed ⟨path, arg.2⟩) = (due arg.1 && !vars.isUsed ⟨path, arg.2⟩) := by
    intro arg hmem
    by_cases hne : (⟨path, arg.2⟩ : OptRef) = o
    · have hat : app.option? o = some arg.1 := by
        rw [← hne]
        exact List.mem_zipIdx_iff_getElem?.mp hmem
      have hnotdue : due arg.1 = false := by
        by_contra hdue'
        have hrequired := hdue arg.1 (by simpa using hdue')
        rw [hfree.required arg.1 hat] at hrequired
        cases hrequired
      rw [hnotdue, Bool.false_and, Bool.false_and]
    · rw [h.isUsed _ hne]
  unfold requireOptions
  rw [List.find?_congr hsame]

theorem validateGroups_eq (h : vars.AgreeOff o other) (path : List Nat) :
    validateGroups (app.groupsAt path) other.isUsed = validateGroups (app.groupsAt path) vars.isUsed := by
  have hsame : ∀ group ∈ app.groupsAt path, group.validate other.isUsed = group.validate vars.isUsed := by
    intro group hmem
    have hcount : group.usedCount other.isUsed = group.usedCount vars.isUsed := by
      refine List.countP_congr fun o' ho' => ?_
      rw [h.isUsed o']
      rintro rfl
      exact hfree.ungrouped path group hmem ho'
    unfold OptionGroup.validate
    rw [hcount]
  generalize app.groupsAt path = groups at hsame
  induction groups with
  | nil => rfl
  | cons group rest ih =>
    obtain ⟨hfirst, hrest⟩ := List.forall_mem_cons.mp hsame
    simp only [validateGroups, List.forM_eq_forM, List.forM_cons] at ih ⊢
    rw [hfirst, ih hrest]

end App.Optional

namespace CmdState.MarkedAfter

variable {option : CmdOption D} {text : Str}

/-- The default of another option is set alike. -/
theorem setDefault_other (h : vars.MarkedAfter o other) {o' : OptRef} (hne : o' ≠ o) :
    Alike (fun c c' : CmdState D => c.MarkedAfter o c' ∧ c.default_value o = vars.default_value o)
      (setDefault vars o' option) (setDefault other o' option) := by
  unfold setDefault
  rw [h.default_value o' hne, h.isUsed o' hne]
  cases vars.default_value o' with
  | none => exact .ok ⟨h, rfl⟩
  | some text =>
    dsimp only
    split
    next => exact .ok ⟨h, rfl⟩
    next =>
      refine (Alike.of_eq rfl fun _ => rfl : Alike Eq (option.acceptDefault text) (option.acceptDefault text)).bind ?_
      rintro ⟨text', assign⟩ _ rfl
      refine .ok ⟨⟨⟨h.isUsed, fun o'' hne' => ?_⟩, h.unused, h.used⟩, Function.update_of_ne hne.symm _ _⟩
      show Function.update other.default_value o' (some text') o'' =
        Function.update vars.default_value o' (some text') o''
      by_cases hsame : o'' = o'
      · rw [hsame, Function.update_self, Function.update_self]
      · rw [Function.update_of_ne hsame, Function.update_of_ne hsame, h.default_value o'' hne']

/-- The default of the option itself is set in the first state only, where it is accepted. -/
theorem setDefault_own (h : vars.MarkedAfter o other) (htext : vars.default_value o = some text)
    (haccept : ∃ accepted, option.acceptDefault text = .ok accepted) :
    Alike (MarkedAfter o) (setDefault vars o option) (setDefault other o option) := by
  obtain ⟨⟨text', assign⟩, haccept⟩ := haccept
  have hother : setDefault other o option = .ok other := setDefault_kept (Or.inl h.used)
  have hvars : setDefault vars o option = .ok { vars with
      default_value := Function.update vars.default_value o (some text'), dest := assign vars.dest } := by
    rw [setDefault_due h.unused htext, haccept]
    rfl
  rw [hother, hvars]
  refine .ok ⟨⟨h.isUsed, fun o' hne => ?_⟩, h.unused, h.used⟩
  exact (h.default_value o' hne).trans (Function.update_of_ne hne _ _).symm

/-- The defaults of a level are set alike. -/
theorem setDefaults_alike (h : vars.MarkedAfter o other) {path : List Nat} {options : List (CmdOption D)}
    (hown : path = o.path → options[o.index]? = some option ∧ vars.default_value o = some text)
    (haccept : ∃ accepted, option.acceptDefault text = .ok accepted) :
    Alike (fun c c' : CmdState D => c.MarkedAfter o c' ∧ (path ≠ o.path → c.default_value o = vars.default_value o))
      (setDefaults path options vars) (setDefaults path options other) := by
  have hsnd : (options.zipIdx.map Prod.snd).Nodup := by
    rw [List.zipIdx_map_snd]
    exact List.nodup_range'
  unfold setDefaults
  refine (Alike.foldlM (fun pre c c' => c.MarkedAfter o c' ∧
    ((∀ arg ∈ pre, (⟨path, arg.2⟩ : OptRef) ≠ o) → c.default_value o = vars.default_value o))
    (fun pre arg post c c' hsplit hc => ?_) ⟨h, fun _ => rfl⟩).imp fun c c' hc => ?_
  · by_cases hne : o = (⟨path, arg.2⟩ : OptRef)
    · -- no earlier place of the list is that of the option
      have hnew : ∀ arg' ∈ pre, (⟨path, arg'.2⟩ : OptRef) ≠ o := by
        intro arg' hmem heq
        rw [hsplit, List.map_append, List.map_cons, List.nodup_middle, List.nodup_cons, List.mem_append, not_or] at hsnd
        refine hsnd.1.1 (List.mem_map.mpr ⟨arg', hmem, ?_⟩)
        exact congrArg OptRef.index (heq.trans hne)
      have hpath : path = o.path := (congrArg OptRef.path hne).symm
      obtain ⟨hat, htext⟩ := hown hpath
      have hoption : arg.1 = option := by
        have hthere : options[arg.2]? = some arg.1 := List.mem_zipIdx_iff_getElem?.mp (by rw [hsplit]; simp)
        have hindex : o.index = arg.2 := congrArg OptRef.index hne
        rw [← hindex, hat] at hthere
        exact (Option.some.inj hthere).symm
      rw [hoption, ← hne]
      refine (hc.1.setDefault_own ((hc.2 hnew).trans htext) haccept).imp fun d d' hd => ⟨hd, fun hall => ?_⟩
      exact absurd hne.symm (hall arg (by simp))
    · refine (hc.1.setDefault_other fun heq => hne heq.symm).imp fun d d' hd => ⟨hd.1, fun hall => ?_⟩
      exact hd.2.trans (hc.2 fun arg' hmem => hall arg' (List.mem_append_left _ hmem))
  · refine ⟨hc.1, fun hpath => hc.2 fun arg _ heq => hpath ?_⟩
    exact congrArg OptRef.path heq

end CmdState.MarkedAfter

/-- After the tokens both states are treated alike. -/
theorem App.Optional.steps_alike (hfree : app.Optional o) {option : CmdOption D} {text : Str}
    (hat : app.option? o = some option) (haccept : ∃ accepted, option.acceptDefault text = .ok accepted)
    (h : vars.MarkedAfter o other) (htext : vars.default_value o = some text) (active_chain : List Nat) :
    Alike (CmdState.MarkedAfter o) ((finishSteps active_chain).foldlM (app.runStep active_chain) vars)
      ((finishSteps active_chain).foldlM (app.runStep active_chain) other) := by
  refine (Alike.foldlM (fun pre c c' => c.MarkedAfter o c' ∧
    (FinishStep.defaults o.path ∉ pre → c.default_value o = some text))
    (fun pre step post c c' hsplit hc => ?_) ⟨h, fun _ => htext⟩).imp fun c c' hc => hc.1
  have hkeep : step.isObligation = true → c.MarkedAfter o c' ∧
      (FinishStep.defaults o.path ∉ pre ++ [step] → c.default_value o = some text) := by
    intro _
    exact ⟨hc.1, fun hnew => hc.2 fun hmem => hnew (List.mem_append_left _ hmem)⟩
  cases step with
  | required path =>
    have hwaives := hfree.waives_eq hc.1.toAgreeOff path
    simp only [runStep, hwaives]
    rw [hfree.requireOptions_eq hc.1.toAgreeOff fun option hdue => (Bool.and_eq_true_iff.mp hdue).1]
    exact .check _ (hkeep rfl)
  | groups path =>
    simp only [runStep]
    rw [hfree.validateGroups_eq hc.1.toAgreeOff]
    exact .check _ (hkeep rfl)
  | nested path =>
    have hwaives := hfree.waives_eq hc.1.toAgreeOff path
    simp only [runStep, hwaives]
    split
    next => exact .error _
    next => exact .ok (hkeep rfl)
  | defaults path =>
    have hfresh := finishSteps_fresh hsplit
    have hown : path = o.path → (app.optionsAt path)[o.index]? = some option ∧ c.default_value o = some text := by
      rintro rfl
      exact ⟨hat, hc.2 hfresh⟩
    refine (hc.1.setDefaults_alike hown haccept).imp fun d d' hd => ⟨hd.1, fun hnew => ?_⟩
    rw [List.mem_append, not_or, List.mem_singleton] at hnew
    rw [hd.2 fun hpath => hnew.2 (congrArg FinishStep.defaults hpath.symm)]
    exact hc.2 hnew.1

namespace App

variable {pre extra post : List Str} {text : Str}

theorem earlyLoop_alike {i j : Nat} {args : List Str} (h : vars.AgreeOff o other) :
    Alike (CmdState.AgreeOff o) ((app.earlyLoop true).run i args false vars).2
      ((app.earlyLoop true).run j args false other).2 := by
  refine (TokenLoop.run_alike (fun _ => True) (fun _ _ _ _ _ _ => rfl) ?_ (fun _ => rfl) h fun _ _ => trivial).1
  intro s t token next use h _ _
  exact perform_alike h fun o' raw assign _ => h.mark o' assign assign

/-- What the tokens of the option change in the early pass is the option. -/
theorem PassedAfter.earlyLoop_alike (h : app.PassedAfter pre extra o text) (post : List Str) (dest : D) :
    ((app.earlyLoop true).run 0 (pre ++ extra ++ post) false (app.fresh dest)).2 =
        ((app.earlyLoop true).run 0 (pre ++ post) false (app.fresh dest)).2 ∨
      (o.path = [] ∧ Alike (CmdState.AgreeOff o) ((app.earlyLoop true).run 0 (pre ++ post) false (app.fresh dest)).2
        ((app.earlyLoop true).run 0 (pre ++ extra ++ post) false (app.fresh dest)).2 ∧
        ∀ vars, ((app.earlyLoop true).run 0 (pre ++ extra ++ post) false (app.fresh dest)).2 = .ok vars →
          vars.isUsed o = true) := by
  obtain ⟨s, hs, hextra⟩ := h.early (app.fresh dest)
  rw [earlyLoop_append post hs, List.append_assoc, earlyLoop_append (extra ++ post) hs]
  dsimp only
  rcases hextra with hover | ⟨use, t, hgives, hgiven⟩
  · left
    have hok : ((app.earlyLoop true).run (0 + pre.length) extra false s).2 = .ok s := by
      rw [(TokenLoop.run_index 0 _ extra false s).1, hover]
    rw [earlyLoop_append post hok]
    exact (TokenLoop.run_index _ _ post false s).1
  · right
    have hok : ((app.earlyLoop true).run (0 + pre.length) extra false s).2 = .ok t := by
      rw [(TokenLoop.run_index 0 _ extra false s).1, hgives]
    rw [earlyLoop_append post hok]
    obtain ⟨hact, token, next, hread⟩ := TokenLoop.run_one hgives
    obtain ⟨⟨k, option, ho, _, _⟩, _⟩ := readEarly_isEarly hread
    have hoption := TokenUse.given_option hgiven
    obtain ⟨_, assign, _, ht⟩ := (perform_ok _ _ _).mp hact
    rw [hgiven] at ht
    have hagree : s.AgreeOff o t := by
      rw [ht]
      exact (CmdState.AgreeOff.refl s).mark_right assign
    have hmarked : t.isUsed o = true := by
      rw [ht]
      exact Function.update_self _ _ _
    refine ⟨?_, App.earlyLoop_alike hagree, fun vars hvars => ?_⟩
    · cases ho.symm.trans hoption
      rfl
    · refine TokenLoop.run_invariant (fun c => c.isUsed o = true) (fun c use c' hc hstep => ?_) hmarked hvars
      rw [perform_isUsed hstep o, hc, Bool.or_true]

/-- A pass that does not use the option leaves it alone. -/
theorem earlyLoop_unused {i : Nat} {args : List Str} (hno : ∀ v ∈ ((app.earlyLoop true).run i args false vars).1,
      v.use.option ≠ some o) (h : ((app.earlyLoop true).run i args false vars).2 = .ok other) :
    other.isUsed o = vars.isUsed o ∧ other.default_value = vars.default_value := by
  have hkept := (TokenLoop.run_ok (fun before (c : CmdState D) => c.isUsed o = (used before o || vars.isUsed o) ∧
    c.default_value = vars.default_value) (fun _ _ => True) ?_ ⟨rfl, rfl⟩ h).1
  · have hunused : used (((app.earlyLoop true).run i args false vars).1.map TokenLoop.Visit.use) o = false := by
      rw [used, List.any_map, List.any_eq_false]
      intro v hv
      simpa using hno v hv
    rw [hunused, Bool.false_or] at hkept
    exact hkept
  · intro before s token next use s' hs _ hact
    refine ⟨trivial, ?_, (perform_default_value hact).trans hs.2⟩
    rw [perform_isUsed hact o, used_append, hs.1, Bool.or_assoc]

section

variable {option : CmdOption D} (hfree : app.Optional o) (hat : app.option? o = some option)
  (haccept : ∃ accepted, option.acceptDefault text = .ok accepted)
  (hpassed : app.PassedAfter pre extra o text) (hout : app.LeavesOut (pre ++ post) o)

include hfree hat haccept hpassed hout

/-- After the early passes only the option can differ. -/
theorem parse_earlies_alike {dest : D} (hdefault : option.default_value = some text) :
    Alike (CmdState.AgreeOff o) (app.parse_earlies true (pre ++ post) (app.fresh dest))
      (app.parse_earlies true (pre ++ extra ++ post) (app.fresh dest)) := by
  rcases hpassed.earlyLoop_alike post dest with hsame | ⟨hpath, hloops, hmarked⟩
  · refine .of_eq ?_ CmdState.AgreeOff.refl
    unfold parse_earlies
    rw [hsame]
  · have hleft : ∀ vars, ((app.earlyLoop true).run 0 (pre ++ post) false (app.fresh dest)).2 = .ok vars →
        vars.isUsed o = false ∧ vars.default_value o = some text := by
      intro vars hvars
      obtain ⟨hused, htexts⟩ := earlyLoop_unused (hout.early _) hvars
      refine ⟨hused, ?_⟩
      rw [htexts, App.fresh_default_value hat, hdefault]
    refine (hloops.with_results hleft hmarked).bind fun vars other hboth => ?_
    obtain ⟨hagree, ⟨hunused, htext⟩, hused⟩ := hboth
    have hafter : vars.MarkedAfter o other := ⟨hagree, hunused, hused⟩
    have hrequire : requireOptions "Missing required early option: " (fun option => option.is_required && option.early)
        [] app.options other.isUsed = requireOptions "Missing required early option: "
          (fun option => option.is_required && option.early) [] app.options vars.isUsed :=
      hfree.requireOptions_eq hagree fun option hdue => (Bool.and_eq_true_iff.mp hdue).1
    rw [hrequire]
    have hown : ([] : List Nat) = o.path → app.options[o.index]? = some option ∧ vars.default_value o = some text := by
      intro _
      refine ⟨?_, htext⟩
      rw [option?, hpath] at hat
      exact hat
    have hdefaults := (hafter.setDefaults_alike hown haccept).imp fun c c' hc => hc.1.toAgreeOff
    refine (Alike.of_eq rfl fun _ => rfl : Alike Eq _ _).bind fun _ _ _ => hdefaults

end

/-- What the early pass leaves of an option that it does not use. -/
theorem parse_earlies_unused {option : CmdOption D} (hat : app.option? o = some option)
    (hdefault : option.default_value = some text) {argv : List Str} (hout : app.LeavesOut argv o) {dest : D}
    (h : app.parse_earlies true argv (app.fresh dest) = .ok vars) :
    vars.isUsed o = false ∧ ∃ stored, vars.default_value o = some stored ∧
      (o.path = [] → option.transformed text = .ok stored) ∧ (o.path ≠ [] → stored = text) := by
  obtain ⟨marked, hloop, hrest⟩ := Checks.bind_ok_iff.mp h
  obtain ⟨_, _, hdefaults⟩ := Checks.bind_ok_iff.mp hrest
  obtain ⟨hused, htexts⟩ := earlyLoop_unused (hout.early _) hloop
  have hunused : marked.isUsed o = false := hused
  have htext : marked.default_value o = some text := by
    rw [htexts, App.fresh_default_value hat, hdefault]
  refine ⟨(congrFun (setDefaults_isUsed hdefaults) o).trans hunused, ?_⟩
  by_cases hpath : o.path = []
  · have hthere : app.options[o.index]? = some option := by
      rw [option?, hpath] at hat
      exact hat
    rw [← hpath] at hdefaults
    obtain ⟨stored, htransformed, hstored⟩ := setDefaults_stores hthere hunused htext hdefaults
    exact ⟨stored, hstored, fun _ => htransformed, fun hne => absurd hpath hne⟩
  · refine ⟨text, ?_, fun hnil => absurd hnil hpath, fun _ => rfl⟩
    rw [setDefaults_default_value hdefaults hpath, htext]

theorem parse_eq_bind (cmd_name : Str) (args : List Str) (vars : CmdState D) : app.parse (cmd_name :: args) vars =
    (app.parseLoop.run 1 args false ⟨vars, [], fun _ => 0⟩).2 >>= fun s =>
      (finishSteps s.active_chain).foldlM (app.runStep s.active_chain) s.vars := by
  cases hrun : (app.parseLoop.run 1 args false ⟨vars, [], fun _ => 0⟩).2 with
  | error stop =>
    simp only [parse, hrun]
    rfl
  | ok s => exact parse_of_reads ⟨cmd_name, args, rfl, hrun⟩

/-- The tokens of the option add their use to those of `parse`, and change nothing else. -/
theorem PassedAfter.parseLoop_alike (h : app.PassedAfter pre extra o text) (hagree : vars.AgreeOff o other)
    (hout : app.LeavesOut (pre ++ post) o) :
    Alike (app.Beside o) (app.parseLoop.run 1 (pre.tail ++ post) false ⟨vars, [], fun _ => 0⟩).2
        (app.parseLoop.run 1 (pre.tail ++ (extra ++ post)) false ⟨other, [], fun _ => 0⟩).2 ∧
      ∃ before use after, app.parseUses (pre ++ extra ++ post) other = before ++ use :: after ∧
        app.parseUses (pre ++ post) vars = before ++ after ∧ use.given = some (o, text) ∧
        o.path <+: chainOf before := by
  obtain ⟨s, _, _, hs, _⟩ := h.parse vars
  obtain ⟨s', use, t, hs', hextra, hgiven⟩ := h.parse other
  have htail : ∀ rest, (pre ++ rest).tail = pre.tail ++ rest := fun rest => List.tail_append_of_ne_nil h.program
  have hno := hout.parse vars
  rw [parseUses, parseVisits, htail, parseLoop_append post hs, List.map_append] at hno
  have hpre : ∀ v ∈ (app.parseLoop.run 1 pre.tail false ⟨vars, [], fun _ => 0⟩).1, v.use.option ≠ some o := fun v hv =>
    hno v.use (List.mem_append_left _ (List.mem_map_of_mem hv))
  have hpost : ∀ v ∈ (app.parseLoop.run (1 + pre.tail.length) post false s).1, v.use.option ≠ some o := fun v hv =>
    hno v.use (List.mem_append_right _ (List.mem_map_of_mem hv))
  -- the passes come to the tokens of the option beside each other
  have hstart : app.Beside o ⟨vars, [], fun _ => 0⟩ ⟨other, [], fun _ => 0⟩ :=
    ⟨rfl, fun _ _ => rfl, Or.inl rfl, hagree⟩
  obtain ⟨hends, husesPre⟩ := App.parseLoop_alike (j := 1) hstart hpre
  obtain ⟨s'', hs'', hbeside⟩ := hends.exists_ok hs
  cases hs'.symm.trans hs''
  obtain ⟨hact, token, next, hread⟩ := TokenLoop.run_one hextra
  obtain ⟨hvalued, assign, _, rfl⟩ := parseLoop_act_ok.mp hact
  have hoption := TokenUse.given_option hgiven
  have hnext := hbeside.give_own (parseLoop_read hread) hoption hvalued assign
  have hok : (app.parseLoop.run (1 + pre.tail.length) extra false s').2 = .ok (s'.give use assign) := by
    rw [(TokenLoop.run_index 1 _ extra false s').1, hextra]
  have huse : (app.parseLoop.run (1 + pre.tail.length) extra false s').1.map TokenLoop.Visit.use = [use] := by
    rw [(TokenLoop.run_index 1 _ extra false s').2, hextra]
    rfl
  obtain ⟨hrest, husesPost⟩ := App.parseLoop_alike (j := 1 + pre.tail.length + extra.length) hnext hpost
  refine ⟨?_, (app.parseLoop.run 1 pre.tail false ⟨vars, [], fun _ => 0⟩).1.map TokenLoop.Visit.use, use,
    (app.parseLoop.run (1 + pre.tail.length) post false s).1.map TokenLoop.Visit.use, ?_, ?_, hgiven, ?_⟩
  · rw [parseLoop_append post hs, parseLoop_append (extra ++ post) hs', parseLoop_append post hok]
    exact hrest
  · rw [parseUses, parseVisits, List.append_assoc, htail, parseLoop_append (extra ++ post) hs',
      parseLoop_append post hok, List.map_append, List.map_append, huse, husesPre, husesPost]
    rfl
  · rw [parseUses, parseVisits, htail, parseLoop_append post hs, List.map_append]
  · have hplays := TokenLoop.plays_of_run parseLoop_all parseLoop_own parseLoop_steady hs
    have hchain : s.active_chain = chainOf _ := plays_chain hplays
    rw [← hchain, ← hbeside.active_chain]
    exact (readToken_within (parseLoop_read hread) hoption).1

/-- `parse` marks what its uses name, and stores no text before the defaults. -/
theorem parseLoop_marks {i : Nat} {args : List Str} {s t : ParseState D}
    (h : (app.parseLoop.run i args false s).2 = .ok t) :
    t.vars.isUsed o = (used ((app.parseLoop.run i args false s).1.map TokenLoop.Visit.use) o || s.vars.isUsed o) ∧
      t.vars.default_value = s.vars.default_value := by
  refine (TokenLoop.run_ok (fun before (c : ParseState D) => c.vars.isUsed o = (used before o || s.vars.isUsed o) ∧
    c.vars.default_value = s.vars.default_value) (fun _ _ => True) ?_ ⟨rfl, rfl⟩ h).1
  intro before c token next use c' hc _ hact
  obtain ⟨vars, hperform, rfl⟩ := parseLoop_act hact
  refine ⟨trivial, ?_, ?_⟩
  · rw [ParseState.advance_isUsed, perform_isUsed hperform o, used_append, hc.1, Bool.or_assoc]
  · have hkept : (c.advance vars use).vars.default_value = vars.default_value := by cases use <;> rfl
    rw [hkept, perform_default_value hperform, hc.2]

theorem parse_alike {option : CmdOption D} {stored : Str} (hfree : app.Optional o) (hat : app.option? o = some option)
    (haccept : ∃ accepted, option.acceptDefault stored = .ok accepted) (hpassed : app.PassedAfter pre extra o text)
    (hout : app.LeavesOut (pre ++ post) o) (hagree : vars.AgreeOff o other) (hunused : vars.isUsed o = false)
    (hstored : vars.default_value o = some stored) :
    Alike (CmdState.MarkedAfter o) (app.parse (pre ++ post) vars) (app.parse (pre ++ extra ++ post) other) := by
  obtain ⟨hloops, before, use, after, huses', huses, hgiven, _⟩ := hpassed.parseLoop_alike hagree hout
  have hno := hout.parse vars
  obtain ⟨cmd_name, args, rfl⟩ := List.exists_cons_of_ne_nil hpassed.program
  rw [List.append_assoc]
  simp only [List.cons_append, List.tail_cons] at hloops huses' huses hno ⊢
  rw [parse_eq_bind, parse_eq_bind]
  have hleft : ∀ s, (app.parseLoop.run 1 (args ++ post) false ⟨vars, [], fun _ => 0⟩).2 = .ok s →
      s.vars.isUsed o = false ∧ s.vars.default_value o = some stored := by
    intro s hs
    obtain ⟨hmarks, htexts⟩ := parseLoop_marks hs
    have hnone : used (app.parseUses (cmd_name :: (args ++ post)) vars) o = false := by
      rw [used, List.any_eq_false]
      intro use' hmem
      simpa using hno use' hmem
    refine ⟨?_, (congrFun htexts o).trans hstored⟩
    rw [hmarks]
    exact Bool.or_eq_false_iff.mpr ⟨hnone, hunused⟩
  have hright : ∀ t, (app.parseLoop.run 1 (args ++ (extra ++ post)) false ⟨other, [], fun _ => 0⟩).2 = .ok t →
      t.vars.isUsed o = true := by
    intro t ht
    have hsome : used (app.parseUses (cmd_name :: (args ++ (extra ++ post))) other) o = true := by
      rw [← List.append_assoc, huses', used, List.any_eq_true]
      exact ⟨use, by simp, by simpa using TokenUse.given_option hgiven⟩
    rw [(parseLoop_marks ht).1]
    exact Bool.or_eq_true_iff.mpr (Or.inl hsome)
  refine (hloops.with_results hleft hright).bind fun s t hboth => ?_
  obtain ⟨hbeside, ⟨hunused', hstored'⟩, hused'⟩ := hboth
  rw [hbeside.active_chain]
  exact hfree.steps_alike hat haccept ⟨hbeside.vars, hunused', hused'⟩ hstored' s.active_chain

end App

/-- A text that is passed to the option is one that it accepts. -/
theorem App.PassedAfter.accepts {option : CmdOption D} {pre extra : List Str} {text : Str}
    (h : app.PassedAfter pre extra o text) (dest : D) (hat : app.option? o = some option) :
    ∃ assign, option.accept text = .ok assign := by
  obtain ⟨s, use, t, _, hextra, hgiven⟩ := h.parse (app.fresh dest)
  obtain ⟨_, assign, hassign, _⟩ := parseLoop_act_ok.mp (TokenLoop.run_one hextra).1
  rw [assignment, hgiven] at hassign
  exact ⟨assign, (accept_at hat text).symm.trans hassign⟩

/-- An option that nothing is asked of can be left out where its default could be passed. -/
theorem omitted_is_default {option : CmdOption D} {var : Variable D} {T : Destination} {pre extra post : List Str}
    {text : Str} (hat : app.option? o = some option) (hsetter : option.setter = some (var.setter T))
    (hdefault : option.default_value = some text) (hfree : app.Optional o)
    (htwice : o.path = [] → ∀ stored, option.transformed text = .ok stored →
      option.decode T stored = option.decode T text)
    (hpassed : app.PassedAfter pre extra o text) (hout : app.LeavesOut (pre ++ post) o)
    (howns : ∀ vars, app.Owns o var (chainOf (app.parseUses (pre ++ post) vars))) (dest : D) :
    app.SameWithout var pre extra post dest := by
  obtain ⟨written, hwritten⟩ := hpassed.accepts dest hat
  obtain ⟨text', value, htext', _, hvalue, _, _⟩ := (CmdOption.accept_ok_iff hsetter).mp hwritten
  have hdecode : option.decode T text = .ok value := CmdOption.decode_ok_iff.mpr ⟨text', htext', hvalue⟩
  have haccept : ∀ stored, option.decode T stored = .ok value →
      ∃ accepted, option.acceptDefault stored = .ok accepted := by
    intro stored hstored
    obtain ⟨text'', htext'', hvalue''⟩ := CmdOption.decode_ok_iff.mp hstored
    exact ⟨(text'', var.set value), (CmdOption.acceptDefault_ok_iff hsetter).mpr ⟨htext'', value, hvalue'', rfl⟩⟩
  have hearly : Alike (CmdState.AgreeOff o) (app.parse_earlies true (pre ++ post) (app.fresh dest))
      (app.parse_earlies true (pre ++ extra ++ post) (app.fresh dest)) :=
    App.parse_earlies_alike hfree hat (haccept text hdecode) hpassed hout hdefault
  refine (hearly.with_results (fun vars h => App.parse_earlies_unused hat hdefault hout h) fun _ _ => trivial).bind ?_
  intro vars other hboth
  obtain ⟨hagree, ⟨hunused, stored, hstored, hglobal, hlocal⟩, _⟩ := hboth
  have hsame : option.decode T stored = .ok value := by
    by_cases hpath : o.path = []
    · rw [htwice hpath stored (hglobal hpath), hdecode]
    · rw [hlocal hpath, hdecode]
  obtain ⟨_, before, use, after, huses', huses, hgiven, hwithin⟩ := hpassed.parseLoop_alike hagree hout
  have hno := hout.parse vars
  have hplain : use.subcommandIndex = none := by
    cases use with
    | subcommand token index => cases hgiven
    | _ => rfl
  have hchain : chainOf (app.parseUses (pre ++ extra ++ post) other) = chainOf (app.parseUses (pre ++ post) vars) := by
    rw [huses', huses, chainOf, chainOf, List.filterMap_append, List.filterMap_append, List.filterMap_cons, hplain]
  have hleft : ∀ vars', app.parse (pre ++ post) vars = .ok vars' → var.get vars'.dest = value := by
    intro vars' h
    have hlevel : o.path <+: chainOf (app.parseUses (pre ++ post) vars) := by
      rw [huses, chainOf, List.filterMap_append]
      exact hwithin.trans (List.prefix_append _ _)
    have hfilled := App.parse_omitted h hno hlevel hunused hstored hat hsetter (howns vars)
    exact (Except.ok.inj (hsame.symm.trans hfilled)).symm
  have hright : ∀ other', app.parse (pre ++ extra ++ post) other = .ok other' → var.get other'.dest = value := by
    intro other' h
    have hlast : ∀ later ∈ after, later.option ≠ some o := by
      intro later hmem
      refine hno later ?_
      rw [huses]
      exact List.mem_append_right before hmem
    have hgave := App.parse_given h huses' hgiven hlast hat hsetter (by rw [hchain]; exact howns vars)
    exact (Except.ok.inj (hdecode.symm.trans hgave)).symm
  refine ((App.parse_alike hfree hat (haccept stored hsame) hpassed hout hagree hunused hstored).with_results hleft
    hright).imp fun vars' other' hends => ?_
  rw [hends.2.1, hends.2.2]

end

def numberOption : CmdOption Value where
  valid_names := ["-n", "--number"]
  setter := some (Variable.whole.setter .int)
  default_value := some "5"

def numberApp (options : List (CmdOption Value)) (groups : List OptionGroup) : App Value where
  options
  subcommands := []
  groups
  auto_help_enabled := true

/-- The first of two variables. -/
def Variable.first : Variable (Value × Value) where
  get := Prod.fst
  set value dest := (value, dest.2)
  get_set _ _ := rfl

def Variable.second : Variable (Value × Value) where
  get := Prod.snd
  set value dest := (dest.1, value)
  get_set _ _ := rfl

def scoreOption : CmdOption (Value × Value) where
  valid_names := ["-s", "--score"]
  setter := some (Variable.first.setter .int)
  default_value := some "5"
  transformer := some fun text => .ok (text ++ "0")
  checker := some fun text => if text.length ≤ 3 then .ok () else raiseStd .out_of_range

def labelOption : CmdOption (Value × Value) where
  valid_names := ["-l", "--label"]
  setter := some (Variable.second.setter .string)
  default_value := some "none"

def quietOption : CmdOption (Value × Value) where
  valid_names := ["-q", "--quiet"]
  setter := some fun _ => .ok id
  is_flag := true
  early := true

/-- A subcommand with a score, which is transformed and checked, and a label. -/
def scoreApp : App (Value × Value) where
  options := [quietOption]
  subcommands := [⟨"rate", [scoreOption, labelOption], [], false, []⟩]
  groups := []
  auto_help_enabled := true

theorem scoreApp_owned : scoreApp.Owns ⟨[0], 0⟩ Variable.first [0] := by
  intro other option hne hprefix hother setter hsetter raw assign hassign dest
  obtain ⟨path, index⟩ := other
  rcases List.prefix_cons_iff.mp hprefix with rfl | ⟨path, rfl, hpath⟩
  · match index with
    | 0 =>
      cases hother
      cases hsetter
      cases hassign
      rfl
    | index + 1 => cases hother
  · obtain rfl : path = [] := List.prefix_nil.mp hpath
    match index with
    | 0 => exact absurd rfl hne
    | 1 =>
      cases hother
      cases hsetter
      cases hassign
      rfl
    | index + 2 => cases hother

theorem omitted_score_is_five :
    scoreApp.SameWithout Variable.first ["pmt", "rate", "-l", "boot"] ["-s", "5"] ["-q"] (.number 0, .string "") := by
  have hat : scoreApp.option? ⟨[0], 0⟩ = some scoreOption := rfl
  have hfree : scoreApp.Optional ⟨[0], 0⟩ := by
    refine ⟨?_, ?_, fun path group hmem => ?_⟩
    · rintro option ⟨⟩
      rfl
    · rintro option ⟨⟩
      rfl
    · have hnone : scoreApp.groupsAt path = [] := by
        match path with
        | [] => rfl
        | [0] => rfl
        | 0 :: _ :: _ => rfl
        | (_ + 1) :: _ => rfl
      rw [hnone] at hmem
      cases hmem
  have hpassed : scoreApp.PassedAfter ["pmt", "rate", "-l", "boot"] ["-s", "5"] ⟨[0], 0⟩ "5" :=
    ⟨by decide, fun vars => ⟨vars, rfl, Or.inl rfl⟩, fun vars => ⟨_, _, _, rfl, rfl, rfl⟩⟩
  have huses : ∀ vars, scoreApp.parseUses ["pmt", "rate", "-l", "boot", "-q"] vars =
      [.subcommand "rate" 0, .separate "-l" "boot" ⟨[0], 1⟩, .flag "-q" ⟨[], 0⟩] := fun vars => rfl
  have hout : scoreApp.LeavesOut ["pmt", "rate", "-l", "boot", "-q"] ⟨[0], 0⟩ := by
    refine ⟨fun vars v hv => ?_, fun vars use hmem => ?_⟩
    · rcases List.mem_singleton.mp hv with rfl
      rintro ⟨⟩
    · rw [huses] at hmem
      have hother : ∀ use ∈ [TokenUse.subcommand "rate" 0, .separate "-l" "boot" ⟨[0], 1⟩, .flag "-q" ⟨[], 0⟩],
          use.option ≠ some ⟨[0], 0⟩ := by decide
      exact hother use hmem
  refine omitted_is_default hat rfl rfl hfree (fun hnil => nomatch hnil) hpassed hout (fun vars => ?_) _
  rw [List.cons_append, List.cons_append, List.cons_append, List.cons_append, List.nil_append, huses]
  exact scoreApp_owned

/-- The first option has the default 5, and leaving it out differs from passing 5. -/
structure DiffersWithout (app : App Value) (post : List Str) : Prop where
  default : ∃ option, app.option? ⟨[], 0⟩ = some option ∧ option.default_value = some "5" ∧
    option.setter = some (Variable.whole.setter .int)
  passed : app.PassedAfter ["pmt"] ["-n", "5"] ⟨[], 0⟩ "5"
  out : app.LeavesOut ("pmt" :: post) ⟨[], 0⟩
  differs : ¬ app.SameWithout Variable.whole ["pmt"] ["-n", "5"] post (.number 0)

/-- Omitting is not passing for a required option, one that a group asks for, one whose variable
another option writes to, and one of the App whose transformer changes its own results. -/
theorem omission_is_not_passing :
    DiffersWithout (numberApp [{ numberOption with is_required := true }] []) [] ∧
    DiffersWithout (numberApp [numberOption]
      [{ name := "numbers", group_options := [⟨[], 0⟩], min_required := 1 }]) [] ∧
    DiffersWithout (numberApp [numberOption, { numberOption with valid_names := ["-m"], default_value := none }] [])
      ["-m", "7"] ∧
    DiffersWithout (numberApp [{ numberOption with transformer := some fun text => .ok (text ++ "0") }] []) [] := by
  have hout : ∀ options groups, (numberApp options groups).LeavesOut ["pmt"] ⟨[], 0⟩ := by
    refine fun options groups => ⟨fun vars v hv => (nomatch hv), fun vars use hmem => ?_⟩
    have hnone : (numberApp options groups).parseUses ["pmt"] vars = [] := rfl
    rw [hnone] at hmem
    cases hmem
  refine ⟨⟨⟨_, rfl, rfl, rfl⟩, ?_, hout _ _, fun h => ?_⟩, ⟨⟨_, rfl, rfl, rfl⟩, ?_, hout _ _, fun h => ?_⟩,
    ⟨⟨_, rfl, rfl, rfl⟩, ?_, ⟨fun vars v hv => (nomatch hv), fun vars use hmem => ?_⟩, fun h => ?_⟩,
    ⟨⟨_, rfl, rfl, rfl⟩, ?_, hout _ _, fun h => ?_⟩⟩
  · exact ⟨by decide, fun vars => ⟨vars, rfl, Or.inl rfl⟩, fun vars => ⟨_, _, _, rfl, rfl, rfl⟩⟩
  · cases (h.error_iff _).mp rfl
  · exact ⟨by decide, fun vars => ⟨vars, rfl, Or.inl rfl⟩, fun vars => ⟨_, _, _, rfl, rfl, rfl⟩⟩
  · cases (h.error_iff _).mp rfl
  · exact ⟨by decide, fun vars => ⟨vars, rfl, Or.inl rfl⟩, fun vars => ⟨_, _, _, rfl, rfl, rfl⟩⟩
  · rcases List.mem_singleton.mp hmem with rfl
    rintro ⟨⟩
  · obtain ⟨other, hother, hsame⟩ := h.exists_ok rfl
    cases hother
    revert hsame
    decide
  · exact ⟨by decide, fun vars => ⟨vars, rfl, Or.inl rfl⟩, fun vars => ⟨_, _, _, rfl, rfl, rfl⟩⟩
  · obtain ⟨other, hother, hsame⟩ := h.exists_ok rfl
    cases hother
    revert hsame
    decide

end PartitionManager
