import PartitionManager.Basic
import PartitionManager.Library.Run

namespace PartitionManager

/-- The files and `Logger::Properties`. Files are known by their places, and `record` has
the texts that were logged, the last one last. -/
structure LogWorld where
  files : Nat → Option Str
  FILE : Str := "last_logs.log"
  DISABLE : Bool := false
  tries : Nat := 0
  record : List Str := []

/-- Whether the destructor of a `Logger` can create the log file, open it, and open the
file that it falls back to. -/
structure LogAnswers where
  creates : Bool
  opens : Bool
  fallbackOpens : Bool

/-- A text is logged to a file, or the properties are changed. A program that starts finds
them reset. -/
inductive LogOp where
  | log (logFile logLine : Str) (answers : LogAnswers)
  | setFile (file : Str) (remove : Bool)
  | setLogging (state : Bool)
  | reset

def logHeader : Str :=
  List.replicate 46 '-' ++ "\n LOGGING BEGIN! LOGGING BEGIN! LOGGING BEGIN!\n" ++ List.replicate 46 '-' ++ ['\n']

/-- What is written behind the content starts a line. -/
def LineStart (content : Str) : Prop := content = [] ∨ content.getLast? = some '\n'

/-- The line stands in the content: from its start or a newline on, and up to a newline or its end. -/
def IsLine (line content : Str) : Prop :=
  '\n' ∉ line ∧ ∃ before after, content = before ++ (line ++ after) ∧ LineStart before ∧
    (after.head? = some '\n' ∨ (after = [] ∧ line ≠ []))

namespace LogWorld

-- `place` is the file that a path stands for; several paths may stand for one file
variable (place : Str → Nat) (w : LogWorld)

/-- Copying a file to itself throws, and so ends the call. Other copies and removals succeed. -/
def moveOldLogs (oldLogFile newLogFile : Str) (remove : Bool) : LogWorld × Bool :=
  match w.files (place oldLogFile) with
  | none => (w, false)
  | some content =>
    if place oldLogFile = place newLogFile then (w, false)
    else
      let files := Function.update w.files (place newLogFile) (some content)
      ({ w with files := if remove then Function.update files (place oldLogFile) none else files }, true)

def setFile (file : Str) (remove : Bool) : LogWorld := { (w.moveOldLogs place w.FILE file remove).1 with FILE := file }

/-- Writing at the end of a file, which is created if there is none. -/
def append (path text : Str) : LogWorld :=
  { w with files := Function.update w.files (place path) (some ((w.files (place path)).getD [] ++ text)) }

def exists_ (path : Str) : Bool := (w.files (place path)).isSome

/-- The destructor from the opening of the log file on. -/
def writeLine (logFile logLine : Str) (answers : LogAnswers) : LogWorld :=
  if answers.opens then
    let header := if ((w.files (place logFile)).getD []).isEmpty then logHeader else []
    w.append place logFile (header ++ logLine)
  else if w.tries ≥ 3 then w
  else
    let w := w.setFile place "last_logs.log" false
    if answers.fallbackOpens then w.append place "last_logs.log" logLine else { w with tries := w.tries + 1 }

/-- `Logger::~Logger` with its finished text. -/
def log (logFile logLine : Str) (answers : LogAnswers) : LogWorld :=
  if w.DISABLE then w
  else
    let w := { w with record := w.record ++ [logLine] }
    if w.exists_ place logFile then w.writeLine place logFile logLine answers
    else if w.tries ≥ 3 then w
    else if answers.creates then (w.append place logFile []).writeLine place logFile logLine answers
    else (w.setFile place "last_logs.log" false).writeLine place "last_logs.log" logLine answers

def step : LogOp → LogWorld
  | .log logFile logLine answers => w.log place logFile logLine answers
  | .setFile file remove => w.setFile place file remove
  | .setLogging state => { w with DISABLE := !state }
  | .reset => { w with FILE := "last_logs.log", DISABLE := false, tries := 0 }

/-- The line stands in one of the files. -/
def HasLine (line : Str) : Prop := ∃ p content, w.files p = some content ∧ IsLine line content

/-- The content that `setFile` would copy another file over. -/
def overwritten (file : Str) : Option Str :=
  if w.exists_ place w.FILE && place w.FILE ≠ place file then w.files (place file) else none

/-- Whatever line `setFile` would overwrite, another file has it too. -/
def Spares (file : Str) : Prop :=
  ∀ content, w.overwritten place file = some content → ∀ line, IsLine line content →
    ∃ p other, p ≠ place file ∧ w.files p = some other ∧ IsLine line other

/-- The content that the file has once `setFile` has switched to it. -/
def carried (file : Str) : Str :=
  if w.exists_ place w.FILE && place w.FILE ≠ place file then (w.files (place w.FILE)).getD []
  else (w.files (place file)).getD []

/-- The logger writes to the file that it is given. -/
def WritesThere (logFile : Str) (answers : LogAnswers) : Prop :=
  answers.opens = true ∧ (w.exists_ place logFile = true ∨ answers.creates = true)

/-- The files when the logger has seen to it that the log file exists. -/
def created (logFile : Str) (answers : LogAnswers) : LogWorld :=
  if w.exists_ place logFile || !answers.creates then w else w.append place logFile []

def Careful : LogOp → Prop
  | .log logFile _ answers =>
    w.DISABLE = true ∨
      (w.WritesThere place logFile answers ∧ LineStart ((w.files (place logFile)).getD [])) ∨
      (¬ w.WritesThere place logFile answers ∧ (w.created place logFile answers).Spares place "last_logs.log" ∧
        LineStart ((w.created place logFile answers).carried place "last_logs.log"))
  | .setFile file _ => w.Spares place file
  | .setLogging _ => True
  | .reset => True

/-- Every line that was in a file at the start or has been logged since is in a file now. -/
def KeepsLines (start now : LogWorld) : Prop :=
  ∀ line, (start.HasLine line ∨ ∃ text ∈ now.record, IsLine line text) → now.HasLine line

end LogWorld

/-- The file that the logger falls back to can be opened. -/
def LogOp.Succeeds : LogOp → Prop
  | .log _ _ answers => answers.fallbackOpens = true
  | _ => True

def logStep (place : Str → Nat) (w : LogWorld) (op : LogOp) : Option (LogWorld × Unit) := some (w.step place op, ())

theorem lineStart_append {content text : Str} (hcontent : LineStart content) (h : LineStart text) :
    LineStart (content ++ text) := by
  rcases h with rfl | hlast
  · rwa [List.append_nil]
  · right
    rw [List.getLast?_append, hlast]
    rfl

theorem IsLine.prepend {content text line : Str} (h : IsLine line text) (hcontent : LineStart content) :
    IsLine line (content ++ text) := by
  obtain ⟨hline, before, after, rfl, hbefore, hafter⟩ := h
  exact ⟨hline, content ++ before, after, (List.append_assoc ..).symm, lineStart_append hcontent hbefore, hafter⟩

/-- A line is not written on, if what is written starts a line. -/
theorem IsLine.append {content line : Str} (h : IsLine line content) (hcontent : LineStart content) (text : Str) :
    IsLine line (content ++ text) := by
  obtain ⟨hline, before, after, rfl, hbefore, hafter⟩ := h
  refine ⟨hline, before, after ++ text, by simp only [List.append_assoc], hbefore, ?_⟩
  rcases hafter with hnewline | ⟨rfl, hne⟩
  · exact Or.inl (by rw [List.head?_append, hnewline]; rfl)
  · exfalso
    rcases hcontent with hempty | hlast
    · simp [hne] at hempty
    · rw [List.append_nil, List.getLast?_append_of_ne_nil before hne] at hlast
      exact hline (List.mem_of_getLast? hlast)

theorem IsLine.mem {content line : Str} (h : IsLine line content) {c : Char} (hc : c ∈ line) : c ∈ content := by
  obtain ⟨_, before, after, rfl, _⟩ := h
  exact List.mem_append_right before (List.mem_append_left after hc)

theorem logHeader_lineStart : LineStart logHeader := Or.inr (by decide)

namespace LogWorld

variable {place : Str → Nat} {w : LogWorld} {file path logFile logLine text line : Str} {remove : Bool}
  {answers : LogAnswers} {op : LogOp}

/-- Everything `setFile` can do to the files. -/
theorem setFile_cases (place : Str → Nat) (w : LogWorld) (file : Str) (remove : Bool) :
    ((w.files (place w.FILE) = none ∨ place w.FILE = place file) ∧ w.overwritten place file = none ∧
      w.setFile place file remove = { w with FILE := file }) ∨
    ∃ content, w.files (place w.FILE) = some content ∧ place w.FILE ≠ place file ∧
      w.overwritten place file = w.files (place file) ∧
      (w.setFile place file remove).files = (if remove then
        Function.update (Function.update w.files (place file) (some content)) (place w.FILE) none
        else Function.update w.files (place file) (some content)) := by
  unfold setFile moveOldLogs overwritten exists_
  cases hold : w.files (place w.FILE) with
  | none => exact Or.inl ⟨Or.inl rfl, rfl, rfl⟩
  | some content =>
    by_cases hsame : place w.FILE = place file
    · refine Or.inl ⟨Or.inr hsame, ?_, ?_⟩
      · simp [hsame]
      · dsimp only
        rw [if_pos hsame]
    · refine Or.inr ⟨content, rfl, hsame, ?_, ?_⟩
      · simp [hsame]
      · dsimp only
        rw [if_neg hsame]

/-- A switch that spares what it overwrites loses no line. -/
theorem HasLine.setFile (h : w.HasLine line) (hspares : w.Spares place file) :
    (w.setFile place file remove).HasLine line := by
  rcases setFile_cases place w file remove with ⟨_, _, hsame⟩ | ⟨content, hold, hne, hover, hfiles⟩
  · rw [hsame]
    exact h
  · -- what the old log file has, the new one has
    have hnew : (w.setFile place file remove).files (place file) = some content := by
      rw [hfiles]
      cases remove <;> simp [Ne.symm hne]
    have hkept : ∀ p, p ≠ place file → p ≠ place w.FILE →
        (w.setFile place file remove).files p = w.files p := by
      intro p hp hp'
      rw [hfiles]
      cases remove <;> simp [hp, hp']
    have hmove : ∀ p other, p ≠ place file → w.files p = some other → IsLine line other →
        (w.setFile place file remove).HasLine line := by
      intro p other hp hother hin
      by_cases hp' : p = place w.FILE
      · rw [hp', hold] at hother
        cases hother
        exact ⟨place file, content, hnew, hin⟩
      · exact ⟨p, other, (hkept p hp hp').trans hother, hin⟩
    obtain ⟨p, other, hother, hin⟩ := h
    by_cases hp : p = place file
    · subst hp
      obtain ⟨q, spare, hq, hspare, hin'⟩ := hspares other (hover.trans hother) line hin
      exact hmove q spare hq hspare hin'
    · exact hmove p other hp hother hin

theorem setFile_carried : ((w.setFile place file false).files (place file)).getD [] = w.carried place file := by
  unfold carried exists_
  rcases setFile_cases place w file false with ⟨hnone, _, hsame⟩ | ⟨content, hold, hne, _, hfiles⟩
  · rw [hsame]
    rcases hnone with hnone | heq
    · simp [hnone]
    · simp [heq]
  · rw [hfiles, if_neg Bool.false_ne_true, Function.update_self, hold]
    simp [hne]

theorem HasLine.append (h : w.HasLine line) (hstart : LineStart ((w.files (place path)).getD [])) :
    (w.append place path text).HasLine line := by
  obtain ⟨p, content, hcontent, hin⟩ := h
  by_cases hp : p = place path
  · subst hp
    rw [hcontent] at hstart
    refine ⟨place path, content ++ text, ?_, hin.append hstart text⟩
    simp [LogWorld.append, hcontent]
  · refine ⟨p, content, ?_, hin⟩
    simp [LogWorld.append, hp, hcontent]

theorem hasLine_append (h : IsLine line text) (hstart : LineStart ((w.files (place path)).getD [])) :
    (w.append place path text).HasLine line :=
  ⟨place path, (w.files (place path)).getD [] ++ text, Function.update_self _ _ _, h.prepend hstart⟩

theorem setFile_rest (place : Str → Nat) (w : LogWorld) (file : Str) (remove : Bool) :
    (w.setFile place file remove).FILE = file ∧ (w.setFile place file remove).tries = w.tries ∧
      (w.setFile place file remove).record = w.record := by
  unfold LogWorld.setFile moveOldLogs
  split
  next => exact ⟨rfl, rfl, rfl⟩
  next =>
    split
    next => exact ⟨rfl, rfl, rfl⟩
    next => exact ⟨rfl, rfl, rfl⟩

theorem spares_of_overwritten (h : w.overwritten place file = none) : w.Spares place file := by
  intro content hover
  rw [h] at hover
  cases hover

/-- A second switch to the same file copies nothing. -/
theorem spares_setFile : (w.setFile place file remove).Spares place file := by
  apply spares_of_overwritten
  unfold overwritten
  rw [(setFile_rest place w file remove).1]
  simp

/-- Everything the destructor can do once the log file is there. -/
theorem writeLine_cases (place : Str → Nat) (w : LogWorld) (logFile logLine : Str) (answers : LogAnswers) :
    (answers.opens = true ∧ ∃ header, LineStart header ∧ w.writeLine place logFile logLine answers =
      w.append place logFile (header ++ logLine)) ∨
    (answers.opens = false ∧ 3 ≤ w.tries ∧ w.writeLine place logFile logLine answers = w) ∨
    (answers.opens = false ∧ w.tries < 3 ∧ answers.fallbackOpens = true ∧ w.writeLine place logFile logLine answers =
      (w.setFile place "last_logs.log" false).append place "last_logs.log" logLine) ∨
    (answers.opens = false ∧ w.tries < 3 ∧ answers.fallbackOpens = false ∧ w.writeLine place logFile logLine answers =
      { w.setFile place "last_logs.log" false with tries := w.tries + 1 }) := by
  unfold writeLine
  cases answers.opens with
  | true =>
    refine Or.inl ⟨rfl, _, ?_, rfl⟩
    split
    next => exact logHeader_lineStart
    next => exact Or.inl rfl
  | false =>
    refine Or.inr ?_
    by_cases htries : w.tries ≥ 3
    · exact Or.inl ⟨rfl, htries, if_pos htries⟩
    · have hfew : w.tries < 3 := by omega
      refine Or.inr ?_
      rw [if_neg Bool.false_ne_true, if_neg htries]
      cases answers.fallbackOpens with
      | true => exact Or.inl ⟨rfl, hfew, rfl, rfl⟩
      | false =>
        refine Or.inr ⟨rfl, hfew, rfl, ?_⟩
        have hsame := (setFile_rest place w "last_logs.log" false).2.1
        dsimp only
        rw [if_neg Bool.false_ne_true, hsame]

/-- The text goes where a line starts, and a switch to the fallback loses nothing. -/
def WritesSafely (place : Str → Nat) (w : LogWorld) (logFile : Str) (answers : LogAnswers) : Prop :=
  (answers.opens = true ∧ LineStart ((w.files (place logFile)).getD [])) ∨
    (answers.opens = false ∧ w.Spares place "last_logs.log" ∧ LineStart (w.carried place "last_logs.log"))

theorem WritesSafely.opened (h : w.WritesSafely place logFile answers) (hopens : answers.opens = true) :
    LineStart ((w.files (place logFile)).getD []) := by
  rcases h with ⟨_, hstart⟩ | ⟨hclosed, _⟩
  · exact hstart
  · rw [hopens] at hclosed
    cases hclosed

theorem WritesSafely.closed (h : w.WritesSafely place logFile answers) (hclosed : answers.opens = false) :
    w.Spares place "last_logs.log" ∧
      LineStart (((w.setFile place "last_logs.log" false).files (place "last_logs.log")).getD []) := by
  rcases h with ⟨hopens, _⟩ | ⟨_, hspares, hstart⟩
  · rw [hclosed] at hopens
    cases hopens
  · exact ⟨hspares, setFile_carried ▸ hstart⟩

theorem HasLine.writeLine (h : w.HasLine line) (hsafe : w.WritesSafely place logFile answers) :
    (w.writeLine place logFile logLine answers).HasLine line := by
  rcases writeLine_cases place w logFile logLine answers with ⟨hopens, header, _, hafter⟩ | ⟨_, _, hafter⟩ |
    ⟨hclosed, _, _, hafter⟩ | ⟨hclosed, _, _, hafter⟩
  · rw [hafter]
    exact h.append (hsafe.opened hopens)
  · rw [hafter]
    exact h
  · obtain ⟨hspares, hstart⟩ := hsafe.closed hclosed
    rw [hafter]
    exact (h.setFile hspares).append hstart
  · rw [hafter]
    exact h.setFile (hsafe.closed hclosed).1

theorem hasLine_writeLine (htries : w.tries < 3) (hsucceeds : answers.fallbackOpens = true)
    (hsafe : w.WritesSafely place logFile answers) (h : IsLine line logLine) :
    (w.writeLine place logFile logLine answers).HasLine line := by
  rcases writeLine_cases place w logFile logLine answers with ⟨hopens, header, hheader, hafter⟩ | ⟨_, hmany, _⟩ |
    ⟨hclosed, _, _, hafter⟩ | ⟨_, _, hfails, _⟩
  · rw [hafter]
    exact hasLine_append (h.prepend hheader) (hsafe.opened hopens)
  · omega
  · rw [hafter]
    exact hasLine_append h (hsafe.closed hclosed).2
  · rw [hsucceeds] at hfails
    cases hfails

theorem writeLine_rest (hsucceeds : answers.fallbackOpens = true) :
    (w.writeLine place logFile logLine answers).tries = w.tries ∧
      (w.writeLine place logFile logLine answers).record = w.record := by
  rcases writeLine_cases place w logFile logLine answers with ⟨_, header, _, hafter⟩ | ⟨_, _, hafter⟩ |
    ⟨_, _, _, hafter⟩ | ⟨_, _, hfails, _⟩
  · rw [hafter]
    exact ⟨rfl, rfl⟩
  · rw [hafter]
    exact ⟨rfl, rfl⟩
  · rw [hafter]
    exact (setFile_rest place w "last_logs.log" false).2
  · rw [hsucceeds] at hfails
    cases hfails

/-- Everything the destructor can do with a text. -/
theorem log_cases (place : Str → Nat) (w : LogWorld) (logFile logLine : Str) (answers : LogAnswers) :
    (w.DISABLE = true ∧ w.log place logFile logLine answers = w) ∨
    (w.DISABLE = false ∧
      ((3 ≤ w.tries ∧ w.log place logFile logLine answers = { w with record := w.record ++ [logLine] }) ∨
      ((w.exists_ place logFile = true ∨ answers.creates = true) ∧ w.log place logFile logLine answers =
        { w.created place logFile answers with record := w.record ++ [logLine] }.writeLine place logFile logLine
          answers) ∨
      (w.created place logFile answers = w ∧ ¬ w.WritesThere place logFile answers ∧
        w.log place logFile logLine answers =
          ({ w with record := w.record ++ [logLine] }.setFile place "last_logs.log" false).writeLine place
            "last_logs.log" logLine answers))) := by
  unfold log created WritesThere
  by_cases hdisabled : w.DISABLE = true
  · exact Or.inl ⟨hdisabled, if_pos hdisabled⟩
  · refine Or.inr ⟨Bool.eq_false_of_not_eq_true hdisabled, ?_⟩
    have hsame : { w with record := w.record ++ [logLine] }.exists_ place logFile = w.exists_ place logFile := rfl
    rw [if_neg hdisabled]
    dsimp only
    rw [hsame]
    cases w.exists_ place logFile with
    | true => exact Or.inr (Or.inl ⟨Or.inl rfl, rfl⟩)
    | false =>
      by_cases htries : w.tries ≥ 3
      · exact Or.inl ⟨htries, if_pos htries⟩
      · rw [if_neg Bool.false_ne_true, if_neg htries]
        refine Or.inr ?_
        cases answers.creates with
        | true => exact Or.inl ⟨Or.inr rfl, rfl⟩
        | false =>
          refine Or.inr ⟨rfl, ?_, rfl⟩
          simp

theorem created_tries : (w.created place logFile answers).tries = w.tries := by
  unfold created
  split
  next => rfl
  next => rfl

theorem created_content : ((w.created place logFile answers).files (place logFile)).getD [] =
    (w.files (place logFile)).getD [] := by
  unfold created
  split
  next => rfl
  next => simp [append]

theorem HasLine.created (h : w.HasLine line) : (w.created place logFile answers).HasLine line := by
  unfold LogWorld.created
  split
  next => exact h
  next hnew =>
    have hnone : w.files (place logFile) = none := by
      simp only [exists_, Bool.or_eq_true, not_or] at hnew
      simpa using hnew.1
    exact h.append (Or.inl (by rw [hnone]; rfl))

/-- Where the file is there or can be created, the text goes to it or to the fallback. -/
theorem Careful.created (h : w.Careful place (.log logFile logLine answers)) (henabled : w.DISABLE = false)
    (hthere : w.exists_ place logFile = true ∨ answers.creates = true) :
    (w.created place logFile answers).WritesSafely place logFile answers := by
  have hcases := Or.resolve_left h (by rw [henabled]; exact Bool.false_ne_true)
  rcases hcases with ⟨⟨hopens, _⟩, hstart⟩ | ⟨helsewhere, hspares, hstart⟩
  · exact Or.inl ⟨hopens, by rwa [created_content]⟩
  · refine Or.inr ⟨Bool.eq_false_of_not_eq_true fun hopens => helsewhere ⟨hopens, hthere⟩, hspares, hstart⟩

/-- Once it has been switched to, the fallback is written to itself. -/
theorem writesSafely_setFile (hstart : LineStart (w.carried place "last_logs.log")) :
    (w.setFile place "last_logs.log" false).WritesSafely place "last_logs.log" answers := by
  have hcontent := hstart
  rw [← setFile_carried] at hcontent
  cases hopens : answers.opens with
  | true => exact Or.inl ⟨hopens, hcontent⟩
  | false =>
    refine Or.inr ⟨hopens, spares_setFile, ?_⟩
    unfold carried
    rw [(setFile_rest place w "last_logs.log" false).1]
    simpa using hcontent

theorem HasLine.log (h : w.HasLine line) (hcareful : w.Careful place (.log logFile logLine answers)) :
    (w.log place logFile logLine answers).HasLine line := by
  rcases log_cases place w logFile logLine answers with ⟨_, hafter⟩ | ⟨henabled, hcases⟩
  · rw [hafter]
    exact h
  · rcases hcases with ⟨_, hafter⟩ | ⟨hthere, hafter⟩ | ⟨hsame, helsewhere, hafter⟩
    · rw [hafter]
      exact h
    · rw [hafter]
      exact HasLine.writeLine (HasLine.created h) (hcareful.created henabled hthere)
    · have hcases := Or.resolve_left hcareful (by rw [henabled]; exact Bool.false_ne_true)
      obtain ⟨_, hspares, hstart⟩ := hcases.resolve_left fun hthere => helsewhere hthere.1
      rw [hsame] at hspares hstart
      rw [hafter]
      exact HasLine.writeLine (HasLine.setFile h hspares) (writesSafely_setFile hstart)

theorem hasLine_log (henabled : w.DISABLE = false) (htries : w.tries < 3) (hsucceeds : answers.fallbackOpens = true)
    (hcareful : w.Careful place (.log logFile logLine answers)) (h : IsLine line logLine) :
    (w.log place logFile logLine answers).HasLine line := by
  rcases log_cases place w logFile logLine answers with ⟨hdisabled, _⟩ | ⟨_, hcases⟩
  · rw [henabled] at hdisabled
    cases hdisabled
  · rcases hcases with ⟨hmany, _⟩ | ⟨hthere, hafter⟩ | ⟨hsame, helsewhere, hafter⟩
    · omega
    · rw [hafter]
      exact hasLine_writeLine (created_tries.trans_lt htries) hsucceeds (hcareful.created henabled hthere) h
    · have hcases := Or.resolve_left hcareful (by rw [henabled]; exact Bool.false_ne_true)
      obtain ⟨_, _, hstart⟩ := hcases.resolve_left fun hthere => helsewhere hthere.1
      rw [hsame] at hstart
      have hswitch := setFile_rest place { w with record := w.record ++ [logLine] } "last_logs.log" false
      rw [hafter]
      exact hasLine_writeLine (hswitch.2.1.trans_lt htries) hsucceeds (writesSafely_setFile hstart) h

theorem log_rest (hsucceeds : answers.fallbackOpens = true) :
    (w.log place logFile logLine answers).tries = w.tries ∧
      (w.log place logFile logLine answers).record = w.record ++ if w.DISABLE then [] else [logLine] := by
  rcases log_cases place w logFile logLine answers with ⟨hdisabled, hafter⟩ | ⟨henabled, hcases⟩
  · rw [hafter, hdisabled]
    exact ⟨rfl, (List.append_nil _).symm⟩
  · rw [henabled]
    rcases hcases with ⟨_, hafter⟩ | ⟨_, hafter⟩ | ⟨_, _, hafter⟩
    · rw [hafter]
      exact ⟨rfl, rfl⟩
    · obtain ⟨htries, hrecord⟩ := @writeLine_rest place
        { w.created place logFile answers with record := w.record ++ [logLine] } logFile logLine answers hsucceeds
      rw [hafter]
      exact ⟨htries.trans created_tries, hrecord⟩
    · have hswitch := setFile_rest place { w with record := w.record ++ [logLine] } "last_logs.log" false
      obtain ⟨htries, hrecord⟩ := @writeLine_rest place
        ({ w with record := w.record ++ [logLine] }.setFile place "last_logs.log" false) "last_logs.log" logLine answers
        hsucceeds
      rw [hafter]
      exact ⟨htries.trans hswitch.2.1, hrecord.trans hswitch.2.2⟩

/-- What keeps the lines that are there, and has those it logs, keeps all lines. -/
theorem KeepsLines.extend {start w' : LogWorld} (h : KeepsLines start w) (texts : List Str)
    (hkept : ∀ line, w.HasLine line → w'.HasLine line) (hrecord : w'.record = w.record ++ texts)
    (htexts : ∀ text ∈ texts, ∀ line, IsLine line text → w'.HasLine line) : KeepsLines start w' := by
  rintro line (hstart | ⟨text, htext, hin⟩)
  · exact hkept line (h line (Or.inl hstart))
  · rw [hrecord] at htext
    rcases List.mem_append.mp htext with htext | htext
    · exact hkept line (h line (Or.inr ⟨text, htext, hin⟩))
    · exact htexts text htext line hin

theorem KeepsLines.step {start : LogWorld} (h : KeepsLines start w ∧ w.tries = 0) (hsucceeds : op.Succeeds)
    (hcareful : w.Careful place op) : KeepsLines start (w.step place op) ∧ (w.step place op).tries = 0 := by
  obtain ⟨hkeeps, htries⟩ := h
  cases op with
  | log logFile logLine answers =>
    obtain ⟨htries', hrecord⟩ := @log_rest place w logFile logLine answers hsucceeds
    refine ⟨hkeeps.extend _ (fun line hhas => hhas.log hcareful) hrecord ?_, htries'.trans htries⟩
    intro text htext line hin
    cases henabled : w.DISABLE with
    | true =>
      rw [henabled] at htext
      cases htext
    | false =>
      rw [henabled] at htext
      cases List.mem_singleton.mp htext
      exact hasLine_log henabled (by omega) hsucceeds hcareful hin
  | setFile file remove =>
    obtain ⟨_, htries', hrecord⟩ := setFile_rest place w file remove
    refine ⟨hkeeps.extend [] (fun line hhas => hhas.setFile hcareful) (hrecord.trans (List.append_nil _).symm) ?_,
      htries'.trans htries⟩
    intro text htext
    cases htext
  | setLogging state => exact ⟨hkeeps, htries⟩
  | reset => exact ⟨hkeeps, rfl⟩

/-- No line is lost in a run whose switches spare the lines of the files they copy over, and
whose texts are written where lines start. -/
theorem log_lines_kept {files : Nat → Option Str} {FILE : Str} {ts : List (Run.Transition LogWorld LogOp Unit)}
    (hrun : Run.IsRun (logStep place) { files, FILE } ts) (hsucceeds : ∀ t ∈ ts, t.label.Succeeds)
    (hcareful : ∀ t ∈ ts, t.before.Careful place t.label) : ∀ t ∈ ts, KeepsLines { files, FILE } t.after := by
  have hstart : KeepsLines { files, FILE } { files, FILE } ∧ ({ files, FILE } : LogWorld).tries = 0 := by
    refine ⟨?_, rfl⟩
    rintro line (hstart | ⟨text, htext, _⟩)
    · exact hstart
    · cases htext
  have hkeep : ∀ w op o w', KeepsLines { files, FILE } w ∧ w.tries = 0 → logStep place w op = some (w', o) →
      op.Succeeds ∧ w.Careful place op → KeepsLines { files, FILE } w' ∧ w'.tries = 0 := by
    intro w op _ w' hw h hc
    cases h
    exact KeepsLines.step hw hc.1 hc.2
  intro t ht
  exact (Run.after_of_careful hkeep hstart hrun (fun t ht => ⟨hsucceeds t ht, hcareful t ht⟩) t ht).1

def logPlace (path : Str) : Nat :=
  if path = ("last_logs.log" : Str) then 0 else if path = ("foo.log" : Str) then 1 else 2

def oneLog : Nat → Option Str
  | 0 => some "a\n"
  | _ => none

/-- The second log file is moved to, and then cannot be opened. -/
def movedLogs : List LogOp :=
  [.log "last_logs.log" "b\n" ⟨true, true, true⟩, .setFile "foo.log" true, .log "foo.log" "c\n" ⟨true, false, true⟩]

theorem log_lines_kept_movedLogs : ∃ ts,
    Run.trace (logStep logPlace) { files := oneLog, FILE := "last_logs.log" } movedLogs = some ts ∧
      ∀ t ∈ ts, KeepsLines { files := oneLog, FILE := "last_logs.log" } t.after := by
  refine ⟨_, rfl, log_lines_kept (Run.isRun_of_trace (show
    Run.trace (logStep logPlace) { files := oneLog, FILE := "last_logs.log" } movedLogs = some _ from rfl)) ?_ ?_⟩
  · rw [List.forall_mem_cons, List.forall_mem_cons, List.forall_mem_cons]
    exact ⟨rfl, trivial, rfl, fun t ht => absurd ht List.not_mem_nil⟩
  · rw [List.forall_mem_cons, List.forall_mem_cons, List.forall_mem_cons]
    refine ⟨Or.inr (Or.inl ⟨⟨rfl, Or.inl rfl⟩, Or.inr rfl⟩), spares_of_overwritten rfl, ?_,
      fun t ht => absurd ht List.not_mem_nil⟩
    exact Or.inr (Or.inr ⟨fun hthere => Bool.false_ne_true hthere.1, spares_of_overwritten rfl, Or.inr rfl⟩)

def twoLogs : Nat → Option Str
  | 0 => some "a\n"
  | 1 => some "b\n"
  | _ => none

/-- The lines of a log file are lost when another one is copied over it, by the program or by
the logger that falls back. -/
theorem log_lines_lost :
    (∃ ts, Run.trace (logStep logPlace) { files := twoLogs } [.setFile "foo.log" true] = some ts ∧
      ¬ ∀ t ∈ ts, KeepsLines { files := twoLogs } t.after) ∧
    (∃ ts, Run.trace (logStep logPlace) { files := twoLogs, FILE := "foo.log" }
        [.log "foo.log" "c\n" ⟨true, false, true⟩] = some ts ∧
      ¬ ∀ t ∈ ts, KeepsLines { files := twoLogs, FILE := "foo.log" } t.after) := by
  refine ⟨⟨_, rfl, ?_⟩, ⟨_, rfl, ?_⟩⟩
  · intro h
    obtain ⟨p, content, hcontent, hin⟩ := h _ (List.mem_of_getLast? rfl) "b"
      (Or.inl ⟨1, "b\n", rfl, by decide, [], ['\n'], rfl, Or.inl rfl, Or.inl rfl⟩)
    match p, hcontent with
    | 0, hcontent => cases hcontent
    | 1, hcontent =>
      cases hcontent
      exact absurd (hin.mem List.mem_cons_self) (by decide)
    | p + 2, hcontent => cases hcontent
  · intro h
    obtain ⟨p, content, hcontent, hin⟩ := h _ (List.mem_of_getLast? rfl) "a"
      (Or.inl ⟨0, "a\n", rfl, by decide, [], ['\n'], rfl, Or.inl rfl, Or.inl rfl⟩)
    match p, hcontent with
    | 0, hcontent =>
      cases hcontent
      exact absurd (hin.mem List.mem_cons_self) (by decide)
    | 1, hcontent =>
      cases hcontent
      exact absurd (hin.mem List.mem_cons_self) (by decide)
    | p + 2, hcontent => cases hcontent

end LogWorld

end PartitionManager
