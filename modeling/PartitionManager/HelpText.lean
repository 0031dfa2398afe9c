import PartitionManager.Library.Loop
import PartitionManager.Basic

namespace PartitionManager

def max_line_width : Nat := 75

def indent_width : Nat := 8

/-- `std::string::rfind` of a character, backwards from a position. -/
def rfind (s : Str) (c : Char) : Nat → Option Nat
  | 0 => if s[0]? = some c then some 0 else none
  | pos + 1 => if s[pos + 1]? = some c then some (pos + 1) else rfind s c pos

def substr (s : Str) (pos count : Nat) : Str := (s.drop pos).take count

/-- One line of a description: where its chunk starts in it, the chunk, and
whether the loop skipped a space after the chunk. -/
structure HelpLine where
  start : Nat
  chunk : Str
  skipped : Bool
  deriving DecidableEq

/-- The loop of `printAlignedOption`: what is on `cout`, and the lines that the loop has put there. -/
structure HelpState where
  start : Nat
  cout : Str
  printed : List HelpLine

def chunkSize (description : Str) (start : Nat) : Nat :=
  let chunk_size := max_line_width - indent_width
  if start + chunk_size < description.length then
    match rfind description ' ' (start + chunk_size) with
    | some space_pos => if space_pos > start then space_pos - start else chunk_size
    | none => chunk_size
  else chunk_size

def printChunk (description : Str) (s : HelpState) : Loop.Turn HelpState HelpState :=
  if s.start < description.length then
    let chunk_size := chunkSize description s.start
    let chunk := substr description s.start chunk_size
    let start := s.start + chunk_size
    let skipped := description[start]? == some ' '
    .again ⟨if skipped then start + 1 else start, s.cout ++ (List.replicate indent_width ' ' ++ chunk ++ ['\n']),
      s.printed ++ [⟨s.start, chunk, skipped⟩]⟩
  else .leave s

/-- `printAlignedOption` comes to its end, has written the text, and its loop these lines of it. -/
def PrintsAligned (left_part description : Str) (cout : Str) (lines : List HelpLine) : Prop :=
  ∃ s, Loop.Returns (printChunk description) ⟨0, ("  " : Str) ++ left_part ++ ['\n'], []⟩ s ∧
    cout = s.cout ++ (if description.isEmpty then ['\n'] else []) ∧ lines = s.printed

def HelpLine.text (line : HelpLine) : Str := List.replicate indent_width ' ' ++ line.chunk ++ ['\n']

/-- The help of one option: what stands on its left, and the lines below it. -/
def alignedOption (left_part description : Str) (lines : List HelpLine) : Str :=
  ("  " : Str) ++ left_part ++ ['\n'] ++ lines.flatMap HelpLine.text ++ if description.isEmpty then ['\n'] else []

/-- A chunk with the space that was skipped after it. -/
def HelpLine.restored (line : HelpLine) : Str := if line.skipped then line.chunk ++ [' '] else line.chunk

/-- The characters on both sides of the end of the chunk belong to a word. -/
def HelpLine.EndsInsideWord (description : Str) (line : HelpLine) : Prop :=
  line.chunk.getLast? ≠ some ' ' ∧
    ∃ c, description[line.start + line.chunk.length]? = some c ∧ c ≠ ' '

/-- A line that keeps to the width and holds what stands at its place. A word is
cut only where no space follows its start within the width. -/
structure HelpLine.Fits (description : Str) (line : HelpLine) : Prop where
  nonempty : line.chunk ≠ []
  width : line.chunk.length ≤ 67
  place : line.chunk = substr description line.start line.chunk.length
  word : line.EndsInsideWord description →
    ∀ i, line.start < i → i ≤ line.start + 67 → description[i]? ≠ some ' '

section

variable {s description : Str} {c : Char} {pos i start : Nat} {st st' : HelpState}

theorem rfind_eq_some (h : rfind s c pos = some i) : i ≤ pos ∧ s[i]? = some c := by
  induction pos with
  | zero =>
    unfold rfind at h
    split at h
    next hc =>
      cases h
      exact ⟨Nat.le_refl 0, hc⟩
    next => cases h
  | succ pos ih =>
    unfold rfind at h
    split at h
    next hc =>
      cases h
      exact ⟨Nat.le_refl _, hc⟩
    next =>
      obtain ⟨hle, hi⟩ := ih h
      exact ⟨by omega, hi⟩

/-- What is found is the last of all. -/
theorem le_rfind (hi : i ≤ pos) (hc : s[i]? = some c) : ∃ last, rfind s c pos = some last ∧ i ≤ last := by
  induction pos with
  | zero =>
    obtain rfl : i = 0 := by omega
    unfold rfind
    rw [if_pos hc]
    exact ⟨0, rfl, Nat.le_refl 0⟩
  | succ pos ih =>
    unfold rfind
    by_cases hhere : s[pos + 1]? = some c
    · rw [if_pos hhere]
      exact ⟨pos + 1, rfl, hi⟩
    · rw [if_neg hhere]
      have hne : i ≠ pos + 1 := by
        intro heq
        exact hhere (heq ▸ hc)
      exact ih (by omega)

/-- Where the text goes on behind the chunk, the chunk ends at a space, or there
is no space to end it at. -/
theorem chunkSize_cases (description : Str) (start : Nat) :
    (chunkSize description start = 67 ∧ description.length ≤ start + 67) ∨
    (0 < chunkSize description start ∧ chunkSize description start ≤ 67 ∧
      description[start + chunkSize description start]? = some ' ') ∨
    (chunkSize description start = 67 ∧ ∀ i, start < i → i ≤ start + 67 → description[i]? ≠ some ' ') := by
  have hwidth : max_line_width - indent_width = 67 := rfl
  unfold chunkSize
  rw [hwidth]
  dsimp only
  by_cases hmore : start + 67 < description.length
  · rw [if_pos hmore]
    cases hfind : rfind description ' ' (start + 67) with
    | none =>
      refine Or.inr (Or.inr ⟨rfl, ?_⟩)
      intro i _ hi hspace
      obtain ⟨last, hlast, _⟩ := le_rfind hi hspace
      rw [hfind] at hlast
      cases hlast
    | some space_pos =>
      obtain ⟨hle, hspace⟩ := rfind_eq_some hfind
      dsimp only
      by_cases hpos : space_pos > start
      · have heq : start + (space_pos - start) = space_pos := by omega
        rw [if_pos hpos, heq]
        exact Or.inr (Or.inl ⟨by omega, by omega, hspace⟩)
      · rw [if_neg hpos]
        refine Or.inr (Or.inr ⟨rfl, ?_⟩)
        intro i hi hi' hspace'
        obtain ⟨last, hlast, hile⟩ := le_rfind hi' hspace'
        rw [hfind] at hlast
        cases hlast
        omega
  · rw [if_neg hmore]
    exact Or.inl ⟨rfl, by omega⟩

theorem chunkSize_pos (description : Str) (start : Nat) : 0 < chunkSize description start := by
  rcases chunkSize_cases description start with ⟨h, _⟩ | ⟨h, _⟩ | ⟨h, _⟩ <;> omega

theorem chunkSize_le (description : Str) (start : Nat) : chunkSize description start ≤ 67 := by
  rcases chunkSize_cases description start with ⟨h, _⟩ | ⟨_, h, _⟩ | ⟨h, _⟩ <;> omega

/-- The line that a turn prints. -/
def lineAt (description : Str) (start : Nat) : HelpLine :=
  ⟨start, substr description start (chunkSize description start),
    description[start + chunkSize description start]? == some ' '⟩

/-- Where the loop goes on after it. -/
def startAfter (description : Str) (start : Nat) : Nat :=
  if (lineAt description start).skipped then start + chunkSize description start + 1
  else start + chunkSize description start

theorem printChunk_of_lt (h : st.start < description.length) : printChunk description st =
    .again ⟨startAfter description st.start, st.cout ++ (lineAt description st.start).text,
      st.printed ++ [lineAt description st.start]⟩ := by
  unfold printChunk
  rw [if_pos h]
  rfl

theorem printChunk_again (h : printChunk description st = .again st') : st.start < description.length ∧
    st' = ⟨startAfter description st.start, st.cout ++ (lineAt description st.start).text,
      st.printed ++ [lineAt description st.start]⟩ := by
  by_cases hlt : st.start < description.length
  · rw [printChunk_of_lt hlt] at h
    cases h
    exact ⟨hlt, rfl⟩
  · unfold printChunk at h
    rw [if_neg hlt] at h
    cases h

theorem printChunk_leave (h : printChunk description st = .leave st') :
    description.length ≤ st.start ∧ st' = st := by
  by_cases hlt : st.start < description.length
  · rw [printChunk_of_lt hlt] at h
    cases h
  · unfold printChunk at h
    rw [if_neg hlt] at h
    cases h
    exact ⟨by omega, rfl⟩

theorem lt_startAfter (description : Str) (start : Nat) : start < startAfter description start := by
  have hpos := chunkSize_pos description start
  unfold startAfter
  split <;> omega

theorem lineAt_length (description : Str) (start : Nat) :
    (lineAt description start).chunk.length = min (chunkSize description start) (description.length - start) := by
  simp [lineAt, substr]

theorem lineAt_fits (h : start < description.length) : (lineAt description start).Fits description := by
  have hlength := lineAt_length description start
  have hpos := chunkSize_pos description start
  have hle := chunkSize_le description start
  refine ⟨?_, by omega, ?_, ?_⟩
  · intro hnil
    rw [hnil] at hlength
    simp only [List.length_nil] at hlength
    omega
  · rw [hlength]
    refine List.take_eq_take_iff.mpr ?_
    rw [List.length_drop]
    omega
  · intro hinside
    obtain ⟨_, c, hc, hne⟩ := hinside
    have hin : start + (lineAt description start).chunk.length < description.length :=
      (List.getElem?_eq_some_iff.mp hc).1
    have hwhole : (lineAt description start).chunk.length = chunkSize description start := by omega
    rw [hwhole] at hc hin
    rcases chunkSize_cases description start with ⟨hsize, hend⟩ | ⟨_, _, hspace⟩ | ⟨_, hnone⟩
    · omega
    · have hcs : some c = some ' ' := hc.symm.trans hspace
      exact absurd (Option.some.inj hcs) hne
    · exact hnone

/-- The chunk and the space after it are what the loop moves past. -/
theorem take_startAfter (description : Str) (start : Nat) :
    description.take (startAfter description start) =
      description.take start ++ (lineAt description start).restored := by
  have hchunk : description.take (start + chunkSize description start) =
      description.take start ++ (lineAt description start).chunk := List.take_add
  unfold startAfter HelpLine.restored
  by_cases hskip : (lineAt description start).skipped = true
  · have hspace : description[start + chunkSize description start]? = some ' ' := by simpa [lineAt] using hskip
    rw [if_pos hskip, if_pos hskip, List.take_add_one, hchunk, hspace, Option.toList_some, List.append_assoc]
  · rw [if_neg hskip, if_neg hskip, hchunk]

variable {cout : Str}

/-- The loop ends, whatever the description. -/
theorem printChunk_returns (description cout : Str) :
    ∃ st, Loop.Returns (printChunk description) ⟨0, cout, []⟩ st := by
  refine Loop.returns_of_measure (I := fun _ => True) (fun st => description.length - st.start) ?_ trivial
  intro st st' _ h
  obtain ⟨hlt, rfl⟩ := printChunk_again h
  have hstart := lt_startAfter description st.start
  exact ⟨trivial, by dsimp only; omega⟩

/-- What the loop has written is its lines, which fit, and they hold what it has moved past. -/
structure HelpState.Aligned (description cout : Str) (st : HelpState) : Prop where
  text : st.cout = cout ++ st.printed.flatMap HelpLine.text
  joined : st.printed.flatMap HelpLine.restored = description.take st.start
  fits : ∀ line ∈ st.printed, line.Fits description

theorem HelpState.Aligned.step (h : st.Aligned description cout) (hstep : printChunk description st = .again st') :
    st'.Aligned description cout := by
  obtain ⟨hlt, rfl⟩ := printChunk_again hstep
  refine ⟨?_, ?_, fun line hline => ?_⟩
  · rw [List.flatMap_append, List.flatMap_singleton, ← List.append_assoc, ← h.text]
  · rw [List.flatMap_append, h.joined, List.flatMap_singleton, take_startAfter]
  · rcases List.mem_append.mp hline with hold | hnew
    · exact h.fits line hold
    · rw [List.mem_singleton.mp hnew]
      exact lineAt_fits hlt

theorem printed_invariant {k : Nat} (h : Loop.At (printChunk description) ⟨0, cout, []⟩ k st) :
    st.Aligned description cout := by
  have hstart : HelpState.Aligned description cout ⟨0, cout, []⟩ :=
    ⟨(List.append_nil cout).symm, rfl, fun line hline => absurd hline List.not_mem_nil⟩
  exact Loop.at_invariant (I := HelpState.Aligned description cout) (fun st st' hst => hst.step) hstart h

/-- Whatever the description, the loop ends with lines that fit, they hold the description,
and they are what is printed below the left part. -/
theorem printAlignedOption_wraps (left_part description : Str) :
    ∃ lines, PrintsAligned left_part description (alignedOption left_part description lines) lines ∧
      (∀ line ∈ lines, line.Fits description) ∧ lines.flatMap HelpLine.restored = description := by
  obtain ⟨last, hreturns⟩ := printChunk_returns description (("  " : Str) ++ left_part ++ ['\n'])
  obtain ⟨k, st, hat, hleave⟩ := Loop.last_turn hreturns
  obtain ⟨hend, rfl⟩ := printChunk_leave hleave
  have haligned := printed_invariant hat
  have hjoin := haligned.joined
  rw [List.take_of_length_le hend] at hjoin
  refine ⟨last.printed, ⟨last, hreturns, ?_, rfl⟩, haligned.fits, hjoin⟩
  rw [alignedOption, haligned.text]

end

end PartitionManager
