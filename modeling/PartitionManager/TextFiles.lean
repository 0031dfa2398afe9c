import Mathlib.Data.List.TakeWhile

namespace PartitionManager

/-- What a C string has of these bytes. -/
def c_str (s : List UInt8) : List UInt8 := s.takeWhile (· ≠ 0)

/-- What `fgets` takes: up to a line feed, and `n` bytes at most. -/
def fgetsPiece : Nat → List UInt8 → List UInt8
  | 0, _ => []
  | _ + 1, [] => []
  | n + 1, b :: content => if b = 10 then [b] else b :: fgetsPiece n content

/-- `BasicUniqueFP::gets`: the buffer with its terminator, and what is left to read. -/
def gets (size : Nat) (content : List UInt8) : Option (List UInt8 × List UInt8) :=
  if content = [] then none
  else some (fgetsPiece (size - 1) content ++ [0], content.drop (fgetsPiece (size - 1) content).length)

theorem fgetsPiece_append (n : Nat) (content : List UInt8) :
    fgetsPiece n content ++ content.drop (fgetsPiece n content).length = content := by
  induction n, content using fgetsPiece.induct with
  | case1 content => rfl
  | case2 n => rfl
  | case3 n content => rfl
  | case4 n b content hb ih =>
    rw [fgetsPiece, if_neg hb]
    exact congrArg (b :: ·) ih

theorem gets_some {size : Nat} (hsize : 2 ≤ size) {content buffer rest : List UInt8}
    (h : gets size content = some (buffer, rest)) :
    ∃ piece, buffer = piece ++ [0] ∧ piece ++ rest = content ∧ 0 < piece.length := by
  unfold gets at h
  split at h
  next => cases h
  next hne =>
    cases h
    refine ⟨_, rfl, fgetsPiece_append _ content, ?_⟩
    obtain ⟨n, hn⟩ := Nat.exists_eq_add_of_le hsize
    obtain ⟨b, content, rfl⟩ := List.exists_cons_of_ne_nil hne
    have hpred : size - 1 = n + 1 := by omega
    rw [hpred, fgetsPiece]
    split <;> exact Nat.succ_pos _

/-- The loop of `readFile`. -/
def readLoop (content str : List UInt8) : List UInt8 :=
  match _h : gets 1024 content with
  | none => str
  | some (buffer, rest) => readLoop rest (str ++ c_str buffer)
  termination_by content.length
  decreasing_by
    obtain ⟨piece, _, rfl, hpos⟩ := gets_some (by decide) _h
    rw [List.length_append]
    omega

/-- `file` is the content, if there is such a file. -/
def readFile (file : Option (List UInt8)) : Option (List UInt8) := file.map fun content => c_str (readLoop content [])

/-- The file is opened to append, and `fprintf` takes the text as a C string. -/
def writeFile (opens : Bool) (file : Option (List UInt8)) (text : List UInt8) : Bool × Option (List UInt8) :=
  if opens then (true, some (file.getD [] ++ c_str text)) else (false, file)

theorem c_str_of_not_mem {s : List UInt8} (h : 0 ∉ s) : c_str s = s := by
  refine List.takeWhile_eq_self_iff.mpr fun b hb => decide_eq_true ?_
  rintro rfl
  exact h hb

theorem not_mem_c_str (s : List UInt8) : 0 ∉ c_str s := by
  intro h
  have hne := List.mem_takeWhile_imp h
  simp at hne

theorem c_str_buffer {piece : List UInt8} (h : 0 ∉ piece) : c_str (piece ++ [0]) = piece := by
  have hpos : ∀ b ∈ piece, decide (b ≠ 0) = true := by
    intro b hb
    refine decide_eq_true ?_
    rintro rfl
    exact h hb
  rw [c_str, List.takeWhile_append_of_pos hpos]
  exact List.append_nil piece

/-- Each turn takes a piece that is not empty from the front, whatever lines there are. -/
theorem readLoop_eq {content : List UInt8} (h : 0 ∉ content) (str : List UInt8) :
    readLoop content str = str ++ content := by
  induction content, str using readLoop.induct with
  | case1 content str hread =>
    have hempty : content = [] := by
      by_contra hne
      rw [gets, if_neg hne] at hread
      cases hread
    rw [readLoop, hempty, List.append_nil]
    rfl
  | case2 content str buffer rest hread ih =>
    obtain ⟨piece, rfl, rfl, _⟩ := gets_some (by decide) hread
    obtain ⟨hpiece, hrest⟩ := not_or.mp fun hmem => h (List.mem_append.mpr hmem)
    rw [readLoop]
    split
    next hnone => cases hread.symm.trans hnone
    next buffer' rest' hsome =>
      cases hread.symm.trans hsome
      rw [c_str_buffer hpiece] at ih ⊢
      rw [ih hrest, List.append_assoc]

/-- No text with a zero byte is read. -/
theorem not_mem_of_readFile {file : Option (List UInt8)} {s : List UInt8} (h : readFile file = some s) : 0 ∉ s := by
  obtain ⟨content, rfl, rfl⟩ := Option.map_eq_some_iff.mp h
  exact not_mem_c_str _

/-- What is written is read back after what the file held, exactly if neither has a zero byte. -/
theorem write_then_read_iff {opens : Bool} {file file' : Option (List UInt8)} {text : List UInt8}
    (h : writeFile opens file text = (true, file')) :
    readFile file' = some (file.getD [] ++ text) ↔ 0 ∉ file.getD [] ++ text := by
  have hwritten : file' = some (file.getD [] ++ c_str text) := by
    unfold writeFile at h
    split at h
    next => exact (congrArg Prod.snd h).symm
    next => cases congrArg Prod.fst h
  rw [hwritten]
  constructor
  · intro hread
    exact not_mem_of_readFile hread
  · intro hplain
    have htext : 0 ∉ text := fun hmem => hplain (List.mem_append_right _ hmem)
    rw [c_str_of_not_mem htext]
    show some (c_str _) = _
    rw [readLoop_eq hplain, List.nil_append, c_str_of_not_mem hplain]

theorem write_then_read_line : readFile (some [104, 105, 10]) = some ([104, 105] ++ [10]) ↔
    (0 : UInt8) ∉ [104, 105] ++ [10] :=
  @write_then_read_iff true (some [104, 105]) (some [104, 105, 10]) [10] rfl

/-- Of a text with a zero byte only the part before it is written. A zero byte in the file ends the
text that is read. -/
theorem zero_byte_cuts :
    writeFile true none [97, 0, 98] = (true, some [97]) ∧ readFile (some [97]) ≠ some ([] ++ [97, 0, 98]) ∧
    writeFile true (some [97, 0]) [98] = (true, some [97, 0, 98]) ∧
    readFile (some [97, 0, 98]) ≠ some ([97, 0] ++ [98]) := by
  refine ⟨rfl, fun h => ?_, rfl, fun h => ?_⟩
  · exact absurd (not_mem_of_readFile h) (by decide)
  · exact absurd (not_mem_of_readFile h) (by decide)

end PartitionManager
