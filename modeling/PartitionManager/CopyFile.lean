import Mathlib.Logic.Function.Basic
import PartitionManager.Basic
import PartitionManager.Library.Bytes
import PartitionManager.Library.Loop

namespace PartitionManager

/-- The files of the system. Two paths can lead to one file. -/
structure Files where
  inode : Str → Option Nat
  content : Nat → List UInt8
  next : Nat
  used : ∀ path i, inode path = some i → i < next

/-- The results of the calls of one `copyFile`: which files can be opened, and for each turn how
much `read` and `write` take. A `none` stands for -1. -/
structure CopyCalls where
  sourceOpens : Bool
  destOpens : Bool
  read : Nat → Option Nat
  write : Nat → Option Nat

namespace Files

variable (w : Files)

def contentOf (path : Str) : Option (List UInt8) := (w.inode path).map w.content

def put (i : Nat) (bytes : List UInt8) : Files := { w with content := Function.update w.content i bytes }

theorem created_used (path p : Str) (i : Nat) (h : Function.update w.inode path (some w.next) p = some i) :
    i < w.next + 1 := by
  by_cases hp : p = path
  · rw [hp, Function.update_self] at h
    cases h
    exact Nat.lt_succ_self _
  · rw [Function.update_of_ne hp] at h
    exact Nat.lt_succ_of_lt (w.used p i h)

def create (path : Str) : Files where
  inode := Function.update w.inode path (some w.next)
  content := Function.update w.content w.next []
  next := w.next + 1
  used := w.created_used path

/-- `open` with `O_CREAT | O_TRUNC`. -/
def openTruncated (path : Str) : Nat × Files :=
  match w.inode path with
  | none => (w.next, w.create path)
  | some i => (i, w.put i [])

end Files

structure CopyState where
  files : Files
  src_offset : Nat
  dst_offset : Nat
  turn : Nat

/-- What `read` gives for `count`: one byte at least, unless the file ends. -/
def CopyState.buffer (s : CopyState) (src count : Nat) : List UInt8 :=
  Bytes.slice (s.files.content src) s.src_offset (min 512 (count + 1))

/-- One turn of the loop of `copyFile`. -/
def copyTurn (calls : CopyCalls) (src dst : Nat) (s : CopyState) : Loop.Turn CopyState (Bool × Files) :=
  match calls.read s.turn with
  | none => .leave (false, s.files)
  | some count =>
    let buffer := s.buffer src count
    if buffer = [] then .leave (true, s.files)
    else
      match calls.write s.turn with
      | none => .leave (false, s.files)
      | some bw =>
        let taken := buffer.take bw
        let files := s.files.put dst (Bytes.overwrite (s.files.content dst) s.dst_offset taken)
        if taken.length ≠ buffer.length then .leave (false, files)
        else .again ⟨files, s.src_offset + buffer.length, s.dst_offset + taken.length, s.turn + 1⟩

/-- `copyFile` returns `r`. -/
def CopyReturns (w : Files) (file dest : Str) (calls : CopyCalls) (r : Bool × Files) : Prop :=
  match if calls.sourceOpens then w.inode file else none with
  | none => r = (false, w)
  | some src =>
    if calls.destOpens then
      Loop.Returns (copyTurn calls src (w.openTruncated dest).1) ⟨(w.openTruncated dest).2, 0, 0, 0⟩ r
    else r = (false, w)

/-- In a turn that is reached, a `read` or a `write` failed, or a `write` was short. -/
def CopyFails (w : Files) (file dest : Str) (calls : CopyCalls) : Prop :=
  ∃ src k s, calls.sourceOpens = true ∧ w.inode file = some src ∧ calls.destOpens = true ∧
    Loop.At (copyTurn calls src (w.openTruncated dest).1) ⟨(w.openTruncated dest).2, 0, 0, 0⟩ k s ∧
    (calls.read s.turn = none ∨ ∃ count, calls.read s.turn = some count ∧ s.buffer src count ≠ [] ∧
      ∀ bw, calls.write s.turn = some bw → bw < (s.buffer src count).length)

/-- The destination is the source as it was, or the copy has failed. -/
structure CopyLaw (w : Files) (file dest : Str) (calls : CopyCalls) (r : Bool × Files) : Prop where
  copied : r.1 = true → r.2.contentOf dest = w.contentOf file
  kept : r.2.contentOf file = w.contentOf file
  failed : CopyFails w file dest calls → r.1 = false

/-- `copyFile` returns, as the law says. -/
def CopiesFaithfully (w : Files) (file dest : Str) (calls : CopyCalls) : Prop :=
  ∃ r, CopyReturns w file dest calls r ∧ CopyLaw w file dest calls r

section

variable {w : Files} {file dest : Str} {calls : CopyCalls} {src dst : Nat} {s : CopyState} {content : List UInt8}

theorem copyTurn_fails (h : calls.read s.turn = none ∨ ∃ count, calls.read s.turn = some count ∧
      s.buffer src count ≠ [] ∧ ∀ bw, calls.write s.turn = some bw → bw < (s.buffer src count).length) :
    ∃ files, copyTurn calls src dst s = .leave (false, files) := by
  unfold copyTurn
  rcases h with hread | ⟨count, hread, hbuffer, hshort⟩
  · rw [hread]
    exact ⟨_, rfl⟩
  · rw [hread]
    dsimp only
    rw [if_neg hbuffer]
    cases hwrite : calls.write s.turn with
    | none => exact ⟨_, rfl⟩
    | some bw =>
      have hlt := hshort bw hwrite
      have hne : ((s.buffer src count).take bw).length ≠ (s.buffer src count).length := by
        rw [List.length_take]
        omega
      dsimp only
      rw [if_pos hne]
      exact ⟨_, rfl⟩

/-- After an opened copy that fails somewhere, `false` is returned. -/
theorem failed_of_returns (hsource : w.inode file = some src)
    {r : Bool × Files} (hreturns : Loop.Returns (copyTurn calls src (w.openTruncated dest).1)
      ⟨(w.openTruncated dest).2, 0, 0, 0⟩ r) (h : CopyFails w file dest calls) : r.1 = false := by
  obtain ⟨src', k, s, _, hsource', _, hat, hfails⟩ := h
  cases hsource.symm.trans hsource'
  obtain ⟨files, hleave⟩ := @copyTurn_fails calls src (w.openTruncated dest).1 s hfails
  rw [Loop.returns_unique hreturns (Loop.returns_of_at hat hleave)]

/-- A turn ends the copy, or writes what it has read. -/
theorem copyTurn_cases (calls : CopyCalls) (src dst : Nat) (s : CopyState) :
    copyTurn calls src dst s = .leave (false, s.files) ∨
      (∃ count, s.buffer src count = [] ∧ copyTurn calls src dst s = .leave (true, s.files)) ∨
      (∃ bytes, copyTurn calls src dst s = .leave (false, s.files.put dst bytes)) ∨
      ∃ count, s.buffer src count ≠ [] ∧ copyTurn calls src dst s =
        .again ⟨s.files.put dst (Bytes.overwrite (s.files.content dst) s.dst_offset (s.buffer src count)),
          s.src_offset + (s.buffer src count).length, s.dst_offset + (s.buffer src count).length, s.turn + 1⟩ := by
  unfold copyTurn
  cases calls.read s.turn with
  | none => exact Or.inl rfl
  | some count =>
    dsimp only
    by_cases hbuffer : s.buffer src count = []
    · rw [if_pos hbuffer]
      exact Or.inr (Or.inl ⟨count, hbuffer, rfl⟩)
    · rw [if_neg hbuffer]
      cases calls.write s.turn with
      | none => exact Or.inl rfl
      | some bw =>
        dsimp only
        by_cases hall : ((s.buffer src count).take bw).length = (s.buffer src count).length
        · have htaken : (s.buffer src count).take bw = s.buffer src count :=
            (List.take_prefix bw _).eq_of_length hall
          rw [htaken, if_neg (not_not_intro rfl)]
          exact Or.inr (Or.inr (Or.inr ⟨count, hbuffer, rfl⟩))
        · rw [if_pos hall]
          exact Or.inr (Or.inr (Or.inl ⟨_, rfl⟩))

/-- What the turns keep if source and destination are two files. -/
structure CopyInvariant (w₀ : Files) (content : List UInt8) (src dst : Nat) (s : CopyState) : Prop where
  source : s.files.content src = content
  dest : s.files.content dst = content.take s.src_offset
  offset : s.dst_offset = s.src_offset
  bound : s.src_offset ≤ content.length
  inode : s.files.inode = w₀.inode

theorem CopyState.buffer_length (hsource : s.files.content src = content) (count : Nat) :
    (s.buffer src count).length = min (min 512 (count + 1)) (content.length - s.src_offset) := by
  rw [CopyState.buffer, Bytes.slice_length, hsource]

/-- What is written makes the destination the source up to the new offset. -/
theorem CopyInvariant.step {w₀ : Files} {s' : CopyState} (hne : src ≠ dst)
    (h : CopyInvariant w₀ content src dst s) (hagain : copyTurn calls src dst s = .again s') :
    CopyInvariant w₀ content src dst s' ∧ content.length - s'.src_offset < content.length - s.src_offset := by
  rcases copyTurn_cases calls src dst s with hleave | ⟨_, _, hleave⟩ | ⟨_, hleave⟩ | ⟨count, hbuffer, hturn⟩
  · cases hagain.symm.trans hleave
  · cases hagain.symm.trans hleave
  · cases hagain.symm.trans hleave
  · cases hagain.symm.trans hturn
    have hlength := CopyState.buffer_length h.source count
    have hpos : 0 < (s.buffer src count).length := List.length_pos_iff.mpr hbuffer
    have hlaid : Bytes.overwrite (s.files.content dst) s.dst_offset (s.buffer src count) =
        content.take (s.src_offset + (s.buffer src count).length) := by
      have hbefore : (content.take s.src_offset).length = s.src_offset := List.length_take_of_le h.bound
      have happend := Bytes.overwrite_append (content.take s.src_offset) [] (s.buffer src count)
      rw [List.append_nil, hbefore, List.drop_nil, List.append_nil] at happend
      rw [h.dest, h.offset, happend, CopyState.buffer, h.source, Bytes.take_append_slice,
        Bytes.take_add_slice_length]
    refine ⟨⟨?_, ?_, ?_, ?_, h.inode⟩, ?_⟩
    · exact (Function.update_of_ne hne _ _).trans h.source
    · exact (Function.update_self _ _ _).trans hlaid
    · exact congrArg (· + (s.buffer src count).length) h.offset
    · show s.src_offset + (s.buffer src count).length ≤ content.length
      omega
    · show content.length - (s.src_offset + (s.buffer src count).length) < content.length - s.src_offset
      omega

/-- The copy ends with the whole source, or it has failed. -/
theorem CopyInvariant.leave {w₀ : Files} {r : Bool × Files} (hne : src ≠ dst)
    (h : CopyInvariant w₀ content src dst s) (hleave : copyTurn calls src dst s = .leave r) :
    (r.1 = true → r.2.content dst = content) ∧ r.2.content src = content ∧ r.2.inode = w₀.inode := by
  rcases copyTurn_cases calls src dst s with hturn | ⟨count, hbuffer, hturn⟩ | ⟨bytes, hturn⟩ | ⟨_, _, hturn⟩
  · cases hleave.symm.trans hturn
    exact ⟨by rintro ⟨⟩, h.source, h.inode⟩
  · cases hleave.symm.trans hturn
    refine ⟨fun _ => ?_, h.source, h.inode⟩
    have hlength := CopyState.buffer_length h.source count
    rw [hbuffer, List.length_nil] at hlength
    show s.files.content dst = content
    rw [h.dest]
    exact List.take_of_length_le (by omega)
  · cases hleave.symm.trans hturn
    exact ⟨by rintro ⟨⟩, (Function.update_of_ne hne _ _).trans h.source, h.inode⟩
  · cases hleave.symm.trans hturn

/-- Whatever the calls do, a copy to another file ends, as the law says. -/
theorem CopyInvariant.returns {w₀ : Files} (hne : src ≠ dst) (h : CopyInvariant w₀ content src dst s) :
    ∃ r, Loop.Returns (copyTurn calls src dst) s r ∧
      (r.1 = true → r.2.content dst = content) ∧ r.2.content src = content ∧ r.2.inode = w₀.inode := by
  obtain ⟨r, hreturns⟩ : ∃ r, Loop.Returns (copyTurn calls src dst) s r :=
    Loop.returns_of_measure (fun s => content.length - s.src_offset) (fun _ _ hs hagain => hs.step hne hagain) h
  obtain ⟨k, s', hat, hleave⟩ := Loop.last_turn hreturns
  have hlast := Loop.at_invariant (fun _ _ hs hagain => (hs.step hne hagain).1) h hat
  exact ⟨r, hreturns, hlast.leave hne hleave⟩

end

section

variable {w : Files} {file dest : Str} {calls : CopyCalls} {src : Nat}

theorem openTruncated_of_some {i : Nat} (h : w.inode dest = some i) : w.openTruncated dest = (i, w.put i []) := by
  rw [Files.openTruncated, h]

theorem openTruncated_of_none (h : w.inode dest = none) : w.openTruncated dest = (w.next, w.create dest) := by
  rw [Files.openTruncated, h]

/-- Opening the destination leaves another file as it was, and leads to an empty one. -/
theorem openTruncated_other (hsource : w.inode file = some src) (hother : w.inode dest ≠ some src) :
    src ≠ (w.openTruncated dest).1 ∧ (w.openTruncated dest).2.content src = w.content src ∧
      (w.openTruncated dest).2.content (w.openTruncated dest).1 = [] ∧
      (w.openTruncated dest).2.inode file = some src ∧
      (w.openTruncated dest).2.inode dest = some (w.openTruncated dest).1 := by
  cases hdest : w.inode dest with
  | some i =>
    have hne : src ≠ i := by
      rintro rfl
      exact hother hdest
    rw [openTruncated_of_some hdest]
    exact ⟨hne, Function.update_of_ne hne _ _, Function.update_self _ _ _, hsource, hdest⟩
  | none =>
    have hne : src ≠ w.next := Nat.ne_of_lt (w.used file src hsource)
    have hpath : file ≠ dest := by
      rintro rfl
      rw [hsource] at hdest
      cases hdest
    rw [openTruncated_of_none hdest]
    exact ⟨hne, Function.update_of_ne hne _ _, Function.update_self _ _ _,
      (Function.update_of_ne hpath _ _).trans hsource, Function.update_self _ _ _⟩

theorem copyReturns_iff (hopens : calls.sourceOpens = true) (hdest : calls.destOpens = true)
    (hsource : w.inode file = some src) (r : Bool × Files) : CopyReturns w file dest calls r ↔
      Loop.Returns (copyTurn calls src (w.openTruncated dest).1) ⟨(w.openTruncated dest).2, 0, 0, 0⟩ r := by
  unfold CopyReturns
  rw [if_pos hopens, hsource]
  dsimp only
  rw [if_pos hdest]

/-- A copy to another file is faithful. -/
theorem copiesFaithfully_other (hopens : calls.sourceOpens = true) (hdest : calls.destOpens = true)
    (hsource : w.inode file = some src) (hother : w.inode dest ≠ some src) :
    CopiesFaithfully w file dest calls := by
  obtain ⟨hne, hcontent, hempty, hfile, hdestination⟩ := openTruncated_other hsource hother
  have hstart : CopyInvariant (w.openTruncated dest).2 (w.content src) src (w.openTruncated dest).1
      ⟨(w.openTruncated dest).2, 0, 0, 0⟩ := ⟨hcontent, hempty, rfl, Nat.zero_le _, rfl⟩
  obtain ⟨r, hreturns, hcopied, hkept, hinode⟩ := @CopyInvariant.returns calls _ _ _ _ _ hne hstart
  refine ⟨r, (copyReturns_iff hopens hdest hsource r).mpr hreturns, fun htrue => ?_, ?_,
    failed_of_returns hsource hreturns⟩
  · rw [Files.contentOf, Files.contentOf, hinode, hdestination, hsource]
    exact congrArg some (hcopied htrue)
  · rw [Files.contentOf, Files.contentOf, hinode, hfile, hsource]
    exact congrArg some hkept

/-- A file that is copied to itself is empty before the first turn. -/
theorem same_returns (calls : CopyCalls) (src : Nat) (w : Files) : ∃ copied,
    Loop.Returns (copyTurn calls src src) ⟨w.put src [], 0, 0, 0⟩ (copied, w.put src []) := by
  have hempty : ∀ count, CopyState.buffer ⟨w.put src [], 0, 0, 0⟩ src count = [] := by
    intro count
    have hcontent : (w.put src []).content src = [] := Function.update_self _ _ _
    rw [CopyState.buffer, hcontent]
    exact List.take_nil
  cases hread : calls.read 0 with
  | none =>
    refine ⟨false, 1, ?_⟩
    rw [Loop.run, copyTurn, hread]
  | some count =>
    refine ⟨true, 1, ?_⟩
    rw [Loop.run, copyTurn, hread]
    dsimp only
    rw [if_pos (hempty count)]

theorem copiesFaithfully_same_iff (hopens : calls.sourceOpens = true) (hdest : calls.destOpens = true)
    (hsource : w.inode file = some src) (hsame : w.inode dest = some src) :
    CopiesFaithfully w file dest calls ↔ w.content src = [] := by
  obtain ⟨copied, hreturns⟩ := same_returns calls src w
  have hopened := openTruncated_of_some hsame
  have hreturns' : CopyReturns w file dest calls (copied, w.put src []) := by
    rw [copyReturns_iff hopens hdest hsource, hopened]
    exact hreturns
  have hfile : (w.put src []).contentOf file = some [] := by
    show (w.inode file).map _ = _
    rw [hsource]
    exact congrArg some (Function.update_self _ _ _)
  have hbefore : w.contentOf file = some (w.content src) := by rw [Files.contentOf, hsource]; rfl
  constructor
  · intro h
    obtain ⟨r, hr, hlaw⟩ := h
    have hkept := hlaw.kept
    rw [copyReturns_iff hopens hdest hsource, hopened] at hr
    cases Loop.returns_unique hr hreturns
    rw [hfile, hbefore] at hkept
    exact (Option.some.inj hkept).symm
  · intro hempty
    refine ⟨_, hreturns', fun _ => ?_, ?_, ?_⟩
    · have hdestination : (w.put src []).contentOf dest = some [] := by
        show (w.inode dest).map _ = _
        rw [hsame]
        exact congrArg some (Function.update_self _ _ _)
      rw [hdestination, hbefore, hempty]
    · rw [hfile, hbefore, hempty]
    · rw [copyReturns_iff hopens hdest hsource] at hreturns'
      exact failed_of_returns hsource hreturns'

/-- The copy is faithful unless it opens one file under two names, and this file holds something. -/
theorem copy_faithful_iff (w : Files) (file dest : Str) (calls : CopyCalls) :
    CopiesFaithfully w file dest calls ↔
      ∀ src, calls.sourceOpens = true → calls.destOpens = true → w.inode file = some src →
        w.inode dest = some src → w.content src = [] := by
  have hclosed : CopyReturns w file dest calls (false, w) → ¬ CopyFails w file dest calls →
      CopiesFaithfully w file dest calls := by
    intro hreturns hfine
    exact ⟨_, hreturns, by rintro ⟨⟩, rfl, fun hfails => absurd hfails hfine⟩
  by_cases hsource : calls.sourceOpens = true ∧ ∃ src, w.inode file = some src
  · obtain ⟨hopens, src, hsource⟩ := hsource
    by_cases hdest : calls.destOpens = true
    · by_cases hsame : w.inode dest = some src
      · rw [copiesFaithfully_same_iff hopens hdest hsource hsame]
        constructor
        · intro hempty src' _ _ hsource' _
          cases hsource.symm.trans hsource'
          exact hempty
        · intro hall
          exact hall src hopens hdest hsource hsame
      · refine iff_of_true (copiesFaithfully_other hopens hdest hsource hsame) ?_
        intro src' _ _ hsource' hsame'
        cases hsource.symm.trans hsource'
        exact absurd hsame' hsame
    · refine iff_of_true (hclosed ?_ ?_) fun _ _ hdest' => absurd hdest' hdest
      · unfold CopyReturns
        rw [if_pos hopens, hsource]
        dsimp only
        rw [if_neg hdest]
      · rintro ⟨_, _, _, _, _, hdest', _⟩
        exact hdest hdest'
  · refine iff_of_true (hclosed ?_ ?_) fun src hopens _ hinode => absurd ⟨hopens, src, hinode⟩ hsource
    · have hnone : (if calls.sourceOpens then w.inode file else none) = none := by
        split
        next hopens =>
          cases hinode : w.inode file with
          | none => rfl
          | some src => exact absurd ⟨hopens, src, hinode⟩ hsource
        next => rfl
      rw [CopyReturns, hnone]
    · rintro ⟨src, _, _, hopens, hinode, _⟩
      exact hsource ⟨hopens, src, hinode⟩

end

theorem oneFile_used (_ : Str) (i : Nat) (h : (some 0 : Option Nat) = some i) : i < 1 := by
  cases h
  exact Nat.one_pos

/-- Every path leads to one file of three bytes. -/
def oneFile : Files := ⟨fun _ => some 0, fun _ => [1, 2, 3], 1, oneFile_used⟩

/-- The file is there under its second name. It is empty after the copy, which is reported as done. -/
theorem copy_to_itself_empties :
    CopyReturns oneFile "boot.img" "boot.bak" ⟨true, true, fun _ => some 511, fun _ => some 512⟩
      (true, oneFile.put 0 []) ∧
    (oneFile.put 0 []).contentOf "boot.img" = some [] ∧
    ¬ CopiesFaithfully oneFile "boot.img" "boot.bak" ⟨true, true, fun _ => some 511, fun _ => some 512⟩ := by
  refine ⟨⟨1, rfl⟩, rfl, ?_⟩
  intro h
  have hempty := (copiesFaithfully_same_iff rfl rfl rfl rfl).mp h
  cases hempty

end PartitionManager
