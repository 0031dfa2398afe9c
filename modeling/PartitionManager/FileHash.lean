import PartitionManager.Basic
import PartitionManager.Library.Streaming

namespace PartitionManager

def SHA256_DIGEST_LENGTH : Nat := 32

/-- The directory of a path, with its slash. -/
def linkDirectory (path : Str) : Str := (path.reverse.dropWhile (· ≠ '/')).reverse

/-- What the system has at each path: the target of a link, and what is read once links are
followed. A target is taken from the directory of its link. -/
structure LinkedFiles where
  link : Str → Option Str
  isExists : Str → Bool
  file : Str → Option (List UInt8)
  there : ∀ path content, file path = some content → isExists path = true
  short : ∀ path target, link path = some target → target.length < PATH_MAX
  follows : ∀ path target content, link path = some target → file path = some content →
    file (append (linkDirectory path) target) = some content

def LinkedFiles.readSymlink (sys : LinkedFiles) (path : Str) : Str :=
  (sys.link path).elim path (·.take (PATH_MAX - 1))

abbrev Digest := { bytes : List UInt8 // bytes.length = SHA256_DIGEST_LENGTH }

def bytesToHexString (bytes : List UInt8) : Str :=
  bytes.flatMap fun b => [Nat.digitChar (b.toNat / 16), Nat.digitChar (b.toNat % 16)]

/-- A `std::ifstream`. Whether a read below it has failed is seen by nobody. -/
structure InStream where
  offset : Nat
  turn : Nat
  good : Bool
  error : Bool

/-- The reads below `file.read`, up to the number of bytes asked for. Each gives one byte at
least, unless the file ends. -/
def InStream.fill (read : Nat → Option Nat) (content : List UInt8) (need : Nat) (s : InStream) : InStream :=
  if need = 0 then s
  else
    match read s.turn with
    | none => { s with turn := s.turn + 1, good := false, error := true }
    | some count =>
      let n := min (count + 1) (min need (content.length - s.offset))
      if n = 0 then { s with turn := s.turn + 1, good := false }
      else fill read content (need - n) { s with offset := s.offset + n, turn := s.turn + 1 }
  termination_by need

/-- Where each read of a file begins and what it asks for, when 4096 bytes are wanted each time. -/
def readAt (read : Nat → Option Nat) (content : List UInt8) : Nat → Option (Nat × Nat)
  | 0 => some (0, 4096)
  | turn + 1 =>
    (readAt read content turn).bind fun (offset, need) =>
      (read turn).bind fun count =>
        let n := min (count + 1) (min need (content.length - offset))
        if n = 0 then none else some (offset + n, if need - n = 0 then 4096 else need - n)

/-- A read of the file fails. -/
def FailsIn (read : Nat → Option Nat) (content : List UInt8) : Prop :=
  ∃ turn, (readAt read content turn).isSome ∧ read turn = none

namespace InStream

/-- Where `fill` leaves the stream: it stays good only with all that was asked for. -/
structure Filled (content : List UInt8) (need : Nat) (s s' : InStream) : Prop where
  grows : s.offset ≤ s'.offset
  bound : s'.offset ≤ max s.offset content.length
  full : s'.good = true → s'.offset = s.offset + need

variable {read : Nat → Option Nat} {content : List UInt8} {need count : Nat} {s : InStream}

theorem fill_zero (s : InStream) : s.fill read content 0 = s := by
  rw [fill, if_pos rfl]

theorem fill_of_failed (hneed : need ≠ 0) (hread : read s.turn = none) :
    s.fill read content need = { s with turn := s.turn + 1, good := false, error := true } := by
  rw [fill, if_neg hneed, hread]

theorem fill_of_ended (hneed : need ≠ 0) (hread : read s.turn = some count)
    (hn : min (count + 1) (min need (content.length - s.offset)) = 0) :
    s.fill read content need = { s with turn := s.turn + 1, good := false } := by
  rw [fill, if_neg hneed, hread]
  exact if_pos hn

theorem fill_of_some (hneed : need ≠ 0) (hread : read s.turn = some count)
    (hn : min (count + 1) (min need (content.length - s.offset)) ≠ 0) :
    s.fill read content need =
      { s with
        offset := s.offset + min (count + 1) (min need (content.length - s.offset))
        turn := s.turn + 1 }.fill read content
        (need - min (count + 1) (min need (content.length - s.offset))) := by
  rw [fill, if_neg hneed, hread]
  exact if_neg hn

theorem filled (need : Nat) (s : InStream) : s.Filled content need (s.fill read content need) := by
  induction need, s using fill.induct read content with
  | case1 s =>
    rw [fill_zero]
    exact ⟨le_rfl, le_max_left _ _, fun _ => rfl⟩
  | case2 need s hneed hread =>
    rw [fill_of_failed hneed hread]
    refine ⟨le_rfl, le_max_left _ _, ?_⟩
    rintro ⟨⟩
  | case3 need s hneed count hread n hn =>
    rw [fill_of_ended hneed hread hn]
    refine ⟨le_rfl, le_max_left _ _, ?_⟩
    rintro ⟨⟩
  | case4 need s hneed count hread n hn ih =>
    have hn' : min (count + 1) (min need (content.length - s.offset)) = n := rfl
    obtain ⟨hgrows, hbound, hfull⟩ := ih
    rw [fill_of_some hneed hread hn, hn']
    dsimp only at hgrows hbound hfull
    refine ⟨by omega, by omega, fun h => ?_⟩
    rw [hfull h]
    omega

/-- A good stream is left good, or at the end of the file, or after a read that failed. -/
theorem fill_ended (need : Nat) {s : InStream} (hgood : s.good = true) (herror : s.error = false) :
    ((s.fill read content need).good = true → (s.fill read content need).error = false) ∧
      ((s.fill read content need).good = false → (s.fill read content need).error = false →
        content.length ≤ (s.fill read content need).offset) := by
  induction need, s using fill.induct read content with
  | case1 s =>
    rw [fill_zero]
    refine ⟨fun _ => herror, fun h => ?_⟩
    rw [hgood] at h
    cases h
  | case2 need s hneed hread =>
    rw [fill_of_failed hneed hread]
    exact ⟨by rintro ⟨⟩, by rintro _ ⟨⟩⟩
  | case3 need s hneed count hread n hn =>
    have hnone : min (count + 1) (min need (content.length - s.offset)) = 0 := hn
    rw [fill_of_ended hneed hread hn]
    refine ⟨by rintro ⟨⟩, fun _ _ => ?_⟩
    show content.length ≤ s.offset
    omega
  | case4 need s hneed count hread n hn ih =>
    rw [fill_of_some hneed hread hn]
    exact ih hgood herror

/-- The reads of a stream that stays good go on where `fill` stopped. -/
theorem fill_reads (need : Nat) {s : InStream} (herror : s.error = false)
    (hat : readAt read content s.turn = some (s.offset, if need = 0 then 4096 else need)) :
    ((s.fill read content need).good = true →
        readAt read content (s.fill read content need).turn = some ((s.fill read content need).offset, 4096)) ∧
      ((s.fill read content need).error = true → FailsIn read content) := by
  induction need, s using fill.induct read content with
  | case1 s =>
    rw [fill_zero]
    refine ⟨fun _ => hat, fun h => ?_⟩
    rw [herror] at h
    cases h
  | case2 need s hneed hread =>
    rw [fill_of_failed hneed hread]
    exact ⟨by rintro ⟨⟩, fun _ => ⟨s.turn, by rw [hat, Option.isSome_some], hread⟩⟩
  | case3 need s hneed count hread n hn =>
    rw [fill_of_ended hneed hread hn]
    refine ⟨by rintro ⟨⟩, fun h => ?_⟩
    rw [herror] at h
    cases h
  | case4 need s hneed count hread n hn ih =>
    rw [if_neg hneed] at hat
    rw [fill_of_some hneed hread hn]
    refine ih herror ?_
    rw [readAt, hat, Option.bind_some, hread]
    exact if_neg hn

/-- How much is left, for a loop that ends when the stream is no longer good. -/
def left (content : List UInt8) (s : InStream) : Nat := 2 * (content.length - s.offset) + s.good.toNat

theorem left_lt {s : InStream} (hgood : s.good = true)
    (hmore : (s.fill read content 4096).good = true ∨ s.offset < (s.fill read content 4096).offset) :
    (s.fill read content 4096).left content < s.left content := by
  obtain ⟨hgrows, hbound, hfull⟩ := @filled read content 4096 s
  unfold left
  rw [hgood]
  cases hend : (s.fill read content 4096).good with
  | true =>
    have hall := hfull hend
    simp only [Bool.toNat_true]
    omega
  | false =>
    rw [hend] at hmore
    have hsome : s.offset < (s.fill read content 4096).offset := hmore.resolve_left Bool.noConfusion
    simp only [Bool.toNat_true, Bool.toNat_false]
    omega

end InStream

section

variable {σ : Type} (update : σ → List UInt8 → σ) (read : Nat → Option Nat) (content : List UInt8)

/-- The loop of `sha256Of`. The last `file.read` is of a stream that is not good, and gives nothing. -/
def hashLoop (s : InStream) (context : σ) : InStream × σ :=
  if _hgood : s.good = true then
    if _hmore : (s.fill read content 4096).good = true ∨ s.offset < (s.fill read content 4096).offset then
      hashLoop (s.fill read content 4096)
        (update context (Bytes.slice content s.offset ((s.fill read content 4096).offset - s.offset)))
    else (s.fill read content 4096, context)
  else (s, context)
  termination_by s.left content
  decreasing_by exact InStream.left_lt _hgood _hmore

def InStream.opened : InStream := ⟨0, 0, true, false⟩

end

/-- Between two turns: the hash has all that was read, and a stream that is no longer good is
at the end of the file unless the last read failed. -/
structure Covered (h : Streaming UInt8 Digest) (read : Nat → Option Nat) (content : List UInt8) (s : InStream)
    (context : h.State) : Prop where
  inside : s.offset ≤ content.length
  context : context = h.update h.init (content.take s.offset)
  good : s.good = true → s.error = false ∧ readAt read content s.turn = some (s.offset, 4096)
  ended : s.good = false → s.error = false → content.length ≤ s.offset
  failed : s.error = true → FailsIn read content

section

variable {h : Streaming UInt8 Digest} {read : Nat → Option Nat} {content : List UInt8}

theorem Covered.opened : Covered h read content .opened h.init := by
  refine ⟨Nat.zero_le _, ?_, fun _ => ⟨rfl, rfl⟩, by rintro ⟨⟩, by rintro ⟨⟩⟩
  show h.init = h.update h.init []
  rw [h.update_nil]

theorem Covered.step {s : InStream} {context : h.State} (hs : Covered h read content s context)
    (hgood : s.good = true) :
    Covered h read content (s.fill read content 4096)
      (h.update context (Bytes.slice content s.offset ((s.fill read content 4096).offset - s.offset))) := by
  obtain ⟨herror, hat⟩ := hs.good hgood
  obtain ⟨hgrows, hbound, _⟩ := @InStream.filled read content 4096 s
  obtain ⟨hok, hended⟩ := @InStream.fill_ended read content 4096 s hgood herror
  obtain ⟨hreads, hfailed⟩ := @InStream.fill_reads read content 4096 s herror hat
  have hinside := hs.inside
  refine ⟨by omega, ?_, fun h => ⟨hok h, hreads h⟩, hended, hfailed⟩
  rw [hs.context, h.update_slice]
  congr 2
  omega

theorem hashLoop_covered (s : InStream) (context : h.State) (hs : Covered h read content s context) :
    Covered h read content (hashLoop h.update read content s context).1
        (hashLoop h.update read content s context).2 ∧
      (hashLoop h.update read content s context).1.good = false := by
  induction s, context using hashLoop.induct h.update read content with
  | case1 s context hgood hmore ih =>
    rw [hashLoop, dif_pos hgood, dif_pos hmore]
    exact ih (hs.step hgood)
  | case2 s context hgood hmore =>
    have hnext := hs.step hgood
    rw [hashLoop, dif_pos hgood, dif_neg hmore]
    rw [not_or] at hmore
    -- nothing was read, and the hash is not updated
    have hsame : (s.fill read content 4096).offset - s.offset = 0 := by omega
    rw [hsame, Bytes.slice, List.take_zero, h.update_nil] at hnext
    exact ⟨hnext, Bool.eq_false_iff.mpr hmore.1⟩
  | case3 s context hgood =>
    rw [hashLoop, dif_neg hgood]
    exact ⟨hs, Bool.eq_false_iff.mpr hgood⟩

/-- When no read fails, the loop has hashed the file, whatever the lengths that were read. -/
theorem hashLoop_digest (hread : ¬ FailsIn read content) :
    h.final (hashLoop h.update read content .opened h.init).2 = h.digest content := by
  obtain ⟨hcovered, hended⟩ := @hashLoop_covered h read content .opened h.init Covered.opened
  have herror : (hashLoop h.update read content .opened h.init).1.error = false :=
    Bool.eq_false_iff.mpr fun herror => hread (hcovered.failed herror)
  rw [hcovered.context, List.take_of_length_le (hcovered.ended hended herror)]
  rfl

end

namespace LinkedFiles

variable (sys : LinkedFiles)

/-- The path that `sha256Of` opens. -/
def hashedPath (path : Str) : Str := if (sys.link path).isSome then sys.readSymlink path else path

def sha256Of (h : Streaming UInt8 Digest) (read : Nat → Option Nat) (path : Str) : Outcome Str :=
  let fp := sys.hashedPath path
  if sys.isExists fp = false then raise ⟨"Is not exists or not file: " ++ fp, 1, false⟩
  else
    match sys.file fp with
    | none => raise ⟨"Cannot open file: " ++ fp, 1, false⟩
    | some content => .ok (bytesToHexString (h.final (hashLoop h.update read content .opened h.init).2).1)

/-- A read of the file that is opened fails. -/
def ReadFails (read : Nat → Option Nat) (path : Str) : Prop :=
  ∃ content, sys.file (sys.hashedPath path) = some content ∧ FailsIn read content

/-- With every hash that takes its input in pieces, the digest is that of the whole content, and
there is none after a read that failed. -/
structure HashesFile (read : Nat → Option Nat) (path : Str) (content : List UInt8) : Prop where
  digest : ¬ sys.ReadFails read path → ∀ h : Streaming UInt8 Digest,
    sys.sha256Of h read path = .ok (bytesToHexString (h.digest content).1)
  failed : sys.ReadFails read path → ∀ h : Streaming UInt8 Digest, ∃ stop, sys.sha256Of h read path = .error stop

variable {sys} {read : Nat → Option Nat} {path : Str} {content : List UInt8}

theorem hashedPath_of_link {target : Str} (hlink : sys.link path = some target) : sys.hashedPath path = target := by
  have hshort := sys.short path target hlink
  unfold PATH_MAX at hshort
  unfold hashedPath readSymlink
  rw [hlink, Option.isSome_some, if_pos rfl]
  exact List.take_of_length_le (by unfold PATH_MAX; omega)

theorem sha256Of_of_file (hfile : sys.file (sys.hashedPath path) = some content) (h : Streaming UInt8 Digest) :
    sys.sha256Of h read path =
      .ok (bytesToHexString (h.final (hashLoop h.update read content .opened h.init).2).1) := by
  have hthere := sys.there _ content hfile
  unfold sha256Of
  dsimp only
  rw [hthere, if_neg Bool.noConfusion, hfile]

theorem sha256Of_of_none (hfile : sys.file (sys.hashedPath path) = none) (h : Streaming UInt8 Digest) :
    ∃ stop, sys.sha256Of h read path = .error stop := by
  unfold sha256Of
  dsimp only
  by_cases hexists : sys.isExists (sys.hashedPath path) = false
  · rw [if_pos hexists]
    exact ⟨_, rfl⟩
  · rw [if_neg hexists, hfile]
    exact ⟨_, rfl⟩

/-- The digest that tells one content from all others. -/
def recognize (content bytes : List UInt8) : Digest :=
  ⟨List.replicate SHA256_DIGEST_LENGTH (if bytes = content then 1 else 0), List.length_replicate⟩

theorem eq_of_recognize {bytes : List UInt8}
    (h : bytesToHexString (recognize content bytes).1 = bytesToHexString (recognize content content).1) :
    bytes = content := by
  by_contra hne
  have hdigits : bytesToHexString (List.replicate SHA256_DIGEST_LENGTH 0) ≠
      bytesToHexString (List.replicate SHA256_DIGEST_LENGTH 1) := by decide
  unfold recognize at h
  rw [if_neg hne, if_pos rfl] at h
  exact hdigits h

/-- What is hashed is the content that `path` means, if it is so with every hash. -/
theorem file_of_hashesFile (h : sys.HashesFile read path content) (hfails : ¬ sys.ReadFails read path) :
    sys.file (sys.hashedPath path) = some content := by
  have hdigest := h.digest hfails (.ofWhole (recognize content))
  cases hfile : sys.file (sys.hashedPath path) with
  | none =>
    obtain ⟨stop, hstop⟩ := @sha256Of_of_none sys read path hfile (.ofWhole (recognize content))
    rw [hstop] at hdigest
    cases hdigest
  | some bytes =>
    have hread : ¬ FailsIn read bytes := fun hin => hfails ⟨bytes, hfile, hin⟩
    rw [sha256Of_of_file hfile, hashLoop_digest hread, Streaming.ofWhole_digest,
      Streaming.ofWhole_digest] at hdigest
    rw [eq_of_recognize (Except.ok.inj hdigest)]

theorem hash_file_iff (hpath : sys.file path = some content) :
    sys.HashesFile read path content ↔
      (∀ target, sys.link path = some target → target.head? ≠ some '/' → sys.file target = some content) ∧
        ¬ FailsIn read content := by
  constructor
  · intro h
    have hfails : ¬ sys.ReadFails read path := by
      rintro ⟨bytes, hfile, hin⟩
      obtain ⟨stop, hstop⟩ := h.failed ⟨bytes, hfile, hin⟩ (.ofWhole (recognize content))
      rw [sha256Of_of_file hfile] at hstop
      cases hstop
    have hfile := file_of_hashesFile h hfails
    refine ⟨fun target hlink _ => ?_, fun hin => hfails ⟨content, hfile, hin⟩⟩
    rw [← hashedPath_of_link hlink]
    exact hfile
  · rintro ⟨hrelative, hread⟩
    have hfile : sys.file (sys.hashedPath path) = some content := by
      cases hlink : sys.link path with
      | none =>
        unfold hashedPath
        rw [hlink, Option.isSome_none, if_neg Bool.noConfusion, hpath]
      | some target =>
        rw [hashedPath_of_link hlink]
        by_cases habsolute : target.head? = some '/'
        · have hfollows := sys.follows path target content hlink hpath
          rwa [append, if_pos habsolute] at hfollows
        · exact hrelative target hlink habsolute
    refine ⟨fun _ h => ?_, ?_⟩
    · rw [sha256Of_of_file hfile, hashLoop_digest hread]
    · rintro ⟨bytes, hbytes, hin⟩
      rw [hfile] at hbytes
      exact absurd (Option.some.inj hbytes ▸ hin) hread

/-- `dir/link` is a link to `boot.img`, which stands beside it. There is a file of that name in the
working directory as well, with a link of its own, and `dir/current` is a link with an absolute target. -/
def linkAt (path : Str) : Option Str :=
  if path = "dir/link" ∨ path = "link" then some "boot.img".toList
  else if path = "dir/current" then some "/data/boot.img".toList
  else none

def fileAt (path : Str) : Option (List UInt8) :=
  if path = "dir/link" ∨ path = "dir/boot.img" then some [1, 2, 3]
  else if path = "dir/current" ∨ path = "/data/boot.img" then some [5, 6]
  else if path = "link" ∨ path = "boot.img" then some [4]
  else none

theorem fileAt_there (path : Str) (content : List UInt8) (h : fileAt path = some content) :
    (fileAt path).isSome = true := by
  rw [h, Option.isSome_some]

theorem linkAt_cases {path target : Str} (h : linkAt path = some target) :
    (path = "dir/link" ∨ path = "link") ∧ target = "boot.img" ∨ path = "dir/current" ∧ target = "/data/boot.img" := by
  unfold linkAt at h
  split at h
  next hpath => exact Or.inl ⟨hpath, (Option.some.inj h).symm⟩
  next =>
    split at h
    next hpath => exact Or.inr ⟨hpath, (Option.some.inj h).symm⟩
    next => cases h

theorem linkAt_short (path target : Str) (h : linkAt path = some target) : target.length < PATH_MAX := by
  rcases linkAt_cases h with ⟨_, rfl⟩ | ⟨_, rfl⟩
  · decide
  · decide

theorem linkAt_follows (path target : Str) (content : List UInt8) (h : linkAt path = some target)
    (hfile : fileAt path = some content) : fileAt (append (linkDirectory path) target) = some content := by
  rw [← hfile]
  rcases linkAt_cases h with ⟨rfl | rfl, rfl⟩ | ⟨rfl, rfl⟩
  · decide
  · decide
  · decide

def besideLink : LinkedFiles :=
  ⟨linkAt, fun path => (fileAt path).isSome, fileAt, fileAt_there, linkAt_short, linkAt_follows⟩

/-- An absolute target, and a relative one of a link in the working directory. -/
theorem hash_file_links : besideLink.HashesFile (fun _ => some 4095) "dir/current" [5, 6] ∧
    besideLink.HashesFile (fun _ => some 4095) "link" [4] := by
  have hcurrent : besideLink.file "dir/current" = some [5, 6] := by decide
  have hlink : besideLink.file "link" = some [4] := by decide
  constructor
  · refine (hash_file_iff hcurrent).mpr ⟨fun target h hrelative => ?_, ?_⟩
    · have hat : linkAt "dir/current" = some target := h
      rcases linkAt_cases hat with ⟨hpath, _⟩ | ⟨_, rfl⟩
      · exact absurd hpath (by decide)
      · exact absurd (by decide) hrelative
    · rintro ⟨_, _, ⟨⟩⟩
  · refine (hash_file_iff hlink).mpr ⟨fun target h _ => ?_, ?_⟩
    · have hat : linkAt "link" = some target := h
      rcases linkAt_cases hat with ⟨_, rfl⟩ | ⟨hpath, _⟩
      · decide
      · exact absurd hpath (by decide)
    · rintro ⟨_, _, ⟨⟩⟩

/-- Through the link the other file is hashed, and of a file whose rest cannot be read the first byte. -/
theorem wrong_file_hashed :
    ¬ besideLink.HashesFile (fun _ => some 4095) "dir/link" [1, 2, 3] ∧
      ¬ besideLink.HashesFile (fun turn => if turn = 0 then some 0 else none) "dir/boot.img" [1, 2, 3] := by
  refine ⟨fun h => ?_, fun h => ?_⟩
  · have hfails : ¬ besideLink.ReadFails (fun _ => some 4095) "dir/link" := by
      rintro ⟨_, _, _, _, ⟨⟩⟩
    have hother : besideLink.file (besideLink.hashedPath "dir/link") = some [4] := by decide
    have hfile := file_of_hashesFile h hfails
    rw [hother] at hfile
    exact absurd hfile (by decide)
  · have hfile : besideLink.file (besideLink.hashedPath "dir/boot.img") = some [1, 2, 3] := by decide
    have hin : FailsIn (fun turn => if turn = 0 then some 0 else none) [1, 2, 3] := ⟨1, by decide, by decide⟩
    obtain ⟨stop, hstop⟩ := h.failed ⟨_, hfile, hin⟩ (.ofWhole (recognize []))
    rw [sha256Of_of_file hfile] at hstop
    cases hstop

end LinkedFiles

end PartitionManager
