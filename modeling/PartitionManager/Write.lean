import PartitionManager.Flags
import PartitionManager.Posix
import PartitionManager.Library.Bytes
import PartitionManager.Library.Checks

namespace PartitionManager

/-- The surroundings of one `write` call: the image and how its reads go, how
the writes to the partition go, and what the final `openpart_sync` returns. -/
structure WriteIO (abi : Abi) where
  image : List UInt8
  reads : Schedule abi
  writes : Schedule abi
  openpart_sync : Int
  errno : Errno
  strerror : Errno → Str

structure WriteSetup where
  image : Str
  toWrite : Str
  bufferSize : Nat
  imageSize : Nat
  size : Nat

/-- Where a `write` call stands. -/
inductive WriteStage where
  | reading
  | writing (buffer : List UInt8)
  | padding (remainingBytes : Nat)
  | syncing
  | done (result : Except HelperError Bool)

structure WriteTask where
  stage : WriteStage
  bytesWrittenSoFar : Nat
  imageOffset : Nat
  errno : Errno
  turn : Nat

/-- Everything `write` does before its first loop. -/
def Partition.writeSetup (abi : Abi) (fs : FileSystem) (fileSize : Str → Int) (openErrno : Option Errno)
    (errno : Errno) (p : Partition) (image : Str) (bufsize : Nat) : Outcome WriteSetup := do
  let toWrite ← (if p.isLogical then p.absolutePath fs else .ok p.path)
  let imageSize := fileSize image
  if imageSize < 0 then raise ⟨"Cannot get size of " ++ image ++ ": " ++ fs.strerror errno, 1, false⟩
  else do
    let size ← p.size abi fs
    if imageSize > size then
      raise ⟨"Image is too large: " ++ image ++ " (" ++ to_string imageSize.toNat ++ " > " ++ to_string size ++ ")",
        1, false⟩
    else if p.op = none then raise ⟨"openpart_t* object invalid: " ++ toWrite, 1, false⟩
    else match openErrno with
      | some e => raise ⟨"Cannot open " ++ image ++ ": " ++ fs.strerror e, 1, false⟩
      | none => .ok ⟨image, toWrite, min bufsize size, imageSize.toNat, size⟩

theorem Partition.writeSetup_size {abi : Abi} {fs : FileSystem} {fileSize : Str → Int}
    {openErrno : Option Errno} {errno : Errno} {p : Partition} {image : Str} {bufsize : Nat}
    {setup : WriteSetup}
    (h : p.writeSetup abi fs fileSize openErrno errno image bufsize = .ok setup) :
    p.size abi fs = .ok setup.size ∧ fileSize image = setup.imageSize ∧ setup.imageSize ≤ setup.size := by
  obtain ⟨toWrite, _, h⟩ := Checks.bind_ok_iff.mp h
  dsimp only at h
  split at h
  next => cases h
  next hnonneg =>
    obtain ⟨size, hsize, h⟩ := Checks.bind_ok_iff.mp h
    split at h
    next => cases h
    next hfits =>
      split at h
      next => cases h
      next =>
        cases openErrno with
        | some e => cases h
        | none =>
          cases h
          exact ⟨hsize, (Int.toNat_of_nonneg (by omega)).symm, by dsimp only; omega⟩

section

variable {abi : Abi} (io : WriteIO abi) (setup : WriteSetup)

def WriteTask.toRead (t : WriteTask) : Nat := min setup.bufferSize (setup.imageSize - t.bytesWrittenSoFar)

def WriteTask.throw (t : WriteTask) (errno : Errno) (message : Str) : WriteTask :=
  { t with stage := .done (.error ⟨message, 1, false⟩), errno }

/-- The next step of `write`, and the bytes it puts at `bytesWrittenSoFar`. -/
def writeStep (t : WriteTask) : WriteTask × List UInt8 :=
  match t.stage with
  | .reading =>
    if t.bytesWrittenSoFar < setup.imageSize then
      let bytesRead := io.reads.result t.turn (t.toRead setup)
      let errno := io.reads.errnoAfter t.turn (t.toRead setup) t.errno
      if bytesRead ≤ 0 then
        (t.throw errno ("Cannot read " ++ setup.image ++ ": " ++ io.strerror errno), [])
      else
        (⟨.writing (Bytes.slice io.image t.imageOffset bytesRead.toNat), t.bytesWrittenSoFar,
          t.imageOffset + bytesRead.toNat, errno, t.turn + 1⟩, [])
    else if t.bytesWrittenSoFar < setup.size then
      ({ t with stage := .padding (setup.size - t.bytesWrittenSoFar) }, [])
    else ({ t with stage := .syncing }, [])
  | .writing buffer =>
    let bytesWritten := io.writes.result t.turn buffer.length
    let errno := io.writes.errnoAfter t.turn buffer.length t.errno
    if bytesWritten ≠ buffer.length then
      (t.throw errno ("Cannot write " ++ setup.toWrite ++ ": " ++ io.strerror errno),
        buffer.take bytesWritten.toNat)
    else
      (⟨.reading, t.bytesWrittenSoFar + buffer.length, t.imageOffset, errno, t.turn + 1⟩, buffer)
  | .padding remainingBytes =>
    if 0 < remainingBytes then
      let toWriteSize := min setup.bufferSize remainingBytes
      let written := io.writes.result t.turn toWriteSize
      let errno := io.writes.errnoAfter t.turn toWriteSize t.errno
      if written ≤ 0 then
        (t.throw errno ("Cannot fill the outside of partition (of image): " ++ io.strerror errno), [])
      else
        (⟨.padding (remainingBytes - written.toNat), t.bytesWrittenSoFar + written.toNat, t.imageOffset, errno,
          t.turn + 1⟩, List.replicate written.toNat 0)
    else ({ t with stage := .syncing }, [])
  -- what `openpart_sync` returned is not looked at
  | .syncing => ({ t with stage := .done (.ok (t.bytesWrittenSoFar = setup.imageSize)) }, [])
  | .done _ => (t, [])

/-- The image has just been opened. -/
def WriteIO.start : WriteTask := ⟨.reading, 0, 0, io.errno, 0⟩

/-- What the partition should hold in the end. -/
def WriteIO.padded : List UInt8 := io.image ++ List.replicate (setup.size - io.image.length) 0

/-- The image has the announced size and fits. -/
structure WriteIO.Fits : Prop where
  imageSize : setup.imageSize = io.image.length
  size : io.image.length ≤ setup.size

/-- Where a `write` call stands in terms of its counter. -/
def WriteTask.Sound (t : WriteTask) : Prop :=
  match t.stage with
  | .reading => t.bytesWrittenSoFar ≤ io.image.length ∧ t.imageOffset = t.bytesWrittenSoFar
  | .writing buffer => buffer = Bytes.slice io.image t.bytesWrittenSoFar buffer.length ∧ 0 < buffer.length ∧
      t.bytesWrittenSoFar + buffer.length ≤ io.image.length ∧
      t.imageOffset = t.bytesWrittenSoFar + buffer.length
  | .padding remainingBytes => io.image.length ≤ t.bytesWrittenSoFar ∧
      t.bytesWrittenSoFar + remainingBytes = setup.size
  | .syncing => t.bytesWrittenSoFar = setup.size
  | .done (.ok b) => t.bytesWrittenSoFar = setup.size ∧ b = decide (setup.size = setup.imageSize)
  | .done (.error _) => t.bytesWrittenSoFar ≤ setup.size

end

section

variable {abi : Abi} {io : WriteIO abi} {setup : WriteSetup} {t : WriteTask}

theorem WriteIO.padded_length (h : io.Fits setup) : (io.padded setup).length = setup.size := by
  have := h.size
  rw [padded, List.length_append, List.length_replicate]
  omega

theorem WriteIO.start_sound : io.start.Sound io setup := ⟨Nat.zero_le _, rfl⟩

theorem WriteIO.slice_padded_image {offset count : Nat} (h : offset + count ≤ io.image.length) :
    Bytes.slice (io.padded setup) offset count = Bytes.slice io.image offset count :=
  Bytes.slice_of_append h

theorem WriteIO.slice_padded_zeros {offset count : Nat} (hfits : io.Fits setup)
    (h : io.image.length ≤ offset) (hle : offset + count ≤ setup.size) :
    Bytes.slice (io.padded setup) offset count = List.replicate count 0 := by
  have := hfits.size
  exact Bytes.slice_replicate_append h (by omega)

/-- A step puts bytes of the padded image in their place, and counts no others. -/
structure StepPuts (io : WriteIO abi) (setup : WriteSetup) (t : WriteTask) : Prop where
  bytes : (writeStep io setup t).2 =
    Bytes.slice (io.padded setup) t.bytesWrittenSoFar (writeStep io setup t).2.length
  within : t.bytesWrittenSoFar + (writeStep io setup t).2.length ≤ setup.size
  counted : (writeStep io setup t).1.bytesWrittenSoFar ≤
    t.bytesWrittenSoFar + (writeStep io setup t).2.length

/-- What one step of `write` can do: where the call stands after it, and the bytes it puts. -/
inductive WriteCase (io : WriteIO abi) (setup : WriteSetup) : WriteTask → WriteTask → List UInt8 → Prop
  | unread {written offset turn : Nat} {errno : Errno} (errno' : Errno) (message : Str)
      (hmore : written < setup.imageSize)
      (hfail : io.reads.result turn (min setup.bufferSize (setup.imageSize - written)) ≤ 0) :
      WriteCase io setup ⟨.reading, written, offset, errno, turn⟩
        ⟨.done (.error ⟨message, 1, false⟩), written, offset, errno', turn⟩ []
  | read {written offset turn : Nat} {errno : Errno} (errno' : Errno) (r : Nat) (hmore : written < setup.imageSize)
      (hr : io.reads.result turn (min setup.bufferSize (setup.imageSize - written)) = r) (hpos : 0 < r) :
      WriteCase io setup ⟨.reading, written, offset, errno, turn⟩
        ⟨.writing (Bytes.slice io.image offset r), written, offset + r, errno', turn + 1⟩ []
  | startPadding {written offset turn : Nat} {errno : Errno} (hend : setup.imageSize ≤ written)
      (hpad : written < setup.size) :
      WriteCase io setup ⟨.reading, written, offset, errno, turn⟩
        ⟨.padding (setup.size - written), written, offset, errno, turn⟩ []
  | full {written offset turn : Nat} {errno : Errno} (hend : setup.imageSize ≤ written)
      (hfull : setup.size ≤ written) :
      WriteCase io setup ⟨.reading, written, offset, errno, turn⟩ ⟨.syncing, written, offset, errno, turn⟩ []
  | unwritten {buffer : List UInt8} {written offset turn : Nat} {errno : Errno} (errno' : Errno) (message : Str)
      (hfail : io.writes.result turn buffer.length ≠ buffer.length) :
      WriteCase io setup ⟨.writing buffer, written, offset, errno, turn⟩
        ⟨.done (.error ⟨message, 1, false⟩), written, offset, errno', turn⟩
        (buffer.take (io.writes.result turn buffer.length).toNat)
  | written {buffer : List UInt8} {written offset turn : Nat} {errno : Errno} (errno' : Errno)
      (hall : io.writes.result turn buffer.length = buffer.length) :
      WriteCase io setup ⟨.writing buffer, written, offset, errno, turn⟩
        ⟨.reading, written + buffer.length, offset, errno', turn + 1⟩ buffer
  | unpadded {remaining written offset turn : Nat} {errno : Errno} (errno' : Errno) (message : Str)
      (hmore : 0 < remaining) (hfail : io.writes.result turn (min setup.bufferSize remaining) ≤ 0) :
      WriteCase io setup ⟨.padding remaining, written, offset, errno, turn⟩
        ⟨.done (.error ⟨message, 1, false⟩), written, offset, errno', turn⟩ []
  | padded {remaining written offset turn : Nat} {errno : Errno} (errno' : Errno) (r : Nat) (hmore : 0 < remaining)
      (hr : io.writes.result turn (min setup.bufferSize remaining) = r) (hpos : 0 < r) :
      WriteCase io setup ⟨.padding remaining, written, offset, errno, turn⟩
        ⟨.padding (remaining - r), written + r, offset, errno', turn + 1⟩ (List.replicate r 0)
  | endPadding {written offset turn : Nat} {errno : Errno} :
      WriteCase io setup ⟨.padding 0, written, offset, errno, turn⟩ ⟨.syncing, written, offset, errno, turn⟩ []
  | synced {written offset turn : Nat} {errno : Errno} :
      WriteCase io setup ⟨.syncing, written, offset, errno, turn⟩
        ⟨.done (.ok (written = setup.imageSize)), written, offset, errno, turn⟩ []
  | ended {result : Except HelperError Bool} {written offset turn : Nat} {errno : Errno} :
      WriteCase io setup ⟨.done result, written, offset, errno, turn⟩ ⟨.done result, written, offset, errno, turn⟩ []

theorem writeStep_case (io : WriteIO abi) (setup : WriteSetup) (t : WriteTask) :
    WriteCase io setup t (writeStep io setup t).1 (writeStep io setup t).2 := by
  rcases t with ⟨stage, written, offset, errno, turn⟩
  cases stage with
  | reading =>
    dsimp only [writeStep, WriteTask.toRead]
    split
    next hmore =>
      by_cases hfail : io.reads.result turn (min setup.bufferSize (setup.imageSize - written)) ≤ 0
      · rw [if_pos hfail]
        exact .unread _ _ hmore hfail
      · rw [if_neg hfail]
        exact .read _ _ hmore (Int.toNat_of_nonneg (by omega)).symm (by omega)
    next hend =>
      by_cases hpad : written < setup.size
      · rw [if_pos hpad]
        exact .startPadding (by omega) hpad
      · rw [if_neg hpad]
        exact .full (by omega) (by omega)
  | writing buffer =>
    simp only [writeStep]
    split
    next hfail => exact .unwritten _ _ hfail
    next hall => exact .written _ (not_not.mp hall)
  | padding remaining =>
    simp only [writeStep]
    split
    next hmore =>
      by_cases hfail : io.writes.result turn (min setup.bufferSize remaining) ≤ 0
      · rw [if_pos hfail]
        exact .unpadded _ _ hmore hfail
      · rw [if_neg hfail]
        exact .padded _ _ hmore (Int.toNat_of_nonneg (by omega)).symm (by omega)
    next hnone =>
      obtain rfl : remaining = 0 := by omega
      exact .endPadding
  | syncing => exact .synced
  | done result => exact .ended

theorem WriteTask.Sound.le (ht : t.Sound io setup) (hfits : io.Fits setup) : t.bytesWrittenSoFar ≤ setup.size := by
  have hsize := hfits.size
  rcases t with ⟨stage, written, offset, errno, turn⟩
  cases stage with
  | reading => exact ht.1.trans hsize
  | writing buffer =>
    obtain ⟨_, _, hle, _⟩ := ht
    dsimp only at hle ⊢
    omega
  | padding remaining =>
    obtain ⟨_, hsum⟩ := ht
    dsimp only at hsum ⊢
    omega
  | syncing => exact Nat.le_of_eq ht
  | done result =>
    cases result with
    | error e => exact ht
    | ok b => exact Nat.le_of_eq ht.1

theorem WriteCase.sound {t' : WriteTask} {put : List UInt8} (h : WriteCase io setup t t' put)
    (hfits : io.Fits setup) (ht : t.Sound io setup) : t'.Sound io setup := by
  have hle := ht.le hfits
  have himage := hfits.imageSize
  cases h with
  | @read written offset turn errno errno' r hmore hr hpos =>
    obtain ⟨_, hoffset⟩ := ht
    have hcount := io.reads.le_count turn (min setup.bufferSize (setup.imageSize - written))
    dsimp only at hoffset
    subst hoffset
    have hlength : (Bytes.slice io.image offset r).length = r := by
      rw [Bytes.slice_length]
      omega
    refine ⟨?_, ?_, ?_, ?_⟩
    · dsimp only
      rw [hlength]
    · rw [hlength]
      exact hpos
    · dsimp only
      rw [hlength]
      omega
    · dsimp only
      rw [hlength]
  | startPadding hend hpad => exact ⟨himage ▸ hend, by dsimp only; omega⟩
  | full hend hfull => exact Nat.le_antisymm hle hfull
  | written errno' hall =>
    obtain ⟨_, _, hwithin, hoffset⟩ := ht
    exact ⟨hwithin, hoffset⟩
  | @padded remaining written offset turn errno errno' r hmore hr hpos =>
    obtain ⟨hstart, hsum⟩ := ht
    have hcount := io.writes.le_count turn (min setup.bufferSize remaining)
    dsimp only at hstart hsum
    exact ⟨by dsimp only; omega, by dsimp only; omega⟩
  | endPadding => exact ht.2
  | @synced written offset turn errno =>
    have hall : written = setup.size := ht
    refine ⟨hall, ?_⟩
    rw [hall]
  | ended => exact ht
  | unread errno' message hmore hfail => exact hle
  | unwritten errno' message hfail => exact hle
  | unpadded errno' message hmore hfail => exact hle

/-- Only writes put bytes, and those are the ones that the padded image has there. -/
theorem WriteCase.bytes {t' : WriteTask} {put : List UInt8} (h : WriteCase io setup t t' put)
    (hfits : io.Fits setup) (ht : t.Sound io setup) :
    put = Bytes.slice (io.padded setup) t.bytesWrittenSoFar put.length ∧
      t.bytesWrittenSoFar + put.length ≤ setup.size := by
  have hsize := hfits.size
  cases h with
  | @unwritten buffer written offset turn errno errno' message hfail =>
    obtain ⟨hbuffer, _, hle, _⟩ := ht
    have hcount := io.writes.le_count turn buffer.length
    have hlength : (buffer.take (io.writes.result turn buffer.length).toNat).length =
        (io.writes.result turn buffer.length).toNat := by
      rw [List.length_take]
      omega
    dsimp only at hbuffer hle ⊢
    rw [hlength, WriteIO.slice_padded_image (by omega)]
    refine ⟨?_, by omega⟩
    calc buffer.take (io.writes.result turn buffer.length).toNat
        = (Bytes.slice io.image written buffer.length).take
            (io.writes.result turn buffer.length).toNat := congrArg _ hbuffer
      _ = Bytes.slice io.image written (io.writes.result turn buffer.length).toNat := by
          rw [Bytes.slice_take, Nat.min_eq_left (by omega)]
  | written errno' hall =>
    obtain ⟨hbuffer, _, hle, _⟩ := ht
    rw [ WriteIO.slice_padded_image hle]
    exact ⟨hbuffer, hle.trans hsize⟩
  | @padded remaining written offset turn errno errno' r hmore hr hpos =>
    obtain ⟨hstart, hsum⟩ := ht
    have hcount := io.writes.le_count turn (min setup.bufferSize remaining)
    dsimp only at hstart hsum ⊢
    rw [List.length_replicate, WriteIO.slice_padded_zeros hfits hstart (by omega)]
    exact ⟨rfl, by omega⟩
  | _ => exact ⟨by simp [Bytes.slice], ht.le hfits⟩

theorem WriteCase.counted {t' : WriteTask} {put : List UInt8} (h : WriteCase io setup t t' put) :
    t'.bytesWrittenSoFar ≤ t.bytesWrittenSoFar + put.length := by
  cases h with
  | padded errno' r hmore hr hpos => simp
  | _ => simp

/-- One step of `write` keeps its place and puts only what belongs there. -/
theorem writeStep_sound (hfits : io.Fits setup) (ht : t.Sound io setup) :
    (writeStep io setup t).1.Sound io setup ∧ StepPuts io setup t := by
  have hcase := writeStep_case io setup t
  obtain ⟨hbytes, hwithin⟩ := hcase.bytes hfits ht
  exact ⟨hcase.sound hfits ht, ⟨hbytes, hwithin, hcase.counted⟩⟩

end

end PartitionManager
