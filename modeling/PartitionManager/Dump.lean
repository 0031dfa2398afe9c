import PartitionManager.Flags
import PartitionManager.Posix
import PartitionManager.Library.Bytes
import PartitionManager.Library.Checks
import PartitionManager.Library.Loop

namespace PartitionManager

/-- The surroundings of one `dump` call: what the partition holds, how its
reads and the output file's writes go, whether that file opens, and the `errno`
the loop starts with. -/
structure DumpIO (abi : Abi) where
  content : List UInt8
  reads : Schedule abi
  writes : WriteSchedule abi
  openErrno : Option Errno
  errno : Errno

structure DumpSetup where
  dest : Str
  toOpen : Str
  bufferSize : Nat
  totalBytesToRead : Nat

structure DumpState where
  bytesReadSoFar : Nat
  errno : Errno
  outfd : List UInt8
  turn : Nat

structure DumpExit where
  result : Except HelperError Bool
  outfd : List UInt8

/-- Everything `dump` does before its loop. -/
def Partition.dumpSetup (abi : Abi) (fs : FileSystem) (openErrno : Option Errno) (p : Partition)
    (destination : Str) (bufsize : Nat) : Outcome DumpSetup := do
  let dest := if destination = [] then "./" ++ p.name ++ ".img" else destination
  let toOpen ← (if p.isLogical then p.absolutePath fs else .ok p.path)
  if p.op = none then raise ⟨"openpart_t* object invalid: " ++ toOpen, 1, false⟩
  else match openErrno with
    | some e => raise ⟨"Cannot create/open " ++ dest ++ ": " ++ fs.strerror e, 1, false⟩
    | none => do
      let size ← p.size abi fs
      .ok ⟨dest, toOpen, min bufsize size, size⟩

section

variable {abi : Abi} (fs : FileSystem) (io : DumpIO abi) (setup : DumpSetup)

def DumpState.toRead (setup : DumpSetup) (s : DumpState) : Nat :=
  min setup.bufferSize (setup.totalBytesToRead - s.bytesReadSoFar)

def DumpIO.bytesRead (s : DumpState) : Int := io.reads.result s.turn (s.toRead setup)

def DumpIO.errnoAfterRead (s : DumpState) : Errno :=
  io.reads.errnoAfter s.turn (s.toRead setup) s.errno

/-- One turn of the loop of `dump`. -/
def dumpTurn (s : DumpState) : Loop.Turn DumpState DumpExit :=
  if s.bytesReadSoFar < setup.totalBytesToRead then
    let bytesRead := io.bytesRead setup s
    let errno := io.errnoAfterRead setup s
    if bytesRead ≤ 0 ∧ errno = EPERM then
      .leave ⟨.error ⟨"Cannot read " ++ setup.toOpen ++ ": " ++ fs.strerror errno, 1, false⟩, s.outfd⟩
    else
      let count := abi.toSize bytesRead
      let bytesWritten := io.writes.result s.turn count
      let errno := io.writes.errnoAfter s.turn count errno
      let buffer := Bytes.slice io.content s.bytesReadSoFar bytesRead.toNat
      let outfd := s.outfd ++ buffer.take bytesWritten.toNat
      if bytesWritten ≠ bytesRead then
        .leave ⟨.error ⟨"Cannot write " ++ setup.dest ++ ": " ++ fs.strerror errno, 1, false⟩, outfd⟩
      else
        .again ⟨abi.toSize (s.bytesReadSoFar + bytesRead), errno, outfd, s.turn + 1⟩
  else
    .leave ⟨.ok (s.bytesReadSoFar = setup.totalBytesToRead), s.outfd⟩

/-- The destination has just been created or truncated. -/
def DumpIO.start : DumpState := ⟨0, io.errno, [], 0⟩

/-- The turn after `k` others reads, from state `s`. -/
def DumpReads (k : Nat) (s : DumpState) : Prop :=
  Loop.At (dumpTurn fs io setup) io.start k s ∧ s.bytesReadSoFar < setup.totalBytesToRead

/-- `dump`, given up after `fuel` turns of its loop. -/
def Partition.dump (p : Partition) (destination : Str) (bufsize fuel : Nat) :
    Outcome (Bool × List UInt8) := do
  let setup ← p.dumpSetup abi fs io.openErrno destination bufsize
  match Loop.run (dumpTurn fs io setup) fuel io.start with
  | .again _ => .error .never
  | .leave ⟨.error e, _⟩ => raise e
  | .leave ⟨.ok b, outfd⟩ => .ok (b, outfd)

end

theorem Partition.dumpSetup_size {abi : Abi} {fs : FileSystem} {openErrno : Option Errno} {p : Partition}
    {destination : Str} {bufsize : Nat} {setup : DumpSetup}
    (h : p.dumpSetup abi fs openErrno destination bufsize = .ok setup) :
    p.size abi fs = .ok setup.totalBytesToRead ∧
      setup.bufferSize = min bufsize setup.totalBytesToRead := by
  unfold dumpSetup at h
  obtain ⟨toOpen, _, h⟩ := Checks.bind_ok_iff.mp h
  split at h
  next => cases h
  next =>
    cases openErrno with
    | some e => cases h
    | none =>
      obtain ⟨size, hsize, h⟩ := Checks.bind_ok_iff.mp h
      cases h
      exact ⟨hsize, rfl⟩

section

variable {abi : Abi} {fs : FileSystem} {io : DumpIO abi} {setup : DumpSetup} {s s' : DumpState}

theorem dumpTurn_failed_read (hpos : s.bytesReadSoFar < setup.totalBytesToRead)
    (hr : io.bytesRead setup s = -1) (he : io.reads.errno s.turn = EPERM) :
    ∃ e, dumpTurn fs io setup s = .leave ⟨.error e, s.outfd⟩ := by
  have hafter : io.errnoAfterRead setup s = EPERM := by
    unfold DumpIO.errnoAfterRead
    rw [Schedule.errnoAfter_of_failed hr, he]
  exact ⟨_, by simp [dumpTurn, hpos, hr, hafter]; rfl⟩

/-- Any other failed read passes for a write of as many bytes, `-1`. -/
theorem dumpTurn_ignored_read (hpos : s.bytesReadSoFar < setup.totalBytesToRead)
    (hr : io.bytesRead setup s = -1) (he : io.reads.errno s.turn ≠ EPERM) :
    ∃ next, dumpTurn fs io setup s = .again next := by
  have hafter : io.errnoAfterRead setup s ≠ EPERM := by
    unfold DumpIO.errnoAfterRead
    rwa [Schedule.errnoAfter_of_failed hr]
  have hw := io.writes.result_toSize_neg_one s.turn
  exact ⟨_, by simp [dumpTurn, hpos, hr, hafter, hw]; rfl⟩

theorem dumpTurn_empty_read (hpos : s.bytesReadSoFar < setup.totalBytesToRead)
    (hr : io.bytesRead setup s = 0) (he : s.errno = EPERM) :
    ∃ e, dumpTurn fs io setup s = .leave ⟨.error e, s.outfd⟩ := by
  have hafter : io.errnoAfterRead setup s = EPERM := by
    unfold DumpIO.errnoAfterRead
    rw [Schedule.errnoAfter_of_ok (by rw [← DumpIO.bytesRead, hr]; decide), he]
  exact ⟨_, by simp [dumpTurn, hpos, hr, hafter]; rfl⟩

/-- An empty read leaves everything as it was, and the loop goes round again. -/
theorem dumpTurn_idle_read (hn : setup.totalBytesToRead < 2 ^ abi.bits)
    (hpos : s.bytesReadSoFar < setup.totalBytesToRead) (hr : io.bytesRead setup s = 0)
    (he : s.errno ≠ EPERM) :
    dumpTurn fs io setup s = .again { s with turn := s.turn + 1 } := by
  have hafter : io.errnoAfterRead setup s = s.errno := by
    unfold DumpIO.errnoAfterRead
    exact Schedule.errnoAfter_of_ok (by rw [← DumpIO.bytesRead, hr]; decide) _
  have hzero : abi.toSize 0 = 0 := by simp [Abi.toSize]
  have hw := io.writes.zero s.turn
  have hwe : io.writes.errnoAfter s.turn 0 s.errno = s.errno :=
    Schedule.errnoAfter_of_ok (by rw [hw]; decide) _
  have hto : abi.toSize (s.bytesReadSoFar : Int) = s.bytesReadSoFar := Abi.toSize_natCast (by omega)
  simp [dumpTurn, hpos, hr, hafter, he, hzero, hw, hwe, hto]

theorem dumpTurn_leave_ok {b : Bool} {outfd : List UInt8}
    (h : dumpTurn fs io setup s = .leave ⟨.ok b, outfd⟩) :
    setup.totalBytesToRead ≤ s.bytesReadSoFar ∧ outfd = s.outfd := by
  by_cases hpos : s.bytesReadSoFar < setup.totalBytesToRead
  · simp only [dumpTurn, if_pos hpos] at h
    split at h
    next => cases h
    next => split at h <;> cases h
  · unfold dumpTurn at h
    rw [if_neg hpos] at h
    cases h
    exact ⟨by omega, rfl⟩

/-- What the loop keeps while no failed read is overlooked: the file is the part read so far. -/
structure DumpState.Whole (io : DumpIO abi) (s : DumpState) : Prop where
  outfd : s.outfd = io.content.take s.bytesReadSoFar
  within : s.bytesReadSoFar ≤ io.content.length
  errno : s.errno = io.errno

theorem DumpIO.start_whole (io : DumpIO abi) : io.start.Whole io := ⟨by simp [start], by simp [start], rfl⟩

theorem dumpTurn_whole (hn : setup.totalBytesToRead = io.content.length)
    (hlt : io.content.length < 2 ^ abi.bits) (hs : s.Whole io)
    (hfail : s.bytesReadSoFar < setup.totalBytesToRead → io.bytesRead setup s = -1 →
      io.reads.errno s.turn = EPERM)
    (h : dumpTurn fs io setup s = .again s') : s'.Whole io := by
  by_cases hpos : s.bytesReadSoFar < setup.totalBytesToRead
  · have hge := io.reads.ge_neg_one s.turn (s.toRead setup)
    have hle := io.reads.le_count s.turn (s.toRead setup)
    by_cases hr : io.bytesRead setup s = -1
    · obtain ⟨e, he⟩ : ∃ e, dumpTurn fs io setup s = .leave ⟨.error e, s.outfd⟩ :=
        dumpTurn_failed_read hpos hr (hfail hpos hr)
      rw [he] at h
      cases h
    · obtain ⟨r, hrr⟩ : ∃ r : Nat, io.bytesRead setup s = r :=
        ⟨_, (Int.toNat_of_nonneg (by unfold DumpIO.bytesRead at hr ⊢; omega)).symm⟩
      have hto : s.toRead setup ≤ setup.totalBytesToRead - s.bytesReadSoFar := Nat.min_le_right _ _
      have hrle : r ≤ io.content.length - s.bytesReadSoFar := by
        unfold DumpIO.bytesRead at hrr
        omega
      have hcount : abi.toSize (r : Int) = r := Abi.toSize_natCast (by omega)
      have hsum : abi.toSize (s.bytesReadSoFar + r : Int) = s.bytesReadSoFar + r := by
        rw [← Int.natCast_add]
        exact Abi.toSize_natCast (by omega)
      have hafter : io.errnoAfterRead setup s = s.errno := by
        unfold DumpIO.errnoAfterRead
        exact Schedule.errnoAfter_of_ok hr _
      simp only [dumpTurn, if_pos hpos, hrr, hafter, hcount, hsum, Int.toNat_natCast] at h
      split at h
      next => cases h
      next =>
        split at h
        next => cases h
        next hw =>
          have hwr : io.writes.result s.turn r = r := not_not.mp hw
          have hwe : io.writes.errnoAfter s.turn r s.errno = s.errno :=
            Schedule.errnoAfter_of_ok (by rw [hwr]; omega) _
          cases h
          have hchunk : (Bytes.slice io.content s.bytesReadSoFar r).take r =
              Bytes.slice io.content s.bytesReadSoFar r := by
            rw [List.take_of_length_le]
            rw [Bytes.slice_length]
            omega
          refine ⟨?_, by simpa using by omega, hwe.trans hs.errno⟩
          simp only [hwr, Int.toNat_natCast, hchunk, hs.outfd]
          exact Bytes.take_append_slice _ _ _
  · unfold dumpTurn at h
    rw [if_neg hpos] at h
    cases h

end

end PartitionManager
