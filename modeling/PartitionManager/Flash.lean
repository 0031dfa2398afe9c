import PartitionManager.Write
import PartitionManager.Library.Loop

namespace PartitionManager

structure FlashPlugin where
  partitions : List Str := []
  imageNames : List Str := []
  imageDirectory : Str := []
  bufferSize : Nat
  deleteAfterProgress : Bool := false

/-- What a flash task meets: the tables, the image file and the I/O of its
`write` call, and the device under the partition. -/
structure FlashWorld (abi : Abi) where
  flags : BasicFlags
  fs : FileSystem
  answers : List Str
  fileSize : Str → Int
  openErrno : Option Errno
  io : WriteIO abi
  device : List UInt8
  eraseEntry : Bool

section

variable {abi : Abi} (io : WriteIO abi) (setup : WriteSetup)

/-- One turn of a `write` call that has the device to itself. -/
def writeTurn (s : List UInt8 × WriteTask) :
    Loop.Turn (List UInt8 × WriteTask) (Except HelperError Bool × List UInt8) :=
  match s.2.stage with
  | .done result => .leave (result, s.1)
  | _ => .again (Bytes.overwrite s.1 s.2.bytesWrittenSoFar (writeStep io setup s.2).2, (writeStep io setup s.2).1)

/-- `write`, given up after `fuel` turns. -/
def Partition.write (fs : FileSystem) (fileSize : Str → Int) (openErrno : Option Errno)
    (device : List UInt8) (p : Partition) (image : Str) (bufsize fuel : Nat) : Outcome (Bool × List UInt8) := do
  let setup ← p.writeSetup abi fs fileSize openErrno io.errno image bufsize
  match Loop.run (writeTurn io setup) fuel (device, io.start) with
  | .again _ => .error .never
  | .leave (.error e, _) => raise e
  | .leave (.ok b, device) => .ok (b, device)

/-- The read or write the call is about to make fails it. -/
def WriteTask.Fails (t : WriteTask) : Prop :=
  match t.stage with
  | .reading => t.bytesWrittenSoFar < setup.imageSize ∧ io.reads.result t.turn (t.toRead setup) ≤ 0
  | .writing buffer => io.writes.result t.turn buffer.length ≠ buffer.length
  | .padding remainingBytes => 0 < remainingBytes ∧
      io.writes.result t.turn (min setup.bufferSize remainingBytes) ≤ 0
  | .syncing => False
  | .done _ => False

/-- A read or write of the transfer fails. -/
def Interrupted (device : List UInt8) : Prop :=
  ∃ k s, Loop.At (writeTurn io setup) (device, io.start) k s ∧ s.2.Fails io setup

/-- The device has taken every byte of the image and of the padding by the time
of `openpart_sync`, and that succeeds. -/
def Delivered (device : List UInt8) : Prop :=
  (∃ k s, Loop.At (writeTurn io setup) (device, io.start) k s ∧ s.2.stage = .syncing ∧
    s.2.bytesWrittenSoFar = setup.size ∧ s.1 = io.padded setup) ∧ io.openpart_sync = 0

end

section

variable {abi : Abi} {io : WriteIO abi} {setup : WriteSetup} {s s' : List UInt8 × WriteTask}
  {device : List UInt8}

/-- What has been counted is on the device. -/
structure Placed (io : WriteIO abi) (setup : WriteSetup) (s : List UInt8 × WriteTask) : Prop where
  sound : s.2.Sound io setup
  length : s.1.length = setup.size
  bytes : ∀ i, i < s.2.bytesWrittenSoFar → s.1[i]? = (io.padded setup)[i]?

theorem start_placed (hdevice : setup.size = device.length) : Placed io setup (device, io.start) :=
  ⟨ WriteIO.start_sound, hdevice.symm, fun i hi => absurd hi (Nat.not_lt_zero i)⟩

theorem writeTurn_again (h : writeTurn io setup s = .again s') :
    (∀ r, s.2.stage ≠ .done r) ∧
      s' = (Bytes.overwrite s.1 s.2.bytesWrittenSoFar (writeStep io setup s.2).2, (writeStep io setup s.2).1) := by
  unfold writeTurn at h
  split at h
  next => cases h
  next hstage => exact ⟨hstage, (Loop.Turn.again.inj h).symm⟩

theorem writeTurn_of_not_done (h : ∀ r, s.2.stage ≠ .done r) : writeTurn io setup s =
    .again (Bytes.overwrite s.1 s.2.bytesWrittenSoFar (writeStep io setup s.2).2, (writeStep io setup s.2).1) := by
  unfold writeTurn
  split
  next r hr => exact absurd hr (h r)
  next => rfl

theorem writeTurn_of_done {r : Except HelperError Bool} (h : s.2.stage = .done r) :
    writeTurn io setup s = .leave (r, s.1) := by
  unfold writeTurn
  rw [h]

theorem writeTurn_leave {r : Except HelperError Bool × List UInt8} (h : writeTurn io setup s = .leave r) :
    s.2.stage = .done r.1 ∧ r.2 = s.1 := by
  unfold writeTurn at h
  split at h
  next hstage =>
    cases h
    exact ⟨hstage, rfl⟩
  next => cases h

theorem writeTurn_placed (hfits : io.Fits setup) (hs : Placed io setup s)
    (h : writeTurn io setup s = .again s') : Placed io setup s' := by
  obtain ⟨_, rfl⟩ := writeTurn_again h
  obtain ⟨hsound, hputs⟩ := writeStep_sound hfits hs.sound
  have hrange : s.2.bytesWrittenSoFar + (writeStep io setup s.2).2.length ≤ s.1.length := by
    rw [hs.length]
    exact hputs.within
  refine ⟨hsound, (Bytes.overwrite_length hrange).trans hs.length, ?_⟩
  intro i hi
  have hcounted := hputs.counted
  dsimp only at hi ⊢
  rw [Bytes.overwrite_getElem? hrange]
  split
  next hin =>
    rw [hputs.bytes, Bytes.slice_getElem?, if_pos (by omega), Nat.add_sub_cancel' hin.1]
  next hout => exact hs.bytes i (by omega)

theorem at_placed (hfits : io.Fits setup) (hdevice : setup.size = device.length) {k : Nat}
    (h : Loop.At (writeTurn io setup) (device, io.start) k s) : Placed io setup s :=
  Loop.at_invariant (fun _ _ hs ht => writeTurn_placed hfits hs ht) (start_placed hdevice) h

/-- When everything has been counted, the device holds the padded image. -/
theorem Placed.whole (hfits : io.Fits setup) (hs : Placed io setup s)
    (hall : s.2.bytesWrittenSoFar = setup.size) : s.1 = io.padded setup := by
  apply List.ext_getElem?
  intro i
  by_cases hi : i < setup.size
  · exact hs.bytes i (by omega)
  · have hlength := WriteIO.padded_length hfits
    rw [List.getElem?_eq_none (by rw [hs.length]; omega), List.getElem?_eq_none (by omega)]

/-- A call ends by a failed transfer, or right after `openpart_sync`. -/
theorem WriteCase.done {t t' : WriteTask} {put : List UInt8} {r : Except HelperError Bool}
    (h : WriteCase io setup t t' put) (hopen : ∀ r, t.stage ≠ .done r) (hdone : t'.stage = .done r) :
    (t.Fails io setup ∧ ∃ e, r = .error e) ∨
      (t.stage = .syncing ∧ r = .ok (t.bytesWrittenSoFar = setup.imageSize)) := by
  cases h with
  | unread errno' message hmore hfail =>
    cases hdone
    exact Or.inl ⟨⟨hmore, hfail⟩, _, rfl⟩
  | unwritten errno' message hfail =>
    cases hdone
    exact Or.inl ⟨hfail, _, rfl⟩
  | unpadded errno' message hmore hfail =>
    cases hdone
    exact Or.inl ⟨⟨hmore, hfail⟩, _, rfl⟩
  | synced =>
    cases hdone
    exact Or.inr ⟨rfl, rfl⟩
  | ended => exact absurd rfl (hopen _)
  | _ => cases hdone

theorem WriteCase.of_fails {t t' : WriteTask} {put : List UInt8} (h : WriteCase io setup t t' put)
    (hfails : t.Fails io setup) : ∃ e, t'.stage = .done (.error e) := by
  cases h with
  | unread errno' message hmore hfail => exact ⟨_, rfl⟩
  | read errno' r hmore hr hpos =>
    have hfail : io.reads.result _ _ ≤ 0 := hfails.2
    rw [WriteTask.toRead, hr] at hfail
    omega
  | startPadding hend hpad => exact absurd hfails.1 (Nat.not_lt.mpr hend)
  | full hend hfull => exact absurd hfails.1 (Nat.not_lt.mpr hend)
  | unwritten errno' message hfail => exact ⟨_, rfl⟩
  | written errno' hall => exact absurd hall hfails
  | unpadded errno' message hmore hfail => exact ⟨_, rfl⟩
  | padded errno' r hmore hr hpos =>
    have hfail : io.writes.result _ _ ≤ 0 := hfails.2
    rw [hr] at hfail
    omega
  | endPadding => exact absurd hfails.1 (Nat.lt_irrefl 0)
  | synced => exact hfails.elim
  | ended => exact hfails.elim

theorem not_done_of_fails {t : WriteTask} (h : t.Fails io setup) (r : Except HelperError Bool) :
    t.stage ≠ .done r := by
  rcases t with ⟨stage, written, offset, errno, turn⟩
  cases stage with
  | done result => exact h.elim
  | _ => simp

/-- The turns a call still has before it, at most. -/
def WriteTask.left (setup : WriteSetup) (t : WriteTask) : Nat :=
  match t.stage with
  | .reading => 2 * (setup.size - t.bytesWrittenSoFar) + 4
  | .writing _ => 2 * (setup.size - t.bytesWrittenSoFar) + 3
  | .padding _ => 2 * (setup.size - t.bytesWrittenSoFar) + 2
  | .syncing => 1
  | .done _ => 0

theorem WriteCase.left {t t' : WriteTask} {put : List UInt8} (h : WriteCase io setup t t' put)
    (hfits : io.Fits setup) (ht : t.Sound io setup) (hopen : ∀ r, t.stage ≠ .done r) :
    t'.left setup < t.left setup := by
  have hsize := hfits.size
  cases h with
  | written errno' hall =>
    obtain ⟨_, hpos, hle, _⟩ := ht
    dsimp only at hle
    simp only [WriteTask.left]
    omega
  | @padded remaining written offset turn errno errno' r hmore hr hpos =>
    obtain ⟨_, hsum⟩ := ht
    have hcount := io.writes.le_count turn (min setup.bufferSize remaining)
    dsimp only at hsum
    simp only [WriteTask.left]
    omega
  | ended => exact absurd rfl (hopen _)
  | _ =>
    simp only [WriteTask.left]
    omega

/-- Every call ends. -/
theorem write_returns (hfits : io.Fits setup) (hdevice : setup.size = device.length) :
    ∃ r, Loop.Returns (writeTurn io setup) (device, io.start) r := by
  have hstart : Placed io setup (device, io.start) := start_placed hdevice
  refine Loop.returns_of_measure (fun s => s.2.left setup) (fun s s' hs ht => ?_) hstart
  obtain ⟨hopen, heq⟩ := writeTurn_again ht
  refine ⟨writeTurn_placed hfits hs ht, ?_⟩
  rw [heq]
  exact (writeStep_case io setup s.2).left hfits hs.sound hopen

/-- It ends in an exception after a failed transfer, and else with the answer
whether the image filled the partition. -/
theorem write_ends (hfits : io.Fits setup) (hdevice : setup.size = device.length)
    {r : Except HelperError Bool × List UInt8}
    (h : Loop.Returns (writeTurn io setup) (device, io.start) r) :
    (Interrupted io setup device ∧ ∃ e, r.1 = .error e) ∨
      ((∃ k s, Loop.At (writeTurn io setup) (device, io.start) k s ∧ s.2.stage = .syncing ∧
        s.2.bytesWrittenSoFar = setup.size ∧ s.1 = io.padded setup) ∧
        r.1 = .ok (setup.size = setup.imageSize)) := by
  obtain ⟨k, s, hs, hleave⟩ := Loop.last_turn h
  obtain ⟨hstage, _⟩ := writeTurn_leave hleave
  cases k with
  | zero =>
    obtain rfl := Loop.at_unique hs (Loop.at_zero _)
    cases hstage
  | succ k =>
    obtain ⟨prev, hprev, hturn⟩ := Loop.at_pred hs
    obtain ⟨hopen, rfl⟩ := writeTurn_again hturn
    rcases (writeStep_case io setup prev.2).done hopen hstage with ⟨hfails, he⟩ | ⟨hsync, hr⟩
    · exact Or.inl ⟨⟨k, prev, hprev, hfails⟩, he⟩
    · have hplaced := at_placed hfits hdevice hprev
      have hall : prev.2.bytesWrittenSoFar = setup.size := by
        have hsound := hplaced.sound
        unfold WriteTask.Sound at hsound
        rw [hsync] at hsound
        exact hsound
      rw [hall] at hr
      exact Or.inr ⟨⟨k, prev, hprev, hsync, hall, hplaced.whole hfits hall⟩, hr⟩

theorem interrupted_raises (h : Interrupted io setup device) :
    ∃ e device', Loop.Returns (writeTurn io setup) (device, io.start) (.error e, device') := by
  obtain ⟨k, s, hs, hfails⟩ := h
  obtain ⟨e, he⟩ := (writeStep_case io setup s.2).of_fails hfails
  have hturn : writeTurn io setup s = .again _ := writeTurn_of_not_done (not_done_of_fails hfails)
  have hnext := Loop.at_succ hs hturn
  exact ⟨e, _, Loop.returns_of_at hnext (writeTurn_of_done he)⟩

theorem syncing_returns {k : Nat} (hs : Loop.At (writeTurn io setup) (device, io.start) k s)
    (hsync : s.2.stage = .syncing) (hall : s.2.bytesWrittenSoFar = setup.size) :
    ∃ device', Loop.Returns (writeTurn io setup) (device, io.start)
      (.ok (setup.size = setup.imageSize), device') := by
  have hstage : (writeStep io setup s.2).1.stage = .done (.ok (setup.size = setup.imageSize)) := by
    unfold writeStep
    rw [hsync, ← hall]
  have hturn : writeTurn io setup s = .again _ := writeTurn_of_not_done (by rw [hsync]; simp)
  exact ⟨_, Loop.returns_of_at (Loop.at_succ hs hturn) (writeTurn_of_done hstage)⟩

/-- What the call asks `openpart_write` for: the offset and the number of bytes. -/
def WriteTask.openpart_write (setup : WriteSetup) (t : WriteTask) : Option (Nat × Nat) :=
  match t.stage with
  | .writing buffer => some (t.bytesWrittenSoFar, buffer.length)
  | .padding remainingBytes =>
    if 0 < remainingBytes then some (t.bytesWrittenSoFar, min setup.bufferSize remainingBytes) else none
  | _ => none

theorem WriteTask.Sound.openpart_write_le {t : WriteTask} (hfits : io.Fits setup) (ht : t.Sound io setup)
    {offset count : Nat} (h : t.openpart_write setup = some (offset, count)) : offset + count ≤ setup.size := by
  have hsize := hfits.size
  rcases t with ⟨stage, written, imageOffset, errno, turn⟩
  cases stage with
  | writing buffer =>
    obtain ⟨_, _, hle, _⟩ := ht
    dsimp only at hle
    cases h
    show written + buffer.length ≤ setup.size
    omega
  | padding remaining =>
    obtain ⟨_, hsum⟩ := ht
    dsimp only at hsum
    simp only [WriteTask.openpart_write] at h
    split at h
    next =>
      cases h
      show offset + min setup.bufferSize remaining ≤ setup.size
      omega
    next => cases h
  | _ => cases h

/-- A call that ends without an exception leaves the padded image behind. -/
theorem write_padded (hfits : io.Fits setup) (hdevice : setup.size = device.length) {b : Bool}
    {device' : List UInt8} (h : Loop.Returns (writeTurn io setup) (device, io.start) (.ok b, device')) :
    device' = io.padded setup := by
  obtain ⟨k, s, hs, hleave⟩ := Loop.last_turn h
  obtain ⟨hstage, rfl⟩ := writeTurn_leave hleave
  have hplaced := at_placed hfits hdevice hs
  have hsound := hplaced.sound
  unfold WriteTask.Sound at hsound
  rw [hstage] at hsound
  exact hplaced.whole hfits hsound.1

/-- What `write` promises of a device that lies under the partition. -/
structure WritesImage (abi : Abi) (io : WriteIO abi) (fs : FileSystem) (fileSize : Str → Int)
    (openErrno : Option Errno) (device : List UInt8) (p : Partition) (image : Str) (bufsize : Nat) : Prop where
  ends : ∃ fuel r, (∀ fuel', fuel ≤ fuel' → p.write io fs fileSize openErrno device image bufsize fuel' = r) ∧
    ∀ setup, p.writeSetup abi fs fileSize openErrno io.errno image bufsize = .ok setup → r ≠ .error .never
  inside : ∀ setup, p.writeSetup abi fs fileSize openErrno io.errno image bufsize = .ok setup →
    ∀ k s, Loop.At (writeTurn io setup) (device, io.start) k s →
      ∀ offset count, s.2.openpart_write setup = some (offset, count) → offset + count ≤ device.length
  holds : ∀ fuel b device', p.write io fs fileSize openErrno device image bufsize fuel = .ok (b, device') →
    device' = io.image ++ List.replicate (device.length - io.image.length) 0

section

variable {fs : FileSystem} {fileSize : Str → Int} {openErrno : Option Errno} {p : Partition} {image : Str} {bufsize : Nat}

theorem Partition.writeSetup_fits
    (h : p.writeSetup abi fs fileSize openErrno io.errno image bufsize = .ok setup)
    (himage : fileSize image = io.image.length) (hdevice : p.size abi fs = .ok device.length) :
    io.Fits setup ∧ setup.size = device.length := by
  obtain ⟨hsize, hfile, hle⟩ := Partition.writeSetup_size h
  rw [hdevice] at hsize
  rw [himage] at hfile
  exact ⟨⟨by omega, by omega⟩, (Except.ok.inj hsize).symm⟩

theorem Partition.write_eq (h : p.writeSetup abi fs fileSize openErrno io.errno image bufsize = .ok setup) (fuel : Nat) :
    p.write io fs fileSize openErrno device image bufsize fuel =
      match Loop.run (writeTurn io setup) fuel (device, io.start) with
      | .again _ => .error .never
      | .leave (.error e, _) => raise e
      | .leave (.ok b, device) => .ok (b, device) := by
  rw [Partition.write, h]
  rfl

/-- With 64-bit sizes, `write` ends, stays inside the partition, and leaves the image and
zeros behind it unless it throws. -/
theorem write_places_image {io : WriteIO .arm64_v8a} (himage : fileSize image = io.image.length)
    (hdevice : p.size .arm64_v8a fs = .ok device.length) :
    WritesImage .arm64_v8a io fs fileSize openErrno device p image bufsize := by
  refine ⟨?_, ?_, ?_⟩
  · cases hsetup : p.writeSetup .arm64_v8a fs fileSize openErrno io.errno image bufsize with
    | error stop =>
      refine ⟨0, .error stop, fun fuel' _ => ?_, fun setup h => by cases h⟩
      rw [Partition.write, hsetup]
      rfl
    | ok setup =>
      obtain ⟨hfits, hlength⟩ := Partition.writeSetup_fits hsetup himage hdevice
      obtain ⟨⟨result, device'⟩, fuel, hrun⟩ := write_returns hfits hlength
      have hlater : ∀ fuel', fuel ≤ fuel' →
          Loop.run (writeTurn io setup) fuel' (device, io.start) = .leave (result, device') := by
        intro fuel' hle
        rw [← Nat.add_sub_cancel' hle]
        exact Loop.run_leave_mono hrun _
      cases result with
      | error e =>
        refine ⟨fuel, raise e, fun fuel' hle => ?_, fun _ _ h => by cases h⟩
        rw [Partition.write_eq hsetup, hlater fuel' hle]
      | ok b =>
        refine ⟨fuel, .ok (b, device'), fun fuel' hle => ?_, fun _ _ h => by cases h⟩
        rw [Partition.write_eq hsetup, hlater fuel' hle]
  · intro setup hsetup k s hs offset count hrequest
    obtain ⟨hfits, hlength⟩ := Partition.writeSetup_fits hsetup himage hdevice
    rw [← hlength]
    exact (at_placed hfits hlength hs).sound.openpart_write_le hfits hrequest
  · intro fuel b device' h
    obtain ⟨setup, hsetup, _⟩ := Checks.bind_ok_iff.mp h
    obtain ⟨hfits, hlength⟩ := Partition.writeSetup_fits hsetup himage hdevice
    rw [Partition.write_eq hsetup] at h
    cases hrun : Loop.run (writeTurn io setup) fuel (device, io.start) with
    | again s =>
      rw [hrun] at h
      cases h
    | leave r =>
      obtain ⟨result, left⟩ := r
      rw [hrun] at h
      cases result with
      | error e => cases h
      | ok b' =>
        cases h
        have hpadded := write_padded hfits hlength ⟨fuel, hrun⟩
        rw [hpadded, WriteIO.padded, hlength]

end

end

/-- An image of two bytes that is read and written one byte at a time. -/
def byteByByte : WriteIO .arm64_v8a where
  image := [7, 8]
  reads := Schedule.oneByte _
  writes := Schedule.oneByte _
  openpart_sync := 0
  errno := 0
  strerror _ := []

theorem write_places_two : WritesImage .arm64_v8a byteByByte bootFileSystem (fun _ => 2) none [9, 9, 9, 9]
      (bootPartition 4) "boot.img" 2 ∧
    (bootPartition 4).write byteByByte bootFileSystem (fun _ => 2) none [9, 9, 9, 9] "boot.img" 2 16 =
      .ok (false, [7, 8, 0, 0]) :=
  ⟨write_places_image rfl rfl, rfl⟩

namespace FlashPlugin

variable {abi : Abi} (plugin : FlashPlugin) (w : FlashWorld abi) (partitionName imageName : Str)

/-- `runAsync` before its `try` block. -/
def precheck (abi : Abi) (flags : BasicFlags) (fs : FileSystem) (answers : List Str) (fileSize : Str → Int) :
    Outcome (AsyncResult ⊕ (Partition × Nat)) := do
  if !fs.fileIsExists imageName then .ok (.inl (.Error ("Couldn't find image file: " ++ imageName)))
  else do
    let found ← findPartition flags fs answers partitionName
    match found.1 with
    | none => .ok (.inl (.Error ("Couldn't find partition: " ++ partitionName)))
    | some partition => do
      let size ← partition.size abi fs
      let imageSize := toUInt64 (fileSize imageName)
      if size = 0 then .ok (.inl (.Error ("Partition " ++ partitionName ++ " is empty")))
      else if imageSize = 0 then .ok (.inl (.Error ("Image file " ++ imageName ++ " is empty")))
      else if imageSize > size then
        .ok (.inl (.Error ("Image file " ++ imageName ++ " (" ++ to_string imageSize ++
          " bytes) is larger than partition " ++ partitionName ++ " (" ++ to_string size ++ " bytes)")))
      else if flags.onLogical && found.2 ≠ some .DYNAMIC && !flags.forceProcess then
        .ok (.inl (.Error ("Used --logical (-l) flag but partition is not logical: " ++ partitionName)))
      else .ok (.inr (partition, pluginBuffer plugin.bufferSize size))

def writeFailed (e : HelperError) : AsyncResult :=
  .Error ("Failed to write image " ++ imageName ++ " to partition " ++ partitionName ++ ": " ++ e.message)

def flashed : AsyncResult :=
  .Success ("Image " ++ imageName ++ " successfully flashed to partition " ++ partitionName)

/-- `runAsync`, and whether the image file is gone afterwards. -/
def runAsync (fuel : Nat) : Outcome (AsyncResult × Bool) := do
  match ← plugin.precheck partitionName imageName abi w.flags w.fs w.answers w.fileSize with
  | .inl r => .ok (r, false)
  | .inr (partition, buf) =>
    match partition.write w.io w.fs w.fileSize w.openErrno w.device imageName (abi.toSize buf) fuel with
    | .error (.raised (.helper e)) => .ok (writeFailed partitionName imageName e, false)
    | .error stop => .error stop
    | .ok _ => .ok (flashed partitionName imageName, plugin.deleteAfterProgress && w.eraseEntry)

/-- The task gets to the loops of `write`, with this setup. -/
def Flashes (setup : WriteSetup) : Prop :=
  ∃ partition buf,
    plugin.precheck partitionName imageName abi w.flags w.fs w.answers w.fileSize =
      .ok (.inr (partition, buf)) ∧
    partition.writeSetup abi w.fs w.fileSize w.openErrno w.io.errno imageName (abi.toSize buf) = .ok setup

/-- Neither a success nor the removal of the image without a delivery, and
`write` returns true just then. -/
structure Truthful : Prop where
  success : ∀ fuel r removed, plugin.runAsync w partitionName imageName fuel = .ok (r, removed) →
    r.result = true ∨ removed = true →
    ∃ setup, plugin.Flashes w partitionName imageName setup ∧ Delivered w.io setup w.device
  exact : ∀ setup, plugin.Flashes w partitionName imageName setup →
    ((∃ device, Loop.Returns (writeTurn w.io setup) (w.device, w.io.start) (.ok true, device)) ↔
      Delivered w.io setup w.device)

section

variable {plugin : FlashPlugin} {w : FlashWorld abi} {partitionName imageName : Str} {setup : WriteSetup}

/-- The checks end in an error result, or let a partition through. -/
theorem precheck_cases {flags : BasicFlags} {fs : FileSystem} {answers : List Str} {fileSize : Str → Int}
    {r : AsyncResult ⊕ (Partition × Nat)}
    (h : plugin.precheck partitionName imageName abi flags fs answers fileSize = .ok r) :
    (∃ early, r = .inl early ∧ early.result = false) ∨
      ∃ p buf tType, r = .inr (p, buf) ∧ findPartition flags fs answers partitionName = .ok (some p, tType) := by
  unfold precheck at h
  split at h
  next => exact Or.inl (AsyncResult.early_of_error h)
  next =>
    obtain ⟨⟨found, tType⟩, hfound, h⟩ := Checks.bind_ok_iff.mp h
    cases found with
    | none => exact Or.inl (AsyncResult.early_of_error h)
    | some q =>
      obtain ⟨size, _, h⟩ := Checks.bind_ok_iff.mp h
      dsimp only at h
      split at h
      next => exact Or.inl (AsyncResult.early_of_error h)
      next =>
        split at h
        next => exact Or.inl (AsyncResult.early_of_error h)
        next =>
          split at h
          next => exact Or.inl (AsyncResult.early_of_error h)
          next =>
            split at h
            next => exact Or.inl (AsyncResult.early_of_error h)
            next =>
              cases h
              exact Or.inr ⟨q, _, tType, rfl, hfound⟩

theorem precheck_partition {flags : BasicFlags} {fs : FileSystem} {answers : List Str}
    {fileSize : Str → Int} {p : Partition} {buf : Nat}
    (h : plugin.precheck partitionName imageName abi flags fs answers fileSize = .ok (.inr (p, buf))) :
    ∃ tType, findPartition flags fs answers partitionName = .ok (some p, tType) := by
  obtain ⟨_, heq, _⟩ | ⟨_, _, tType, heq, hfound⟩ := precheck_cases h
  · cases heq
  · cases heq
    exact ⟨tType, hfound⟩

theorem precheck_result {flags : BasicFlags} {fs : FileSystem} {answers : List Str}
    {fileSize : Str → Int} {r : AsyncResult}
    (h : plugin.precheck partitionName imageName abi flags fs answers fileSize = .ok (.inl r)) :
    r.result = false := by
  obtain ⟨_, heq, hfailed⟩ | ⟨_, _, _, heq, _⟩ := precheck_cases h
  · cases heq
    exact hfailed
  · cases heq

theorem flashes_fits (h : plugin.Flashes w partitionName imageName setup)
    (himage : w.fileSize imageName = w.io.image.length)
    (hdevice : ∀ p tType, findPartition w.flags w.fs w.answers partitionName = .ok (some p, tType) →
      p.size abi w.fs = .ok w.device.length) :
    w.io.Fits setup ∧ setup.size = w.device.length := by
  obtain ⟨p, buf, hpre, hsetup⟩ := h
  obtain ⟨tType, hfound⟩ := precheck_partition hpre
  obtain ⟨hsize, hfile, hle⟩ := Partition.writeSetup_size hsetup
  have hlength := hdevice p tType hfound
  rw [hsize] at hlength
  rw [himage] at hfile
  exact ⟨⟨by omega, by omega⟩, Except.ok.inj hlength⟩

theorem runAsync_success {fuel : Nat} {r : AsyncResult} {removed : Bool}
    (h : plugin.runAsync w partitionName imageName fuel = .ok (r, removed))
    (hr : r.result = true ∨ removed = true) :
    ∃ setup b device, plugin.Flashes w partitionName imageName setup ∧
      Loop.Returns (writeTurn w.io setup) (w.device, w.io.start) (.ok b, device) := by
  obtain ⟨pre, hpre, h⟩ := Checks.bind_ok_iff.mp h
  cases pre with
  | inl early =>
    cases h
    rw [precheck_result hpre] at hr
    simp at hr
  | inr found =>
    obtain ⟨p, buf⟩ := found
    cases hwrite : p.write w.io w.fs w.fileSize w.openErrno w.device imageName (abi.toSize buf) fuel with
    | error stop =>
      simp only [hwrite] at h
      split at h
      next =>
        cases h
        simp [writeFailed, AsyncResult.Error] at hr
      next => cases h
      next heq => cases heq
    | ok done =>
      obtain ⟨setup, hsetup, hloop⟩ := Checks.bind_ok_iff.mp hwrite
      split at hloop
      next => cases hloop
      next => cases hloop
      next b device heq => exact ⟨setup, b, device, ⟨p, buf, hpre, hsetup⟩, fuel, heq⟩

theorem runAsync_of_returns {b : Bool} {device : List UInt8}
    (h : plugin.Flashes w partitionName imageName setup)
    (hret : Loop.Returns (writeTurn w.io setup) (w.device, w.io.start) (.ok b, device)) :
    ∃ fuel removed, plugin.runAsync w partitionName imageName fuel =
      .ok (flashed partitionName imageName, removed) := by
  obtain ⟨p, buf, hpre, hsetup⟩ := h
  obtain ⟨fuel, hrun⟩ := hret
  have hwrite : p.write w.io w.fs w.fileSize w.openErrno w.device imageName (abi.toSize buf) fuel =
      .ok (b, device) := by
    simp only [Partition.write, hsetup, bind, Except.bind, hrun]
  refine ⟨fuel, plugin.deleteAfterProgress && w.eraseEntry, ?_⟩
  simp only [runAsync, hpre, bind, Except.bind, hwrite]

/-- When each transfer was interrupted, or the image fills the partition and the
sync succeeds, the reported status is the truth. -/
theorem truthful_of_clean (hfits : ∀ setup, plugin.Flashes w partitionName imageName setup →
      w.io.Fits setup ∧ setup.size = w.device.length)
    (h : ∀ setup, plugin.Flashes w partitionName imageName setup → Interrupted w.io setup w.device ∨
      (setup.imageSize = setup.size ∧ w.io.openpart_sync = 0)) :
    plugin.Truthful w partitionName imageName := by
  constructor
  · intro fuel r removed hrun hr
    obtain ⟨setup, b, device, hflashes, hret⟩ := runAsync_success hrun hr
    obtain ⟨hfit, hdevice⟩ := hfits setup hflashes
    rcases h setup hflashes with hint | ⟨_, hsync⟩
    · obtain ⟨e, device', herr⟩ := interrupted_raises hint
      cases Loop.returns_unique hret herr
    · rcases write_ends hfit hdevice hret with ⟨_, e, he⟩ | ⟨hdelivered, _⟩
      · cases he
      · exact ⟨setup, hflashes, hdelivered, hsync⟩
  · intro setup hflashes
    obtain ⟨hfit, hdevice⟩ := hfits setup hflashes
    constructor
    · intro h
      obtain ⟨device, hret⟩ := h
      rcases write_ends hfit hdevice hret with ⟨_, e, he⟩ | ⟨hdelivered, _⟩
      · cases he
      · rcases h setup hflashes with hint | ⟨_, hsync⟩
        · obtain ⟨e, device', herr⟩ := interrupted_raises hint
          cases Loop.returns_unique hret herr
        · exact ⟨hdelivered, hsync⟩
    · intro h
      obtain ⟨⟨k, s, hs, hstage, hall, _⟩, _⟩ := h
      obtain ⟨device', hret⟩ := syncing_returns hs hstage hall
      rcases h setup hflashes with hint | ⟨hfull, _⟩
      · obtain ⟨e, device'', herr⟩ := interrupted_raises hint
        cases Loop.returns_unique hret herr
      · simp only [hfull, decide_true] at hret
        exact ⟨device', hret⟩

/-- A flash tells the truth exactly when its transfer is interrupted, or its
image fills the partition and the sync succeeds. -/
theorem flash_truthful_iff (himage : w.fileSize imageName = w.io.image.length)
    (hdevice : ∀ p tType, findPartition w.flags w.fs w.answers partitionName = .ok (some p, tType) →
      p.size abi w.fs = .ok w.device.length) :
    plugin.Truthful w partitionName imageName ↔
      ∀ setup, plugin.Flashes w partitionName imageName setup → Interrupted w.io setup w.device ∨
        (setup.imageSize = setup.size ∧ w.io.openpart_sync = 0) := by
  have hfits := fun setup (h : plugin.Flashes w partitionName imageName setup) =>
    flashes_fits h himage hdevice
  refine ⟨fun h setup hflashes => ?_, truthful_of_clean hfits⟩
  obtain ⟨hfit, hlength⟩ := hfits setup hflashes
  obtain ⟨⟨r, device⟩, hret⟩ := write_returns hfit hlength
  rcases write_ends hfit hlength hret with ⟨hint, _⟩ | ⟨hwhole, hr⟩
  · exact Or.inl hint
  · dsimp only at hr
    subst hr
    obtain ⟨fuel, removed, hrun⟩ := runAsync_of_returns hflashes hret
    obtain ⟨_, _, _, hsync⟩ := h.success fuel _ removed hrun (Or.inl rfl)
    obtain ⟨device', htrue⟩ := (h.exact setup hflashes).mpr ⟨hwhole, hsync⟩
    have hsame := Loop.returns_unique hret htrue
    have hfull : setup.size = setup.imageSize := by simpa using (Prod.mk.inj hsame).1
    exact Or.inr ⟨hfull.symm, hsync⟩

end

/-- A one-byte image for a partition of two bytes; only `openpart_sync` may fail. -/
def shortImage (openpart_sync : Int) : FlashWorld .arm64_v8a where
  flags := bootFlags 2
  fs := { bootFileSystem with fileIsExists := fun path => path = "boot.img" }
  answers := []
  fileSize := fun _ => 1
  openErrno := none
  io :=
    { image := [7]
      reads := (WriteSchedule.full _).toSchedule
      writes := (WriteSchedule.full _).toSchedule
      openpart_sync
      errno := 0
      strerror := fun _ => [] }
  device := [9, 9]
  eraseEntry := true

def bootFlash : FlashPlugin := { bufferSize := 1048576, deleteAfterProgress := true }

theorem shortImage_size (openpart_sync : Int) : ∀ p tType, findPartition (shortImage openpart_sync).flags
    (shortImage openpart_sync).fs (shortImage openpart_sync).answers "boot" = .ok (some p, tType) →
    p.size .arm64_v8a (shortImage openpart_sync).fs = .ok (shortImage openpart_sync).device.length := by
  intro p tType h
  have hfound : findPartition (shortImage openpart_sync).flags (shortImage openpart_sync).fs
      (shortImage openpart_sync).answers "boot" = .ok (some (bootPartition 2), some .CLASSIC) := by rfl
  rw [hfound] at h
  cases h
  rfl

theorem flash_truthful_boot : bootFlash.Truthful (shortImage 0) "boot" "boot.img" ↔
    ∀ setup, bootFlash.Flashes (shortImage 0) "boot" "boot.img" setup →
      Interrupted (shortImage 0).io setup (shortImage 0).device ∨
        (setup.imageSize = setup.size ∧ (shortImage 0).io.openpart_sync = 0) :=
  flash_truthful_iff rfl (shortImage_size 0)

/-- The sync fails, the task reports a success all the same, and the image is gone. -/
theorem flash_unsynced_succeeds :
    bootFlash.runAsync (shortImage (-1)) "boot" "boot.img" 8 = .ok (flashed "boot" "boot.img", true) ∧
    (flashed "boot" "boot.img").result = true ∧
    ¬ bootFlash.Truthful (shortImage (-1)) "boot" "boot.img" := by
  have hrun : bootFlash.runAsync (shortImage (-1)) "boot" "boot.img" 8 =
      .ok (flashed "boot" "boot.img", true) := by rfl
  refine ⟨hrun, rfl, fun h => ?_⟩
  obtain ⟨_, _, _, hsync⟩ := h.success 8 _ _ hrun (Or.inl rfl)
  exact absurd hsync (by decide)

end FlashPlugin

end PartitionManager
