import PartitionManager.Flags
import PartitionManager.Posix
import PartitionManager.Library.Bytes
import PartitionManager.Library.Checks
import PartitionManager.Library.Loop

namespace PartitionManager

structure ErasePlugin where
  bufferSize : Nat

/-- What an erase task meets before its loop. -/
structure EraseWorld where
  flags : BasicFlags
  fs : FileSystem
  answers : List Str
  fileSize : Str → Int
  openErrno : Option Errno
  confirmPrompt : Bool

structure EraseSetup where
  partitionName : Str
  buf : Nat
  partitionSize : Nat

/-- The device under the loop, the results of the writes, and the value of a
counter that no longer fits its type. -/
structure EraseIO (abi : Abi) where
  device : List UInt8
  writes : Schedule abi
  overflow : Int → Int
  strerror : Errno → Str

structure EraseState where
  bytesWritten : Int
  offset : Nat
  device : List UInt8
  turn : Nat

structure EraseExit where
  result : AsyncResult
  offset : Nat
  device : List UInt8

/-- `setupBufferSize`: the buffer size it leaves behind. -/
def setupBufferSize (abi : Abi) (fs : FileSystem) (fileSize : Str → Int) (size : Nat) (entry : Str) :
    Option BaseTableData → Outcome Nat
  | none => .error (.undefined .nullDereference)
  | some table =>
    let corrected (psize : Nat) : Nat :=
      if psize % size ≠ 0 then (if psize % 4096 = 0 then 4096 else 1) else size
    if table.hasPartition (filename entry) then do
      match ← table.partition (filename entry) with
      | none => .error (.undefined .emptyOptional)
      | some p =>
        let psize ← p.size abi fs
        .ok (corrected psize)
    else if fs.fileIsExists entry then .ok (corrected (toUInt64 (fileSize entry)))
    else .ok size

namespace ErasePlugin

variable {abi : Abi} (plugin : ErasePlugin) (w : EraseWorld) (partitionName : Str)

/-- `runAsync` before its loop: a result already, or what the loop works with. -/
def precheck (abi : Abi) : Outcome (AsyncResult ⊕ EraseSetup) := do
  let table := getCorrectTableObj partitionName w.flags.first w.flags.second none
  match ← setupPartition w.fs w.answers partitionName table.1 with
  | none => .ok (.inl (.Error ("Couldn't find partition: " ++ partitionName)))
  | some partition => do
    let size ← partition.size abi w.fs
    if size = 0 then .ok (.inl (.Error ("Partition " ++ partitionName ++ " is empty")))
    else if w.flags.onLogical && table.2 ≠ some .DYNAMIC && !w.flags.forceProcess then
      .ok (.inl (.Error ("Used --logical (-l) flag but partition is not logical: " ++ partitionName)))
    else do
      let buf ← setupBufferSize abi w.fs w.fileSize (pluginBuffer plugin.bufferSize size) partitionName table.1
      let _ ← partition.absolutePath w.fs
      match w.openErrno with
      | some e => .ok (.inl (.Error ("Can't open partition " ++ partitionName ++ ": " ++ w.fs.strerror e)))
      | none =>
        if !w.flags.forceProcess && !w.confirmPrompt then raise ⟨"Operation canceled by user.", 1, false⟩
        else .ok (.inr ⟨partitionName, buf, size⟩)

end ErasePlugin

section

variable {abi : Abi} (io : EraseIO abi) (setup : EraseSetup)

def EraseState.toWrite (abi : Abi) (setup : EraseSetup) (s : EraseState) : Nat :=
  abi.toSize (min setup.buf (toUInt64 (setup.partitionSize - s.bytesWritten)) : Nat)

/-- The bytes handed to the next write: the front of the zeroed buffer. -/
def EraseState.data (abi : Abi) (setup : EraseSetup) (s : EraseState) : List UInt8 :=
  (List.replicate setup.buf 0).take (s.toWrite abi setup)

def EraseIO.result (s : EraseState) : Int := io.writes.result s.turn (s.toWrite abi setup)

/-- One turn of the loop of `runAsync`. -/
def eraseTurn (s : EraseState) : Loop.Turn EraseState EraseExit :=
  if toUInt64 s.bytesWritten < setup.partitionSize then
    let result := io.result setup s
    if result = -1 then
      .leave ⟨.Error ("Can't write zero bytes to partition " ++ setup.partitionName ++ ": " ++
        io.strerror (io.writes.errno s.turn)), s.offset, s.device⟩
    else if result = 0 then
      .leave ⟨.Error ("Write operation returned 0 bytes for partition " ++ setup.partitionName),
        s.offset, s.device⟩
    else
      .again ⟨abi.addSsize io.overflow s.bytesWritten result, s.offset + result.toNat,
        Bytes.overwrite s.device s.offset ((s.data abi setup).take result.toNat), s.turn + 1⟩
  else
    .leave ⟨.Success ("Successfully wrote zero bytes to partition " ++ setup.partitionName), s.offset, s.device⟩

/-- The descriptor has just been opened. -/
def EraseIO.start : EraseState := ⟨0, 0, io.device, 0⟩

/-- The turn after `k` others writes, from state `s`. -/
def EraseWrites (k : Nat) (s : EraseState) : Prop :=
  Loop.At (eraseTurn io setup) io.start k s ∧ toUInt64 s.bytesWritten < setup.partitionSize

/-- An erase to rely on: it ends, it writes zeros within the partition only,
success means all of it, and a write that takes nothing is an error there and then. -/
structure EraseComplete : Prop where
  returns : ∃ exit, Loop.Returns (eraseTurn io setup) io.start exit
  inside : ∀ k s, EraseWrites io setup k s →
    s.data abi setup = List.replicate (s.toWrite abi setup) 0 ∧
    s.offset + s.toWrite abi setup ≤ setup.partitionSize
  whole : ∀ exit, Loop.Returns (eraseTurn io setup) io.start exit → exit.result.result = true →
    exit.offset = setup.partitionSize ∧ exit.device = List.replicate setup.partitionSize 0
  failed : ∀ k s, EraseWrites io setup k s → io.result setup s ≤ 0 →
    ∃ exit, Loop.run (eraseTurn io setup) (k + 1) io.start = .leave exit ∧ exit.result.result = false

end

section

variable {abi : Abi} {io : EraseIO abi} {setup : EraseSetup} {s s' : EraseState}

/-- While nothing has overflowed, the counter is the offset, and everything before it is zero. -/
structure EraseState.Exact (io : EraseIO abi) (setup : EraseSetup) (s : EraseState) : Prop where
  counter : s.bytesWritten = s.offset
  within : s.offset ≤ setup.partitionSize
  zeroed : s.device = List.replicate s.offset 0 ++ io.device.drop s.offset

theorem EraseIO.start_exact (io : EraseIO abi) (setup : EraseSetup) : io.start.Exact io setup :=
  ⟨rfl, Nat.zero_le _, by simp [start]⟩

theorem EraseState.toWrite_eq (hn : setup.partitionSize < 2 ^ abi.bits) (hc : s.bytesWritten = s.offset)
    (hle : s.offset ≤ setup.partitionSize) :
    s.toWrite abi setup = min setup.buf (setup.partitionSize - s.offset) := by
  have hbits := abi.bits_le
  have hsub : (setup.partitionSize : Int) - s.bytesWritten = (setup.partitionSize - s.offset : Nat) := by
    omega
  unfold toWrite
  rw [hsub, toUInt64_natCast (by omega)]
  exact Abi.toSize_natCast (by omega)

theorem EraseState.data_eq (hn : setup.partitionSize < 2 ^ abi.bits) (hc : s.bytesWritten = s.offset)
    (hle : s.offset ≤ setup.partitionSize) :
    s.data abi setup = List.replicate (s.toWrite abi setup) 0 := by
  have hmin : s.toWrite abi setup ≤ setup.buf := by
    rw [toWrite_eq hn hc hle]
    exact Nat.min_le_left _ _
  unfold data
  rw [List.take_replicate, Nat.min_eq_left hmin]

theorem overwrite_zeroed {content : List UInt8} {offset count : Nat} :
    Bytes.overwrite (List.replicate offset 0 ++ content.drop offset) offset (List.replicate count 0) =
      List.replicate (offset + count) 0 ++ content.drop (offset + count) := by
  have htake : (List.replicate offset (0 : UInt8) ++ content.drop offset).take offset =
      List.replicate offset 0 := List.take_left' (List.length_replicate)
  have hdrop : (List.replicate offset (0 : UInt8) ++ content.drop offset).drop (offset + count) =
      content.drop (offset + count) := by
    rw [List.drop_append, List.drop_of_length_le (by simp), List.nil_append, List.length_replicate,
      List.drop_drop]
    congr 1
    omega
  rw [Bytes.overwrite, htake, List.length_replicate, hdrop, List.replicate_append_replicate]

/-- Everything a turn can do. -/
theorem eraseTurn_cases (io : EraseIO abi) (setup : EraseSetup) (s : EraseState) :
    (setup.partitionSize ≤ toUInt64 s.bytesWritten ∧ eraseTurn io setup s = .leave
      ⟨.Success ("Successfully wrote zero bytes to partition " ++ setup.partitionName), s.offset, s.device⟩) ∨
    (toUInt64 s.bytesWritten < setup.partitionSize ∧ io.result setup s ≤ 0 ∧
      ∃ exit, eraseTurn io setup s = .leave exit ∧ exit.result.result = false) ∨
    (toUInt64 s.bytesWritten < setup.partitionSize ∧ ∃ r : Nat, io.result setup s = r ∧ 0 < r ∧
      eraseTurn io setup s = .again ⟨abi.addSsize io.overflow s.bytesWritten r, s.offset + r,
        Bytes.overwrite s.device s.offset ((s.data abi setup).take r), s.turn + 1⟩) := by
  have hge : -1 ≤ io.result setup s := io.writes.ge_neg_one s.turn (s.toWrite abi setup)
  unfold eraseTurn
  by_cases hmore : toUInt64 s.bytesWritten < setup.partitionSize
  · refine Or.inr ?_
    rw [if_pos hmore]
    dsimp only
    by_cases hfail : io.result setup s = -1
    · rw [if_pos hfail]
      exact Or.inl ⟨hmore, by omega, _, rfl, rfl⟩
    · rw [if_neg hfail]
      by_cases hzero : io.result setup s = 0
      · rw [if_pos hzero]
        exact Or.inl ⟨hmore, by omega, _, rfl, rfl⟩
      · obtain ⟨r, hr⟩ := Int.eq_ofNat_of_zero_le (show 0 ≤ io.result setup s by omega)
        rw [if_neg hzero, hr]
        exact Or.inr ⟨hmore, r, rfl, by omega, rfl⟩
  · rw [if_neg hmore]
    exact Or.inl ⟨by omega, rfl⟩

/-- A further turn keeps the counter exact as long as the size fits `ssize_t`. -/
theorem eraseTurn_exact (hmax : setup.partitionSize ≤ abi.SSIZE_MAX)
    (hdev : io.device.length = setup.partitionSize) (hs : s.Exact io setup)
    (h : eraseTurn io setup s = .again s') :
    s'.Exact io setup ∧ setup.partitionSize - s'.offset < setup.partitionSize - s.offset := by
  have hn : setup.partitionSize < 2 ^ abi.bits := Nat.lt_of_le_of_lt hmax abi.SSIZE_MAX_lt
  have hto := EraseState.toWrite_eq hn hs.counter hs.within
  have hle := io.writes.le_count s.turn (s.toWrite abi setup)
  have hwithin := hs.within
  rcases eraseTurn_cases io setup s with ⟨_, hturn⟩ | ⟨_, _, exit, hturn, _⟩ | ⟨hmore, r, hr, hpos, hturn⟩
  · rw [hturn] at h
    cases h
  · rw [hturn] at h
    cases h
  · have hrle : r ≤ s.toWrite abi setup := by
      unfold EraseIO.result at hr
      omega
    have hsum : s.offset + r ≤ setup.partitionSize := by omega
    rw [hturn] at h
    cases h
    refine ⟨⟨?_, hsum, ?_⟩, ?_⟩
    · dsimp only
      rw [hs.counter]
      exact Abi.addSsize_of_le io.overflow (by omega)
    · dsimp only
      rw [hs.zeroed, EraseState.data_eq hn hs.counter hs.within, List.take_replicate, Nat.min_eq_left hrle]
      exact overwrite_zeroed
    · dsimp only
      omega

theorem at_exact (hmax : setup.partitionSize ≤ abi.SSIZE_MAX)
    (hdev : io.device.length = setup.partitionSize) {k : Nat}
    (h : Loop.At (eraseTurn io setup) io.start k s) : s.Exact io setup :=
  Loop.at_invariant (fun _ _ hs ht => (eraseTurn_exact hmax hdev hs ht).1) (io.start_exact setup) h

theorem eraseTurn_failed (hpos : toUInt64 s.bytesWritten < setup.partitionSize)
    (hr : io.result setup s ≤ 0) :
    ∃ exit, eraseTurn io setup s = .leave exit ∧ exit.result.result = false := by
  rcases eraseTurn_cases io setup s with ⟨hend, _⟩ | ⟨_, _, exit, hturn, hresult⟩ | ⟨_, r, hwrote, _, _⟩
  · omega
  · exact ⟨exit, hturn, hresult⟩
  · omega

theorem eraseTurn_success {exit : EraseExit} (h : eraseTurn io setup s = .leave exit)
    (hok : exit.result.result = true) :
    setup.partitionSize ≤ toUInt64 s.bytesWritten ∧ exit.offset = s.offset ∧ exit.device = s.device := by
  rcases eraseTurn_cases io setup s with ⟨hend, hturn⟩ | ⟨_, _, failed, hturn, hresult⟩ | ⟨_, r, _, _, hturn⟩
  · rw [hturn] at h
    cases h
    exact ⟨hend, rfl, rfl⟩
  · rw [hturn] at h
    cases h
    rw [hresult] at hok
    cases hok
  · rw [hturn] at h
    cases h

/-- As long as the size fits `ssize_t`, every erase can be relied on. -/
theorem erase_complete_of_le (hmax : setup.partitionSize ≤ abi.SSIZE_MAX)
    (hdev : io.device.length = setup.partitionSize) : EraseComplete io setup := by
  have hn : setup.partitionSize < 2 ^ abi.bits := Nat.lt_of_le_of_lt hmax abi.SSIZE_MAX_lt
  have hbits := abi.bits_le
  refine ⟨?_, ?_, ?_, ?_⟩
  · exact Loop.returns_of_measure (fun s => setup.partitionSize - s.offset)
      (fun _ _ hs ht => eraseTurn_exact hmax hdev hs ht) (io.start_exact setup)
  · intro k s hk
    have hs := at_exact hmax hdev hk.1
    refine ⟨EraseState.data_eq hn hs.counter hs.within, ?_⟩
    have hto := EraseState.toWrite_eq hn hs.counter hs.within
    have := hs.within
    omega
  · intro exit hret hok
    obtain ⟨k, s, hk, hleave⟩ := Loop.last_turn hret
    obtain ⟨hend, hoffset, hdevice⟩ := eraseTurn_success hleave hok
    have hs := at_exact hmax hdev hk
    have hwithin := hs.within
    rw [hs.counter, toUInt64_natCast (by omega)] at hend
    have hall : s.offset = setup.partitionSize := by omega
    refine ⟨hoffset.trans hall, ?_⟩
    rw [hdevice, hs.zeroed, hall, List.drop_of_length_le (by omega), List.append_nil]
  · intro k s hk hr
    obtain ⟨exit, hturn, hfail⟩ := eraseTurn_failed hk.2 hr
    exact ⟨exit, (Loop.run_succ_of_at hk.1).trans hturn, hfail⟩

theorem eraseTurn_oneByte (hwrites : io.writes = .oneByte abi) (hbuf : 1 ≤ setup.buf)
    (hn : setup.partitionSize < 2 ^ abi.bits) (hc : s.bytesWritten = s.offset)
    (hlt : s.offset < setup.partitionSize) :
    ∃ device, eraseTurn io setup s =
      .again ⟨abi.addSsize io.overflow s.offset (1 : Nat), s.offset + 1, device, s.turn + 1⟩ := by
  have hbits := abi.bits_le
  have hto := EraseState.toWrite_eq hn hc (Nat.le_of_lt hlt)
  have hresult : io.result setup s = (1 : Nat) := by
    unfold EraseIO.result
    rw [hwrites]
    exact if_neg (by omega)
  have hpos : toUInt64 s.bytesWritten < setup.partitionSize := by
    rw [hc, toUInt64_natCast (by omega)]
    exact hlt
  rcases eraseTurn_cases io setup s with ⟨hend, _⟩ | ⟨_, hfail, _⟩ | ⟨_, r, hr, _, hturn⟩
  · omega
  · omega
  · obtain rfl : r = 1 := by omega
    rw [hc] at hturn
    exact ⟨_, hturn⟩

/-- Byte by byte the counter arrives at the first value that does not fit. -/
theorem oneByte_overflows (io : EraseIO abi) (hwrites : io.writes = .oneByte abi) (hbuf : 1 ≤ setup.buf)
    (hn : setup.partitionSize < 2 ^ abi.bits) (hmax : abi.SSIZE_MAX < setup.partitionSize) :
    ∃ s, Loop.At (eraseTurn io setup) io.start (abi.SSIZE_MAX + 1) s ∧
      s.bytesWritten = io.overflow (abi.SSIZE_MAX + 1 : Nat) ∧ s.offset = abi.SSIZE_MAX + 1 := by
  have hcount : ∀ k, k ≤ abi.SSIZE_MAX → ∃ s, Loop.At (eraseTurn io setup) io.start k s ∧
      s.bytesWritten = s.offset ∧ s.offset = k := by
    intro k
    induction k with
    | zero => exact fun _ => ⟨_, Loop.at_zero _, rfl, rfl⟩
    | succ k ih =>
      intro hk
      obtain ⟨s, hs, hc, ho⟩ := ih (by omega)
      obtain ⟨device, hturn⟩ := eraseTurn_oneByte hwrites hbuf hn hc (by omega)
      refine ⟨_, Loop.at_succ hs hturn, ?_, by simp [ho]⟩
      exact Abi.addSsize_of_le io.overflow (by omega)
  obtain ⟨s, hs, hc, ho⟩ := hcount abi.SSIZE_MAX (Nat.le_refl _)
  obtain ⟨device, hturn⟩ := eraseTurn_oneByte hwrites hbuf hn hc (by omega)
  refine ⟨_, Loop.at_succ hs hturn, ?_, by simp [ho]⟩
  dsimp only
  rw [ho]
  exact Abi.addSsize_of_lt io.overflow (by omega)

/-- A value at or past the size ends the loop, with what has been written by then. -/
theorem oneByte_stops (io : EraseIO abi) (hwrites : io.writes = .oneByte abi) (hbuf : 1 ≤ setup.buf)
    (hn : setup.partitionSize < 2 ^ abi.bits) (hmax : abi.SSIZE_MAX < setup.partitionSize)
    (hpast : setup.partitionSize ≤ toUInt64 (io.overflow (abi.SSIZE_MAX + 1 : Nat))) :
    ∃ exit, Loop.Returns (eraseTurn io setup) io.start exit ∧ exit.result.result = true ∧
      exit.offset = abi.SSIZE_MAX + 1 := by
  obtain ⟨s, hs, hcounter, hoffset⟩ := oneByte_overflows io hwrites hbuf hn hmax
  rcases eraseTurn_cases io setup s with ⟨_, hturn⟩ | ⟨hmore, _⟩ | ⟨hmore, _⟩
  · exact ⟨_, Loop.returns_of_at hs hturn, rfl, hoffset⟩
  · rw [hcounter] at hmore
    omega
  · rw [hcounter] at hmore
    omega

/-- Past `SSIZE_MAX` an erase is at the mercy of the overflow. -/
theorem le_of_erase_complete {device : List UInt8} {strerror : Errno → Str} (hbuf : 1 ≤ setup.buf)
    (hn : setup.partitionSize < 2 ^ abi.bits)
    (h : ∀ overflow, EraseComplete ⟨device, .oneByte abi, overflow, strerror⟩ setup) :
    setup.partitionSize ≤ abi.SSIZE_MAX := by
  have hbits := abi.bits_le
  by_contra hgt
  have hmax : abi.SSIZE_MAX < setup.partitionSize := by omega
  by_cases hlast : setup.partitionSize = abi.SSIZE_MAX + 1
  · -- everything is written, but the counter starts over and so does the loop
    obtain ⟨s, hs, hcounter, hoffset⟩ := oneByte_overflows
      ⟨device, .oneByte abi, fun _ => 0, strerror⟩ rfl hbuf hn hmax
    have hzero : s.bytesWritten = (0 : Nat) := hcounter
    have hpos : toUInt64 s.bytesWritten < setup.partitionSize := by
      rw [hzero, toUInt64_natCast (by omega)]
      omega
    have hto : s.toWrite abi setup = min setup.buf setup.partitionSize := by
      unfold EraseState.toWrite
      rw [hzero, Int.natCast_zero, Int.sub_zero, toUInt64_natCast (by omega)]
      exact Abi.toSize_natCast (by omega)
    have hinside := ((h fun _ => 0).inside _ s ⟨hs, hpos⟩).2
    omega
  · have hpast : setup.partitionSize ≤ toUInt64 (-1) := by
      have hall : toUInt64 (-1) = 2 ^ 64 - 1 := by decide
      omega
    obtain ⟨exit, hret, hok, hoffset⟩ := oneByte_stops
      ⟨device, .oneByte abi, fun _ => -1, strerror⟩ rfl hbuf hn hmax hpast
    have hwhole := ((h fun _ => -1).whole exit hret hok).1
    omega

end

namespace ErasePlugin

variable {abi : Abi} {plugin : ErasePlugin} {w : EraseWorld} {partitionName : Str} {setup : EraseSetup}

theorem setupBufferSize_pos {fs : FileSystem} {fileSize : Str → Int} {size size' : Nat} {entry : Str}
    {table : Option BaseTableData} (h : setupBufferSize abi fs fileSize size entry table = .ok size')
    (hsize : 1 ≤ size) : 1 ≤ size' := by
  have hcorrected : ∀ psize : Nat,
      1 ≤ if psize % size ≠ 0 then (if psize % 4096 = 0 then 4096 else 1) else size := by
    intro psize
    split
    · split <;> omega
    · exact hsize
  cases table with
  | none => cases h
  | some table =>
    unfold setupBufferSize at h
    dsimp only at h
    split at h
    next =>
      obtain ⟨found, _, h⟩ := Checks.bind_ok_iff.mp h
      cases found with
      | none => cases h
      | some p =>
        obtain ⟨psize, _, h⟩ := Checks.bind_ok_iff.mp h
        cases h
        exact hcorrected psize
    next =>
      split at h
      next =>
        cases h
        exact hcorrected _
      next =>
        cases h
        exact hsize

/-- What the checks have established when they let a partition through. -/
theorem precheck_ok (h : plugin.precheck w partitionName abi = .ok (.inr setup)) :
    ∃ p : Partition, p.size abi w.fs = .ok setup.partitionSize ∧ 0 < setup.partitionSize ∧
      setupBufferSize abi w.fs w.fileSize (pluginBuffer plugin.bufferSize setup.partitionSize) partitionName
        (getCorrectTableObj partitionName w.flags.first w.flags.second none).1 = .ok setup.buf := by
  obtain ⟨found, _, h⟩ := Checks.bind_ok_iff.mp h
  cases found with
  | none => cases h
  | some p =>
    obtain ⟨size, hsize, h⟩ := Checks.bind_ok_iff.mp h
    split at h
    next => cases h
    next hpos =>
      split at h
      next => cases h
      next =>
        obtain ⟨buf, hbuf, h⟩ := Checks.bind_ok_iff.mp h
        obtain ⟨path, _, h⟩ := Checks.bind_ok_iff.mp h
        cases hopen : w.openErrno with
        | some e =>
          rw [hopen] at h
          cases h
        | none =>
          rw [hopen] at h
          dsimp only at h
          split at h
          next => cases h
          next =>
            cases h
            exact ⟨p, hsize, Nat.pos_of_ne_zero hpos, hbuf⟩

theorem precheck_setup (h : plugin.precheck w partitionName abi = .ok (.inr setup)) :
    1 ≤ setup.buf ∧ 0 < setup.partitionSize ∧ setup.partitionSize < 2 ^ abi.bits := by
  obtain ⟨p, hsize, hpos, hbuf⟩ := precheck_ok h
  exact ⟨setupBufferSize_pos hbuf (pluginBuffer_pos hpos), hpos, Partition.size_lt hsize⟩

/-- The erase of a partition can be relied on exactly when its size fits `ssize_t`. -/
theorem erase_complete_iff (h : plugin.precheck w partitionName abi = .ok (.inr setup)) :
    (∀ io : EraseIO abi, io.device.length = setup.partitionSize → EraseComplete io setup) ↔
      setup.partitionSize ≤ abi.SSIZE_MAX := by
  obtain ⟨hbuf, _, hn⟩ := precheck_setup h
  constructor
  · intro hall
    exact le_of_erase_complete hbuf hn fun overflow =>
      hall ⟨List.replicate setup.partitionSize 1, .oneByte abi, overflow, w.fs.strerror⟩
        (List.length_replicate)
  · exact fun hmax io hdev => erase_complete_of_le hmax hdev

def bootErase : ErasePlugin := ⟨4096⟩

def eraseBoot (size : Nat) : EraseWorld :=
  ⟨{ bootFlags size with forceProcess := true }, bootFileSystem, [], fun _ => 0, none, false⟩

theorem eraseBoot_setup (size : Nat) (hsize : size = 8192 ∨ size = 2147487744) :
    bootErase.precheck (eraseBoot size) "boot" .armeabi_v7a = .ok (.inr ⟨"boot", 4096, size⟩) := by
  rcases hsize with rfl | rfl <;> rfl

theorem erase_complete_boot :
    (∀ io : EraseIO .armeabi_v7a, io.device.length = 8192 → EraseComplete io ⟨"boot", 4096, 8192⟩) ↔
      8192 ≤ Abi.armeabi_v7a.SSIZE_MAX :=
  erase_complete_iff (eraseBoot_setup 8192 (Or.inl rfl))

/-- A byte-wise device of 2 GiB and 4 KiB, whose counter wraps. -/
def twoGib : EraseIO .armeabi_v7a :=
  ⟨List.replicate 2147487744 1, .oneByte _, Abi.armeabi_v7a.wrap, fun _ => []⟩

/-- On the 32-bit build the counter wraps at 2 GiB, and the erase stops there with a success. -/
theorem erase_stops_at_two_gib :
    bootErase.precheck (eraseBoot 2147487744) "boot" .armeabi_v7a =
      .ok (.inr ⟨"boot", 4096, 2147487744⟩) ∧
    twoGib.device.length = 2147487744 ∧
    (∃ exit, Loop.Returns (eraseTurn twoGib ⟨"boot", 4096, 2147487744⟩) twoGib.start exit ∧
      exit.result.result = true ∧ exit.offset = 2147483648) ∧
    ¬ EraseComplete twoGib ⟨"boot", 4096, 2147487744⟩ := by
  refine ⟨eraseBoot_setup _ (Or.inr rfl), List.length_replicate, ?_⟩
  have hpast : 2147487744 ≤ toUInt64 (Abi.armeabi_v7a.wrap (Abi.armeabi_v7a.SSIZE_MAX + 1 : Nat)) := by
    decide
  obtain ⟨exit, hret, hok, hoffset⟩ : ∃ exit,
      Loop.Returns (eraseTurn twoGib ⟨"boot", 4096, 2147487744⟩) twoGib.start exit ∧
        exit.result.result = true ∧ exit.offset = Abi.armeabi_v7a.SSIZE_MAX + 1 :=
    oneByte_stops twoGib rfl (by decide) (by decide) (by decide) hpast
  have hoffset' : exit.offset = 2147483648 := hoffset
  refine ⟨⟨exit, hret, hok, hoffset'⟩, fun h => ?_⟩
  have hwhole : exit.offset = 2147487744 := (h.whole exit hret hok).1
  omega

end ErasePlugin

end PartitionManager
