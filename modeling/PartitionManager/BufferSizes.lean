import PartitionManager.Erase
import PartitionManager.TableLookup

namespace PartitionManager

section

variable (abi : Abi) (fs : FileSystem) (fileSize : Str → Int)

/-- The size that `setupBufferSize` measures the buffer against: of the first partition
with the file name of the entry, or of the file of that name, if either is there. -/
def measured (table : BaseTableData) (entry : Str) : Outcome (Option Nat) :=
  if table.hasPartition (filename entry) then do
    match ← table.partition (filename entry) with
    | none => .error (.undefined .emptyOptional)
    | some p => do
      let psize ← p.size abi fs
      .ok (some psize)
  else if fs.fileIsExists entry then .ok (some (toUInt64 (fileSize entry)))
  else .ok none

/-- The bounds of the clamp are in order, and it gives a buffer that the partition can hold. -/
def Clamped (p : Partition) (bufferSize : Nat) : Prop :=
  ∃ n, p.size abi fs = .ok n ∧ MIN_BUFFER_SIZE ≤ min bufferSize n ∧
    1 ≤ pluginBuffer bufferSize n ∧ pluginBuffer bufferSize n ≤ n

/-- `setupBufferSize` leaves a buffer that fills the partition evenly. -/
def DividesEvenly (found : Option BaseTableData) (entry : Str) (p : Partition) (bufferSize : Nat) : Prop :=
  ∃ n size, p.size abi fs = .ok n ∧
    setupBufferSize abi fs fileSize (pluginBuffer bufferSize n) entry found = .ok size ∧
    1 ≤ size ∧ size ≤ n ∧ size ∣ n

/-- What fits the measured size fits the partition of `n` bytes: the buffer itself, or
else 4096. With nothing to measure the buffer stays as it is. -/
def MeasuresAlike (buf n : Nat) : Option Nat → Prop
  | none => buf ∣ n
  | some m => (buf ∣ m → buf ∣ n) ∧ (¬ buf ∣ m → 4096 ∣ m → 4096 ∣ n)

/-- The partition is not smaller than the least buffer, and what is measured can be read
and agrees with it. -/
structure BufferFits (found : Option BaseTableData) (entry : Str) (bufferSize n : Nat) : Prop where
  least : MIN_BUFFER_SIZE ≤ n
  alike : ∃ table m, found = some table ∧ measured abi fs fileSize table entry = .ok m ∧
    MeasuresAlike (min bufferSize n) n m

end

variable {abi : Abi} {fs : FileSystem} {fileSize : Str → Int} {found : Option BaseTableData} {table : BaseTableData}
  {entry : Str} {p : Partition} {bufferSize n : Nat}

theorem pluginBuffer_eq_min (hb : MIN_BUFFER_SIZE ≤ bufferSize) :
    pluginBuffer bufferSize n = min bufferSize n := by
  unfold pluginBuffer clamp
  rw [if_neg (by omega)]
  split
  next => rfl
  next => omega

theorem clamped_iff (hb : MIN_BUFFER_SIZE ≤ bufferSize) (hsize : p.size abi fs = .ok n) :
    Clamped abi fs p bufferSize ↔ MIN_BUFFER_SIZE ≤ n := by
  constructor
  · rintro ⟨m, hm, hbounds, _⟩
    have hmn := Except.ok.inj (hsize.symm.trans hm)
    omega
  · intro hn
    have heq := pluginBuffer_eq_min (n := n) hb
    have hpos : 1 ≤ MIN_BUFFER_SIZE := by decide
    exact ⟨n, hsize, by omega, by omega, by omega⟩

/-- What becomes of a buffer that is measured against `m`. -/
def corrected (size : Nat) : Option Nat → Nat
  | none => size
  | some m => if m % size ≠ 0 then (if m % 4096 = 0 then 4096 else 1) else size

theorem setupBufferSize_eq (size : Nat) : setupBufferSize abi fs fileSize size entry (some table) =
    (measured abi fs fileSize table entry).map (corrected size) := by
  unfold setupBufferSize measured
  dsimp only
  split
  next =>
    cases table.partition (filename entry) with
    | error stop => rfl
    | ok found =>
      cases found with
      | none => rfl
      | some p =>
        simp only [Checks.ok_bind]
        cases p.size abi fs with
        | error stop => rfl
        | ok psize => rfl
  next =>
    split
    next => rfl
    next => rfl

theorem corrected_dvd_iff {m : Option Nat} {buf : Nat} : corrected buf m ∣ n ↔ MeasuresAlike buf n m := by
  cases m with
  | none => rfl
  | some m =>
    show (if m % buf ≠ 0 then (if m % 4096 = 0 then 4096 else 1) else buf) ∣ n ↔ (buf ∣ m → buf ∣ n) ∧ _
    by_cases hbuf : buf ∣ m
    · rw [if_neg (not_not_intro (Nat.mod_eq_zero_of_dvd hbuf))]
      exact ⟨fun h => ⟨fun _ => h, fun hnot => absurd hbuf hnot⟩, fun h => h.1 hbuf⟩
    · rw [if_pos fun hzero => hbuf (Nat.dvd_of_mod_eq_zero hzero)]
      by_cases hpage : 4096 ∣ m
      · rw [if_pos (Nat.mod_eq_zero_of_dvd hpage)]
        exact ⟨fun h => ⟨fun hyes => absurd hyes hbuf, fun _ _ => h⟩, fun h => h.2 hbuf hpage⟩
      · rw [if_neg fun hzero => hpage (Nat.dvd_of_mod_eq_zero hzero)]
        exact iff_of_true (Nat.one_dvd n) ⟨fun hyes => absurd hyes hbuf, fun _ hyes => absurd hyes hpage⟩

theorem corrected_pos {buf : Nat} (h : 1 ≤ buf) (m : Option Nat) : 1 ≤ corrected buf m := by
  cases m with
  | none => exact h
  | some m =>
    show 1 ≤ if m % buf ≠ 0 then (if m % 4096 = 0 then 4096 else 1) else buf
    split
    next => split <;> omega
    next => exact h

/-- A partition is found in a table only. -/
theorem table_of_setupPartition {answers : List Str} {name : Str}
    (h : setupPartition fs answers name found = .ok (some p)) : ∃ table, found = some table := by
  cases found with
  | none => cases h
  | some table => exact ⟨table, rfl⟩

theorem dividesEvenly_iff (hb : MIN_BUFFER_SIZE ≤ bufferSize) (hn : MIN_BUFFER_SIZE ≤ n)
    (hsize : p.size abi fs = .ok n) : DividesEvenly abi fs fileSize (some table) entry p bufferSize ↔
      ∃ m, measured abi fs fileSize table entry = .ok m ∧ MeasuresAlike (min bufferSize n) n m := by
  have hbuf := pluginBuffer_eq_min (n := n) hb
  have hleast : 1 ≤ MIN_BUFFER_SIZE := by decide
  constructor
  · rintro ⟨k, size, hk, hset, _, _, hdvd⟩
    cases Except.ok.inj (hsize.symm.trans hk)
    rw [setupBufferSize_eq, hbuf] at hset
    cases hm : measured abi fs fileSize table entry with
    | error stop =>
      rw [hm] at hset
      cases hset
    | ok m =>
      rw [hm] at hset
      cases hset
      exact ⟨m, rfl, corrected_dvd_iff.mp hdvd⟩
  · rintro ⟨m, hm, halike⟩
    have hdvd := corrected_dvd_iff.mpr halike
    have hpos : 1 ≤ corrected (min bufferSize n) m := corrected_pos (by omega) m
    refine ⟨n, _, hsize, ?_, hpos, Nat.le_of_dvd (by omega) hdvd, hdvd⟩
    rw [setupBufferSize_eq, hm, hbuf]
    rfl

/-- Backup and flash get a sound buffer just for partitions of at least 1024 bytes; erase
gets one that divides its partition just if, besides, what is measured agrees with the
partition that is erased. -/
theorem buffer_chosen_iff {answers : List Str} {name : Str} (hb : MIN_BUFFER_SIZE ≤ bufferSize)
    (hfound : setupPartition fs answers name found = .ok (some p)) (hsize : p.size abi fs = .ok n) :
    (Clamped abi fs p bufferSize ↔ MIN_BUFFER_SIZE ≤ n) ∧
      (Clamped abi fs p bufferSize ∧ DividesEvenly abi fs fileSize found name p bufferSize ↔
        BufferFits abi fs fileSize found name bufferSize n) := by
  obtain ⟨table, rfl⟩ := table_of_setupPartition hfound
  have hclamped := clamped_iff hb hsize
  refine ⟨hclamped, ?_⟩
  constructor
  · rintro ⟨hclamp, hdivides⟩
    have hleast := hclamped.mp hclamp
    obtain ⟨m, hm, halike⟩ := (dividesEvenly_iff hb hleast hsize).mp hdivides
    exact ⟨hleast, table, m, rfl, hm, halike⟩
  · rintro ⟨hleast, other, m, hother, hm, halike⟩
    cases hother
    exact ⟨hclamped.mpr hleast, (dividesEvenly_iff hb hleast hsize).mpr ⟨m, hm, halike⟩⟩

/-- Two partitions of one name, of 8192 and of 6144 bytes. -/
def sizedPartition (disk : Str) (size : Nat) : Partition :=
  ⟨append ScanDevice.devBlock disk, [], 0, ⟨"xbl", true, 1, 0, 1⟩, some ⟨append ScanDevice.devBlock disk, size, true⟩,
    false⟩

def sizedTables : PartitionTableData where
  gptDataCollection := []
  localPartitions := [sizedPartition "sda" 8192, sizedPartition "sdb" 6144]
  localTableNames := xblTables.localTableNames
  physical := List.forall_mem_cons.mpr ⟨rfl, List.forall_mem_cons.mpr ⟨rfl, fun _ h => absurd h List.not_mem_nil⟩⟩

theorem buffer_chosen_sda :
    (Clamped .arm64_v8a bootFileSystem (sizedPartition "sda" 8192) 4096 ↔ MIN_BUFFER_SIZE ≤ 8192) ∧
      (Clamped .arm64_v8a bootFileSystem (sizedPartition "sda" 8192) 4096 ∧
          DividesEvenly .arm64_v8a bootFileSystem (fun _ => 0) (some (.classic sizedTables)) "xbl"
            (sizedPartition "sda" 8192) 4096 ↔
        BufferFits .arm64_v8a bootFileSystem (fun _ => 0) (some (.classic sizedTables)) "xbl" 4096 8192) := by
  have hfound : setupPartition bootFileSystem ["sda"] "xbl" (some (.classic sizedTables)) =
      .ok (some (sizedPartition "sda" 8192)) := rfl
  exact buffer_chosen_iff (by decide) hfound rfl

/-- For a partition of 512 bytes the bounds are the wrong way round. Of two partitions
of one name, the second is erased in pieces that divide the first. -/
theorem buffer_misfits : min 4096 512 < MIN_BUFFER_SIZE ∧
    ¬ Clamped .arm64_v8a bootFileSystem (bootPartition 512) 4096 ∧
    setupPartition bootFileSystem ["sdb"] "xbl" (some (.classic sizedTables)) =
      .ok (some (sizedPartition "sdb" 6144)) ∧
    setupBufferSize .arm64_v8a bootFileSystem (fun _ => 0) (pluginBuffer 4096 6144) "xbl"
      (some (.classic sizedTables)) = .ok 4096 ∧
    ¬ DividesEvenly .arm64_v8a bootFileSystem (fun _ => 0) (some (.classic sizedTables)) "xbl"
      (sizedPartition "sdb" 6144) 4096 := by
  refine ⟨by decide, ?_, rfl, by decide, ?_⟩
  · rintro ⟨n, hn, hbounds, _⟩
    have hsize : n = 512 := (Except.ok.inj hn).symm
    unfold MIN_BUFFER_SIZE at hbounds
    omega
  · rintro ⟨n, size, hn, hset, _, _, hdvd⟩
    have hsize : n = 6144 := (Except.ok.inj hn).symm
    subst hsize
    have hbuf : size = 4096 := (Except.ok.inj hset).symm
    subst hbuf
    omega

end PartitionManager
