import PartitionManager.Filesystems
import PartitionManager.Sectors

namespace PartitionManager

/-- What `find_partition_name` asks of the system, and what its two buffers hold at first. -/
structure BlockDevices where
  start : Str → Option UInt64
  realpath : Str → Option Str
  openDisk : Str → Option (List UInt8)
  header : Nat → UInt8
  entry : Nat → UInt8

/-- How a search for a name ends: with -1, with a name, or in a division by zero or a read
past the end of the entry buffer. -/
inductive NameResult where
  | failed
  | found (name_out : List UInt8)
  | undefined
  deriving DecidableEq

/-- The lengths that are asked of `pread` for the entry buffer, and the end. -/
structure NameRun where
  asked : List Nat
  result : NameResult
  deriving DecidableEq

def gptSignature : Nat := 0x5452415020494645

/-- `sizeof(gpt_entry_t)`. -/
def gptEntrySize : Nat := 128

/-- `sizeof(gpt_header_t)`. -/
def gptHeaderSize : Nat := 92

namespace BlockDevices

variable (sys : BlockDevices)

def get_parent_disk (part_path : Str) : Option Str :=
  if '/' ∉ part_path then none
  else
    match sys.realpath ("/sys/class/block/" ++ filename part_path ++ "/..") with
    | none => none
    | some resolved => if '/' ∉ resolved then none else some ("/dev/block/" ++ filename resolved)

def get_partition_start_lba (part_name : Str) : Option UInt64 :=
  sys.start ("/sys/class/block/" ++ part_name ++ "/start")

end BlockDevices

/-- The units of a name up to its end. -/
def nameUnits (entry : Nat → UInt8) : List Nat :=
  ((List.range 36).map fun j => field entry (56 + 2 * j) 2).takeWhile (· ≠ 0)

section

variable (abi : Abi) (lfs : FileOffsetBits) (disk : List UInt8)

/-- A `pread` on the disk, `none` where it returns -1. -/
def diskRead (count : Nat) (offset : UInt64) : Option (List UInt8) :=
  match pread abi (fun _ => some ⟨[], disk.length, O_RDONLY⟩) 0 count (lfs.off_t offset) with
  | .error _ => none
  | .ok t => some (Bytes.slice disk t.start t.length)

/-- The loop over the entries that are left. -/
def searchEntries (partition_entry_size start_lba : Nat) : Nat → UInt64 → (Nat → UInt8) → NameRun
  | 0, _, _ => ⟨[], .failed⟩
  | n + 1, offset, entry =>
    match diskRead abi lfs disk partition_entry_size offset with
    | none => ⟨[partition_entry_size], .failed⟩
    | some bytes =>
      if gptEntrySize < bytes.length then ⟨[partition_entry_size], .undefined⟩
      else
        let entry := Bytes.fill entry bytes
        let later :=
          searchEntries partition_entry_size start_lba n (offset + UInt64.ofNat partition_entry_size) entry
        if field entry 32 8 = 0 ∧ field entry 40 8 = 0 then ⟨partition_entry_size :: later.asked, later.result⟩
        else if field entry 32 8 = start_lba then
          ⟨[partition_entry_size], .found ((nameUnits entry).map UInt8.ofNat)⟩
        else ⟨partition_entry_size :: later.asked, later.result⟩

end

def find_partition_name (abi : Abi) (lfs : FileOffsetBits) (sys : BlockDevices) (sector_size : UInt64)
    (part_path : Str) : NameRun :=
  if '/' ∉ part_path then ⟨[], .failed⟩
  else
    match sys.get_partition_start_lba ((filename part_path).take 63) with
    | none => ⟨[], .failed⟩
    | some start_lba =>
      if sector_size / 512 = 0 then ⟨[], .undefined⟩
      else
        match (sys.get_parent_disk part_path).bind sys.openDisk with
        | none => ⟨[], .failed⟩
        | some disk =>
          match diskRead abi lfs disk gptHeaderSize sector_size with
          | none => ⟨[], .failed⟩
          | some bytes =>
            let header := Bytes.fill sys.header bytes
            if field header 0 8 ≠ gptSignature then ⟨[], .failed⟩
            else
              searchEntries abi lfs disk (field header 84 4) (start_lba / (sector_size / 512)).toNat
                (field header 80 4) (UInt64.ofNat (field header 72 8) * sector_size) sys.entry

section

variable (disk : List UInt8) (sector_size : Nat)

/-- A field of the header that the disk has in its second sector. -/
def headerField (offset count : Nat) : Nat := Bytes.decode (Bytes.slice disk (sector_size + offset) count)

def entryCount : Nat := headerField disk sector_size 80 4

def entrySize : Nat := headerField disk sector_size 84 4

def tableOffset : Nat := headerField disk sector_size 72 8 * sector_size

/-- Where slot `i` of the table starts. -/
def slotOffset (i : Nat) : Nat := tableOffset disk sector_size + entrySize disk sector_size * i

end

def entryField (entry : List UInt8) (offset count : Nat) : Nat := Bytes.decode (Bytes.slice entry offset count)

/-- The slot is in use, by its type GUID, and its partition starts at this sector. -/
def SlotStartsAt (sector : Nat) (entry : List UInt8) : Prop :=
  Bytes.slice entry 0 16 ≠ List.replicate 16 0 ∧ entryField entry 32 8 = sector

/-- The test of the loop. -/
def SlotTaken (sector : Nat) (entry : List UInt8) : Prop :=
  ¬ (entryField entry 32 8 = 0 ∧ entryField entry 40 8 = 0) ∧ entryField entry 32 8 = sector

instance (sector : Nat) (entry : List UInt8) : Decidable (SlotStartsAt sector entry) :=
  inferInstanceAs (Decidable (_ ∧ _))

instance (sector : Nat) (entry : List UInt8) : Decidable (SlotTaken sector entry) :=
  inferInstanceAs (Decidable (_ ∧ _))

/-- The name of a slot, as the units that GPT keeps. -/
def slotName (entry : List UInt8) : List Nat :=
  ((List.range 36).map fun j => entryField entry (56 + 2 * j) 2).takeWhile (· ≠ 0)

section

variable (abi : Abi) (lfs : FileOffsetBits) (disk : List UInt8) (sector_size start : Nat)

/-- The slot that a partition which starts at the 512-byte block `start` should be found in. -/
def firstMatch : Option (List UInt8) :=
  ((List.range (entryCount disk sector_size)).map fun i =>
    Bytes.slice disk (slotOffset disk sector_size i) (entrySize disk sector_size)).find?
      fun entry => SlotStartsAt (start * 512 / sector_size) entry

/-- The slot at which the loop stops, which is none where the offset of a slot is no `off_t`. -/
def firstTaken : Option (List UInt8) :=
  (((List.range (entryCount disk sector_size)).map fun i =>
    diskRead abi lfs disk gptEntrySize (UInt64.ofNat (slotOffset disk sector_size i))).find?
      fun entry => entry.all fun entry => SlotTaken (start / (sector_size / 512)) entry).join

end

/-- The name of the first slot in use that starts where the partition does, -1 where there
is none, and no read that is longer than an entry. -/
structure NameFound (disk : List UInt8) (sector_size start : Nat) (run : NameRun) : Prop where
  asked : ∀ n ∈ run.asked, n ≤ gptEntrySize
  missing : firstMatch disk sector_size start = none → run.result = .failed
  named : ∀ entry, firstMatch disk sector_size start = some entry →
    ∃ name_out, run.result = .found name_out ∧ name_out.map UInt8.toNat = slotName entry

/-- A disk with a GPT, its header and table inside of it, and a partition of it. -/
structure GptDisk (sys : BlockDevices) (sector_size : UInt64) (part_path : Str) (start : UInt64)
    (disk : List UInt8) : Prop where
  path : '/' ∈ part_path
  start : sys.get_partition_start_lba ((filename part_path).take 63) = some start
  openDisk : (sys.get_parent_disk part_path).bind sys.openDisk = some disk
  sector : 512 ≤ sector_size.toNat ∧ sector_size.toNat < 2 ^ 31
  size : disk.length < 2 ^ 63
  header : sector_size.toNat + gptHeaderSize ≤ disk.length
  signature : headerField disk sector_size.toNat 0 8 = gptSignature
  entries : ∃ k, entrySize disk sector_size.toNat = 128 * 2 ^ k
  table : slotOffset disk sector_size.toNat (entryCount disk sector_size.toNat) ≤ disk.length

section

variable {abi : Abi} {lfs : FileOffsetBits} {disk : List UInt8}

theorem readable_rdonly (device : Str) (size : Nat) : (OpenFile.mk device size O_RDONLY).readable = true := by
  have hmode : O_RDONLY &&& O_ACCMODE = O_RDONLY := by decide
  simp [OpenFile.readable, hmode]

/-- A short read inside the disk fails, or delivers all of its bytes. -/
theorem diskRead_inside {count : Nat} {offset : UInt64} (hcount : count ≤ 4096)
    (h : offset.toNat + count ≤ disk.length) :
    diskRead abi lfs disk count offset = none ∨
      ∃ bytes, diskRead abi lfs disk count offset = some bytes ∧ bytes.length = count := by
  have hmax : 4096 ≤ abi.SSIZE_MAX := by cases abi <;> decide
  have hbound : 4096 ≤ MAX_RW_COUNT := by decide
  have hreadable := readable_rdonly [] disk.length
  unfold diskRead pread
  simp only [hreadable, Bool.not_true, Bool.false_eq_true, if_false]
  by_cases hneg : lfs.off_t offset < 0
  · rw [if_pos (Or.inl hneg)]
    exact Or.inl rfl
  · rw [if_neg (by omega)]
    refine Or.inr ⟨_, rfl, ?_⟩
    have hmod := Nat.mod_le offset.toNat (2 ^ lfs.width)
    have hplace := off_t_toNat hneg
    rw [Bytes.slice_length]
    dsimp only
    omega

/-- Below 2 GiB no offset is out of range. -/
theorem diskRead_low {count : Nat} {offset : UInt64} (hcount : count ≤ 4096) (hlow : offset.toNat < 2 ^ 31)
    (h : offset.toNat + count ≤ disk.length) :
    diskRead abi lfs disk count offset = some (Bytes.slice disk offset.toNat count) := by
  have hmax : 4096 ≤ abi.SSIZE_MAX := by cases abi <;> decide
  have hbound : 4096 ≤ MAX_RW_COUNT := by decide
  have hreadable := readable_rdonly [] disk.length
  have hwidth : 2 ^ 31 ≤ 2 ^ (lfs.width - 1) ∧ 2 ^ 31 ≤ 2 ^ lfs.width := by cases lfs <;> decide
  have hsame : offset.toNat % 2 ^ lfs.width = offset.toNat := Nat.mod_eq_of_lt (by omega)
  have hneg : ¬ lfs.off_t offset < 0 := by
    rw [off_t_neg_iff, hsame]
    omega
  have hplace := off_t_toNat hneg
  unfold diskRead pread
  simp only [hreadable, Bool.not_true, Bool.false_eq_true, if_false]
  rw [if_neg (by omega)]
  dsimp only
  rw [hplace, hsame, show min (min count MAX_RW_COUNT) (disk.length - offset.toNat) = count by omega]

/-- Of an entry that was read whole, the buffer shows nothing older. -/
theorem field_fill {old : Nat → UInt8} {bytes : List UInt8} {offset count : Nat} (h : offset + count ≤ bytes.length) :
    field (Bytes.fill old bytes) offset count = entryField bytes offset count := by
  rw [field, entryField, Bytes.window_fill_of_le h]

theorem nameUnits_fill {old : Nat → UInt8} {bytes : List UInt8} (h : bytes.length = gptEntrySize) :
    nameUnits (Bytes.fill old bytes) = slotName bytes := by
  unfold nameUnits slotName
  congr 1
  apply List.map_congr_left
  intro j hj
  have hlt := List.mem_range.mp hj
  have hsize : gptEntrySize = 128 := rfl
  exact field_fill (by omega)

/-- The answer for the slot at which the loop stops. -/
def resultOf : Option (List UInt8) → NameResult
  | none => .failed
  | some entry => .found ((slotName entry).map UInt8.ofNat)

/-- One round over an entry of the right size: the read fails, the entry is the one, or the
next round follows. -/
theorem searchEntries_succ {start_lba n : Nat} {offset : UInt64} {entry : Nat → UInt8}
    (h : offset.toNat + gptEntrySize ≤ disk.length) :
    (diskRead abi lfs disk gptEntrySize offset = none ∧
      searchEntries abi lfs disk gptEntrySize start_lba (n + 1) offset entry = ⟨[gptEntrySize], .failed⟩) ∨
    ∃ bytes, diskRead abi lfs disk gptEntrySize offset = some bytes ∧
      ((SlotTaken start_lba bytes ∧ searchEntries abi lfs disk gptEntrySize start_lba (n + 1) offset entry =
        ⟨[gptEntrySize], .found ((slotName bytes).map UInt8.ofNat)⟩) ∨
      (¬ SlotTaken start_lba bytes ∧ ∃ entry', ∃ later, later =
          searchEntries abi lfs disk gptEntrySize start_lba n (offset + UInt64.ofNat gptEntrySize) entry' ∧
        searchEntries abi lfs disk gptEntrySize start_lba (n + 1) offset entry =
          ⟨gptEntrySize :: later.asked, later.result⟩)) := by
  have hentry : gptEntrySize = 128 := rfl
  have hread : diskRead abi lfs disk gptEntrySize offset = none ∨
      ∃ bytes, diskRead abi lfs disk gptEntrySize offset = some bytes ∧ bytes.length = gptEntrySize :=
    diskRead_inside (by omega) h
  rw [searchEntries]
  rcases hread with hnone | ⟨bytes, hbytes, hlength⟩
  · rw [hnone]
    exact .inl ⟨rfl, rfl⟩
  · have hfirst : field (Bytes.fill entry bytes) 32 8 = entryField bytes 32 8 := field_fill (by omega)
    have hlast : field (Bytes.fill entry bytes) 40 8 = entryField bytes 40 8 := field_fill (by omega)
    rw [hbytes]
    dsimp only
    rw [if_neg (by omega), hfirst, hlast, nameUnits_fill hlength]
    refine .inr ⟨bytes, rfl, ?_⟩
    by_cases hunused : entryField bytes 32 8 = 0 ∧ entryField bytes 40 8 = 0
    · rw [if_pos hunused]
      exact .inr ⟨fun htaken => htaken.1 hunused, _, _, rfl, rfl⟩
    · rw [if_neg hunused]
      by_cases hhere : entryField bytes 32 8 = start_lba
      · rw [if_pos hhere]
        exact .inl ⟨⟨hunused, hhere⟩, rfl⟩
      · rw [if_neg hhere]
        exact .inr ⟨fun htaken => hhere htaken.2, _, _, rfl, rfl⟩

/-- The loop over entries of the right size asks for no more than that, and stops at the
first slot that is taken or that cannot be read. -/
theorem searchEntries_spec {start_lba n : Nat} {offset : UInt64} {entry : Nat → UInt8} (hsize : disk.length < 2 ^ 63)
    (h : offset.toNat + gptEntrySize * n ≤ disk.length) :
    (∀ a ∈ (searchEntries abi lfs disk gptEntrySize start_lba n offset entry).asked, a = gptEntrySize) ∧
      (searchEntries abi lfs disk gptEntrySize start_lba n offset entry).result =
        resultOf (((List.range n).map fun i =>
          diskRead abi lfs disk gptEntrySize (UInt64.ofNat (offset.toNat + gptEntrySize * i))).find?
            fun entry => entry.all fun entry => SlotTaken start_lba entry).join := by
  have hentry : gptEntrySize = 128 := rfl
  induction n generalizing offset entry with
  | zero => exact ⟨fun a ha => absurd ha List.not_mem_nil, rfl⟩
  | succ n ih =>
    have hnext : (offset + UInt64.ofNat gptEntrySize).toNat = offset.toNat + gptEntrySize := by
      rw [UInt64.toNat_add, hentry]
      show (offset.toNat + 128) % 2 ^ 64 = _
      omega
    rw [Nat.mul_succ] at h
    have hlater := fun entry => @ih (offset + UInt64.ofNat gptEntrySize) entry (by omega)
    have hshift : ∀ i, UInt64.ofNat ((offset + UInt64.ofNat gptEntrySize).toNat + gptEntrySize * i) =
        UInt64.ofNat (offset.toNat + gptEntrySize * (i + 1)) := by
      intro i
      rw [hnext, Nat.mul_succ]
      congr 1
      omega
    have hhead : UInt64.ofNat (offset.toNat + gptEntrySize * 0) = offset := by simp
    rw [List.range_succ_eq_map, List.map_cons, List.map_map, List.find?_cons, hhead]
    simp only [hshift] at hlater
    have hround := @searchEntries_succ abi lfs disk start_lba n offset entry (by omega)
    rcases hround with ⟨hnone, hrun⟩ | ⟨bytes, hbytes, ⟨htaken, hrun⟩ | ⟨hnot, entry', later, rfl, hrun⟩⟩
    · rw [hrun, hnone]
      exact ⟨by simp, rfl⟩
    · rw [hrun, hbytes]
      simp only [Option.all_some, htaken, decide_true]
      exact ⟨by simp, rfl⟩
    · obtain ⟨hasked, hresult⟩ := hlater entry'
      rw [hrun, hbytes]
      simp only [Option.all_some, hnot, decide_false]
      exact ⟨by simpa using hasked, hresult⟩

theorem size_mem_asked {size start_lba n : Nat} {offset : UInt64} {entry : Nat → UInt8} :
    size ∈ (searchEntries abi lfs disk size start_lba (n + 1) offset entry).asked := by
  rw [searchEntries]
  split
  next => exact List.mem_singleton_self _
  next =>
    split
    next => exact List.mem_singleton_self _
    next =>
      dsimp only
      split
      next => exact List.mem_cons_self
      next =>
        split
        next => exact List.mem_singleton_self _
        next => exact List.mem_cons_self

theorem NameFound.of_result {sector_size start : Nat} {run : NameRun} {taken : Option (List UInt8)}
    (hresult : run.result = resultOf taken) :
    NameFound disk sector_size start run ↔ (∀ n ∈ run.asked, n ≤ gptEntrySize) ∧
      taken.map (fun entry => (slotName entry).map (· % 256)) = (firstMatch disk sector_size start).map slotName := by
  have hbytes : ∀ entry : List UInt8, ((slotName entry).map UInt8.ofNat).map UInt8.toNat =
      (slotName entry).map (· % 256) := by
    intro entry
    rw [List.map_map]
    apply List.map_congr_left
    intro n _
    exact UInt8.toNat_ofNat'
  constructor
  · intro h
    refine ⟨h.asked, ?_⟩
    cases hmatch : firstMatch disk sector_size start with
    | none =>
      have hfailed := hresult.symm.trans (h.missing hmatch)
      cases taken with
      | none => rfl
      | some entry => cases hfailed
    | some entry =>
      obtain ⟨name_out, hfound, hname⟩ := h.named entry hmatch
      have hgiven := hresult.symm.trans hfound
      cases taken with
      | none => cases hgiven
      | some slot =>
        cases hgiven
        rw [Option.map_some, Option.map_some, ← hname, hbytes]
  · intro h
    obtain ⟨hasked, hsame⟩ := h
    refine ⟨hasked, fun hmatch => ?_, fun entry hmatch => ?_⟩
    · rw [hmatch, Option.map_none, Option.map_eq_none_iff] at hsame
      rw [hresult, hsame]
      rfl
    · rw [hmatch, Option.map_some, Option.map_eq_some_iff] at hsame
      obtain ⟨slot, rfl, hname⟩ := hsame
      exact ⟨_, hresult, (hbytes slot).trans hname⟩

end

section

variable {sys : BlockDevices} {sector_size : UInt64} {part_path : Str} {start : UInt64} {disk : List UInt8}

theorem GptDisk.tableOffset_le (h : GptDisk sys sector_size part_path start disk) :
    tableOffset disk sector_size.toNat + entrySize disk sector_size.toNat * entryCount disk sector_size.toNat ≤
      disk.length := h.table

/-- On such a disk the search comes to the loop, with what the header says. -/
theorem GptDisk.find_partition_name_eq (abi : Abi) (lfs : FileOffsetBits)
    (h : GptDisk sys sector_size part_path start disk) :
    ∃ offset : UInt64, offset.toNat = tableOffset disk sector_size.toNat ∧
      find_partition_name abi lfs sys sector_size part_path =
        searchEntries abi lfs disk (entrySize disk sector_size.toNat) (start.toNat / (sector_size.toNat / 512))
          (entryCount disk sector_size.toNat) offset sys.entry := by
  obtain ⟨hmin, hmax⟩ := h.sector
  have hheader := h.header
  have htable := h.tableOffset_le
  have hsize := h.size
  have hentry : gptHeaderSize = 92 := rfl
  have hread : diskRead abi lfs disk gptHeaderSize sector_size =
      some (Bytes.slice disk sector_size.toNat gptHeaderSize) := diskRead_low (by omega) (by omega) hheader
  have hlength : (Bytes.slice disk sector_size.toNat gptHeaderSize).length = 92 := by
    rw [Bytes.slice_length]
    omega
  have hfield : ∀ offset count, offset + count ≤ 92 →
      field (Bytes.fill sys.header (Bytes.slice disk sector_size.toNat gptHeaderSize)) offset count =
        headerField disk sector_size.toNat offset count := by
    intro offset count hle
    rw [field_fill (by omega), entryField, Bytes.slice_slice (by omega)]
    rfl
  have hunits : sector_size / 512 ≠ 0 := by
    intro hzero
    have hnat := congrArg UInt64.toNat hzero
    rw [UInt64.toNat_div] at hnat
    change sector_size.toNat / 512 = 0 at hnat
    omega
  have hstart : (start / (sector_size / 512)).toNat = start.toNat / (sector_size.toNat / 512) := by
    rw [UInt64.toNat_div, UInt64.toNat_div]
    rfl
  refine ⟨UInt64.ofNat (headerField disk sector_size.toNat 72 8) * sector_size, ?_, ?_⟩
  · have hlba : headerField disk sector_size.toNat 72 8 < 2 ^ 64 := by
      have hlt := Bytes.decode_lt (Bytes.slice disk (sector_size.toNat + 72) 8)
      rw [Bytes.slice_length, show min 8 (disk.length - (sector_size.toNat + 72)) = 8 by omega] at hlt
      exact hlt
    rw [UInt64.toNat_mul, UInt64.toNat_ofNat_of_lt' hlba, Nat.mod_eq_of_lt]
    · rfl
    · have hle : tableOffset disk sector_size.toNat ≤ disk.length := by omega
      unfold tableOffset at hle
      omega
  · unfold find_partition_name
    rw [if_neg (not_not.mpr h.path), h.start]
    dsimp only
    rw [if_neg hunits, h.openDisk]
    dsimp only
    rw [hread]
    dsimp only
    rw [hfield 0 8 (by omega), hfield 72 8 (by omega), hfield 80 4 (by omega), hfield 84 4 (by omega), hstart,
      if_neg (not_not.mpr h.signature)]
    rfl

end

/-- The search does what it should exactly when there is nothing to search, or the entries
have the size of the buffer and the code's test and GPT agree on the name. -/
theorem partition_name_found_iff (abi : Abi) (lfs : FileOffsetBits) (sys : BlockDevices) (sector_size : UInt64)
    (part_path : Str) (start : UInt64) (disk : List UInt8) (h : GptDisk sys sector_size part_path start disk) :
    NameFound disk sector_size.toNat start.toNat (find_partition_name abi lfs sys sector_size part_path) ↔
      entryCount disk sector_size.toNat = 0 ∨
        (entrySize disk sector_size.toNat = gptEntrySize ∧
          (firstTaken abi lfs disk sector_size.toNat start.toNat).map (fun entry => (slotName entry).map (· % 256)) =
            (firstMatch disk sector_size.toNat start.toNat).map slotName) := by
  obtain ⟨offset, hoffset, hrun⟩ := h.find_partition_name_eq abi lfs
  have htable := h.tableOffset_le
  have hentry : gptEntrySize = 128 := rfl
  rw [hrun]
  rcases Nat.eq_zero_or_pos (entryCount disk sector_size.toNat) with hzero | hpos
  · refine iff_of_true ?_ (Or.inl hzero)
    have hnone : firstMatch disk sector_size.toNat start.toNat = none := by simp [firstMatch, hzero]
    rw [hzero]
    exact ⟨fun a ha => absurd ha List.not_mem_nil, fun _ => rfl, fun entry hmatch => by simp [hnone] at hmatch⟩
  rw [or_iff_right (by omega)]
  by_cases hsize : entrySize disk sector_size.toNat = gptEntrySize
  · rw [and_iff_right hsize, hsize]
    rw [hsize] at htable
    obtain ⟨hasked, hresult⟩ := @searchEntries_spec abi lfs disk (start.toNat / (sector_size.toNat / 512))
      (entryCount disk sector_size.toNat) offset sys.entry h.size (by omega)
    rw [NameFound.of_result hresult, and_iff_right fun a ha => Nat.le_of_eq (hasked a ha), firstTaken, hoffset]
    simp only [slotOffset, hsize]
  · refine iff_of_false ?_ fun hsame => hsize hsame.1
    intro hfound
    have hasked : entrySize disk sector_size.toNat ∈ (searchEntries abi lfs disk (entrySize disk sector_size.toNat)
        (start.toNat / (sector_size.toNat / 512)) (entryCount disk sector_size.toNat) offset sys.entry).asked := by
      obtain ⟨n, hn⟩ := Nat.exists_eq_succ_of_ne_zero (Nat.ne_of_gt hpos)
      rw [hn]
      exact size_mem_asked
    have hle := hfound.asked _ hasked
    obtain ⟨k, hk⟩ := h.entries
    have hone := Nat.one_le_two_pow (n := k)
    omega

/-- A disk of 512-byte sectors with a table of one entry, that of `boot` at sector 8. -/
def bootDisk (entrySize : List UInt8) (rest : Nat) : List UInt8 :=
  [List.replicate 512 0, [0x45, 0x46, 0x49, 0x20, 0x50, 0x41, 0x52, 0x54], List.replicate 64 0,
    [2, 0, 0, 0, 0, 0, 0, 0], [1, 0, 0, 0], entrySize, List.replicate 424 0, List.replicate 32 7,
    [8, 0, 0, 0, 0, 0, 0, 0], [9, 0, 0, 0, 0, 0, 0, 0], List.replicate 8 0, [0x62, 0, 0x6F, 0, 0x6F, 0, 0x74, 0],
    List.replicate (64 + rest) 0].flatten

def oneDisk (disk : List UInt8) : BlockDevices where
  start _ := some 8
  realpath _ := some "/sys/devices/sda"
  openDisk _ := some disk
  header _ := 0
  entry _ := 0

theorem bootDisk_gptDisk : GptDisk (oneDisk (bootDisk [128, 0, 0, 0] 0)) 512 "/dev/block/sda1" 8
    (bootDisk [128, 0, 0, 0] 0) where
  path := by decide
  start := rfl
  openDisk := by decide +kernel
  sector := by decide
  size := by decide +kernel
  header := by decide +kernel
  signature := by decide +kernel
  entries := ⟨0, by decide +kernel⟩
  table := by decide +kernel

theorem partition_name_found_boot :
    NameFound (bootDisk [128, 0, 0, 0] 0) 512 8
        (find_partition_name .arm64_v8a .bits64 (oneDisk (bootDisk [128, 0, 0, 0] 0)) 512 "/dev/block/sda1") ↔
      entryCount (bootDisk [128, 0, 0, 0] 0) 512 = 0 ∨
        (entrySize (bootDisk [128, 0, 0, 0] 0) 512 = gptEntrySize ∧
          (firstTaken .arm64_v8a .bits64 (bootDisk [128, 0, 0, 0] 0) 512 8).map
              (fun entry => (slotName entry).map (· % 256)) =
            (firstMatch (bootDisk [128, 0, 0, 0] 0) 512 8).map slotName) :=
  partition_name_found_iff .arm64_v8a .bits64 (oneDisk (bootDisk [128, 0, 0, 0] 0)) 512 "/dev/block/sda1" 8
    (bootDisk [128, 0, 0, 0] 0) bootDisk_gptDisk

/-- Entries of 256 bytes are read into a buffer of 128. -/
theorem wide_entry_overruns :
    GptDisk (oneDisk (bootDisk [0, 1, 0, 0] 128)) 512 "/dev/block/sda1" 8 (bootDisk [0, 1, 0, 0] 128) ∧
      find_partition_name .arm64_v8a .bits64 (oneDisk (bootDisk [0, 1, 0, 0] 128)) 512 "/dev/block/sda1" =
        ⟨[256], .undefined⟩ ∧
      ¬ NameFound (bootDisk [0, 1, 0, 0] 128) 512 8
        (find_partition_name .arm64_v8a .bits64 (oneDisk (bootDisk [0, 1, 0, 0] 128)) 512 "/dev/block/sda1") := by
  have hrun : find_partition_name .arm64_v8a .bits64 (oneDisk (bootDisk [0, 1, 0, 0] 128)) 512 "/dev/block/sda1" =
      ⟨[256], .undefined⟩ := by decide +kernel
  refine ⟨⟨by decide, rfl, by decide +kernel, by decide, by decide +kernel, by decide +kernel, by decide +kernel,
    ⟨1, by decide +kernel⟩, by decide +kernel⟩, hrun, ?_⟩
  intro h
  rw [hrun] at h
  exact absurd (h.asked 256 (List.mem_singleton_self _)) (by decide)

end PartitionManager
