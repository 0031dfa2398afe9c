import PartitionManager.OpenPart

namespace PartitionManager

variable (abi : Abi) (lfs : FileOffsetBits) (files : FdTable)

def openpart_read_sector (op : OpenPartT) (sector : UInt64) (count : Nat) : Except Errno Transfer :=
  let offset := sector * op.sector_size
  openpart_read abi lfs files op (abi.toSize (UInt64.ofNat count * op.sector_size).toNat) offset

def openpart_write_sector (op : OpenPartT) (sector : UInt64) (count : Nat) : Except Errno Transfer :=
  if op.flags &&& OP_RDWR = 0 then .error EACCES
  else
    let sector_size := op.sector_size
    let offset := sector * sector_size
    openpart_write abi lfs files op (abi.toSize (UInt64.ofNat count * sector_size).toNat) offset

/-- The call reads or writes byte `i` of the device. -/
def Accesses (result : Except Errno Transfer) (i : Nat) : Prop :=
  ∃ t, result = .ok t ∧ t.start ≤ i ∧ i < t.start + t.length

/-- A call for the bytes from `first` to `last`: on a device of `n` bytes that
holds them it accesses them all, and it never accesses another. -/
structure Addresses (result : Except Errno Transfer) (first last n : Nat) : Prop where
  all : last ≤ n → ∀ i, first ≤ i → i < last → Accesses result i
  only : ∀ i, Accesses result i → first ≤ i ∧ i < last

/-- The offset fits in `off_t`, or else the wrapped request is empty, refused or
past the end of the device; and a request inside the device is one that a single call
may and can serve. -/
structure SectorsFit (abi : Abi) (lfs : FileOffsetBits) (permitted : Prop) (start length n : Nat) : Prop where
  inside : start + length ≤ n → length = 0 ∨ permitted ∧ length ≤ MAX_RW_COUNT ∧ start < 2 ^ (lfs.width - 1)
  outside : n < start + length → start < 2 ^ (lfs.width - 1) ∨ ¬ permitted ∨
    length % 2 ^ abi.bits = 0 ∨ abi.SSIZE_MAX < length % 2 ^ abi.bits ∨
    2 ^ (lfs.width - 1) ≤ start % 2 ^ lfs.width ∨ n ≤ start % 2 ^ lfs.width

/-- What a request that wraps to a start modulo the width of `off_t`, and to a length
modulo that of `size_t`, accesses on a device of `n` bytes. -/
def Reaches (abi : Abi) (lfs : FileOffsetBits) (permitted : Prop) (start length n i : Nat) : Prop :=
  permitted ∧ start % 2 ^ lfs.width < 2 ^ (lfs.width - 1) ∧ length % 2 ^ abi.bits ≤ abi.SSIZE_MAX ∧
    start % 2 ^ lfs.width ≤ i ∧
    i < start % 2 ^ lfs.width + min (min (length % 2 ^ abi.bits) MAX_RW_COUNT) (n - start % 2 ^ lfs.width)

variable {abi lfs files} {op : OpenPartT} {file : OpenFile} {sector : UInt64} {count : Nat}

theorem off_t_neg_iff (offset : UInt64) :
    lfs.off_t offset < 0 ↔ 2 ^ (lfs.width - 1) ≤ offset.toNat % 2 ^ lfs.width := by
  unfold FileOffsetBits.off_t
  have hlt : offset.toNat % 2 ^ lfs.width < 2 ^ lfs.width := Nat.mod_lt _ (Nat.two_pow_pos _)
  have hcast : ((2 ^ lfs.width : Nat) : Int) = 2 ^ lfs.width := by norm_cast
  split
  next hfits => omega
  next hbig => omega

theorem off_t_toNat {offset : UInt64} (h : ¬ lfs.off_t offset < 0) :
    (lfs.off_t offset).toNat = offset.toNat % 2 ^ lfs.width := by
  rw [off_t_neg_iff] at h
  unfold FileOffsetBits.off_t
  rw [if_pos (by omega)]
  exact Int.toNat_natCast _

theorem accesses_transfer {permitted : Bool} {n length : Nat} {offset : UInt64} (i : Nat) :
    Accesses (if !permitted then .error EBADF
        else if lfs.off_t offset < 0 ∨ abi.SSIZE_MAX < length then .error EINVAL
        else .ok ⟨(lfs.off_t offset).toNat, min (min length MAX_RW_COUNT) (n - (lfs.off_t offset).toNat)⟩) i ↔
      permitted = true ∧ offset.toNat % 2 ^ lfs.width < 2 ^ (lfs.width - 1) ∧ length ≤ abi.SSIZE_MAX ∧
        offset.toNat % 2 ^ lfs.width ≤ i ∧
        i < offset.toNat % 2 ^ lfs.width + min (min length MAX_RW_COUNT) (n - offset.toNat % 2 ^ lfs.width) := by
  unfold Accesses
  cases permitted with
  | false => simp
  | true =>
    by_cases hrefused : lfs.off_t offset < 0 ∨ abi.SSIZE_MAX < length
    · rw [if_neg (by simp), if_pos hrefused]
      rw [off_t_neg_iff] at hrefused
      refine iff_of_false (fun ⟨_, h, _⟩ => nomatch h) ?_
      intro h
      omega
    · rw [if_neg (by simp), if_neg hrefused, off_t_toNat fun h => hrefused (Or.inl h)]
      rw [off_t_neg_iff] at hrefused
      constructor
      · intro h
        obtain ⟨t, ht, hlo, hhi⟩ := h
        cases ht
        exact ⟨rfl, by omega, by omega, hlo, hhi⟩
      · intro h
        exact ⟨_, rfl, h.2.2.2.1, h.2.2.2.2⟩

theorem offset_toNat (sector sector_size : UInt64) :
    (sector * sector_size).toNat % 2 ^ lfs.width = sector.toNat * sector_size.toNat % 2 ^ lfs.width := by
  rw [UInt64.toNat_mul]
  cases lfs with
  | bits32 => exact Nat.mod_mod_of_dvd _ (by decide)
  | bits64 => exact Nat.mod_mod _ _

theorem count_toSize (count : Nat) (sector_size : UInt64) :
    abi.toSize (UInt64.ofNat count * sector_size).toNat = count * sector_size.toNat % 2 ^ abi.bits := by
  have hmod : (UInt64.ofNat count * sector_size).toNat = count * sector_size.toNat % 2 ^ 64 := by
    rw [UInt64.toNat_mul, UInt64.toNat_ofNat', Nat.mod_mul_mod]
  have hsize : abi.toSize ((UInt64.ofNat count * sector_size).toNat : Nat) =
      (UInt64.ofNat count * sector_size).toNat % 2 ^ abi.bits := by
    unfold Abi.toSize
    norm_cast
  rw [hsize, hmod]
  cases abi with
  | arm64_v8a => exact Nat.mod_mod _ _
  | armeabi_v7a => exact Nat.mod_mod_of_dvd _ (by decide)

/-- Wrapped or not, the request is addressed right exactly if it fits. -/
theorem reaches_exact_iff {permitted : Prop} {start length n : Nat} :
    ((start + length ≤ n → ∀ i, start ≤ i → i < start + length → Reaches abi lfs permitted start length n i) ∧
        ∀ i, Reaches abi lfs permitted start length n i → start ≤ i ∧ i < start + length) ↔
      SectorsFit abi lfs permitted start length n := by
  have hmax : MAX_RW_COUNT ≤ abi.SSIZE_MAX ∧ abi.SSIZE_MAX < 2 ^ abi.bits := by
    cases abi <;> decide
  have hwidth : 2 ^ lfs.width = 2 * 2 ^ (lfs.width - 1) := by
    cases lfs <;> decide
  have hfits : start < 2 ^ (lfs.width - 1) → start % 2 ^ lfs.width = start := by
    intro h
    exact Nat.mod_eq_of_lt (by omega)
  have hlength : length % 2 ^ abi.bits ≤ length := Nat.mod_le _ _
  have hstart : start % 2 ^ lfs.width ≤ start := Nat.mod_le _ _
  unfold Reaches
  constructor
  · intro h
    obtain ⟨hall, honly⟩ := h
    refine ⟨?_, ?_⟩
    · intro hin
      by_cases hempty : length = 0
      · exact Or.inl hempty
      · have hfirst := hall hin start (Nat.le_refl _) (by omega)
        have hlast := hall hin (start + length - 1) (by omega) (by omega)
        have hlow := honly (start % 2 ^ lfs.width)
          ⟨hfirst.1, hfirst.2.1, hfirst.2.2.1, Nat.le_refl _, by omega⟩
        exact Or.inr ⟨hfirst.1, by omega, by omega⟩
    · intro hout
      by_contra hbad
      simp only [not_or, not_not, not_le, not_lt] at hbad
      obtain ⟨hbig, hpermitted, hsome, hsize, hoff, hdev⟩ := hbad
      have hlow := honly (start % 2 ^ lfs.width)
        ⟨hpermitted, hoff, hsize, Nat.le_refl _, by
          have hpos : 0 < MAX_RW_COUNT := by decide
          omega⟩
      omega
  · intro h
    refine ⟨?_, ?_⟩
    · intro hin i hlo hhi
      rcases h.inside hin with hempty | ⟨hpermitted, hcap, hoff⟩
      · omega
      · have heq := hfits hoff
        have hmod : length % 2 ^ abi.bits = length := Nat.mod_eq_of_lt (by omega)
        exact ⟨hpermitted, by omega, by omega, by omega, by omega⟩
    · intro i hi
      obtain ⟨hpermitted, hoff, hsize, hlo, hhi⟩ := hi
      by_cases hbig : start < 2 ^ (lfs.width - 1)
      · have heq := hfits hbig
        omega
      · exfalso
        by_cases hin : start + length ≤ n
        · rcases h.inside hin with hempty | ⟨_, _, hsmall⟩
          · rw [hempty, Nat.zero_mod] at hhi
            omega
          · exact hbig hsmall
        · rcases h.outside (by omega) with h | h | h | h | h | h
          · exact hbig h
          · exact h hpermitted
          all_goals omega

theorem accesses_pread (hfile : files op.fd = some file) (start length : Nat) (i : Nat) {offset : UInt64}
    (hoffset : offset.toNat % 2 ^ lfs.width = start % 2 ^ lfs.width) :
    Accesses (pread abi files op.fd (length % 2 ^ abi.bits) (lfs.off_t offset)) i ↔
      Reaches abi lfs (op.permitsRead files) start length file.size i := by
  have hpermits : op.permitsRead files ↔ file.readable = true := by
    unfold OpenPartT.permitsRead
    simp [hfile]
  unfold pread Reaches
  rw [hfile, hpermits, ← hoffset]
  exact accesses_transfer i

theorem accesses_pwrite (hfile : files op.fd = some file) (start length : Nat) (i : Nat) {offset : UInt64}
    (hoffset : offset.toNat % 2 ^ lfs.width = start % 2 ^ lfs.width) (hflag : op.flags &&& OP_RDWR ≠ 0) :
    Accesses (pwrite abi files op.fd (length % 2 ^ abi.bits) (lfs.off_t offset)) i ↔
      Reaches abi lfs (op.permitsWrite files) start length file.size i := by
  have hpermits : op.permitsWrite files ↔ file.writable = true := by
    unfold OpenPartT.permitsWrite
    simp [hfile, hflag]
  unfold Reaches
  rw [hpermits, ← hoffset]
  refine Iff.trans ?_ (accesses_transfer i)
  unfold pwrite
  rw [hfile]
  dsimp only
  split
  next => exact Iff.rfl
  next =>
    split
    next => exact Iff.rfl
    next =>
      -- past the end there is an error instead of an empty transfer
      split
      next hend =>
        refine iff_of_false (fun ⟨_, h, _⟩ => nomatch h) ?_
        intro h
        obtain ⟨t, ht, hlo, hhi⟩ := h
        cases ht
        dsimp only at hlo hhi
        omega
      next => exact Iff.rfl

theorem addresses_iff {permitted : Prop} {result : Except Errno Transfer} {start length n : Nat}
    (h : ∀ i, Accesses result i ↔ Reaches abi lfs permitted start length n i) :
    Addresses result start (start + length) n ↔ SectorsFit abi lfs permitted start length n := by
  rw [← reaches_exact_iff]
  simp only [← h]
  exact ⟨fun h => ⟨h.all, h.only⟩, fun h => ⟨h.1, h.2⟩⟩

/-- Both sector calls address their sectors exactly if the request fits. -/
theorem sectors_addressed_iff (abi : Abi) (lfs : FileOffsetBits) (sector : UInt64) (count : Nat)
    (hfile : files op.fd = some file) :
    (Addresses (openpart_read_sector abi lfs files op sector count) (sector.toNat * op.sector_size.toNat)
        (sector.toNat * op.sector_size.toNat + count * op.sector_size.toNat) file.size ↔
      SectorsFit abi lfs (op.permitsRead files) (sector.toNat * op.sector_size.toNat)
        (count * op.sector_size.toNat) file.size) ∧
    (Addresses (openpart_write_sector abi lfs files op sector count) (sector.toNat * op.sector_size.toNat)
        (sector.toNat * op.sector_size.toNat + count * op.sector_size.toNat) file.size ↔
      SectorsFit abi lfs (op.permitsWrite files) (sector.toNat * op.sector_size.toNat)
        (count * op.sector_size.toNat) file.size) := by
  refine ⟨addresses_iff ?_, addresses_iff ?_⟩
  · intro i
    unfold openpart_read_sector openpart_read
    rw [count_toSize]
    exact accesses_pread hfile _ _ i (offset_toNat _ _)
  · intro i
    unfold openpart_write_sector openpart_write
    by_cases hflag : op.flags &&& OP_RDWR = 0
    · rw [if_pos hflag]
      refine iff_of_false (fun ⟨_, h, _⟩ => nomatch h) ?_
      intro h
      exact h.1.1 hflag
    · rw [if_neg hflag, if_neg hflag, count_toSize]
      exact accesses_pwrite hfile _ _ i (offset_toNat _ _) hflag

/-- A handle for reading and writing, on a disk of 1 GiB with sectors of 512 bytes. -/
def diskHandle : OpenPartT := { fd := 5, flags := OP_RDWR, sector_size := 512 }

def diskFiles : FdTable := fun fd => if fd = 5 then some ⟨"/dev/block/sda", 0x40000000, O_RDWR⟩ else none

theorem sectors_addressed_disk :
    (Addresses (openpart_read_sector .arm64_v8a .bits64 diskFiles diskHandle 3 2)
        ((3 : UInt64).toNat * diskHandle.sector_size.toNat)
        ((3 : UInt64).toNat * diskHandle.sector_size.toNat + 2 * diskHandle.sector_size.toNat) 0x40000000 ↔
      SectorsFit .arm64_v8a .bits64 (diskHandle.permitsRead diskFiles)
        ((3 : UInt64).toNat * diskHandle.sector_size.toNat) (2 * diskHandle.sector_size.toNat) 0x40000000) ∧
    (Addresses (openpart_write_sector .arm64_v8a .bits64 diskFiles diskHandle 3 2)
        ((3 : UInt64).toNat * diskHandle.sector_size.toNat)
        ((3 : UInt64).toNat * diskHandle.sector_size.toNat + 2 * diskHandle.sector_size.toNat) 0x40000000 ↔
      SectorsFit .arm64_v8a .bits64 (diskHandle.permitsWrite diskFiles)
        ((3 : UInt64).toNat * diskHandle.sector_size.toNat) (2 * diskHandle.sector_size.toNat) 0x40000000) :=
  sectors_addressed_iff .arm64_v8a .bits64 3 2 (rfl : diskFiles diskHandle.fd = some ⟨"/dev/block/sda", 0x40000000, O_RDWR⟩)

/-- Sector 2^55 is written at the start of the disk. -/
theorem far_sector_hits_start :
    openpart_write_sector .arm64_v8a .bits64 diskFiles diskHandle 0x80000000000000 1 = .ok ⟨0, 512⟩ ∧
      ¬ Addresses (openpart_write_sector .arm64_v8a .bits64 diskFiles diskHandle 0x80000000000000 1)
        (0x80000000000000 * 512) (0x80000000000000 * 512 + 1 * 512) 0x40000000 := by
  have hwrite : openpart_write_sector .arm64_v8a .bits64 diskFiles diskHandle 0x80000000000000 1 = .ok ⟨0, 512⟩ := by
    rfl
  refine ⟨hwrite, ?_⟩
  intro h
  have hbyte := h.only 0 ⟨⟨0, 512⟩, hwrite, Nat.le_refl _, by decide⟩
  omega

end PartitionManager
