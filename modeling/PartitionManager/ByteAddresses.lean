import PartitionManager.Flags

namespace PartitionManager

/-- `openpart_get_sector_size`, with `UINT64_MAX` as its failure answer. The handle
keeps the sector size that it was opened with. -/
def openpart_get_sector_size (sectorSize : OpenPart → Nat) (op : Option OpenPart) : Nat :=
  match op with
  | none => 2 ^ 64 - 1
  | some op => if op.load_info then sectorSize op % 2 ^ 64 else 2 ^ 64 - 1

def GPTPart.GetFirstLBA (part : GPTPart) : Nat := part.firstLBA % 2 ^ 64

def GPTPart.GetLastLBA (part : GPTPart) : Nat := part.lastLBA % 2 ^ 64

namespace Partition

section

variable (abi : Abi) (sectorSize : OpenPart → Nat) (p : Partition)

def start : Outcome Nat :=
  if p.isLogical then raise ⟨"Cannot return start address: Is logical partition", 1, false⟩
  else .ok (abi.toSize (toUInt64 (p.gptPart.GetFirstLBA * openpart_get_sector_size sectorSize p.op)))

/-- `end` in the source. -/
def endAddress : Outcome Nat :=
  if p.isLogical then raise ⟨"Cannot return end address: Is logical partition", 1, false⟩
  else
    .ok (abi.toSize (toUInt64 (toUInt64 (p.gptPart.GetLastLBA + 1) * openpart_get_sector_size sectorSize p.op)))

/-- A GPT partition on its device: the entry runs from `first` to `last` in sectors of
`s` bytes, and the device has `n` bytes. -/
structure OnDevice (op : OpenPart) (n first last s : Nat) : Prop where
  normal : p.isLogical = false
  handle : p.op = some op
  size : op.size = n ∧ n < 2 ^ 64
  sector : sectorSize op = s
  entry : p.gptPart.firstLBA = first ∧ p.gptPart.lastLBA = last ∧ first ≤ last ∧ last < 2 ^ 64
  fits : (last + 1) * s < 2 ^ 64

/-- The three byte counts are the exact ones, and add up if the device is the entry. -/
structure ExactBytes (fs : FileSystem) (n first last s : Nat) : Prop where
  size : p.size abi fs = .ok n
  start : p.start abi sectorSize = .ok (first * s)
  endAddress : p.endAddress abi sectorSize = .ok ((last + 1) * s)
  total : n = (last - first + 1) * s → ∃ a b c, p.start abi sectorSize = .ok a ∧ p.size abi fs = .ok b ∧
    p.endAddress abi sectorSize = .ok c ∧ a + b = c

/-- The handle can be read, its size is not the failure answer, and device and entry
end where the return type can still say so. -/
structure Addressable (abi : Abi) (op : OpenPart) (n last s : Nat) : Prop where
  readable : op.load_info = true
  sentinel : n ≠ 2 ^ 64 - 1
  device : n < 2 ^ abi.bits
  entry : (last + 1) * s < 2 ^ abi.bits

end

variable {abi : Abi} {fs : FileSystem} {sectorSize : OpenPart → Nat} {p : Partition} {op : OpenPart}
  {n first last s : Nat}

theorem toSize_eq_iff {m : Nat} : abi.toSize m = m ↔ m < 2 ^ abi.bits := by
  constructor
  · intro h
    have hpos : (0 : Int) < 2 ^ abi.bits := Int.pow_pos (by decide)
    have hlt := Int.emod_lt_of_pos (m : Int) hpos
    have hnonneg := Int.emod_nonneg (m : Int) (Int.ne_of_gt hpos)
    have hcast : ((2 ^ abi.bits : Nat) : Int) = 2 ^ abi.bits := by norm_cast
    unfold Abi.toSize at h
    omega
  · exact Abi.toSize_natCast

theorem size_eq_iff (abi : Abi) (fs : FileSystem) (h : OnDevice sectorSize p op n first last s) :
    p.size abi fs = .ok n ↔ op.load_info = true ∧ n ≠ 2 ^ 64 - 1 ∧ n < 2 ^ abi.bits := by
  obtain ⟨hsize, hn⟩ := h.size
  unfold size openpart_get_size
  rw [h.handle]
  cases hload : op.load_info with
  | false =>
    refine iff_of_false (fun heq => ?_) (fun hall => nomatch hall.1)
    simp only [hload, Bool.false_eq_true, if_false, if_true] at heq
    cases heq
  | true =>
    have hvalue : op.size % 2 ^ 64 = n := by omega
    simp only [hload, if_true, hvalue, true_and]
    by_cases hmax : n = 2 ^ 64 - 1
    · rw [if_pos hmax]
      exact iff_of_false (fun heq => nomatch heq) fun hall => hall.1 hmax
    · rw [if_neg hmax, Except.ok.injEq, toSize_eq_iff]
      exact (and_iff_right hmax).symm

/-- With a readable handle, the products do not wrap in 64 bits. -/
theorem addresses_of_readable (abi : Abi) (h : OnDevice sectorSize p op n first last s) (hload : op.load_info = true) :
    p.start abi sectorSize = .ok (abi.toSize (first * s : Nat)) ∧
      p.endAddress abi sectorSize = .ok (abi.toSize ((last + 1) * s : Nat)) := by
  obtain ⟨hfirst, hlast, hle, hlba⟩ := h.entry
  have hfits := h.fits
  have hs : s < 2 ^ 64 := by
    have hone : 1 * s ≤ (last + 1) * s := Nat.mul_le_mul_right s (by omega)
    omega
  have hsector : openpart_get_sector_size sectorSize p.op = s := by
    unfold openpart_get_sector_size
    rw [h.handle]
    simp only [hload, if_true, h.sector]
    omega
  have hmul : first * s ≤ (last + 1) * s := Nat.mul_le_mul_right s (by omega)
  have hstart : toUInt64 (p.gptPart.GetFirstLBA * s) = first * s := by
    have hvalue : p.gptPart.GetFirstLBA = first := by
      unfold GPTPart.GetFirstLBA
      omega
    rw [hvalue]
    exact_mod_cast toUInt64_natCast (show first * s < 2 ^ 64 by omega)
  have hend : toUInt64 (toUInt64 (p.gptPart.GetLastLBA + 1) * s) = (last + 1) * s := by
    rcases Nat.eq_zero_or_pos s with rfl | hpos
    · rw [Nat.mul_zero, Int.natCast_zero, mul_zero]
      rfl
    · have hbound : (last + 1) * 1 ≤ (last + 1) * s := Nat.mul_le_mul_left (last + 1) hpos
      have hvalue : toUInt64 (p.gptPart.GetLastLBA + 1) = last + 1 := by
        unfold GPTPart.GetLastLBA toUInt64
        omega
      rw [hvalue]
      exact_mod_cast toUInt64_natCast hfits
  constructor
  · unfold start
    rw [h.normal, hsector]
    simp only [Bool.false_eq_true, if_false, hstart]
  · unfold endAddress
    rw [h.normal, hsector]
    simp only [Bool.false_eq_true, if_false, hend]

/-- Sizes and byte addresses are exact just when the return type can hold them. -/
theorem byte_addresses_exact_iff (h : OnDevice sectorSize p op n first last s) :
    ExactBytes abi sectorSize p fs n first last s ↔ Addressable abi op n last s := by
  constructor
  · intro hexact
    obtain ⟨hload, hmax, hdevice⟩ := (size_eq_iff abi fs h).mp hexact.size
    have hend := (addresses_of_readable abi h hload).2.symm.trans hexact.endAddress
    exact ⟨hload, hmax, hdevice, toSize_eq_iff.mp (Except.ok.inj hend)⟩
  · intro hfit
    obtain ⟨_, _, hle, _⟩ := h.entry
    have hsize := (size_eq_iff abi fs h).mpr ⟨hfit.readable, hfit.sentinel, hfit.device⟩
    obtain ⟨hstart, hend⟩ := addresses_of_readable abi h hfit.readable
    have hmul : first * s ≤ (last + 1) * s := Nat.mul_le_mul_right s (by omega)
    have hentry := hfit.entry
    rw [Abi.toSize_natCast (show first * s < 2 ^ abi.bits by omega)] at hstart
    rw [Abi.toSize_natCast hentry] at hend
    refine ⟨hsize, hstart, hend, fun htotal => ⟨_, _, _, hstart, hsize, hend, ?_⟩⟩
    have hsectors : first + (last - first + 1) = last + 1 := by omega
    rw [htotal, ← Nat.add_mul, hsectors]

/-- `userdata`, 5 GiB from sector 2048 on. -/
def userdataPart : GPTPart := ⟨"userdata", true, 1, 2048, 10487807⟩

def userdataHandle : OpenPart := ⟨"/dev/block/sda9", 5368709120, true⟩

def userdata : Partition := ⟨"/dev/block/sda", [], 8, userdataPart, some userdataHandle, false⟩

theorem userdata_onDevice : OnDevice (fun _ => 512) userdata userdataHandle 5368709120 2048 10487807 512 :=
  ⟨rfl, rfl, ⟨rfl, by omega⟩, rfl, ⟨rfl, rfl, by omega, by omega⟩, by omega⟩

theorem byte_addresses_exact_userdata :
    ExactBytes .arm64_v8a (fun _ => 512) userdata bootFileSystem 5368709120 2048 10487807 512 ↔
      Addressable .arm64_v8a userdataHandle 5368709120 10487807 512 :=
  byte_addresses_exact_iff userdata_onDevice

/-- On armeabi-v7a its size and its end are those of a partition of 1 GiB. -/
theorem userdata_wraps : userdata.size .armeabi_v7a bootFileSystem = .ok 1073741824 ∧
    userdata.start .armeabi_v7a (fun _ => 512) = .ok 1048576 ∧
    userdata.endAddress .armeabi_v7a (fun _ => 512) = .ok 1074790400 ∧
    ¬ ExactBytes .armeabi_v7a (fun _ => 512) userdata bootFileSystem 5368709120 2048 10487807 512 := by
  refine ⟨rfl, rfl, rfl, fun h => ?_⟩
  have hsize := h.size
  cases hsize

end Partition

end PartitionManager
