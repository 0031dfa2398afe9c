import PartitionManager.GptEntries
import PartitionManager.Library.Utf16
import PartitionManager.Partition

namespace PartitionManager

/-- Bytes as C++ text. -/
def bytesText (bytes : List UInt8) : Str := bytes.map fun b => Char.ofNat b.toNat

/-- `openpart_get_part_name` of a handle, given by what `path_from_fd` says of its descriptor.
The name is what stands in the buffer up to its first zero byte. -/
def openpart_get_part_name (abi : Abi) (lfs : FileOffsetBits) (sys : BlockDevices) (sector_size : UInt64)
    (op : Option (Option Str)) : Outcome (Option Str) :=
  match op with
  | none => .ok none
  | some none => .ok none
  | some (some path) =>
    match (find_partition_name abi lfs sys sector_size path).result with
    | .failed => .ok none
    | .found name_out => .ok (some (bytesText (name_out.takeWhile (· ≠ 0))))
    | .undefined => .error (.undefined .indexOutOfRange)

/-- A slot of a GPT as both libraries see it: the search of libopenpart for the partition stops
at this slot, and gptfdisk describes it by the UTF-8 form of its name. -/
structure NamedSlot (abi : Abi) (lfs : FileOffsetBits) where
  sys : BlockDevices
  sector_size : UInt64
  part_path : Str
  start : UInt64
  disk : List UInt8
  entry : List UInt8
  partition : Partition
  gpt : GptDisk sys sector_size part_path start disk
  size : entrySize disk sector_size.toNat = gptEntrySize
  taken : firstTaken abi lfs disk sector_size.toNat start.toNat = some entry
  normal : partition.isLogical = false
  description : partition.gptPart.GetDescription = bytesText (Utf16.toUtf8 (slotName entry))

section

variable {abi : Abi} {lfs : FileOffsetBits}

/-- What libopenpart calls the partition. -/
def NamedSlot.decoded (slot : NamedSlot abi lfs) : Outcome (Option Str) :=
  openpart_get_part_name abi lfs slot.sys slot.sector_size (some (some slot.part_path))

/-- Both libraries give each slot one name, and slots of different names keep them apart. -/
structure NamesAgree (slots : List (NamedSlot abi lfs)) : Prop where
  same : ∀ slot ∈ slots, slot.decoded = .ok (some slot.partition.name)
  distinct : ∀ slot ∈ slots, ∀ other ∈ slots, slotName slot.entry ≠ slotName other.entry →
    slot.decoded ≠ other.decoded

theorem bytesText_inj {xs ys : List UInt8} : bytesText xs = bytesText ys ↔ xs = ys := by
  refine ⟨fun h => List.map_injective_iff.mpr (fun a b hab => ?_) h, fun h => h ▸ rfl⟩
  have hvalue : ∀ b : UInt8, (Char.ofNat b.toNat).toNat = b.toNat := by
    intro b
    have hlt := b.toNat_lt
    exact Utf16.toNat_ofNat (Or.inl (by omega))
  have hnat : (Char.ofNat a.toNat).toNat = (Char.ofNat b.toNat).toNat := congrArg Char.toNat hab
  rw [hvalue, hvalue] at hnat
  exact UInt8.toNat_inj.mp hnat

theorem zero_not_mem_slotName (entry : List UInt8) : 0 ∉ slotName entry := by
  intro hzero
  simpa using List.mem_takeWhile_imp hzero

namespace NamedSlot

variable (slot : NamedSlot abi lfs)

/-- The name that libopenpart gives is the low bytes of the units, up to the first that is zero. -/
theorem decoded_eq :
    slot.decoded = .ok (some (bytesText (((slotName slot.entry).map UInt8.ofNat).takeWhile (· ≠ 0)))) := by
  obtain ⟨offset, hoffset, hrun⟩ := slot.gpt.find_partition_name_eq abi lfs
  have htable := slot.gpt.tableOffset_le
  have htaken := slot.taken
  rw [slot.size] at htable hrun
  have hsearch := (@searchEntries_spec abi lfs slot.disk (slot.start.toNat / (slot.sector_size.toNat / 512))
    (entryCount slot.disk slot.sector_size.toNat) offset slot.sys.entry slot.gpt.size (by omega)).2
  have hfirst : resultOf (firstTaken abi lfs slot.disk slot.sector_size.toNat slot.start.toNat) =
      .found ((slotName slot.entry).map UInt8.ofNat) := by
    rw [htaken]
    rfl
  simp only [firstTaken, slotOffset, slot.size] at hfirst
  rw [hoffset, hfirst] at hsearch
  unfold decoded openpart_get_part_name
  dsimp only
  rw [hrun, hsearch]

theorem name_eq : slot.partition.name = bytesText (Utf16.toUtf8 (slotName slot.entry)) := by
  unfold Partition.name
  rw [slot.normal, if_neg (by decide), slot.description]

/-- For one slot the names are the same just if its name is ASCII. -/
theorem decoded_eq_name_iff : slot.decoded = .ok (some slot.partition.name) ↔ ∀ u ∈ slotName slot.entry, u < 0x80 := by
  have hzero := zero_not_mem_slotName slot.entry
  rw [decoded_eq, name_eq, Except.ok.injEq, Option.some.injEq, bytesText_inj]
  exact Utf16.lowBytes_eq_iff hzero

end NamedSlot

/-- The two ways to a name agree on slots just if all their names are ASCII. -/
theorem names_agree_iff (slots : List (NamedSlot abi lfs)) :
    NamesAgree slots ↔ ∀ slot ∈ slots, ∀ u ∈ slotName slot.entry, u < 0x80 := by
  constructor
  · intro h slot hslot
    exact slot.decoded_eq_name_iff.mp (h.same slot hslot)
  · intro hascii
    have hsame : ∀ slot ∈ slots, slot.decoded = .ok (some slot.partition.name) :=
      fun slot hslot => slot.decoded_eq_name_iff.mpr (hascii slot hslot)
    refine ⟨hsame, fun slot hslot other hother hne heq => hne ?_⟩
    rw [hsame slot hslot, hsame other hother, slot.name_eq, other.name_eq, Except.ok.injEq, Option.some.injEq,
      bytesText_inj] at heq
    exact Utf16.ascii_inj (hascii slot hslot) (hascii other hother) heq

end

/-- A slot in use that starts at sector `first`. -/
def gptSlot (first : UInt8) (name : List UInt8) : List UInt8 :=
  [List.replicate 32 7, [first, 0, 0, 0, 0, 0, 0, 0], [first + 1, 0, 0, 0, 0, 0, 0, 0], List.replicate 8 0, name,
    List.replicate (72 - name.length) 0].flatten

/-- The slots of `a` and of `š`, whose unit ends in the same byte. -/
def plainSlot : List UInt8 := gptSlot 40 [0x61, 0]

def caronSlot : List UInt8 := gptSlot 48 [0x61, 1]

def twinDisk : List UInt8 :=
  [List.replicate 512 0, [0x45, 0x46, 0x49, 0x20, 0x50, 0x41, 0x52, 0x54], List.replicate 64 0,
    [2, 0, 0, 0, 0, 0, 0, 0], [2, 0, 0, 0], [128, 0, 0, 0], List.replicate 424 0, plainSlot, caronSlot].flatten

def twinDevices : BlockDevices where
  start path := some (if path = ("/sys/class/block/sda1/start" : Str) then 40 else 48)
  realpath _ := some "/sys/devices/sda"
  openDisk _ := some twinDisk
  header _ := 0
  entry _ := 0

def describedPartition (index : Nat) (entry : List UInt8) : Partition :=
  ⟨"/dev/block/sda", [], index, ⟨bytesText (Utf16.toUtf8 (slotName entry)), true, index, 40, 41⟩, none, false⟩

theorem twinDisk_gptDisk {part_path : Str} {start : UInt64} (hpath : '/' ∈ part_path)
    (hstart : twinDevices.get_partition_start_lba ((filename part_path).take 63) = some start)
    (hopen : (twinDevices.get_parent_disk part_path).bind twinDevices.openDisk = some twinDisk) :
    GptDisk twinDevices 512 part_path start twinDisk where
  path := hpath
  start := hstart
  openDisk := hopen
  sector := by decide
  size := by decide +kernel
  header := by decide +kernel
  signature := by decide +kernel
  entries := ⟨0, by decide +kernel⟩
  table := by decide +kernel

theorem plainSlot_gptDisk : GptDisk twinDevices 512 "/dev/block/sda1" 40 twinDisk :=
  twinDisk_gptDisk (by decide) (by decide +kernel) (by decide +kernel)

theorem caronSlot_gptDisk : GptDisk twinDevices 512 "/dev/block/sda2" 48 twinDisk :=
  twinDisk_gptDisk (by decide) (by decide +kernel) (by decide +kernel)

theorem twinDisk_entrySize : entrySize twinDisk 512 = gptEntrySize := by decide +kernel

theorem plainSlot_taken : firstTaken .arm64_v8a .bits64 twinDisk 512 40 = some plainSlot := by decide +kernel

theorem caronSlot_taken : firstTaken .arm64_v8a .bits64 twinDisk 512 48 = some caronSlot := by decide +kernel

def plainNamed : NamedSlot .arm64_v8a .bits64 :=
  ⟨twinDevices, 512, "/dev/block/sda1", 40, twinDisk, plainSlot, describedPartition 0 plainSlot, plainSlot_gptDisk,
    twinDisk_entrySize, plainSlot_taken, rfl, rfl⟩

def caronNamed : NamedSlot .arm64_v8a .bits64 :=
  ⟨twinDevices, 512, "/dev/block/sda2", 48, twinDisk, caronSlot, describedPartition 1 caronSlot, caronSlot_gptDisk,
    twinDisk_entrySize, caronSlot_taken, rfl, rfl⟩

/-- libopenpart calls both partitions `a`; for `name()` the second is `š`. -/
theorem twin_names_collide :
    plainNamed.decoded = .ok (some ("a" : Str)) ∧ caronNamed.decoded = .ok (some ("a" : Str)) ∧
      plainNamed.partition.name = ("a" : Str) ∧ caronNamed.partition.name = bytesText [0xC5, 0xA1] ∧
      ¬ NamesAgree [plainNamed, caronNamed] := by
  have hplain : plainNamed.decoded = .ok (some ("a" : Str)) := by
    rw [NamedSlot.decoded_eq]
    decide +kernel
  have hcaron : caronNamed.decoded = .ok (some ("a" : Str)) := by
    rw [NamedSlot.decoded_eq]
    decide +kernel
  refine ⟨hplain, hcaron, by decide +kernel, by decide +kernel, fun h => ?_⟩
  have hdistinct := h.distinct plainNamed List.mem_cons_self caronNamed (List.mem_cons_of_mem _ List.mem_cons_self)
    (by decide +kernel)
  exact hdistinct (hplain.trans hcaron.symm)

end PartitionManager
