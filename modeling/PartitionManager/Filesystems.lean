import Mathlib.Data.List.DropRight
import Mathlib.Data.Nat.Bitwise
import PartitionManager.Basic
import PartitionManager.Library.Buffers

namespace PartitionManager

def EXT2_SUPER_MAGIC : UInt32 := 0xEF53
def F2FS_SUPER_MAGIC : UInt32 := 0xF2F52010
def EROFS_SUPER_MAGIC_V1 : UInt32 := 0xE0F5E1E2

def F2FS_SUPER_OFFSET : Nat := 1024
def EROFS_SUPER_OFFSET : Nat := 1024
def MSDOS_NAME : Nat := 11

/-- The `pread` calls of `load_info`, each of which is made at most once. -/
inductive ReadSite where
  | magic
  | features
  | signature
  | superblock
  deriving DecidableEq

/-- A device under an `openpart_t`: its bytes, how many of them each call delivers (`none`
where it fails), and what the buffer of a call held before. -/
structure Medium where
  image : List UInt8
  delivers : ReadSite → Option Nat
  stale : ReadSite → Nat → UInt8

/-- The fields of `struct openpart` that `load_info` is about. -/
structure PartInfo where
  uuid : Str := []
  label : List UInt8 := []
  fstype : Str := []
  info_loaded : Bool := false
  deriving DecidableEq

/-- A handle as `openpart_open` leaves it. -/
def PartInfo.opened : PartInfo := {}

def read_le32 (buf : Nat → UInt8) : UInt32 :=
  (buf 0).toUInt32 ||| ((buf 1).toUInt32 <<< 8) ||| ((buf 2).toUInt32 <<< 16) ||| ((buf 3).toUInt32 <<< 24)

def read_le16 (buf : Nat → UInt8) : UInt16 := (buf 0).toUInt16 ||| ((buf 1).toUInt16 <<< 8)

/-- An integer field of a structure in memory. -/
def field (buf : Nat → UInt8) (offset count : Nat) : Nat := Bytes.decode (Bytes.window buf offset count)

def EXT3_FEATURE_INCOMPAT_RECOVER : Nat := 0x0004
def EXT3_FEATURE_INCOMPAT_EXTENTS : Nat := 0x0040
def EXT4_FEATURE_INCOMPAT_64BIT : Nat := 0x0080
def EXT4_FEATURE_INCOMPAT_FLEX_BG : Nat := 0x0200
def EXT3_FEATURE_COMPAT_HAS_JOURNAL : Nat := 0x0004

/-- Which of the ext formats the feature words stand for. -/
def extKind (s_feature_incompat s_feature_compat : Nat) : Str :=
  if s_feature_incompat &&& EXT3_FEATURE_INCOMPAT_EXTENTS ≠ 0 ∨
      s_feature_incompat &&& EXT4_FEATURE_INCOMPAT_64BIT ≠ 0 ∨
      s_feature_incompat &&& EXT4_FEATURE_INCOMPAT_FLEX_BG ≠ 0 then "ext4"
  else if s_feature_incompat &&& EXT3_FEATURE_INCOMPAT_RECOVER ≠ 0 ∨
      s_feature_compat &&& EXT3_FEATURE_COMPAT_HAS_JOURNAL ≠ 0 then "ext3"
  else "ext2"

def hexDigits (digit : Nat → Char) (b : UInt8) : Str := [digit (b.toNat / 16), digit (b.toNat % 16)]

/-- `"%02X"`. -/
def hex2 (b : UInt8) : Str := hexDigits (fun i => (Nat.digitChar i).toUpper) b

/-- `"%02X%02X-%02X%02X"` of a FAT volume id, from its last byte to its first. -/
def volumeId (vol_id : List UInt8) : Str :=
  ((vol_id.drop 2).reverse.flatMap hex2) ++ '-' :: (vol_id.take 2).reverse.flatMap hex2

def fat32Type : List UInt8 := [0x46, 0x41, 0x54, 0x33, 0x32, 0x20, 0x20, 0x20]

/-- A `strncpy` of at most `count` bytes. -/
def strncpy (buf : Nat → UInt8) (offset count : Nat) : List UInt8 := (Bytes.window buf offset count).takeWhile (· ≠ 0)

namespace Medium

variable (uuid_unparse : List UInt8 → Str) (m : Medium)

/-- What a call of `pread` delivers. -/
def pread (site : ReadSite) (count offset : Nat) : Option (List UInt8) :=
  (m.delivers site).map fun n => Bytes.slice m.image offset (min n count)

/-- The text that `detect_fstype` stores, `none` where it returns -1. -/
def detect_fstype : Option Str := do
  let bytes ← m.pread .magic 4096 1024
  let buf := Bytes.fill (m.stale .magic) bytes
  let magic32 := read_le32 buf
  if magic32 = EXT2_SUPER_MAGIC then
    match m.pread .features 1024 1024 with
    | none => some "ext4"
    | some bytes =>
      let sb := Bytes.fill (m.stale .features) bytes
      some (extKind (field sb 96 4) (field sb 92 4))
  else if magic32 = F2FS_SUPER_MAGIC then some "f2fs"
  else if magic32 = EROFS_SUPER_MAGIC_V1 then some "erofs"
  else do
    let bytes ← m.pread .signature 2 510
    -- the second read goes into the same buffer
    let buf := Bytes.fill buf bytes
    if read_le16 buf = 0xAA55 then some "vfat" else some "unknown"

def read_ext4_info (op : PartInfo) : Option PartInfo := do
  let bytes ← m.pread .superblock 1024 1024
  let sb := Bytes.fill (m.stale .superblock) bytes
  some { op with uuid := uuid_unparse (Bytes.window sb 104 16), label := strncpy sb 120 255 }

def read_f2fs_info (op : PartInfo) : Option PartInfo := do
  let bytes ← m.pread .superblock 3072 F2FS_SUPER_OFFSET
  let sb := Bytes.fill (m.stale .superblock) bytes
  let volume_name := (List.range 255).map fun i => field sb (124 + 2 * i) 2
  some
    { op with
      uuid := uuid_unparse (Bytes.window sb 108 16)
      label := (volume_name.takeWhile (· ≠ 0)).map UInt8.ofNat }

def read_erofs_info (op : PartInfo) : Option PartInfo := do
  let bytes ← m.pread .superblock 128 EROFS_SUPER_OFFSET
  let sb := Bytes.fill (m.stale .superblock) bytes
  some { op with uuid := uuid_unparse (Bytes.window sb 48 16), label := strncpy sb 64 255 }

def read_vfat_info (op : PartInfo) : Option PartInfo := do
  let bytes ← m.pread .superblock 92 0
  let bs := Bytes.fill (m.stale .superblock) bytes
  let fat32 := Bytes.window bs 82 8 = fat32Type
  let vol_id := if fat32 then Bytes.window bs 67 4 else Bytes.window bs 39 4
  let vol_label := if fat32 then Bytes.window bs 71 MSDOS_NAME else Bytes.window bs 43 MSDOS_NAME
  some
    { op with
      uuid := volumeId vol_id
      label := (vol_label.rdropWhile (· = 0x20)).takeWhile (· ≠ 0) }

/-- The handle after `load_info`, and whether it returns 0. -/
def load_info (op : PartInfo) : PartInfo × Bool :=
  match m.detect_fstype with
  | none => (op, false)
  | some fstype =>
    let op := { op with fstype }
    let read :=
      if fstype = ("ext4" : Str) then m.read_ext4_info uuid_unparse op
      else if fstype = ("f2fs" : Str) then m.read_f2fs_info uuid_unparse op
      else if fstype = ("erofs" : Str) then m.read_erofs_info uuid_unparse op
      else if fstype = ("vfat" : Str) then m.read_vfat_info op
      else some op
    match read with
    | none => (op, false)
    | some op => (op, true)

/-- The handle after the call, and the answer, `none` for a null pointer. -/
def openpart_get_fstype (op : PartInfo) : PartInfo × Option Str :=
  if op.info_loaded then (op, some op.fstype)
  else
    match m.load_info uuid_unparse op with
    | (op, false) => (op, none)
    | (op, true) => ({ op with info_loaded := true }, some op.fstype)

end Medium

/-- No call fails. -/
def Medium.reading (image : List UInt8) (lengths : ReadSite → Nat) (stale : ReadSite → Nat → UInt8) : Medium :=
  ⟨image, fun site => some (lengths site), stale⟩

/-- The bytes that a call of a given length delivers. -/
def delivered (image : List UInt8) (lengths : ReadSite → Nat) (site : ReadSite) (count offset : Nat) : List UInt8 :=
  Bytes.slice image offset (min (lengths site) count)

/-- The bytes of each magic word. -/
def extWord : List UInt8 := [0x53, 0xEF, 0x00, 0x00]
def f2fsWord : List UInt8 := [0x10, 0x20, 0xF5, 0xF2]
def erofsWord : List UInt8 := [0xE2, 0xE1, 0xF5, 0xE0]

theorem window_four (buf : Nat → UInt8) (offset : Nat) : Bytes.window buf offset 4 =
    [buf offset, buf (offset + 1), buf (offset + 2), buf (offset + 3)] := by
  simp [Bytes.window, List.range_succ]

theorem window_two (buf : Nat → UInt8) (offset : Nat) : Bytes.window buf offset 2 =
    [buf offset, buf (offset + 1)] := by
  simp [Bytes.window, List.range_succ]

/-- The shifts put the bytes together in little-endian order. -/
theorem read_le32_toNat (buf : Nat → UInt8) : (read_le32 buf).toNat = Bytes.decode (Bytes.window buf 0 4) := by
  have h0 := (buf 0).toNat_lt
  have h1 := (buf 1).toNat_lt
  have h2 := (buf 2).toNat_lt
  have h3 := (buf 3).toNat_lt
  have hone := Nat.two_pow_add_eq_or_of_lt (i := 8) h0 (buf 1).toNat
  have htwo := Nat.two_pow_add_eq_or_of_lt (i := 16) (b := 2 ^ 8 * (buf 1).toNat + (buf 0).toNat) (by omega)
    (buf 2).toNat
  have hthree := Nat.two_pow_add_eq_or_of_lt (i := 24)
    (b := 2 ^ 16 * (buf 2).toNat + (2 ^ 8 * (buf 1).toNat + (buf 0).toNat)) (by omega) (buf 3).toNat
  have hor : (read_le32 buf).toNat = 2 ^ 24 * (buf 3).toNat ||| (2 ^ 16 * (buf 2).toNat |||
      (2 ^ 8 * (buf 1).toNat ||| (buf 0).toNat)) := by
    simp only [read_le32, UInt32.toNat_or, UInt32.toNat_shiftLeft, UInt8.toNat_toUInt32, Nat.shiftLeft_eq]
    simp only [UInt32.reduceToNat, Nat.reduceMod, Nat.reducePow]
    rw [Nat.mod_eq_of_lt (by omega), Nat.mod_eq_of_lt (by omega), Nat.mod_eq_of_lt (by omega)]
    simp only [Nat.mul_comm]
    ac_rfl
  rw [hor, ← hone, ← htwo, ← hthree, window_four]
  simp only [Bytes.decode_cons, Bytes.decode_nil, Nat.zero_add]
  omega

theorem read_le16_toNat (buf : Nat → UInt8) : (read_le16 buf).toNat = Bytes.decode (Bytes.window buf 0 2) := by
  have h0 := (buf 0).toNat_lt
  have h1 := (buf 1).toNat_lt
  have hone := Nat.two_pow_add_eq_or_of_lt (i := 8) h0 (buf 1).toNat
  have hor : (read_le16 buf).toNat = 2 ^ 8 * (buf 1).toNat ||| (buf 0).toNat := by
    simp only [read_le16, UInt16.toNat_or, UInt16.toNat_shiftLeft, UInt8.toNat_toUInt16, Nat.shiftLeft_eq]
    simp only [UInt16.reduceToNat, Nat.reduceMod, Nat.reducePow]
    rw [Nat.mod_eq_of_lt (by omega), Nat.mul_comm]
    ac_rfl
  rw [hor, ← hone, window_two]
  simp only [Bytes.decode_cons, Bytes.decode_nil, Nat.zero_add]
  omega

theorem read_le32_eq_iff {buf : Nat → UInt8} (magic : UInt32) {word : List UInt8} (hlength : word.length = 4)
    (hword : Bytes.decode word = magic.toNat) : read_le32 buf = magic ↔ Bytes.window buf 0 4 = word := by
  rw [← UInt32.toNat_inj, read_le32_toNat, ← hword]
  constructor
  · intro h
    exact Bytes.decode_inj (by rw [Bytes.window_length, hlength]) h
  · intro h
    rw [h]

theorem read_le16_eq_iff {buf : Nat → UInt8} : read_le16 buf = 0xAA55 ↔ Bytes.window buf 0 2 = [0x55, 0xAA] := by
  rw [← UInt16.toNat_inj, read_le16_toNat]
  constructor
  · intro h
    exact Bytes.decode_inj (by rw [Bytes.window_length]; rfl) h
  · intro h
    rw [h]
    rfl

theorem and_ne_zero_iff (n i : Nat) : n &&& 2 ^ i ≠ 0 ↔ n.testBit i = true := by
  rw [Nat.and_two_pow]
  cases n.testBit i <;> simp

theorem extKind_cases (n c : Nat) :
    extKind n c = ("ext4" : Str) ∨ extKind n c = ("ext3" : Str) ∨ extKind n c = ("ext2" : Str) := by
  unfold extKind
  split
  next => exact Or.inl rfl
  next =>
    split
    next => exact Or.inr (Or.inl rfl)
    next => exact Or.inr (Or.inr rfl)

theorem extKind_eq_ext4_iff (n c : Nat) : extKind n c = ("ext4" : Str) ↔
    n.testBit 6 = true ∨ n.testBit 7 = true ∨ n.testBit 9 = true := by
  have hextents : n &&& EXT3_FEATURE_INCOMPAT_EXTENTS ≠ 0 ↔ n.testBit 6 = true := and_ne_zero_iff n 6
  have hwide : n &&& EXT4_FEATURE_INCOMPAT_64BIT ≠ 0 ↔ n.testBit 7 = true := and_ne_zero_iff n 7
  have hflex : n &&& EXT4_FEATURE_INCOMPAT_FLEX_BG ≠ 0 ↔ n.testBit 9 = true := and_ne_zero_iff n 9
  rw [← hextents, ← hwide, ← hflex]
  unfold extKind
  split
  next h => exact iff_of_true rfl h
  next h =>
    refine iff_of_false ?_ h
    split <;> decide

/-- The bits of ext4 are in the first two bytes of the word. -/
theorem extKind_decode (bytes : List UInt8) (c : Nat) : extKind (Bytes.decode bytes) c = ("ext4" : Str) ↔
    ((bytes[0]?.getD 0).toNat.testBit 6 = true ∨ (bytes[0]?.getD 0).toNat.testBit 7 = true) ∨
      (bytes[1]?.getD 0).toNat.testBit 1 = true := by
  have h6 := Bytes.decode_testBit_getElem? bytes 0 6 (by omega)
  have h7 := Bytes.decode_testBit_getElem? bytes 0 7 (by omega)
  have h9 := Bytes.decode_testBit_getElem? bytes 1 1 (by omega)
  rw [extKind_eq_ext4_iff, ← h6, ← h7, ← h9, or_assoc]

section

variable {uuid_unparse : List UInt8 → Str} {image : List UInt8} {lengths : ReadSite → Nat}
  {stale : ReadSite → Nat → UInt8}

def magicBuffer (image : List UInt8) (lengths : ReadSite → Nat) (stale : ReadSite → Nat → UInt8) : Nat → UInt8 :=
  Bytes.fill (stale .magic) (delivered image lengths .magic 4096 1024)

/-- The tests of `detect_fstype` when no call fails. -/
theorem detect_eq : (Medium.reading image lengths stale).detect_fstype =
    if read_le32 (magicBuffer image lengths stale) = EXT2_SUPER_MAGIC then
      some (extKind (field (Bytes.fill (stale .features) (delivered image lengths .features 1024 1024)) 96 4)
        (field (Bytes.fill (stale .features) (delivered image lengths .features 1024 1024)) 92 4))
    else if read_le32 (magicBuffer image lengths stale) = F2FS_SUPER_MAGIC then some ("f2fs" : Str)
    else if read_le32 (magicBuffer image lengths stale) = EROFS_SUPER_MAGIC_V1 then some ("erofs" : Str)
    else if read_le16 (Bytes.fill (magicBuffer image lengths stale) (delivered image lengths .signature 2 510)) =
      0xAA55 then some ("vfat" : Str)
    else some ("unknown" : Str) := rfl

theorem detect_of_extWord (h : Bytes.window (magicBuffer image lengths stale) 0 4 = extWord) :
    (Medium.reading image lengths stale).detect_fstype =
      some (extKind (field (Bytes.fill (stale .features) (delivered image lengths .features 1024 1024)) 96 4)
        (field (Bytes.fill (stale .features) (delivered image lengths .features 1024 1024)) 92 4)) := by
  rw [detect_eq, if_pos ((read_le32_eq_iff EXT2_SUPER_MAGIC rfl rfl).mpr h)]

theorem detect_of_f2fsWord (h : Bytes.window (magicBuffer image lengths stale) 0 4 = f2fsWord) :
    (Medium.reading image lengths stale).detect_fstype = some ("f2fs" : Str) := by
  rw [detect_eq, (read_le32_eq_iff F2FS_SUPER_MAGIC rfl rfl).mpr h, if_neg (by decide), if_pos rfl]

theorem detect_of_erofsWord (h : Bytes.window (magicBuffer image lengths stale) 0 4 = erofsWord) :
    (Medium.reading image lengths stale).detect_fstype = some ("erofs" : Str) := by
  rw [detect_eq, (read_le32_eq_iff EROFS_SUPER_MAGIC_V1 rfl rfl).mpr h, if_neg (by decide),
    if_neg (by decide), if_pos rfl]

/-- Without one of the magic words the answer is in the boot sector. -/
theorem detect_of_other (hext : Bytes.window (magicBuffer image lengths stale) 0 4 ≠ extWord)
    (hf2fs : Bytes.window (magicBuffer image lengths stale) 0 4 ≠ f2fsWord)
    (herofs : Bytes.window (magicBuffer image lengths stale) 0 4 ≠ erofsWord) :
    (Medium.reading image lengths stale).detect_fstype =
      some (if Bytes.window (Bytes.fill (magicBuffer image lengths stale)
        (delivered image lengths .signature 2 510)) 0 2 = [0x55, 0xAA] then ("vfat" : Str) else ("unknown" : Str)) := by
  rw [detect_eq, if_neg ((read_le32_eq_iff EXT2_SUPER_MAGIC rfl rfl).not.mpr hext),
    if_neg ((read_le32_eq_iff F2FS_SUPER_MAGIC rfl rfl).not.mpr hf2fs),
    if_neg ((read_le32_eq_iff EROFS_SUPER_MAGIC_V1 rfl rfl).not.mpr herofs)]
  simp only [read_le16_eq_iff]
  split <;> rfl

/-- The text that `load_info` leaves as the UUID of a handle that had none. -/
def uuidRead (uuid_unparse : List UInt8 → Str) (image : List UInt8) (lengths : ReadSite → Nat)
    (stale : ReadSite → Nat → UInt8) (fstype : Str) : Str :=
  if fstype = ("ext4" : Str) then
    uuid_unparse (Bytes.window (Bytes.fill (stale .superblock) (delivered image lengths .superblock 1024 1024)) 104 16)
  else if fstype = ("f2fs" : Str) then
    uuid_unparse (Bytes.window (Bytes.fill (stale .superblock) (delivered image lengths .superblock 3072 1024)) 108 16)
  else if fstype = ("erofs" : Str) then
    uuid_unparse (Bytes.window (Bytes.fill (stale .superblock) (delivered image lengths .superblock 128 1024)) 48 16)
  else if fstype = ("vfat" : Str) then
    let bs := Bytes.fill (stale .superblock) (delivered image lengths .superblock 92 0)
    volumeId (if Bytes.window bs 82 8 = fat32Type then Bytes.window bs 67 4 else Bytes.window bs 39 4)
  else []

theorem get_fstype_of_detect (uuid_unparse : List UInt8 → Str) {fstype : Str}
    (h : (Medium.reading image lengths stale).detect_fstype = some fstype) :
    ∃ op, (Medium.reading image lengths stale).openpart_get_fstype uuid_unparse .opened = (op, some fstype) ∧
      op.uuid = uuidRead uuid_unparse image lengths stale fstype := by
  have hfresh : PartInfo.opened.info_loaded = false := rfl
  unfold Medium.openpart_get_fstype Medium.load_info uuidRead
  rw [hfresh, h]
  by_cases hext : fstype = ("ext4" : Str)
  · subst hext
    exact ⟨_, rfl, rfl⟩
  by_cases hf2fs : fstype = ("f2fs" : Str)
  · subst hf2fs
    exact ⟨_, rfl, rfl⟩
  by_cases herofs : fstype = ("erofs" : Str)
  · subst herofs
    exact ⟨_, rfl, rfl⟩
  by_cases hvfat : fstype = ("vfat" : Str)
  · subst hvfat
    exact ⟨_, rfl, rfl⟩
  rw [if_neg hext, if_neg hf2fs, if_neg herofs, if_neg hvfat]
  dsimp only
  rw [if_neg hext, if_neg hf2fs, if_neg herofs, if_neg hvfat]
  exact ⟨_, rfl, rfl⟩

theorem detect_some (image : List UInt8) (lengths : ReadSite → Nat) (stale : ReadSite → Nat → UInt8) :
    ∃ fstype, (Medium.reading image lengths stale).detect_fstype = some fstype := by
  rw [detect_eq]
  repeat' split
  all_goals exact ⟨_, rfl⟩

end

end PartitionManager
