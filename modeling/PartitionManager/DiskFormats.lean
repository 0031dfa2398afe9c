import PartitionManager.Filesystems

namespace PartitionManager

/-- An integer that stands whole in an image. -/
def FieldIs (image : List UInt8) (offset count value : Nat) : Prop :=
  offset + count ≤ image.length ∧ Bytes.decode (Bytes.slice image offset count) = value

/-- The ext magic stands in `s_magic` of the superblock at 1024. -/
def IsExt (image : List UInt8) : Prop := FieldIs image (1024 + 56) 2 0xEF53

/-- A boot sector ends in the signature 55 AA. -/
def HasBootSignature (image : List UInt8) : Prop := Bytes.slice image 510 2 = [0x55, 0xAA]

instance (image : List UInt8) (offset count value : Nat) : Decidable (FieldIs image offset count value) :=
  inferInstanceAs (Decidable (_ ∧ _))

instance (image : List UInt8) : Decidable (IsExt image) := inferInstanceAs (Decidable (FieldIs _ _ _ _))

instance (image : List UInt8) : Decidable (HasBootSignature image) := inferInstanceAs (Decidable (_ = _))

def extFeatures (image : List UInt8) : Str :=
  extKind (Bytes.decode (Bytes.slice image (1024 + 96) 4)) (Bytes.decode (Bytes.slice image (1024 + 92) 4))

/-- The type of an image by the published formats. -/
def publishedFstype (image : List UInt8) : Str :=
  if IsExt image then extFeatures image
  else if FieldIs image 1024 4 F2FS_SUPER_MAGIC.toNat then "f2fs"
  else if FieldIs image 1024 4 EROFS_SUPER_MAGIC_V1.toNat then "erofs"
  else if HasBootSignature image then "vfat"
  else "unknown"

/-- Where the superblock of a type has its 16 bytes of UUID. -/
def uuidOffset (fstype : Str) : Option Nat :=
  if fstype = ("ext2" : Str) ∨ fstype = ("ext3" : Str) ∨ fstype = ("ext4" : Str) then some (1024 + 104)
  else if fstype = ("f2fs" : Str) then some (1024 + 108)
  else if fstype = ("erofs" : Str) then some (1024 + 48)
  else none

/-- The text is that of the UUID in the superblock of the image; a FAT has its volume id instead. -/
def UuidFrom (uuid_unparse : List UInt8 → Str) (image : List UInt8) (fstype uuid : Str) : Prop :=
  match uuidOffset fstype with
  | some offset => offset + 16 ≤ image.length ∧ uuid = uuid_unparse (Bytes.slice image offset 16)
  | none => fstype = ("vfat" : Str) →
      uuid = volumeId (Bytes.slice image (if Bytes.slice image 82 8 = fat32Type then 67 else 39) 4)

/-- Whatever the buffers held before, the type reported is that of the image, and the
handle has its UUID. -/
def Detected (uuid_unparse : List UInt8 → Str) (image : List UInt8) (lengths : ReadSite → Nat) : Prop :=
  ∀ stale, ∃ op, (Medium.reading image lengths stale).openpart_get_fstype uuid_unparse .opened =
      (op, some (publishedFstype image)) ∧
    UuidFrom uuid_unparse image (publishedFstype image) op.uuid

/-- The first word of the superblock as far as it was delivered. -/
def wordRead (image : List UInt8) (lengths : ReadSite → Nat) : List UInt8 :=
  Bytes.slice (delivered image lengths .magic 4096 1024) 0 4

/-- What the buffer has from the device once the signature has been read over the bytes of
the first read. -/
def bufferRead (image : List UInt8) (lengths : ReadSite → Nat) : List UInt8 :=
  let second := delivered image lengths .signature 2 510
  second ++ (delivered image lengths .magic 4096 1024).drop second.length

def signatureRead (image : List UInt8) (lengths : ReadSite → Nat) : List UInt8 :=
  Bytes.slice (bufferRead image lengths) 0 2

/-- One of the bits of ext4 is among the bytes of the superblock that were delivered. -/
def Ext4Delivered (image : List UInt8) (lengths : ReadSite → Nat) : Prop :=
  let sb := delivered image lengths .features 1024 1024
  (∃ b, sb[96]? = some b ∧ (b.toNat.testBit 6 = true ∨ b.toNat.testBit 7 = true)) ∨
    ∃ b, sb[97]? = some b ∧ b.toNat.testBit 1 = true

/-- The volume id is settled by what was delivered of the boot sector: all of the type
field, a part that excludes FAT32, or the same id in both places. -/
def VolumeIdDelivered (image : List UInt8) (lengths : ReadSite → Nat) : Prop :=
  let sector := delivered image lengths .superblock 92 0
  90 ≤ sector.length ∨ ¬ Bytes.slice sector 82 8 <+: fat32Type ∨
    (71 ≤ sector.length ∧ Bytes.slice sector 67 4 = Bytes.slice sector 39 4)

/-- When the bytes at the places that are looked at settle the right answer. -/
def Settled (image : List UInt8) (lengths : ReadSite → Nat) : Prop :=
  (wordRead image lengths = extWord ∧ IsExt image ∧ Ext4Delivered image lengths ∧
      120 ≤ (delivered image lengths .superblock 1024 1024).length) ∨
    (wordRead image lengths = f2fsWord ∧ ¬ IsExt image ∧
      124 ≤ (delivered image lengths .superblock 3072 1024).length) ∨
    (wordRead image lengths = erofsWord ∧ ¬ IsExt image ∧
      64 ≤ (delivered image lengths .superblock 128 1024).length) ∨
    ((∀ word ∈ [extWord, f2fsWord, erofsWord], ¬ wordRead image lengths <+: word) ∧ ¬ IsExt image ∧
      ((HasBootSignature image ∧ signatureRead image lengths = [0x55, 0xAA] ∧ VolumeIdDelivered image lengths) ∨
        (¬ HasBootSignature image ∧ ¬ signatureRead image lengths <+: [0x55, 0xAA])))

instance nontrivialUInt8 : Nontrivial UInt8 := ⟨0, 1, by decide⟩

section

variable {uuid_unparse : List UInt8 → Str} {image : List UInt8} {lengths : ReadSite → Nat}
  {stale : ReadSite → Nat → UInt8}

theorem detected_iff : Detected uuid_unparse image lengths ↔ ∀ stale,
    (Medium.reading image lengths stale).detect_fstype = some (publishedFstype image) ∧
      UuidFrom uuid_unparse image (publishedFstype image)
        (uuidRead uuid_unparse image lengths stale (publishedFstype image)) := by
  apply forall_congr'
  intro stale
  obtain ⟨fstype, hdetect⟩ := detect_some image lengths stale
  obtain ⟨op, hget, huuid⟩ := get_fstype_of_detect uuid_unparse hdetect
  rw [hget, hdetect]
  constructor
  · intro h
    obtain ⟨op', heq, hfrom⟩ := h
    obtain ⟨rfl, htype⟩ := Prod.mk.inj heq
    cases htype
    exact ⟨rfl, huuid ▸ hfrom⟩
  · intro h
    obtain ⟨htype, hfrom⟩ := h
    cases htype
    exact ⟨op, rfl, huuid.symm ▸ hfrom⟩

theorem published_ext_iff : (publishedFstype image = ("ext4" : Str) ∨ publishedFstype image = ("ext3" : Str) ∨
    publishedFstype image = ("ext2" : Str)) ↔ IsExt image := by
  unfold publishedFstype
  split
  next h => exact iff_of_true (extKind_cases _ _) h
  next h =>
    refine iff_of_false ?_ h
    repeat' split
    all_goals decide

theorem not_isExt {fstype : Str} (h : publishedFstype image = fstype) (h4 : fstype ≠ ("ext4" : Str))
    (h3 : fstype ≠ ("ext3" : Str)) (h2 : fstype ≠ ("ext2" : Str)) : ¬ IsExt image := by
  rw [← published_ext_iff, h]
  exact fun hkind => hkind.elim h4 fun hkind => hkind.elim h3 h2

/-- A UUID is read right, whatever the buffer held, when all of its bytes were delivered. -/
theorem uuidField_settled (image : List UInt8)
    (hinj : ∀ a b, a.length = 16 → b.length = 16 → uuid_unparse a = uuid_unparse b → a = b) (base n offset : Nat) :
    (∀ old, base + offset + 16 ≤ image.length ∧
      uuid_unparse (Bytes.window (Bytes.fill old (Bytes.slice image base n)) offset 16) =
        uuid_unparse (Bytes.slice image (base + offset) 16)) ↔
      offset + 16 ≤ (Bytes.slice image base n).length := by
  have hlength := Bytes.slice_length image base n
  constructor
  · intro h
    have hinside := (h fun _ => 0).1
    have htarget : (Bytes.slice image (base + offset) 16).length = 16 := by
      rw [Bytes.slice_length]
      omega
    have hslice := (Bytes.forall_window_eq_iff htarget).mp fun old =>
      hinj _ _ (Bytes.window_length _ _ _) htarget (h old).2
    have hread := congrArg List.length hslice
    rw [htarget, Bytes.slice_length] at hread
    omega
  · intro h old
    refine ⟨by omega, ?_⟩
    rw [Bytes.window_fill_of_le h, Bytes.slice_slice h]

/-- What an image has at a place where it begins with a whole word. -/
theorem slice_of_wordRead {word : List UInt8} (hlength : word.length = 4) (h : wordRead image lengths = word) :
    Bytes.slice image 1024 4 = word := by
  have hstart : wordRead image lengths <+: Bytes.slice image 1024 4 := Bytes.slice_slice_prefix image 1024 _ 0 4
  rw [h] at hstart
  refine (hstart.eq_of_length_le ?_).symm
  rw [Bytes.slice_length]
  omega

/-- The hypotheses on `uuid_unparse`: 16 bytes give a text, and different bytes different texts. -/
structure Unparses (uuid_unparse : List UInt8 → Str) : Prop where
  inj : ∀ a b, a.length = 16 → b.length = 16 → uuid_unparse a = uuid_unparse b → a = b
  ne_nil : ∀ a, a.length = 16 → uuid_unparse a ≠ []

theorem window_of_wordRead {word : List UInt8} (hlength : word.length = 4) (h : wordRead image lengths = word)
    (stale : ReadSite → Nat → UInt8) : Bytes.window (magicBuffer image lengths stale) 0 4 = word :=
  (Bytes.forall_window_eq_iff hlength).mpr h (stale .magic)

/-- Behind a word of f2fs or erofs the type is right unless the image is an ext one, and
the UUID is when it was delivered. -/
theorem detected_of_word (word : List UInt8) (fstype : Str) {count offset : Nat} (hlength : word.length = 4)
    (hunparse : Unparses uuid_unparse) (h : wordRead image lengths = word)
    (hdetect : ∀ stale, Bytes.window (magicBuffer image lengths stale) 0 4 = word →
      (Medium.reading image lengths stale).detect_fstype = some fstype)
    (hpublished : publishedFstype image = fstype ↔ ¬ IsExt image)
    (hread : ∀ stale, uuidRead uuid_unparse image lengths stale fstype = uuid_unparse (Bytes.window
      (Bytes.fill (stale .superblock) (delivered image lengths .superblock count 1024)) offset 16))
    (hoffset : uuidOffset fstype = some (1024 + offset)) :
    Detected uuid_unparse image lengths ↔
      ¬ IsExt image ∧ offset + 16 ≤ (delivered image lengths .superblock count 1024).length := by
  have hsettled := uuidField_settled image hunparse.inj 1024 (min (lengths .superblock) count) offset
  rw [detected_iff, delivered, ← hsettled]
  constructor
  · intro h'
    have htype : publishedFstype image = fstype := by
      have hfirst := (h' fun _ _ => 0).1
      rw [hdetect _ (window_of_wordRead hlength h _)] at hfirst
      exact (Option.some.inj hfirst).symm
    refine ⟨hpublished.mp htype, fun old => ?_⟩
    have hfrom := (h' fun _ => old).2
    rw [htype, hread] at hfrom
    unfold UuidFrom at hfrom
    rwa [hoffset] at hfrom
  · intro h'
    obtain ⟨hnot, huuid⟩ := h'
    intro stale
    rw [hpublished.mpr hnot]
    refine ⟨hdetect stale (window_of_wordRead hlength h stale), ?_⟩
    rw [hread]
    unfold UuidFrom
    rw [hoffset]
    exact huuid (stale .superblock)

theorem fieldIs_of_wordRead {word : List UInt8} (hlength : word.length = 4) (h : wordRead image lengths = word) :
    FieldIs image 1024 4 (Bytes.decode word) := by
  have hslice := slice_of_wordRead hlength h
  refine ⟨?_, by rw [hslice]⟩
  have hread := congrArg List.length hslice
  rw [hlength, Bytes.slice_length] at hread
  omega

theorem detected_f2fs (hunparse : Unparses uuid_unparse) (h : wordRead image lengths = f2fsWord) :
    Detected uuid_unparse image lengths ↔
      ¬ IsExt image ∧ 124 ≤ (delivered image lengths .superblock 3072 1024).length := by
  refine detected_of_word f2fsWord "f2fs" rfl hunparse h
    (fun _ => detect_of_f2fsWord) ?_ (fun _ => rfl) rfl
  have hfield : FieldIs image 1024 4 F2FS_SUPER_MAGIC.toNat := fieldIs_of_wordRead rfl h
  constructor
  · intro htype
    exact not_isExt htype (by decide) (by decide) (by decide)
  · intro hnot
    rw [publishedFstype, if_neg hnot, if_pos hfield]

theorem detected_erofs (hunparse : Unparses uuid_unparse) (h : wordRead image lengths = erofsWord) :
    Detected uuid_unparse image lengths ↔
      ¬ IsExt image ∧ 64 ≤ (delivered image lengths .superblock 128 1024).length := by
  refine detected_of_word erofsWord "erofs" rfl hunparse h
    (fun _ => detect_of_erofsWord) ?_ (fun _ => rfl) rfl
  have hfield : FieldIs image 1024 4 EROFS_SUPER_MAGIC_V1.toNat := fieldIs_of_wordRead rfl h
  constructor
  · intro htype
    exact not_isExt htype (by decide) (by decide) (by decide)
  · intro hnot
    have hother : ¬ FieldIs image 1024 4 F2FS_SUPER_MAGIC.toNat := by
      intro hf2fs
      exact absurd (hf2fs.2.symm.trans hfield.2) (by decide)
    rw [publishedFstype, if_neg hnot, if_neg hother, if_pos hfield]

theorem fill_eq (old : Nat → UInt8) (bytes : List UInt8) (offset count i : Nat) (hi : i < count) :
    ((Bytes.window (Bytes.fill old bytes) offset count)[i]?.getD 0) = bytes[offset + i]?.getD (old (offset + i)) := by
  rw [Bytes.window_getElem?, if_pos hi]
  rfl

/-- With a bit of ext4 among the bytes delivered, the word shows ext4 whatever the rest is. -/
theorem extKind_of_delivered (h : Ext4Delivered image lengths) (old : Nat → UInt8) (c : Nat) :
    extKind (field (Bytes.fill old (delivered image lengths .features 1024 1024)) 96 4) c = ("ext4" : Str) := by
  rw [field, extKind_decode, fill_eq _ _ _ _ _ (by omega), fill_eq _ _ _ _ _ (by omega)]
  rcases h with ⟨b, hb, hbit⟩ | ⟨b, hb, hbit⟩
  · rw [hb]
    exact Or.inl hbit
  · rw [hb]
    exact Or.inr hbit

theorem delivered_of_extKind {c : Nat}
    (h : extKind (field (Bytes.fill (fun _ => 0) (delivered image lengths .features 1024 1024)) 96 4) c =
      ("ext4" : Str)) : Ext4Delivered image lengths := by
  rw [field, extKind_decode, fill_eq _ _ _ _ _ (by omega), fill_eq _ _ _ _ _ (by omega)] at h
  rcases h with hbit | hbit
  · cases hb : (delivered image lengths .features 1024 1024)[96]? with
    | none =>
      rw [hb] at hbit
      simp at hbit
    | some b =>
      rw [hb] at hbit
      exact Or.inl ⟨b, hb, hbit⟩
  · cases hb : (delivered image lengths .features 1024 1024)[97]? with
    | none =>
      rw [hb] at hbit
      simp at hbit
    | some b =>
      rw [hb] at hbit
      exact Or.inr ⟨b, hb, hbit⟩

/-- The bit stands in the image too. -/
theorem extFeatures_of_delivered (h : Ext4Delivered image lengths) : extFeatures image = ("ext4" : Str) := by
  have hat : ∀ i b, (delivered image lengths .features 1024 1024)[i]? = some b → image[1024 + i]? = some b := by
    intro i b hb
    rw [delivered, Bytes.slice_getElem?] at hb
    split at hb
    next => exact hb
    next => cases hb
  rw [extFeatures, extKind_decode, Bytes.slice_getElem?, Bytes.slice_getElem?, if_pos (by omega), if_pos (by omega)]
  rcases h with ⟨b, hb, hbit⟩ | ⟨b, hb, hbit⟩
  · rw [hat 96 b hb]
    exact Or.inl hbit
  · rw [hat 97 b hb]
    exact Or.inr hbit

/-- Behind the word that is taken for the ext magic, the answer is right only for an ext4
image that has the magic in its own place as well. -/
theorem detected_ext (hunparse : Unparses uuid_unparse) (h : wordRead image lengths = extWord) :
    Detected uuid_unparse image lengths ↔ IsExt image ∧ Ext4Delivered image lengths ∧
      120 ≤ (delivered image lengths .superblock 1024 1024).length := by
  have hsettled := uuidField_settled image hunparse.inj 1024 (min (lengths .superblock) 1024) 104
  have hdetect := fun stale => detect_of_extWord (window_of_wordRead rfl h stale)
  rw [detected_iff]
  constructor
  · intro h'
    obtain ⟨hfirst, hfrom⟩ := h' fun _ _ => 0
    rw [hdetect] at hfirst
    have htype := Option.some.inj hfirst
    have hext : IsExt image := published_ext_iff.mp (htype ▸ extKind_cases _ _)
    have hne : ∀ fstype : Str, publishedFstype image = fstype → uuidOffset fstype = some (1024 + 104) →
        uuidRead uuid_unparse image lengths (fun _ _ => 0) fstype ≠ [] := by
      intro fstype hpublished hoffset hnil
      rw [hpublished, hnil] at hfrom
      unfold UuidFrom at hfrom
      rw [hoffset] at hfrom
      refine hunparse.ne_nil _ ?_ hfrom.2.symm
      rw [Bytes.slice_length]
      omega
    have hfour : publishedFstype image = ("ext4" : Str) := by
      rcases published_ext_iff.mpr hext with h4 | h3 | h2
      · exact h4
      · exact absurd rfl (hne _ h3 rfl)
      · exact absurd rfl (hne _ h2 rfl)
    refine ⟨hext, delivered_of_extKind (htype.trans hfour), ?_⟩
    rw [delivered, ← hsettled]
    intro old
    have hthere := (h' fun _ => old).2
    rw [hfour] at hthere
    exact hthere
  · intro h'
    obtain ⟨hext, hfeatures, huuid⟩ := h'
    rw [delivered, ← hsettled] at huuid
    intro stale
    have hfour : publishedFstype image = ("ext4" : Str) := by
      rw [publishedFstype, if_pos hext, extFeatures_of_delivered hfeatures]
    rw [hfour]
    exact ⟨(hdetect stale).trans (congrArg some (extKind_of_delivered hfeatures _ _)), huuid (stale .superblock)⟩

theorem hexDigits_inj {digit : Nat → Char} (hdigit : ∀ i < 16, ∀ j < 16, digit i = digit j → i = j) {a b : UInt8}
    (h : hexDigits digit a = hexDigits digit b) : a = b := by
  obtain ⟨hhigh, hrest⟩ := List.cons.inj h
  obtain ⟨hlow, _⟩ := List.cons.inj hrest
  have ha := a.toNat_lt
  have hb := b.toNat_lt
  have h1 := hdigit _ (by omega) _ (by omega) hhigh
  have h2 := hdigit _ (by omega) _ (by omega) hlow
  exact UInt8.toNat_inj.mp (by omega)

theorem hex2_inj {a b : UInt8} (h : hex2 a = hex2 b) : a = b := hexDigits_inj (by decide) h

theorem exists_four {bytes : List UInt8} (h : bytes.length = 4) : ∃ a b c d, bytes = [a, b, c, d] := by
  match bytes, h with
  | [a, b, c, d], _ => exact ⟨a, b, c, d, rfl⟩

theorem volumeId_inj {xs ys : List UInt8} (hx : xs.length = 4) (hy : ys.length = 4)
    (h : volumeId xs = volumeId ys) : xs = ys := by
  obtain ⟨a, b, c, d, rfl⟩ := exists_four hx
  obtain ⟨a', b', c', d', rfl⟩ := exists_four hy
  have hall : hex2 d ++ (hex2 c ++ '-' :: (hex2 b ++ hex2 a)) = hex2 d' ++ (hex2 c' ++ '-' :: (hex2 b' ++ hex2 a')) := by
    simpa [volumeId] using h
  obtain ⟨hd, hall⟩ := List.append_inj hall rfl
  obtain ⟨hc, hall⟩ := List.append_inj hall rfl
  obtain ⟨hb, ha⟩ := List.append_inj (List.cons.inj hall).2 rfl
  rw [hex2_inj hd, hex2_inj hc, hex2_inj hb, hex2_inj ha]

/-- A buffer in which an unread type field reads FAT32, and every byte before it is `c`. -/
theorem exists_fat32 {sector : List UInt8} (h : Bytes.slice sector 82 8 <+: fat32Type) (c : UInt8) :
    ∃ old, Bytes.window (Bytes.fill old sector) 82 8 = fat32Type ∧ ∀ i < 82, old i = c := by
  obtain ⟨old, hold⟩ := Bytes.exists_window_eq h rfl 0
  refine ⟨fun i => if i < 82 then c else old i, ?_, fun i hi => if_pos hi⟩
  rw [← hold]
  apply List.map_congr_left
  intro i _
  rw [Bytes.fill, Bytes.fill, if_neg (by omega)]

/-- Behind a whole field, what the buffer held before is not seen. -/
theorem window_delivered (offset count : Nat)
    (h : offset + count ≤ (delivered image lengths .superblock 92 0).length) (old : Nat → UInt8) :
    Bytes.window (Bytes.fill old (delivered image lengths .superblock 92 0)) offset count =
      Bytes.slice image offset count := by
  rw [Bytes.window_fill_of_le h, delivered, Bytes.slice_slice h, Nat.zero_add]

theorem volumeIdField_of_delivered (hsignature : HasBootSignature image) (h : VolumeIdDelivered image lengths)
    (old : Nat → UInt8) :
    (if Bytes.window (Bytes.fill old (delivered image lengths .superblock 92 0)) 82 8 = fat32Type then
        Bytes.window (Bytes.fill old (delivered image lengths .superblock 92 0)) 67 4
      else Bytes.window (Bytes.fill old (delivered image lengths .superblock 92 0)) 39 4) =
        Bytes.slice image (if Bytes.slice image 82 8 = fat32Type then 67 else 39) 4 := by
  have hlong := congrArg List.length hsignature
  rw [Bytes.slice_length, List.length_cons, List.length_cons, List.length_nil] at hlong
  rcases h with hall | hother | ⟨hmore, hsame⟩
  · rw [window_delivered 82 8 hall, window_delivered 67 4 (by omega), window_delivered 39 4 (by omega)]
    split <;> rfl
  · have hpart : 82 < (delivered image lengths .superblock 92 0).length := by
      have hinner := Bytes.slice_length (delivered image lengths .superblock 92 0) 82 8
      by_contra hle
      rw [List.length_eq_zero_iff.mp (hinner.trans (by omega))] at hother
      exact hother List.nil_prefix
    have hlength : fat32Type.length = 8 := rfl
    have hwindow := (Bytes.forall_window_ne_iff hlength).mpr hother old
    have hstart : Bytes.slice (delivered image lengths .superblock 92 0) 82 8 <+: Bytes.slice image 82 8 :=
      Bytes.slice_slice_prefix image 0 _ 82 8
    have himage : Bytes.slice image 82 8 ≠ fat32Type := fun heq => hother (heq ▸ hstart)
    rw [if_neg hwindow, if_neg himage, window_delivered 39 4 (by omega)]
  · have h67 : Bytes.slice image 67 4 = Bytes.slice image 39 4 := by
      rw [← window_delivered 67 4 hmore old, ← @window_delivered image lengths 39 4 (by omega) old,
        Bytes.window_fill_of_le hmore, Bytes.window_fill_of_le (by omega), hsame]
    rw [window_delivered 67 4 hmore, window_delivered 39 4 (by omega), h67, ite_self]
    split
    next => rw [h67]
    next => rfl

theorem delivered_of_volumeIdField
    (h : ∀ old, (if Bytes.window (Bytes.fill old (delivered image lengths .superblock 92 0)) 82 8 = fat32Type then
        Bytes.window (Bytes.fill old (delivered image lengths .superblock 92 0)) 67 4
      else Bytes.window (Bytes.fill old (delivered image lengths .superblock 92 0)) 39 4) =
        Bytes.slice image (if Bytes.slice image 82 8 = fat32Type then 67 else 39) 4) :
    VolumeIdDelivered image lengths := by
  by_contra hnot
  unfold VolumeIdDelivered at hnot
  simp only [not_or, not_not] at hnot
  obtain ⟨hshort, hfat, hsame⟩ := hnot
  -- the field can be made to read FAT32, with any byte as the last of the volume id
  have hfat32 : ∀ c, ∃ old, (∀ i < 82, old i = c) ∧
      Bytes.window (Bytes.fill old (delivered image lengths .superblock 92 0)) 67 4 =
        Bytes.slice image (if Bytes.slice image 82 8 = fat32Type then 67 else 39) 4 := by
    intro c
    obtain ⟨old, hold, hbefore⟩ := exists_fat32 hfat c
    have hread := h old
    rw [if_pos hold] at hread
    exact ⟨old, hbefore, hread⟩
  rcases Nat.lt_or_ge (delivered image lengths .superblock 92 0).length 71 with hless | hmore
  · have hlast : ∀ c, (Bytes.slice image (if Bytes.slice image 82 8 = fat32Type then 67 else 39) 4)[3]? = some c := by
      intro c
      obtain ⟨old, hbefore, hold⟩ := hfat32 c
      rw [← hold, Bytes.window_getElem?_unread (by omega) (by omega), hbefore _ (by omega)]
    exact absurd ((hlast 0).symm.trans (hlast 1)) (by decide)
  · obtain ⟨old, _, hold⟩ := hfat32 0
    have hzero := h fun _ => 0
    have hother : Bytes.window (Bytes.fill (fun _ => 0) (delivered image lengths .superblock 92 0)) 82 8 ≠
        fat32Type := by
      intro heq
      have hend := congrArg (fun bytes => bytes[7]?) heq
      rw [Bytes.window_getElem?_unread (by omega) (by omega)] at hend
      exact absurd hend (by decide)
    rw [if_neg hother] at hzero
    have hboth := hold.trans hzero.symm
    rw [Bytes.window_fill_of_le hmore, Bytes.window_fill_of_le (by omega)] at hboth
    exact hsame ⟨hmore, hboth⟩

/-- The volume id is read right, whatever the buffer held, when what was delivered settles it. -/
theorem volumeId_settled (hsignature : HasBootSignature image) :
    (∀ old, volumeId
      (if Bytes.window (Bytes.fill old (delivered image lengths .superblock 92 0)) 82 8 = fat32Type then
        Bytes.window (Bytes.fill old (delivered image lengths .superblock 92 0)) 67 4
      else Bytes.window (Bytes.fill old (delivered image lengths .superblock 92 0)) 39 4) =
        volumeId (Bytes.slice image (if Bytes.slice image 82 8 = fat32Type then 67 else 39) 4)) ↔
      VolumeIdDelivered image lengths := by
  refine ⟨fun h => delivered_of_volumeIdField fun old => volumeId_inj ?_ ?_ (h old),
    fun h old => congrArg volumeId (volumeIdField_of_delivered hsignature h old)⟩
  · split <;> exact Bytes.window_length _ _ _
  · have hlong := congrArg List.length hsignature
    rw [Bytes.slice_length, List.length_cons, List.length_cons, List.length_nil] at hlong
    rw [Bytes.slice_length]
    split <;> omega

theorem not_fieldIs_of_wordRead {word : List UInt8} (hlength : word.length = 4)
    (h : ¬ wordRead image lengths <+: word) : ¬ FieldIs image 1024 4 (Bytes.decode word) := by
  intro hfield
  have hsize : (Bytes.slice image 1024 4).length = 4 := by
    have hinside := hfield.1
    rw [Bytes.slice_length]
    omega
  have hslice : Bytes.slice image 1024 4 = word := Bytes.decode_inj (hsize.trans hlength.symm) hfield.2
  exact h (hslice ▸ Bytes.slice_slice_prefix image 1024 _ 0 4)

theorem detect_without_word (hext : ¬ wordRead image lengths <+: extWord)
    (hf2fs : ¬ wordRead image lengths <+: f2fsWord) (herofs : ¬ wordRead image lengths <+: erofsWord)
    (stale : ReadSite → Nat → UInt8) : (Medium.reading image lengths stale).detect_fstype =
      some (if Bytes.window (Bytes.fill (stale .magic) (bufferRead image lengths)) 0 2 = [0x55, 0xAA] then
        ("vfat" : Str) else ("unknown" : Str)) := by
  have hne : ∀ word, word.length = 4 → ¬ wordRead image lengths <+: word →
      Bytes.window (magicBuffer image lengths stale) 0 4 ≠ word := by
    intro word hword hstart
    exact (Bytes.forall_window_ne_iff hword).mpr hstart (stale .magic)
  rw [detect_of_other (hne extWord rfl hext) (hne f2fsWord rfl hf2fs) (hne erofsWord rfl herofs), magicBuffer,
    Bytes.fill_fill]
  rfl

theorem published_without_word (hplain : ¬ IsExt image) (hf2fs : ¬ wordRead image lengths <+: f2fsWord)
    (herofs : ¬ wordRead image lengths <+: erofsWord) :
    publishedFstype image = if HasBootSignature image then ("vfat" : Str) else ("unknown" : Str) := by
  have h1 : ¬ FieldIs image 1024 4 F2FS_SUPER_MAGIC.toNat := not_fieldIs_of_wordRead rfl hf2fs
  have h2 : ¬ FieldIs image 1024 4 EROFS_SUPER_MAGIC_V1.toNat := not_fieldIs_of_wordRead rfl herofs
  rw [publishedFstype, if_neg hplain, if_neg h1, if_neg h2]

/-- With none of the magic words possible, the signature decides. -/
theorem detected_other (hext : ¬ wordRead image lengths <+: extWord) (hf2fs : ¬ wordRead image lengths <+: f2fsWord)
    (herofs : ¬ wordRead image lengths <+: erofsWord) :
    Detected uuid_unparse image lengths ↔ ¬ IsExt image ∧
      ((HasBootSignature image ∧ signatureRead image lengths = [0x55, 0xAA] ∧ VolumeIdDelivered image lengths) ∨
        (¬ HasBootSignature image ∧ ¬ signatureRead image lengths <+: [0x55, 0xAA])) := by
  have hlength : ([0x55, 0xAA] : List UInt8).length = 2 := rfl
  have hdetect := detect_without_word hext hf2fs herofs
  have hnot : Detected uuid_unparse image lengths → ¬ IsExt image := by
    intro h
    have hfirst := (detected_iff.mp h fun _ _ => 0).1
    rw [hdetect] at hfirst
    refine not_isExt (Option.some.inj hfirst).symm ?_ ?_ ?_ <;> split <;> decide
  rw [← and_iff_right_of_imp hnot]
  apply and_congr_right
  intro hplain
  rw [detected_iff, published_without_word hplain hf2fs herofs]
  by_cases hsignature : HasBootSignature image
  · rw [if_pos hsignature]
    constructor
    · intro h
      have hread : ∀ old, Bytes.window (Bytes.fill old (bufferRead image lengths)) 0 2 = [0x55, 0xAA] := by
        intro old
        have htype := (h fun _ => old).1
        by_contra hother
        rw [hdetect, if_neg hother] at htype
        exact absurd htype (by decide)
      refine Or.inl ⟨hsignature, (Bytes.forall_window_eq_iff hlength).mp hread, ?_⟩
      rw [← volumeId_settled hsignature]
      intro old
      exact (h fun _ => old).2 rfl
    · intro h
      rcases h with ⟨_, hread, hvolume⟩ | ⟨hnone, _⟩
      · intro stale
        have hwindow := (Bytes.forall_window_eq_iff hlength).mpr hread (stale .magic)
        rw [hdetect, if_pos hwindow]
        exact ⟨rfl, fun _ => (volumeId_settled hsignature).mpr hvolume (stale .superblock)⟩
      · exact absurd hsignature hnone
  · rw [if_neg hsignature]
    constructor
    · intro h
      refine Or.inr ⟨hsignature, (Bytes.forall_window_ne_iff hlength).mp ?_⟩
      intro old hwindow
      have htype := (h fun _ => old).1
      rw [hdetect, if_pos hwindow] at htype
      exact absurd htype (by decide)
    · intro h
      rcases h with ⟨hthere, _⟩ | ⟨_, hread⟩
      · exact absurd hthere hsignature
      · intro stale
        have hwindow := (Bytes.forall_window_ne_iff hlength).mpr hread (stale .magic)
        rw [hdetect, if_neg hwindow]
        exact ⟨rfl, fun hvfat => absurd hvfat (by decide)⟩

/-- A word that may still become a magic one or not leaves the answer to the old bytes. -/
theorem not_detected_of_undecided {word : List UInt8} (hword : word = extWord ∨ word = f2fsWord ∨ word = erofsWord)
    (hstart : wordRead image lengths <+: word) (hne : wordRead image lengths ≠ word) :
    ¬ Detected uuid_unparse image lengths := by
  intro h
  rw [detected_iff] at h
  have hlength : word.length = 4 := by rcases hword with rfl | rfl | rfl <;> rfl
  have hshort : (delivered image lengths .magic 4096 1024).length ≤ 3 := by
    by_contra hlong
    refine hne (hstart.eq_of_length ?_)
    rw [wordRead, Bytes.slice_length, hlength]
    omega
  have hother : ∀ word' : List UInt8, word'[3]? ≠ some 1 →
      Bytes.window (magicBuffer image lengths fun _ _ => 1) 0 4 ≠ word' := by
    intro word' hlast heq
    rw [← heq, magicBuffer, Bytes.window_getElem?_unread (by omega) (by omega)] at hlast
    exact hlast rfl
  have hplain := (h fun _ _ => 1).1
  rw [detect_of_other (hother _ (by decide)) (hother _ (by decide)) (hother _ (by decide))] at hplain
  obtain ⟨old, hfilled⟩ := Bytes.exists_window_eq hstart hlength 0
  have hold : Bytes.window (magicBuffer image lengths fun _ => old) 0 4 = word := hfilled
  have hmagic := (h fun _ => old).1
  rcases hword with rfl | rfl | rfl
  · rw [detect_of_extWord hold, ← hplain] at hmagic
    have htype := Option.some.inj hmagic
    rcases extKind_cases _ _ with hkind | hkind | hkind
    all_goals
      rw [hkind] at htype
      revert htype
      split <;> decide
  · rw [detect_of_f2fsWord hold, ← hplain] at hmagic
    revert hmagic
    split <;> decide
  · rw [detect_of_erofsWord hold, ← hplain] at hmagic
    revert hmagic
    split <;> decide

end

/-- The type and the UUID are those of the image, whatever the buffers held, exactly when
the bytes at the places looked at settle the right answer. -/
theorem fstype_detected_iff (uuid_unparse : List UInt8 → Str) (hunparse : Unparses uuid_unparse)
    (image : List UInt8) (lengths : ReadSite → Nat) :
    Detected uuid_unparse image lengths ↔ Settled image lengths := by
  by_cases hext : wordRead image lengths = extWord
  · rw [detected_ext hunparse hext, Settled, hext]
    simp +decide
  by_cases hf2fs : wordRead image lengths = f2fsWord
  · rw [detected_f2fs hunparse hf2fs, Settled, hf2fs]
    simp +decide
  by_cases herofs : wordRead image lengths = erofsWord
  · rw [detected_erofs hunparse herofs, Settled, herofs]
    simp +decide
  by_cases hnone : ∀ word ∈ [extWord, f2fsWord, erofsWord], ¬ wordRead image lengths <+: word
  · rw [detected_other (hnone _ (by simp)) (hnone _ (by simp)) (hnone _ (by simp)), Settled]
    simp [hext, hf2fs, herofs, hnone]
  · refine iff_of_false ?_ ?_
    · simp only [not_forall, not_not] at hnone
      obtain ⟨word, hword, hstart⟩ := hnone
      refine not_detected_of_undecided (by simpa using hword) hstart ?_
      intro heq
      rw [heq] at hext hf2fs herofs
      simp [hext, hf2fs, herofs] at hword
    · intro h
      rcases h with ⟨h, _⟩ | ⟨h, _⟩ | ⟨h, _⟩ | ⟨h, _⟩
      · exact hext h
      · exact hf2fs h
      · exact herofs h
      · exact hnone h

/-- The text of a UUID: its bytes in hexadecimal, with the dashes where they belong. -/
def uuidText (bytes : List UInt8) : Str :=
  bytes.zipIdx.flatMap fun x => (if x.2 ∈ [4, 6, 8, 10] then ['-'] else []) ++ hexDigits Nat.digitChar x.1

theorem uuidText_unparses : Unparses uuidText := by
  have hinj : ∀ (a b : List UInt8) (k : Nat), a.length = b.length →
      ((a.zipIdx k).flatMap fun x => (if x.2 ∈ [4, 6, 8, 10] then ['-'] else []) ++ hexDigits Nat.digitChar x.1) =
        ((b.zipIdx k).flatMap fun x => (if x.2 ∈ [4, 6, 8, 10] then ['-'] else []) ++ hexDigits Nat.digitChar x.1) →
      a = b := by
    intro a
    induction a with
    | nil =>
      intro b k hlength _
      exact (List.length_eq_zero_iff.mp hlength.symm).symm
    | cons x a ih =>
      intro b k hlength h
      cases b with
      | nil => cases hlength
      | cons y b =>
        rw [List.zipIdx_cons, List.zipIdx_cons, List.flatMap_cons, List.flatMap_cons] at h
        obtain ⟨hfirst, hrest⟩ := List.append_inj h (by simp [hexDigits])
        have hxy : x = y := hexDigits_inj (by decide) (List.append_cancel_left hfirst)
        rw [hxy, ih b (k + 1) (Nat.succ.inj hlength) hrest]
  refine ⟨fun a b ha hb h => hinj a b 0 (ha.trans hb.symm) h, ?_⟩
  intro a ha h
  cases a with
  | nil => cases ha
  | cons x a =>
    have hlength := congrArg List.length h
    simp [uuidText, hexDigits] at hlength

/-- An ext4 image of sixteen inodes, with extents. -/
def ext4Image : List UInt8 :=
  [List.replicate 1024 0, [16, 0, 0, 0], List.replicate 52 0, [0x53, 0xEF], List.replicate 38 0, [0x40],
    List.replicate 7 0, [1, 2, 3, 4, 5, 6, 7, 8, 9, 10, 11, 12, 13, 14, 15, 16], List.replicate 904 0].flatten

theorem fstype_detected_ext4Image : Detected uuidText ext4Image (fun _ => 4096) ↔
    Settled ext4Image (fun _ => 4096) :=
  fstype_detected_iff uuidText uuidText_unparses ext4Image fun _ => 4096

/-- The magic stands in its place, and the type is reported as unknown. -/
theorem ext4Image_unknown : publishedFstype ext4Image = ("ext4" : Str) ∧
    ((Medium.reading ext4Image (fun _ => 4096) fun _ _ => 0).openpart_get_fstype uuidText .opened).2 =
      some ("unknown" : Str) ∧ ¬ Detected uuidText ext4Image (fun _ => 4096) := by
  have hpublished : publishedFstype ext4Image = ("ext4" : Str) := by decide +kernel
  have hget : ((Medium.reading ext4Image (fun _ => 4096) fun _ _ => 0).openpart_get_fstype uuidText .opened).2 =
      some ("unknown" : Str) := by decide +kernel
  refine ⟨hpublished, hget, ?_⟩
  intro h
  obtain ⟨op, heq, _⟩ := h fun _ _ => 0
  rw [heq, hpublished] at hget
  exact absurd (Option.some.inj hget) (by decide)

end PartitionManager
