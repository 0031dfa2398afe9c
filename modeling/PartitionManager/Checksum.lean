import PartitionManager.Transfers
import PartitionManager.Library.Streaming

namespace PartitionManager

def OP_CKSUM_CRC32 : Int := 0x1
def OP_CKSUM_SHA256 : Int := 0x2
def OP_CKSUM_MD5 : Int := 0x3

inductive Checksum where
  | crc32
  | sha256
  | md5
  deriving DecidableEq

def Checksum.code : Checksum → Int
  | .crc32 => OP_CKSUM_CRC32
  | .sha256 => OP_CKSUM_SHA256
  | .md5 => OP_CKSUM_MD5

/-- `sizeof(uint32_t)`, `SHA256_DIGEST_LENGTH` and `MD5_DIGEST_LENGTH`. -/
def Checksum.length : Checksum → Nat
  | .crc32 => 4
  | .sha256 => 32
  | .md5 => 16

/-- The `switch` over the algorithms. -/
def checksumOf (algo : Int) : Option Checksum :=
  if algo = OP_CKSUM_CRC32 then some .crc32
  else if algo = OP_CKSUM_SHA256 then some .sha256
  else if algo = OP_CKSUM_MD5 then some .md5
  else none

/-- How a checksum ends, and the bytes it has put at `out`. -/
structure ChecksumExit where
  ret : Int
  op : Option PartHandle
  errno : Errno
  out : Option (List UInt8)

/-- What follows the loop. -/
def checksumExit (hash : Streaming UInt8 (List UInt8)) (errno : Errno) (op : PartHandle)
    (r : hash.State × Except Errno Unit) : ChecksumExit :=
  match r.2 with
  | .error e => ⟨-1, some { op with err := e }, e, none⟩
  | .ok () => ⟨0, some op, errno, some (hash.final r.1)⟩

section

variable (lfs : FileOffsetBits) (answers : Answers) (content : List UInt8)
  (hashes : Checksum → Streaming UInt8 (List UInt8)) (errno : Errno)

/-- `openpart_checksum`, given up after `fuel` turns of its loop. `out` says whether there is a
buffer for the digest. -/
def openpart_checksum (op : Option PartHandle) (algo : Int) (out : Bool) (len fuel : Nat) : Option ChecksumExit :=
  match op, out with
  | some op, true =>
    match checksumOf algo with
    | none => some ⟨-1, some { op with err := EINVAL }, errno, none⟩
    | some c =>
      if len < c.length then some ⟨-1, some { op with err := EINVAL }, errno, none⟩
      else
        (transferLoop 4096 (answers.call lfs (Bytes.slice content))
          (fun s _ bytes => (hashes c).update s bytes) 0 op.size.toNat (hashes c).init fuel).map
            (checksumExit (hashes c) errno op)
  | op, _ => some ⟨-1, op, EINVAL, none⟩

end

/-- A checksum ends with the digest of the first `n` bytes of the content, or fails. -/
structure Checksummed (hash : Streaming UInt8 (List UInt8)) (content : List UInt8) (n : Nat)
    (run : Nat → Option ChecksumExit) : Prop where
  ends : ∃ fuel x, run fuel = some x
  right : ∀ fuel x, run fuel = some x →
    x.ret = 0 ∧ n ≤ content.length ∧ x.out = some (hash.digest (content.take n)) ∨ x.ret = -1

section

variable {lfs : FileOffsetBits} {answers : Answers} {content : List UInt8}
  {hashes : Checksum → Streaming UInt8 (List UInt8)} {errno : Errno} {op : PartHandle} {len : Nat}

@[simp] theorem checksumOf_code (c : Checksum) : checksumOf c.code = some c := by
  cases c <;> decide

/-- The hash has taken the first `p` bytes of the content. -/
structure HashedTo (hash : Streaming UInt8 (List UInt8)) (content : List UInt8) (p : Nat) (s : hash.State) :
    Prop where
  state : s = hash.update hash.init (content.take p)
  within : p ≤ content.length

theorem checksum_keeps (hash : Streaming UInt8 (List UInt8)) (size : Nat) :
    Pieces.Keeps size 4096 (answers.piece lfs (Bytes.slice content) (lfs.base 0))
      (fun s _ bytes => hash.update s bytes) (fun _ => HashedTo hash content) := by
  intro i p s piece hp hs hpiece
  obtain ⟨hbelow, length, _, rfl⟩ := piece_ok_iff.mp hpiece
  have hlength := Bytes.slice_length content (lfs.base 0 + p) (min (min 4096 (size - p)) (max length 1))
  have hwithin := hs.within
  rw [base_zero, Nat.zero_add] at hlength ⊢
  refine ⟨?_, by omega⟩
  rw [hs.state]
  have hupdate := hash.update_slice content p (min (min 4096 (size - p)) (max length 1))
  rw [← Bytes.take_add_slice_length] at hupdate
  exact hupdate

theorem hashedTo_zero (hash : Streaming UInt8 (List UInt8)) (content : List UInt8) :
    HashedTo hash content 0 hash.init :=
  ⟨(hash.update_nil _).symm, Nat.zero_le _⟩

/-- With a buffer for its digest, what a checksum does is what its loop does. -/
theorem openpart_checksum_eq (c : Checksum) (hlen : c.length ≤ len) (fuel : Nat) :
    openpart_checksum lfs answers content hashes errno (some op) c.code true len fuel =
      (transferLoop 4096 (answers.call lfs (Bytes.slice content))
        (fun s _ bytes => (hashes c).update s bytes) 0 op.size.toNat (hashes c).init fuel).map
          (checksumExit (hashes c) errno op) := by
  unfold openpart_checksum
  simp only [checksumOf_code]
  exact if_neg (by omega)

theorem openpart_checksum_right (c : Checksum) (hlen : c.length ≤ len) {fuel : Nat} {x : ChecksumExit}
    (h : openpart_checksum lfs answers content hashes errno (some op) c.code true len fuel = some x) :
    x.ret = 0 ∧ op.size.toNat ≤ content.length ∧
      x.out = some ((hashes c).digest (content.take op.size.toNat)) ∨ x.ret = -1 := by
  rw [openpart_checksum_eq c hlen] at h
  obtain ⟨r, hr, hx⟩ := Option.map_eq_some_iff.mp h
  unfold checksumExit at hx
  rcases transferLoop_keeps (slice_length_le content) (buffer_le lfs) (hashedTo_zero (hashes c) content)
    (checksum_keeps (hashes c) op.size.toNat) hr with ⟨_, hall, hok⟩ | ⟨e, _, _, _, _, _, herror⟩
  · rw [hok] at hx
    cases hx
    refine Or.inl ⟨rfl, hall.within, ?_⟩
    have hstate := congrArg (hashes c).final hall.state
    exact congrArg some hstate
  · rw [herror] at hx
    cases hx
    exact Or.inr rfl

theorem openpart_checksum_ends_iff (c : Checksum) (hlen : c.length ≤ len) :
    (∃ fuel x, openpart_checksum lfs answers content hashes errno (some op) c.code true len fuel = some x) ↔
      op.size.toNat ≤ content.length ∨ 2 ^ (lfs.width - 1) ≤ content.length ∨ ∃ i e, answers i = .error e := by
  have hloop := @readLoop_ends_iff _ lfs 4096 op.size.toNat 0 answers
    (fun s _ bytes => (hashes c).update s bytes) (hashes c).init content (buffer_le lfs) (by decide)
  rw [base_zero, Nat.zero_add, Nat.zero_max] at hloop
  have hmap : (∃ fuel x, openpart_checksum lfs answers content hashes errno (some op) c.code true len fuel = some x) ↔
      ∃ fuel r, transferLoop 4096 (answers.call lfs (Bytes.slice content))
        (fun s _ bytes => (hashes c).update s bytes) 0 op.size.toNat (hashes c).init fuel = some r := by
    simp only [openpart_checksum_eq c hlen, Option.map_eq_some_iff]
    constructor
    · intro h
      obtain ⟨fuel, x, r, hr, _⟩ := h
      exact ⟨fuel, r, hr⟩
    · intro h
      obtain ⟨fuel, r, hr⟩ := h
      exact ⟨fuel, _, r, hr, rfl⟩
  rw [hmap, hloop]
  constructor
  · intro h
    rcases h with h | h
    · exact Or.inl (by omega)
    · exact h
  · exact Or.inr

end

/-- A checksum does its work just if the content still has the size of the handle, or a call
fails: the buffer is refused, a read fails, or `off_t` has no word for where the content ends. -/
theorem openpart_checksum_iff (lfs : FileOffsetBits) (answers : Answers) (content : List UInt8)
    (hashes : Checksum → Streaming UInt8 (List UInt8)) (errno : Errno) (op : PartHandle) (c : Checksum) (len : Nat) :
    Checksummed (hashes c) content op.size.toNat
        (openpart_checksum lfs answers content hashes errno (some op) c.code true len) ↔
      len < c.length ∨ op.size.toNat ≤ content.length ∨ 2 ^ (lfs.width - 1) ≤ content.length ∨
        ∃ i e, answers i = .error e := by
  by_cases hlen : len < c.length
  · have hrun : ∀ fuel, openpart_checksum lfs answers content hashes errno (some op) c.code true len fuel =
        some ⟨-1, some { op with err := EINVAL }, errno, none⟩ := by
      intro fuel
      unfold openpart_checksum
      simp only [checksumOf_code]
      exact if_pos hlen
    refine iff_of_true ⟨⟨0, _, hrun 0⟩, ?_⟩ (Or.inl hlen)
    intro fuel x hx
    rw [hrun] at hx
    cases hx
    exact Or.inr rfl
  · have hends := @openpart_checksum_ends_iff lfs answers content hashes errno op len c (by omega)
    constructor
    · intro h
      exact Or.inr (hends.mp h.ends)
    · intro h
      rcases h with h | h
      · exact absurd h hlen
      · exact ⟨hends.mpr h, fun _ _ hx => openpart_checksum_right c (by omega) hx⟩

/-- One bit of the CRC that zlib computes. -/
def crcBit (crc : UInt32) : UInt32 := if crc &&& 1 = 1 then (crc >>> 1) ^^^ 0xEDB88320 else crc >>> 1

def crcByte (crc : UInt32) (b : UInt8) : UInt32 := crcBit^[8] (crc ^^^ b.toUInt32)

/-- CRC32, its digest as the four bytes of a `uint32_t` in memory. -/
def crc32 : Streaming UInt8 (List UInt8) :=
  Streaming.ofFold crcByte 0xFFFFFFFF fun crc =>
    [(crc ^^^ 0xFFFFFFFF).toUInt8, ((crc ^^^ 0xFFFFFFFF) >>> 8).toUInt8, ((crc ^^^ 0xFFFFFFFF) >>> 16).toUInt8,
      ((crc ^^^ 0xFFFFFFFF) >>> 24).toUInt8]

example : crc32.digest [0x31, 0x32, 0x33, 0x34, 0x35, 0x36, 0x37, 0x38, 0x39] = [0x26, 0x39, 0xF4, 0xCB] := by
  decide +kernel

/-- A handle on a file of one byte, which may be truncated while it is open. -/
def byteHandle : PartHandle := { fd := 5, flags := OP_RDWR, sector_size := 4096, size := 1 }

/-- The file has become empty: the checksum does not end. -/
theorem checksum_of_truncated_file :
    (∀ fuel, openpart_checksum .bits64 (fun _ => .ok 1) [] (fun _ => crc32) 0 (some byteHandle) 1 true 4 fuel =
      none) ∧
      ¬ Checksummed crc32 [] byteHandle.size.toNat
        (openpart_checksum .bits64 (fun _ => .ok 1) [] (fun _ => crc32) 0 (some byteHandle) 1 true 4) := by
  have hends := @openpart_checksum_ends_iff .bits64 (fun _ => .ok 1) [] (fun _ => crc32) 0 byteHandle 4 .crc32
    (by decide)
  have hnever : ¬ ∃ fuel x, openpart_checksum .bits64 (fun _ => .ok 1) [] (fun _ => crc32) 0 (some byteHandle) 1
      true 4 fuel = some x := by
    intro h
    rcases hends.mp h with hsize | hfits | ⟨i, e, he⟩
    · exact absurd hsize (by decide)
    · exact absurd hfits (by decide)
    · cases he
  refine ⟨?_, fun h => hnever h.ends⟩
  intro fuel
  cases hrun : openpart_checksum .bits64 (fun _ => .ok 1) [] (fun _ => crc32) 0 (some byteHandle) 1 true 4 fuel with
  | none => rfl
  | some x => exact absurd ⟨fuel, x, hrun⟩ hnever

end PartitionManager
