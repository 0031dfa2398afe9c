import PartitionManager.Basic
import PartitionManager.Library.Buffers
import PartitionManager.Library.Loop

namespace PartitionManager

/-- The `i`-th byte of a magic, from the least significant one on. -/
def magicByte (magic : UInt64) (i : Nat) : UInt64 := (magic >>> UInt64.ofNat (8 * i)) &&& 0xFF

def getMagicLength (magic : UInt64) : Nat :=
  (List.range 8).foldl (fun length i => if magicByte magic i ≠ 0 then i + 1 else length) 0

/-- The bytes of a magic in little-endian order, without leading zero bytes. -/
def magicBytes (magic : UInt64) : List UInt8 :=
  (List.range (getMagicLength magic)).map fun i => (magicByte magic i).toUInt8

/-- A file that is searched: whether it opens, what it holds, and what the read returns. -/
structure MagicFile where
  opens : Bool
  content : List UInt8
  bytesRead : Int

/-- The scan: where it stands, and the indices of the buffer that it has read. -/
structure MagicScan where
  i : Nat
  reads : List Nat

structure MagicExit where
  result : Outcome Bool
  reads : List Nat

/-- The bytes that the read puts into the buffer. -/
def MagicFile.data (file : MagicFile) : List UInt8 := file.content.take file.bytesRead.toNat

/-- The buffer after the read. It was all zero before. -/
def MagicFile.buffer (file : MagicFile) (buf : Nat) : List UInt8 :=
  Bytes.overwrite (List.replicate buf 0) 0 file.data

section

variable (abi : Abi) (buffer : List UInt8) (magic : UInt64)

/-- The inner loop over `j`, and the indices it reads. -/
def magicValue (i : Nat) : List Nat → UInt64 → List Nat → Outcome UInt64 × List Nat
  | [], value, reads => (.ok value, reads)
  | j :: js, value, reads =>
    let index := abi.toSize (i + j)
    match buffer[index]? with
    | none => (.error (.undefined .indexOutOfRange), reads ++ [index])
    | some byte => magicValue i js (value ||| (byte.toUInt64 <<< UInt64.ofNat (8 * j))) (reads ++ [index])

/-- One turn of the outer loop. The bound is a difference of `size_t`. -/
def magicTurn (bytesRead : Int) (s : MagicScan) : Loop.Turn MagicScan MagicExit :=
  if s.i ≤ abi.toSize (bytesRead - getMagicLength magic) then
    match magicValue abi buffer s.i (List.range (getMagicLength magic)) 0 s.reads with
    | (.error stop, reads) => .leave ⟨.error stop, reads⟩
    | (.ok value, reads) =>
      if value = magic then .leave ⟨.ok true, reads⟩
      else .again ⟨abi.toSize (s.i + 1), reads⟩
  else .leave ⟨.ok false, s.reads⟩

/-- `hasMagic`, given up after `fuel` turns of its loop. -/
def hasMagic (buf : Int) (file : MagicFile) (fuel : Nat) : MagicExit :=
  if !file.opens then ⟨.ok false, []⟩
  else if buf < 1 then ⟨.ok false, []⟩
  else if file.bytesRead < 0 then ⟨.ok false, []⟩
  else if getMagicLength magic = 0 then ⟨.ok false, []⟩
  else
    match Loop.run (magicTurn abi (file.buffer buf.toNat) magic file.bytesRead) fuel ⟨0, []⟩ with
    | .again s => ⟨.error .never, s.reads⟩
    | .leave exit => exit

/-- The search returns, with the truth about the bytes it was given and without a read of others. -/
def SearchesWhatWasRead (buf : Int) (file : MagicFile) : Prop :=
  ∃ fuel found, (hasMagic abi magic buf file fuel).result = .ok found ∧
    (found = true ↔ magicBytes magic <:+: file.data) ∧
    ∀ index ∈ (hasMagic abi magic buf file fuel).reads, (index : Int) < file.bytesRead

/-- The file opens, and the read returns some of its bytes, as many as the buffer has room for at most. -/
structure MagicFile.ReadInto (file : MagicFile) (buf : Int) : Prop where
  opens : file.opens = true
  buffer : 1 ≤ buf ∧ buf ≤ abi.SSIZE_MAX
  bytesRead : 0 ≤ file.bytesRead ∧ file.bytesRead ≤ buf
  content : file.bytesRead ≤ file.content.length

end

theorem magicByte_toNat (magic : UInt64) {i : Nat} (h : i < 8) :
    (magicByte magic i).toNat = magic.toNat / 256 ^ i % 256 := by
  have hshift : (UInt64.ofNat (8 * i)).toNat % 64 = 8 * i := by
    rw [UInt64.toNat_ofNat']
    omega
  have hmask : (0xFF : UInt64).toNat = 2 ^ 8 - 1 := rfl
  unfold magicByte
  rw [UInt64.toNat_and, UInt64.toNat_shiftRight, hshift, hmask, Nat.and_two_pow_sub_one_eq_mod,
    Nat.shiftRight_eq_div_pow, Nat.pow_mul]

/-- Below `n` bytes nothing is left of a magic above the last byte that is not zero. -/
theorem length_foldl_spec (magic : UInt64) {n : Nat} (hn : n ≤ 8) :
    (List.range n).foldl (fun length i => if magicByte magic i ≠ 0 then i + 1 else length) 0 ≤ n ∧
      magic.toNat % 256 ^ n <
        256 ^ (List.range n).foldl (fun length i => if magicByte magic i ≠ 0 then i + 1 else length) 0 := by
  induction n with
  | zero => exact ⟨Nat.le_refl 0, Nat.mod_lt _ (by omega)⟩
  | succ n ih =>
    obtain ⟨hle, hlt⟩ := ih (by omega)
    rw [List.range_succ, List.foldl_append]
    show (if magicByte magic n ≠ 0 then n + 1 else _) ≤ n + 1 ∧ _ < 256 ^ (if magicByte magic n ≠ 0 then n + 1 else _)
    by_cases hzero : magicByte magic n = 0
    · have hbyte : magic.toNat / 256 ^ n % 256 = 0 := by
        rw [← magicByte_toNat magic (by omega), hzero]
        rfl
      rw [if_neg (not_not_intro hzero), Nat.mod_pow_succ, hbyte]
      exact ⟨by omega, hlt⟩
    · rw [if_pos hzero]
      exact ⟨Nat.le_refl _, Nat.mod_lt _ (Nat.pow_pos (by omega))⟩

theorem getMagicLength_le (magic : UInt64) : getMagicLength magic ≤ 8 := (length_foldl_spec magic (Nat.le_refl 8)).1

theorem lt_pow_getMagicLength (magic : UInt64) : magic.toNat < 256 ^ getMagicLength magic := by
  have hlt := (length_foldl_spec magic (Nat.le_refl 8)).2
  have hbound := magic.toNat_lt
  rw [Nat.mod_eq_of_lt (by omega)] at hlt
  exact hlt

theorem getMagicLength_pos {magic : UInt64} (h : magic ≠ 0) : 1 ≤ getMagicLength magic := by
  by_contra hzero
  have hlt := lt_pow_getMagicLength magic
  rw [show getMagicLength magic = 0 by omega] at hlt
  exact h (UInt64.toNat_inj.mp (show magic.toNat = 0 by omega))

@[simp] theorem magicBytes_length (magic : UInt64) : (magicBytes magic).length = getMagicLength magic := by
  simp [magicBytes]

theorem decode_magicBytes (magic : UInt64) : Bytes.decode (magicBytes magic) = magic.toNat := by
  have hdigits : ∀ n, n ≤ 8 →
      Bytes.decode ((List.range n).map fun i => (magicByte magic i).toUInt8) = magic.toNat % 256 ^ n := by
    intro n
    induction n with
    | zero =>
      intro _
      rw [Nat.pow_zero, Nat.mod_one]
      rfl
    | succ n ih =>
      intro hn
      have hbyte : (magicByte magic n).toUInt8.toNat = magic.toNat / 256 ^ n % 256 := by
        rw [UInt64.toNat_toUInt8, magicByte_toNat magic (by omega)]
        omega
      rw [List.range_succ, List.map_append, Bytes.decode_append, ih (by omega), List.length_map, List.length_range,
        Nat.mod_pow_succ, List.map_singleton, Bytes.decode_cons, Bytes.decode_nil, hbyte]
      rfl
  rw [magicBytes, hdigits _ (getMagicLength_le magic), Nat.mod_eq_of_lt (lt_pow_getMagicLength magic)]

section

variable {abi : Abi} {buffer data : List UInt8} {magic : UInt64} {file : MagicFile} {buf : Int}

theorem toSize_add {i j : Nat} (h : i + j < 2 ^ abi.bits) : abi.toSize ((i : Int) + j) = i + j := by
  rw [← Nat.cast_add, Abi.toSize_natCast h]

theorem or_byte_toNat {value : UInt64} {bytes : List UInt8} (hvalue : value.toNat = Bytes.decode bytes)
    (hlength : bytes.length < 8) (byte : UInt8) :
    (value ||| (byte.toUInt64 <<< UInt64.ofNat (8 * bytes.length))).toNat = Bytes.decode (bytes ++ [byte]) := by
  have hshift : (UInt64.ofNat (8 * bytes.length)).toNat % 64 = 8 * bytes.length := by
    rw [UInt64.toNat_ofNat']
    omega
  have hpow : 256 ^ bytes.length = 2 ^ (8 * bytes.length) := (Nat.pow_mul 2 8 _).symm
  have hsmall := Bytes.decode_lt bytes
  have hbyte := byte.toNat_lt
  have htop : byte.toNat * 2 ^ (8 * bytes.length) < 2 ^ 64 := by
    have hmul : byte.toNat * 2 ^ (8 * bytes.length) < 2 ^ 8 * 2 ^ (8 * bytes.length) :=
      Nat.mul_lt_mul_of_pos_right hbyte (Nat.two_pow_pos _)
    have hle : 2 ^ (8 + 8 * bytes.length) ≤ 2 ^ 64 := Nat.pow_le_pow_right (by omega) (by omega)
    rw [Nat.pow_add] at hle
    omega
  rw [UInt64.toNat_or, UInt64.toNat_shiftLeft, hshift, UInt8.toNat_toUInt64, Nat.shiftLeft_eq,
    Nat.mod_eq_of_lt htop, hvalue, Bytes.decode_append, Bytes.decode_cons, Bytes.decode_nil, Nat.or_comm,
    Nat.mul_comm, hpow]
  rw [hpow] at hsmall
  rw [← Nat.two_pow_add_eq_or_of_lt hsmall, Nat.mul_zero, Nat.add_zero, Nat.add_comm]

/-- Within the buffer the inner loop puts the bytes together in little-endian order. -/
theorem magicValue_eq {i j n : Nat} {value : UInt64} {reads : List Nat} (hj : j + n ≤ 8)
    (hi : i + (j + n) ≤ buffer.length) (hbuffer : buffer.length ≤ abi.SSIZE_MAX)
    (hvalue : value.toNat = Bytes.decode (Bytes.slice buffer i j)) :
    ∃ v, magicValue abi buffer i (List.range' j n) value reads = (.ok v, reads ++ List.range' (i + j) n) ∧
      v.toNat = Bytes.decode (Bytes.slice buffer i (j + n)) := by
  induction n generalizing j value reads with
  | zero => exact ⟨value, by simp [magicValue], hvalue⟩
  | succ n ih =>
    have hmax := Abi.SSIZE_MAX_lt abi
    have hindex : abi.toSize ((i : Int) + j) = i + j := toSize_add (by omega)
    have hget : buffer[i + j]? = some buffer[i + j] := List.getElem?_eq_getElem (by omega)
    have hlength := Bytes.slice_length buffer i j
    have hslice : (Bytes.slice buffer i j).length = j := by omega
    have hor := or_byte_toNat hvalue (by omega) buffer[i + j]
    rw [hslice, ← Bytes.slice_succ] at hor
    obtain ⟨v, hrun, hv⟩ := @ih (j + 1) _ (reads ++ [i + j]) (by omega) (by omega) hor
    refine ⟨v, ?_, ?_⟩
    · rw [List.range'_succ, List.range'_succ, magicValue]
      simp only [hindex, hget]
      rw [hrun, List.append_assoc]
      rfl
    · rw [hv]
      congr 2
      omega

/-- An inner loop that ends has read every index, and what was read before stays recorded. -/
theorem mem_reads_of_ok {i : Nat} {js : List Nat} {value v : UInt64} {reads reads' : List Nat}
    (h : magicValue abi buffer i js value reads = (.ok v, reads')) :
    (∀ index ∈ reads, index ∈ reads') ∧ ∀ j ∈ js, abi.toSize ((i : Int) + j) ∈ reads' := by
  induction js generalizing value reads with
  | nil =>
    cases h
    exact ⟨fun _ hindex => hindex, fun _ hj => absurd hj List.not_mem_nil⟩
  | cons j js ih =>
    rw [magicValue] at h
    cases hget : buffer[abi.toSize ((i : Int) + j)]? with
    | none =>
      simp only [hget] at h
      cases h
    | some byte =>
      simp only [hget] at h
      obtain ⟨hold, hnew⟩ := ih h
      refine ⟨fun index hindex => hold index (List.mem_append_left _ hindex), fun k hk => ?_⟩
      rcases List.mem_cons.mp hk with rfl | hk
      · exact hold _ (List.mem_append_right _ (List.mem_singleton_self _))
      · exact hnew k hk

theorem buffer_eq (file : MagicFile) (n : Nat) :
    file.buffer n = file.data ++ List.replicate (n - file.data.length) 0 := by
  unfold MagicFile.buffer Bytes.overwrite
  rw [List.take_zero, List.nil_append, Nat.zero_add, List.drop_replicate]

namespace MagicFile.ReadInto

theorem data_length (h : file.ReadInto abi buf) : (file.data.length : Int) = file.bytesRead := by
  have hcontent := h.content
  have hread := h.bytesRead
  unfold MagicFile.data
  rw [List.length_take]
  omega

theorem buffer_length (h : file.ReadInto abi buf) : (file.buffer buf.toNat).length = buf.toNat := by
  have hdata := h.data_length
  have hread := h.bytesRead
  rw [buffer_eq, List.length_append, List.length_replicate]
  omega

/-- With room for the magic the difference does not wrap. -/
theorem scan_bound (h : file.ReadInto abi buf) (hlong : getMagicLength magic ≤ file.data.length) :
    abi.toSize (file.bytesRead - getMagicLength magic) = file.data.length - getMagicLength magic := by
  have hdata := h.data_length
  have hread := h.bytesRead
  have hbuf := h.buffer
  have hmax := Abi.SSIZE_MAX_lt abi
  have hdiff : file.bytesRead - (getMagicLength magic : Int) =
      ((file.data.length - getMagicLength magic : Nat) : Int) := by omega
  rw [hdiff, Abi.toSize_natCast (by omega)]

/-- A turn within what was read: it compares the bytes that begin there. -/
theorem turn_inside (h : file.ReadInto abi buf) {s : MagicScan} (hpos : 1 ≤ getMagicLength magic)
    (hi : s.i + getMagicLength magic ≤ file.data.length) :
    magicTurn abi (file.buffer buf.toNat) magic file.bytesRead s =
      if Bytes.slice file.data s.i (getMagicLength magic) = magicBytes magic then
        .leave ⟨.ok true, s.reads ++ List.range' s.i (getMagicLength magic)⟩
      else .again ⟨s.i + 1, s.reads ++ List.range' s.i (getMagicLength magic)⟩ := by
  have hdata := h.data_length
  have hread := h.bytesRead
  have hbuf := h.buffer
  have hlength := h.buffer_length
  have hmax := Abi.SSIZE_MAX_lt abi
  have height := getMagicLength_le magic
  have hlong : getMagicLength magic ≤ file.data.length := by omega
  have hbound := h.scan_bound hlong
  have hnext : abi.toSize ((s.i : Int) + 1) = s.i + 1 := toSize_add (j := 1) (by omega)
  obtain ⟨v, hrun, hv⟩ := @magicValue_eq abi (file.buffer buf.toNat) s.i 0 (getMagicLength magic) 0 s.reads (by omega)
    (by omega) (by omega) rfl
  rw [Nat.zero_add, buffer_eq, Bytes.slice_of_append hi] at hv
  have hequal : v = magic ↔ Bytes.slice file.data s.i (getMagicLength magic) = magicBytes magic := by
    rw [← UInt64.toNat_inj, hv, ← decode_magicBytes magic]
    have hslice := Bytes.slice_length file.data s.i (getMagicLength magic)
    constructor
    · intro heq
      exact Bytes.decode_inj (by rw [magicBytes_length]; omega) heq
    · intro heq
      rw [heq]
  unfold magicTurn
  rw [if_pos (by omega), List.range_eq_range', hrun]
  simp only [hnext, Nat.add_zero, hequal]

theorem turn_past (h : file.ReadInto abi buf) {s : MagicScan} (hlong : getMagicLength magic ≤ file.data.length)
    (hi : file.data.length < s.i + getMagicLength magic) :
    magicTurn abi (file.buffer buf.toNat) magic file.bytesRead s = .leave ⟨.ok false, s.reads⟩ := by
  have hdata := h.data_length
  have hbound := h.scan_bound hlong
  unfold magicTurn
  rw [if_neg (by omega)]

/-- What the scan has done before a turn: no match began before it, and only bytes of the read were looked at. -/
structure ScannedTo (magic : UInt64) (data : List UInt8) (s : MagicScan) : Prop where
  position : s.i + getMagicLength magic ≤ data.length + 1
  reads : ∀ index ∈ s.reads, index < data.length
  missed : ∀ k < s.i, Bytes.slice data k (getMagicLength magic) ≠ magicBytes magic

theorem reads_lt {s : MagicScan} (hs : ScannedTo magic file.data s)
    (hi : s.i + getMagicLength magic ≤ file.data.length) :
    ∀ index ∈ s.reads ++ List.range' s.i (getMagicLength magic), index < file.data.length := by
  intro index hindex
  rcases List.mem_append.mp hindex with hold | hnew
  · exact hs.reads index hold
  · have hrange := List.mem_range'_1.mp hnew
    omega

theorem scannedTo_again (h : file.ReadInto abi buf) (hpos : 1 ≤ getMagicLength magic)
    (hlong : getMagicLength magic ≤ file.data.length) {s s' : MagicScan} (hs : ScannedTo magic file.data s)
    (hturn : magicTurn abi (file.buffer buf.toNat) magic file.bytesRead s = .again s') :
    ScannedTo magic file.data s' ∧ file.data.length + 1 - s'.i < file.data.length + 1 - s.i := by
  rcases Nat.lt_or_ge file.data.length (s.i + getMagicLength magic) with hpast | hin
  · rw [h.turn_past hlong hpast] at hturn
    cases hturn
  · rw [h.turn_inside hpos hin] at hturn
    split at hturn
    next => cases hturn
    next hmiss =>
      cases hturn
      refine ⟨⟨?_, reads_lt hs hin, ?_⟩, ?_⟩
      · show s.i + 1 + getMagicLength magic ≤ file.data.length + 1
        omega
      · intro k hk
        rcases Nat.lt_or_ge k s.i with hlt | hge
        · exact hs.missed k hlt
        · have hlast : k = s.i := by
            have hk' : k < s.i + 1 := hk
            omega
          rw [hlast]
          exact hmiss
      · show file.data.length + 1 - (s.i + 1) < file.data.length + 1 - s.i
        omega

theorem scannedTo_leave (h : file.ReadInto abi buf) (hpos : 1 ≤ getMagicLength magic)
    (hlong : getMagicLength magic ≤ file.data.length) {s : MagicScan} {exit : MagicExit}
    (hs : ScannedTo magic file.data s)
    (hturn : magicTurn abi (file.buffer buf.toNat) magic file.bytesRead s = .leave exit) :
    ∃ found, exit.result = .ok found ∧ (found = true ↔ magicBytes magic <:+: file.data) ∧
      ∀ index ∈ exit.reads, index < file.data.length := by
  have hoccurs := @Bytes.infix_iff_slice _ (magicBytes magic) file.data
  rw [magicBytes_length] at hoccurs
  rcases Nat.lt_or_ge file.data.length (s.i + getMagicLength magic) with hpast | hin
  · rw [h.turn_past hlong hpast] at hturn
    cases hturn
    refine ⟨false, rfl, ⟨fun hfound => (nomatch hfound), fun hinfix => ?_⟩, hs.reads⟩
    obtain ⟨k, hk, hslice⟩ := hoccurs.mp hinfix
    exact absurd hslice (hs.missed k (by omega))
  · rw [h.turn_inside hpos hin] at hturn
    split at hturn
    next hmatch =>
      cases hturn
      exact ⟨true, rfl, ⟨fun _ => hoccurs.mpr ⟨s.i, hin, hmatch⟩, fun _ => rfl⟩, reads_lt hs hin⟩
    next => cases hturn

theorem search_returns (h : file.ReadInto abi buf) (hpos : 1 ≤ getMagicLength magic)
    (hlong : getMagicLength magic ≤ file.data.length) :
    ∃ exit, Loop.Returns (magicTurn abi (file.buffer buf.toNat) magic file.bytesRead) ⟨0, []⟩ exit ∧
      ∃ found, exit.result = .ok found ∧ (found = true ↔ magicBytes magic <:+: file.data) ∧
        ∀ index ∈ exit.reads, index < file.data.length := by
  have hstart : ScannedTo magic file.data ⟨0, []⟩ := by
    refine ⟨?_, fun _ hindex => absurd hindex List.not_mem_nil, fun k hk => absurd hk (Nat.not_lt_zero k)⟩
    show 0 + getMagicLength magic ≤ file.data.length + 1
    omega
  obtain ⟨exit, hreturns⟩ := Loop.returns_of_measure (I := ScannedTo magic file.data)
    (fun s => file.data.length + 1 - s.i) (fun _ _ hs hturn => scannedTo_again h hpos hlong hs hturn) hstart
  obtain ⟨k, s, hat, hturn⟩ := Loop.last_turn hreturns
  have hs := Loop.at_invariant (fun _ _ hs hturn => (scannedTo_again h hpos hlong hs hturn).1) hstart hat
  exact ⟨exit, hreturns, scannedTo_leave h hpos hlong hs hturn⟩

end MagicFile.ReadInto

/-- A turn that goes on has read every byte it compares. -/
theorem reads_of_again {bytesRead : Int} {s s' : MagicScan} (hturn : magicTurn abi buffer magic bytesRead s = .again s') :
    (∀ index ∈ s.reads, index ∈ s'.reads) ∧
      ∀ j ∈ List.range (getMagicLength magic), abi.toSize ((s.i : Int) + j) ∈ s'.reads := by
  unfold magicTurn at hturn
  split at hturn
  next =>
    split at hturn
    next => cases hturn
    next value reads hvalue =>
      split at hturn
      next => cases hturn
      next =>
        cases hturn
        exact mem_reads_of_ok hvalue
  next => cases hturn

/-- So has one that answers, unless it is past the bound, which the first turn never is. -/
theorem reads_of_leave {bytesRead : Int} {s : MagicScan} {exit : MagicExit} {found : Bool}
    (hturn : magicTurn abi buffer magic bytesRead s = .leave exit) (hfound : exit.result = .ok found) :
    (∀ index ∈ s.reads, index ∈ exit.reads) ∧
      (s.i = 0 → ∀ j ∈ List.range (getMagicLength magic), abi.toSize ((s.i : Int) + j) ∈ exit.reads) := by
  unfold magicTurn at hturn
  split at hturn
  next =>
    split at hturn
    next =>
      cases hturn
      cases hfound
    next value reads hvalue =>
      obtain ⟨hold, hnew⟩ := mem_reads_of_ok hvalue
      split at hturn
      next =>
        cases hturn
        exact ⟨hold, fun _ => hnew⟩
      next => cases hturn
  next hpast =>
    cases hturn
    exact ⟨fun _ hindex => hindex, fun hzero => absurd (hzero ▸ Nat.zero_le _) hpast⟩

/-- Whatever was read, a search that answers has looked at as many bytes as the magic has. -/
theorem last_index_read {bytesRead : Int} (hpos : 1 ≤ getMagicLength magic) {exit : MagicExit} {found : Bool}
    (hreturns : Loop.Returns (magicTurn abi buffer magic bytesRead) ⟨0, []⟩ exit)
    (hfound : exit.result = .ok found) : getMagicLength magic - 1 ∈ exit.reads := by
  have hlast : getMagicLength magic - 1 ∈ List.range (getMagicLength magic) := List.mem_range.mpr (by omega)
  have hindex : abi.toSize ((0 : Nat) + (getMagicLength magic - 1 : Nat)) = getMagicLength magic - 1 := by
    have hle := getMagicLength_le magic
    have hmax := Abi.SSIZE_MAX_lt abi
    have height : 8 ≤ abi.SSIZE_MAX := by cases abi <;> decide
    rw [toSize_add (by omega), Nat.zero_add]
  obtain ⟨k, s, hat, hturn⟩ := Loop.last_turn hreturns
  -- after the first turn the index is on record
  have hrecord : s = ⟨0, []⟩ ∨ getMagicLength magic - 1 ∈ s.reads := by
    refine Loop.at_invariant (I := fun s => s = ⟨0, []⟩ ∨ getMagicLength magic - 1 ∈ s.reads) ?_ (Or.inl rfl) hat
    intro s s' hs hagain
    obtain ⟨hold, hnew⟩ := reads_of_again hagain
    rcases hs with rfl | hmem
    · have hread := hnew _ hlast
      rw [hindex] at hread
      exact Or.inr hread
    · exact Or.inr (hold _ hmem)
  obtain ⟨hold, hnew⟩ := reads_of_leave hturn hfound
  rcases hrecord with rfl | hmem
  · have hread := hnew rfl _ hlast
    rw [hindex] at hread
    exact hread
  · exact hold _ hmem

/-- Past its checks the answer of `hasMagic` is that of the search. -/
theorem hasMagic_eq (h : file.ReadInto abi buf) (hpos : 1 ≤ getMagicLength magic) (fuel : Nat) :
    hasMagic abi magic buf file fuel =
      match Loop.run (magicTurn abi (file.buffer buf.toNat) magic file.bytesRead) fuel ⟨0, []⟩ with
      | .again s => ⟨.error .never, s.reads⟩
      | .leave exit => exit := by
  have hbuf := h.buffer
  have hread := h.bytesRead
  unfold hasMagic
  rw [h.opens, if_neg (by decide), if_neg (by omega), if_neg (by omega), if_neg (by omega)]

theorem getMagicLength_le_of_searches (hpos : 1 ≤ getMagicLength magic) (h : file.ReadInto abi buf)
    (hsearch : SearchesWhatWasRead abi magic buf file) : (getMagicLength magic : Int) ≤ file.bytesRead := by
  obtain ⟨fuel, found, hfound, _, hreads⟩ := hsearch
  rw [hasMagic_eq h hpos] at hfound hreads
  cases hrun : Loop.run (magicTurn abi (file.buffer buf.toNat) magic file.bytesRead) fuel ⟨0, []⟩ with
  | again s =>
    rw [hrun] at hfound
    cases hfound
  | leave exit =>
    rw [hrun] at hfound hreads
    have hlast := hreads _ (last_index_read hpos ⟨fuel, hrun⟩ hfound)
    omega

/-- `hasMagic` searches the bytes that were read, and only those, just when the magic is
not longer than they are. -/
theorem hasMagic_exact_iff (hmagic : magic ≠ 0) (h : file.ReadInto abi buf) :
    SearchesWhatWasRead abi magic buf file ↔ (getMagicLength magic : Int) ≤ file.bytesRead := by
  have hpos := getMagicLength_pos hmagic
  have hdata := h.data_length
  constructor
  · exact getMagicLength_le_of_searches hpos h
  · intro hlong
    obtain ⟨exit, ⟨fuel, hrun⟩, found, hfound, htruth, hreads⟩ := h.search_returns hpos (by omega)
    refine ⟨fuel, found, ?_⟩
    rw [hasMagic_eq h hpos, hrun]
    refine ⟨hfound, htruth, fun index hindex => ?_⟩
    have hlt := hreads index hindex
    omega

end

/-- An ext magic, not at the start. -/
def extFile : MagicFile := ⟨true, [0, 0x53, 0xEF, 1], 4⟩

theorem hasMagic_exact_extFile :
    SearchesWhatWasRead .arm64_v8a 0xEF53 4096 extFile ↔ (getMagicLength 0xEF53 : Int) ≤ 4 :=
  hasMagic_exact_iff (by decide) ⟨rfl, ⟨by decide, by decide⟩, ⟨by decide, by decide⟩, by decide⟩

/-- A file of one byte. -/
def shortFile : MagicFile := ⟨true, [0x53], 1⟩

/-- The first turn compares a byte that was not read; a buffer of two bytes is overrun in the second. -/
theorem shortFile_overread :
    magicTurn .arm64_v8a (shortFile.buffer 4096) 0xEF53 shortFile.bytesRead ⟨0, []⟩ = .again ⟨1, [0, 1]⟩ ∧
      (hasMagic .arm64_v8a 0xEF53 2 shortFile 2).result = .error (.undefined .indexOutOfRange) ∧
      (hasMagic .arm64_v8a 0xEF53 2 shortFile 2).reads = [0, 1, 1, 2] ∧
      ¬ SearchesWhatWasRead .arm64_v8a 0xEF53 4096 shortFile := by
  refine ⟨rfl, rfl, rfl, fun h => ?_⟩
  have hread : shortFile.ReadInto .arm64_v8a 4096 :=
    ⟨rfl, ⟨by decide, by decide⟩, ⟨by decide, by decide⟩, by decide⟩
  exact absurd (getMagicLength_le_of_searches (by decide) hread h) (by decide)

end PartitionManager
