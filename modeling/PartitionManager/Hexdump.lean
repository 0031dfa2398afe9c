import PartitionManager.Filesystems
import PartitionManager.Transfers
import PartitionManager.Library.Hex

namespace PartitionManager

/-- `"%08x"` of an offset. -/
def offsetText (cur_offset : UInt64) : Str :=
  let digits := Nat.toDigits 16 cur_offset.toNat
  List.replicate (8 - digits.length) '0' ++ digits

/-- What the loop over the hex columns prints for column `i`. -/
def hexColumn (buf : List UInt8) (i : Nat) : Str :=
  (match buf[i]? with
    | some b => hexDigits Nat.digitChar b ++ " ".toList
    | none => "   ") ++ if i = 7 then " ".toList else []

/-- How a byte appears in the ASCII column. -/
def asciiChar (b : UInt8) : Char := if 0x20 ≤ b ∧ b < 0x7f then Char.ofNat b.toNat else '.'

/-- What one turn prints for the bytes that it has read. -/
def hexdumpLine (cur_offset : UInt64) (buf : List UInt8) : Str :=
  offsetText cur_offset ++ "  " ++ (List.range 16).flatMap (hexColumn buf) ++ " |" ++ buf.map asciiChar ++ "|\n"

/-- How a dump ends, and the lines it has printed. -/
structure HexdumpExit where
  ret : Int
  op : Option PartHandle
  errno : Errno
  lines : List Str

/-- What follows the loop. -/
def hexdumpExit (errno : Errno) (op : PartHandle) (r : List Str × Except Errno Unit) : HexdumpExit :=
  match r.2 with
  | .error e => ⟨-1, some { op with err := e }, e, r.1⟩
  | .ok () => ⟨0, some op, errno, r.1⟩

/-- `openpart_hexdump`, given up after `fuel` turns of its loop. -/
def openpart_hexdump (lfs : FileOffsetBits) (answers : Answers) (content : List UInt8) (errno : Errno)
    (op : Option PartHandle) (offset : UInt64) (size fuel : Nat) : Option HexdumpExit :=
  match op with
  | none => some ⟨-1, none, EINVAL, []⟩
  | some op =>
    (transferLoop 16 (answers.call lfs (Bytes.slice content))
      (fun lines cur_offset buf => lines ++ [hexdumpLine cur_offset buf]) offset size [] fuel).map
        (hexdumpExit errno op)

/-- The offset that a reader finds at the start of a line. -/
def lineOffset (line : Str) : Nat := Hex.number (line.takeWhile (· ≠ ' '))

/-- The bytes that a reader finds in columns of a line, and the text behind them. -/
def readColumns : List Nat → Str → List UInt8 × Str
  | [], text => ([], text)
  | i :: columns, text =>
    let later := readColumns columns ((text.drop 3).drop (if i = 7 then 1 else 0))
    ((Hex.byte (text.take 2)).toList ++ later.1, later.2)

def lineColumns (line : Str) : List UInt8 × Str :=
  readColumns (List.range 16) ((line.dropWhile (· ≠ ' ')).drop 2)

def lineBytes (line : Str) : List UInt8 := (lineColumns line).1

/-- What stands between the bars. -/
def lineAscii (line : Str) : Str := ((lineColumns line).2.drop 2).dropLast.dropLast

/-- The lines show the bytes from `offset` on, each with the offset of its first byte. -/
structure ShowsFrom (offset : Nat) (lines : List Str) : Prop where
  offsets : ∀ before line after, lines = before ++ line :: after →
    lineOffset line = offset + (before.flatMap lineBytes).length
  columns : ∀ line ∈ lines, lineAscii line = (lineBytes line).map asciiChar

/-- A dump ends, and if it returns 0 it has shown the bytes from `offset` on up to the end of
the range or of the device. -/
structure Hexdumped (content : List UInt8) (offset size : Nat) (run : Nat → Option HexdumpExit) : Prop where
  ends : ∃ fuel x, run fuel = some x
  bytes : ∀ fuel x, run fuel = some x → x.ret = 0 →
    x.lines.flatMap lineBytes = Bytes.slice content offset size
  shows : ∀ fuel x, run fuel = some x → x.ret = 0 → ShowsFrom offset x.lines

section

variable {buf : List UInt8} {cur_offset : UInt64}

/-- The text of the columns reads back as their bytes. -/
theorem readColumns_text (columns : List Nat) (rest : Str) :
    readColumns columns (columns.flatMap (hexColumn buf) ++ rest) =
      (columns.filterMap fun i => buf[i]?, rest) := by
  induction columns with
  | nil => rfl
  | cons i columns ih =>
    have hcolumn : ∀ tail : Str, ((hexColumn buf i ++ tail).drop 3).drop (if i = 7 then 1 else 0) = tail ∧
        (Hex.byte ((hexColumn buf i ++ tail).take 2)) = buf[i]? := by
      intro tail
      unfold hexColumn
      cases hb : buf[i]? with
      | none => by_cases hi : i = 7 <;> simp [hi, Hex.byte_spaces]
      | some b => by_cases hi : i = 7 <;> simp [hi, hexDigits, Hex.byte_digits]
    have htext : (i :: columns).flatMap (hexColumn buf) ++ rest =
        hexColumn buf i ++ (columns.flatMap (hexColumn buf) ++ rest) := by
      rw [List.flatMap_cons, List.append_assoc]
    obtain ⟨hdrop, hbyte⟩ := hcolumn (columns.flatMap (hexColumn buf) ++ rest)
    rw [htext, readColumns, hdrop, hbyte, ih, List.filterMap_cons]
    cases buf[i]? with
    | none => rfl
    | some b => rfl

theorem range_filterMap_getElem? (buf : List UInt8) (n : Nat) :
    (List.range n).filterMap (fun i => buf[i]?) = buf.take n := by
  induction n with
  | zero => rfl
  | succ n ih =>
    rw [List.range_succ, List.filterMap_append, ih, List.take_add_one]
    congr 1

theorem offsetText_ne_space {c : Char} (h : c ∈ offsetText cur_offset) : c ≠ ' ' := by
  rcases List.mem_append.mp h with hpad | hdigit
  · rw [List.eq_of_mem_replicate hpad]
    decide
  · intro hspace
    rw [hspace] at hdigit
    exact Hex.value_of_mem_toDigits hdigit Hex.value_space

/-- A line reads back as the offset and the bytes that it was printed for. -/
theorem hexdumpLine_reads (cur_offset : UInt64) (h : buf.length ≤ 16) :
    lineOffset (hexdumpLine cur_offset buf) = cur_offset.toNat ∧ lineBytes (hexdumpLine cur_offset buf) = buf ∧
      lineAscii (hexdumpLine cur_offset buf) = buf.map asciiChar := by
  have hspace : ∀ c ∈ offsetText cur_offset, decide (c ≠ ' ') = true :=
    fun c hc => decide_eq_true (offsetText_ne_space hc)
  have hline : hexdumpLine cur_offset buf = offsetText cur_offset ++ (' ' :: ' ' ::
      ((List.range 16).flatMap (hexColumn buf) ++ (' ' :: '|' :: (buf.map asciiChar ++ ['|', '\n'])))) := by
    unfold hexdumpLine
    simp [List.append_assoc]
  have htail : (buf.map asciiChar ++ ['|', '\n']).dropLast.dropLast = buf.map asciiChar := by
    have hpair : buf.map asciiChar ++ ['|', '\n'] = (buf.map asciiChar ++ ['|']) ++ ['\n'] := by simp
    rw [hpair, List.dropLast_concat, List.dropLast_concat]
  have hcolumns : lineColumns (hexdumpLine cur_offset buf) =
      (buf, ' ' :: '|' :: (buf.map asciiChar ++ ['|', '\n'])) := by
    unfold lineColumns
    rw [hline, List.dropWhile_append_of_pos hspace, List.dropWhile_cons_of_neg (by decide)]
    show readColumns (List.range 16) ((List.range 16).flatMap (hexColumn buf) ++ _) = _
    rw [readColumns_text, range_filterMap_getElem?, List.take_of_length_le h]
  refine ⟨?_, ?_, ?_⟩
  · unfold lineOffset
    rw [hline, List.takeWhile_append_of_pos hspace, List.takeWhile_cons_of_neg (by decide), List.append_nil]
    unfold offsetText
    rw [Hex.number_pad, Hex.number_toDigits]
  · unfold lineBytes
    rw [hcolumns]
  · unfold lineAscii
    rw [hcolumns]
    exact htail

example : hexdumpLine 0x120 [0x50, 0x4D, 0x54, 0x00, 0x01, 0x7F, 0x7E, 0x20, 0x21] =
    "00000120  50 4d 54 00 01 7f 7e 20  21                       |PMT...~ !|\n".toList := by
  decide

end

section

variable {lfs : FileOffsetBits} {answers : Answers} {content : List UInt8} {errno : Errno} {op : PartHandle}
  {offset : UInt64} {size : Nat}

/-- The lines so far show the first `p` bytes of the range. -/
structure DumpedTo (content : List UInt8) (lfs : FileOffsetBits) (offset : UInt64) (p : Nat) (lines : List Str) :
    Prop where
  bytes : lines.flatMap lineBytes = Bytes.slice content (lfs.base offset) p
  length : (lines.flatMap lineBytes).length = p
  shows : ShowsFrom offset.toNat lines

theorem showsFrom_append {offset : Nat} {lines : List Str} {line : Str} (h : ShowsFrom offset lines)
    (hoffset : lineOffset line = offset + (lines.flatMap lineBytes).length)
    (hcolumns : lineAscii line = (lineBytes line).map asciiChar) : ShowsFrom offset (lines ++ [line]) where
  offsets := by
    intro before other after hsplit
    rcases List.append_eq_append_iff.mp hsplit with ⟨mid, hbefore, hrest⟩ | ⟨mid, hlines, hrest⟩
    · cases mid with
      | nil =>
        rw [List.append_nil] at hbefore
        rw [List.nil_append, List.cons.injEq] at hrest
        rw [hbefore, ← hrest.1]
        exact hoffset
      | cons first mid => simp at hrest
    · cases mid with
      | nil =>
        rw [List.append_nil] at hlines
        rw [List.nil_append, List.cons.injEq] at hrest
        rw [hrest.1, ← hlines]
        exact hoffset
      | cons first mid =>
        rw [List.cons_append, List.cons.injEq] at hrest
        rw [← hrest.1] at hlines
        exact h.offsets before other mid hlines
  columns := by
    intro other hother
    rcases List.mem_append.mp hother with hold | hnew
    · exact h.columns other hold
    · rw [List.mem_singleton.mp hnew]
      exact hcolumns

theorem dumpedTo_zero : DumpedTo content lfs offset 0 [] where
  bytes := by simp [Bytes.slice]
  length := rfl
  shows := ⟨by simp, by simp⟩

/-- The offset that the loop prints has not wrapped. -/
theorem shown_offset {p : Nat} (h : lfs.base offset + p < 2 ^ (lfs.width - 1)) :
    (offset + UInt64.ofNat p).toNat = offset.toNat + p := by
  have hlt := offset.toNat_lt
  have hbase : lfs.base offset = offset.toNat % 2 ^ lfs.width := rfl
  have hround : offset.toNat + p < 2 ^ 64 := by
    cases lfs with
    | bits32 =>
      simp only [FileOffsetBits.width] at h hbase
      omega
    | bits64 =>
      simp only [FileOffsetBits.width] at h hbase
      omega
  rw [UInt64.toNat_add, UInt64.toNat_ofNat', Nat.add_mod_mod, Nat.mod_eq_of_lt hround]

theorem hexdump_keeps :
    Pieces.Keeps size 16 (answers.piece lfs (Bytes.slice content) (lfs.base offset))
      (fun lines p buf => lines ++ [hexdumpLine (offset + UInt64.ofNat p) buf])
      (fun _ => DumpedTo content lfs offset) := by
  intro i p lines piece hp hs hpiece
  obtain ⟨hbelow, length, _, rfl⟩ := piece_ok_iff.mp hpiece
  have hshown := shown_offset hbelow
  generalize hcount : min (min 16 (size - p)) (max length 1) = count
  have hlength := Bytes.slice_length content (lfs.base offset + p) count
  obtain ⟨hoffset, hbytes, hascii⟩ := @hexdumpLine_reads (Bytes.slice content (lfs.base offset + p) count)
    (offset + UInt64.ofNat p) (by omega)
  have hflat : (lines ++ [hexdumpLine (offset + UInt64.ofNat p) (Bytes.slice content (lfs.base offset + p) count)]).flatMap
      lineBytes = lines.flatMap lineBytes ++ Bytes.slice content (lfs.base offset + p) count := by
    rw [List.flatMap_append, List.flatMap_singleton, hbytes]
  refine ⟨?_, ?_, showsFrom_append hs.shows ?_ ?_⟩
  · rw [hflat, hs.bytes, Bytes.slice_append_slice]
  · rw [hflat, List.length_append, hs.length]
  · rw [hoffset, hshown, hs.length]
  · rw [hascii, hbytes]

theorem dump_buffer_le (lfs : FileOffsetBits) : 16 ≤ 2 ^ (lfs.width - 1) := by
  cases lfs <;> decide

/-- The loop of a dump. -/
def dumpLoop (lfs : FileOffsetBits) (answers : Answers) (content : List UInt8) (offset : UInt64) (size fuel : Nat) :
    Option (List Str × Except Errno Unit) :=
  transferLoop 16 (answers.call lfs (Bytes.slice content))
    (fun lines cur_offset buf => lines ++ [hexdumpLine cur_offset buf]) offset size [] fuel

theorem openpart_hexdump_eq (fuel : Nat) : openpart_hexdump lfs answers content errno (some op) offset size fuel =
    (dumpLoop lfs answers content offset size fuel).map (hexdumpExit errno op) := rfl

theorem openpart_hexdump_ends_iff :
    (∃ fuel x, openpart_hexdump lfs answers content errno (some op) offset size fuel = some x) ↔
      size = 0 ∨ lfs.base offset + size ≤ content.length ∨
        2 ^ (lfs.width - 1) ≤ max (lfs.base offset) content.length ∨ ∃ i e, answers i = .error e := by
  have hloop := @readLoop_ends_iff _ lfs 16 size offset answers
    (fun lines cur_offset buf => lines ++ [hexdumpLine cur_offset buf]) [] content (dump_buffer_le lfs) (by decide)
  rw [← hloop]
  constructor
  · intro h
    obtain ⟨fuel, x, hx⟩ := h
    obtain ⟨r, hr, _⟩ := Option.map_eq_some_iff.mp hx
    exact ⟨fuel, r, hr⟩
  · intro h
    obtain ⟨fuel, r, hr⟩ := h
    exact ⟨fuel, hexdumpExit errno op r, Option.map_eq_some_iff.mpr ⟨r, hr, rfl⟩⟩

/-- A dump that returns 0 has shown the whole range, from where `off_t` puts its start. -/
theorem openpart_hexdump_ok {fuel : Nat} {x : HexdumpExit} (hret : x.ret = 0)
    (h : openpart_hexdump lfs answers content errno (some op) offset size fuel = some x) :
    DumpedTo content lfs offset size x.lines ∧
      ∃ r, dumpLoop lfs answers content offset size fuel = some r ∧ ¬ ∃ e, r.2 = .error e := by
  rw [openpart_hexdump_eq] at h
  obtain ⟨r, hr, hx⟩ := Option.map_eq_some_iff.mp h
  unfold hexdumpExit at hx
  rcases transferLoop_keeps (slice_length_le content) (dump_buffer_le lfs) dumpedTo_zero hexdump_keeps hr with
    ⟨_, hall, hok⟩ | ⟨e, _, _, _, _, _, herror⟩
  · rw [hok] at hx
    cases hx
    refine ⟨hall, r, hr, ?_⟩
    intro h
    obtain ⟨e, he⟩ := h
    rw [hok] at he
    cases he
  · rw [herror] at hx
    cases hx
    cases hret

theorem openpart_hexdump_failed {fuel : Nat} {x : HexdumpExit} (hret : x.ret ≠ 0)
    (h : openpart_hexdump lfs answers content errno (some op) offset size fuel = some x) :
    ∃ r, dumpLoop lfs answers content offset size fuel = some r ∧ ∃ e, r.2 = .error e := by
  rw [openpart_hexdump_eq] at h
  obtain ⟨r, hr, hx⟩ := Option.map_eq_some_iff.mp h
  refine ⟨r, hr, ?_⟩
  unfold hexdumpExit at hx
  cases hr2 : r.2 with
  | error e => exact ⟨e, rfl⟩
  | ok u =>
    rw [hr2] at hx
    cases hx
    exact absurd rfl hret

end

/-- When a dump of `size` bytes from `offset` on does its work: if where `off_t` puts the range
is on the device, a call fails, or what is there is what the range holds; if it is not, a call
fails. -/
def HexdumpFits (lfs : FileOffsetBits) (answers : Answers) (content : List UInt8) (offset : UInt64) (size : Nat) :
    Prop :=
  size = 0 ∨
    if lfs.base offset + size ≤ content.length then
      answers.StopsWithin lfs 16 (lfs.base offset) size ∨
        Bytes.slice content (lfs.base offset) size = Bytes.slice content offset.toNat size
    else
      2 ^ (lfs.width - 1) ≤ max (lfs.base offset) content.length ∨ ∃ i e, answers i = .error e

theorem openpart_hexdump_iff (lfs : FileOffsetBits) (answers : Answers) (content : List UInt8) (errno : Errno)
    (op : PartHandle) (offset : UInt64) (size : Nat) :
    Hexdumped content offset.toNat size (openpart_hexdump lfs answers content errno (some op) offset size) ↔
      HexdumpFits lfs answers content offset size := by
  unfold HexdumpFits
  constructor
  · intro h
    rcases openpart_hexdump_ends_iff.mp h.ends with hempty | hends
    · exact Or.inl hempty
    · refine Or.inr ?_
      by_cases hin : lfs.base offset + size ≤ content.length
      · rw [if_pos hin]
        obtain ⟨fuel, x, hx⟩ := h.ends
        by_cases hret : x.ret = 0
        · have hdumped := (openpart_hexdump_ok hret hx).1
          have hbytes := h.bytes fuel x hx hret
          exact Or.inr (hdumped.bytes.symm.trans hbytes)
        · obtain ⟨r, hr, hfailed⟩ := openpart_hexdump_failed hret hx
          exact Or.inl ((readLoop_failed_iff answers _ _ (dump_buffer_le lfs) hin hr).mp hfailed)
      · rw [if_neg hin]
        rcases hends with hbad | hends
        · exact absurd hbad hin
        · exact hends
  · intro h
    have hends : ∃ fuel x, openpart_hexdump lfs answers content errno (some op) offset size fuel = some x := by
      apply openpart_hexdump_ends_iff.mpr
      rcases h with hempty | h
      · exact Or.inl hempty
      · by_cases hin : lfs.base offset + size ≤ content.length
        · exact Or.inr (Or.inl hin)
        · rw [if_neg hin] at h
          exact Or.inr (Or.inr h)
    refine ⟨hends, ?_, fun fuel x hx hret => (openpart_hexdump_ok hret hx).1.shows⟩
    intro fuel x hx hret
    obtain ⟨hdumped, r, hr, hok⟩ := openpart_hexdump_ok hret hx
    rw [hdumped.bytes]
    rcases h with hempty | h
    · rw [hempty]
      simp [Bytes.slice]
    · by_cases hin : lfs.base offset + size ≤ content.length
      · rw [if_pos hin] at h
        rcases h with hstops | hsame
        · exact absurd ((readLoop_failed_iff answers _ _ (dump_buffer_le lfs) hin hr).mpr hstops) hok
        · exact hsame
      · -- a dump past the end of the device has not got its last byte
        have hlength := hdumped.length
        rw [hdumped.bytes, Bytes.slice_length] at hlength
        have hempty : size = 0 := by omega
        rw [hempty]
        simp [Bytes.slice]

/-- A handle on a device of one byte. -/
def smallHandle : PartHandle := { fd := 5, flags := OP_RDONLY, sector_size := 512, size := 1 }

/-- A dump of 16 bytes of it does not end. -/
theorem hexdump_past_end :
    (∀ fuel, openpart_hexdump .bits64 (fun _ => .ok 16) [0x41] 0 (some smallHandle) 0 16 fuel = none) ∧
      ¬ Hexdumped [0x41] (0 : UInt64).toNat 16
        (openpart_hexdump .bits64 (fun _ => .ok 16) [0x41] 0 (some smallHandle) 0 16) := by
  have hnever : ¬ ∃ fuel x, openpart_hexdump .bits64 (fun _ => .ok 16) [0x41] 0 (some smallHandle) 0 16 fuel =
      some x := by
    intro h
    rcases openpart_hexdump_ends_iff.mp h with hempty | hin | hfits | ⟨i, e, he⟩
    · exact absurd hempty (by decide)
    · exact absurd hin (by decide)
    · exact absurd hfits (by decide)
    · cases he
  refine ⟨?_, fun h => hnever h.ends⟩
  intro fuel
  cases hrun : openpart_hexdump .bits64 (fun _ => .ok 16) [0x41] 0 (some smallHandle) 0 16 fuel with
  | none => rfl
  | some x => exact absurd ⟨fuel, x, hrun⟩ hnever

end PartitionManager
