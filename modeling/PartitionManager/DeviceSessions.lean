import PartitionManager.CopiedHandles
import PartitionManager.Sectors
import PartitionManager.Library.Journal

namespace PartitionManager

/-- The calls of libopenpart on handles. `moved` is how many bytes the system says it
has transferred, and a null `buf` is `none`: what it has room for, or what it holds. -/
inductive DeviceCall where
  | openpart_open (path : Option Str) (flags extra_oflags : UInt32) (answer : OpenAnswer)
  | openpart_close (op : Ptr)
  | openpart_read (op : Ptr) (buf : Option Nat) (count : Nat) (offset : UInt64) (moved : Except Errno Nat)
  | openpart_write (op : Ptr) (buf : Option (List UInt8)) (count : Nat) (offset : UInt64) (moved : Except Errno Nat)
  | openpart_read_sector (op : Ptr) (buf : Option Nat) (sector : UInt64) (count : Nat) (moved : Except Errno Nat)
  | openpart_write_sector (op : Ptr) (buf : Option (List UInt8)) (sector : UInt64) (count : Nat)
      (moved : Except Errno Nat)

/-- What a call gives back; a read leaves bytes in the buffer. -/
inductive Returned where
  | pointer (op : Ptr)
  | void
  | failed (err : Errno)
  | filled (bytes : List UInt8)
  | stored (count : Nat)
  deriving DecidableEq

/-- The process, and the bytes under the device nodes. -/
structure DeviceSession (κ : Type) where
  world : World := {}
  bytes : κ → UInt8

/-- The system transfers what a single call can, or less, or fails. -/
def transferred (request : Except Errno Transfer) (moved : Except Errno Nat) : Option (Except Errno Transfer) :=
  match request, moved with
  | .error err, _ => some (.error err)
  | .ok _, .error err => some (.error err)
  | .ok t, .ok n => if n ≤ t.length then some (.ok ⟨t.start, n⟩) else none

namespace DeviceSession

variable {κ : Type} [DecidableEq κ] (abi : Abi) (lfs : FileOffsetBits) (devs : DeviceTree)
  (cell : Str → Nat → κ) (s : DeviceSession κ)

/-- The cells of a row of bytes on a device with what they are given, the last byte first. -/
def row (device : Str) (start : Nat) (bytes : List UInt8) : List (κ × UInt8) :=
  (bytes.mapIdx fun i b => (cell device (start + i), b)).reverse

/-- The bytes that stand on a device from `start` on. -/
def content (device : Str) (start count : Nat) : List UInt8 :=
  (List.range count).map fun i => s.bytes (cell device (start + i))

/-- A live handle, and the device that its descriptor is open on. -/
def deref (h : Nat) : Option (OpenPartT × Option Str) :=
  (s.world.heap h).map fun op => (op, (s.world.files op.fd).map OpenFile.device)

/-- A call that reads: there is no result for a dangling pointer or a buffer that is too small. -/
def reads (op : Ptr) (buf : Option Nat) (request : OpenPartT → Except Errno Transfer) (moved : Except Errno Nat) :
    Option (DeviceSession κ × Returned) :=
  match op, buf with
  | .indeterminate, _ => none
  | .null, _ => some (s, .failed EINVAL)
  | .handle _, none => some (s, .failed EINVAL)
  | .handle h, some room => do
    let (op, device) ← s.deref h
    match ← transferred (request op) moved with
    | .error err => some (s, .failed err)
    | .ok t =>
      if t.length ≤ room then some (s, .filled (s.content cell (device.getD []) t.start t.length)) else none

/-- A call that writes. -/
def writes (op : Ptr) (buf : Option (List UInt8)) (request : OpenPartT → Except Errno Transfer)
    (moved : Except Errno Nat) : Option (DeviceSession κ × Returned) :=
  match op, buf with
  | .indeterminate, _ => none
  | .null, _ => some (s, .failed EINVAL)
  | .handle _, none => some (s, .failed EINVAL)
  | .handle h, some buf => do
    let (op, device) ← s.deref h
    match ← transferred (request op) moved with
    | .error err => some (s, .failed err)
    | .ok t =>
      if t.length ≤ buf.length then
        some ({ s with bytes := Journal.replay s.bytes (row cell (device.getD []) t.start (buf.take t.length)) },
          .stored t.length)
      else none

/-- One call. -/
def step (s : DeviceSession κ) : DeviceCall → Option (DeviceSession κ × Returned)
  | .openpart_open path flags extra_oflags answer => do
    let (w, op) ← s.world.openpart_open devs path flags extra_oflags answer
    some ({ s with world := w }, .pointer op)
  | .openpart_close op => do
    let w ← s.world.openpart_close op
    some ({ s with world := w }, .void)
  | .openpart_read op buf count offset moved =>
    s.reads cell op buf (fun op => PartitionManager.openpart_read abi lfs s.world.files op count offset) moved
  | .openpart_write op buf count offset moved =>
    s.writes cell op buf (fun op => PartitionManager.openpart_write abi lfs s.world.files op count offset) moved
  | .openpart_read_sector op buf sector count moved =>
    s.reads cell op buf (fun op => PartitionManager.openpart_read_sector abi lfs s.world.files op sector count) moved
  | .openpart_write_sector op buf sector count moved =>
    s.writes cell op buf (fun op => PartitionManager.openpart_write_sector abi lfs s.world.files op sector count) moved

end DeviceSession

/-- The calls of a program with their results, the newest first. -/
abbrev DeviceLog := List (DeviceCall × Returned)

namespace DeviceLog

variable {κ : Type} [DecidableEq κ] (lfs : FileOffsetBits) (devs : DeviceTree) (cell : Str → Nat → κ)

/-- The device that a handle was opened on, and the size that its sectors have. -/
def origin (log : DeviceLog) (h : Nat) : Option (Str × UInt64) :=
  match log with
  | [] => none
  | (.openpart_open path flags _ _, .pointer (.handle h')) :: older =>
    if h' = h then (path >>= devs.realpath).map fun device => (device, devs.handleSectorSize flags device)
    else origin older h
  | _ :: older => origin older h

/-- The byte of the device that a call on a handle with sectors of this size starts at,
wrapped to `off_t`. -/
def start (sector_size : UInt64) : DeviceCall → Nat
  | .openpart_read _ _ _ offset _ => (lfs.off_t offset).toNat
  | .openpart_write _ _ _ offset _ => (lfs.off_t offset).toNat
  | .openpart_read_sector _ _ sector _ _ => (lfs.off_t (sector * sector_size)).toNat
  | .openpart_write_sector _ _ sector _ _ => (lfs.off_t (sector * sector_size)).toNat
  | _ => 0

/-- What a call has put on a device, taken from the call and its result alone. -/
def puts (origin : Nat → Option (Str × UInt64)) (call : DeviceCall) (result : Returned) : List (κ × UInt8) :=
  match call, result with
  | .openpart_write (.handle h) (some buf) _ _ _, .stored n
  | .openpart_write_sector (.handle h) (some buf) _ _ _, .stored n =>
    let found := (origin h).getD ([], 0)
    DeviceSession.row cell found.1 (start lfs found.2 call) (buf.take n)
  | _, _ => []

/-- All that a program has written, the newest byte first. -/
def written : DeviceLog → List (κ × UInt8)
  | [] => []
  | (call, result) :: older => puts lfs cell (origin devs older) call result ++ written older

/-- The handle that a call transfers through. -/
def through : DeviceCall → Option Nat
  | .openpart_read op .. => op.held
  | .openpart_write op .. => op.held
  | .openpart_read_sector op .. => op.held
  | .openpart_write_sector op .. => op.held
  | _ => none

/-- What a transfer gives back, as far as the calls before it decide it: it stays on the
device that its handle was opened on, and a read finds the bytes last written there. -/
def Answers (first : κ → UInt8) (older : DeviceLog) (call : DeviceCall) : Returned → Prop
  | .filled out => ∃ h found sector_size, through call = some h ∧ origin devs older h = some (found, sector_size) ∧
      (out = [] ∨ start lfs sector_size call + out.length ≤ devs.size found) ∧
      ∀ i, i < out.length → out[i]? = some
        ((Journal.newest (written lfs devs cell older) (cell found (start lfs sector_size call + i))).getD
          (first (cell found (start lfs sector_size call + i))))
  | .stored n => ∃ h found sector_size, through call = some h ∧ origin devs older h = some (found, sector_size) ∧
      (n = 0 ∨ start lfs sector_size call + n ≤ devs.size found)
  | _ => True

end DeviceLog

namespace DeviceSession

open DeviceLog

variable {κ : Type} [DecidableEq κ] {abi : Abi} {lfs : FileOffsetBits} {devs : DeviceTree} {cell : Str → Nat → κ}
  {s s' : DeviceSession κ} {first : κ → UInt8} {log : DeviceLog} {op : Ptr} {result : Returned}

/-- The state is what the calls so far have made it. -/
structure Follows (devs : DeviceTree) (lfs : FileOffsetBits) (cell : Str → Nat → κ) (first : κ → UInt8)
    (log : DeviceLog) (s : DeviceSession κ) : Prop where
  opened : World.Opened s.world
  handle : ∀ h hd, s.world.heap h = some hd → ∃ found oflags, origin devs log h = some (found, hd.sector_size) ∧
    s.world.table hd.fd = some ⟨h, ⟨found, devs.size found, oflags⟩⟩
  bytes : s.bytes = Journal.replay first (written lfs devs cell log)

/-- A request that a file can serve from `start` on. -/
def Serves (files : FdTable) (hd : OpenPartT) (start : Nat) (t : Transfer) : Prop :=
  ∃ file, files hd.fd = some file ∧ t.start = start ∧ t.length ≤ file.size - start

theorem transferred_cases {request : Except Errno Transfer} {moved : Except Errno Nat}
    {answer : Except Errno Transfer} (h : transferred request moved = some answer) :
    (∃ err, answer = .error err) ∨ ∃ t n, request = .ok t ∧ n ≤ t.length ∧ answer = .ok ⟨t.start, n⟩ := by
  unfold transferred at h
  split at h
  next err =>
    cases h
    exact Or.inl ⟨err, rfl⟩
  next err =>
    cases h
    exact Or.inl ⟨err, rfl⟩
  next t n =>
    obtain ⟨hn, h⟩ := Option.ite_none_right_eq_some.mp h
    cases h
    exact Or.inr ⟨t, n, rfl, hn, rfl⟩

omit [DecidableEq κ] in
theorem deref_eq {h : Nat} {ans : OpenPartT × Option Str} (hans : s.deref h = some ans) :
    s.world.heap h = some ans.1 ∧ ans.2 = (s.world.files ans.1.fd).map OpenFile.device := by
  obtain ⟨hd, hhd, rfl⟩ := Option.map_eq_some_iff.mp hans
  exact ⟨hhd, rfl⟩

omit [DecidableEq κ] in
/-- A reading call changes nothing, and its bytes are those of the device of its descriptor. -/
theorem reads_cases {buf : Option Nat} {request : OpenPartT → Except Errno Transfer} {moved : Except Errno Nat}
    (h : s.reads cell op buf request moved = some (s', result)) :
    s' = s ∧ ((∃ err, result = .failed err) ∨ ∃ r hd t n, op = .handle r ∧ s.world.heap r = some hd ∧
      request hd = .ok t ∧ n ≤ t.length ∧
      result = .filled (s.content cell (((s.world.files hd.fd).map OpenFile.device).getD []) t.start n)) := by
  unfold reads at h
  split at h
  next => cases h
  next =>
    cases h
    exact ⟨rfl, Or.inl ⟨_, rfl⟩⟩
  next =>
    cases h
    exact ⟨rfl, Or.inl ⟨_, rfl⟩⟩
  next r room =>
    obtain ⟨⟨hd, found⟩, hderef, h⟩ := Option.bind_eq_some_iff.mp h
    obtain ⟨hhd, hfound⟩ := deref_eq hderef
    dsimp only at hhd hfound
    subst hfound
    obtain ⟨answer, hanswer, h⟩ := Option.bind_eq_some_iff.mp h
    rcases transferred_cases hanswer with ⟨err, rfl⟩ | ⟨t, n, ht, hn, rfl⟩
    · cases h
      exact ⟨rfl, Or.inl ⟨err, rfl⟩⟩
    · obtain ⟨_, h⟩ := Option.ite_none_right_eq_some.mp h
      cases h
      exact ⟨rfl, Or.inr ⟨r, hd, t, n, rfl, hhd, ht, hn, rfl⟩⟩

/-- A writing call changes nothing, or the bytes of the device of its descriptor. -/
theorem writes_cases {buf : Option (List UInt8)} {request : OpenPartT → Except Errno Transfer}
    {moved : Except Errno Nat} (h : s.writes cell op buf request moved = some (s', result)) :
    (s' = s ∧ ∃ err, result = .failed err) ∨ ∃ r hd t n bs, op = .handle r ∧ buf = some bs ∧
      s.world.heap r = some hd ∧ request hd = .ok t ∧ n ≤ t.length ∧ result = .stored n ∧
      s' = { s with
        bytes := Journal.replay s.bytes
          (row cell (((s.world.files hd.fd).map OpenFile.device).getD []) t.start (bs.take n)) } := by
  unfold writes at h
  split at h
  next => cases h
  next =>
    cases h
    exact Or.inl ⟨rfl, _, rfl⟩
  next =>
    cases h
    exact Or.inl ⟨rfl, _, rfl⟩
  next r bs =>
    obtain ⟨⟨hd, found⟩, hderef, h⟩ := Option.bind_eq_some_iff.mp h
    obtain ⟨hhd, hfound⟩ := deref_eq hderef
    dsimp only at hhd hfound
    subst hfound
    obtain ⟨answer, hanswer, h⟩ := Option.bind_eq_some_iff.mp h
    rcases transferred_cases hanswer with ⟨err, rfl⟩ | ⟨t, n, ht, hn, rfl⟩
    · cases h
      exact Or.inl ⟨rfl, err, rfl⟩
    · obtain ⟨_, h⟩ := Option.ite_none_right_eq_some.mp h
      cases h
      exact Or.inr ⟨r, hd, t, n, bs, rfl, rfl, hhd, ht, hn, rfl, rfl⟩

theorem serves_read {files : FdTable} {hd : OpenPartT} {count : Nat} {offset : UInt64} {t : Transfer}
    (h : openpart_read abi lfs files hd count offset = .ok t) : Serves files hd (lfs.off_t offset).toNat t := by
  unfold openpart_read pread at h
  split at h
  next => cases h
  next file hfile =>
    split at h
    next => cases h
    next =>
      split at h
      next => cases h
      next =>
        cases h
        exact ⟨file, hfile, rfl, Nat.min_le_right _ _⟩

theorem serves_write {files : FdTable} {hd : OpenPartT} {count : Nat} {offset : UInt64} {t : Transfer}
    (h : openpart_write abi lfs files hd count offset = .ok t) : Serves files hd (lfs.off_t offset).toNat t := by
  unfold openpart_write pwrite at h
  split at h
  next => cases h
  next =>
    split at h
    next => cases h
    next file hfile =>
      split at h
      next => cases h
      next =>
        split at h
        next => cases h
        next =>
          split at h
          next => cases h
          next =>
            cases h
            exact ⟨file, hfile, rfl, Nat.min_le_right _ _⟩

theorem serves_read_sector {files : FdTable} {hd : OpenPartT} {sector : UInt64} {count : Nat} {t : Transfer}
    (h : openpart_read_sector abi lfs files hd sector count = .ok t) :
    Serves files hd (lfs.off_t (sector * hd.sector_size)).toNat t := serves_read h

theorem serves_write_sector {files : FdTable} {hd : OpenPartT} {sector : UInt64} {count : Nat} {t : Transfer}
    (h : openpart_write_sector abi lfs files hd sector count = .ok t) :
    Serves files hd (lfs.off_t (sector * hd.sector_size)).toNat t := by
  unfold openpart_write_sector at h
  split at h
  next => cases h
  next => exact serves_write h

/-- The request of a transfer, in terms of the device of its handle. -/
theorem Follows.serves {request : OpenPartT → Except Errno Transfer} {place : UInt64 → Nat} {r : Nat} {hd : OpenPartT}
    {t : Transfer} (hf : Follows devs lfs cell first log s) (hhd : s.world.heap r = some hd)
    (hserves : ∀ t, request hd = .ok t → Serves s.world.files hd (place hd.sector_size) t)
    (ht : request hd = .ok t) : ∃ found, origin devs log r = some (found, hd.sector_size) ∧
      (s.world.files hd.fd).map OpenFile.device = some found ∧ t.start = place hd.sector_size ∧
      t.length ≤ devs.size found - t.start := by
  obtain ⟨found, oflags, hfound, htable⟩ := hf.handle r hd hhd
  have hfile : s.world.files hd.fd = some ⟨found, devs.size found, oflags⟩ := by
    unfold World.files
    rw [htable]
    rfl
  obtain ⟨file, hfile', hstart, hlength⟩ := hserves t ht
  rw [hfile] at hfile'
  cases hfile'
  refine ⟨found, hfound, ?_, hstart, ?_⟩
  · rw [hfile]
    rfl
  · rw [hstart]
    exact hlength

omit [DecidableEq κ] in
theorem content_getElem? {found : Str} {place count i : Nat} (hi : i < count) :
    (s.content cell found place count)[i]? = some (s.bytes (cell found (place + i))) := by
  unfold content
  rw [List.getElem?_map, List.getElem?_range hi]
  rfl

section

variable (call : DeviceCall) (place : UInt64 → Nat) {request : OpenPartT → Except Errno Transfer}
  {moved : Except Errno Nat} (hf : Follows devs lfs cell first log s) (hhandle : through call = op.held)
  (hplace : ∀ sector_size, start lfs sector_size call = place sector_size)
  (hserves : ∀ hd t, request hd = .ok t → Serves s.world.files hd (place hd.sector_size) t)

include hf hhandle hplace hserves

theorem Follows.reads {buf : Option Nat} (h : s.reads cell op buf request moved = some (s', result)) :
    s' = s ∧ Answers lfs devs cell first log call result := by
  obtain ⟨rfl, hresult⟩ := reads_cases h
  refine ⟨rfl, ?_⟩
  rcases hresult with ⟨err, rfl⟩ | ⟨r, hd, t, n, rfl, hhd, ht, hn, rfl⟩
  · trivial
  · obtain ⟨found, hfound, hdevice, hstart, hlength⟩ := hf.serves hhd (hserves hd) ht
    rw [hdevice]
    have hcount : (s'.content cell ((some found).getD []) t.start n).length = n := by
      unfold content
      rw [List.length_map, List.length_range]
    refine ⟨r, found, hd.sector_size, hhandle, hfound, ?_, ?_⟩
    · rw [hcount, hplace, ← hstart]
      by_cases hnone : n = 0
      · exact Or.inl (List.eq_nil_of_length_eq_zero (hcount.trans hnone))
      · exact Or.inr (by omega)
    · intro i hi
      rw [hcount] at hi
      rw [content_getElem? hi, hf.bytes, Journal.replay_eq, hplace, ← hstart]
      rfl

theorem Follows.writes {buf : Option (List UInt8)} (h : s.writes cell op buf request moved = some (s', result)) :
    Answers lfs devs cell first log call result ∧
    ((s' = s ∧ ∃ err, result = .failed err) ∨ ∃ r bs n, op = .handle r ∧ buf = some bs ∧ result = .stored n ∧
      s' = { s with
        bytes := Journal.replay s.bytes
          (row cell ((origin devs log r).getD ([], 0)).1 (start lfs ((origin devs log r).getD ([], 0)).2 call)
            (bs.take n)) }) := by
  rcases writes_cases h with ⟨rfl, err, rfl⟩ | ⟨r, hd, t, n, bs, rfl, rfl, hhd, ht, hn, rfl, rfl⟩
  · exact ⟨trivial, Or.inl ⟨rfl, err, rfl⟩⟩
  · obtain ⟨found, hfound, hdevice, hstart, hlength⟩ := hf.serves hhd (hserves hd) ht
    refine ⟨⟨r, found, hd.sector_size, hhandle, hfound, ?_⟩, Or.inr ⟨r, bs, n, rfl, rfl, rfl, ?_⟩⟩
    · rw [hplace, ← hstart]
      omega
    · rw [hdevice, hfound, hstart, ← hplace]
      rfl

end

/-- A call that opens nothing leaves the handles to their devices. -/
theorem Follows.transfer {call : DeviceCall} (hf : Follows devs lfs cell first log s) (hworld : s'.world = s.world)
    (horigin : origin devs ((call, result) :: log) = origin devs log)
    (hbytes : s'.bytes = Journal.replay s.bytes (puts lfs cell (origin devs log) call result)) :
    Follows devs lfs cell first ((call, result) :: log) s' := by
  refine ⟨?_, ?_, ?_⟩
  · rw [hworld]
    exact hf.opened
  · rw [hworld, horigin]
    exact hf.handle
  · rw [hbytes, hf.bytes]
    exact (Journal.replay_append _ _ _).symm

theorem Follows.openpart_open {path : Option Str} {flags extra : UInt32} {answer : OpenAnswer} {w : World}
    (hf : Follows devs lfs cell first log s)
    (h : s.world.openpart_open devs path flags extra answer = some (w, op)) :
    Follows devs lfs cell first ((.openpart_open path flags extra answer, .pointer op) :: log) { s with world := w } := by
  refine ⟨hf.opened.openpart_open h, ?_, hf.bytes⟩
  intro r hd hhd
  rcases World.openpart_open_cases h with ⟨rfl, rfl⟩ | ⟨fd, found, hfd, rfl, rfl⟩ |
    ⟨fd, found, p, rfl, hreal, _, hfd, rfl, rfl⟩
  · exact hf.handle r hd hhd
  · obtain ⟨dev, oflags, hdev, htable⟩ := hf.handle r hd hhd
    refine ⟨dev, oflags, hdev, ?_⟩
    rw [World.dropped_table hfd]
    exact htable
  · by_cases hr : r = s.world.next
    · subst hr
      cases (Function.update_self ..).symm.trans hhd
      refine ⟨found, openFlags flags extra, ?_, Function.update_self ..⟩
      unfold origin
      rw [if_pos rfl]
      show (devs.realpath p).map _ = _
      rw [hreal]
      rfl
    · have hold : s.world.heap r = some hd := by
        dsimp only at hhd
        rwa [Function.update_of_ne hr] at hhd
      obtain ⟨dev, oflags, hdev, htable⟩ := hf.handle r hd hold
      refine ⟨dev, oflags, ?_, ?_⟩
      · unfold origin
        rw [if_neg (Ne.symm hr)]
        exact hdev
      · -- the number of a live handle was not free
        have hne : hd.fd ≠ fd := by
          intro heq
          rw [heq, hfd] at htable
          cases htable
        exact (Function.update_of_ne hne ..).trans htable

theorem Follows.openpart_close {w : World} (hf : Follows devs lfs cell first log s)
    (h : s.world.openpart_close op = some w) :
    Follows devs lfs cell first ((.openpart_close op, .void) :: log) { s with world := w } := by
  cases op with
  | null =>
    cases h
    exact ⟨hf.opened, hf.handle, hf.bytes⟩
  | indeterminate => cases h
  | handle q =>
    obtain ⟨hdq, hq, rfl⟩ := Option.map_eq_some_iff.mp h
    refine ⟨hf.opened.free hq, ?_, hf.bytes⟩
    intro r hd hhd
    dsimp only at hhd
    rw [World.free_heap] at hhd
    have hne : r ≠ q := by
      intro heq
      rw [heq, Function.update_self] at hhd
      cases hhd
    rw [Function.update_of_ne hne] at hhd
    obtain ⟨found, oflags, hfound, htable⟩ := hf.handle r hd hhd
    exact ⟨found, oflags, hfound, World.free_table hf.opened hq htable hne⟩

/-- One call of a program. -/
theorem Follows.step {call : DeviceCall} (hf : Follows devs lfs cell first log s)
    (h : DeviceSession.step abi lfs devs cell s call = some (s', result)) :
    Answers lfs devs cell first log call result ∧ Follows devs lfs cell first ((call, result) :: log) s' := by
  cases call with
  | openpart_open path flags extra answer =>
    obtain ⟨⟨w, op⟩, hopen, h⟩ := Option.bind_eq_some_iff.mp h
    cases h
    exact ⟨trivial, hf.openpart_open hopen⟩
  | openpart_close op =>
    obtain ⟨w, hclose, h⟩ := Option.bind_eq_some_iff.mp h
    cases h
    exact ⟨trivial, hf.openpart_close hclose⟩
  | openpart_read op buf count offset moved =>
    obtain ⟨rfl, hanswers⟩ := hf.reads (.openpart_read op buf count offset moved)
      (fun _ => (lfs.off_t offset).toNat) rfl (fun _ => rfl) (fun _ _ ht => serves_read ht) h
    exact ⟨hanswers, hf.transfer rfl rfl rfl⟩
  | openpart_write op buf count offset moved =>
    obtain ⟨hanswers, hcases⟩ := hf.writes (.openpart_write op buf count offset moved)
      (fun _ => (lfs.off_t offset).toNat) rfl (fun _ => rfl) (fun _ _ ht => serves_write ht) h
    refine ⟨hanswers, ?_⟩
    rcases hcases with ⟨rfl, err, rfl⟩ | ⟨r, bs, n, rfl, rfl, rfl, rfl⟩
    · exact hf.transfer rfl rfl (by cases op <;> cases buf <;> rfl)
    · exact hf.transfer rfl rfl rfl
  | openpart_read_sector op buf sector count moved =>
    obtain ⟨rfl, hanswers⟩ := hf.reads (.openpart_read_sector op buf sector count moved)
      (fun sector_size => (lfs.off_t (sector * sector_size)).toNat) rfl (fun _ => rfl)
      (fun _ _ ht => serves_read_sector ht) h
    exact ⟨hanswers, hf.transfer rfl rfl rfl⟩
  | openpart_write_sector op buf sector count moved =>
    obtain ⟨hanswers, hcases⟩ := hf.writes (.openpart_write_sector op buf sector count moved)
      (fun sector_size => (lfs.off_t (sector * sector_size)).toNat) rfl (fun _ => rfl)
      (fun _ _ ht => serves_write_sector ht) h
    refine ⟨hanswers, ?_⟩
    rcases hcases with ⟨rfl, err, rfl⟩ | ⟨r, bs, n, rfl, rfl, rfl, rfl⟩
    · exact hf.transfer rfl rfl (by cases op <;> cases buf <;> rfl)
    · exact hf.transfer rfl rfl rfl

/-- Whatever handles are opened, closed and used in whatever order, and whatever
descriptor numbers the system gives out again, a read finds what was written last. -/
theorem reads_find_last_write {bytes : κ → UInt8} {ts : List (Run.Transition (DeviceSession κ) DeviceCall Returned)}
    (hrun : Run.IsRun (DeviceSession.step abi lfs devs cell) { bytes := bytes } ts)
    (earlier later : List (Run.Transition (DeviceSession κ) DeviceCall Returned))
    (t : Run.Transition (DeviceSession κ) DeviceCall Returned) (hts : ts = earlier ++ t :: later) :
    Answers lfs devs cell bytes (Run.log earlier) t.label t.shown := by
  have hstart : Follows devs lfs cell bytes [] { bytes := bytes } := by
    refine ⟨⟨fun h op hop => ?_, fun _ _ => rfl⟩, fun h hd hhd => ?_, rfl⟩
    · cases hop
    · cases hhd
  obtain ⟨hf, hstep⟩ := @Run.before_of_log _ _ _ _ (Follows devs lfs cell bytes) _ _ hstart
    (fun _ _ _ _ _ hv h => (Follows.step hv h).2) hrun _ _ _ hts
  exact (hf.step hstep).1

/-- Sector 1 is written through one handle, and read by its offset through a later one that
has the descriptor number of a third, on another device, and is open with `OP_IGNTYPE`:
its sector 1 is another place. -/
def sectorCalls : List DeviceCall :=
  [.openpart_open (some "/dev/block/sda1") OP_RDWR 0 (.opened 5),
    .openpart_open (some "/dev/block/sda2") OP_RDWR 0 (.opened 6),
    .openpart_write_sector (.handle 0) (some [1, 2, 3]) 1 1 (.ok 3), .openpart_write (.handle 1) (some [9]) 1 513 (.ok 1),
    .openpart_close (.handle 1), .openpart_open (some "/dev/block/sda1") (OP_RDWR ||| OP_IGNTYPE) 0 (.opened 6),
    .openpart_write_sector (.handle 2) (some [7]) 1 1 (.ok 1), .openpart_read_sector (.handle 2) (some 4096) 1 1 (.ok 2),
    .openpart_read (.handle 2) (some 4) 4 512 (.ok 4)]

def wideDevices : DeviceTree := { World.plainDevices with size := fun _ => 8192 }

def sectorTrace : List (Run.Transition (DeviceSession (Str × Nat)) DeviceCall Returned) :=
  (Run.trace (DeviceSession.step .arm64_v8a .bits64 wideDevices Prod.mk) { bytes := fun _ => 0 }
    sectorCalls).getD []

theorem reads_find_last_write_sda1 :
    (sectorTrace.map Run.Transition.shown).drop 7 = [.filled [7, 0], .filled [1, 2, 3, 0]] ∧
      ∀ earlier later t, sectorTrace = earlier ++ t :: later →
        Answers .bits64 wideDevices Prod.mk (fun _ => 0) (Run.log earlier) t.label t.shown :=
  ⟨by decide +kernel, reads_find_last_write (Run.isRun_getD_trace (by decide +kernel))⟩

end DeviceSession

end PartitionManager
