import PartitionManager.Backup
import PartitionManager.EraseTasks
import PartitionManager.Flash

namespace PartitionManager

/-- The device a command runs on: its partitions and their places, and what its file
system has besides regular files. -/
structure Device where
  layout : Layout
  flags : BasicFlags
  nodes : FileSystem

/-- What commands change: the disks, and the files by their paths. -/
structure Machine where
  store : Nat → UInt8
  files : Str → Option (List UInt8)

/-- One `backup` of a partition, with all that it meets. It is given up after `fuel` turns.
`run` never passes an empty output name. -/
structure BackupCommand (abi : Abi) where
  plugin : BackupPlugin
  partitionName : Str
  outputName : Str
  named : outputName ≠ []
  answers : List Str
  reads : Schedule abi
  writes : WriteSchedule abi
  openErrno : Option Errno
  errno : Errno
  sha256Compare : Str → List UInt8 → Outcome Bool
  changeOwner : Bool
  fuel : Nat

structure FlashCommand (abi : Abi) where
  plugin : FlashPlugin
  partitionName : Str
  imageName : Str
  answers : List Str
  reads : Schedule abi
  writes : Schedule abi
  openpart_sync : Int
  openErrno : Option Errno
  errno : Errno
  eraseEntry : Bool
  fuel : Nat

structure EraseCommand (abi : Abi) where
  plugin : ErasePlugin
  partitionName : Str
  answers : List Str
  openErrno : Option Errno
  confirmPrompt : Bool
  writes : Schedule abi
  overflow : Int → Int
  fuel : Nat

inductive Command (abi : Abi) where
  | backup (cmd : BackupCommand abi)
  | flash (cmd : FlashCommand abi)
  | erase (cmd : EraseCommand abi)

/-- `runAsync` of the erase plugin, given up after `fuel` turns. -/
def ErasePlugin.runAsync {abi : Abi} (plugin : ErasePlugin) (w : EraseWorld) (partitionName : Str)
    (io : EraseIO abi) (fuel : Nat) : Outcome AsyncResult := do
  match ← plugin.precheck w partitionName abi with
  | .inl r => .ok r
  | .inr setup =>
    match Loop.run (eraseTurn io setup) fuel io.start with
    | .again _ => .error .never
    | .leave exit => .ok exit.result

namespace Machine

variable (m : Machine)

def fileSize (path : Str) : Int :=
  match m.files path with
  | some content => content.length
  | none => -1

end Machine

namespace Device

variable (d : Device)

def fs (m : Machine) : FileSystem :=
  { d.nodes with
    exist := fun path => (m.files path).isSome || d.nodes.exist path
    fileIsExists := fun path => (m.files path).isSome || d.nodes.fileIsExists path }

def sizeOf (abi : Abi) (p : Partition) : Nat :=
  match p.size abi d.nodes with
  | .ok n => n
  | .error _ => 0

def content (abi : Abi) (m : Machine) (p : Partition) : List UInt8 :=
  d.layout.content m.store p (d.sizeOf abi p)

/-- The partition that a command of this name works on. -/
def found (m : Machine) (answers : List Str) (partitionName : Str) : Option Partition :=
  match findPartition d.flags (d.fs m) answers partitionName with
  | .ok (p, _) => p
  | .error _ => none

/-- What lies under that partition. -/
def under (abi : Abi) (m : Machine) (answers : List Str) (partitionName : Str) : List UInt8 :=
  match d.found m answers partitionName with
  | some p => d.content abi m p
  | none => []

end Device

section

variable {abi : Abi} (d : Device) (m : Machine)

namespace BackupCommand

variable (cmd : BackupCommand abi)

def world : BackupWorld abi where
  flags := d.flags
  fs := d.fs m
  answers := cmd.answers
  io := ⟨d.under abi m cmd.answers cmd.partitionName, cmd.reads, cmd.writes, cmd.openErrno, cmd.errno⟩
  sha256Compare := cmd.sha256Compare
  changeOwner := cmd.changeOwner

/-- What is in the output file once the copying is over or has been given up, if it came to that. -/
def leaves : Option (List UInt8) :=
  match cmd.plugin.precheck (cmd.world d m) cmd.partitionName cmd.outputName with
  | .ok (.inr (partition, buf)) =>
    match partition.dumpSetup abi (d.fs m) cmd.openErrno cmd.outputName (abi.toSize buf) with
    | .ok setup =>
      match Loop.run (dumpTurn (d.fs m) (cmd.world d m).io setup) cmd.fuel (cmd.world d m).io.start with
      | .again s => some s.outfd
      | .leave exit => some exit.outfd
    | .error _ => none
  | _ => none

def exec : Outcome AsyncResult × Machine :=
  ((cmd.plugin.runAsync (cmd.world d m) cmd.partitionName cmd.outputName cmd.fuel).map Prod.fst,
    match cmd.leaves d m with
    | some image => { m with files := Function.update m.files cmd.outputName (some image) }
    | none => m)

end BackupCommand

namespace FlashCommand

variable (cmd : FlashCommand abi)

def world : FlashWorld abi where
  flags := d.flags
  fs := d.fs m
  answers := cmd.answers
  fileSize := m.fileSize
  openErrno := cmd.openErrno
  io := ⟨(m.files cmd.imageName).getD [], cmd.reads, cmd.writes, cmd.openpart_sync, cmd.errno, d.nodes.strerror⟩
  device := d.under abi m cmd.answers cmd.partitionName
  eraseEntry := cmd.eraseEntry

/-- The partition that is written to, and its content then. -/
def leaves : Option (Partition × List UInt8) :=
  match cmd.plugin.precheck cmd.partitionName cmd.imageName abi d.flags (d.fs m) cmd.answers m.fileSize with
  | .ok (.inr (partition, buf)) =>
    match partition.writeSetup abi (d.fs m) m.fileSize cmd.openErrno cmd.errno cmd.imageName (abi.toSize buf) with
    | .ok setup =>
      match Loop.run (writeTurn (cmd.world d m).io setup) cmd.fuel
          ((cmd.world d m).device, (cmd.world d m).io.start) with
      | .again s => some (partition, s.1)
      | .leave r => some (partition, r.2)
    | .error _ => none
  | _ => none

def result : Outcome (AsyncResult × Bool) :=
  cmd.plugin.runAsync (cmd.world d m) cmd.partitionName cmd.imageName cmd.fuel

def exec : Outcome AsyncResult × Machine :=
  ((cmd.result d m).map Prod.fst,
    { store :=
        match cmd.leaves d m with
        | some (p, device) => d.layout.put m.store p 0 device
        | none => m.store
      files :=
        match cmd.result d m with
        | .ok (_, true) => Function.update m.files cmd.imageName none
        | _ => m.files })

end FlashCommand

namespace EraseCommand

variable (cmd : EraseCommand abi)

def world : EraseWorld := ⟨d.flags, d.fs m, cmd.answers, m.fileSize, cmd.openErrno, cmd.confirmPrompt⟩

def io : EraseIO abi := ⟨d.under abi m cmd.answers cmd.partitionName, cmd.writes, cmd.overflow, d.nodes.strerror⟩

def leaves : Option (Partition × List UInt8) :=
  match cmd.plugin.precheck (cmd.world d m) cmd.partitionName abi with
  | .ok (.inr setup) =>
    (d.found m cmd.answers cmd.partitionName).map fun p =>
      match Loop.run (eraseTurn (cmd.io d m) setup) cmd.fuel (cmd.io d m).start with
      | .again s => (p, s.device)
      | .leave exit => (p, exit.device)
  | _ => none

def exec : Outcome AsyncResult × Machine :=
  (cmd.plugin.runAsync (cmd.world d m) cmd.partitionName (cmd.io d m) cmd.fuel,
    match cmd.leaves d m with
    | some (p, device) => { m with store := d.layout.put m.store p 0 device }
    | none => m)

end EraseCommand

def Command.exec : Command abi → Outcome AsyncResult × Machine
  | .backup cmd => cmd.exec d m
  | .flash cmd => cmd.exec d m
  | .erase cmd => cmd.exec d m

/-- The partition that a command may change. -/
def Command.target : Command abi → Option Partition
  | .backup _ => none
  | .flash cmd => d.found m cmd.answers cmd.partitionName
  | .erase cmd => d.found m cmd.answers cmd.partitionName

/-- The command may change the file of this path. -/
def Command.Touches (path : Str) : Command abi → Prop
  | .backup cmd => cmd.outputName = path
  | .flash cmd => cmd.imageName = path ∧ cmd.plugin.deleteAfterProgress = true
  | .erase _ => False

end

def Succeeded (r : Outcome AsyncResult) : Prop := ∃ a, r = .ok a ∧ a.result = true

/-- What is there has been replaced from the front, all of it after a success. -/
def Replaced (r : Outcome AsyncResult) (old new content : List UInt8) : Prop :=
  ∃ k, content = new.take k ++ old.drop k ∧ (Succeeded r → content = new)

section

variable {abi : Abi} {d : Device} {m : Machine}

namespace Device

theorem sizeOf_eq {p : Partition} {n : Nat} (h : p.size abi (d.fs m) = .ok n) : d.sizeOf abi p = n := by
  have hnodes : p.size abi d.nodes = .ok n := h
  rw [sizeOf, hnodes]

theorem content_length (p : Partition) : (d.content abi m p).length = d.sizeOf abi p :=
  Layout.content_length _

theorem under_of_found (abi : Abi) {answers : List Str} {partitionName : Str} {p : Partition} {tType : Option TableType}
    (h : findPartition d.flags (d.fs m) answers partitionName = .ok (some p, tType)) :
    d.found m answers partitionName = some p ∧ d.under abi m answers partitionName = d.content abi m p := by
  have hfound : d.found m answers partitionName = some p := by
    rw [found, h]
  exact ⟨hfound, by rw [under, hfound]⟩

end Device

theorem succeeded_map {α : Type} {f : α → AsyncResult} {r : Outcome α} (h : Succeeded (r.map f)) :
    ∃ a, r = .ok a ∧ (f a).result = true := by
  obtain ⟨b, hb, hok⟩ := h
  cases r with
  | error stop => cases hb
  | ok a =>
    cases hb
    exact ⟨a, rfl, hok⟩

/-- What the loop of `dump` leaves behind is the front of the partition in any case. -/
theorem dumpTurn_leave_front {fs : FileSystem} {io : DumpIO abi} {setup : DumpSetup} {s : DumpState}
    {exit : DumpExit} (hs : s.Whole io)
    (hfail : s.bytesReadSoFar < setup.totalBytesToRead → io.bytesRead setup s = -1 → io.reads.errno s.turn = EPERM)
    (h : dumpTurn fs io setup s = .leave exit) : ∃ k, exit.outfd = io.content.take k := by
  by_cases hpos : s.bytesReadSoFar < setup.totalBytesToRead
  · by_cases hr : io.bytesRead setup s = -1
    · obtain ⟨e, he⟩ : ∃ e, dumpTurn fs io setup s = .leave ⟨.error e, s.outfd⟩ :=
        dumpTurn_failed_read hpos hr (hfail hpos hr)
      rw [he] at h
      cases h
      exact ⟨_, hs.outfd⟩
    · simp only [dumpTurn, if_pos hpos] at h
      split at h
      next =>
        cases h
        exact ⟨_, hs.outfd⟩
      next =>
        split at h
        next =>
          cases h
          dsimp only
          rw [hs.outfd, Bytes.slice_take, Bytes.take_append_slice]
          exact ⟨_, rfl⟩
        next => cases h
  · unfold dumpTurn at h
    rw [if_neg hpos] at h
    cases h
    exact ⟨_, hs.outfd⟩

namespace BackupCommand

variable {cmd : BackupCommand abi}

/-- A read that fails says so by its `errno`. -/
def Honest (cmd : BackupCommand abi) : Prop :=
  ∀ i count, cmd.reads.result i count = -1 → cmd.reads.errno i = EPERM

theorem copies_content {setup : DumpSetup}
    (h : cmd.plugin.Copies (cmd.world d m) cmd.partitionName cmd.outputName setup) :
    ∃ p, d.found m cmd.answers cmd.partitionName = some p ∧
      (cmd.world d m).io.content = d.content abi m p ∧
      setup.totalBytesToRead = (cmd.world d m).io.content.length ∧
      (cmd.world d m).io.content.length < 2 ^ abi.bits := by
  obtain ⟨p, buf, hpre, hsetup⟩ := h
  obtain ⟨tType, hfind⟩ := BackupPlugin.precheck_partition hpre
  obtain ⟨hfound, hunder⟩ := Device.under_of_found abi hfind
  have hsize := (Partition.dumpSetup_size hsetup).1
  have hcontent : (cmd.world d m).io.content = d.content abi m p := hunder
  have hlength : (cmd.world d m).io.content.length = setup.totalBytesToRead := by
    rw [hcontent, Device.content_length]
    exact Device.sizeOf_eq hsize
  exact ⟨p, hfound, hcontent, hlength.symm, hlength ▸ Partition.size_lt hsize⟩

theorem leaves_of_copies {setup : DumpSetup}
    (h : cmd.plugin.Copies (cmd.world d m) cmd.partitionName cmd.outputName setup) :
    cmd.leaves d m =
      match Loop.run (dumpTurn (d.fs m) (cmd.world d m).io setup) cmd.fuel (cmd.world d m).io.start with
      | .again s => some s.outfd
      | .leave exit => some exit.outfd := by
  obtain ⟨p, buf, hpre, hsetup⟩ := h
  have hsetup' : p.dumpSetup abi (d.fs m) cmd.openErrno cmd.outputName (abi.toSize buf) = .ok setup := hsetup
  rw [leaves, hpre]
  dsimp only
  rw [hsetup']

theorem copies_of_leaves {image : List UInt8} (h : cmd.leaves d m = some image) :
    ∃ setup, cmd.plugin.Copies (cmd.world d m) cmd.partitionName cmd.outputName setup := by
  unfold leaves at h
  split at h
  next p buf hpre =>
    split at h
    next setup hsetup => exact ⟨setup, p, buf, hpre, hsetup⟩
    next => cases h
  next => cases h

/-- Whatever was copied when the command ended or was given up is the front of the partition. -/
theorem leaves_front (hhonest : cmd.Honest) {image : List UInt8} (h : cmd.leaves d m = some image) :
    ∃ p k, d.found m cmd.answers cmd.partitionName = some p ∧ image = (d.content abi m p).take k := by
  obtain ⟨setup, hcopies⟩ := copies_of_leaves h
  obtain ⟨p, hfound, hcontent, hn, hlt⟩ := copies_content hcopies
  rw [leaves_of_copies hcopies] at h
  refine ⟨p, ?_⟩
  have hwhole : ∀ k s, Loop.At (dumpTurn (d.fs m) (cmd.world d m).io setup) (cmd.world d m).io.start k s →
      s.Whole (cmd.world d m).io := fun _ _ hs =>
    BackupPlugin.dumpReads_whole hn hlt (fun _ s _ hr => hhonest s.turn _ hr) hs
  split at h
  next s hrun =>
    cases h
    exact ⟨s.bytesReadSoFar, hfound, hcontent ▸ (hwhole _ s hrun).outfd⟩
  next exit hrun =>
    cases h
    obtain ⟨k, s, hs, hleave⟩ := Loop.last_turn ⟨_, hrun⟩
    obtain ⟨n, hn⟩ := dumpTurn_leave_front (hwhole k s hs) (fun _ hr => hhonest s.turn _ hr) hleave
    exact ⟨n, hfound, hcontent ▸ hn⟩

/-- After a success it is all of it. -/
theorem leaves_whole (hhonest : cmd.Honest) (h : Succeeded (cmd.exec d m).1) :
    ∃ p, d.found m cmd.answers cmd.partitionName = some p ∧ cmd.leaves d m = some (d.content abi m p) := by
  obtain ⟨⟨a, image⟩, hrun, hok⟩ := succeeded_map h
  obtain ⟨setup, b, outfd, hcopies, hreturns, _⟩ := BackupPlugin.runAsync_success hrun hok
  obtain ⟨p, hfound, hcontent, hn, hlt⟩ := copies_content hcopies
  refine ⟨p, hfound, ?_⟩
  rw [leaves_of_copies hcopies]
  split
  next s hagain =>
    rw [BackupPlugin.runAsync_copying hcopies hagain] at hrun
    cases hrun
  next exit hleave =>
    cases Loop.returns_unique ⟨_, hleave⟩ hreturns
    obtain ⟨k, s, hs, hturn⟩ := Loop.last_turn hreturns
    obtain ⟨hall, houtfd⟩ := dumpTurn_leave_ok hturn
    have hwhole : s.Whole (cmd.world d m).io :=
      BackupPlugin.dumpReads_whole hn hlt (fun _ s _ hr => hhonest s.turn _ hr) hs
    have hwithin := hwhole.within
    rw [houtfd, hwhole.outfd, List.take_of_length_le (by omega), hcontent]

end BackupCommand

section

variable {io : WriteIO abi} {setup : WriteSetup} {s s' : List UInt8 × WriteTask} {device : List UInt8}

/-- The device holds the front of the padded image, and behind it what it held before. -/
structure Fronted (io : WriteIO abi) (setup : WriteSetup) (device : List UInt8) (s : List UInt8 × WriteTask)
    (k : Nat) : Prop where
  within : k ≤ setup.size
  content : s.1 = (io.padded setup).take k ++ device.drop k
  counted : (∀ r, s.2.stage ≠ .done r) → s.2.bytesWrittenSoFar = k

/-- Until it is over, a call counts every byte it puts. -/
theorem WriteCase.counts {t t' : WriteTask} {put : List UInt8} (h : WriteCase io setup t t' put)
    (hopen : ∀ r, t'.stage ≠ .done r) : t'.bytesWrittenSoFar = t.bytesWrittenSoFar + put.length := by
  cases h with
  | unread errno' message hmore hfail => exact absurd rfl (hopen _)
  | unwritten errno' message hfail => exact absurd rfl (hopen _)
  | unpadded errno' message hmore hfail => exact absurd rfl (hopen _)
  | padded errno' r hmore hr hpos => simp
  | _ => rfl

theorem overwrite_front {new old : List UInt8} {k n : Nat} (hk : k + n ≤ new.length) (hold : new.length = old.length) :
    Bytes.overwrite (new.take k ++ old.drop k) k (Bytes.slice new k n) = new.take (k + n) ++ old.drop (k + n) := by
  have hfront : (new.take k).length = k := by
    rw [List.length_take]
    omega
  have hslice : (Bytes.slice new k n).length = n := by
    rw [Bytes.slice_length]
    omega
  have hput : Bytes.overwrite (new.take k ++ old.drop k) (new.take k).length (Bytes.slice new k n) =
      new.take k ++ Bytes.slice new k n ++ (old.drop k).drop (Bytes.slice new k n).length :=
    Bytes.overwrite_append _ _ _
  rw [hfront, hslice, List.drop_drop, Bytes.take_append_slice] at hput
  exact hput

theorem writeTurn_fronted (hfits : io.Fits setup) (hdevice : setup.size = device.length) {k : Nat}
    (hplaced : Placed io setup s) (hs : Fronted io setup device s k) (h : writeTurn io setup s = .again s') :
    ∃ k', Fronted io setup device s' k' := by
  obtain ⟨hopen, rfl⟩ := writeTurn_again h
  obtain ⟨_, hputs⟩ := writeStep_sound hfits hplaced.sound
  have hk : s.2.bytesWrittenSoFar = k := hs.counted hopen
  have hbytes := hputs.bytes
  have hwithin := hputs.within
  rw [hk] at hbytes hwithin
  have hlength := WriteIO.padded_length hfits
  refine ⟨k + (writeStep io setup s.2).2.length, ⟨hwithin, ?_, fun hopen' => ?_⟩⟩
  · dsimp only
    rw [hk, hs.content]
    have hfront := @overwrite_front (io.padded setup) device k (writeStep io setup s.2).2.length (by omega) (by omega)
    rwa [← hbytes] at hfront
  · rw [(writeStep_case io setup s.2).counts hopen', hk]

theorem at_fronted (hfits : io.Fits setup) (hdevice : setup.size = device.length) {n : Nat}
    (h : Loop.At (writeTurn io setup) (device, io.start) n s) : ∃ k, Fronted io setup device s k := by
  have hstart : Placed io setup (device, io.start) ∧ ∃ k, Fronted io setup device (device, io.start) k :=
    ⟨start_placed hdevice, 0, ⟨Nat.zero_le _, by simp, fun _ => rfl⟩⟩
  refine (Loop.at_invariant (I := fun s => Placed io setup s ∧ ∃ k, Fronted io setup device s k) ?_ hstart h).2
  intro s s' hs hturn
  obtain ⟨hplaced, k, hfronted⟩ := hs
  exact ⟨writeTurn_placed hfits hplaced hturn, writeTurn_fronted hfits hdevice hplaced hfronted hturn⟩

end

namespace FlashCommand

variable {cmd : FlashCommand abi}

/-- The partition of a command that gets to its loops, the image, and how they fit. -/
theorem flashes_fits {p : Partition} {buf : Nat} {setup : WriteSetup}
    (hpre : cmd.plugin.precheck cmd.partitionName cmd.imageName abi d.flags (d.fs m) cmd.answers m.fileSize =
      .ok (.inr (p, buf)))
    (hsetup : p.writeSetup abi (d.fs m) m.fileSize cmd.openErrno cmd.errno cmd.imageName (abi.toSize buf) =
      .ok setup) :
    d.found m cmd.answers cmd.partitionName = some p ∧ (cmd.world d m).device = d.content abi m p ∧
      m.files cmd.imageName = some (cmd.world d m).io.image ∧ (cmd.world d m).io.Fits setup ∧
      setup.size = (cmd.world d m).device.length := by
  obtain ⟨tType, hfind⟩ := FlashPlugin.precheck_partition hpre
  obtain ⟨hfound, hunder⟩ := Device.under_of_found abi hfind
  obtain ⟨hsize, hfile, hle⟩ := Partition.writeSetup_size hsetup
  have hdevice : (cmd.world d m).device = d.content abi m p := hunder
  cases himage : m.files cmd.imageName with
  | none =>
    rw [Machine.fileSize, himage] at hfile
    dsimp only at hfile
    omega
  | some image =>
    have hio : (cmd.world d m).io.image = image := by
      unfold world
      rw [himage]
      rfl
    rw [Machine.fileSize, himage] at hfile
    dsimp only at hfile
    rw [hio]
    refine ⟨hfound, hdevice, rfl, ⟨by rw [hio]; omega, by rw [hio]; omega⟩, ?_⟩
    rw [hdevice, Device.content_length]
    exact (Device.sizeOf_eq hsize).symm

/-- The image, and zeros up to the size of the partition. -/
def padded (d : Device) (abi : Abi) (p : Partition) (image : List UInt8) : List UInt8 :=
  image ++ List.replicate (d.sizeOf abi p - image.length) 0

theorem leaves_setup {p : Partition} {device : List UInt8} (h : cmd.leaves d m = some (p, device)) :
    ∃ buf setup,
      cmd.plugin.precheck cmd.partitionName cmd.imageName abi d.flags (d.fs m) cmd.answers m.fileSize =
        .ok (.inr (p, buf)) ∧
      p.writeSetup abi (d.fs m) m.fileSize cmd.openErrno cmd.errno cmd.imageName (abi.toSize buf) = .ok setup ∧
      ((∃ s, Loop.run (writeTurn (cmd.world d m).io setup) cmd.fuel
          ((cmd.world d m).device, (cmd.world d m).io.start) = .again s ∧ device = s.1) ∨
        ∃ r, Loop.run (writeTurn (cmd.world d m).io setup) cmd.fuel
          ((cmd.world d m).device, (cmd.world d m).io.start) = .leave r ∧ device = r.2) := by
  unfold leaves at h
  split at h
  next p' buf hpre =>
    split at h
    next setup hsetup =>
      split at h
      next s hrun =>
        cases h
        exact ⟨buf, setup, hpre, hsetup, Or.inl ⟨s, hrun, rfl⟩⟩
      next r hrun =>
        cases h
        exact ⟨buf, setup, hpre, hsetup, Or.inr ⟨r, hrun, rfl⟩⟩
    next => cases h
  next => cases h

/-- However far the writing got, it has replaced the front of the partition. -/
theorem leaves_fronted {p : Partition} {device : List UInt8} (h : cmd.leaves d m = some (p, device)) :
    ∃ image k, d.found m cmd.answers cmd.partitionName = some p ∧ m.files cmd.imageName = some image ∧
      image.length ≤ d.sizeOf abi p ∧ device.length = d.sizeOf abi p ∧
      device = (padded d abi p image).take k ++ (d.content abi m p).drop k := by
  obtain ⟨buf, setup, hpre, hsetup, hrun⟩ := leaves_setup h
  obtain ⟨hfound, hdevice, himage, hfits, hsize⟩ := flashes_fits hpre hsetup
  have hlength : setup.size = d.sizeOf abi p := by
    rw [hsize, hdevice, Device.content_length]
  have hreached : ∃ n s, Loop.At (writeTurn (cmd.world d m).io setup)
      ((cmd.world d m).device, (cmd.world d m).io.start) n s ∧ device = s.1 := by
    rcases hrun with ⟨s, hs, hd⟩ | ⟨r, hr, hd⟩
    · exact ⟨_, s, hs, hd⟩
    · obtain ⟨n, s, hs, hleave⟩ := Loop.last_turn ⟨_, hr⟩
      exact ⟨n, s, hs, hd.trans (writeTurn_leave hleave).2⟩
  obtain ⟨n, s, hs, rfl⟩ := hreached
  obtain ⟨k, hfronted⟩ := at_fronted hfits hsize hs
  have hfit := hfits.size
  refine ⟨_, k, hfound, himage, by omega, ((at_placed hfits hsize hs).length).trans hlength, ?_⟩
  rw [hfronted.content, hdevice, WriteIO.padded, hlength]
  rfl

theorem result_ok {r : AsyncResult} {removed : Bool} (h : cmd.result d m = .ok (r, removed))
    (hr : r.result = true ∨ removed = true) :
    r.result = true ∧ (removed = true → cmd.plugin.deleteAfterProgress = true) ∧
      ∃ p image, cmd.leaves d m = some (p, padded d abi p image) ∧ m.files cmd.imageName = some image := by
  obtain ⟨pre, hpre, h⟩ := Checks.bind_ok_iff.mp h
  cases pre with
  | inl early =>
    cases h
    rw [FlashPlugin.precheck_result hpre] at hr
    simp at hr
  | inr found =>
    obtain ⟨p, buf⟩ := found
    dsimp only at h
    cases hwrite : p.write (cmd.world d m).io (cmd.world d m).fs (cmd.world d m).fileSize (cmd.world d m).openErrno
        (cmd.world d m).device cmd.imageName (abi.toSize buf) cmd.fuel with
    | error stop =>
      rw [hwrite] at h
      split at h
      next =>
        cases h
        simp [FlashPlugin.writeFailed, AsyncResult.Error] at hr
      next => cases h
      next heq => cases heq
    | ok done =>
      rw [hwrite] at h
      cases h
      refine ⟨rfl, fun hremoved => (Bool.and_eq_true_iff.mp hremoved).1, ?_⟩
      obtain ⟨setup, hsetup, hloop⟩ := Checks.bind_ok_iff.mp hwrite
      obtain ⟨_, hdevice, himage, hfits, hsize⟩ := flashes_fits hpre hsetup
      have hsetup' : p.writeSetup abi (d.fs m) m.fileSize cmd.openErrno cmd.errno cmd.imageName (abi.toSize buf) =
          .ok setup := hsetup
      have hpre' : cmd.plugin.precheck cmd.partitionName cmd.imageName abi d.flags (d.fs m) cmd.answers
          m.fileSize = .ok (.inr (p, buf)) := hpre
      split at hloop
      next => cases hloop
      next => cases hloop
      next b device hrun =>
        have hpadded := write_padded hfits hsize ⟨_, hrun⟩
        refine ⟨p, (cmd.world d m).io.image, ?_, himage⟩
        rw [leaves, hpre']
        dsimp only
        rw [hsetup']
        dsimp only
        rw [hrun, hpadded, WriteIO.padded, hsize, hdevice, Device.content_length]
        rfl

end FlashCommand

theorem eraseTurn_leave_device {io : EraseIO abi} {setup : EraseSetup} {s : EraseState} {exit : EraseExit}
    (h : eraseTurn io setup s = .leave exit) : exit.device = s.device := by
  unfold eraseTurn at h
  dsimp only at h
  split at h
  next =>
    split at h
    next =>
      cases h
      rfl
    next =>
      split at h
      next =>
        cases h
        rfl
      next => cases h
  next =>
    cases h
    rfl

namespace EraseCommand

variable {cmd : EraseCommand abi}

theorem precheck_found {setup : EraseSetup}
    (h : cmd.plugin.precheck (cmd.world d m) cmd.partitionName abi = .ok (.inr setup)) :
    ∃ p, d.found m cmd.answers cmd.partitionName = some p ∧ (cmd.io d m).device = d.content abi m p ∧
      setup.partitionSize = d.sizeOf abi p := by
  obtain ⟨found, hfound, h⟩ := Checks.bind_ok_iff.mp h
  cases found with
  | none => cases h
  | some p =>
    obtain ⟨size, hsize, h⟩ := Checks.bind_ok_iff.mp h
    have hfind : findPartition d.flags (d.fs m) cmd.answers cmd.partitionName =
        .ok (some p, (getCorrectTableObj cmd.partitionName d.flags.first d.flags.second none).2) := by
      unfold findPartition
      have hsetup : setupPartition (d.fs m) cmd.answers cmd.partitionName
          (getCorrectTableObj cmd.partitionName d.flags.first d.flags.second none).1 = .ok (some p) := hfound
      dsimp only
      rw [hsetup]
      rfl
    obtain ⟨hfound', hunder⟩ := Device.under_of_found abi hfind
    refine ⟨p, hfound', hunder, ?_⟩
    have hsizeOf := Device.sizeOf_eq hsize
    split at h
    next => cases h
    next =>
      split at h
      next => cases h
      next =>
        obtain ⟨buf, _, h⟩ := Checks.bind_ok_iff.mp h
        obtain ⟨path, _, h⟩ := Checks.bind_ok_iff.mp h
        split at h
        next => cases h
        next =>
          split at h
          next => cases h
          next =>
            cases h
            exact hsizeOf.symm

/-- The size of the partition fits the counter. -/
def Countable (d : Device) (m : Machine) (cmd : EraseCommand abi) : Prop :=
  ∀ p, d.found m cmd.answers cmd.partitionName = some p → d.sizeOf abi p ≤ abi.SSIZE_MAX

theorem leaves_exact (hcountable : cmd.Countable d m) {p : Partition} {device : List UInt8}
    (h : cmd.leaves d m = some (p, device)) :
    ∃ k, d.found m cmd.answers cmd.partitionName = some p ∧ k ≤ d.sizeOf abi p ∧
      device = List.replicate k 0 ++ (d.content abi m p).drop k := by
  unfold leaves at h
  split at h
  next setup hpre =>
    obtain ⟨q, hq, hmap⟩ := Option.map_eq_some_iff.mp h
    obtain ⟨p', hfound, hdevice, hsize⟩ := precheck_found hpre
    have hsame : p' = q := Option.some.inj (hfound.symm.trans hq)
    subst hsame
    have hmax : setup.partitionSize ≤ abi.SSIZE_MAX := hsize ▸ hcountable p' hq
    have hlength : (cmd.io d m).device.length = setup.partitionSize := by
      rw [hdevice, Device.content_length, hsize]
    have hreached : ∃ n s, Loop.At (eraseTurn (cmd.io d m) setup) (cmd.io d m).start n s ∧
        p' = p ∧ device = s.device := by
      split at hmap
      next s hrun =>
        cases hmap
        exact ⟨_, s, hrun, rfl, rfl⟩
      next exit hrun =>
        cases hmap
        obtain ⟨n, s, hs, hleave⟩ := Loop.last_turn ⟨_, hrun⟩
        exact ⟨n, s, hs, rfl, eraseTurn_leave_device hleave⟩
    obtain ⟨n, s, hs, rfl, rfl⟩ := hreached
    have hexact := at_exact hmax hlength hs
    exact ⟨s.offset, hfound, hsize ▸ hexact.within, hdevice ▸ hexact.zeroed⟩
  next => cases h

/-- After a success nothing but zeros is left. -/
theorem leaves_zeros (hcountable : cmd.Countable d m) (h : Succeeded (cmd.exec d m).1) :
    ∃ p, d.found m cmd.answers cmd.partitionName = some p ∧
      cmd.leaves d m = some (p, List.replicate (d.sizeOf abi p) 0) := by
  obtain ⟨r, hrun, hok⟩ := h
  obtain ⟨pre, hpre, hloop⟩ := Checks.bind_ok_iff.mp hrun
  cases pre with
  | inl early =>
    cases hloop
    rw [ErasePlugin.precheck_early hpre] at hok
    cases hok
  | inr setup =>
    dsimp only at hloop
    obtain ⟨p, hfound, hdevice, hsize⟩ := precheck_found hpre
    have hmax : setup.partitionSize ≤ abi.SSIZE_MAX := hsize ▸ hcountable p hfound
    have hlength : (cmd.io d m).device.length = setup.partitionSize := by
      rw [hdevice, Device.content_length, hsize]
    split at hloop
    next => cases hloop
    next exit hleave =>
      cases hloop
      obtain ⟨_, hzeros⟩ := (erase_complete_of_le hmax hlength).whole exit ⟨_, hleave⟩ hok
      refine ⟨p, hfound, ?_⟩
      rw [leaves, hpre]
      dsimp only
      rw [hfound, Option.map_some, hleave]
      dsimp only
      rw [hzeros, hsize]

end EraseCommand

end

end PartitionManager
