import PartitionManager.Commands
import PartitionManager.Library.Run

namespace PartitionManager

section

variable {abi : Abi} (d : Device)

/-- The sizes that a command counts up to fit its counter. -/
def Command.Counted (m : Machine) : Command abi → Prop
  | .backup _ => True
  | .flash _ => True
  | .erase cmd => cmd.Countable d m

/-- What the surroundings of a command have to keep to. -/
def Command.Careful (m : Machine) : Command abi → Prop
  | .backup cmd => cmd.Honest
  | .flash _ => True
  | .erase cmd => cmd.Countable d m

/-- What a command is for: a file gets the content of a partition, a partition that of a file, or zeros. -/
def Command.Meaning (m : Machine) (r : Outcome AsyncResult) (m' : Machine) : Command abi → Prop
  | .backup cmd => ∃ p image, d.found m cmd.answers cmd.partitionName = some p ∧
      m'.files cmd.outputName = some image ∧ Replaced r [] (d.content abi m p) image
  | .flash cmd => ∃ p image, d.found m cmd.answers cmd.partitionName = some p ∧
      m.files cmd.imageName = some image ∧ image.length ≤ d.sizeOf abi p ∧
      Replaced r (d.content abi m p) (FlashCommand.padded d abi p image) (d.content abi m' p) ∧
      (m'.files cmd.imageName = none → Succeeded r)
  | .erase cmd => ∃ p, d.found m cmd.answers cmd.partitionName = some p ∧
      Replaced r (d.content abi m p) (List.replicate (d.sizeOf abi p) 0) (d.content abi m' p)

/-- A command either leaves everything as it was, without a success, or does what it is for, and
changes nothing else. -/
structure Command.Carries (m : Machine) (cmd : Command abi) (r : Outcome AsyncResult) (m' : Machine) : Prop where
  store : ∀ c, (∀ p, cmd.target d m = some p → c ∉ d.layout.region p (d.sizeOf abi p)) →
    m'.store c = m.store c
  files : ∀ path, ¬ cmd.Touches path → m'.files path = m.files path
  meaning : (m' = m ∧ ¬ Succeeded r) ∨ cmd.Meaning d m r m'

/-- The command works on storage apart from that of `q`. -/
def Command.Apart (m : Machine) (q : Partition) (cmd : Command abi) : Prop :=
  ∀ p, cmd.target d m = some p → ∀ c ∈ d.layout.region p (d.sizeOf abi p), c ∉ d.layout.region q (d.sizeOf abi q)

/-- One command after another, each a run of the program. -/
def sessionStep (m : Machine) (cmd : Command abi) : Option (Machine × Outcome AsyncResult) :=
  some ((cmd.exec d m).2, (cmd.exec d m).1)

abbrev Session (abi : Abi) := List (Run.Transition Machine (Command abi) (Outcome AsyncResult))

end

section

variable {abi : Abi} {d : Device} {m : Machine}

theorem Device.content_of_put {p : Partition} {device : List UInt8} {m' : Machine}
    (hstore : m'.store = d.layout.put m.store p 0 device) (hlength : device.length = d.sizeOf abi p) :
    d.content abi m' p = device := by
  have hrange : 0 + device.length ≤ d.sizeOf abi p := by omega
  have hold : (d.layout.content m.store p (d.sizeOf abi p)).length = device.length := by
    rw [Layout.content_length, hlength]
  rw [Device.content, hstore, Layout.content_put hrange, Bytes.overwrite, Nat.zero_add, List.take_zero,
    List.nil_append, List.drop_of_length_le (Nat.le_of_eq hold), List.append_nil]

theorem Device.put_frame {p : Partition} {device : List UInt8} {c : Nat} (hlength : device.length = d.sizeOf abi p)
    (hc : c ∉ d.layout.region p (d.sizeOf abi p)) : d.layout.put m.store p 0 device c = m.store c :=
  Layout.put_of_not_mem (by omega) hc

theorem BackupCommand.store_kept {cmd : BackupCommand abi} : (cmd.exec d m).2.store = m.store := by
  unfold exec
  dsimp only
  split <;> rfl

theorem BackupCommand.files_kept {cmd : BackupCommand abi} {path : Str} (h : ¬ (Command.backup cmd).Touches path) :
    (cmd.exec d m).2.files path = m.files path := by
  unfold exec
  dsimp only
  split
  next => exact Function.update_of_ne (fun hpath => h hpath.symm) _ _
  next => rfl

theorem BackupCommand.meaning {cmd : BackupCommand abi} (hhonest : cmd.Honest) :
    ((cmd.exec d m).2 = m ∧ ¬ Succeeded (cmd.exec d m).1) ∨
      (Command.backup cmd).Meaning d m (cmd.exec d m).1 (cmd.exec d m).2 := by
  cases hleaves : cmd.leaves d m with
  | none =>
    have hsame : (cmd.exec d m).2 = m := by
      rw [exec, hleaves]
    refine Or.inl ⟨hsame, fun hok => ?_⟩
    obtain ⟨p, _, hsome⟩ := leaves_whole hhonest hok
    rw [hleaves] at hsome
    cases hsome
  | some image =>
    have hafter : (cmd.exec d m).2 = { m with files := Function.update m.files cmd.outputName (some image) } := by
      rw [exec, hleaves]
    obtain ⟨p, k, hfound, himage⟩ := leaves_front hhonest hleaves
    refine Or.inr ⟨p, image, hfound, ?_, k, ?_, fun hok => ?_⟩
    · rw [hafter]
      exact Function.update_self _ _ _
    · rw [himage, List.drop_nil, List.append_nil]
    · obtain ⟨p', hfound', hwhole⟩ := leaves_whole hhonest hok
      rw [hfound] at hfound'
      cases hfound'
      exact Option.some.inj (hleaves.symm.trans hwhole)

theorem FlashCommand.files_kept {cmd : FlashCommand abi} {path : Str} (h : ¬ (Command.flash cmd).Touches path) :
    (cmd.exec d m).2.files path = m.files path := by
  unfold exec
  dsimp only
  cases hresult : cmd.result d m with
  | error stop => rfl
  | ok done =>
    obtain ⟨r, removed⟩ := done
    cases removed with
    | false => rfl
    | true =>
      obtain ⟨_, hdelete, _⟩ := result_ok hresult (Or.inr rfl)
      exact Function.update_of_ne (fun hpath => h ⟨hpath.symm, hdelete rfl⟩) _ _

theorem FlashCommand.store_kept {cmd : FlashCommand abi} {c : Nat}
    (hc : ∀ p, (Command.flash cmd).target d m = some p → c ∉ d.layout.region p (d.sizeOf abi p)) :
    (cmd.exec d m).2.store c = m.store c := by
  unfold exec
  cases hleaves : cmd.leaves d m with
  | none => rfl
  | some left =>
    obtain ⟨p, device⟩ := left
    obtain ⟨_, _, hfound, _, _, hlength, _⟩ := leaves_fronted hleaves
    exact Device.put_frame hlength (hc p hfound)

/-- The image goes only after a success. -/
theorem FlashCommand.image_gone {cmd : FlashCommand abi} {image : List UInt8}
    (himage : m.files cmd.imageName = some image) (hnone : (cmd.exec d m).2.files cmd.imageName = none) :
    Succeeded (cmd.exec d m).1 := by
  cases hresult : cmd.result d m with
  | error stop =>
    have hkept : (cmd.exec d m).2.files = m.files := by
      unfold exec
      rw [hresult]
    rw [hkept, himage] at hnone
    cases hnone
  | ok done =>
    obtain ⟨r, removed⟩ := done
    cases removed with
    | false =>
      have hkept : (cmd.exec d m).2.files = m.files := by
        unfold exec
        rw [hresult]
      rw [hkept, himage] at hnone
      cases hnone
    | true =>
      refine ⟨r, ?_, (result_ok hresult (Or.inr rfl)).1⟩
      unfold exec
      rw [hresult]
      rfl

theorem FlashCommand.meaning {cmd : FlashCommand abi} :
    ((cmd.exec d m).2 = m ∧ ¬ Succeeded (cmd.exec d m).1) ∨
      (Command.flash cmd).Meaning d m (cmd.exec d m).1 (cmd.exec d m).2 := by
  cases hleaves : cmd.leaves d m with
  | none =>
    have hfailed : ∀ r removed, cmd.result d m = .ok (r, removed) → ¬ (r.result = true ∨ removed = true) := by
      intro r removed hresult hr
      obtain ⟨_, _, p, image, hsome, _⟩ := result_ok hresult hr
      rw [hleaves] at hsome
      cases hsome
    have hsame : (cmd.exec d m).2 = m := by
      unfold exec
      rw [hleaves]
      dsimp only
      split
      next r hresult => exact absurd (Or.inr rfl) (hfailed r true hresult)
      next => rfl
    refine Or.inl ⟨hsame, fun hok => ?_⟩
    obtain ⟨⟨r, removed⟩, hresult, hr⟩ := succeeded_map hok
    exact hfailed r removed hresult (Or.inl hr)
  | some left =>
    obtain ⟨p, device⟩ := left
    obtain ⟨image, k, hfound, himage, hle, hlength, hcontent⟩ := leaves_fronted hleaves
    have hstore : (cmd.exec d m).2.store = d.layout.put m.store p 0 device := by
      unfold exec
      rw [hleaves]
    have hnow : d.content abi (cmd.exec d m).2 p = device := Device.content_of_put hstore hlength
    refine Or.inr ⟨p, image, hfound, himage, hle, ⟨k, hnow.trans hcontent, fun hok => ?_⟩, image_gone himage⟩
    obtain ⟨⟨r, removed⟩, hresult, hr⟩ := succeeded_map hok
    obtain ⟨_, _, p', image', hwhole, himage'⟩ := result_ok hresult (Or.inl hr)
    rw [himage] at himage'
    cases himage'
    rw [hleaves] at hwhole
    cases hwhole
    exact hnow

theorem EraseCommand.files_kept {cmd : EraseCommand abi} : (cmd.exec d m).2.files = m.files := by
  unfold exec
  dsimp only
  split <;> rfl

theorem EraseCommand.leaves_length {cmd : EraseCommand abi} (hcountable : cmd.Countable d m) {p : Partition}
    {device : List UInt8} (h : cmd.leaves d m = some (p, device)) : device.length = d.sizeOf abi p := by
  obtain ⟨k, _, hk, hcontent⟩ := leaves_exact hcountable h
  rw [hcontent, List.length_append, List.length_replicate, List.length_drop, Device.content_length]
  omega

theorem EraseCommand.store_kept {cmd : EraseCommand abi} (hcountable : cmd.Countable d m) {c : Nat}
    (hc : ∀ p, (Command.erase cmd).target d m = some p → c ∉ d.layout.region p (d.sizeOf abi p)) :
    (cmd.exec d m).2.store c = m.store c := by
  unfold exec
  dsimp only
  split
  next p device hleaves =>
    obtain ⟨_, hfound, _⟩ := leaves_exact hcountable hleaves
    exact Device.put_frame (leaves_length hcountable hleaves) (hc p hfound)
  next => rfl

theorem EraseCommand.meaning {cmd : EraseCommand abi} (hcountable : cmd.Countable d m) :
    ((cmd.exec d m).2 = m ∧ ¬ Succeeded (cmd.exec d m).1) ∨
      (Command.erase cmd).Meaning d m (cmd.exec d m).1 (cmd.exec d m).2 := by
  cases hleaves : cmd.leaves d m with
  | none =>
    have hsame : (cmd.exec d m).2 = m := by
      rw [exec, hleaves]
    refine Or.inl ⟨hsame, fun hok => ?_⟩
    obtain ⟨p, _, hsome⟩ := leaves_zeros hcountable hok
    rw [hleaves] at hsome
    cases hsome
  | some left =>
    obtain ⟨p, device⟩ := left
    have hafter : (cmd.exec d m).2 = { m with store := d.layout.put m.store p 0 device } := by
      rw [exec, hleaves]
    obtain ⟨k, hfound, hk, hcontent⟩ := leaves_exact hcountable hleaves
    have hnow : d.content abi (cmd.exec d m).2 p = device :=
      Device.content_of_put (by rw [hafter]) (leaves_length hcountable hleaves)
    refine Or.inr ⟨p, hfound, k, ?_, fun hok => ?_⟩
    · rw [hnow, hcontent, List.take_replicate, Nat.min_eq_left hk]
    · obtain ⟨p', hfound', hzeros⟩ := leaves_zeros hcountable hok
      rw [hleaves] at hzeros
      cases hzeros
      exact hnow

/-- No command changes a file that it is not about, however its reads and writes go. -/
theorem Command.files_kept {cmd : Command abi} {path : Str} (h : ¬ cmd.Touches path) :
    (cmd.exec d m).2.files path = m.files path := by
  cases cmd with
  | backup cmd => exact cmd.files_kept h
  | flash cmd => exact cmd.files_kept h
  | erase cmd => exact congrFun cmd.files_kept path

theorem Command.store_kept {cmd : Command abi} (hcounted : cmd.Counted d m) {c : Nat}
    (hc : ∀ p, cmd.target d m = some p → c ∉ d.layout.region p (d.sizeOf abi p)) :
    (cmd.exec d m).2.store c = m.store c := by
  cases cmd with
  | backup cmd => exact congrFun cmd.store_kept c
  | flash cmd => exact cmd.store_kept hc
  | erase cmd => exact cmd.store_kept hcounted hc

theorem Command.Careful.counted {cmd : Command abi} (h : cmd.Careful d m) : cmd.Counted d m := by
  cases cmd with
  | backup cmd => trivial
  | flash cmd => trivial
  | erase cmd => exact h

theorem Command.carries {cmd : Command abi} (h : cmd.Careful d m) :
    cmd.Carries d m (cmd.exec d m).1 (cmd.exec d m).2 := by
  refine ⟨fun c hc => store_kept h.counted hc, fun path hpath => files_kept hpath, ?_⟩
  cases cmd with
  | backup cmd => exact cmd.meaning h
  | flash cmd => exact cmd.meaning
  | erase cmd => exact cmd.meaning h

/-- Each command of a session has run on the device as the one before it left that. -/
theorem session_exec {ts : Session abi} (h : Run.IsRun (sessionStep d) m ts) :
    ∀ t ∈ ts, (t.shown, t.after) = t.label.exec d t.before := by
  intro t ht
  obtain ⟨hafter, hshown⟩ := Prod.mk.inj (Option.some.inj (Run.step_of_mem h t ht))
  rw [← hafter, ← hshown]

/-- A partition that a command may not touch keeps its content. -/
theorem content_kept {t : Run.Transition Machine (Command abi) (Outcome AsyncResult)} {q : Partition}
    (h : (t.shown, t.after) = t.label.exec d t.before) (hcounted : t.label.Counted d t.before)
    (hapart : t.label.Apart d t.before q) : d.content abi t.after q = d.content abi t.before q := by
  have hafter : t.after = (t.label.exec d t.before).2 := congrArg Prod.snd h
  rw [hafter]
  apply Layout.content_congr
  intro c hc
  exact Command.store_kept hcounted fun p hp hin => hapart p hp c hin hc

theorem file_kept {t : Run.Transition Machine (Command abi) (Outcome AsyncResult)} {path : Str}
    (h : (t.shown, t.after) = t.label.exec d t.before) (hpath : ¬ t.label.Touches path) :
    t.after.files path = t.before.files path := by
  have hafter : t.after = (t.label.exec d t.before).2 := congrArg Prod.snd h
  rw [hafter]
  exact Command.files_kept hpath

theorem backup_kept {m' : Machine} {cmd : BackupCommand abi} {r : Outcome AsyncResult} {p : Partition}
    (h : (r, m') = cmd.exec d m) (hhonest : cmd.Honest) (hok : Succeeded r)
    (hfound : d.found m cmd.answers cmd.partitionName = some p) :
    m'.files cmd.outputName = some (d.content abi m p) := by
  have hmeaning := @BackupCommand.meaning _ d m cmd hhonest
  rw [← h] at hmeaning
  rcases hmeaning with ⟨_, hfailed⟩ | ⟨p', image, hfound', hfile, k, _, hwhole⟩
  · exact absurd hok hfailed
  · obtain rfl := Option.some.inj (hfound.symm.trans hfound')
    rw [hfile, hwhole hok]

theorem flash_kept {m' : Machine} {cmd : FlashCommand abi} {r : Outcome AsyncResult} {q : Partition}
    {image : List UInt8} (h : (r, m') = cmd.exec d m) (hok : Succeeded r)
    (hfound : d.found m cmd.answers cmd.partitionName = some q) (hfile : m.files cmd.imageName = some image) :
    d.content abi m' q = FlashCommand.padded d abi q image := by
  have hmeaning := @FlashCommand.meaning _ d m cmd
  rw [← h] at hmeaning
  rcases hmeaning with ⟨_, hfailed⟩ | ⟨q', image', hfound', hfile', _, ⟨k, _, hwhole⟩, _⟩
  · exact absurd hok hfailed
  · obtain rfl := Option.some.inj (hfound.symm.trans hfound')
    obtain rfl := Option.some.inj (hfile.symm.trans hfile')
    exact hwhole hok

/-- Every careful command of a session does what it is for as far as it gets, and nothing else,
however it ends and wherever it is given up. A file that no command is about stays as it was, and a
partition as well, where the erase commands can count to the end. -/
theorem session_carries {ts : Session abi} (h : Run.IsRun (sessionStep d) m ts) :
    (∀ t ∈ ts, t.label.Careful d t.before → t.label.Carries d t.before t.shown t.after) ∧
      (∀ path, (∀ t ∈ ts, ¬ t.label.Touches path) → (Run.last m ts).files path = m.files path) ∧
      ∀ q, (∀ t ∈ ts, t.label.Counted d t.before ∧ t.label.Apart d t.before q) →
        d.content abi (Run.last m ts) q = d.content abi m q := by
  have hexec := session_exec h
  refine ⟨fun t ht hcareful => ?_, fun path hpath => ?_, fun q hapart => ?_⟩
  · have hcarries := Command.carries hcareful
    rw [← hexec t ht] at hcarries
    exact hcarries
  · exact Run.last_of_kept (fun m => m.files path) h fun t ht => file_kept (hexec t ht) (hpath t ht)
  · exact Run.last_of_kept (fun m => d.content abi m q) h fun t ht =>
      content_kept (hexec t ht) (hapart t ht).1 (hapart t ht).2

/-- What a backup has saved, flashing the file gives back, whatever other commands do in between
and afterwards elsewhere. Only the backup itself needs reads that fail as they should. -/
theorem restore_gives_back {ts₁ ts₂ ts₃ : Session abi}
    {b f : Run.Transition Machine (Command abi) (Outcome AsyncResult)} {save : BackupCommand abi}
    {load : FlashCommand abi} {p q : Partition} (h : Run.IsRun (sessionStep d) m (ts₁ ++ b :: (ts₂ ++ f :: ts₃)))
    (hb : b.label = .backup save) (hhonest : save.Honest) (hsaved : Succeeded b.shown)
    (hp : d.found b.before save.answers save.partitionName = some p)
    (hf : f.label = .flash load) (hloaded : Succeeded f.shown) (hname : load.imageName = save.outputName)
    (hq : d.found f.before load.answers load.partitionName = some q)
    (hfile : ∀ t ∈ ts₂, ¬ t.label.Touches save.outputName) :
    d.content abi f.after q = d.content abi b.before p ++ List.replicate (d.sizeOf abi q - d.sizeOf abi p) 0 ∧
      ((∀ t ∈ ts₃, t.label.Counted d t.before ∧ t.label.Apart d t.before q) →
        ∀ t ∈ ts₃, d.content abi t.after q = d.content abi f.after q) := by
  have hexec := session_exec h
  simp only [List.mem_append, List.mem_cons] at hexec
  obtain ⟨_, _, hafter⟩ := Run.isRun_cons (Run.isRun_append h).2
  obtain ⟨hbetween, hflash⟩ := Run.isRun_append hafter
  obtain ⟨hbefore, _, htail⟩ := Run.isRun_cons hflash
  have hsave : (b.shown, b.after) = save.exec d b.before := by
    rw [hexec b (Or.inr (Or.inl rfl)), hb]
    rfl
  have hload : (f.shown, f.after) = load.exec d f.before := by
    rw [hexec f (Or.inr (Or.inr (Or.inr (Or.inl rfl)))), hf]
    rfl
  have himage : f.before.files load.imageName = some (d.content abi b.before p) := by
    have hkept : (Run.last b.after ts₂).files save.outputName = b.after.files save.outputName :=
      Run.last_of_kept (fun m => m.files save.outputName) hbetween fun t ht =>
        file_kept (hexec t (Or.inr (Or.inr (Or.inl ht)))) (hfile t ht)
    rw [hbefore, hname, hkept]
    exact backup_kept hsave hhonest hsaved hp
  refine ⟨?_, fun hapart => Run.after_of_kept (fun m => d.content abi m q) htail fun t ht => ?_⟩
  · rw [flash_kept hload hloaded hq himage, FlashCommand.padded, Device.content_length]
  · exact content_kept (hexec t (Or.inr (Or.inr (Or.inr (Or.inr ht))))) (hapart t ht).1 (hapart t ht).2

end

/-- A device whose only partition, `boot`, has two bytes. -/
def bootDevice : Device := ⟨sharedDisk, { bootFlags 2 with forceProcess := true }, bootFileSystem⟩

def bootMachine : Machine := ⟨fun c => if c = 0 then 7 else 8, fun _ => none⟩

def saveBoot : BackupCommand .arm64_v8a where
  plugin := { bufferSize := 1048576 }
  partitionName := "boot"
  outputName := "boot.img"
  named := by decide
  answers := []
  reads := Schedule.oneByte _
  writes := WriteSchedule.full _
  openErrno := none
  errno := 0
  sha256Compare _ _ := .ok true
  changeOwner := true
  fuel := 4

/-- Given up after one of two bytes. -/
def haltedErase : EraseCommand .arm64_v8a where
  plugin := ErasePlugin.bootErase
  partitionName := "boot"
  answers := []
  openErrno := none
  confirmPrompt := false
  writes := Schedule.oneByte _
  overflow := id
  fuel := 1

def loadBoot : FlashCommand .arm64_v8a where
  plugin := { bufferSize := 1048576 }
  partitionName := "boot"
  imageName := "boot.img"
  answers := []
  reads := Schedule.oneByte _
  writes := Schedule.oneByte _
  openpart_sync := 0
  openErrno := none
  errno := 0
  eraseEntry := true
  fuel := 9

/-- Its first read fails with `EIO`. -/
def unreadSave : BackupCommand .arm64_v8a :=
  { saveBoot with
    outputName := "copy.img"
    named := by decide
    reads := (BackupPlugin.unreadableBoot EIO).io.reads }

/-- There is no such partition. -/
def strayLoad : FlashCommand .arm64_v8a := { loadBoot with partitionName := "vendor" }

def savedMachine : Machine := (saveBoot.exec bootDevice bootMachine).2

def haltedMachine : Machine := (haltedErase.exec bootDevice savedMachine).2

def copiedMachine : Machine := (unreadSave.exec bootDevice haltedMachine).2

def loadedMachine : Machine := (loadBoot.exec bootDevice copiedMachine).2

def bootSession : Session .arm64_v8a :=
  [⟨bootMachine, .backup saveBoot, (saveBoot.exec bootDevice bootMachine).1, savedMachine⟩,
    ⟨savedMachine, .erase haltedErase, (haltedErase.exec bootDevice savedMachine).1, haltedMachine⟩,
    ⟨haltedMachine, .backup unreadSave, (unreadSave.exec bootDevice haltedMachine).1, copiedMachine⟩,
    ⟨copiedMachine, .flash loadBoot, (loadBoot.exec bootDevice copiedMachine).1, loadedMachine⟩,
    ⟨loadedMachine, .flash strayLoad, (strayLoad.exec bootDevice loadedMachine).1,
      (strayLoad.exec bootDevice loadedMachine).2⟩]

theorem bootSession_isRun : Run.IsRun (sessionStep bootDevice) bootMachine bootSession :=
  .step rfl (.step rfl (.step rfl (.step rfl (.step rfl (.stop _)))))

theorem saveBoot_honest : saveBoot.Honest := by
  intro i count h
  have hread : saveBoot.reads.result i count = if count = 0 then 0 else 1 := rfl
  rw [hread] at h
  split at h <;> omega

theorem haltedErase_countable : haltedErase.Countable bootDevice savedMachine := by
  intro p hp
  have hfound : bootDevice.found savedMachine haltedErase.answers haltedErase.partitionName =
      some (bootPartition 2) := rfl
  rw [hfound] at hp
  cases hp
  decide

theorem session_carries_boot :
    (Command.backup saveBoot).Carries bootDevice bootMachine (saveBoot.exec bootDevice bootMachine).1 savedMachine ∧
      (Command.erase haltedErase).Carries bootDevice savedMachine (haltedErase.exec bootDevice savedMachine).1
        haltedMachine ∧
      (Run.last bootMachine bootSession).files "other.img" = none := by
  obtain ⟨hcarries, hfiles, _⟩ := session_carries bootSession_isRun
  refine ⟨hcarries _ List.mem_cons_self saveBoot_honest,
    hcarries _ (List.mem_cons_of_mem _ List.mem_cons_self) haltedErase_countable, hfiles "other.img" fun t ht => ?_⟩
  simp only [bootSession, List.mem_cons, List.not_mem_nil, or_false] at ht
  rcases ht with rfl | rfl | rfl | rfl | rfl <;>
    simp [Command.Touches, saveBoot, unreadSave, loadBoot, strayLoad]

/-- An interrupted erase and a failing backup in between do no harm, nor does a failing flash afterwards. -/
theorem restore_gives_back_boot :
    haltedMachine.store 0 = 0 ∧ bootDevice.content .arm64_v8a loadedMachine (bootPartition 2) = [7, 8] ∧
      bootDevice.content .arm64_v8a (strayLoad.exec bootDevice loadedMachine).2 (bootPartition 2) =
        bootDevice.content .arm64_v8a loadedMachine (bootPartition 2) := by
  have huntouched : ∀ t ∈ [(⟨savedMachine, .erase haltedErase, (haltedErase.exec bootDevice savedMachine).1,
        haltedMachine⟩ : Run.Transition Machine (Command .arm64_v8a) (Outcome AsyncResult)),
      ⟨haltedMachine, .backup unreadSave, (unreadSave.exec bootDevice haltedMachine).1, copiedMachine⟩],
      ¬ t.label.Touches saveBoot.outputName := by
    intro t ht
    simp only [List.mem_cons, List.not_mem_nil, or_false] at ht
    rcases ht with rfl | rfl
    · exact id
    · show ¬ unreadSave.outputName = saveBoot.outputName
      decide
  obtain ⟨hrestored, hstays⟩ := @restore_gives_back _ _ _ [] [_, _] [_] _ _ saveBoot loadBoot (bootPartition 2)
    (bootPartition 2) bootSession_isRun rfl saveBoot_honest ⟨_, rfl, rfl⟩ rfl rfl ⟨_, rfl, rfl⟩ rfl rfl huntouched
  refine ⟨rfl, hrestored, hstays (fun t ht => ?_) _ List.mem_cons_self⟩
  rcases List.mem_singleton.mp ht with rfl
  exact ⟨trivial, fun p hp => by cases hp⟩

end PartitionManager
