import PartitionManager.HandleOwnership

namespace PartitionManager

namespace World

/-- The handle is open on `device` and permits both transfers. -/
def HandleUsable (w : World) (device : Str) (h : Nat) : Prop :=
  ∃ hd d, w.heap h = some hd ∧ w.table hd.fd = some d ∧ d.file.device = device ∧
    hd.permitsRead w.files ∧ hd.permitsWrite w.files

/-- Every object that holds a handle can use it for `device`. -/
def Usable (device : Str) (w : World) : Prop :=
  ∀ o obj h, w.objects o = some obj → obj.op = .handle h → w.HandleUsable device h

/-- The copying and moving calls, with reopens that succeed. -/
def isCopy : HandleCall → Bool
  | .defaultCtor _ => true
  | .copyCtor _ _ _ (.opened _) => true
  | .moveCtor _ _ => true
  | .copyAssign _ _ _ (.opened _) => true
  | .moveAssign _ _ => true
  | _ => false

def copyStep (devs : DeviceTree) (w : World) (c : HandleCall) : Option (World × Unit) :=
  if isCopy c then w.callStep devs c else none

/-- No handle is opened by copy assignment, and a logical object is copied only if its
path leads to the device. -/
def Faithful (devs : DeviceTree) (device : Str) (w : World) : HandleCall → Prop
  | .copyCtor _ other _ _ => ∀ src h, w.objects other = some src → src.op = .handle h → src.isLogical = true →
      devs.realpath src.logicalPartitionPath = some device
  | .copyAssign o other _ _ => o ≠ other → ∀ src, w.objects other = some src → src.op = .null
  | _ => True

variable {devs : DeviceTree} {w w' : World} {device : Str} {o h r : Nat} {obj : PartitionObject} {hd : OpenPartT}
  {op : Ptr}

theorem handleUsable_iff : w.HandleUsable device h ↔ ∃ hd d, w.heap h = some hd ∧ w.table hd.fd = some d ∧
    d.file.device = device ∧ d.file.readable = true ∧ d.file.writable = true ∧ hd.flags &&& OP_RDWR ≠ 0 := by
  unfold HandleUsable OpenPartT.permitsRead OpenPartT.permitsWrite files
  refine exists_congr fun hd => exists_congr fun d => and_congr_right fun _ => ?_
  apply and_congr_right
  intro hd'
  rw [hd']
  simp only [Option.map_some, Option.some.injEq, exists_eq_left']
  tauto

/-- Nothing that leaves a handle and its descriptor alone makes it less usable. -/
theorem HandleUsable.frame (hu : w.HandleUsable device h)
    (hsame : ∀ hd d, w.heap h = some hd → w.table hd.fd = some d →
      ∃ hd', w'.heap h = some hd' ∧ hd'.fd = hd.fd ∧ hd'.flags = hd.flags ∧ w'.table hd.fd = some d) :
    w'.HandleUsable device h := by
  obtain ⟨hd, d, hhd, hd', hdevice, hread, hwrite, hflags⟩ := handleUsable_iff.mp hu
  obtain ⟨hd'', hhd'', hfd, hflags', htable⟩ := hsame hd d hhd hd'
  refine handleUsable_iff.mpr ⟨hd'', d, hhd'', ?_, hdevice, hread, hwrite, ?_⟩
  · rw [hfd]
    exact htable
  · rw [hflags']
    exact hflags

theorem HandleUsable.free (hu : w.HandleUsable device h) (hopen : Opened w) (hhd : w.heap r = some hd) (hne : h ≠ r) :
    (w.free r hd).HandleUsable device h := by
  apply hu.frame
  intro hd' d hhd' hd''
  refine ⟨hd', ?_, rfl, rfl, ?_⟩
  · rw [free_heap, Function.update_of_ne hne]
    exact hhd'
  · obtain ⟨file, hfile⟩ := hopen.table h hd' hhd'
    have howner : d.owner = h := by
      rw [← Option.some.inj (hfile.symm.trans hd'')]
    exact free_table hopen hhd hd'' (by rw [howner]; exact hne)

theorem HandleUsable.loaded {info : Bool} {ans : Option OpenPartT} (hu : w.HandleUsable device h)
    (hload : w.loaded r info = some (w', ans)) : w'.HandleUsable device h := by
  rcases loaded_cases hload with rfl | ⟨hd, hhd, rfl⟩
  · exact hu
  · apply hu.frame
    intro hd' d hhd' hd''
    by_cases heq : h = r
    · subst h
      rw [hhd] at hhd'
      cases hhd'
      exact ⟨_, Function.update_self .., rfl, rfl, hd''⟩
    · exact ⟨hd', by simp [heq, hhd'], rfl, rfl, hd''⟩

theorem HandleUsable.openpart_open {path : Option Str} {flags extra : UInt32} {answer : OpenAnswer}
    (hu : w.HandleUsable device h) (hopen : Opened w)
    (hans : w.openpart_open devs path flags extra answer = some (w', op)) : w'.HandleUsable device h := by
  apply hu.frame
  intro hd d hhd hd'
  rcases openpart_open_cases hans with ⟨rfl, _⟩ | ⟨fd, _, hfd, _, rfl⟩ | ⟨fd, _, _, _, _, _, hfd, _, rfl⟩
  · exact ⟨hd, hhd, rfl, rfl, hd'⟩
  · exact ⟨hd, hhd, rfl, rfl, by rw [dropped_table hfd]; exact hd'⟩
  · have hne : h ≠ w.next := by
      intro heq
      rw [heq, hopen.fresh _ (Nat.le_refl _)] at hhd
      cases hhd
    have hfd' : hd.fd ≠ fd := by
      intro heq
      rw [heq, hfd] at hd'
      cases hd'
    refine ⟨hd, ?_, rfl, rfl, ?_⟩
    · show Function.update w.heap w.next _ h = some hd
      rw [Function.update_of_ne hne]
      exact hhd
    · show Function.update w.table fd _ hd.fd = some d
      rw [Function.update_of_ne hfd']
      exact hd'

/-- A handle that `OP_RDWR` opened is usable for the device that its path led to. -/
theorem handleUsable_new {fd : UInt32} {found : Str} :
    { w.openFd devs fd found (openFlags OP_RDWR 0) with
      heap := Function.update w.heap w.next
        (some { fd := fd, flags := OP_RDWR, sector_size := devs.handleSectorSize OP_RDWR found }) }.HandleUsable device w.next ↔
      found = device := by
  rw [handleUsable_iff]
  constructor
  · intro h
    obtain ⟨hd, d, hhd, hd', hdevice, _⟩ := h
    cases (Function.update_self ..).symm.trans hhd
    cases (Function.update_self ..).symm.trans hd'
    exact hdevice
  · intro h
    refine ⟨_, _, Function.update_self .., Function.update_self .., h, ?_, ?_, ?_⟩
    · show (openFlags OP_RDWR 0 &&& O_ACCMODE = O_RDONLY || openFlags OP_RDWR 0 &&& O_ACCMODE = O_RDWR) = true
      decide
    · show (openFlags OP_RDWR 0 &&& O_ACCMODE = O_WRONLY || openFlags OP_RDWR 0 &&& O_ACCMODE = O_RDWR) = true
      decide
    · show OP_RDWR &&& OP_RDWR ≠ 0
      decide

/-- `O_RDWR`, taken for a flag of `openpart_open`, asks for writing only. -/
theorem not_handleUsable_new {fd : UInt32} {found : Str} :
    ¬ { w.openFd devs fd found (openFlags O_RDWR 0) with
      heap := Function.update w.heap w.next
        (some { fd := fd, flags := O_RDWR, sector_size := devs.handleSectorSize O_RDWR found }) }.HandleUsable device w.next := by
  rw [handleUsable_iff]
  intro h
  obtain ⟨hd, d, hhd, _, _, _, _, hflags⟩ := h
  cases (Function.update_self ..).symm.trans hhd
  apply hflags
  show O_RDWR &&& OP_RDWR = 0
  decide

theorem openpart_open_opened {path : Option Str} {flags extra fd : UInt32}
    (h : w.openpart_open devs path flags extra (.opened fd) = some (w', op)) :
    ∃ found p, path = some p ∧ devs.realpath p = some found ∧ op = .handle w.next ∧
      w' = { w.openFd devs fd found (openFlags flags extra) with
        heap := Function.update w.heap w.next
          (some { fd := fd, flags := flags, sector_size := devs.handleSectorSize flags found }) } := by
  obtain ⟨found, hfound, h⟩ := Option.bind_eq_some_iff.mp h
  obtain ⟨p, hp, hreal⟩ := Option.bind_eq_some_iff.mp hfound
  obtain ⟨_, h⟩ := Option.ite_none_right_eq_some.mp h
  cases h
  exact ⟨found, p, hp, hreal, rfl, rfl⟩

theorem loaded_answer {info : Bool} (h' : w.loaded h info = some (w', some hd)) :
    w.heap h = some hd ∧ w'.table = w.table := by
  unfold loaded at h'
  split at h'
  next => cases h'
  next hd' hhd =>
    split at h'
    next =>
      cases h'
      exact ⟨hhd, rfl⟩
    next =>
      split at h'
      next => cases h'
      next =>
        split at h'
        next d hd' =>
          split at h'
          next =>
            cases h'
            exact ⟨hhd, rfl⟩
          next => cases h'
        next => cases h'

/-- A physical partition is copied by the path of the device its handle is open on. -/
theorem copyPath_physical {src : PartitionObject} {info : Bool} {path : Str} (hu : w.HandleUsable device h)
    (hphysical : src.isLogical ≠ true) (h' : w.copyPath src h info = some (w', path)) : path = device := by
  obtain ⟨hlogical, _⟩ | ⟨_, hget⟩ := copyPath_cases h'
  · exact absurd hlogical hphysical
  obtain ⟨⟨w₁, ans⟩, hload, hget⟩ := Option.bind_eq_some_iff.mp hget
  obtain ⟨rfl, hpath⟩ := Prod.mk.inj (Option.some.inj hget)
  obtain ⟨hd, rfl, hdevice⟩ := Option.bind_eq_some_iff.mp hpath
  obtain ⟨hhd, htable⟩ := loaded_answer hload
  obtain ⟨hd', d, hhd', hd'', hdev, _⟩ := hu
  cases hhd.symm.trans hhd'
  rw [htable, hd''] at hdevice
  cases hdevice
  exact hdev

theorem HandleUsable.copyPath {src : PartitionObject} {info : Bool} {path : Str} (hu : w.HandleUsable device r)
    (h' : w.copyPath src h info = some (w', path)) : w'.HandleUsable device r := by
  rcases copyPath_cases h' with ⟨_, rfl, _⟩ | ⟨_, hget⟩
  · exact hu
  · obtain ⟨ans, hload, hget⟩ := Option.bind_eq_some_iff.mp hget
    obtain ⟨rfl, _⟩ := Prod.mk.inj (Option.some.inj hget)
    exact hu.loaded hload

/-- Putting an object in its place matters for that object only. -/
theorem usable_put (hrest : ∀ p obj' h, p ≠ o → w.objects p = some obj' → obj'.op = .handle h →
    w.HandleUsable device h) :
    Usable device (w.put o obj) ↔ ∀ h, obj.op = .handle h → w.HandleUsable device h := by
  constructor
  · intro hu h hop
    exact hu o obj h (by simp [put]) hop
  · intro hobj p obj' h hp hop
    by_cases heq : p = o
    · subst p
      have hsame : obj = obj' := by simpa [put] using hp
      rw [← hsame] at hop
      exact hobj h hop
    · exact hrest p obj' h heq (by simpa [put, heq] using hp) hop

/-- A copy is usable exactly if the path it was opened by leads to the device. -/
theorem copyCtor_usable_iff {src : PartitionObject} {other : Nat} {info : Bool} {fd : UInt32}
    (hD : devs.realpath device = some device) (hw : Accounted Opened w) (hu : Usable device w)
    (hsrc : w.objects other = some src) (h' : w.copyCtor devs o src info (.opened fd) = some w') :
    Usable device w' ↔ ∀ h, src.op = .handle h → src.isLogical = true →
      devs.realpath src.logicalPartitionPath = some device := by
  unfold World.copyCtor at h'
  split at h'
  next hnull =>
    cases h'
    refine iff_of_true ((usable_put fun p obj' h _ hp => hu p obj' h hp).mpr nofun) ?_
    intro h hop
    rw [hnull] at hop
    cases hop
  next => cases h'
  next r hr =>
    obtain ⟨ans, hpath, h'⟩ := Option.bind_eq_some_iff.mp h'
    obtain ⟨w₁, path⟩ := ans
    obtain ⟨ans, hans, h'⟩ := Option.bind_eq_some_iff.mp h'
    obtain ⟨w₂, op⟩ := ans
    obtain ⟨hw₁, hobjects₁, _⟩ := hw.copyPath openedLedger hpath
    obtain ⟨hobjects₂, _⟩ := openpart_open_places hans
    have hold : ∀ p obj' h, p ≠ o → w₂.objects p = some obj' → obj'.op = .handle h → w₂.HandleUsable device h := by
      intro p obj' h _ hp hop
      rw [hobjects₂, hobjects₁] at hp
      exact ((hu p obj' h hp hop).copyPath hpath).openpart_open hw₁.ledger hans
    obtain ⟨found, p, hp, hreal, rfl, rfl⟩ := openpart_open_opened hans
    cases hp
    dsimp only at h'
    rw [if_neg nofun] at h'
    cases h'
    rw [usable_put hold]
    constructor
    · intro hall h hop hlogical
      have hfound : found = device := handleUsable_new.mp (hall w₁.next rfl)
      obtain ⟨_, _, rfl⟩ := (copyPath_cases hpath).resolve_right fun hphysical => hphysical.1 hlogical
      rw [hreal, hfound]
    · intro hlogical q hq
      cases hq
      apply handleUsable_new.mpr
      by_cases hsort : src.isLogical = true
      · have hleads := hlogical r hr hsort
        obtain ⟨_, _, rfl⟩ := (copyPath_cases hpath).resolve_right fun hphysical => hphysical.1 hsort
        exact Option.some.inj (hreal.symm.trans hleads)
      · rw [copyPath_physical (hu other src r hsrc hr) hsort hpath, hD] at hreal
        exact (Option.some.inj hreal).symm

theorem Usable.closeOp {cur : PartitionObject} (hu : Usable device w) (hw : Accounted Opened w)
    (hcur : w.objects o = some cur) (hop : obj.op = cur.op) (h : w.closeOp o obj = some w') : Usable device w' := by
  unfold World.closeOp at h
  obtain ⟨w₁, hclose, h⟩ := Option.bind_eq_some_iff.mp h
  cases h
  rw [hop] at hclose
  cases hptr : cur.op with
  | indeterminate => exact absurd hptr (hw.determinate o cur hcur)
  | null =>
    rw [hptr] at hclose
    cases hclose
    exact (usable_put fun p obj' h _ hp => hu p obj' h hp).mpr nofun
  | handle r =>
    rw [hptr] at hclose
    obtain ⟨hd, hhd, rfl⟩ := Option.map_eq_some_iff.mp hclose
    refine (usable_put ?_).mpr nofun
    intro p obj' h hne hp hop'
    rw [free_objects] at hp
    have hother : h ≠ r := by
      intro heq
      subst h
      have hslot := slot_of_object hp
      have hslot' := slot_of_object hcur
      rw [hop'] at hslot
      rw [hptr] at hslot'
      exact hne (Slot.object.inj (hw.exclusive.unique _ _ r hslot hslot'))
    exact (hu p obj' h hp hop').free hw.ledger hhd hother

theorem Usable.move {other : Nat} {source : PartitionObject} (hu : Usable device w)
    (hsource : w.objects other = some source) : Usable device ((w.put o source).put other {}) := by
  refine (usable_put ?_).mpr nofun
  intro p obj' h _ hp hop
  by_cases heq : p = o
  · subst p
    have hsame : source = obj' := by simpa [put] using hp
    rw [← hsame] at hop
    exact hu other source h hsource hop
  · exact hu p obj' h (by simpa [put, heq] using hp) hop

/-- Copy assignment from an object with a handle ends in a handle for writing only. -/
theorem copyAssign_usable_iff {other : PartitionObject} {info : Bool} {fd : UInt32} (hw : Accounted Opened w)
    (hu : Usable device w) (hobj : w.objects o = some obj)
    (h' : w.copyAssign devs o obj other info (.opened fd) = some w') : Usable device w' ↔ other.op = .null := by
  obtain ⟨w₁, hclose, h'⟩ := Option.bind_eq_some_iff.mp h'
  have hu₁ := hu.closeOp hw hobj (by rfl) hclose
  split at h'
  next hnull =>
    cases h'
    exact iff_of_true hu₁ hnull
  next => cases h'
  next r hr =>
    obtain ⟨ans, hpath, h'⟩ := Option.bind_eq_some_iff.mp h'
    obtain ⟨w₂, path⟩ := ans
    obtain ⟨ans, hans, h'⟩ := Option.bind_eq_some_iff.mp h'
    obtain ⟨w₃, op⟩ := ans
    obtain ⟨found, p, _, _, rfl, rfl⟩ := openpart_open_opened hans
    cases h'
    refine iff_of_false ?_ (by rw [hr]; exact nofun)
    intro hall
    exact not_handleUsable_new (hall o _ w₂.next (by simp [put]; rfl) rfl)

theorem copyCtor_faithful_iff {other : Nat} {info : Bool} {fd : UInt32} (hD : devs.realpath device = some device)
    (hw : Accounted Opened w) (hu : Usable device w)
    (hstep : w.step devs (.copyCtor o other info (.opened fd)) = some w') :
    Usable device w' ↔ Faithful devs device w (.copyCtor o other info (.opened fd)) := by
  obtain ⟨src, hsrc, hstep⟩ := Option.bind_eq_some_iff.mp hstep
  obtain ⟨_, hstep⟩ := Option.ite_none_right_eq_some.mp hstep
  rw [copyCtor_usable_iff hD hw hu hsrc hstep]
  constructor
  · intro hpaths src' h hsrc' hop hlogical
    cases hsrc.symm.trans hsrc'
    exact hpaths h hop hlogical
  · intro hpaths h hop hlogical
    exact hpaths src h hsrc hop hlogical

theorem copyAssign_faithful_iff {other : Nat} {info : Bool} {fd : UInt32} (hw : Accounted Opened w)
    (hu : Usable device w) (hstep : w.step devs (.copyAssign o other info (.opened fd)) = some w') :
    Usable device w' ↔ Faithful devs device w (.copyAssign o other info (.opened fd)) := by
  obtain ⟨obj, hobj, hstep⟩ := Option.bind_eq_some_iff.mp hstep
  obtain ⟨src, hsrc, hstep⟩ := Option.bind_eq_some_iff.mp hstep
  split at hstep
  next hsame =>
    cases hstep
    exact iff_of_true hu fun hne => absurd hsame hne
  next hne =>
    rw [copyAssign_usable_iff hw hu hobj hstep]
    constructor
    · intro hnull _ src' hsrc'
      cases hsrc.symm.trans hsrc'
      exact hnull
    · intro hall
      exact hall hne src hsrc

theorem moveAssign_usable {other : Nat} (hw : Accounted Opened w) (hu : Usable device w)
    (hstep : w.step devs (.moveAssign o other) = some w') : Usable device w' := by
  obtain ⟨obj, hobj, hstep⟩ := Option.bind_eq_some_iff.mp hstep
  obtain ⟨src, hsrc, hstep⟩ := Option.bind_eq_some_iff.mp hstep
  split at hstep
  next hsame =>
    cases hstep
    exact hu
  next hne =>
    obtain ⟨w₁, hclose, hstep⟩ := Option.bind_eq_some_iff.mp hstep
    cases hstep
    refine Usable.move (hu.closeOp hw hobj (by rfl) hclose) ?_
    rw [(hw.closeOp openedLedger hobj (by rfl) (fun _ _ _ _ => trivial) hclose).2.1,
      Function.update_of_ne (Ne.symm hne)]
    exact hsrc

/-- The calls that `isCopy` admits. -/
inductive CopyCall : HandleCall → Prop
  | defaultCtor (o : Nat) : CopyCall (.defaultCtor o)
  | copyCtor (o other : Nat) (info : Bool) (fd : UInt32) : CopyCall (.copyCtor o other info (.opened fd))
  | moveCtor (o other : Nat) : CopyCall (.moveCtor o other)
  | copyAssign (o other : Nat) (info : Bool) (fd : UInt32) : CopyCall (.copyAssign o other info (.opened fd))
  | moveAssign (o other : Nat) : CopyCall (.moveAssign o other)

theorem isCopy_cases {c : HandleCall} (h : isCopy c = true) : CopyCall c := by
  unfold isCopy at h
  split at h
  next o => exact .defaultCtor o
  next o other info fd => exact .copyCtor o other info fd
  next o other => exact .moveCtor o other
  next o other info fd => exact .copyAssign o other info fd
  next o other => exact .moveAssign o other
  next => cases h

theorem copy_usable_iff {c : HandleCall} (hD : devs.realpath device = some device) (hw : Accounted Opened w)
    (hu : Usable device w) (h' : copyStep devs w c = some (w', ())) : Usable device w' ↔ Faithful devs device w c := by
  obtain ⟨hcopy, h'⟩ := Option.ite_none_right_eq_some.mp h'
  obtain ⟨_, hstep, heq⟩ := Option.map_eq_some_iff.mp h'
  cases heq
  cases isCopy_cases hcopy with
  | defaultCtor o =>
    obtain ⟨_, hstep⟩ := Option.ite_none_right_eq_some.mp hstep
    cases hstep
    exact iff_of_true ((usable_put fun p obj' h _ hp => hu p obj' h hp).mpr nofun) trivial
  | copyCtor o other info fd => exact copyCtor_faithful_iff hD hw hu hstep
  | moveCtor o other =>
    obtain ⟨src, hsrc, hstep⟩ := Option.bind_eq_some_iff.mp hstep
    obtain ⟨_, hstep⟩ := Option.ite_none_right_eq_some.mp hstep
    cases hstep
    exact iff_of_true (hu.move hsrc) trivial
  | copyAssign o other info fd => exact copyAssign_faithful_iff hw hu hstep
  | moveAssign o other => exact iff_of_true (moveAssign_usable hw hu hstep) trivial

theorem careful_of_isCopy {c : HandleCall} (h : isCopy c = true) : w.Careful (fun _ => True) c := by
  cases isCopy_cases h with
  | defaultCtor o => trivial
  | copyCtor o other info fd => trivial
  | moveCtor o other => trivial
  | copyAssign o other info fd => exact fun _ _ _ _ _ _ _ => trivial
  | moveAssign o other => exact fun _ _ _ _ _ _ _ => trivial

/-- Over a run of copies and moves every handle stays usable for the device exactly
if no copy assignment opens one, and the paths of copied logical objects lead there. -/
theorem copies_usable_iff {path : Str} {ts : List (Run.Transition World HandleCall Unit)}
    (hdevice : devs.realpath path = some device) (hw : Accounted Opened w) (hu : Usable device w)
    (hrun : Run.IsRun (copyStep devs) w ts) :
    (∀ s ∈ ts, Usable device s.after) ↔ ∀ s ∈ ts, Faithful devs device s.before s.label := by
  have hD := devs.canonical path device hdevice
  have hstart : Accounted Opened w ∧ Usable device w := ⟨hw, hu⟩
  refine @Run.forall_iff_of_invariant _ _ _ _ (fun v => Accounted Opened v ∧ Usable device v) _ _ ?_ ?_ _ _ hstart hrun
  · intro v c _ v' hv hstep
    exact copy_usable_iff hD hv.1 hv.2 hstep
  · intro v c _ v' hv hstep hfaithful
    refine ⟨?_, (copy_usable_iff hD hv.1 hv.2 hstep).mpr hfaithful⟩
    obtain ⟨hcopy, hstep⟩ := Option.ite_none_right_eq_some.mp hstep
    obtain ⟨_, hcall, heq⟩ := Option.map_eq_some_iff.mp hstep
    cases heq
    exact hv.1.step openedLedger (careful_of_isCopy hcopy) hcall

/-- One object, with a handle for reading and writing on `sda1`. -/
def oneObject : World where
  heap := Function.update (fun _ => none) 0 (some { fd := 5, flags := OP_RDWR, sector_size := 512 })
  next := 1
  table := Function.update (fun _ => none) 5 (some ⟨0, ⟨"/dev/block/sda1", 4096, O_RDWR⟩⟩)
  objects := Function.update (fun _ => none) 0 (some { op := .handle 0 })

theorem oneObject_object {obj : PartitionObject} (h : oneObject.objects o = some obj) :
    o = 0 ∧ obj = { op := .handle 0 } := by
  unfold oneObject at h
  dsimp only at h
  by_cases ho : o = 0
  · subst o
    rw [Function.update_self] at h
    exact ⟨rfl, (Option.some.inj h).symm⟩
  · rw [Function.update_of_ne ho] at h
    cases h

theorem oneObject_heap (h : oneObject.heap r = some hd) :
    r = 0 ∧ hd = { fd := 5, flags := OP_RDWR, sector_size := 512 } := by
  unfold oneObject at h
  dsimp only at h
  by_cases hr : r = 0
  · subst r
    rw [Function.update_self] at h
    exact ⟨rfl, (Option.some.inj h).symm⟩
  · rw [Function.update_of_ne hr] at h
    cases h

theorem oneObject_slot {x : Slot} (h : oneObject.slot x = some r) : x = .object 0 ∧ r = 0 := by
  cases x with
  | object o =>
    obtain ⟨obj, hobj, hr⟩ := Option.bind_eq_some_iff.mp h
    obtain ⟨rfl, rfl⟩ := oneObject_object hobj
    exact ⟨rfl, (Option.some.inj hr).symm⟩
  | raw q => cases h

theorem oneObject_accounted : Accounted Opened oneObject := by
  refine ⟨?_, ⟨?_, ?_, ?_⟩, ⟨?_, ?_⟩⟩
  · intro o obj hobj
    obtain ⟨_, rfl⟩ := oneObject_object hobj
    exact nofun
  · intro x r hx
    obtain ⟨_, rfl⟩ := oneObject_slot hx
    rfl
  · intro x y r hx hy
    rw [(oneObject_slot hx).1, (oneObject_slot hy).1]
  · intro r hr
    obtain ⟨hd, hhd⟩ := Option.isSome_iff_exists.mp hr
    obtain ⟨rfl, _⟩ := oneObject_heap hhd
    exact ⟨.object 0, rfl⟩
  · intro r hd hhd
    obtain ⟨rfl, rfl⟩ := oneObject_heap hhd
    exact ⟨_, rfl⟩
  · intro r hr
    have hne : r ≠ 0 := Nat.ne_of_gt hr
    simp [oneObject, hne]

theorem oneObject_usable : Usable "/dev/block/sda1" oneObject := by
  intro o obj h hobj hop
  obtain ⟨_, rfl⟩ := oneObject_object hobj
  cases hop
  exact handleUsable_iff.mpr ⟨_, _, rfl, rfl, rfl, rfl, rfl, by decide⟩

def copyCalls : List HandleCall := [.copyCtor 1 0 true (.opened 6), .defaultCtor 2, .moveAssign 2 1]

theorem copies_usable_sda1 : ∃ ts, Run.trace (copyStep plainDevices) oneObject copyCalls = some ts ∧
    ((∀ s ∈ ts, Usable "/dev/block/sda1" s.after) ↔
      ∀ s ∈ ts, Faithful plainDevices "/dev/block/sda1" s.before s.label) := by
  refine ⟨_, rfl, @copies_usable_iff plainDevices oneObject "/dev/block/sda1" "/dev/block/sda1" _ rfl
    oneObject_accounted oneObject_usable
    (Run.isRun_of_trace (show Run.trace (copyStep plainDevices) oneObject copyCalls = some _ from rfl))⟩

theorem copyAssign_loses_reading : ∃ ts,
    Run.trace (copyStep plainDevices) oneObject [.defaultCtor 1, .copyAssign 1 0 true (.opened 6)] = some ts ∧
    Usable "/dev/block/sda1" oneObject ∧
    ∃ s ∈ ts, s.after.heap 1 = some { fd := 6, flags := O_RDWR, sector_size := 512 } ∧
      s.after.table 6 = some ⟨1, ⟨"/dev/block/sda1", 4096, O_WRONLY⟩⟩ ∧
      s.after.objects 1 = some { op := .handle 1 } ∧ ¬ Usable "/dev/block/sda1" s.after := by
  refine ⟨_, rfl, oneObject_usable, _, List.mem_of_getLast? rfl, rfl, rfl, rfl, ?_⟩
  intro h
  obtain ⟨hd, d, hhd, _, _, _, _, hflags⟩ := handleUsable_iff.mp (h 1 { op := .handle 1 } 1 rfl rfl)
  cases hhd
  revert hflags
  decide

end World

end PartitionManager
