import PartitionManager.UniqueDescriptors

namespace PartitionManager

open Resources (Event)
open Resources.World (Extends)

def UniqueFD.held (obj : UniqueFD) : Option Int := if 0 ≤ obj.fd_ then some obj.fd_ else none

namespace FdWorld

/-- Each open descriptor is with one object or with the code around them, each opening is
in use or closed, once, and every call was made on an open descriptor. -/
def Accounted (w : FdWorld) : Prop := Resources.World.Accounted UniqueFD.held validFd w

/-- What is taken over is no descriptor, or an open one that no object holds. -/
def TakesOver (w : FdWorld) (fd : Int) : Prop := fd < 0 ∨ w.Unheld UniqueFD.held fd

def MayTakeOver (w : FdWorld) : FdOp → Prop
  | .fdCtor _ fd _ => TakesOver w fd
  | .getOwnership _ fd _ => TakesOver w fd
  | _ => True

/-- The calls with which an opening is closed. -/
def closing (sync : Bool) (fd : Int) (opening : Option Nat) : List (Event Int FdOpen FdUse) :=
  if sync then [.use .fsync fd opening, .release fd opening] else [.release fd opening]

/-- What an object held before is still open and was not synchronized, or it was closed,
after a synchronization exactly if the object is set to it. -/
def Fate (before after : FdWorld) : Prop :=
  ∀ x obj r, before.objects x = some obj → before.table obj.fd_ = some r →
    ∃ more, after.events = before.events ++ more ∧
      ((after.table obj.fd_ = some r ∧ Event.use .fsync obj.fd_ (some r) ∉ more) ∨
        ∃ later, more = closing obj.syncOnClose obj.fd_ (some r) ++ later)

end FdWorld

/-- The member leaves this object closed or moved from. -/
def FdOp.empties : FdOp → Nat → Bool
  | .close x, y => x = y
  | .moveCtor _ other, y => other = y
  | .moveAssign x other, y => x ≠ other ∧ other = y
  | _, _ => false

/-- The member is called for this object or with it. -/
def FdOp.concerns : FdOp → Nat → Bool
  | .openRaw .., _ => false
  | .closeRaw _, _ => false
  | .defaultCtor x, y => x = y
  | .pathCtor x .., y => x = y
  | .pathModeCtor x .., y => x = y
  | .fdCtor x .., y => x = y
  | .getOwnership x .., y => x = y
  | .moveCtor x other, y => x = y ∨ other = y
  | .openStored x .., y => x = y
  | .openPath x .., y => x = y
  | .openPathMode x .., y => x = y
  | .reOpen x .., y => x = y
  | .close x, y => x = y
  | .moveAssign x other, y => x = y ∨ other = y
  | .setSyncOnClose x _, y => x = y
  | .destroy x, y => x = y

/-- The accounts are in order after the step. Closed and moved-from objects hold -1, and
objects that the step is not about stay as they are. Once all is let go of, every
opening has been closed exactly once. -/
structure KeepsDescriptors (t : Run.Transition FdWorld FdOp Unit) : Prop where
  accounted : FdWorld.Accounted t.after
  fate : FdWorld.Fate t.before t.after
  emptied : ∀ x, t.label.empties x = true → ∃ obj, t.after.objects x = some obj ∧ obj.fd_ = -1
  others : ∀ x, t.label.concerns x = false → t.after.objects x = t.before.objects x
  ended : (∀ x, t.after.objects x = none) → (∀ fd, t.after.raw fd = false) →
    ∀ r, r < t.after.acquired → t.after.released.count r = 1

namespace FdWorld

variable {w w' w₁ : FdWorld} {x y : Nat} {obj : UniqueFD} {path : Str} {flags fd : Int} {mode : Option Nat}
  {answer : Option Int} {op : FdOp}

theorem held_of_nonneg (h : 0 ≤ obj.fd_) : obj.held = some obj.fd_ := if_pos h

theorem held_of_neg (h : ¬ 0 ≤ obj.fd_) : obj.held = none := if_neg h

theorem bind_held_of_neg (hobj : w.objects x = some obj) (hfd : ¬ obj.fd_ ≥ 0) :
    (w.objects x).bind UniqueFD.held = none :=
  (Resources.World.bind_held_of_some hobj).trans (held_of_neg hfd)

/-- An object that is given what `::open` returned holds what was acquired. -/
theorem held_of_acquire {args : FdOpen} {name : Option Int} (h : w.acquire validFd args answer = some (w', name))
    (hobj : obj.fd_ = name.getD (-1)) : obj.held = name := by
  rcases Resources.World.acquire_cases h with ⟨rfl, _⟩ | ⟨n, rfl, hvalid, _, _⟩
  · have hneg : ¬ 0 ≤ obj.fd_ := by
      rw [hobj]
      decide
    exact held_of_neg hneg
  · have hfd : obj.fd_ = n := hobj
    have hnonneg : 0 ≤ n := of_decide_eq_true hvalid
    rw [held_of_nonneg (hfd ▸ hnonneg), hfd]

theorem sysOpen_some (h : sysOpen w path flags mode answer = some (w', fd)) :
    ∃ name, w.acquire validFd ⟨path, flags, mode⟩ answer = some (w', name) ∧ fd = name.getD (-1) := by
  obtain ⟨⟨w₁, name⟩, hacquire, h⟩ := Option.bind_eq_some_iff.mp h
  cases h
  exact ⟨name, hacquire, rfl⟩

theorem nonneg_of_open (hw : Accounted w) {r : Nat} (hr : w.table fd = some r) : 0 ≤ fd := by
  have hvalid := hw.valid fd (by rw [hr]; exact Option.some_ne_none r)
  exact of_decide_eq_true hvalid

/-- Everything `close` and the destructor can do with the descriptor. -/
theorem letGo_cases (w : FdWorld) (obj : UniqueFD) :
    (¬ 0 ≤ obj.fd_ ∧ letGo w obj = w) ∨
    (0 ≤ obj.fd_ ∧ letGo w obj =
      Resources.World.release (if obj.syncOnClose then w.use .fsync obj.fd_ else w) obj.fd_) := by
  unfold letGo closer
  by_cases hfd : 0 ≤ obj.fd_
  · refine Or.inr ⟨hfd, ?_⟩
    simp only [hfd, true_and, if_true]
  · refine Or.inl ⟨hfd, ?_⟩
    rw [if_neg hfd, if_neg (fun h => hfd h.1)]

theorem letGo_objects (w : FdWorld) (obj : UniqueFD) : (letGo w obj).objects = w.objects := by
  rcases letGo_cases w obj with ⟨_, h⟩ | ⟨_, h⟩
  · rw [h]
  · rw [h]
    cases obj.syncOnClose <;> rfl

theorem letGo_events (hfd : 0 ≤ obj.fd_) :
    (letGo w obj).events = w.events ++ closing obj.syncOnClose obj.fd_ (w.table obj.fd_) := by
  obtain ⟨_, h⟩ := (letGo_cases w obj).resolve_left fun h => h.1 hfd
  rw [h]
  cases hsync : obj.syncOnClose <;> simp [closing, Resources.World.release, Resources.World.use]

theorem letGo_table_of_ne (hfd : 0 ≤ obj.fd_) (hne : fd ≠ obj.fd_) : (letGo w obj).table fd = w.table fd := by
  obtain ⟨_, h⟩ := (letGo_cases w obj).resolve_left fun h => h.1 hfd
  rw [h]
  cases obj.syncOnClose <;> exact Function.update_of_ne hne _ _

/-- An object that lets go of its descriptor closes it. -/
theorem Accounted.letGo {rest : Option UniqueFD} (hw : Accounted w) (hobj : w.objects x = some obj)
    (hrest : rest.bind UniqueFD.held = none) : Accounted ((FdWorld.letGo w obj).set x rest) := by
  rcases letGo_cases w obj with ⟨hfd, h⟩ | ⟨hfd, h⟩
  · rw [h]
    have hx := bind_held_of_neg hobj hfd
    exact ⟨hw.holders.replace (hrest.trans hx.symm), hw.valid, hw.hits⟩
  · rw [h]
    have hheld := held_of_nonneg hfd
    obtain ⟨r, hr⟩ := hw.exists_resource hobj hheld
    cases hsync : obj.syncOnClose with
    | true =>
      have hused : Accounted (w.use .fsync obj.fd_) := Resources.World.Accounted.use hw hr
      exact hused.releaseFrom hobj hheld hrest
    | false => exact Resources.World.Accounted.releaseFrom hw hobj hheld hrest

theorem Accounted.close (hw : Accounted w) (hobj : w.objects x = some obj) : Accounted (FdWorld.close w x obj) :=
  hw.letGo hobj rfl

theorem close_objects (w : FdWorld) (x : Nat) (obj : UniqueFD) :
    (close w x obj).objects = Function.update w.objects x (some { obj with fd_ := -1 }) := by
  unfold close Resources.World.put Resources.World.set
  rw [letGo_objects]

theorem bind_held_close (w : FdWorld) (x : Nat) (obj : UniqueFD) :
    ((close w x obj).objects x).bind UniqueFD.held = none := by
  rw [close_objects, Function.update_self]
  rfl

theorem Accounted.moveAssign {source : UniqueFD} (hw : Accounted w) (hobj : w.objects x = some obj)
    (hsource : w.objects y = some source) : Accounted (FdWorld.moveAssign w x y obj source) := by
  unfold FdWorld.moveAssign
  by_cases hxy : x = y
  · rw [if_pos hxy]
    exact hw
  · rw [if_neg hxy]
    have hkept : (FdWorld.close w x obj).objects y = some source := by
      rw [close_objects, Function.update_of_ne (Ne.symm hxy)]
      exact hsource
    exact (hw.close hobj).move (bind_held_close w x obj) hkept (Ne.symm hxy) rfl rfl

theorem Accounted.fdCtor {info : FdInfo} (hw : Accounted w) (hx : w.vacant x = true) (h : TakesOver w fd) :
    Accounted (FdWorld.fdCtor w x fd info) := by
  have hempty : (w.objects x).bind UniqueFD.held = none := Resources.World.bind_held_of_vacant hx
  unfold FdWorld.fdCtor
  by_cases hfd : fd < 0
  · rw [if_pos hfd]
    have hheld : UniqueFD.held { fd_ := fd } = none := held_of_neg (Int.not_le.mpr hfd)
    exact Resources.World.Accounted.put hw (hheld.trans hempty.symm)
  · rw [if_neg hfd]
    have hunheld := h.resolve_left hfd
    obtain ⟨r, hr⟩ := Option.ne_none_iff_exists'.mp hunheld.1
    have hused : Accounted (((w.use .fcntl fd).use .fstat fd).use .readlink fd) :=
      ((Resources.World.Accounted.use hw hr).use hr).use hr
    exact hused.adopt hempty hunheld (held_of_nonneg (Int.not_lt.mp hfd))

/-- Nothing has been closed or synchronized. -/
def Quiet (before after : FdWorld) : Prop :=
  Extends before after ∧
    ∃ more, after.events = before.events ++ more ∧ ∀ fd opening, Event.use .fsync fd opening ∉ more

theorem quiet_of_same (htable : w'.table = w.table) (hevents : w'.events = w.events) : Quiet w w' := by
  refine ⟨?_, [], ?_, fun _ _ => List.not_mem_nil⟩
  · intro n r hn
    rw [htable]
    exact hn
  · rw [hevents, List.append_nil]

theorem Quiet.acquire {args : FdOpen} {name : Option Int} (h : w.acquire validFd args answer = some (w', name)) :
    Quiet w w' := by
  have hevents : w'.events = w.events ++ [.acquire args name] := by
    rcases Resources.World.acquire_cases h with ⟨rfl, rfl⟩ | ⟨_, rfl, _, _, rfl⟩ <;> rfl
  refine ⟨Extends.acquire h, _, hevents, ?_⟩
  intro fd opening hmem
  cases List.mem_singleton.mp hmem

theorem Fate.of_quiet (h : Quiet w w') : Fate w w' := by
  intro y obj r _ hr
  obtain ⟨htable, more, hevents, hquiet⟩ := h
  exact ⟨more, hevents, Or.inl ⟨htable _ r hr, hquiet _ _⟩⟩

theorem Fate.then (h : Fate w w₁) (hlater : Quiet w₁ w') : Fate w w' := by
  obtain ⟨htable, later, hlater, hquiet⟩ := hlater
  intro y obj r hobj hr
  obtain ⟨more, hmore, hfate⟩ := h y obj r hobj hr
  refine ⟨more ++ later, ?_, ?_⟩
  · rw [hlater, hmore, List.append_assoc]
  · rcases hfate with ⟨hopen, hunsynced⟩ | ⟨rest, rfl⟩
    · refine Or.inl ⟨htable _ r hopen, ?_⟩
      intro hmem
      rcases List.mem_append.mp hmem with hold | hnew
      · exact hunsynced hold
      · exact hquiet _ _ hnew
    · exact Or.inr ⟨rest ++ later, List.append_assoc _ _ _⟩

/-- An object that lets go of its descriptor closes and synchronizes no other. -/
theorem Accounted.fate_letGo (hw : Accounted w) (hobj : w.objects x = some obj) : Fate w (FdWorld.letGo w obj) := by
  intro y obj' r hobj' hr
  by_cases hfd : 0 ≤ obj.fd_
  · refine ⟨_, letGo_events hfd, ?_⟩
    by_cases hxy : x = y
    · subst y
      rw [hobj] at hobj'
      cases hobj'
      exact Or.inr ⟨[], by rw [hr, List.append_nil]⟩
    · have hfd' := nonneg_of_open hw hr
      have hne : obj.fd_ ≠ obj'.fd_ :=
        hw.holders.ne_of_ne hobj hobj' hxy (held_of_nonneg hfd) (held_of_nonneg hfd')
      refine Or.inl ⟨?_, ?_⟩
      · rw [letGo_table_of_ne hfd (Ne.symm hne)]
        exact hr
      · intro hmem
        cases hsync : obj.syncOnClose <;> simp [closing, hsync, Ne.symm hne] at hmem
  · obtain ⟨_, h⟩ := (letGo_cases w obj).resolve_right fun h => hfd h.1
    rw [h]
    exact Fate.of_quiet (quiet_of_same rfl rfl) y obj' r hobj' hr

/-- The step leaves all objects but one as they are, and empties none. -/
theorem keeps_of_one (hconcerns : ∀ y, op.concerns y = decide (x = y)) (hempties : ∀ y, op.empties y = false)
    (hother : ∀ y, y ≠ x → w'.objects y = w.objects y) (hw' : Accounted w') (hfate : Fate w w') :
    KeepsDescriptors ⟨w, op, (), w'⟩ where
  accounted := hw'
  fate := hfate
  emptied := by
    intro y hy
    rw [hempties] at hy
    cases hy
  others := by
    intro y hy
    rw [hconcerns] at hy
    exact hother y (Ne.symm (of_decide_eq_false hy))
  ended := hw'.ended

theorem put_objects_of_ne (hne : y ≠ x) : (w.put x obj).objects y = w.objects y := Function.update_of_ne hne _ _

theorem sysOpen_objects_of_ne (h : sysOpen w path flags mode answer = some (w', fd)) (hne : y ≠ x) :
    (w'.put x obj).objects y = w.objects y := by
  obtain ⟨name, hacquire, _⟩ := sysOpen_some h
  rw [put_objects_of_ne hne, (Resources.World.acquire_objects hacquire).1]

theorem Accounted.openInto (hw : Accounted w) (hx : (w.objects x).bind UniqueFD.held = none)
    (h : sysOpen w path flags mode answer = some (w', fd)) (hobj : obj.fd_ = fd) : Accounted (w'.put x obj) := by
  obtain ⟨name, hacquire, rfl⟩ := sysOpen_some h
  exact Resources.World.Accounted.acquireInto hw hx hacquire (held_of_acquire hacquire hobj)

theorem Quiet.openInto (h : sysOpen w path flags mode answer = some (w', fd)) : Quiet w (w'.put x obj) := by
  obtain ⟨name, hacquire, _⟩ := sysOpen_some h
  have hquiet := Quiet.acquire hacquire
  exact ⟨hquiet.1, hquiet.2⟩

/-- A member that opens a file for an object without a descriptor. -/
theorem Accounted.keeps_openInto (hw : Accounted w) (hx : (w.objects x).bind UniqueFD.held = none)
    (hconcerns : ∀ y, op.concerns y = decide (x = y)) (hempties : ∀ y, op.empties y = false)
    (h : sysOpen w path flags mode answer = some (w', fd)) (hobj : obj.fd_ = fd) :
    KeepsDescriptors ⟨w, op, (), w'.put x obj⟩ :=
  keeps_of_one hconcerns hempties (fun _ hne => sysOpen_objects_of_ne h hne) (hw.openInto hx h hobj)
    (.of_quiet (.openInto h))

/-- The members that open a file leave an object that has a descriptor as it is. -/
theorem Accounted.keeps_open (new : Int → UniqueFD) (hw : Accounted w) (hx : w.objects x = some obj)
    (hconcerns : ∀ y, op.concerns y = decide (x = y)) (hempties : ∀ y, op.empties y = false)
    (hnew : ∀ fd, (new fd).fd_ = fd)
    (h : (if obj.fd_ ≥ 0 then some w
      else do
        let (w, fd) ← sysOpen w path flags mode answer
        some (w.put x (new fd))) = some w') : KeepsDescriptors ⟨w, op, (), w'⟩ := by
  split at h
  next =>
    cases h
    exact keeps_of_one hconcerns hempties (fun _ _ => rfl) hw (.of_quiet (quiet_of_same rfl rfl))
  next hfd =>
    obtain ⟨⟨w₁, fd⟩, hopen, h⟩ := Option.bind_eq_some_iff.mp h
    cases h
    exact hw.keeps_openInto (bind_held_of_neg hx hfd) hconcerns hempties hopen (hnew fd)

theorem Accounted.keeps_put (hw : Accounted w) (hsame : obj.held = (w.objects x).bind UniqueFD.held)
    (hconcerns : ∀ y, op.concerns y = decide (x = y)) (hempties : ∀ y, op.empties y = false) :
    KeepsDescriptors ⟨w, op, (), w.put x obj⟩ :=
  keeps_of_one hconcerns hempties (fun _ hne => put_objects_of_ne hne) (Resources.World.Accounted.put hw hsame)
    (.of_quiet (quiet_of_same rfl rfl))

theorem Accounted.keeps_fdCtor {info : FdInfo} (hw : Accounted w) (hx : w.vacant x = true) (h : TakesOver w fd)
    (hconcerns : ∀ y, op.concerns y = decide (x = y)) (hempties : ∀ y, op.empties y = false) :
    KeepsDescriptors ⟨w, op, (), FdWorld.fdCtor w x fd info⟩ := by
  refine keeps_of_one hconcerns hempties ?_ (hw.fdCtor hx h) (.of_quiet ?_)
  · intro y hne
    unfold FdWorld.fdCtor
    split
    next => exact put_objects_of_ne hne
    next => exact Function.update_of_ne hne _ _
  · unfold FdWorld.fdCtor
    split
    next => exact quiet_of_same rfl rfl
    next =>
      refine ⟨fun _ _ hn => hn, [.use .fcntl fd (w.table fd), .use .fstat fd (w.table fd),
        .use .readlink fd (w.table fd)], ?_, ?_⟩
      · simp [Resources.World.use, Resources.World.give, Resources.World.put, Resources.World.set]
      · intro n opening hmem
        simp at hmem

theorem Accounted.keeps_close (hw : Accounted w) (hobj : w.objects x = some obj) :
    KeepsDescriptors ⟨w, .close x, (), FdWorld.close w x obj⟩ where
  accounted := hw.close hobj
  fate := (hw.fate_letGo hobj).then (quiet_of_same rfl rfl)
  emptied := by
    intro y hy
    obtain rfl : x = y := of_decide_eq_true hy
    rw [close_objects]
    exact ⟨_, Function.update_self _ _ _, rfl⟩
  others := by
    intro y hy
    rw [close_objects]
    exact Function.update_of_ne (Ne.symm (of_decide_eq_false hy)) _ _
  ended := (hw.close hobj).ended

theorem Accounted.keeps_destroy (hw : Accounted w) (hobj : w.objects x = some obj) :
    KeepsDescriptors ⟨w, .destroy x, (), FdWorld.destroy w x obj⟩ := by
  refine keeps_of_one (fun _ => rfl) (fun _ => rfl) ?_ (hw.letGo hobj rfl) ?_
  · intro y hne
    refine (Function.update_of_ne hne _ _).trans ?_
    rw [letGo_objects]
  · exact (hw.fate_letGo hobj).then (quiet_of_same rfl rfl)

theorem Accounted.keeps_reOpen {withMode : Bool} (hw : Accounted w) (hobj : w.objects x = some obj)
    (h : FdWorld.reOpen w x obj withMode answer = some w') :
    KeepsDescriptors ⟨w, .reOpen x withMode answer, (), w'⟩ := by
  have hclose := hw.keeps_close hobj
  obtain ⟨⟨w₁, fd⟩, hopen, h⟩ := Option.bind_eq_some_iff.mp h
  cases h
  refine keeps_of_one (fun _ => rfl) (fun _ => rfl) ?_
    ((hw.close hobj).openInto (bind_held_close w x obj) hopen rfl) (hclose.fate.then (.openInto hopen))
  intro y hne
  rw [sysOpen_objects_of_ne hopen hne]
  exact hclose.others y (decide_eq_false (Ne.symm hne))

theorem Accounted.keeps_moveCtor {source : UniqueFD} (hw : Accounted w) (hx : w.vacant x = true)
    (hsource : w.objects y = some source) : KeepsDescriptors ⟨w, .moveCtor x y, (), FdWorld.moveCtor w x y source⟩ := by
  have hne : y ≠ x := Resources.World.ne_of_vacant hx hsource
  have hmove : Accounted (FdWorld.moveCtor w x y source) :=
    Resources.World.Accounted.move hw (Resources.World.bind_held_of_vacant hx) hsource hne rfl rfl
  refine ⟨hmove, .of_quiet (quiet_of_same rfl rfl), ?_, ?_, hmove.ended⟩
  · intro z hz
    obtain rfl : y = z := of_decide_eq_true hz
    exact ⟨_, Function.update_self _ _ _, rfl⟩
  · intro z hz
    obtain ⟨hzx, hzy⟩ := not_or.mp (of_decide_eq_false hz)
    exact (put_objects_of_ne (Ne.symm hzy)).trans (put_objects_of_ne (Ne.symm hzx))

theorem Accounted.keeps_moveAssign {source : UniqueFD} (hw : Accounted w) (hobj : w.objects x = some obj)
    (hsource : w.objects y = some source) :
    KeepsDescriptors ⟨w, .moveAssign x y, (), FdWorld.moveAssign w x y obj source⟩ := by
  have hmove := hw.moveAssign hobj hsource
  have hmoved : x ≠ y → FdWorld.moveAssign w x y obj source = ((FdWorld.close w x obj).put x { obj with
      fd_ := source.fd_, flags_ := source.flags_, mode_ := source.mode_, path_ := source.path_ }).put y
        { source with fd_ := -1, path_ := [] } := fun hxy => if_neg hxy
  refine ⟨hmove, ?_, ?_, ?_, hmove.ended⟩
  · by_cases hxy : x = y
    · dsimp only
      rw [FdWorld.moveAssign, if_pos hxy]
      exact .of_quiet (quiet_of_same rfl rfl)
    · dsimp only
      rw [hmoved hxy]
      exact (hw.keeps_close hobj).fate.then (quiet_of_same rfl rfl)
  · intro z hz
    obtain ⟨hxy, rfl⟩ : x ≠ y ∧ y = z := by simpa [FdOp.empties] using hz
    dsimp only
    rw [hmoved hxy]
    exact ⟨_, Function.update_self _ _ _, rfl⟩
  · intro z hz
    obtain ⟨hzx, hzy⟩ := not_or.mp (of_decide_eq_false hz)
    dsimp only
    by_cases hxy : x = y
    · rw [FdWorld.moveAssign, if_pos hxy]
    · rw [hmoved hxy, put_objects_of_ne (Ne.symm hzy), put_objects_of_ne (Ne.symm hzx), close_objects]
      exact Function.update_of_ne (Ne.symm hzx) _ _

theorem Accounted.keeps_openRaw (hw : Accounted w) (h : FdWorld.step w (.openRaw path flags mode answer) = some w') :
    KeepsDescriptors ⟨w, .openRaw path flags mode answer, (), w'⟩ := by
  have hafter : Accounted w' := Resources.World.Accounted.acquireRaw hw h
  obtain ⟨⟨w₁, name⟩, hacquire, h⟩ := Option.bind_eq_some_iff.mp h
  have hquiet := Quiet.acquire hacquire
  have hobjects := (Resources.World.acquire_objects hacquire).1
  cases name with
  | none =>
    cases h
    refine ⟨hafter, .of_quiet hquiet, ?_, fun y _ => congrFun hobjects y, hafter.ended⟩
    intro y hy
    cases hy
  | some fd =>
    cases h
    refine ⟨hafter, .of_quiet ⟨hquiet.1, hquiet.2⟩, ?_, fun y _ => congrFun hobjects y, hafter.ended⟩
    intro y hy
    cases hy

theorem Accounted.keeps_closeRaw (hw : Accounted w) (h : w.releaseRaw fd = some w') :
    KeepsDescriptors ⟨w, .closeRaw fd, (), w'⟩ := by
  have hafter : Accounted w' := Resources.World.Accounted.releaseRaw hw h
  refine ⟨hafter, ?_, ?_, ?_, hafter.ended⟩
  · intro y obj r hobj hr
    have hsame := hw.releaseRaw_other h hobj (held_of_nonneg (nonneg_of_open hw hr))
    obtain ⟨_, h⟩ := Option.ite_none_right_eq_some.mp h
    cases h
    refine ⟨[.release fd (w.table fd)], rfl, Or.inl ⟨hsame.trans hr, ?_⟩⟩
    intro hmem
    cases List.mem_singleton.mp hmem
  · intro y hy
    cases hy
  · intro y _
    obtain ⟨_, h⟩ := Option.ite_none_right_eq_some.mp h
    cases h
    rfl

/-- Each member keeps the descriptors, if what it takes over may be taken over. -/
theorem Accounted.step (hw : Accounted w) (hmay : MayTakeOver w op) (h : FdWorld.step w op = some w') :
    KeepsDescriptors ⟨w, op, (), w'⟩ := by
  cases op with
  | openRaw path flags mode answer => exact hw.keeps_openRaw h
  | closeRaw fd => exact hw.keeps_closeRaw h
  | defaultCtor x =>
    obtain ⟨hx, h⟩ := Option.ite_none_right_eq_some.mp h
    cases h
    have hempty : (w.objects x).bind UniqueFD.held = none := Resources.World.bind_held_of_vacant hx
    exact hw.keeps_put hempty.symm (fun _ => rfl) (fun _ => rfl)
  | pathCtor x path flags answer =>
    obtain ⟨hx, h⟩ := Option.ite_none_right_eq_some.mp h
    obtain ⟨⟨w₁, fd⟩, hopen, h⟩ := Option.bind_eq_some_iff.mp h
    cases h
    exact hw.keeps_openInto (Resources.World.bind_held_of_vacant hx) (fun _ => rfl) (fun _ => rfl) hopen rfl
  | pathModeCtor x path flags mode answer =>
    obtain ⟨hx, h⟩ := Option.ite_none_right_eq_some.mp h
    obtain ⟨⟨w₁, fd⟩, hopen, h⟩ := Option.bind_eq_some_iff.mp h
    cases h
    exact hw.keeps_openInto (Resources.World.bind_held_of_vacant hx) (fun _ => rfl) (fun _ => rfl) hopen rfl
  | fdCtor x fd info =>
    obtain ⟨hx, h⟩ := Option.ite_none_right_eq_some.mp h
    cases h
    exact hw.keeps_fdCtor hx hmay (fun _ => rfl) (fun _ => rfl)
  | getOwnership x fd info =>
    obtain ⟨hx, h⟩ := Option.ite_none_right_eq_some.mp h
    cases h
    exact hw.keeps_fdCtor hx hmay (fun _ => rfl) (fun _ => rfl)
  | moveCtor x other =>
    obtain ⟨source, hsource, h⟩ := Option.bind_eq_some_iff.mp h
    obtain ⟨hx, h⟩ := Option.ite_none_right_eq_some.mp h
    cases h
    exact hw.keeps_moveCtor hx hsource
  | openStored x withMode answer =>
    obtain ⟨obj, hobj, h⟩ := Option.bind_eq_some_iff.mp h
    exact hw.keeps_open (fun fd => { obj with fd_ := fd }) hobj (fun _ => rfl) (fun _ => rfl) (fun _ => rfl) h
  | openPath x path flags answer =>
    obtain ⟨obj, hobj, h⟩ := Option.bind_eq_some_iff.mp h
    exact hw.keeps_open (fun fd => { obj with path_ := path, flags_ := flags, fd_ := fd }) hobj (fun _ => rfl)
      (fun _ => rfl) (fun _ => rfl) h
  | openPathMode x path flags mode answer =>
    obtain ⟨obj, hobj, h⟩ := Option.bind_eq_some_iff.mp h
    exact hw.keeps_open (fun fd => { obj with path_ := path, flags_ := flags, mode_ := some mode, fd_ := fd }) hobj
      (fun _ => rfl) (fun _ => rfl) (fun _ => rfl) h
  | reOpen x withMode answer =>
    obtain ⟨obj, hobj, h⟩ := Option.bind_eq_some_iff.mp h
    exact hw.keeps_reOpen hobj h
  | close x =>
    obtain ⟨obj, hobj, h⟩ := Option.bind_eq_some_iff.mp h
    cases h
    exact hw.keeps_close hobj
  | moveAssign x other =>
    obtain ⟨obj, hobj, h⟩ := Option.bind_eq_some_iff.mp h
    obtain ⟨source, hsource, h⟩ := Option.bind_eq_some_iff.mp h
    cases h
    exact hw.keeps_moveAssign hobj hsource
  | setSyncOnClose x value =>
    obtain ⟨obj, hobj, h⟩ := Option.bind_eq_some_iff.mp h
    cases h
    have hsame : UniqueFD.held { obj with syncOnClose := value } = (w.objects x).bind UniqueFD.held := by
      rw [hobj]
      rfl
    exact hw.keeps_put hsame (fun _ => rfl) (fun _ => rfl)
  | destroy x =>
    obtain ⟨obj, hobj, h⟩ := Option.bind_eq_some_iff.mp h
    cases h
    exact hw.keeps_destroy hobj

/-- In every run in which descriptors are taken over only from the code around the objects,
each member keeps the descriptors. -/
theorem descriptors_kept {ts : List (Run.Transition FdWorld FdOp Unit)} (hrun : Run.IsRun fdStep {} ts)
    (hmay : ∀ t ∈ ts, MayTakeOver t.before t.label) : ∀ t ∈ ts, KeepsDescriptors t := by
  have hstart : Accounted {} := Resources.World.accounted_empty
  refine Run.forall_of_careful ?_ hstart hrun hmay
  intro w op _ w' hw h hmay
  obtain ⟨_, hstep, heq⟩ := Option.map_eq_some_iff.mp h
  cases heq
  have hkeeps := hw.step hmay hstep
  exact ⟨hkeeps, hkeeps.accounted⟩

def noInfo : FdInfo := ⟨none, none, none⟩

def takenOver : List FdOp :=
  [.openRaw "image" 0 none (some 3), .pathCtor 0 "out" 1 (some 4), .getOwnership 1 3 noInfo, .moveAssign 0 1,
    .reOpen 1 false (some 4), .destroy 0, .destroy 1]

theorem descriptors_kept_takenOver : ∃ ts, Run.trace fdStep {} takenOver = some ts ∧
    ∀ t ∈ ts, KeepsDescriptors t := by
  refine ⟨_, rfl, descriptors_kept (Run.isRun_of_trace (show Run.trace fdStep {} takenOver = some _ from rfl)) ?_⟩
  rw [List.forall_mem_cons, List.forall_mem_cons, List.forall_mem_cons, List.forall_mem_cons, List.forall_mem_cons,
    List.forall_mem_cons, List.forall_mem_cons]
  refine ⟨trivial, trivial, Or.inr ⟨by decide, ?_⟩, trivial, trivial, trivial, trivial,
    fun t ht => absurd ht List.not_mem_nil⟩
  intro x obj hobj
  by_cases hx : x = 0
  · subst x
    cases hobj
    decide
  · have hnone : Function.update (fun _ : Nat => (none : Option UniqueFD)) 0
        (some { fd_ := 4, flags_ := 1, path_ := "out" }) x = some obj := hobj
    rw [Function.update_of_ne hx] at hnone
    cases hnone

/-- A descriptor that another object holds is closed with both. -/
theorem taken_twice_closed_twice : ∃ ts, Run.trace fdStep {} [.pathCtor 0 "out" 1 (some 3),
      .getOwnership 1 3 noInfo, .destroy 0, .destroy 1] = some ts ∧
    ¬ ∀ t ∈ ts, KeepsDescriptors t := by
  refine ⟨_, rfl, ?_⟩
  intro h
  have hlast := (h _ (List.mem_of_getLast? rfl)).accounted.hits (.release 3 none)
  exact hlast (by decide) rfl

end FdWorld

end PartitionManager
