import PartitionManager.UniqueStreams

namespace PartitionManager

open Resources (Event)
open Resources.World (bind_held_of_some bind_held_of_vacant)

namespace FpWorld

/-- Each open stream is with one object or with the code around them, each opening is in
use or closed, once, and every call was made on an open stream. -/
def Accounted (w : FpWorld) : Prop := Resources.World.Accounted UniqueFP.fp_ anyAddress w

/-- What is taken over is null, or an open stream that no object holds. -/
def TakesOver (w : FpWorld) (fp : Option Nat) : Prop := ∀ p, fp = some p → w.Unheld UniqueFP.fp_ p

/-- The object has no stream, or is set not to flush it. -/
def ClosesUnflushed (w : FpWorld) (x : Nat) : Prop :=
  ∀ obj, w.objects x = some obj → obj.fp_ = none ∨ obj.flushOnClose = false

/-- The call is not `open`, closes no stream that is to be flushed other than by the
destructor, and takes over only what no object holds. -/
def Careful (w : FpWorld) : FpOp → Prop
  | .fpCtor _ fp _ => TakesOver w fp
  | .getOwnership _ fp _ => TakesOver w fp
  | .open_ .. => False
  | .reOpen x _ => ClosesUnflushed w x
  | .close x => ClosesUnflushed w x
  | .moveAssign x other => x ≠ other → ClosesUnflushed w x
  | _ => True

end FpWorld

/-- The accounts are in order after the step, `open` on an object without a stream is a
call of `fopen`, and once all is let go of, every opening has been closed exactly once. -/
structure KeepsStreams (t : Run.Transition FpWorld FpOp Unit) : Prop where
  accounted : FpWorld.Accounted t.after
  opens : ∀ x path flags answer obj, t.label = .open_ x path flags answer → t.before.objects x = some obj →
    obj.fp_ = none → t.after.events = t.before.events ++ [.acquire ⟨path, flags⟩ answer]
  ended : (∀ x, t.after.objects x = none) → (∀ fp, t.after.raw fp = false) →
    ∀ r, r < t.after.acquired → t.after.released.count r = 1

namespace FpWorld

variable {w w' : FpWorld} {x y : Nat} {obj : UniqueFP} {path flags : Str} {fp answer : Option Nat} {op : FpOp}

theorem letGo_of_unflushed (h : obj.fp_ = none ∨ obj.flushOnClose = false) : letGo w obj = closer w obj.fp_ := by
  refine if_neg ?_
  intro hflush
  rcases h with hnone | hoff
  · exact hflush.1 hnone
  · rw [hoff] at hflush
    cases hflush.2

theorem closer_objects (w : FpWorld) (fp : Option Nat) : (closer w fp).objects = w.objects := by
  cases fp <;> rfl

theorem letGo_objects (w : FpWorld) (obj : UniqueFP) : (letGo w obj).objects = w.objects := by
  unfold letGo
  split
  next =>
    cases obj.fp_ <;> rfl
  next => exact closer_objects w obj.fp_

/-- An object that lets go of its stream closes it. -/
theorem Accounted.closer {rest : Option UniqueFP} (hw : Accounted w) (hobj : w.objects x = some obj)
    (hrest : rest.bind UniqueFP.fp_ = none) : Accounted ((FpWorld.closer w obj.fp_).set x rest) := by
  have hheld : (w.objects x).bind UniqueFP.fp_ = obj.fp_ := bind_held_of_some hobj
  cases hfp : obj.fp_ with
  | none =>
    rw [hfp] at hheld
    exact ⟨hw.holders.replace (hrest.trans hheld.symm), hw.valid, hw.hits⟩
  | some p => exact Resources.World.Accounted.releaseFrom hw hobj hfp hrest

theorem Accounted.close (hw : Accounted w) (hobj : w.objects x = some obj)
    (hflush : obj.fp_ = none ∨ obj.flushOnClose = false) : Accounted (FpWorld.close w x obj) := by
  unfold FpWorld.close
  rw [letGo_of_unflushed hflush]
  exact hw.closer hobj rfl

theorem close_objects (w : FpWorld) (x : Nat) (obj : UniqueFP) :
    (close w x obj).objects = Function.update w.objects x (some { obj with fp_ := none }) := by
  unfold close Resources.World.put Resources.World.set
  rw [letGo_objects]

theorem bind_held_close (w : FpWorld) (x : Nat) (obj : UniqueFP) :
    ((close w x obj).objects x).bind UniqueFP.fp_ = none := by
  rw [close_objects, Function.update_self]
  rfl

theorem Accounted.fpCtor {info : FpInfo} (hw : Accounted w) (hx : w.vacant x = true) (h : TakesOver w fp) :
    Accounted (FpWorld.fpCtor w x fp info) := by
  have hempty : (w.objects x).bind UniqueFP.fp_ = none := bind_held_of_vacant hx
  cases fp with
  | none => exact Resources.World.Accounted.put hw hempty.symm
  | some p =>
    have hunheld := h p rfl
    obtain ⟨r, hr⟩ := Option.ne_none_iff_exists'.mp hunheld.1
    have hused : Accounted ((w.use .fileno p).use .fileno p) := (Resources.World.Accounted.use hw hr).use hr
    exact hused.adopt hempty hunheld rfl

theorem Accounted.moveAssign {source : UniqueFP} (hw : Accounted w) (hobj : w.objects x = some obj)
    (hsource : w.objects y = some source) (hflush : x ≠ y → obj.fp_ = none ∨ obj.flushOnClose = false) :
    Accounted (FpWorld.moveAssign w x y obj source) := by
  unfold FpWorld.moveAssign
  by_cases hxy : x = y
  · rw [if_pos hxy]
    exact hw
  · rw [if_neg hxy]
    have hkept : (FpWorld.close w x obj).objects y = some source := by
      rw [close_objects, Function.update_of_ne (Ne.symm hxy)]
      exact hsource
    exact (hw.close hobj (hflush hxy)).move (bind_held_close w x obj) hkept (Ne.symm hxy) rfl rfl

/-- A careful call keeps the accounts. -/
theorem Accounted.step (hw : Accounted w) (hcareful : Careful w op) (h : FpWorld.step w op = some w') :
    Accounted w' := by
  cases op with
  | openRaw path flags answer => exact Resources.World.Accounted.acquireRaw hw h
  | closeRaw fp => exact Resources.World.Accounted.releaseRaw hw h
  | defaultCtor x =>
    obtain ⟨hx, h⟩ := Option.ite_none_right_eq_some.mp h
    cases h
    have hempty : (w.objects x).bind UniqueFP.fp_ = none := bind_held_of_vacant hx
    exact Resources.World.Accounted.put hw hempty.symm
  | pathCtor x path flags answer =>
    obtain ⟨hx, h⟩ := Option.ite_none_right_eq_some.mp h
    obtain ⟨⟨w₁, fp⟩, hopen, h⟩ := Option.bind_eq_some_iff.mp h
    cases h
    exact Resources.World.Accounted.acquireInto hw (bind_held_of_vacant hx) hopen rfl
  | fpCtor x fp info =>
    obtain ⟨hx, h⟩ := Option.ite_none_right_eq_some.mp h
    cases h
    exact hw.fpCtor hx hcareful
  | getOwnership x fp info =>
    obtain ⟨hx, h⟩ := Option.ite_none_right_eq_some.mp h
    cases h
    exact hw.fpCtor hx hcareful
  | moveCtor x other =>
    obtain ⟨source, hsource, h⟩ := Option.bind_eq_some_iff.mp h
    obtain ⟨hx, h⟩ := Option.ite_none_right_eq_some.mp h
    cases h
    have hne : other ≠ x := Resources.World.ne_of_vacant hx hsource
    exact Resources.World.Accounted.move hw (bind_held_of_vacant hx) hsource hne rfl rfl
  | open_ x path flags answer => exact hcareful.elim
  | reOpen x answer =>
    obtain ⟨obj, hobj, h⟩ := Option.bind_eq_some_iff.mp h
    obtain ⟨flags, _, h⟩ := Option.bind_eq_some_iff.mp h
    obtain ⟨⟨w₁, fp⟩, hopen, h⟩ := Option.bind_eq_some_iff.mp h
    cases h
    exact (hw.close hobj (hcareful obj hobj)).acquireInto (bind_held_close w x obj) hopen rfl
  | close x =>
    obtain ⟨obj, hobj, h⟩ := Option.bind_eq_some_iff.mp h
    cases h
    exact hw.close hobj (hcareful obj hobj)
  | moveAssign x other =>
    obtain ⟨obj, hobj, h⟩ := Option.bind_eq_some_iff.mp h
    obtain ⟨source, hsource, h⟩ := Option.bind_eq_some_iff.mp h
    cases h
    exact hw.moveAssign hobj hsource fun hne => hcareful hne obj hobj
  | setFlushOnClose x value =>
    obtain ⟨obj, hobj, h⟩ := Option.bind_eq_some_iff.mp h
    cases h
    have hheld : (w.objects x).bind UniqueFP.fp_ = obj.fp_ := bind_held_of_some hobj
    exact Resources.World.Accounted.put hw hheld.symm
  | destroy x =>
    obtain ⟨obj, hobj, h⟩ := Option.bind_eq_some_iff.mp h
    cases h
    exact hw.closer hobj rfl

theorem Accounted.keeps (hw : Accounted w) (hcareful : Careful w op) (h : FpWorld.step w op = some w') :
    KeepsStreams ⟨w, op, (), w'⟩ where
  accounted := hw.step hcareful h
  opens := by
    intro x path flags answer obj hop
    cases hop
    exact hcareful.elim
  ended := (hw.step hcareful h).ended

/-- Whatever an object takes over must have been open, and held by no other object. -/
theorem takesOver_of_accounted {info : FpInfo} (hx : w.vacant x = true)
    (hafter : Accounted (fpCtor w x fp info)) : TakesOver w fp := by
  intro p hp
  subst hp
  have hself : (fpCtor w x (some p) info).objects x = some
      { fp_ := some p, flags_ := get_flags info.flags, path_ := info.link.getD [] } := Function.update_self _ _ _
  obtain ⟨r, hr⟩ := hafter.exists_resource hself rfl
  refine ⟨?_, ?_⟩
  · have htable : w.table p = some r := hr
    rw [htable]
    exact Option.some_ne_none r
  · intro y obj hobj hheld
    have hne : y ≠ x := Resources.World.ne_of_vacant hx hobj
    have hother : (fpCtor w x (some p) info).objects y = some obj := (Function.update_of_ne hne _ _).trans hobj
    exact hafter.holders.ne_of_ne hself hother (Ne.symm hne) rfl hheld rfl

/-- A stream is flushed when it has been closed. -/
theorem letGo_flushes {p : Nat} (hfp : obj.fp_ = some p) (hflush : obj.flushOnClose = true) :
    Event.use FpUse.fflush p none ∈ (letGo w obj).events := by
  unfold letGo
  rw [hfp, if_pos ⟨Option.some_ne_none p, hflush⟩]
  refine List.mem_append_right _ ?_
  have hfree : (w.release p).table p = none := Function.update_self _ _ _
  show Event.use FpUse.fflush p none ∈ [Event.use FpUse.fflush p ((w.release p).table p)]
  rw [hfree]
  exact List.mem_singleton_self _

/-- No step that includes a `close` keeps the accounts unless the stream is not flushed. -/
theorem closesUnflushed_of_accounted (hobj : w.objects x = some obj)
    (hevents : ∀ event ∈ (letGo w obj).events, event ∈ w'.events) (hafter : Accounted w') : ClosesUnflushed w x := by
  intro obj' hobj'
  rw [hobj] at hobj'
  cases hobj'
  cases hfp : obj.fp_ with
  | none => exact Or.inl rfl
  | some p =>
    refine Or.inr ?_
    by_contra hflush
    have hmem := hevents _ (letGo_flushes hfp (Bool.eq_true_of_not_eq_false hflush))
    exact hafter.hits _ hmem rfl

/-- An object without a stream gets none by `open`, another one loses its own. -/
theorem open_not_keeps (hw : Accounted w) (hobj : w.objects x = some obj)
    (h : FpWorld.open_ w x obj path flags answer = some w') :
    ¬ KeepsStreams ⟨w, .open_ x path flags answer, (), w'⟩ := by
  intro hkeeps
  unfold FpWorld.open_ at h
  split at h
  next hnone =>
    cases h
    have hevents := hkeeps.opens x path flags answer obj rfl hobj hnone
    exact absurd (congrArg List.length hevents) (by simp)
  next hsome =>
    obtain ⟨p, hp⟩ := Option.ne_none_iff_exists'.mp hsome
    obtain ⟨r, hr⟩ := hw.exists_resource hobj hp
    obtain ⟨⟨w₁, name⟩, hopen, h⟩ := Option.bind_eq_some_iff.mp h
    cases h
    obtain ⟨hobjects, hraw⟩ := Resources.World.acquire_objects hopen
    have hbefore : Holders.slot UniqueFP.fp_ w.objects w.raw (.object x) = some p := (bind_held_of_some hobj).trans hp
    have hopened : w₁.table p = some r := Resources.World.Extends.acquire hopen p r hr
    have hlive : w₁.table p ≠ none := by
      rw [hopened]
      exact Option.some_ne_none r
    obtain ⟨place, hplace⟩ := hkeeps.accounted.holders.exclusive.kept p hlive
    cases place with
    | object y =>
      by_cases hyx : y = x
      · subst y
        have hname : name = some p := by
          simpa [Holders.slot, Resources.World.put, Resources.World.set] using hplace
        rcases Resources.World.acquire_cases hopen with ⟨hnone, _⟩ | ⟨n, hn, _, hfree, _⟩
        · rw [hnone] at hname
          cases hname
        · rw [hname] at hn
          cases hn
          rw [hr] at hfree
          cases hfree
      · have hold : Holders.slot UniqueFP.fp_ w.objects w.raw (.object y) = some p := by
          simpa [Holders.slot, Resources.World.put, Resources.World.set, hyx, hobjects] using hplace
        have hsame := hw.holders.exclusive.unique _ _ p hold hbefore
        exact hyx (Holders.Place.object.inj hsame)
    | raw m =>
      have hold : Holders.slot UniqueFP.fp_ w.objects w.raw (.raw m) = some p := by
        rw [← hraw]
        exact hplace
      have hsame := hw.holders.exclusive.unique _ _ p hold hbefore
      cases hsame

/-- Only careful calls keep the streams. -/
theorem careful_of_keeps (hw : Accounted w) (h : FpWorld.step w op = some w')
    (hkeeps : KeepsStreams ⟨w, op, (), w'⟩) : Careful w op := by
  cases op with
  | openRaw path flags answer => trivial
  | closeRaw fp => trivial
  | defaultCtor x => trivial
  | pathCtor x path flags answer => trivial
  | fpCtor x fp info =>
    obtain ⟨hx, h⟩ := Option.ite_none_right_eq_some.mp h
    cases h
    exact takesOver_of_accounted hx hkeeps.accounted
  | getOwnership x fp info =>
    obtain ⟨hx, h⟩ := Option.ite_none_right_eq_some.mp h
    cases h
    exact takesOver_of_accounted hx hkeeps.accounted
  | moveCtor x other => trivial
  | open_ x path flags answer =>
    obtain ⟨obj, hobj, h⟩ := Option.bind_eq_some_iff.mp h
    exact open_not_keeps hw hobj h hkeeps
  | reOpen x answer =>
    obtain ⟨obj, hobj, h⟩ := Option.bind_eq_some_iff.mp h
    obtain ⟨flags, _, h⟩ := Option.bind_eq_some_iff.mp h
    obtain ⟨⟨w₁, name⟩, hopen, h⟩ := Option.bind_eq_some_iff.mp h
    cases h
    refine closesUnflushed_of_accounted hobj ?_ hkeeps.accounted
    intro event hevent
    rcases Resources.World.acquire_cases hopen with ⟨_, rfl⟩ | ⟨_, _, _, _, rfl⟩
    · exact List.mem_append_left _ hevent
    · exact List.mem_append_left _ hevent
  | close x =>
    obtain ⟨obj, hobj, h⟩ := Option.bind_eq_some_iff.mp h
    cases h
    refine closesUnflushed_of_accounted hobj ?_ hkeeps.accounted
    intro event hevent
    exact hevent
  | moveAssign x other =>
    obtain ⟨obj, hobj, h⟩ := Option.bind_eq_some_iff.mp h
    obtain ⟨source, _, h⟩ := Option.bind_eq_some_iff.mp h
    cases h
    intro hne
    refine closesUnflushed_of_accounted hobj ?_ hkeeps.accounted
    intro event hevent
    dsimp only
    rw [FpWorld.moveAssign, if_neg hne]
    exact hevent
  | setFlushOnClose x value => trivial
  | destroy x => trivial

/-- In every run, the streams are kept by every step exactly if every call is careful. -/
theorem streams_kept_iff {ts : List (Run.Transition FpWorld FpOp Unit)} (hrun : Run.IsRun fpStep {} ts) :
    (∀ t ∈ ts, KeepsStreams t) ↔ ∀ t ∈ ts, Careful t.before t.label := by
  have hstart : Accounted {} := Resources.World.accounted_empty
  refine Run.forall_iff_of_invariant ?_ ?_ hstart hrun
  · intro w op _ w' hw h
    obtain ⟨_, hstep, heq⟩ := Option.map_eq_some_iff.mp h
    cases heq
    constructor
    · intro hkeeps
      exact careful_of_keeps hw hstep hkeeps
    · intro hcareful
      exact hw.keeps hcareful hstep
  · intro w op _ w' hw h hcareful
    obtain ⟨_, hstep, heq⟩ := Option.map_eq_some_iff.mp h
    cases heq
    exact hw.step hcareful hstep

def unflushed : List FpOp :=
  [.pathCtor 0 "log" "a" (some 0x1000), .setFlushOnClose 0 false, .moveCtor 1 0, .moveAssign 0 1, .close 0, .destroy 1]

theorem streams_kept_unflushed : ∃ ts, Run.trace fpStep {} unflushed = some ts ∧ ∀ t ∈ ts, KeepsStreams t := by
  refine ⟨_, rfl, (streams_kept_iff (Run.isRun_of_trace (show Run.trace fpStep {} unflushed = some _ from rfl))).mpr ?_⟩
  rw [List.forall_mem_cons, List.forall_mem_cons, List.forall_mem_cons, List.forall_mem_cons, List.forall_mem_cons,
    List.forall_mem_cons]
  refine ⟨trivial, trivial, trivial, ?_, ?_, trivial, fun t ht => absurd ht List.not_mem_nil⟩
  · intro _ obj hobj
    cases hobj
    exact Or.inl rfl
  · intro obj hobj
    cases hobj
    exact Or.inr rfl

/-- A stream that is flushed after it was closed, a file that is not opened, and a stream that is lost. -/
theorem streams_not_kept :
    (∃ ts, Run.trace fpStep {} [.pathCtor 0 "log" "a" (some 0x1000), .close 0] = some ts ∧
      ¬ ∀ t ∈ ts, KeepsStreams t) ∧
    (∃ ts, Run.trace fpStep {} [.defaultCtor 0, .open_ 0 "log" "a" (some 0x1000)] = some ts ∧
      ¬ ∀ t ∈ ts, KeepsStreams t) ∧
    (∃ ts, Run.trace fpStep {} [.pathCtor 0 "log" "a" (some 0x1000), .open_ 0 "log" "a" (some 0x2000),
        .destroy 0] = some ts ∧ ¬ ∀ t ∈ ts, KeepsStreams t) := by
  refine ⟨⟨_, rfl, ?_⟩, ⟨_, rfl, ?_⟩, ⟨_, rfl, ?_⟩⟩
  · intro h
    have hlast := (h _ (List.mem_of_getLast? rfl)).accounted.hits (.use .fflush 0x1000 none)
    exact hlast (by decide) rfl
  · intro h
    have hlast := (h _ (List.mem_of_getLast? rfl)).opens 0 "log" "a" (some 0x1000) {} rfl rfl rfl
    cases hlast
  · intro h
    have hlast := (h _ (List.mem_of_getLast? rfl)).ended
    refine absurd (hlast ?_ (fun _ => rfl) 0 (by decide)) (by decide)
    intro x
    cases x with
    | zero => rfl
    | succ x => rfl

end FpWorld

end PartitionManager
