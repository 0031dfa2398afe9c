import PartitionManager.HandleLedger

namespace PartitionManager

namespace World

/-- The places that hold handles. -/
inductive Slot where
  | object (o : Nat)
  | raw (h : Nat)
  deriving DecidableEq

def slot (w : World) : Slot → Option Nat
  | .object o => (w.objects o).bind fun obj => obj.op.held
  | .raw h => if w.raw h then some h else none

/-- Every object has a pointer it may use and release, every live handle is held in one
place, and the handles and descriptors are as the ledger `L` says. -/
structure Accounted (L : World → Prop) (w : World) : Prop where
  determinate : ∀ o obj, w.objects o = some obj → obj.op ≠ .indeterminate
  exclusive : Owned.Exclusive w.slot fun h => (w.heap h).isSome = true
  ledger : L w

/-- A handle behind `op` may be released. -/
def Closes (ok : OpenPartT → Prop) (w : World) (op : Ptr) : Prop :=
  ∀ h hd, op = .handle h → w.heap h = some hd → ok hd

/-- The call drops no handle, closes no descriptor behind a handle, leaves no pointer
indeterminate, and releases only handles that may be released. -/
def Careful (ok : OpenPartT → Prop) (w : World) : HandleCall → Prop
  | .closeRaw h => w.Closes ok (.handle h)
  | .argsCtor _ ops => ∃ last, ops.getLast? = some last ∧ ∀ op ∈ ops, op = none ∨ op = last
  | .AsLogicalPartition o _ _ => ∀ obj, w.objects o = some obj → w.Closes ok obj.op
  | .set o op => ∀ obj, w.objects o = some obj →
      obj.isLogical = true ∨ obj.op = .null ∨ obj.op = .ofOption op
  | .setOpenPart o op => ∀ obj, w.objects o = some obj →
      obj.isLogical = true ∨ w.Closes ok obj.op ∧ (op = none ∨ obj.op ≠ .ofOption op)
  | .closeFdNow o info => ∀ obj h hd, w.objects o = some obj → obj.op = .handle h → w.heap h = some hd →
      hd.info_loaded = false ∧ info = false
  | .copyAssign o other _ _ => o ≠ other → ∀ obj, w.objects o = some obj → w.Closes ok obj.op
  | .moveAssign o other => o ≠ other → ∀ obj, w.objects o = some obj → w.Closes ok obj.op
  | .destroy o => ∀ obj, w.objects o = some obj → w.Closes ok obj.op
  | _ => True

variable {devs : DeviceTree} {w w' : World} {o h : Nat} {obj : PartitionObject} {op : Ptr} {hd : OpenPartT}
  {L : World → Prop} {ok : OpenPartT → Prop}

theorem slot_objects (v : Option PartitionObject) : { w with objects := Function.update w.objects o v }.slot =
    Function.update w.slot (.object o) (v.bind fun obj => obj.op.held) := by
  funext x
  cases x with
  | object p =>
    by_cases hp : p = o
    · subst p
      simp [slot]
    · simp [slot, hp]
  | raw q =>
    rw [Function.update_of_ne (by simp)]
    rfl

theorem slot_put : (w.put o obj).slot = Function.update w.slot (.object o) obj.op.held := slot_objects (some obj)

theorem slot_remove : { w with objects := Function.update w.objects o none }.slot =
    Function.update w.slot (.object o) none := slot_objects none

theorem slot_raw (b : Bool) : { w with raw := Function.update w.raw h b }.slot =
    Function.update w.slot (.raw h) (if b then some h else none) := by
  funext x
  cases x with
  | object p => simp [slot]
  | raw q =>
    by_cases hq : q = h
    · subst q
      simp [slot]
    · simp [slot, hq]

theorem slot_congr (hobjects : w'.objects = w.objects) (hraw : w'.raw = w.raw) : w'.slot = w.slot := by
  funext x
  cases x with
  | object p => simp [slot, hobjects]
  | raw q => simp [slot, hraw]

/-- A slot that was empty takes what `openpart_open` returned. -/
theorem exclusive_of_open {path : Option Str} {flags extra : UInt32} {answer : OpenAnswer} {x : Slot}
    (hw : Owned.Exclusive w.slot fun r => (w.heap r).isSome = true) (hopen : Opened w)
    (h : w.openpart_open devs path flags extra answer = some (w', op)) (hx : w.slot x = none) :
    Owned.Exclusive (Function.update w.slot x op.held) fun r => (w'.heap r).isSome = true := by
  have hsame : Function.update w.slot x none = w.slot := by
    rw [← hx]
    exact Function.update_eq_self x w.slot
  rcases openpart_open_cases h with ⟨rfl, rfl⟩ | ⟨_, _, _, rfl, rfl⟩ | ⟨_, _, _, _, _, _, _, rfl, rfl⟩
  · show Owned.Exclusive (Function.update w'.slot x none) _
    rw [hsame]
    exact hw
  · show Owned.Exclusive (Function.update w.slot x none) _
    rw [hsame]
    exact hw
  · have hdead : ¬ (w.heap w.next).isSome = true := by
      rw [hopen.fresh _ (Nat.le_refl _)]
      simp
    refine (hw.acquire hx hdead).of_iff ?_
    intro r
    by_cases hr : r = w.next
    · simp [hr]
    · simp [hr]

theorem openpart_open_ne_indeterminate {path : Option Str} {flags extra : UInt32} {answer : OpenAnswer}
    (h : w.openpart_open devs path flags extra answer = some (w', op)) : op ≠ .indeterminate := by
  rcases openpart_open_cases h with ⟨_, rfl⟩ | ⟨_, _, _, rfl, _⟩ | ⟨_, _, _, _, _, _, _, rfl, _⟩
  · exact nofun
  · exact nofun
  · exact nofun

theorem slot_of_vacant (h : w.vacant o = true) : w.slot (.object o) = none := by
  rw [vacant, Option.isNone_iff_eq_none] at h
  simp [slot, h]

theorem slot_of_object (h : w.objects o = some obj) : w.slot (.object o) = obj.op.held := by
  simp [slot, h]

/-- A handle that a slot held is freed, and the slot emptied. -/
theorem Accounted.exclusive_free {x : Slot} (hw : Accounted L w) (hx : w.slot x = some h) :
    Owned.Exclusive (Function.update (w.free h hd).slot x none) fun r => ((w.free h hd).heap r).isSome = true := by
  rw [slot_congr free_objects free_raw, free_heap]
  refine (hw.exclusive.release hx).of_iff ?_
  intro r
  by_cases hr : r = h
  · simp [hr]
  · simp [hr]

section

variable (hL : Ledger L ok)

include hL

theorem Accounted.put (hdet : ∀ p obj', w.objects p = some obj' → obj'.op ≠ .indeterminate)
    (hop : obj.op ≠ .indeterminate)
    (hex : Owned.Exclusive (Function.update w.slot (.object o) obj.op.held) fun r => (w.heap r).isSome = true)
    (hw : L w) : Accounted L (w.put o obj) := by
  refine ⟨?_, ?_, hL.congr w _ hw rfl rfl rfl rfl⟩
  · intro p obj' hp
    by_cases heq : p = o
    · subst p
      have hsame : obj = obj' := by simpa [World.put] using hp
      rw [← hsame]
      exact hop
    · exact hdet p obj' (by simpa [World.put, heq] using hp)
  · rw [slot_put]
    exact hex

theorem Accounted.put_same (hw : Accounted L w) (hx : w.slot (.object o) = obj.op.held)
    (hop : obj.op ≠ .indeterminate) : Accounted L (w.put o obj) := by
  refine Accounted.put hL hw.determinate hop ?_ hw.ledger
  rw [← hx, Function.update_eq_self]
  exact hw.exclusive

theorem Accounted.open_put {path : Option Str} {flags extra : UInt32} {answer : OpenAnswer} (hw : Accounted L w)
    (h : w.openpart_open devs path flags extra answer = some (w', op)) (hx : w.slot (.object o) = none) :
    Accounted L (w'.put o { obj with op := op }) := by
  obtain ⟨hobjects, hraw⟩ := openpart_open_places h
  refine Accounted.put hL ?_ (openpart_open_ne_indeterminate h) ?_ (hL.openpart_open _ _ _ _ _ _ _ _ hw.ledger h)
  · intro p obj' hp
    rw [hobjects] at hp
    exact hw.determinate p obj' hp
  · rw [slot_congr hobjects hraw]
    exact exclusive_of_open hw.exclusive (hL.opened w hw.ledger) h hx

/-- If it fails, nothing is held that was not held before. -/
theorem Accounted.open_null {path : Option Str} {flags extra : UInt32} {answer : OpenAnswer} (hw : Accounted L w)
    (h : w.openpart_open devs path flags extra answer = some (w', .null)) : Accounted L w' := by
  obtain ⟨hobjects, hraw⟩ := openpart_open_places h
  have hheap : w'.heap = w.heap := by
    rcases openpart_open_cases h with ⟨rfl, _⟩ | ⟨_, _, _, _, rfl⟩ | ⟨_, _, _, _, _, _, _, hnull, _⟩
    · rfl
    · rfl
    · cases hnull
  refine ⟨?_, ?_, hL.openpart_open _ _ _ _ _ _ _ _ hw.ledger h⟩
  · rw [hobjects]
    exact hw.determinate
  · rw [slot_congr hobjects hraw, hheap]
    exact hw.exclusive

/-- `openpart_close(&op)` on a member releases its handle, if it holds one. -/
theorem Accounted.closeOp {cur : PartitionObject} (hw : Accounted L w) (hcur : w.objects o = some cur)
    (hop : obj.op = cur.op) (hcloses : w.Closes ok cur.op) (h : w.closeOp o obj = some w') :
    Accounted L w' ∧ w'.objects = Function.update w.objects o (some { obj with op := .null }) ∧ w'.raw = w.raw := by
  unfold World.closeOp at h
  obtain ⟨w₁, hclose, h⟩ := Option.bind_eq_some_iff.mp h
  cases Option.some.inj h
  rw [hop] at hclose
  have hslot := slot_of_object hcur
  cases hptr : cur.op with
  | indeterminate => exact absurd hptr (hw.determinate o cur hcur)
  | null =>
    rw [hptr] at hclose hslot
    cases Option.some.inj hclose
    exact ⟨hw.put_same hL hslot nofun, rfl, rfl⟩
  | handle r =>
    rw [hptr] at hclose hslot
    obtain ⟨hd, hhd, rfl⟩ := Option.map_eq_some_iff.mp hclose
    refine ⟨Accounted.put hL ?_ nofun (hw.exclusive_free hslot) (hL.free _ _ _ hw.ledger hhd (hcloses r hd hptr hhd)),
      ?_, ?_⟩
    · rw [free_objects]
      exact hw.determinate
    · simp only [World.put, free_objects]
    · show (w.free r hd).raw = w.raw
      exact free_raw

theorem Accounted.loaded {info : Bool} {ans : Option OpenPartT} (hw : Accounted L w)
    (h' : w.loaded h info = some (w', ans)) : Accounted L w' ∧ w'.objects = w.objects ∧ w'.raw = w.raw := by
  rcases loaded_cases h' with rfl | ⟨hd, hhd, rfl⟩
  · exact ⟨hw, rfl, rfl⟩
  · refine ⟨⟨hw.determinate, ?_, hL.load _ _ _ hw.ledger hhd⟩, rfl, rfl⟩
    refine hw.exclusive.of_iff ?_
    intro r
    rw [isSome_load hhd]

theorem Accounted.openpart_get_part_path {info : Bool} {path : Option Str} (hw : Accounted L w)
    (h' : w.openpart_get_part_path h info = some (w', path)) :
    Accounted L w' ∧ w'.objects = w.objects ∧ w'.raw = w.raw := by
  obtain ⟨ans, hans, h'⟩ := Option.bind_eq_some_iff.mp h'
  cases Option.some.inj h'
  exact hw.loaded hL hans

theorem Accounted.copyPath {src : PartitionObject} {info : Bool} {path : Str} (hw : Accounted L w)
    (h' : w.copyPath src h info = some (w', path)) : Accounted L w' ∧ w'.objects = w.objects ∧ w'.raw = w.raw := by
  rcases copyPath_cases h' with ⟨_, rfl, _⟩ | ⟨_, hget⟩
  · exact ⟨hw, rfl, rfl⟩
  · exact hw.openpart_get_part_path hL hget

theorem Accounted.construct {path : Option Str} {answer : OpenAnswer} (hw : Accounted L w)
    (hx : w.slot (.object o) = none) (h : w.construct devs o obj path answer = some w') : Accounted L w' := by
  obtain ⟨ans, hans, h⟩ := Option.bind_eq_some_iff.mp h
  obtain ⟨w₁, op⟩ := ans
  dsimp only at h
  split at h
  next hnull =>
    cases h
    rw [hnull] at hans
    exact hw.open_null hL hans
  next =>
    cases h
    exact hw.open_put hL hans hx

theorem Accounted.reopen {path : Option Str} {flags : UInt32} {answer : OpenAnswer} (hw : Accounted L w)
    (hx : w.slot (.object o) = none) (h : w.reopen devs o obj path flags answer = some w') : Accounted L w' := by
  obtain ⟨ans, hans, h⟩ := Option.bind_eq_some_iff.mp h
  cases h
  exact hw.open_put hL hans hx

/-- A handle moves from the caller's hands into an object that holds nothing. -/
theorem Accounted.adopt (hw : Accounted L w) (hx : w.slot (.object o) = none)
    (hpass : obj.op = .null ∨ ∃ h, obj.op = .handle h ∧ w.raw h = true) :
    Accounted L ((w.put o obj).give obj.op) := by
  rcases hpass with hnull | ⟨r, hop, hraw⟩
  · rw [hnull]
    refine hw.put_same hL ?_ ?_
    · rw [hx, hnull]
      rfl
    · rw [hnull]
      exact nofun
  · have hfrom : w.slot (.raw r) = some r := by simp [slot, hraw]
    rw [hop]
    refine ⟨?_, ?_, hL.congr w _ hw.ledger rfl rfl rfl rfl⟩
    · intro p obj' hp
      by_cases heq : p = o
      · subst p
        have hsame : obj = obj' := by simpa [World.give, World.put] using hp
        rw [← hsame, hop]
        exact nofun
      · exact hw.determinate p obj' (by simpa [World.give, World.put, heq] using hp)
    · have hslot : ((w.put o obj).give (.handle r)).slot =
          Function.update (Function.update w.slot (.object o) (w.slot (.raw r))) (.raw r) none := by
        unfold World.give
        rw [slot_raw, slot_put, hop, hfrom]
        rfl
      rw [hslot]
      exact hw.exclusive.transfer hx (by simp)

/-- The handle of one object moves into another that holds nothing. -/
theorem Accounted.move {other : Nat} {source : PartitionObject} (hw : Accounted L w) (hx : w.slot (.object o) = none)
    (hsource : w.objects other = some source) (hne : other ≠ o) : Accounted L ((w.put o source).put other {}) := by
  have hslot := slot_of_object hsource
  refine ⟨?_, ?_, hL.congr w _ hw.ledger rfl rfl rfl rfl⟩
  · intro p obj' hp
    by_cases hother : p = other
    · subst p
      have hsame : ({} : PartitionObject) = obj' := by simpa [World.put] using hp
      rw [← hsame]
      exact nofun
    · by_cases heq : p = o
      · subst p
        have hsame : source = obj' := by simpa [World.put, hother] using hp
        rw [← hsame]
        exact hw.determinate other source hsource
      · exact hw.determinate p obj' (by simpa [World.put, hother, heq] using hp)
  · rw [slot_put, slot_put, ← hslot]
    exact hw.exclusive.transfer hx (by simpa using hne)

theorem Accounted.openRaw {path : Str} {flags extra : UInt32} {answer : OpenAnswer} (hw : Accounted L w)
    (h : w.step devs (.openRaw path flags extra answer) = some w') : Accounted L w' := by
  obtain ⟨ans, hans, h⟩ := Option.bind_eq_some_iff.mp h
  obtain ⟨w₁, op⟩ := ans
  obtain ⟨hobjects, hraw⟩ := openpart_open_places hans
  cases op with
  | null =>
    cases h
    exact hw.open_null hL hans
  | indeterminate => exact absurd rfl (openpart_open_ne_indeterminate hans)
  | handle r =>
    cases h
    have hr : r = w.next := by
      rcases openpart_open_cases hans with ⟨_, hop⟩ | ⟨_, _, _, hop, _⟩ | ⟨_, _, _, _, _, _, _, hop, _⟩
      · cases hop
      · cases hop
      · exact Ptr.handle.inj hop
    have hempty : w.slot (.raw r) = none := by
      cases hslot : w.slot (.raw r) with
      | none => rfl
      | some q =>
        have hq : q = r := by
          simp only [slot] at hslot
          split at hslot
          next => exact (Option.some.inj hslot).symm
          next => cases hslot
        have hlive := hw.exclusive.alive _ _ hslot
        rw [hq, hr, (hL.opened w hw.ledger).fresh _ (Nat.le_refl _)] at hlive
        cases hlive
    have hledger := hL.openpart_open _ _ _ _ _ _ _ _ hw.ledger hans
    refine ⟨?_, ?_, hL.congr w₁ _ hledger rfl rfl rfl rfl⟩
    · intro p obj hp
      exact hw.determinate p obj (hobjects ▸ hp)
    · have hex := exclusive_of_open hw.exclusive (hL.opened w hw.ledger) hans hempty
      rw [slot_raw, slot_congr hobjects hraw]
      exact hex

theorem Accounted.closeRaw (hw : Accounted L w) (hcloses : w.Closes ok (.handle h))
    (h' : w.step devs (.closeRaw h) = some w') : Accounted L w' := by
  simp only [step] at h'
  split at h'
  next hraw =>
    obtain ⟨w₁, hclose, h'⟩ := Option.bind_eq_some_iff.mp h'
    obtain ⟨hd, hhd, rfl⟩ := Option.map_eq_some_iff.mp hclose
    cases h'
    have hslot : w.slot (.raw h) = some h := by simp [slot, hraw]
    have hledger := hL.free _ _ _ hw.ledger hhd (hcloses h hd rfl hhd)
    refine ⟨?_, ?_, hL.congr (w.free h hd) _ hledger rfl rfl rfl rfl⟩
    · intro p obj hp
      have hp' : (w.free h hd).objects p = some obj := hp
      rw [free_objects] at hp'
      exact hw.determinate p obj hp'
    · have hgive : ((w.free h hd).give (.handle h)).slot = Function.update (w.free h hd).slot (.raw h) none := by
        unfold give
        rw [slot_raw]
        rfl
      rw [hgive]
      exact hw.exclusive_free hslot
  next => cases h'

theorem Accounted.copyCtor {other : PartitionObject} {info : Bool} {answer : OpenAnswer} (hw : Accounted L w)
    (hx : w.vacant o = true) (h' : w.copyCtor devs o other info answer = some w') : Accounted L w' := by
  unfold World.copyCtor at h'
  split at h'
  next hnull =>
    cases h'
    exact hw.put_same hL (slot_of_vacant hx) (by rintro ⟨⟩)
  next => cases h'
  next r hr =>
    obtain ⟨ans, hans, h'⟩ := Option.bind_eq_some_iff.mp h'
    obtain ⟨w₁, path⟩ := ans
    obtain ⟨hw₁, hobjects, hraw⟩ := hw.copyPath hL hans
    refine hw₁.construct hL ?_ h'
    rw [slot_congr hobjects hraw]
    exact slot_of_vacant hx

theorem Accounted.dataCtor {ptr : Option Nat} {info : Bool} {answer : OpenAnswer} (hw : Accounted L w)
    (hx : w.vacant o = true) (h' : w.dataCtor devs o ptr info answer = some w') : Accounted L w' := by
  unfold World.dataCtor at h'
  split at h'
  next =>
    cases h'
    exact hw.put_same hL (slot_of_vacant hx) (by rintro ⟨⟩)
  next r =>
    obtain ⟨ans, hans, h'⟩ := Option.bind_eq_some_iff.mp h'
    obtain ⟨w₁, path⟩ := ans
    obtain ⟨hw₁, hobjects, hraw⟩ := hw.openpart_get_part_path hL hans
    refine hw₁.construct hL ?_ h'
    rw [slot_congr hobjects hraw]
    exact slot_of_vacant hx

theorem Accounted.asLogical {path : Str} {answer : OpenAnswer} (hw : Accounted L w) (hobj : w.objects o = some obj)
    (hcloses : w.Closes ok obj.op) (h' : w.AsLogicalPartition devs o obj path answer = some w') :
    Accounted L w' := by
  obtain ⟨w₁, hclose, h'⟩ := Option.bind_eq_some_iff.mp h'
  obtain ⟨hw₁, hobjects, _⟩ := hw.closeOp hL hobj (by rfl) hcloses hclose
  refine hw₁.reopen hL ?_ h'
  exact slot_of_object (by rw [hobjects, Function.update_self])

theorem Accounted.copyAssign {other : PartitionObject} {info : Bool} {answer : OpenAnswer} (hw : Accounted L w)
    (hobj : w.objects o = some obj) (hcloses : w.Closes ok obj.op)
    (h' : w.copyAssign devs o obj other info answer = some w') : Accounted L w' := by
  obtain ⟨w₁, hclose, h'⟩ := Option.bind_eq_some_iff.mp h'
  obtain ⟨hw₁, hobjects, _⟩ := hw.closeOp hL hobj (by rfl) hcloses hclose
  have hempty : w₁.slot (.object o) = none := slot_of_object (by rw [hobjects, Function.update_self])
  split at h'
  next =>
    cases h'
    exact hw₁
  next => cases h'
  next r hr =>
    obtain ⟨ans, hans, h'⟩ := Option.bind_eq_some_iff.mp h'
    obtain ⟨w₂, path⟩ := ans
    obtain ⟨hw₂, hobjects₂, hraw₂⟩ := hw₁.copyPath hL hans
    refine hw₂.reopen hL ?_ h'
    rw [slot_congr hobjects₂ hraw₂]
    exact hempty

theorem Accounted.moveAssign {other : Nat} {source : PartitionObject} (hw : Accounted L w)
    (hobj : w.objects o = some obj) (hsource : w.objects other = some source) (hne : o ≠ other)
    (hcloses : w.Closes ok obj.op) (h' : w.moveAssign o other obj source = some w') : Accounted L w' := by
  obtain ⟨w₁, hclose, h'⟩ := Option.bind_eq_some_iff.mp h'
  obtain ⟨hw₁, hobjects, _⟩ := hw.closeOp hL hobj (by rfl) hcloses hclose
  cases h'
  refine hw₁.move hL (slot_of_object (by rw [hobjects, Function.update_self])) ?_ (Ne.symm hne)
  rw [hobjects, Function.update_of_ne (Ne.symm hne)]
  exact hsource

theorem Accounted.destroy (hw : Accounted L w) (hobj : w.objects o = some obj) (hcloses : w.Closes ok obj.op)
    (h' : w.destroy o obj = some w') : Accounted L w' := by
  obtain ⟨w₁, hclose, h'⟩ := Option.bind_eq_some_iff.mp h'
  cases h'
  have hslot := slot_of_object hobj
  have hrest : ∀ v : World, v.objects = w.objects → ∀ p obj', Function.update v.objects o none p = some obj' →
      obj'.op ≠ .indeterminate := by
    intro v hv p obj' hp
    have hne : p ≠ o := by
      intro heq
      simp [heq] at hp
    rw [Function.update_of_ne hne, hv] at hp
    exact hw.determinate p obj' hp
  cases hptr : obj.op with
  | indeterminate => exact absurd hptr (hw.determinate o obj hobj)
  | null =>
    rw [hptr] at hclose hslot
    cases Option.some.inj hclose
    refine ⟨hrest w rfl, ?_, hL.congr w _ hw.ledger rfl rfl rfl rfl⟩
    rw [slot_remove]
    have hempty : w.slot (.object o) = none := hslot
    rw [← hempty, Function.update_eq_self]
    exact hw.exclusive
  | handle r =>
    rw [hptr] at hclose hslot
    obtain ⟨hd, hhd, rfl⟩ := Option.map_eq_some_iff.mp hclose
    have hledger := hL.free _ _ _ hw.ledger hhd (hcloses r hd hptr hhd)
    refine ⟨hrest _ free_objects, ?_, hL.congr (w.free r hd) _ hledger rfl rfl rfl rfl⟩
    rw [slot_remove]
    exact hw.exclusive_free hslot

theorem Accounted.set (hw : Accounted L w) (hobj : w.objects o = some obj) (hpass : w.mayPass obj op = true)
    (hcareful : obj.isLogical = true ∨ obj.op = .null ∨ obj.op = op) : Accounted L (w.set o obj op) := by
  unfold World.set
  split
  next => exact hw
  next hphysical =>
    have hslot := slot_of_object hobj
    rcases hcareful.resolve_left hphysical with hnull | hsame
    · rw [hnull] at hslot
      refine hw.adopt hL hslot ?_
      cases op with
      | null => exact Or.inl rfl
      | indeterminate => cases hpass
      | handle r => exact Or.inr ⟨r, rfl, by simpa [mayPass, hnull] using hpass⟩
    · -- the object keeps the handle it has, which the caller does not hold
      have hput : w.put o { obj with op := op } = w := by
        rw [← hsame]
        unfold World.put
        rw [← hobj, Function.update_eq_self]
      rw [hput]
      cases op with
      | null => exact hw
      | indeterminate => exact hw
      | handle r =>
        have hraw : w.raw r = false := by
          by_contra hheld
          have hfrom : w.slot (.raw r) = some r := by simp [slot, Bool.eq_true_of_not_eq_false hheld]
          rw [hsame] at hslot
          cases hw.exclusive.unique _ _ r hfrom hslot
        have hgive : w.give (.handle r) = w := by
          show { w with raw := Function.update w.raw r false } = w
          rw [← hraw, Function.update_eq_self]
        rw [hgive]
        exact hw

theorem Accounted.setOpenPart (hw : Accounted L w) (hobj : w.objects o = some obj) (hpass : w.mayPass obj op = true)
    (hcareful : obj.isLogical = true ∨ w.Closes ok obj.op ∧ (op = .null ∨ obj.op ≠ op))
    (h' : w.setOpenPart o obj op = some w') : Accounted L w' := by
  unfold World.setOpenPart at h'
  split at h'
  next =>
    cases h'
    exact hw
  next hphysical =>
    obtain ⟨hcloses, hother⟩ := hcareful.resolve_left hphysical
    obtain ⟨w₁, hclose, h'⟩ := Option.bind_eq_some_iff.mp h'
    obtain ⟨hw₁, hobjects, hraw⟩ := hw.closeOp hL hobj (by rfl) hcloses hclose
    cases h'
    refine hw₁.adopt hL (slot_of_object (by rw [hobjects, Function.update_self])) ?_
    cases op with
    | null => exact Or.inl rfl
    | indeterminate => cases hpass
    | handle r =>
      have hne := hother.resolve_left nofun
      rw [hraw]
      exact Or.inr ⟨r, rfl, by simpa [mayPass, hne] using hpass⟩

end

/-- Without a descriptor to be had, nothing is closed. -/
theorem Accounted.closeFdNow {info : Bool} (hw : Accounted L w)
    (hcareful : ∀ h hd, obj.op = .handle h → w.heap h = some hd → hd.info_loaded = false ∧ info = false)
    (h' : w.closeFdNow obj info = some w') : Accounted L w' := by
  unfold World.closeFdNow at h'
  split at h'
  next =>
    cases h'
    exact hw
  next => cases h'
  next r hr =>
    obtain ⟨ans, hans, h'⟩ := Option.bind_eq_some_iff.mp h'
    unfold World.loaded at hans
    split at hans
    next => cases hans
    next hd hhd =>
      obtain ⟨hunread, hinfo⟩ := hcareful r hd hr hhd
      rw [if_neg (by simp [hunread]), if_pos (by simp [hinfo])] at hans
      cases hans
      cases h'
      exact hw

/-- Passing one handle several times leaves it with the object. -/
theorem foldl_give {last : Option Nat} {ops : List (Option Nat)} (hops : ∀ op ∈ ops, op = none ∨ op = last) :
    ops.foldl (fun w op => w.give (.ofOption op)) (w.give (.ofOption last)) = w.give (.ofOption last) := by
  induction ops with
  | nil => rfl
  | cons op ops ih =>
    have hrest := ih fun op' hop' => hops op' (List.mem_cons_of_mem _ hop')
    rw [List.foldl_cons]
    rcases hops op List.mem_cons_self with rfl | rfl
    · exact hrest
    · have htwice : (w.give (.ofOption op)).give (.ofOption op) = w.give (.ofOption op) := by
        cases op with
        | none => rfl
        | some r => simp [give, Ptr.ofOption]
      rw [htwice]
      exact hrest

theorem foldl_give_of_mem {last : Option Nat} {ops : List (Option Nat)} (hops : ∀ op ∈ ops, op = none ∨ op = last)
    (hlast : last ∈ ops) :
    ops.foldl (fun w op => w.give (.ofOption op)) w = w.give (.ofOption last) := by
  induction ops with
  | nil => exact absurd hlast List.not_mem_nil
  | cons op ops ih =>
    have hrest : ∀ op' ∈ ops, op' = none ∨ op' = last := fun op' hop' => hops op' (List.mem_cons_of_mem _ hop')
    rw [List.foldl_cons]
    by_cases heq : op = last
    · rw [heq]
      exact foldl_give hrest
    · have hnone := (hops op List.mem_cons_self).resolve_right heq
      have hmem : last ∈ ops := by
        rcases List.mem_cons.mp hlast with h | h
        · exact absurd h.symm heq
        · exact h
      rw [hnone]
      exact ih hrest hmem

theorem foldl_ofOption {last : Option Nat} {ops : List (Option Nat)} (h : ops.getLast? = some last) (op : Ptr) :
    ops.foldl (fun _ op => Ptr.ofOption op) op = .ofOption last := by
  induction ops generalizing op with
  | nil => cases h
  | cons op' ops ih =>
    cases ops with
    | nil =>
      cases h
      rfl
    | cons op'' ops => exact ih (by simpa using h) (.ofOption op')

theorem Accounted.argsCtor {ops : List (Option Nat)} (hL : Ledger L ok) (hw : Accounted L w)
    (hx : w.vacant o = true) (hpass : ops.all (fun op => w.mayPass {} (.ofOption op)) = true)
    (hcareful : ∃ last, ops.getLast? = some last ∧ ∀ op ∈ ops, op = none ∨ op = last) :
    Accounted L (w.argsCtor o ops) := by
  obtain ⟨last, hlast, hops⟩ := hcareful
  have hmem := List.mem_of_getLast? hlast
  have hmay := List.all_eq_true.mp hpass last hmem
  unfold World.argsCtor
  rw [foldl_ofOption hlast, foldl_give_of_mem hops hmem]
  refine hw.adopt hL (slot_of_vacant hx) ?_
  cases last with
  | none => exact Or.inl rfl
  | some r => exact Or.inr ⟨r, rfl, by simpa [mayPass, Ptr.ofOption] using hmay⟩

theorem Accounted.moveCtor_step {other : Nat} (hL : Ledger L ok) (hw : Accounted L w)
    (h : w.step devs (.moveCtor o other) = some w') : Accounted L w' := by
  obtain ⟨src, hsrc, h⟩ := Option.bind_eq_some_iff.mp h
  obtain ⟨hx, h⟩ := Option.ite_none_right_eq_some.mp h
  cases h
  refine hw.move hL (slot_of_vacant hx) hsrc ?_
  intro heq
  rw [vacant, Option.isNone_iff_eq_none] at hx
  rw [heq, hx] at hsrc
  cases hsrc

theorem Accounted.setOpenPart_step {ptr : Option Nat} (hL : Ledger L ok) (hw : Accounted L w)
    (hcareful : w.Careful ok (.setOpenPart o ptr)) (h : w.step devs (.setOpenPart o ptr) = some w') :
    Accounted L w' := by
  obtain ⟨obj, hobj, h⟩ := Option.bind_eq_some_iff.mp h
  obtain ⟨hpass, h⟩ := Option.ite_none_right_eq_some.mp h
  refine hw.setOpenPart hL hobj hpass ?_ h
  rcases hcareful obj hobj with hlogical | ⟨hcloses, hother⟩
  · exact Or.inl hlogical
  · refine Or.inr ⟨hcloses, ?_⟩
    rcases hother with rfl | hne
    · exact Or.inl rfl
    · exact Or.inr hne

theorem Accounted.copyAssign_step {other : Nat} {info : Bool} {answer : OpenAnswer} (hL : Ledger L ok)
    (hw : Accounted L w) (hcareful : w.Careful ok (.copyAssign o other info answer))
    (h : w.step devs (.copyAssign o other info answer) = some w') : Accounted L w' := by
  obtain ⟨obj, hobj, h⟩ := Option.bind_eq_some_iff.mp h
  obtain ⟨src, _, h⟩ := Option.bind_eq_some_iff.mp h
  split at h
  next =>
    cases h
    exact hw
  next hne => exact hw.copyAssign hL hobj (hcareful hne obj hobj) h

theorem Accounted.moveAssign_step {other : Nat} (hL : Ledger L ok) (hw : Accounted L w)
    (hcareful : w.Careful ok (.moveAssign o other)) (h : w.step devs (.moveAssign o other) = some w') :
    Accounted L w' := by
  obtain ⟨obj, hobj, h⟩ := Option.bind_eq_some_iff.mp h
  obtain ⟨src, hsrc, h⟩ := Option.bind_eq_some_iff.mp h
  split at h
  next =>
    cases h
    exact hw
  next hne => exact hw.moveAssign hL hobj hsrc hne (hcareful hne obj hobj) h

/-- A careful call keeps the accounts. -/
theorem Accounted.step {c : HandleCall} (hL : Ledger L ok) (hw : Accounted L w) (hcareful : w.Careful ok c)
    (h : w.step devs c = some w') : Accounted L w' := by
  cases c with
  | openRaw path flags extra_oflags answer => exact hw.openRaw hL h
  | closeRaw r => exact hw.closeRaw hL hcareful h
  | defaultCtor o =>
    obtain ⟨hx, h⟩ := Option.ite_none_right_eq_some.mp h
    cases h
    exact hw.put_same hL (slot_of_vacant hx) nofun
  | copyCtor o other info answer =>
    obtain ⟨src, _, h⟩ := Option.bind_eq_some_iff.mp h
    obtain ⟨hx, h⟩ := Option.ite_none_right_eq_some.mp h
    exact hw.copyCtor hL hx h
  | moveCtor o other => exact hw.moveCtor_step hL h
  | argsCtor o ops =>
    obtain ⟨hx, h⟩ := Option.ite_none_right_eq_some.mp h
    cases h
    rw [Bool.and_eq_true, Bool.and_eq_true] at hx
    exact hw.argsCtor hL hx.1.1 hx.2 hcareful
  | dataCtor o ptr info answer =>
    obtain ⟨hx, h⟩ := Option.ite_none_right_eq_some.mp h
    rw [Bool.and_eq_true] at hx
    exact hw.dataCtor hL hx.1 h
  | pathCtor o path answer =>
    obtain ⟨hx, h⟩ := Option.ite_none_right_eq_some.mp h
    exact hw.construct hL (slot_of_vacant hx) h
  | AsLogicalPartition o path answer =>
    obtain ⟨obj, hobj, h⟩ := Option.bind_eq_some_iff.mp h
    exact hw.asLogical hL hobj (hcareful obj hobj) h
  | set o ptr =>
    obtain ⟨obj, hobj, h⟩ := Option.bind_eq_some_iff.mp h
    obtain ⟨hpass, h⟩ := Option.ite_none_right_eq_some.mp h
    cases h
    exact hw.set hL hobj hpass (hcareful obj hobj)
  | setOpenPart o ptr => exact hw.setOpenPart_step hL hcareful h
  | closeFdNow o info =>
    obtain ⟨obj, hobj, h⟩ := Option.bind_eq_some_iff.mp h
    exact hw.closeFdNow (fun r hd hr hhd => hcareful obj r hd hobj hr hhd) h
  | copyAssign o other info answer => exact hw.copyAssign_step hL hcareful h
  | moveAssign o other => exact hw.moveAssign_step hL hcareful h
  | destroy o =>
    obtain ⟨obj, hobj, h⟩ := Option.bind_eq_some_iff.mp h
    exact hw.destroy hL hobj (hcareful obj hobj) h

theorem accounted_empty : Accounted Balanced {} := by
  refine ⟨nofun, ⟨nofun, nofun, ?_⟩, ⟨⟨nofun, fun _ _ => rfl⟩, nofun, List.nodup_nil, ?_⟩⟩
  · intro r hr
    cases hr
  · intro owner
    refine iff_of_false List.not_mem_nil ?_
    intro h
    obtain ⟨r, _, hlt, _⟩ := h
    exact Nat.not_lt_zero r hlt

/-- In every run of careful calls each handle and its descriptor stay in one pair of
hands, and are released together and once. -/
theorem handles_released {ts : List (Run.Transition World HandleCall Unit)}
    (hrun : Run.IsRun (callStep devs) {} ts)
    (hcareful : ∀ s ∈ ts, s.before.Careful (fun hd => hd.fd ≠ 0) s.label) :
    ∀ s ∈ ts, Accounted Balanced s.after := by
  refine Run.after_of_careful ?_ accounted_empty hrun hcareful
  intro w c _ w' hw hstep hc
  obtain ⟨_, hcall, heq⟩ := Option.map_eq_some_iff.mp hstep
  cases heq
  exact hw.step balancedLedger hc hcall

/-- Device nodes that are no links, of 4096 bytes each. -/
def plainDevices : DeviceTree where
  realpath path := some path
  size _ := 4096
  sector_size _ := 512
  canonical _ _ _ := rfl

def moveCalls : List HandleCall :=
  [.openRaw "/dev/block/sda1" OP_RDWR 0 (.opened 5), .argsCtor 0 [some 0], .moveCtor 1 0, .destroy 1]

theorem handles_released_move : ∃ ts, Run.trace (callStep plainDevices) {} moveCalls = some ts ∧
    ∀ s ∈ ts, Accounted Balanced s.after := by
  refine ⟨_, rfl, @handles_released plainDevices _
    (Run.isRun_of_trace (show Run.trace (callStep plainDevices) {} moveCalls = some _ from rfl)) ?_⟩
  rw [List.forall_mem_cons, List.forall_mem_cons, List.forall_mem_cons, List.forall_mem_cons]
  refine ⟨trivial, ⟨some 0, rfl, by simp⟩, trivial, ?_, fun s hs => absurd hs List.not_mem_nil⟩
  intro obj hobj r hd hr hhd
  cases hobj
  cases hr
  cases hhd
  decide

/-- The number that `closeFdNow` gave back is taken by another object, and closed with the first. -/
theorem closeFdNow_closes_twice : ∃ ts, Run.trace (callStep plainDevices) {}
      [.pathCtor 0 "/dev/block/mapper/system" (.opened 5), .closeFdNow 0 true,
        .pathCtor 1 "/dev/block/mapper/vendor" (.opened 5), .destroy 0] = some ts ∧
    ∃ s ∈ ts, s.after.closes = [(5, some 1), (5, some 0)] ∧
      s.after.objects 1 = some ⟨true, "/dev/block/mapper/vendor", .handle 1⟩ ∧
      (s.after.heap 1).map OpenPartT.fd = some 5 ∧ s.after.table 5 = none ∧ ¬ Accounted Balanced s.after := by
  refine ⟨_, rfl, _, List.mem_of_getLast? rfl, rfl, rfl, rfl, rfl, ?_⟩
  intro h
  obtain ⟨file, hfile⟩ := h.ledger.table 1 _ rfl
  cases hfile

end World

end PartitionManager
