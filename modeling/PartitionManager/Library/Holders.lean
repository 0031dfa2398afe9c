import Mathlib.Data.List.Nodup
import PartitionManager.Library.Owned

/-! Objects that hold names of resources, names that are given out again after a
release, and a record of which resource was released when. -/

namespace Holders

/-- Who may hold a name: an object, or the code around the objects. -/
inductive Place (X N : Type) where
  | object (x : X)
  | raw (n : N)
  deriving DecidableEq

section

variable {X N O : Type} {held : O → Option N} {objects : X → Option O} {raw : N → Bool} {x : X} {n : N}

def slot (held : O → Option N) (objects : X → Option O) (raw : N → Bool) : Place X N → Option N
  | .object x => (objects x).bind held
  | .raw n => if raw n then some n else none

theorem slot_raw_eq_some {m : N} : slot held objects raw (.raw m) = some n ↔ raw n = true ∧ m = n := by
  unfold slot
  dsimp only
  by_cases hm : raw m = true
  · rw [if_pos hm]
    constructor
    · intro h
      cases h
      exact ⟨hm, rfl⟩
    · intro h
      rw [h.2]
  · rw [if_neg hm]
    constructor
    · intro h
      cases h
    · intro h
      exact absurd (h.2 ▸ h.1) hm

variable [DecidableEq X] [DecidableEq N]

theorem slot_object (obj : Option O) : slot held (Function.update objects x obj) raw =
    Function.update (slot held objects raw) (.object x) (obj.bind held) := by
  funext place
  cases place with
  | object y =>
    by_cases hy : y = x
    · subst y
      simp [slot]
    · simp [slot, hy]
  | raw m => simp [slot]

theorem slot_raw (b : Bool) : slot held objects (Function.update raw n b) =
    Function.update (slot held objects raw) (.raw n) (if b then some n else none) := by
  funext place
  cases place with
  | object y => simp [slot]
  | raw m =>
    by_cases hm : m = n
    · subst m
      simp [slot]
    · simp [slot, hm]

end

/-- Each name in use stands for one resource and is in one place, and every
resource is in use or has been released, once. `table` says what a name stands
for; resources are numbered in the order in which they were acquired. -/
structure Accounted {P N : Type} (slot : P → Option N) (table : N → Option Nat) (acquired : Nat)
    (released : List Nat) : Prop where
  exclusive : Owned.Exclusive slot fun n => table n ≠ none
  injective : ∀ n m r, table n = some r → table m = some r → n = m
  below : ∀ n r, table n = some r → r < acquired
  once : released.Nodup
  released_iff : ∀ r, r ∈ released ↔ r < acquired ∧ ∀ n, table n ≠ some r

section

variable {P N : Type} {slot : P → Option N} {table : N → Option Nat} {acquired : Nat} {released : List Nat}
  {p q : P} {n : N} {r : Nat}

theorem accounted_empty : Accounted (fun _ : P => (none : Option N)) (fun _ => none) 0 [] where
  exclusive := ⟨fun _ _ h => (Option.some_ne_none _ h.symm).elim, fun _ _ _ h => (Option.some_ne_none _ h.symm).elim,
    fun _ h => absurd rfl h⟩
  injective := fun _ _ _ h => (Option.some_ne_none _ h.symm).elim
  below := fun _ _ h => (Option.some_ne_none _ h.symm).elim
  once := List.nodup_nil
  released_iff := fun r => iff_of_false List.not_mem_nil fun h => Nat.not_lt_zero r h.1

/-- A name that some place holds stands for a resource. -/
theorem Accounted.exists_resource (h : Accounted slot table acquired released) (hp : slot p = some n) :
    ∃ r, table n = some r := Option.ne_none_iff_exists'.mp (h.exclusive.alive p n hp)

variable [DecidableEq P]

/-- What one place holds moves to an empty one. -/
theorem Accounted.transfer (h : Accounted slot table acquired released) (hq : slot q = none) (hpq : p ≠ q) :
    Accounted (Function.update (Function.update slot q (slot p)) p none) table acquired released :=
  ⟨h.exclusive.transfer hq hpq, h.injective, h.below, h.once, h.released_iff⟩

variable [DecidableEq N]

/-- A free name is given out for a new resource. -/
theorem Accounted.acquire (h : Accounted slot table acquired released) (hp : slot p = none) (hn : table n = none) :
    Accounted (Function.update slot p (some n)) (Function.update table n (some acquired)) (acquired + 1) released := by
  have htable : ∀ m r, Function.update table n (some acquired) m = some r ↔
      (m = n ∧ r = acquired) ∨ (m ≠ n ∧ table m = some r) := by
    intro m r
    by_cases hm : m = n
    · subst m
      simp [eq_comm]
    · simp [hm]
  refine ⟨(h.exclusive.acquire hp (not_not.mpr hn)).of_iff ?_, ?_, ?_, h.once, ?_⟩
  · intro m
    by_cases hm : m = n
    · simp [hm]
    · simp [hm]
  · intro m m' r hm hm'
    rcases (htable m r).mp hm with ⟨rfl, rfl⟩ | ⟨_, hold⟩
    · rcases (htable m' _).mp hm' with ⟨rfl, _⟩ | ⟨_, hold'⟩
      · rfl
      · exact absurd (h.below m' _ hold') (Nat.lt_irrefl _)
    · rcases (htable m' r).mp hm' with ⟨_, rfl⟩ | ⟨_, hold'⟩
      · exact absurd (h.below m _ hold) (Nat.lt_irrefl _)
      · exact h.injective m m' r hold hold'
  · intro m r hm
    rcases (htable m r).mp hm with ⟨_, rfl⟩ | ⟨_, hold⟩
    · exact Nat.lt_succ_self _
    · exact Nat.lt_succ_of_lt (h.below m r hold)
  · intro r
    rw [h.released_iff]
    constructor
    · intro hr
      refine ⟨Nat.lt_succ_of_lt hr.1, ?_⟩
      intro m hm
      rcases (htable m r).mp hm with ⟨_, rfl⟩ | ⟨_, hold⟩
      · exact Nat.lt_irrefl _ hr.1
      · exact hr.2 m hold
    · intro hr
      have hne : r ≠ acquired := by
        intro heq
        exact hr.2 n ((htable n r).mpr (Or.inl ⟨rfl, heq⟩))
      refine ⟨by omega, ?_⟩
      intro m hold
      have hm : m ≠ n := by
        intro heq
        rw [heq, hn] at hold
        cases hold
      exact hr.2 m ((htable m r).mpr (Or.inr ⟨hm, hold⟩))

/-- The resource behind the name that a place holds is released, and the name is free again. -/
theorem Accounted.release (h : Accounted slot table acquired released) (hp : slot p = some n)
    (hn : table n = some r) :
    Accounted (Function.update slot p none) (Function.update table n none) acquired (released ++ [r]) := by
  have htable : ∀ m s, Function.update table n none m = some s ↔ m ≠ n ∧ table m = some s := by
    intro m s
    by_cases hm : m = n
    · subst m
      simp
    · simp [hm]
  refine ⟨(h.exclusive.release hp).of_iff ?_, ?_, ?_, ?_, ?_⟩
  · intro m
    by_cases hm : m = n
    · simp [hm]
    · simp [hm]
  · intro m m' s hm hm'
    exact h.injective m m' s ((htable m s).mp hm).2 ((htable m' s).mp hm').2
  · intro m s hm
    exact h.below m s ((htable m s).mp hm).2
  · refine List.nodup_append.mpr ⟨h.once, List.nodup_singleton r, ?_⟩
    intro s hs s' hs' heq
    rw [heq, List.mem_singleton.mp hs'] at hs
    exact ((h.released_iff r).mp hs).2 n hn
  · intro s
    rw [List.mem_append, List.mem_singleton, h.released_iff]
    constructor
    · intro hs
      rcases hs with hold | rfl
      · exact ⟨hold.1, fun m hm => hold.2 m ((htable m s).mp hm).2⟩
      · refine ⟨h.below n s hn, ?_⟩
        intro m hm
        obtain ⟨hne, hold⟩ := (htable m s).mp hm
        exact hne (h.injective m n s hold hn)
    · intro hs
      by_cases heq : s = r
      · exact Or.inr heq
      · refine Or.inl ⟨hs.1, ?_⟩
        intro m hold
        have hm : m ≠ n := by
          intro hmn
          rw [hmn, hn] at hold
          exact heq (Option.some.inj hold).symm
        exact hs.2 m ((htable m s).mpr ⟨hm, hold⟩)

end

section

variable {X N O : Type} {held : O → Option N} {objects : X → Option O} {raw : N → Bool} {table : N → Option Nat}
  {acquired : Nat} {released : List Nat} {x y : X} {n : N} {r : Nat} {obj taker rest : Option O}

/-- Two objects hold two names. -/
theorem Accounted.ne_of_ne {a b : O} {m : N} (h : Accounted (slot held objects raw) table acquired released)
    (hx : objects x = some a) (hy : objects y = some b) (hxy : x ≠ y) (ha : held a = some n) (hb : held b = some m) :
    n ≠ m := by
  intro heq
  subst heq
  have hplaces := h.exclusive.unique (.object x) (.object y) n (by simp [slot, hx, ha]) (by simp [slot, hy, hb])
  exact hxy (Place.object.inj hplaces)

/-- A name in use that no object holds is with the code around the objects. -/
theorem Accounted.raw_of_unheld (h : Accounted (slot held objects raw) table acquired released) (hn : table n = some r)
    (hfree : ∀ y obj, objects y = some obj → held obj ≠ some n) : raw n = true := by
  obtain ⟨place, hplace⟩ := h.exclusive.kept n (by rw [hn]; exact Option.some_ne_none r)
  cases place with
  | object y =>
    obtain ⟨obj, hobj, hheld⟩ := Option.bind_eq_some_iff.mp hplace
    exact absurd hheld (hfree y obj hobj)
  | raw m => exact (slot_raw_eq_some.mp hplace).1

variable [DecidableEq X] [DecidableEq N]

/-- An object may change in all but the name it holds. -/
theorem Accounted.replace (h : Accounted (slot held objects raw) table acquired released)
    (hsame : obj.bind held = (objects x).bind held) :
    Accounted (slot held (Function.update objects x obj) raw) table acquired released := by
  have hslot : slot held (Function.update objects x obj) raw = slot held objects raw := by
    rw [slot_object, hsame]
    exact Function.update_eq_self (Place.object x) (slot held objects raw)
  rw [hslot]
  exact h

theorem Accounted.fill (h : Accounted (slot held objects raw) table acquired released)
    (hx : (objects x).bind held = none) (hn : table n = none) (hobj : obj.bind held = some n) :
    Accounted (slot held (Function.update objects x obj) raw) (Function.update table n (some acquired))
      (acquired + 1) released := by
  rw [slot_object, hobj]
  exact h.acquire hx hn

theorem Accounted.empty (h : Accounted (slot held objects raw) table acquired released)
    (hx : (objects x).bind held = some n) (hn : table n = some r) (hobj : obj.bind held = none) :
    Accounted (slot held (Function.update objects x obj) raw) (Function.update table n none) acquired
      (released ++ [r]) := by
  rw [slot_object, hobj]
  exact h.release hx hn

/-- One object takes over what another one held. -/
theorem Accounted.move (h : Accounted (slot held objects raw) table acquired released)
    (hx : (objects x).bind held = none) (hxy : y ≠ x) (htaker : taker.bind held = (objects y).bind held)
    (hrest : rest.bind held = none) :
    Accounted (slot held (Function.update (Function.update objects x taker) y rest) raw) table acquired released := by
  have hplaces : (Place.object y : Place X N) ≠ .object x := by
    intro heq
    exact hxy (Place.object.inj heq)
  rw [slot_object, slot_object, htaker, hrest]
  have hempty : slot held objects raw (.object x) = none := hx
  exact h.transfer hempty hplaces

/-- An object takes over a name that the code around the objects held. -/
theorem Accounted.adopt (h : Accounted (slot held objects raw) table acquired released)
    (hx : (objects x).bind held = none) (hn : raw n = true) (hobj : obj.bind held = some n) :
    Accounted (slot held (Function.update objects x obj) (Function.update raw n false)) table acquired released := by
  have hplaces : (Place.raw n : Place X N) ≠ .object x := by
    intro heq
    cases heq
  have hfrom : slot held objects raw (.raw n) = some n := slot_raw_eq_some.mpr ⟨hn, rfl⟩
  have hempty : slot held objects raw (.object x) = none := hx
  have hmove := h.transfer hempty hplaces
  rw [hfrom, ← hobj, ← slot_object] at hmove
  rw [slot_raw]
  exact hmove

theorem Accounted.acquireRaw (h : Accounted (slot held objects raw) table acquired released) (hn : table n = none) :
    Accounted (slot held objects (Function.update raw n true)) (Function.update table n (some acquired))
      (acquired + 1) released := by
  have hempty : slot held objects raw (.raw n) = none := by
    cases hslot : slot held objects raw (.raw n) with
    | none => rfl
    | some m =>
      have hm : n = m := (slot_raw_eq_some.mp hslot).2
      exact absurd (hm ▸ hn) (h.exclusive.alive _ m hslot)
  rw [slot_raw]
  exact h.acquire hempty hn

theorem Accounted.releaseRaw (h : Accounted (slot held objects raw) table acquired released) (hraw : raw n = true)
    (hn : table n = some r) :
    Accounted (slot held objects (Function.update raw n false)) (Function.update table n none) acquired
      (released ++ [r]) := by
  have hfrom : slot held objects raw (.raw n) = some n := slot_raw_eq_some.mpr ⟨hraw, rfl⟩
  rw [slot_raw]
  exact h.release hfrom hn

end

end Holders
