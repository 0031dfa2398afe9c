import PartitionManager.Library.Holders

/-! A world of objects that acquire, use and release resources by name, with a log. -/

namespace Resources

open Holders (Place slot)

/-- What happens to resources. A use and a release are logged with the resource that
the name stood for, if it stood for any. -/
inductive Event (N A U : Type) where
  | acquire (args : A) (result : Option N)
  | use (call : U) (n : N) (resource : Option Nat)
  | release (n : N) (resource : Option Nat)
  deriving DecidableEq

/-- Resources are numbered in the order in which they were acquired. `table` says which
of them a name stands for, `events` has the last event last, and `raw` has the names
that are in the hands of the code around the objects. -/
structure World (N O A U : Type) where
  table : N → Option Nat := fun _ => none
  acquired : Nat := 0
  events : List (Event N A U) := []
  objects : Nat → Option O := fun _ => none
  raw : N → Bool := fun _ => false

variable {N O A U : Type}

/-- The resource that an event released. -/
def Event.released : Event N A U → Option Nat
  | .release _ resource => resource
  | _ => none

/-- The event was no use or release of a name that stood for nothing. -/
def Event.Hits : Event N A U → Prop
  | .acquire _ _ => True
  | .use _ _ resource => resource ≠ none
  | .release _ resource => resource ≠ none

namespace World

section

variable [DecidableEq N] (w : World N O A U)

def use (call : U) (n : N) : World N O A U := { w with events := w.events ++ [.use call n (w.table n)] }

def release (n : N) : World N O A U :=
  { w with
    table := Function.update w.table n none
    events := w.events ++ [.release n (w.table n)] }

/-- Any valid name that is free may be given out. -/
def acquire (valid : N → Bool) (args : A) : Option N → Option (World N O A U × Option N)
  | none => some ({ w with events := w.events ++ [.acquire args none] }, none)
  | some n =>
    if valid n && (w.table n).isNone then
      some ({ w with
        table := Function.update w.table n (some w.acquired)
        acquired := w.acquired + 1
        events := w.events ++ [.acquire args (some n)] }, some n)
    else none

def set (x : Nat) (obj : Option O) : World N O A U := { w with objects := Function.update w.objects x obj }

def put (x : Nat) (obj : O) : World N O A U := w.set x (some obj)

def vacant (x : Nat) : Bool := (w.objects x).isNone

/-- The code around the objects acquires a resource for itself. -/
def acquireRaw (valid : N → Bool) (args : A) (answer : Option N) : Option (World N O A U) := do
  let (w, n) ← w.acquire valid args answer
  some (match n with
    | none => w
    | some n => { w with raw := Function.update w.raw n true })

def releaseRaw (n : N) : Option (World N O A U) :=
  if w.raw n then some { w.release n with raw := Function.update w.raw n false } else none

/-- The code around the objects lets go of a name that an object takes over. -/
def give (n : N) : World N O A U := { w with raw := Function.update w.raw n false }

end

def released (w : World N O A U) : List Nat := w.events.filterMap Event.released

/-- Each name in use is in one place, each resource is in use or has been released, once,
and nothing was done with a name that stood for nothing. -/
structure Accounted (held : O → Option N) (valid : N → Bool) (w : World N O A U) : Prop where
  holders : Holders.Accounted (slot held w.objects w.raw) w.table w.acquired w.released
  valid : ∀ n, w.table n ≠ none → valid n = true
  hits : ∀ event ∈ w.events, event.Hits

/-- The name stands for a resource, and no object holds it. -/
def Unheld (held : O → Option N) (w : World N O A U) (n : N) : Prop :=
  w.table n ≠ none ∧ ∀ x obj, w.objects x = some obj → held obj ≠ some n

section

variable {held : O → Option N} {valid : N → Bool} {w w' : World N O A U} {x y : Nat} {n : N} {name answer : Option N}
  {obj : O} {args : A} {call : U} {r : Nat}

theorem accounted_empty : Accounted held valid ({} : World N O A U) where
  holders := by
    have hslot : slot held (fun _ : Nat => none) (fun _ => false) = fun _ => none := by
      funext place
      cases place <;> rfl
    show Holders.Accounted (slot held (fun _ : Nat => none) (fun _ => false)) (fun _ => none) 0 []
    rw [hslot]
    exact Holders.accounted_empty
  valid := fun _ h => absurd rfl h
  hits := fun _ h => absurd h List.not_mem_nil

theorem bind_held_of_vacant (h : w.vacant x = true) : (w.objects x).bind held = none := by
  rw [vacant, Option.isNone_iff_eq_none] at h
  rw [h]
  rfl

theorem bind_held_of_some (h : w.objects x = some obj) : (w.objects x).bind held = held obj := by
  rw [h]
  rfl

theorem ne_of_vacant (hx : w.vacant x = true) (hy : w.objects y = some obj) : y ≠ x := by
  intro heq
  rw [heq] at hy
  simp [vacant, hy] at hx

theorem hits_concat {events : List (Event N A U)} {last : Event N A U} (h : ∀ event ∈ events, event.Hits)
    (hlast : last.Hits) : ∀ event ∈ events ++ [last], event.Hits := by
  intro event hevent
  rcases List.mem_append.mp hevent with hold | hnew
  · exact h event hold
  · rw [List.mem_singleton.mp hnew]
    exact hlast

theorem released_concat {last : Event N A U} (h : w'.events = w.events ++ [last]) :
    w'.released = w.released ++ last.released.toList := by
  unfold released
  rw [h, List.filterMap_append]
  cases hlast : last.released <;> simp [hlast]

theorem Accounted.exists_resource (hw : Accounted held valid w) (hobj : w.objects x = some obj)
    (hn : held obj = some n) : ∃ r, w.table n = some r := by
  have hslot : slot held w.objects w.raw (.object x) = some n := (bind_held_of_some hobj).trans hn
  exact hw.holders.exists_resource hslot

/-- What is used stands for a resource. -/
theorem Accounted.use (hw : Accounted held valid w) (hn : w.table n = some r) :
    Accounted held valid (w.use call n) where
  holders := by
    have hevents : (w.use call n).events = w.events ++ [.use call n (w.table n)] := rfl
    have hreleased : (w.use call n).released = w.released := (released_concat hevents).trans (List.append_nil _)
    rw [hreleased]
    exact hw.holders
  valid := hw.valid
  hits := by
    refine hits_concat hw.hits ?_
    show w.table n ≠ none
    rw [hn]
    exact Option.some_ne_none r

/-- Once all is let go of, every resource has been released exactly once. -/
theorem Accounted.ended (hw : Accounted held valid w) (hobjects : ∀ x, w.objects x = none)
    (hraw : ∀ n, w.raw n = false) : ∀ r, r < w.acquired → w.released.count r = 1 := by
  intro r hr
  refine List.count_eq_one_of_mem hw.holders.once ((hw.holders.released_iff r).mpr ⟨hr, ?_⟩)
  intro n hn
  obtain ⟨place, hplace⟩ := hw.holders.exclusive.kept n (by rw [hn]; exact Option.some_ne_none r)
  cases place with
  | object x => simp [slot, hobjects x] at hplace
  | raw m => simp [slot, hraw m] at hplace

variable [DecidableEq N]

/-- Everything an acquisition can do. -/
theorem acquire_cases (h : w.acquire valid args answer = some (w', name)) :
    (name = none ∧ w' = { w with events := w.events ++ [.acquire args none] }) ∨
    ∃ n, name = some n ∧ valid n = true ∧ w.table n = none ∧ w' = { w with
      table := Function.update w.table n (some w.acquired)
      acquired := w.acquired + 1
      events := w.events ++ [.acquire args (some n)] } := by
  cases answer with
  | none =>
    cases h
    exact Or.inl ⟨rfl, rfl⟩
  | some n =>
    obtain ⟨hfree, h⟩ := Option.ite_none_right_eq_some.mp h
    cases h
    rw [Bool.and_eq_true, Option.isNone_iff_eq_none] at hfree
    exact Or.inr ⟨n, rfl, hfree.1, hfree.2, rfl⟩

theorem acquire_objects (h : w.acquire valid args answer = some (w', name)) :
    w'.objects = w.objects ∧ w'.raw = w.raw := by
  rcases acquire_cases h with ⟨_, rfl⟩ | ⟨_, _, _, _, rfl⟩
  · exact ⟨rfl, rfl⟩
  · exact ⟨rfl, rfl⟩

theorem acquire_events (h : w.acquire valid args answer = some (w', name)) :
    w'.events = w.events ++ [.acquire args name] := by
  rcases acquire_cases h with ⟨rfl, rfl⟩ | ⟨_, rfl, _, _, rfl⟩
  · rfl
  · rfl

theorem valid_update (hw : Accounted held valid w) (hn : valid n = true) {resource : Option Nat} :
    ∀ m, Function.update w.table n resource m ≠ none → valid m = true := by
  intro m hm
  by_cases hne : m = n
  · rw [hne]
    exact hn
  · rw [Function.update_of_ne hne] at hm
    exact hw.valid m hm

/-- An object without a resource takes what was acquired, if anything was. -/
theorem Accounted.acquireInto (hw : Accounted held valid w) (hx : (w.objects x).bind held = none)
    (h : w.acquire valid args answer = some (w', name)) (hobj : held obj = name) :
    Accounted held valid (w'.put x obj) := by
  have hevents := acquire_events h
  have hreleased : (w'.put x obj).released = w.released := (released_concat hevents).trans (List.append_nil _)
  have hhits : ∀ event ∈ w'.events, event.Hits := by
    rw [hevents]
    exact hits_concat hw.hits trivial
  rcases acquire_cases h with ⟨rfl, rfl⟩ | ⟨n, rfl, hvalid, hfree, rfl⟩
  · refine ⟨?_, hw.valid, hhits⟩
    rw [hreleased]
    exact hw.holders.replace (hobj.trans hx.symm)
  · refine ⟨?_, valid_update hw hvalid, hhits⟩
    rw [hreleased]
    exact hw.holders.fill hx hfree hobj

theorem Accounted.acquireRaw (hw : Accounted held valid w) (h : w.acquireRaw valid args answer = some w') :
    Accounted held valid w' := by
  obtain ⟨⟨w₁, name⟩, hacquire, h⟩ := Option.bind_eq_some_iff.mp h
  have hevents := acquire_events hacquire
  have hreleased : w₁.released = w.released := (released_concat hevents).trans (List.append_nil _)
  have hhits : ∀ event ∈ w₁.events, event.Hits := by
    rw [hevents]
    exact hits_concat hw.hits trivial
  rcases acquire_cases hacquire with ⟨rfl, rfl⟩ | ⟨n, rfl, hvalid, hfree, rfl⟩
  · cases h
    refine ⟨?_, hw.valid, hhits⟩
    rw [hreleased]
    exact hw.holders
  · cases h
    refine ⟨?_, valid_update hw hvalid, hhits⟩
    show Holders.Accounted _ _ _ (World.released _)
    exact hreleased ▸ hw.holders.acquireRaw hfree

theorem released_release (hr : w.table n = some r) : (w.release n).released = w.released ++ [r] := by
  have hevents : (w.release n).events = w.events ++ [.release n (w.table n)] := rfl
  rw [hr] at hevents
  exact released_concat hevents

theorem Accounted.valid_release (hw : Accounted held valid w) (hr : w.table n = some r) :
    ∀ m, (w.release n).table m ≠ none → valid m = true := by
  have hn : w.table n ≠ none := by
    rw [hr]
    exact Option.some_ne_none r
  exact valid_update hw (hw.valid n hn)

theorem Accounted.hits_release (hw : Accounted held valid w) (hr : w.table n = some r) :
    ∀ event ∈ (w.release n).events, event.Hits := by
  refine hits_concat hw.hits ?_
  show w.table n ≠ none
  rw [hr]
  exact Option.some_ne_none r

/-- What an object held is released with it, or emptied out of it. -/
theorem Accounted.releaseFrom {rest : Option O} (hw : Accounted held valid w) (hobj : w.objects x = some obj)
    (hn : held obj = some n) (hrest : rest.bind held = none) : Accounted held valid ((w.release n).set x rest) := by
  obtain ⟨r, hr⟩ := hw.exists_resource hobj hn
  have hreleased : ((w.release n).set x rest).released = w.released ++ [r] := released_release hr
  refine ⟨?_, hw.valid_release hr, hw.hits_release hr⟩
  rw [hreleased]
  exact hw.holders.empty ((bind_held_of_some hobj).trans hn) hr hrest

theorem Accounted.releaseRaw (hw : Accounted held valid w) (h : w.releaseRaw n = some w') :
    Accounted held valid w' := by
  obtain ⟨hraw, h⟩ := Option.ite_none_right_eq_some.mp h
  cases h
  obtain ⟨r, hr⟩ := hw.holders.exists_resource (Holders.slot_raw_eq_some.mpr ⟨hraw, rfl⟩)
  refine ⟨?_, hw.valid_release hr, hw.hits_release hr⟩
  exact released_release hr ▸ hw.holders.releaseRaw hraw hr

/-- An object may change in all but the name it holds. -/
theorem Accounted.put (hw : Accounted held valid w) (hsame : held obj = (w.objects x).bind held) :
    Accounted held valid (w.put x obj) :=
  ⟨hw.holders.replace hsame, hw.valid, hw.hits⟩

/-- An object without a resource takes that of another one. -/
theorem Accounted.move {taker source rest : O} (hw : Accounted held valid w) (hx : (w.objects x).bind held = none)
    (hy : w.objects y = some source) (hyx : y ≠ x) (htaker : held taker = held source) (hrest : held rest = none) :
    Accounted held valid ((w.put x taker).put y rest) := by
  have htook : held taker = (w.objects y).bind held := htaker.trans (bind_held_of_some hy).symm
  exact ⟨hw.holders.move hx hyx htook hrest, hw.valid, hw.hits⟩

/-- An object takes over what the code around it held. -/
theorem Accounted.adopt (hw : Accounted held valid w) (hx : (w.objects x).bind held = none)
    (hn : w.Unheld held n) (hobj : held obj = some n) : Accounted held valid ((w.give n).put x obj) := by
  obtain ⟨r, hr⟩ := Option.ne_none_iff_exists'.mp hn.1
  have hraw := hw.holders.raw_of_unheld hr hn.2
  exact ⟨hw.holders.adopt hx hraw hobj, hw.valid, hw.hits⟩

/-- Nothing has been released. -/
def Extends (before after : World N O A U) : Prop := ∀ n r, before.table n = some r → after.table n = some r

theorem Extends.acquire (h : w.acquire valid args answer = some (w', name)) : Extends w w' := by
  rcases acquire_cases h with ⟨_, rfl⟩ | ⟨n, _, _, hfree, rfl⟩
  · exact fun _ _ hm => hm
  · intro m r hm
    have hne : m ≠ n := by
      intro heq
      rw [heq, hfree] at hm
      cases hm
    exact (Function.update_of_ne hne _ _).trans hm

/-- What an object holds outlasts a release by the code around it. -/
theorem Accounted.releaseRaw_other {other : O} {m : N} (hw : Accounted held valid w)
    (h : w.releaseRaw n = some w') (hother : w.objects y = some other) (hm : held other = some m) :
    w'.table m = w.table m := by
  obtain ⟨hraw, h⟩ := Option.ite_none_right_eq_some.mp h
  cases h
  have hne : m ≠ n := by
    intro heq
    have hobject : slot held w.objects w.raw (.object y) = some n := by
      rw [← heq]
      exact (bind_held_of_some hother).trans hm
    have hplaces := hw.holders.exclusive.unique _ _ n hobject (Holders.slot_raw_eq_some.mpr ⟨hraw, rfl⟩)
    cases hplaces
  exact Function.update_of_ne hne _ _

end

end World

end Resources
