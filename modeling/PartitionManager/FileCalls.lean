import Mathlib.Data.List.TakeWhile
import PartitionManager.Basic
import PartitionManager.Library.FileTree

namespace PartitionManager

/-- `std::filesystem::path::c_str`, as a call reads it. -/
def path_c_str (path : Str) : Str := path.takeWhile (· ≠ '\x00')

/-- The file system, and how many calls have been made. -/
structure FileWorld where
  tree : FileTree
  calls : Nat

namespace FileWorld

def tick (w : FileWorld) : FileWorld := { w with calls := w.calls + 1 }

variable (fails : Nat → Bool)

/-- A call that changes nothing. -/
def ask {α : Type} (answer : FileTree → Option α) (w : FileWorld) : Option α × FileWorld :=
  (if fails w.calls then none else answer w.tree, w.tick)

/-- A call that changes the tree. -/
def change (result : FileTree → Option FileTree) (w : FileWorld) : Bool × FileWorld :=
  if fails w.calls then (false, w.tick)
  else
    match result w.tree with
    | none => (false, w.tick)
    | some tree => (true, { w.tick with tree := tree })

/-- Gives the names that `readdir` will list. -/
def opendir (path : Str) : FileWorld → Option (List Str) × FileWorld :=
  ask fails fun t => ((t.resolve path).filter fun p => t.Standing p).map fun p =>
    ".".toList :: "..".toList :: t.children p

def lstat (path : Str) : FileWorld → Option EntryKind × FileWorld := ask fails (·.entryKind path)

def access (path : Str) : FileWorld → Option EntryKind × FileWorld := ask fails (·.stat path)

def unlink (path : Str) : FileWorld → Bool × FileWorld := change fails (·.unlink path)

def rmdir (path : Str) : FileWorld → Bool × FileWorld := change fails (·.rmdir path)

/-- `remove` of the C library: `rmdir` after an `unlink` that says `EISDIR`. -/
def remove (path : Str) (w : FileWorld) : Bool × FileWorld :=
  if fails w.calls = false ∧ (w.tree.locate path).bind w.tree.kind = some .directory then rmdir fails path w.tick
  else unlink fails path w

/-- With the `errno` that is left behind. -/
def mkdir (path : Str) (w : FileWorld) : Except Errno Unit × FileWorld :=
  let r := change fails (·.mkdir path) w
  if r.1 then (.ok (), r.2)
  else (.error (if fails w.calls then EACCES else if w.tree.isTaken path then EEXIST else ENOENT), r.2)

variable {fails}

theorem change_cases {result : FileTree → Option FileTree} {w w' : FileWorld} {ok : Bool}
    (h : change fails result w = (ok, w')) :
    (ok = false ∧ w'.tree = w.tree) ∨ (ok = true ∧ result w.tree = some w'.tree) := by
  unfold change at h
  split at h
  next =>
    cases h
    exact Or.inl ⟨rfl, rfl⟩
  next =>
    cases hresult : result w.tree with
    | none =>
      rw [hresult] at h
      cases h
      exact Or.inl ⟨rfl, rfl⟩
    | some tree =>
      rw [hresult] at h
      cases h
      exact Or.inr ⟨rfl, rfl⟩

variable {path : Str} {p : Place} {w w' : FileWorld} {ok : Bool}

theorem ask_eq_some {α : Type} {answer : FileTree → Option α} {a : α} (h : ask fails answer w = (some a, w')) :
    w'.tree = w.tree ∧ answer w.tree = some a := by
  unfold ask at h
  rw [Prod.mk.injEq] at h
  obtain ⟨hanswer, rfl⟩ := h
  split at hanswer
  next => cases hanswer
  next => exact ⟨rfl, hanswer⟩

theorem change_tree {result : FileTree → Option FileTree} (h : change fails result w = (ok, w')) :
    w'.tree = w.tree ∨ result w.tree = some w'.tree :=
  (change_cases h).imp And.right And.right

/-- An entry that is taken away is the one of the path. -/
theorem unlink_removed (h : w.unlink fails path = (ok, w')) (hp : w.tree.locate path = some p) :
    w.tree.RemovedBelow p w'.tree := by
  rcases change_tree h with hsame | hunlink
  · rw [hsame]
    exact .refl p _
  · obtain ⟨q, hq, hremoved⟩ := FileTree.unlink_removes hunlink
    rw [hp] at hq
    rwa [Option.some.inj hq]

theorem rmdir_removed (h : w.rmdir fails path = (ok, w')) (hp : w.tree.locate path = some p) :
    w.tree.RemovedBelow p w'.tree := by
  rcases change_tree h with hsame | hrmdir
  · rw [hsame]
    exact .refl p _
  · obtain ⟨q, hq, _, hremoved, _⟩ := FileTree.rmdir_removes hrmdir
    rw [hp] at hq
    rwa [Option.some.inj hq]

theorem remove_removed (h : w.remove fails path = (ok, w')) (hp : w.tree.locate path = some p) :
    w.tree.RemovedBelow p w'.tree := by
  unfold remove at h
  split at h
  next => exact rmdir_removed (w := w.tick) h hp
  next => exact unlink_removed h hp

end FileWorld

end PartitionManager
