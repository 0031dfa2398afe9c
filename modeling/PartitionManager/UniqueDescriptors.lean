import PartitionManager.Basic
import PartitionManager.Library.Resources
import PartitionManager.Library.Run

namespace PartitionManager

/-- `BasicUniqueFD`. -/
structure UniqueFD where
  fd_ : Int := -1
  flags_ : Int := 0
  mode_ : Option Nat := none
  path_ : Str := []
  syncOnClose : Bool := true
  deriving DecidableEq

/-- The calls that are made on a descriptor, besides `close`. -/
inductive FdUse where
  | fcntl
  | fstat
  | readlink
  | fsync
  deriving DecidableEq

/-- The arguments of `::open`. -/
structure FdOpen where
  path : Str
  flags : Int
  mode : Option Nat
  deriving DecidableEq

def validFd (fd : Int) : Bool := 0 ≤ fd

/-- The descriptors of the process and its `BasicUniqueFD` objects. -/
abbrev FdWorld := Resources.World Int UniqueFD FdOpen FdUse

/-- What the constructor for an existing descriptor finds out about it. -/
structure FdInfo where
  flags : Option Int
  mode : Option Nat
  link : Option Str

/-- The members of `BasicUniqueFD`, called for an object, and what the code around
the objects does with its own descriptors. The answer of `open` is the number it
returns, or none where it fails. -/
inductive FdOp where
  | openRaw (path : Str) (flags : Int) (mode : Option Nat) (answer : Option Int)
  | closeRaw (fd : Int)
  | defaultCtor (x : Nat)
  | pathCtor (x : Nat) (path : Str) (flags : Int) (answer : Option Int)
  | pathModeCtor (x : Nat) (path : Str) (flags : Int) (mode : Nat) (answer : Option Int)
  | fdCtor (x : Nat) (fd : Int) (info : FdInfo)
  | getOwnership (x : Nat) (fd : Int) (info : FdInfo)
  | moveCtor (x other : Nat)
  | openStored (x : Nat) (withMode : Bool) (answer : Option Int)
  | openPath (x : Nat) (path : Str) (flags : Int) (answer : Option Int)
  | openPathMode (x : Nat) (path : Str) (flags : Int) (mode : Nat) (answer : Option Int)
  | reOpen (x : Nat) (withMode : Bool) (answer : Option Int)
  | close (x : Nat)
  | moveAssign (x other : Nat)
  | setSyncOnClose (x : Nat) (value : Bool)
  | destroy (x : Nat)

namespace FdWorld

variable (w : FdWorld)

/-- `::open`. -/
def sysOpen (path : Str) (flags : Int) (mode : Option Nat) (answer : Option Int) : Option (FdWorld × Int) := do
  let (w, fd) ← w.acquire validFd ⟨path, flags, mode⟩ answer
  some (w, fd.getD (-1))

/-- `Closer::close`. A number is free after `::close`, whatever the call answers. -/
def closer (fd : Int) : FdWorld := if 0 ≤ fd then w.release fd else w

/-- What `close` and the destructor do with the descriptor. -/
def letGo (obj : UniqueFD) : FdWorld :=
  closer (if 0 ≤ obj.fd_ ∧ obj.syncOnClose = true then w.use .fsync obj.fd_ else w) obj.fd_

def close (x : Nat) (obj : UniqueFD) : FdWorld := (letGo w obj).put x { obj with fd_ := -1 }

def destroy (x : Nat) (obj : UniqueFD) : FdWorld := (letGo w obj).set x none

/-- Opening the stored path. The mode goes along only if it is asked for and there is one. -/
def openAgain (x : Nat) (obj : UniqueFD) (withMode : Bool) (answer : Option Int) : Option FdWorld := do
  let (w, fd) ← sysOpen w obj.path_ obj.flags_ (if withMode then obj.mode_ else none) answer
  some (w.put x { obj with fd_ := fd })

def openStored (x : Nat) (obj : UniqueFD) (withMode : Bool) (answer : Option Int) : Option FdWorld :=
  if obj.fd_ ≥ 0 then some w else openAgain w x obj withMode answer

def openPath (x : Nat) (obj : UniqueFD) (path : Str) (flags : Int) (answer : Option Int) : Option FdWorld :=
  if obj.fd_ ≥ 0 then some w
  else do
    let (w, fd) ← sysOpen w path flags none answer
    some (w.put x { obj with path_ := path, flags_ := flags, fd_ := fd })

def openPathMode (x : Nat) (obj : UniqueFD) (path : Str) (flags : Int) (mode : Nat) (answer : Option Int) :
    Option FdWorld :=
  if obj.fd_ ≥ 0 then some w
  else do
    let (w, fd) ← sysOpen w path flags (some mode) answer
    some (w.put x { obj with path_ := path, flags_ := flags, mode_ := some mode, fd_ := fd })

def reOpen (x : Nat) (obj : UniqueFD) (withMode : Bool) (answer : Option Int) : Option FdWorld :=
  openAgain (close w x obj) x obj withMode answer

def pathCtor (x : Nat) (path : Str) (flags : Int) (answer : Option Int) : Option FdWorld := do
  let (w, fd) ← sysOpen w path flags none answer
  some (w.put x { fd_ := fd, flags_ := flags, path_ := path })

def pathModeCtor (x : Nat) (path : Str) (flags : Int) (mode : Nat) (answer : Option Int) : Option FdWorld := do
  let (w, fd) ← sysOpen w path flags (some mode) answer
  some (w.put x { fd_ := fd, flags_ := flags, mode_ := some mode, path_ := path })

/-- The object takes over a descriptor, of which the code around it lets go. -/
def fdCtor (x : Nat) (fd : Int) (info : FdInfo) : FdWorld :=
  if fd < 0 then w.put x { fd_ := fd }
  else
    ((((w.use .fcntl fd).use .fstat fd).use .readlink fd).give fd).put x
      { fd_ := fd, flags_ := info.flags.getD 0, mode_ := info.mode, path_ := info.link.getD [] }

def getOwnership (x : Nat) (fd : Int) (info : FdInfo) : FdWorld := fdCtor w x fd info

def moveCtor (x other : Nat) (source : UniqueFD) : FdWorld :=
  (w.put x { fd_ := source.fd_, flags_ := source.flags_, mode_ := source.mode_, path_ := source.path_ }).put other
    { source with fd_ := -1 }

def moveAssign (x other : Nat) (obj source : UniqueFD) : FdWorld :=
  if x = other then w
  else ((close w x obj).put x { obj with
      fd_ := source.fd_, flags_ := source.flags_, mode_ := source.mode_, path_ := source.path_ }).put other
    { source with fd_ := -1, path_ := [] }

/-- A member is called for an object that there is, a constructor for one that there is not yet. -/
def step : FdOp → Option FdWorld
  | .openRaw path flags mode answer => w.acquireRaw validFd ⟨path, flags, mode⟩ answer
  | .closeRaw fd => w.releaseRaw fd
  | .defaultCtor x => if w.vacant x then some (w.put x {}) else none
  | .pathCtor x path flags answer => if w.vacant x then pathCtor w x path flags answer else none
  | .pathModeCtor x path flags mode answer =>
    if w.vacant x then pathModeCtor w x path flags mode answer else none
  | .fdCtor x fd info => if w.vacant x then some (fdCtor w x fd info) else none
  | .getOwnership x fd info => if w.vacant x then some (getOwnership w x fd info) else none
  | .moveCtor x other => do
    let source ← w.objects other
    if w.vacant x then some (moveCtor w x other source) else none
  | .openStored x withMode answer => do
    let obj ← w.objects x
    openStored w x obj withMode answer
  | .openPath x path flags answer => do
    let obj ← w.objects x
    openPath w x obj path flags answer
  | .openPathMode x path flags mode answer => do
    let obj ← w.objects x
    openPathMode w x obj path flags mode answer
  | .reOpen x withMode answer => do
    let obj ← w.objects x
    reOpen w x obj withMode answer
  | .close x => do
    let obj ← w.objects x
    some (close w x obj)
  | .moveAssign x other => do
    let obj ← w.objects x
    let source ← w.objects other
    some (moveAssign w x other obj source)
  | .setSyncOnClose x value => do
    let obj ← w.objects x
    some (w.put x { obj with syncOnClose := value })
  | .destroy x => do
    let obj ← w.objects x
    some (destroy w x obj)

end FdWorld

def fdStep (w : FdWorld) (op : FdOp) : Option (FdWorld × Unit) := (FdWorld.step w op).map fun w' => (w', ())

end PartitionManager
