import PartitionManager.Library.Resources
import PartitionManager.Library.Run
import PartitionManager.OpenPart

namespace PartitionManager

/-- `BasicUniqueFP`. A `none` stands for `nullptr`, also for the data of a view that views nothing. -/
structure UniqueFP where
  fp_ : Option Nat := none
  flags_ : Option Str := none
  path_ : Str := []
  flushOnClose : Bool := true
  deriving DecidableEq

/-- The calls that are made on a stream, besides `fclose`. -/
inductive FpUse where
  | fileno
  | fflush
  deriving DecidableEq

/-- The arguments of `fopen`. -/
structure FpOpen where
  path : Str
  flags : Str
  deriving DecidableEq

/-- The streams of the process and its `BasicUniqueFP` objects. -/
abbrev FpWorld := Resources.World Nat UniqueFP FpOpen FpUse

/-- What the constructor for an existing stream finds out about its descriptor. -/
structure FpInfo where
  flags : Option UInt32
  link : Option Str

/-- The members of `BasicUniqueFP`, called for an object, and what the code around the
objects does with its own streams. The answer of `fopen` is the address it returns. -/
inductive FpOp where
  | openRaw (path flags : Str) (answer : Option Nat)
  | closeRaw (fp : Nat)
  | defaultCtor (x : Nat)
  | pathCtor (x : Nat) (path flags : Str) (answer : Option Nat)
  | fpCtor (x : Nat) (fp : Option Nat) (info : FpInfo)
  | getOwnership (x : Nat) (fp : Option Nat) (info : FpInfo)
  | moveCtor (x other : Nat)
  | open_ (x : Nat) (path flags : Str) (answer : Option Nat)
  | reOpen (x : Nat) (answer : Option Nat)
  | close (x : Nat)
  | moveAssign (x other : Nat)
  | setFlushOnClose (x : Nat) (value : Bool)
  | destroy (x : Nat)

def O_APPEND : UInt32 := 0x400

/-- `get_flags` of a stream, from the answer of `fcntl`. -/
def get_flags : Option UInt32 → Option Str
  | none => none
  | some flags =>
    let acc := flags &&& O_ACCMODE
    if flags &&& O_APPEND ≠ 0 then some (if acc = O_RDWR then "a+" else "a")
    else if acc = O_RDONLY then some "r"
    else if acc = O_WRONLY then some "w"
    else if acc = O_RDWR then some "r+"
    else none

/-- Any address that is not in use may be given out. -/
def anyAddress (_ : Nat) : Bool := true

namespace FpWorld

variable (w : FpWorld)

def fopen (path flags : Str) (answer : Option Nat) : Option (FpWorld × Option Nat) :=
  w.acquire anyAddress ⟨path, flags⟩ answer

/-- `Closer::close`. -/
def closer : Option Nat → FpWorld
  | none => w
  | some fp => w.release fp

def flush : Option Nat → FpWorld
  | none => w
  | some fp => w.use .fflush fp

/-- The stream is closed first and flushed then. -/
def letGo (obj : UniqueFP) : FpWorld :=
  if obj.fp_ ≠ none ∧ obj.flushOnClose = true then flush (closer w obj.fp_) obj.fp_ else closer w obj.fp_

def close (x : Nat) (obj : UniqueFP) : FpWorld := (letGo w obj).put x { obj with fp_ := none }

def destroy (x : Nat) (obj : UniqueFP) : FpWorld := (closer w obj.fp_).set x none

def open_ (x : Nat) (obj : UniqueFP) (path flags : Str) (answer : Option Nat) : Option FpWorld :=
  if obj.fp_ = none then some w
  else do
    let (w, fp) ← fopen w path flags answer
    some (w.put x { obj with path_ := path, flags_ := some flags, fp_ := fp })

/-- There is no defined result for an object without flags. -/
def reOpen (x : Nat) (obj : UniqueFP) (answer : Option Nat) : Option FpWorld := do
  let flags ← obj.flags_
  let (w, fp) ← fopen (close w x obj) obj.path_ flags answer
  some (w.put x { obj with fp_ := fp })

def pathCtor (x : Nat) (path flags : Str) (answer : Option Nat) : Option FpWorld := do
  let (w, fp) ← fopen w path flags answer
  some (w.put x { fp_ := fp, flags_ := some flags, path_ := path })

/-- The object takes over a stream, of which the code around it lets go. -/
def fpCtor (x : Nat) (fp : Option Nat) (info : FpInfo) : FpWorld :=
  match fp with
  | none => w.put x {}
  | some fp => (((w.use .fileno fp).use .fileno fp).give fp).put x
      { fp_ := some fp, flags_ := get_flags info.flags, path_ := info.link.getD [] }

def getOwnership (x : Nat) (fp : Option Nat) (info : FpInfo) : FpWorld := fpCtor w x fp info

def moveCtor (x other : Nat) (source : UniqueFP) : FpWorld :=
  (w.put x { fp_ := source.fp_, flags_ := source.flags_, path_ := source.path_ }).put other { source with fp_ := none }

def moveAssign (x other : Nat) (obj source : UniqueFP) : FpWorld :=
  if x = other then w
  else ((close w x obj).put x { obj with
      fp_ := source.fp_, flags_ := source.flags_, path_ := source.path_ }).put other
    { source with fp_ := none, path_ := [] }

/-- A member is called for an object that there is, a constructor for one that there is not yet. -/
def step : FpOp → Option FpWorld
  | .openRaw path flags answer => w.acquireRaw anyAddress ⟨path, flags⟩ answer
  | .closeRaw fp => w.releaseRaw fp
  | .defaultCtor x => if w.vacant x then some (w.put x {}) else none
  | .pathCtor x path flags answer => if w.vacant x then pathCtor w x path flags answer else none
  | .fpCtor x fp info => if w.vacant x then some (fpCtor w x fp info) else none
  | .getOwnership x fp info => if w.vacant x then some (getOwnership w x fp info) else none
  | .moveCtor x other => do
    let source ← w.objects other
    if w.vacant x then some (moveCtor w x other source) else none
  | .open_ x path flags answer => do
    let obj ← w.objects x
    open_ w x obj path flags answer
  | .reOpen x answer => do
    let obj ← w.objects x
    reOpen w x obj answer
  | .close x => do
    let obj ← w.objects x
    some (close w x obj)
  | .moveAssign x other => do
    let obj ← w.objects x
    let source ← w.objects other
    some (moveAssign w x other obj source)
  | .setFlushOnClose x value => do
    let obj ← w.objects x
    some (w.put x { obj with flushOnClose := value })
  | .destroy x => do
    let obj ← w.objects x
    some (destroy w x obj)

end FpWorld

def fpStep (w : FpWorld) (op : FpOp) : Option (FpWorld × Unit) := (FpWorld.step w op).map fun w' => (w', ())

end PartitionManager
