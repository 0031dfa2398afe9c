import Mathlib.Algebra.Order.BigOperators.Group.List
import Mathlib.Algebra.Order.Ring.Nat
import PartitionManager.Library.Checks
import PartitionManager.Metadata
import PartitionManager.PartitionEquality

namespace PartitionManager

/-- What a `unique_ptr` to metadata owns: the object, and the address it compares by. -/
structure OwnedMetadata where
  address : Nat
  metadata : LpMetadata
  deriving DecidableEq

/-- `DynamicTableData` as an object. -/
structure DynamicStore where
  localPartitions : List Partition
  lpMetadata : Option OwnedMetadata
  supported : Bool
  deriving DecidableEq

/-- `new`: an address that is not in use. -/
structure Allocator where
  address : List Nat → Nat
  fresh : ∀ live, address live ∉ live

namespace Partition

section

variable (fs : FileSystem) (openpart_open : Str → UInt32 → Option OpenPart)

def assigned (self other : Partition) : Outcome Partition :=
  let after := InPlace.run fs openpart_open self (.copyAssign other)
  after.2.map fun _ => after.1

/-- Copy assignment of a `std::vector`: elements that are there are assigned to if the
capacity suffices, and all are built anew if it does not. -/
def assignVector (capacity : Nat) (self other : List Partition) : Outcome (List Partition) :=
  if other.length ≤ capacity then do
    let assigned ← (self.zip other).mapM fun pair => assigned fs openpart_open pair.1 pair.2
    let built ← (other.drop self.length).mapM (copyCtor fs openpart_open)
    .ok (assigned ++ built)
  else other.mapM (copyCtor fs openpart_open)

/-- Each device is opened again, with the flags of either kind of copy. -/
def Reopens (ps : List Partition) : Prop :=
  ∀ p ∈ ps, ∀ op, p.op = some op → ∃ path, reopenPath p op = .ok path ∧
    (openpart_open path OP_RDWR).isSome = true ∧ (openpart_open path O_RDWR).isSome = true

end

/-- `operator==` of vectors. -/
def equalVectors : List Partition → List Partition → Bool
  | [], [] => true
  | p :: ps, q :: qs => p.operator_eq q && equalVectors ps qs
  | _, _ => false

/-- A partition apart from its handle. -/
def bare (p : Partition) : Partition := { p with op := none }

end Partition

namespace DynamicStore

section

variable (fs : FileSystem) (openpart_open : Str → UInt32 → Option OpenPart) (new : Allocator)
  (live : List Nat) (d : DynamicStore)

def isSupported : Bool := d.supported

/-- The store as the queries see it. -/
def table : DynamicTableData := ⟨d.localPartitions, d.lpMetadata.map OwnedMetadata.metadata, d.supported⟩

/-- Pointers are compared, not what they own. -/
def operator_eq (other : DynamicStore) : Bool :=
  Partition.equalVectors d.localPartitions other.localPartitions &&
    d.lpMetadata.map OwnedMetadata.address = other.lpMetadata.map OwnedMetadata.address

def addresses : List Nat := d.lpMetadata.toList.map OwnedMetadata.address

/-- `std::make_unique<LpMetadata>(*(other.lpMetadata))` -/
def copyMetadata (other : DynamicStore) : Outcome (Option OwnedMetadata) :=
  match other.lpMetadata with
  | none => .error (.undefined .nullDereference)
  | some owned => .ok (some ⟨new.address (other.addresses ++ live), owned.metadata⟩)

/-- The copy constructor: `supported` keeps its initializer. -/
def copyCtor (other : DynamicStore) : Outcome DynamicStore := do
  let localPartitions ← Partition.assignVector fs openpart_open 0 [] other.localPartitions
  let lpMetadata ← copyMetadata new live other
  .ok { localPartitions, lpMetadata, supported := false }

/-- Copy assignment between two distinct stores; of a store to itself it does nothing. -/
def copyAssign (capacity : Nat) (self other : DynamicStore) : Outcome DynamicStore := do
  let localPartitions ← Partition.assignVector fs openpart_open capacity self.localPartitions other.localPartitions
  let lpMetadata ← copyMetadata new (self.addresses ++ live) other
  .ok { self with localPartitions, lpMetadata }

/-- The move constructor: the new store, and what is left of the old one. -/
def moveCtor (other : DynamicStore) : DynamicStore × DynamicStore :=
  ({ localPartitions := other.localPartitions, lpMetadata := other.lpMetadata, supported := false },
   { other with localPartitions := [], lpMetadata := none })

/-- Move assignment between two distinct stores; of a store to itself it does nothing. -/
def moveAssign (self other : DynamicStore) : DynamicStore × DynamicStore :=
  ({ self with localPartitions := other.localPartitions, lpMetadata := other.lpMetadata },
   { other with localPartitions := [], lpMetadata := none })

end

/-- `e` is a copy of `d` that equals it. -/
structure Faithful (e d : DynamicStore) : Prop where
  equal : e.operator_eq d = true
  partitions : e.localPartitions.map Partition.bare = d.localPartitions.map Partition.bare
  metadata : e.table.lpMetadata = d.table.lpMetadata
  supported : e.isSupported = d.isSupported

/-- The copy is made, and it is faithful. -/
def Copied (result : Outcome DynamicStore) (d : DynamicStore) : Prop := ∃ e, result = .ok e ∧ Faithful e d

/-- `e` has taken over what `d` held. -/
structure Moved (e d : DynamicStore) : Prop where
  partitions : e.localPartitions = d.localPartitions
  metadata : e.lpMetadata = d.lpMetadata
  supported : e.isSupported = d.isSupported

/-- What a copy that is made keeps, and what it does not. -/
structure CopyOf (supported : Bool) (e d : DynamicStore) : Prop where
  partitions : e.localPartitions.map Partition.bare = d.localPartitions.map Partition.bare
  metadata : e.table.lpMetadata = d.table.lpMetadata
  supported : e.isSupported = supported
  unequal : e.operator_eq d = false

/-- How a copy of `d` ends. -/
structure CopyEnds (supported : Bool) (result : Outcome DynamicStore) (d : DynamicStore) : Prop where
  unfaithful : ¬ Copied result d
  made : (∃ e, result = .ok e) ↔ d.lpMetadata ≠ none
  keeps : ∀ e, result = .ok e → CopyOf supported e d

end DynamicStore

namespace Partition

variable {fs : FileSystem} {openpart_open : Str → UInt32 → Option OpenPart} {p q : Partition}

theorem bare_eq_iff : p.bare = q.bare ↔ ∃ op, p = { q with op := op } := by
  constructor
  · intro h
    refine ⟨p.op, ?_⟩
    have hfields := congrArg (fun r : Partition => { r with op := p.op }) h
    exact hfields
  · rintro ⟨op, rfl⟩
    rfl

theorem copyCtor_of_reopens {ps : List Partition} (hopen : Reopens openpart_open ps) (hp : p ∈ ps) :
    ∃ q, copyCtor fs openpart_open p = .ok q ∧ q.bare = p.bare := by
  cases hop : p.op with
  | none =>
    refine ⟨{ p with op := none }, ?_, rfl⟩
    unfold copyCtor
    rw [hop]
  | some op =>
    obtain ⟨path, hpath, hread, _⟩ := hopen p hp op hop
    obtain ⟨op', hop'⟩ := Option.isSome_iff_exists.mp hread
    refine ⟨{ p with op := some op' }, ?_, rfl⟩
    unfold copyCtor
    simp only [hop, hpath, hop', Checks.ok_bind]

theorem assigned_of_reopens {ps : List Partition} (hopen : Reopens openpart_open ps) (hp : p ∈ ps)
    (self : Partition) : ∃ q, assigned fs openpart_open self p = .ok q ∧ q.bare = p.bare := by
  have hassigned : assigned fs openpart_open self p = (InPlace.assign fs openpart_open self p).2.map
      fun _ => (InPlace.assign fs openpart_open self p).1 := rfl
  cases hop : p.op with
  | none =>
    refine ⟨{ p with op := none }, ?_, rfl⟩
    rw [hassigned]
    unfold InPlace.assign
    simp only [hop, Except.map]
  | some op =>
    obtain ⟨path, hpath, _, hwrite⟩ := hopen p hp op hop
    obtain ⟨op', hop'⟩ := Option.isSome_iff_exists.mp hwrite
    refine ⟨{ p with op := some op' }, ?_, rfl⟩
    rw [hassigned]
    unfold InPlace.assign
    simp only [hop, hpath, hop', Except.map]

/-- A loop that copies elements one by one copies the list. -/
theorem mapM_bare {α : Type} {f : α → Outcome Partition} {source : α → Partition} {xs : List α}
    (h : ∀ x ∈ xs, ∃ q, f x = .ok q ∧ q.bare = (source x).bare) :
    ∃ qs, xs.mapM f = .ok qs ∧ qs.map bare = (xs.map source).map bare := by
  induction xs with
  | nil => exact ⟨[], rfl, rfl⟩
  | cons x xs ih =>
    obtain ⟨q, hq, hbare⟩ := h x List.mem_cons_self
    obtain ⟨qs, hqs, hrest⟩ := ih fun y hy => h y (List.mem_cons_of_mem _ hy)
    refine ⟨q :: qs, ?_, ?_⟩
    · rw [List.mapM_cons, hq, Checks.ok_bind, hqs]
      rfl
    · rw [List.map_cons, List.map_cons, List.map_cons, hbare, hrest]

theorem snd_zip_append_drop (ps qs : List Partition) :
    (ps.zip qs).map Prod.snd ++ qs.drop ps.length = qs := by
  induction ps generalizing qs with
  | nil => rfl
  | cons p ps ih =>
    cases qs with
    | nil => rfl
    | cons q qs =>
      have htail := ih qs
      show q :: ((ps.zip qs).map Prod.snd ++ qs.drop ps.length) = q :: qs
      rw [htail]

theorem assignVector_of_reopens (fs : FileSystem) {ps : List Partition} (hopen : Reopens openpart_open ps)
    (capacity : Nat) (self : List Partition) :
    ∃ qs, assignVector fs openpart_open capacity self ps = .ok qs ∧ qs.map bare = ps.map bare := by
  unfold assignVector
  by_cases hfits : ps.length ≤ capacity
  · have hold : ∀ pair ∈ self.zip ps, ∃ q, assigned fs openpart_open pair.1 pair.2 = .ok q ∧
        q.bare = pair.2.bare := by
      intro pair hpair
      exact assigned_of_reopens hopen (List.of_mem_zip hpair).2 pair.1
    have hnew : ∀ p ∈ ps.drop self.length, ∃ q, copyCtor fs openpart_open p = .ok q ∧
        q.bare = (id p).bare := by
      intro p hp
      exact copyCtor_of_reopens hopen (List.mem_of_mem_drop hp)
    obtain ⟨qs, hqs, hbare⟩ := mapM_bare hold
    obtain ⟨rs, hrs, hrest⟩ := mapM_bare hnew
    refine ⟨qs ++ rs, ?_, ?_⟩
    · rw [if_pos hfits, hqs, Checks.ok_bind, hrs, Checks.ok_bind]
    · rw [List.map_append, hbare, hrest, List.map_id, ← List.map_append, snd_zip_append_drop]
  · have hnew : ∀ p ∈ ps, ∃ q, copyCtor fs openpart_open p = .ok q ∧ q.bare = (id p).bare :=
      fun p hp => copyCtor_of_reopens hopen hp
    obtain ⟨qs, hqs, hbare⟩ := mapM_bare hnew
    rw [if_neg hfits]
    exact ⟨qs, hqs, by rw [hbare, List.map_id]⟩

theorem equalVectors_of_bare {ps qs : List Partition} (h : ps.map bare = qs.map bare) :
    equalVectors ps qs = true := by
  induction ps generalizing qs with
  | nil =>
    rw [List.map_nil] at h
    rw [List.map_eq_nil_iff.mp h.symm]
    rfl
  | cons p ps ih =>
    cases qs with
    | nil => cases h
    | cons q qs =>
      obtain ⟨hhead, htail⟩ := List.cons.inj h
      obtain ⟨op, rfl⟩ := bare_eq_iff.mp hhead
      have hsame : ({ q with op := op } : Partition).operator_eq q = true := operator_eq_refl q
      show (_ && _) = true
      rw [hsame, ih htail, Bool.and_true]

end Partition

namespace DynamicStore

variable {fs : FileSystem} {openpart_open : Str → UInt32 → Option OpenPart} {new : Allocator} {live : List Nat}
  {d e : DynamicStore}

/-- The copied metadata lies at an address of its own. -/
theorem copyMetadata_spec (new : Allocator) (live : List Nat) {owned : OwnedMetadata} (h : d.lpMetadata = some owned) :
    ∃ copy, copyMetadata new live d = .ok (some copy) ∧ copy.metadata = owned.metadata ∧
      copy.address ≠ owned.address := by
  have hlive : owned.address ∈ d.addresses ++ live := by
    refine List.mem_append_left _ ?_
    unfold addresses
    rw [h]
    exact List.mem_singleton_self _
  refine ⟨⟨new.address (d.addresses ++ live), owned.metadata⟩, ?_, rfl, fun heq => ?_⟩
  · unfold copyMetadata
    rw [h]
  · rw [← heq] at hlive
    exact new.fresh _ hlive

/-- Without metadata there is no defined result; otherwise the copy is made, and it
does not equal its source. -/
theorem copyEnds (hopen : Partition.Reopens openpart_open d.localPartitions) (capacity : Nat)
    (ps : List Partition) (supported : Bool) {result : Outcome DynamicStore}
    (hresult : result = do
      let localPartitions ← Partition.assignVector fs openpart_open capacity ps d.localPartitions
      let lpMetadata ← copyMetadata new live d
      .ok { localPartitions, lpMetadata, supported }) : CopyEnds supported result d := by
  obtain ⟨qs, hqs, hbare⟩ := Partition.assignVector_of_reopens fs hopen capacity ps
  rw [hqs, Checks.ok_bind] at hresult
  cases hmetadata : d.lpMetadata with
  | none =>
    have hnull : result = .error (.undefined .nullDereference) := by
      rw [hresult]
      unfold copyMetadata
      rw [hmetadata]
      rfl
    subst hnull
    exact ⟨fun ⟨_, hok, _⟩ => (nomatch hok), iff_of_false (fun ⟨_, hok⟩ => (nomatch hok)) fun h => h hmetadata,
      fun _ hok => (nomatch hok)⟩
  | some owned =>
    obtain ⟨copy, hcopy, hsame, hne⟩ := copyMetadata_spec new live hmetadata
    have hmade : result = .ok ⟨qs, some copy, supported⟩ := by
      rw [hresult, hcopy]
      rfl
    have hcontents : (some copy).map OwnedMetadata.metadata = d.lpMetadata.map OwnedMetadata.metadata := by
      rw [hmetadata, Option.map_some, Option.map_some, hsame]
    have haddress : (some copy).map OwnedMetadata.address ≠ d.lpMetadata.map OwnedMetadata.address := by
      rw [hmetadata]
      exact fun heq => hne (Option.some.inj heq)
    have hunequal : operator_eq ⟨qs, some copy, supported⟩ d = false := by
      unfold operator_eq
      rw [decide_eq_false haddress, Bool.and_false]
    subst hmade
    refine ⟨fun ⟨e, hok, hfaithful⟩ => ?_, iff_of_true ⟨_, rfl⟩ ?_, fun e hok => ?_⟩
    · have hequal := hfaithful.equal
      rw [← Except.ok.inj hok, hunequal] at hequal
      cases hequal
    · rw [hmetadata]
      exact Option.some_ne_none owned
    · rw [← Except.ok.inj hok]
      exact ⟨hbare, hcontents, rfl, hunequal⟩

/-- No copy is faithful, whether its source has metadata or not; a move is, where the
one field that it leaves out agrees. -/
theorem dynamic_copies_unfaithful (self : DynamicStore)
    (hopen : Partition.Reopens openpart_open d.localPartitions) (capacity : Nat) :
    CopyEnds false (copyCtor fs openpart_open new live d) d ∧
      CopyEnds self.supported (copyAssign fs openpart_open new live capacity self d) d ∧
      (Moved (moveCtor d).1 d ↔ d.supported = false) ∧
      (Moved (moveAssign self d).1 d ↔ self.supported = d.supported) := by
  refine ⟨copyEnds hopen 0 [] false rfl, copyEnds hopen capacity self.localPartitions self.supported rfl, ?_, ?_⟩
  · exact ⟨fun h => h.supported.symm, fun h => ⟨rfl, rfl, h.symm⟩⟩
  · exact ⟨fun h => h.supported, fun h => ⟨rfl, rfl, h⟩⟩

/-- Addresses above all that are in use. -/
def bumpAllocator : Allocator where
  address live := live.sum + 1
  fresh live h := by
    have hle := List.le_sum_of_mem h
    omega

/-- What a device without `super` gives, and one with a logical partition. -/
def noSuper : DynamicStore := ⟨[], none, false⟩

def superStore : DynamicStore := ⟨[Partition.systemPartition], some ⟨1, superMetadata⟩, true⟩

def openAny (path : Str) (_flags : UInt32) : Option OpenPart := some ⟨path, 4096, true⟩

theorem super_copies : CopyEnds false (copyCtor bootFileSystem openAny bumpAllocator [] superStore) superStore ∧
    CopyEnds false (copyAssign bootFileSystem openAny bumpAllocator [] 0 noSuper superStore) superStore ∧
    (Moved (moveCtor superStore).1 superStore ↔ superStore.supported = false) ∧
    (Moved (moveAssign noSuper superStore).1 superStore ↔ noSuper.supported = superStore.supported) := by
  have hopen : Partition.Reopens openAny superStore.localPartitions := by
    intro p hp op _
    rw [List.mem_singleton.mp hp]
    exact ⟨"/dev/block/mapper/system", rfl, rfl, rfl⟩
  exact dynamic_copies_unfaithful noSuper hopen 0

/-- The store of a device without `super` cannot be copied; one with it loses its
support and equals no copy, and a move loses its support too. -/
theorem super_copies_fail :
    DynamicTableData.construct bootFileSystem none (fun _ => none) = .ok noSuper.table ∧
    copyCtor bootFileSystem openAny bumpAllocator [] noSuper = .error (.undefined .nullDereference) ∧
    copyAssign bootFileSystem openAny bumpAllocator [] 0 superStore noSuper = .error (.undefined .nullDereference) ∧
    (∃ e, copyCtor bootFileSystem openAny bumpAllocator [] superStore = .ok e ∧ e.operator_eq superStore = false ∧
      e.isSupported = false) ∧
    superStore.isSupported = true ∧ (moveCtor superStore).1.isSupported = false :=
  ⟨rfl, rfl, rfl, ⟨_, rfl, rfl, rfl⟩, rfl, rfl⟩

end DynamicStore

end PartitionManager
