import PartitionManager.PartitionObjects
import PartitionManager.StoreSync

namespace PartitionManager

namespace Partition

/-- Objects that the constructors, copies, moves and conversions make. Each handle is
asked for on its own, so the system may answer differently every time. -/
inductive Reachable (fs : FileSystem) : Partition → Prop
  | default : Reachable fs empty
  | normal (index : Nat) (part : GPTPart) (path : Str) (op : Option OpenPart) :
    Reachable fs (ofArgs [.index index, .part part, .path path, .op op])
  | logical {openpart_open : Str → UInt32 → Option OpenPart} {path : Str} {p : Partition}
    (h : ofPath fs openpart_open path = .ok p) : Reachable fs p
  | copied {openpart_open : Str → UInt32 → Option OpenPart} {p q : Partition} (hp : Reachable fs p)
    (h : copyCtor fs openpart_open p = .ok q) : Reachable fs q
  | moved {p : Partition} (hp : Reachable fs p) : Reachable fs (moveCtor p).1
  | movedFrom {p : Partition} (hp : Reachable fs p) : Reachable fs (moveCtor p).2
  | converted (openpart_open : Str → UInt32 → Option OpenPart) {p : Partition} (path : Str) (hp : Reachable fs p) :
    Reachable fs (InPlace.run fs openpart_open p (.AsLogicalPartition path)).1
  | assigned (openpart_open : Str → UInt32 → Option OpenPart) {p other : Partition} (hp : Reachable fs p)
    (hother : Reachable fs other) : Reachable fs (InPlace.run fs openpart_open p (.copyAssign other)).1

/-- `operator==`: the left operand decides which fields are compared. -/
def operator_eq (p other : Partition) : Bool :=
  if p.isLogical then squeeze p.logicalPartitionPath = squeeze other.logicalPartitionPath
  else squeeze p.localTablePath = squeeze other.localTablePath && p.localIndex = other.localIndex &&
    p.gptPart.uniqueGUID = other.gptPart.uniqueGUID

def operator_eq_guid (p : Partition) (other : Nat) : Outcome Bool :=
  if p.isLogical then raise ⟨"This is not a normal partition object!", 1, false⟩
  else .ok (p.gptPart.uniqueGUID = other)

/-- `operator!=`: its body is the call itself. After so many calls there is no result yet. -/
def operator_ne (p other : Partition) : Nat → Option Bool
  | 0 => none
  | calls + 1 => operator_ne p other calls

def operator_ne_guid (p : Partition) (other : Nat) : Nat → Option (Outcome Bool)
  | 0 => none
  | calls + 1 => operator_ne_guid p other calls

/-- What `==` alone has to satisfy among some objects. -/
structure EqualLaws (objects : List Partition) : Prop where
  refl : ∀ p ∈ objects, p.operator_eq p = true
  symm : ∀ p ∈ objects, ∀ q ∈ objects, p.operator_eq q = true → q.operator_eq p = true
  trans : ∀ p ∈ objects, ∀ q ∈ objects, ∀ r ∈ objects,
    p.operator_eq q = true → q.operator_eq r = true → p.operator_eq r = true
  kinds : ∀ p ∈ objects, ∀ q ∈ objects, p.isLogical = true → q.isLogical = false →
    p.operator_eq q = false ∧ q.operator_eq p = false

/-- Both overloads of `!=` come back, with the negation of `==`. -/
structure NegationLaws (objects : List Partition) : Prop where
  ne : ∀ p ∈ objects, ∀ q ∈ objects, ∃ calls, p.operator_ne q calls = some !p.operator_eq q
  ne_guid : ∀ p ∈ objects, ∀ guid, ∃ calls,
    p.operator_ne_guid guid calls = some ((p.operator_eq_guid guid).map not)

/-- A logical partition and a normal one that differ in the fields of either kind. -/
structure Apart (logical normal : Partition) : Prop where
  path : squeeze logical.logicalPartitionPath ≠ squeeze normal.logicalPartitionPath
  slot : squeeze normal.localTablePath = squeeze logical.localTablePath →
    normal.localIndex = logical.localIndex → normal.gptPart.uniqueGUID ≠ logical.gptPart.uniqueGUID

variable {fs : FileSystem} {openpart_open : Str → UInt32 → Option OpenPart} {p q r : Partition}

theorem operator_eq_of_logical (h : p.isLogical = true) :
    p.operator_eq q = true ↔ squeeze p.logicalPartitionPath = squeeze q.logicalPartitionPath := by
  simp [operator_eq, h]

theorem operator_eq_of_normal (h : p.isLogical = false) :
    p.operator_eq q = true ↔ squeeze p.localTablePath = squeeze q.localTablePath ∧
      p.localIndex = q.localIndex ∧ p.gptPart.uniqueGUID = q.gptPart.uniqueGUID := by
  simp [operator_eq, h, and_assoc]

theorem operator_eq_refl (p : Partition) : p.operator_eq p = true := by
  cases h : p.isLogical with
  | true => exact (operator_eq_of_logical h).mpr rfl
  | false => exact (operator_eq_of_normal h).mpr ⟨rfl, rfl, rfl⟩

/-- Among objects of one kind the comparison is symmetric. -/
theorem operator_eq_symm (hkind : p.isLogical = q.isLogical) (h : p.operator_eq q = true) :
    q.operator_eq p = true := by
  cases hp : p.isLogical with
  | true =>
    have hpath := (operator_eq_of_logical hp).mp h
    exact (operator_eq_of_logical (hkind ▸ hp)).mpr hpath.symm
  | false =>
    obtain ⟨htable, hindex, hguid⟩ := (operator_eq_of_normal hp).mp h
    exact (operator_eq_of_normal (hkind ▸ hp)).mpr ⟨htable.symm, hindex.symm, hguid.symm⟩

theorem operator_eq_trans (hkind : p.isLogical = q.isLogical) (hpq : p.operator_eq q = true)
    (hqr : q.operator_eq r = true) : p.operator_eq r = true := by
  cases hp : p.isLogical with
  | true =>
    have hfirst := (operator_eq_of_logical hp).mp hpq
    have hsecond := (operator_eq_of_logical (hkind ▸ hp)).mp hqr
    exact (operator_eq_of_logical hp).mpr (hfirst.trans hsecond)
  | false =>
    obtain ⟨htable, hindex, hguid⟩ := (operator_eq_of_normal hp).mp hpq
    obtain ⟨htable', hindex', hguid'⟩ := (operator_eq_of_normal (hkind ▸ hp)).mp hqr
    exact (operator_eq_of_normal hp).mpr ⟨htable.trans htable', hindex.trans hindex', hguid.trans hguid'⟩

theorem apart_iff (hp : p.isLogical = true) (hq : q.isLogical = false) :
    Apart p q ↔ p.operator_eq q = false ∧ q.operator_eq p = false := by
  rw [Bool.eq_false_iff, Bool.eq_false_iff, ne_eq, ne_eq, operator_eq_of_logical hp, operator_eq_of_normal hq]
  constructor
  · intro h
    exact ⟨h.path, fun ⟨htable, hindex, hguid⟩ => h.slot htable hindex hguid⟩
  · rintro ⟨hpath, hslot⟩
    exact ⟨hpath, fun htable hindex hguid => hslot ⟨htable, hindex, hguid⟩⟩

/-- The comparison is an equivalence exactly where the two kinds do not meet. -/
theorem equalLaws_iff (objects : List Partition) : EqualLaws objects ↔
    ∀ p ∈ objects, ∀ q ∈ objects, p.isLogical = true → q.isLogical = false → Apart p q := by
  constructor
  · intro h p hp q hq hlogical hnormal
    exact (apart_iff hlogical hnormal).mpr (h.kinds p hp q hq hlogical hnormal)
  · intro h
    have hkinds : ∀ p ∈ objects, ∀ q ∈ objects, p.isLogical = true → q.isLogical = false →
        p.operator_eq q = false ∧ q.operator_eq p = false := by
      intro p hp q hq hlogical hnormal
      exact (apart_iff hlogical hnormal).mp (h p hp q hq hlogical hnormal)
    have hsame : ∀ p ∈ objects, ∀ q ∈ objects, p.operator_eq q = true → p.isLogical = q.isLogical := by
      intro p hp q hq heq
      cases hlp : p.isLogical with
      | true =>
        cases hlq : q.isLogical with
        | true => rfl
        | false =>
          have hne := (hkinds p hp q hq hlp hlq).1
          rw [heq] at hne
          cases hne
      | false =>
        cases hlq : q.isLogical with
        | true =>
          have hne := (hkinds q hq p hp hlq hlp).2
          rw [heq] at hne
          cases hne
        | false => rfl
    refine ⟨fun p _ => operator_eq_refl p, ?_, ?_, hkinds⟩
    · intro p hp q hq heq
      exact operator_eq_symm (hsame p hp q hq heq) heq
    · intro p hp q hq r hr hpq hqr
      exact operator_eq_trans (hsame p hp q hq hpq) hpq hqr

/-- An object uses the path of a logical partition or the slot of a table, as its kind says. -/
structure OneKind (p : Partition) : Prop where
  normal : p.isLogical = false → p.logicalPartitionPath = []
  logical : p.isLogical = true → p.gptPart = default

theorem copyCtor_fields (h : copyCtor fs openpart_open p = .ok q) : ∃ op, q = { p with op := op } := by
  unfold copyCtor at h
  dsimp only at h
  split at h
  next => exact ⟨none, (Except.ok.inj h).symm⟩
  next op _ =>
    cases hpath : reopenPath p op with
    | error stop =>
      rw [hpath] at h
      cases h
    | ok path =>
      rw [hpath, Checks.ok_bind] at h
      split at h
      next => cases h
      next op _ => exact ⟨some op, (Except.ok.inj h).symm⟩

theorem assign_fields (fs : FileSystem) (openpart_open : Str → UInt32 → Option OpenPart) (p other : Partition) :
    ∃ op, (InPlace.assign fs openpart_open p other).1 = { other with op := op } := by
  unfold InPlace.assign
  dsimp only
  split
  next => exact ⟨none, rfl⟩
  next op _ =>
    split
    next => exact ⟨none, rfl⟩
    next path _ =>
      split
      next => exact ⟨none, rfl⟩
      next op _ => exact ⟨some op, rfl⟩

theorem asLogical_fields (fs : FileSystem) (openpart_open : Str → UInt32 → Option OpenPart) (p : Partition)
    (path : Str) : ∃ op, (InPlace.asLogical fs openpart_open p path).1 =
      { p with isLogical := true, logicalPartitionPath := path, gptPart := default, op := op } := by
  unfold InPlace.asLogical
  dsimp only
  split
  next => exact ⟨none, rfl⟩
  next op _ => exact ⟨some op, rfl⟩

theorem Reachable.oneKind (h : Reachable fs p) : OneKind p := by
  induction h with
  | default => exact ⟨fun _ => rfl, nofun⟩
  | normal index part path op => exact ⟨fun _ => rfl, nofun⟩
  | @logical openpart_open path p h =>
    unfold ofPath at h
    split at h
    next => cases h
    next op _ =>
      cases h
      exact ⟨nofun, fun _ => rfl⟩
  | copied _ h ih =>
    obtain ⟨op, rfl⟩ := copyCtor_fields h
    exact ⟨ih.normal, ih.logical⟩
  | moved _ ih => exact ⟨ih.normal, ih.logical⟩
  | movedFrom _ _ => exact ⟨fun _ => rfl, nofun⟩
  | @converted openpart_open p path _ _ =>
    obtain ⟨op, hafter⟩ := asLogical_fields fs openpart_open p path
    show OneKind (InPlace.asLogical fs openpart_open p path).1
    rw [hafter]
    exact ⟨nofun, fun _ => rfl⟩
  | @assigned openpart_open p other _ _ _ ih =>
    obtain ⟨op, hafter⟩ := assign_fields fs openpart_open p other
    show OneKind (InPlace.assign fs openpart_open p other).1
    rw [hafter]
    exact ⟨ih.normal, ih.logical⟩

theorem squeeze_cons_ne_nil {c : Char} {path : Str} : squeeze (c :: path) ≠ [] := by
  induction path generalizing c with
  | nil =>
    rw [squeeze_cons (by simp)]
    exact List.cons_ne_nil _ _
  | cons d path ih =>
    by_cases hslash : c = '/' ∧ d = '/'
    · obtain ⟨rfl, rfl⟩ := hslash
      rw [squeeze]
      exact ih
    · rw [squeeze_cons fun hc hd => hslash ⟨hc, by simpa using hd⟩]
      exact List.cons_ne_nil _ _

theorem squeeze_eq_nil_iff {path : Str} : squeeze path = [] ↔ path = [] := by
  cases path with
  | nil => exact iff_of_true rfl rfl
  | cons c path => exact iff_of_false squeeze_cons_ne_nil (List.cons_ne_nil _ _)

/-- For reachable objects: the logical one has a path, and the normal one is not the
slot with an empty GUID that the logical one carries along. -/
theorem Reachable.apart_iff (hp : Reachable fs p) (hq : Reachable fs q) (hlogical : p.isLogical = true)
    (hnormal : q.isLogical = false) : Apart p q ↔ p.logicalPartitionPath ≠ [] ∧
      (squeeze q.localTablePath = squeeze p.localTablePath → q.localIndex = p.localIndex →
        q.gptPart.uniqueGUID ≠ 0) := by
  have hpath : squeeze p.logicalPartitionPath ≠ squeeze q.logicalPartitionPath ↔ p.logicalPartitionPath ≠ [] := by
    rw [hq.oneKind.normal hnormal, ne_eq, show squeeze [] = [] from rfl, squeeze_eq_nil_iff]
  have hguid : p.gptPart.uniqueGUID = 0 := by rw [hp.oneKind.logical hlogical]; rfl
  constructor
  · intro h
    exact ⟨hpath.mp h.path, hguid ▸ h.slot⟩
  · intro h
    exact ⟨hpath.mpr h.1, hguid.symm ▸ h.2⟩

theorem operator_ne_never (p q : Partition) (calls : Nat) : p.operator_ne q calls = none := by
  induction calls with
  | zero => rfl
  | succ calls ih => exact ih

theorem operator_ne_guid_never (p : Partition) (guid calls : Nat) : p.operator_ne_guid guid calls = none := by
  induction calls with
  | zero => rfl
  | succ calls ih => exact ih

/-- Among any objects there are, no `!=` comes back; `==` is right exactly where no
logical partition meets a normal one. -/
theorem partition_equality (p : Partition) (others : List Partition) :
    ¬ (EqualLaws (p :: others) ∧ NegationLaws (p :: others)) ∧
    (∀ q guid calls, p.operator_ne q calls = none ∧ p.operator_ne_guid guid calls = none) ∧
    (EqualLaws (p :: others) ↔ ∀ q ∈ p :: others, ∀ r ∈ p :: others,
      q.isLogical = true → r.isLogical = false → Apart q r) := by
  refine ⟨fun h => ?_, fun q guid calls => ?_, equalLaws_iff _⟩
  · obtain ⟨calls, hcalls⟩ := h.2.ne p List.mem_cons_self p List.mem_cons_self
    rw [operator_ne_never] at hcalls
    cases hcalls
  · exact ⟨operator_ne_never p q calls, operator_ne_guid_never p guid calls⟩

/-- An object for a logical partition, opened by its path. -/
def systemPartition : Partition :=
  ⟨[], "/dev/block/mapper/system", 0, default, some ⟨"/dev/block/mapper/system", 4096, true⟩, true⟩

/-- An empty object equals it, and it does not equal the empty object. -/
theorem empty_equals_system : Reachable bootFileSystem empty ∧ Reachable bootFileSystem systemPartition ∧
    empty.operator_eq systemPartition = true ∧ systemPartition.operator_eq empty = false ∧
    ¬ EqualLaws [empty, systemPartition] ∧ (∀ calls, systemPartition.operator_ne systemPartition calls = none) := by
  have hsystem : ofPath bootFileSystem (fun path _ => some ⟨path, 4096, true⟩) "/dev/block/mapper/system" =
      .ok systemPartition := rfl
  refine ⟨.default, .logical hsystem, rfl, rfl, fun h => ?_, operator_ne_never _ _⟩
  have hback : systemPartition.operator_eq empty = true :=
    h.symm empty (by simp) systemPartition (by simp) rfl
  cases hback

end Partition

end PartitionManager
