import PartitionManager.Conversions
import PartitionManager.StoreCalls
import PartitionManager.Library.Lookup

namespace PartitionManager

/-- A pointer to the `gptPart` of a partition. -/
structure GPTPartRef where
  owner : Partition
  deriving DecidableEq

namespace Partition

def index (p : Partition) : Outcome Nat :=
  if p.isLogical then raise ⟨"Cannot return index: Is logical partition", 1, false⟩ else .ok p.localIndex

def getGPTPartRef (p : Partition) : Outcome GPTPartRef :=
  if p.isLogical then raise ⟨"Cannot get GPTPart data: Is logical partition", 1, false⟩ else .ok ⟨p⟩

end Partition

/-- `->get().getGPTPartRef()` on the optional a lookup gave. -/
def derefEntry : Option Partition → Outcome (Option GPTPartRef)
  | none => .error (.undefined .emptyOptional)
  | some part => part.getGPTPartRef.map some

namespace PartitionTableData

variable (t : PartitionTableData) (fs : FileSystem) (name : Str)

/-- `operator()`. -/
def operatorCall (index : Nat) : Outcome (Option GPTPartRef) :=
  if !t.hasTable name then .ok none
  else do
    let found ← t.localPartitions.findM? fun part => do
      let table ← part.tableName
      let index_ ← part.index
      .ok (decide (table = name ∧ index_ = index))
    let name_ := found.elim [] Partition.name
    let part ← t.partition name_
    derefEntry part

/-- The partition stands at this slot of this table. -/
def atSlot (index : Nat) (p : Partition) : Bool := filename p.localTablePath = name ∧ p.localIndex = index

def slotHolder (index : Nat) : Option Partition := t.localPartitions.find? (atSlot name index)

/-- The registered partition of the slot is found by its name, or there is none to find. -/
def SlotNamed (index : Nat) : Prop :=
  (t.slotHolder name index = none ∧ t.hasTable name = false) ∨
    ∃ p, t.slotHolder name index = some p ∧ t.hasTable name = true ∧
      ∀ q ∈ t.localPartitions.takeWhile (fun q => !atSlot name index q), q.name ≠ p.name

/-- What `cin >> choice` can leave: it stops at white space, and leaves nothing at the end
of the input. -/
def IsWord (choice : Str) : Prop := ∀ c ∈ choice, isspace c = false

instance (choice : Str) : Decidable (IsWord choice) := List.decidableBAll (fun c => isspace c = false) choice

/-- Whatever the prompt accepts stands for one holder of the name, and every holder can be
had by some answers. -/
structure SelectsExactly : Prop where
  only : ∀ answers, (∀ choice ∈ answers, IsWord choice) → ∀ r, t.partitionWithDupCheck fs answers name = .ok r →
    ∃ choice p, answers.find? (t.tablesOf name).contains = some choice ∧ r = some p ∧
      (t.holders name).filter (fun q => filename q.localTablePath = choice) = [p]
  reachable : ∀ p ∈ t.holders name, ∃ answers, (∀ choice ∈ answers, IsWord choice) ∧
    t.partitionWithDupCheck fs answers name = .ok (some p)

/-- The holders of the name are in different tables, whose names can be typed. A table
without a name selects the first holder. -/
structure Selectable : Prop where
  linked : Linked fs name
  distinct : (t.tablesOf name).Nodup
  words : ∀ table ∈ t.tablesOf name, IsWord table
  unnamed : ∀ p ∈ t.holders name, filename p.localTablePath = [] → (t.holders name).head? = some p

/-- An absent name is reported as such, a present one leads to a partition of the name,
and the queries for a name agree. -/
structure Reports (answers : List Str) : Prop where
  absent : t.hasPartition name = false → ∀ check, t.partitionWithDupCheck fs answers name check = .ok none
  present : t.hasPartition name = true → ∀ check, ∃ p ∈ t.holders name,
    t.partitionWithDupCheck fs answers name check = .ok (some p)
  partition : t.hasPartition name = true ↔ ∃ p, t.partition name = .ok (some p)
  counted : t.hasPartition name = true ↔ 1 ≤ t.hasDuplicateNamedPartition name
  positions : t.hasPartition name = true ↔ ∃ parts, t.duplicatePartitionPositions fs name = .ok parts ∧
    parts ≠ [] ∧ parts.length = t.hasDuplicateNamedPartition name

end PartitionTableData

section

variable {t : PartitionTableData} {fs : FileSystem} {name : Str}

namespace PartitionTableData

theorem operatorCall_unlisted (h : t.hasTable name = false) (index : Nat) : t.operatorCall name index = .ok none := by
  rw [operatorCall, h]
  rfl

/-- What `operator()` finds in a listed table is what the holder's name finds. -/
theorem operatorCall_listed (h : t.hasTable name = true) (index : Nat) : t.operatorCall name index =
    derefEntry (t.localPartitions.find? fun p => p.name = (t.slotHolder name index).elim [] Partition.name) := by
  have hslot : (t.localPartitions.findM? fun part => do
      let table ← part.tableName
      let index_ ← part.index
      .ok (decide (table = name ∧ index_ = index))) = .ok (t.slotHolder name index) := by
    refine findM_ok fun p hp => ?_
    rw [Partition.tableName_of_physical (t.physical p hp), Partition.index, t.physical p hp]
    rfl
  rw [operatorCall, h, hslot]
  change (t.partition ((t.slotHolder name index).elim [] Partition.name) >>= derefEntry) = _
  rw [partition_eq_find]
  simp [bind, Except.bind]

theorem derefEntry_iff {found : Option Partition} (hphys : ∀ p, found = some p → p.isLogical = false)
    {r : Option GPTPartRef} : derefEntry found = .ok r ↔ ∃ p, found = some p ∧ r = some ⟨p⟩ := by
  cases found with
  | none => simp [derefEntry]
  | some p =>
    rw [derefEntry, Partition.getGPTPartRef, hphys p rfl]
    simp [Except.map, eq_comm]

/-- `operator()` gives the entry of the slot, or null if there is none, just when the
holder's name leads to the slot. -/
theorem operatorCall_iff (index : Nat) :
    t.operatorCall name index = .ok ((t.slotHolder name index).map GPTPartRef.mk) ↔ t.SlotNamed name index := by
  cases htable : t.hasTable name with
  | false =>
    rw [operatorCall_unlisted htable, SlotNamed, htable]
    cases t.slotHolder name index <;> simp
  | true =>
    have hphys : ∀ wanted : Str, ∀ p, t.localPartitions.find? (fun p => p.name = wanted) = some p →
        p.isLogical = false := fun _ p hp => t.physical p (List.mem_of_find?_eq_some hp)
    rw [operatorCall_listed htable, SlotNamed, htable, derefEntry_iff (hphys _)]
    cases hslot : t.slotHolder name index with
    | none => simp
    | some p =>
      have hsame := @Lookup.find?_same_iff _ _ _ _ (fun q => decide (q.name = p.name)) hslot (by simp)
      simp only [Option.elim_some, Option.map_some, Option.some.injEq, GPTPartRef.mk.injEq, exists_eq_right',
        reduceCtorEq, Bool.true_eq_false, and_self, ne_eq, true_and, exists_eq_left', false_or]
      exact hsame.trans (by simp)

end PartitionTableData

def slotPartition (table : Str) (index : Nat) (label : Str) : Partition where
  localTablePath := "/dev/block/".toList ++ table
  logicalPartitionPath := []
  localIndex := index
  gptPart := ⟨label, true, index + 1, index, index⟩
  op := none
  isLogical := false

/-- Two tables that hold three partitions of one name. -/
def xblTables : PartitionTableData where
  gptDataCollection := []
  localPartitions := [slotPartition "sda" 0 "xbl", slotPartition "sdb" 0 "xbl", slotPartition "sdb" 1 "xbl"]
  localTableNames := twoNames
  physical := by
    intro p hp
    simp only [List.mem_cons, List.not_mem_nil, or_false] at hp
    rcases hp with rfl | rfl | rfl <;> rfl

/-- The entry of another table for a slot whose name is taken, and no value at all for an
empty slot. -/
theorem xbl_slots : xblTables.slotHolder "sdb" 0 = some (slotPartition "sdb" 0 "xbl") ∧
    xblTables.operatorCall "sdb" 0 = .ok (some ⟨slotPartition "sda" 0 "xbl"⟩) ∧
    xblTables.slotHolder "sda" 1 = none ∧ xblTables.operatorCall "sda" 1 = .error (.undefined .emptyOptional) :=
  ⟨rfl, rfl, rfl, rfl⟩

namespace PartitionTableData

theorem hasDuplicateNamedPartition_eq : t.hasDuplicateNamedPartition name = (t.holders name).length :=
  List.countP_eq_length_filter

theorem hasPartition_iff_counted : t.hasPartition name = true ↔ 1 ≤ t.hasDuplicateNamedPartition name := by
  rw [← holders_ne_nil_iff, hasDuplicateNamedPartition_eq, ← List.length_pos_iff]
  exact Iff.rfl

/-- The holder of the name that `partition` takes for a table. -/
def heldIn (t : PartitionTableData) (name table : Str) : Option Partition :=
  (t.holders name).find? fun p => table = [] ∨ filename p.localTablePath = table

theorem partition_eq_heldIn (table : Str) : t.partition name table = .ok (t.heldIn name table) := by
  rw [partition_eq_find, heldIn, holders, List.find?_filter]
  simp

/-- With its link in place, a name that is held is looked up as the prompt says, or in the
table of its first holder. -/
theorem partitionWithDupCheck_eq {answers : List Str} (hlink : Linked fs name) (h : t.hasPartition name = true)
    (check : Bool) : t.partitionWithDupCheck fs answers name check =
      if 1 < t.hasDuplicateNamedPartition name ∧ check = true then
        match answers.find? (t.tablesOf name).contains with
        | some choice => .ok (t.heldIn name choice)
        | none => .error .never
      else .ok (t.holders name).head? := by
  obtain ⟨parts, hparts, htables⟩ := t.duplicatePartitionPositions_linked hlink
  rw [partitionWithDupCheck, hparts]
  change (if (decide (1 < t.hasDuplicateNamedPartition name) && check) = true then _ else _) = _
  by_cases hask : 1 < t.hasDuplicateNamedPartition name ∧ check = true
  · rw [if_pos (by simpa using hask), if_pos hask, htables, chooseTable_eq]
    cases answers.find? (t.tablesOf name).contains with
    | none => rfl
    | some choice => exact partition_eq_heldIn choice
  · rw [if_neg (by simpa using hask), if_neg hask]
    obtain ⟨p, others, hholders⟩ := List.exists_cons_of_ne_nil (holders_ne_nil_iff.mpr h)
    rw [tablesOf, hholders, List.map_cons] at htables
    cases parts with
    | nil => cases htables
    | cons first rest =>
      have hfirst : first.2 = filename p.localTablePath := (List.cons.inj htables).1
      change t.partition name first.2 = _
      rw [partition_eq_heldIn, heldIn, hholders, List.find?_cons_of_pos (by simp [hfirst])]
      rfl

theorem mem_tablesOf {table : Str} : table ∈ t.tablesOf name ↔ ∃ p ∈ t.holders name, filename p.localTablePath = table :=
  List.mem_map

/-- Where names can be selected, the table of a holder leads to it. -/
theorem Selectable.heldIn (h : t.Selectable fs name) {p : Partition} (hp : p ∈ t.holders name) :
    t.heldIn name (filename p.localTablePath) = some p := by
  unfold PartitionTableData.heldIn
  by_cases hempty : filename p.localTablePath = []
  · have hhead := h.unnamed p hp hempty
    obtain ⟨others, hholders⟩ := List.head?_eq_some_iff.mp hhead
    rw [hholders, List.find?_cons_of_pos (by simp)]
  · have hfind := Lookup.find?_of_nodup h.distinct hp
    simpa [hempty] using hfind

theorem Selectable.selectsExactly (h : t.Selectable fs name) (hdup : 1 < t.hasDuplicateNamedPartition name) :
    t.SelectsExactly fs name := by
  have hheld : t.hasPartition name = true := hasPartition_iff_counted.mpr (Nat.le_of_lt hdup)
  have hasks : ∀ answers, t.partitionWithDupCheck fs answers name =
      match answers.find? (t.tablesOf name).contains with
      | some choice => .ok (t.heldIn name choice)
      | none => .error .never := by
    intro answers
    rw [partitionWithDupCheck_eq h.linked hheld, if_pos ⟨hdup, rfl⟩]
  constructor
  · intro answers _ r hr
    rw [hasks] at hr
    cases hchoice : answers.find? (t.tablesOf name).contains with
    | none =>
      rw [hchoice] at hr
      cases hr
    | some choice =>
      rw [hchoice] at hr
      obtain ⟨p, hp, rfl⟩ := mem_tablesOf.mp (List.contains_iff_mem.mp (List.find?_some hchoice))
      obtain rfl : some p = r := (h.heldIn hp).symm.trans (Except.ok.inj hr)
      exact ⟨_, p, rfl, rfl, Lookup.nodup_iff_filter.mp h.distinct p hp⟩
  · intro p hp
    have hlisted : filename p.localTablePath ∈ t.tablesOf name := mem_tablesOf.mpr ⟨p, hp, rfl⟩
    refine ⟨[filename p.localTablePath], by simpa using h.words _ hlisted, ?_⟩
    rw [hasks, List.find?_cons_of_pos (List.contains_iff_mem.mpr hlisted)]
    exact congrArg Except.ok (h.heldIn hp)

theorem SelectsExactly.selectable (h : t.SelectsExactly fs name) (hdup : 1 < t.hasDuplicateNamedPartition name) :
    t.Selectable fs name := by
  have hheld : t.hasPartition name = true := hasPartition_iff_counted.mpr (Nat.le_of_lt hdup)
  have hlink : Linked fs name := by
    by_contra hlink
    obtain ⟨p, hp⟩ := List.exists_mem_of_ne_nil _ (holders_ne_nil_iff.mpr hheld)
    obtain ⟨answers, _, hanswers⟩ := h.reachable p hp
    rw [partitionWithDupCheck_unlinked hlink hheld] at hanswers
    cases hanswers
  -- the answers that lead to a holder name its table
  have htable : ∀ p ∈ t.holders name, IsWord (filename p.localTablePath) ∧
      t.heldIn name (filename p.localTablePath) = some p ∧
      (t.holders name).filter (fun q => filename q.localTablePath = filename p.localTablePath) = [p] := by
    intro p hp
    obtain ⟨answers, hwords, hanswers⟩ := h.reachable p hp
    obtain ⟨choice, p', hchoice, hsame, honly⟩ := h.only answers hwords _ hanswers
    cases hsame
    have hmem : p ∈ (t.holders name).filter fun q => filename q.localTablePath = choice := by
      rw [honly]
      exact List.mem_cons_self
    obtain rfl : filename p.localTablePath = choice := by simpa using (List.mem_filter.mp hmem).2
    rw [partitionWithDupCheck_eq hlink hheld, if_pos ⟨hdup, rfl⟩, hchoice] at hanswers
    exact ⟨hwords _ (List.mem_of_find?_eq_some hchoice), Except.ok.inj hanswers, honly⟩
  refine ⟨hlink, Lookup.nodup_iff_filter.mpr fun p hp => (htable p hp).2.2, ?_, ?_⟩
  · intro table hmem
    obtain ⟨p, hp, rfl⟩ := mem_tablesOf.mp hmem
    exact (htable p hp).1
  · intro p hp hempty
    have hfound := (htable p hp).2.1
    obtain ⟨first, others, hholders⟩ := List.exists_cons_of_ne_nil (List.ne_nil_of_mem hp)
    rw [PartitionTableData.heldIn, hempty, hholders, List.find?_cons_of_pos (by simp)] at hfound
    rw [hholders]
    exact hfound

end PartitionTableData

/-- A name that several partitions bear is selected as it should be just when its holders
are in different tables whose names can be typed. -/
theorem selects_exactly_iff (hdup : 1 < t.hasDuplicateNamedPartition name) :
    t.SelectsExactly fs name ↔ t.Selectable fs name :=
  ⟨fun h => h.selectable hdup, fun h => h.selectsExactly hdup⟩

/-- The table that holds two of the partitions leads to the first of them only. -/
theorem xbl_twice : 1 < xblTables.hasDuplicateNamedPartition "xbl" ∧
    xblTables.partitionWithDupCheck bootFileSystem ["sdb"] "xbl" = .ok (some (slotPartition "sdb" 0 "xbl")) ∧
    slotPartition "sdb" 1 "xbl" ∈ xblTables.holders "xbl" ∧ ¬ xblTables.SelectsExactly bootFileSystem "xbl" := by
  refine ⟨by decide, rfl, by decide, fun h => ?_⟩
  exact absurd (h.selectable (by decide)).distinct (by decide)

theorem xbl_each : { xblTables with
      localPartitions := [slotPartition "sda" 0 "xbl", slotPartition "sdb" 0 "xbl"]
      physical := by decide }.SelectsExactly bootFileSystem "xbl" :=
  (selects_exactly_iff (by decide)).mpr ⟨.inl rfl, by decide, by decide, by decide⟩

namespace PartitionTableData

theorem hasPartition_iff_partition : t.hasPartition name = true ↔ ∃ p, t.partition name = .ok (some p) := by
  rw [hasPartition_iff, partition_eq_find]
  simp only [Except.ok.injEq, ← Option.isSome_iff_exists, List.find?_isSome]
  simp

theorem duplicatePartitionPositions_absent (h : t.hasPartition name = false) :
    t.duplicatePartitionPositions fs name = .ok [] := by
  have hnone : t.holders name = [] := by
    by_contra hne
    rw [holders_ne_nil_iff.mp hne] at h
    cases h
  rw [duplicatePartitionPositions, ← holders, hnone]
  rfl

theorem partitionWithDupCheck_absent (h : t.hasPartition name = false) (answers : List Str) (check : Bool) :
    t.partitionWithDupCheck fs answers name check = .error (.undefined .emptyVector) := by
  have hzero : t.hasDuplicateNamedPartition name = 0 := by
    by_contra hne
    rw [hasPartition_iff_counted.mpr (Nat.one_le_iff_ne_zero.mpr hne)] at h
    cases h
  rw [partitionWithDupCheck, duplicatePartitionPositions_absent h, hzero]
  rfl

/-- A present name with its link is found, unless the prompt waits for ever. -/
theorem partitionWithDupCheck_present {answers : List Str} (hlink : Linked fs name) (h : t.hasPartition name = true)
    (check : Bool) (hanswers : 1 < t.hasDuplicateNamedPartition name → ∃ choice ∈ answers, choice ∈ t.tablesOf name) :
    ∃ p ∈ t.holders name, t.partitionWithDupCheck fs answers name check = .ok (some p) := by
  rw [partitionWithDupCheck_eq hlink h]
  split
  next hask =>
    obtain ⟨choice, hmem, hlisted⟩ := hanswers hask.1
    have hsome : (answers.find? (t.tablesOf name).contains).isSome :=
      List.find?_isSome.mpr ⟨choice, hmem, List.contains_iff_mem.mpr hlisted⟩
    obtain ⟨first, hfirst⟩ := Option.isSome_iff_exists.mp hsome
    obtain ⟨p, hp, htable⟩ := mem_tablesOf.mp (List.contains_iff_mem.mp (List.find?_some hfirst))
    have hheld : (t.heldIn name first).isSome := List.find?_isSome.mpr ⟨p, hp, by simp [htable]⟩
    obtain ⟨q, hq⟩ := Option.isSome_iff_exists.mp hheld
    refine ⟨q, List.mem_of_find?_eq_some hq, ?_⟩
    rw [hfirst]
    exact congrArg Except.ok hq
  next =>
    obtain ⟨p, others, hholders⟩ := List.exists_cons_of_ne_nil (holders_ne_nil_iff.mpr h)
    rw [hholders]
    exact ⟨p, List.mem_cons_self, rfl⟩

theorem duplicatePartitionPositions_length (hlink : Linked fs name) : ∃ parts,
    t.duplicatePartitionPositions fs name = .ok parts ∧ parts.length = t.hasDuplicateNamedPartition name := by
  obtain ⟨parts, hparts, htables⟩ := t.duplicatePartitionPositions_linked hlink
  refine ⟨parts, hparts, ?_⟩
  have hlength := congrArg List.length htables
  rw [List.length_map, tablesOf, List.length_map] at hlength
  rw [hlength, hasDuplicateNamedPartition_eq]

end PartitionTableData

/-- The lookups of a name agree and never go astray just when the name is present, its
link is in place, and the answers end the prompt if it comes. -/
theorem reports_iff (answers : List Str) : t.Reports fs name answers ↔
    t.hasPartition name = true ∧ PartitionTableData.Linked fs name ∧
      (1 < t.hasDuplicateNamedPartition name → ∃ choice ∈ answers, choice ∈ t.tablesOf name) := by
  constructor
  · intro h
    have hpresent : t.hasPartition name = true := by
      by_contra habsent
      have hfalse : t.hasPartition name = false := by simpa using habsent
      have hcode : t.partitionWithDupCheck fs answers name true = .error (.undefined .emptyVector) :=
        PartitionTableData.partitionWithDupCheck_absent hfalse answers true
      rw [h.absent hfalse true] at hcode
      cases hcode
    have hlink : PartitionTableData.Linked fs name := by
      by_contra hlink
      obtain ⟨p, _, hp⟩ := h.present hpresent true
      rw [PartitionTableData.partitionWithDupCheck_unlinked hlink hpresent] at hp
      cases hp
    refine ⟨hpresent, hlink, fun hdup => ?_⟩
    obtain ⟨p, _, hp⟩ := h.present hpresent true
    rw [PartitionTableData.partitionWithDupCheck_eq hlink hpresent, if_pos ⟨hdup, rfl⟩] at hp
    cases hchoice : answers.find? (t.tablesOf name).contains with
    | none =>
      rw [hchoice] at hp
      cases hp
    | some choice =>
      exact ⟨choice, List.mem_of_find?_eq_some hchoice, List.contains_iff_mem.mp (List.find?_some hchoice)⟩
  · intro h
    obtain ⟨hpresent, hlink, hanswers⟩ := h
    obtain ⟨parts, hparts, hlength⟩ := t.duplicatePartitionPositions_length hlink
    have hcounted := PartitionTableData.hasPartition_iff_counted.mp hpresent
    refine ⟨fun h => absurd hpresent (by simp [h]), ?_, PartitionTableData.hasPartition_iff_partition,
      PartitionTableData.hasPartition_iff_counted, iff_of_true hpresent ⟨parts, hparts, ?_, hlength⟩⟩
    · exact fun _ check => PartitionTableData.partitionWithDupCheck_present hlink hpresent check hanswers
    · rw [← List.length_pos_iff]
      omega

theorem absent_is_dereferenced : xblTables.hasPartition "abl" = false ∧
    xblTables.partitionWithDupCheck bootFileSystem [] "abl" true = .error (.undefined .emptyVector) ∧
    xblTables.partitionWithDupCheck bootFileSystem [] "abl" false = .error (.undefined .emptyVector) ∧
    ¬ xblTables.Reports bootFileSystem "abl" [] := by
  refine ⟨rfl, rfl, rfl, fun h => ?_⟩
  have hnone := h.absent rfl true
  cases hnone

end

end PartitionManager
