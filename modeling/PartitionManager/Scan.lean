import PartitionManager.Flags

namespace PartitionManager

/-- What a scan asks of the device: the text of `removable`, gptfdisk's answer
to `LoadPartitions`, and the handles it can open. -/
structure ScanDevice where
  removable : Str → Option Str
  LoadPartitions : Str → Option GPTData
  openpart_open : Str → Option OpenPart

/-- `std::sort` by name: the same elements in non-decreasing order, with ties as
the library likes. -/
structure StdSort where
  sort : List Partition → List Partition
  perm : ∀ l, (sort l).Perm l
  sorted : ∀ l, (sort l).Pairwise fun a b => ¬ b.name < a.name

def StdSort.merge : StdSort where
  sort l := l.mergeSort fun a b => decide (a.name ≤ b.name)
  perm l := List.mergeSort_perm l _
  sorted l := by
    have htrans : ∀ a b c : Partition, decide (a.name ≤ b.name) = true → decide (b.name ≤ c.name) = true →
        decide (a.name ≤ c.name) = true := by
      intro a b c hab hbc
      rw [decide_eq_true_eq] at hab hbc ⊢
      exact le_trans hab hbc
    have htotal : ∀ a b : Partition, (decide (a.name ≤ b.name) || decide (b.name ≤ a.name)) = true := by
      intro a b
      simpa using le_total a.name b.name
    refine (List.pairwise_mergeSort htrans htotal l).imp ?_
    intro a b hab
    rw [decide_eq_true_eq] at hab
    exact not_lt.mpr hab

namespace ScanDevice

variable (dev : ScanDevice)

def devBlock : Str := "/dev/block"

def removablePath (name : Str) : Str := "/sys/block/" ++ name ++ "/removable"

def isRemovable (name : Str) : Bool :=
  match dev.removable (removablePath name) with
  | none => false
  | some content => content.head? = some '1'

/-- The partition registered for slot `i` of the table at `p`. -/
def register (p : Str) (i : Nat) (part : GPTPart) : Partition :=
  (Partition.moveCtor (.ofArgs [.path p, .part part, .op (dev.openpart_open (Partition.slotPath p i)),
    .index i])).1

/-- The loop over the slots of a table, from slot `i` on. -/
def scanSlots (p : Str) : Nat → List GPTPart → List Partition → List Partition
  | _, [], localPartitions => localPartitions
  | i, part :: parts, localPartitions =>
    if part.IsUsed then scanSlots p (i + 1) parts (localPartitions ++ [dev.register p i part])
    else scanSlots p (i + 1) parts localPartitions

/-- `gptDataCollection[p] = gpt`, where equal paths are one key. -/
def setGPTData (collection : List (Str × GPTData)) (p : Str) (gpt : GPTData) : List (Str × GPTData) :=
  if collection.any fun entry => squeeze entry.1 = squeeze p then
    collection.map fun entry => if squeeze entry.1 = squeeze p then (entry.1, gpt) else entry
  else collection ++ [(p, gpt)]

/-- The loop over the tables. -/
def scanTables : List Str → List Partition × List (Str × GPTData) → List Partition × List (Str × GPTData)
  | [], found => found
  | name :: names, (localPartitions, gptDataCollection) =>
    let p := append devBlock name
    if dev.isRemovable name then scanTables names (localPartitions, gptDataCollection)
    else
      match dev.LoadPartitions p with
      | none => scanTables names (localPartitions, gptDataCollection)
      | some gpt =>
        scanTables names (dev.scanSlots p 0 gpt.parts localPartitions, setGPTData gptDataCollection p gpt)

/-- The data of a table that is not removable and loads. -/
def loaded (name : Str) : Option GPTData :=
  if dev.isRemovable name then none else dev.LoadPartitions (append devBlock name)

def slotEntries (p : Str) (i : Nat) (parts : List GPTPart) : List Partition :=
  ((parts.zipIdx i).filter fun slot => slot.1.IsUsed).map fun slot => dev.register p slot.2 slot.1

def tableEntries (name : Str) : List Partition :=
  match dev.loaded name with
  | none => []
  | some gpt => dev.slotEntries (append devBlock name) 0 gpt.parts

def tableData (name : Str) : Option (Str × GPTData) :=
  (dev.loaded name).map fun gpt => (append devBlock name, gpt)

variable {dev}

theorem scanSlots_eq (p : Str) (i : Nat) (parts : List GPTPart) (localPartitions : List Partition) :
    dev.scanSlots p i parts localPartitions = localPartitions ++ dev.slotEntries p i parts := by
  induction parts generalizing i localPartitions with
  | nil => simp [scanSlots, slotEntries]
  | cons part parts ih =>
    unfold scanSlots slotEntries
    rw [List.zipIdx_cons]
    by_cases hused : part.IsUsed = true
    · rw [if_pos hused, ih]
      simp [slotEntries, hused]
    · rw [if_neg hused, ih]
      simp [slotEntries, hused]

theorem mem_slotEntries {p : Str} {i : Nat} {parts : List GPTPart} {q : Partition} :
    q ∈ dev.slotEntries p i parts ↔
      ∃ j part, parts[j]? = some part ∧ part.IsUsed = true ∧ q = dev.register p (i + j) part := by
  simp only [slotEntries, List.mem_map, List.mem_filter, Prod.exists, List.mk_mem_zipIdx_iff_le_and_getElem?_sub]
  constructor
  · intro h
    obtain ⟨part, index, ⟨⟨hle, hpart⟩, hused⟩, rfl⟩ := h
    refine ⟨index - i, part, hpart, hused, ?_⟩
    congr 1
    omega
  · intro h
    obtain ⟨j, part, hpart, hused, rfl⟩ := h
    refine ⟨part, i + j, ⟨⟨by omega, ?_⟩, hused⟩, rfl⟩
    rwa [Nat.add_sub_cancel_left]

/-- Within a table no slot is registered twice. -/
theorem slotEntries_pairwise (p : Str) (i : Nat) (parts : List GPTPart) :
    (dev.slotEntries p i parts).Pairwise fun a b => a.localIndex ≠ b.localIndex := by
  unfold slotEntries
  rw [List.pairwise_map]
  apply List.Pairwise.filter
  have hnodup : ((parts.zipIdx i).map Prod.snd).Nodup := by
    rw [List.zipIdx_map_snd]
    exact List.nodup_range'
  exact List.pairwise_map.mp hnodup

theorem mem_tableEntries {name : Str} {q : Partition} : q ∈ dev.tableEntries name ↔
    ∃ gpt i part, dev.loaded name = some gpt ∧ gpt.parts[i]? = some part ∧ part.IsUsed = true ∧
      q = dev.register (append devBlock name) i part := by
  unfold tableEntries
  cases hload : dev.loaded name with
  | none => simp
  | some gpt => simp [mem_slotEntries]

theorem tableEntries_path {name : Str} {q : Partition} (h : q ∈ dev.tableEntries name) :
    q.localTablePath = append devBlock name := by
  obtain ⟨_, _, _, _, _, _, rfl⟩ := mem_tableEntries.mp h
  rfl

theorem append_devBlock {name : Str} (h : '/' ∉ name) : append devBlock name = devBlock ++ '/' :: name := by
  have hhead : name.head? ≠ some '/' := fun hh => h (List.mem_of_head? hh)
  unfold append
  rw [if_neg hhead, if_neg (by decide)]

theorem append_devBlock_inj {a b : Str} (ha : '/' ∉ a) (hb : '/' ∉ b)
    (h : append devBlock a = append devBlock b) : a = b := by
  rw [append_devBlock ha, append_devBlock hb] at h
  exact (List.cons.inj (List.append_cancel_left h)).2

theorem squeeze_append_devBlock {name : Str} (h : '/' ∉ name) :
    squeeze (append devBlock name) = append devBlock name := by
  have hhead : name.head? ≠ some '/' := fun hh => h (List.mem_of_head? hh)
  have hname : squeeze ('/' :: name) = '/' :: name := by
    rw [squeeze_cons fun _ => hhead, squeeze_of_plain h]
  have hstep : ∀ c : Char, ∀ path : Str, c ≠ '/' → squeeze (c :: path) = c :: squeeze path :=
    fun c path hc => squeeze_cons fun heq => absurd heq hc
  rw [append_devBlock h]
  change squeeze ('/' :: 'd' :: 'e' :: 'v' :: '/' :: 'b' :: 'l' :: 'o' :: 'c' :: 'k' :: '/' :: name) = _
  rw [squeeze_cons (by simp), hstep 'd' _ (by decide), hstep 'e' _ (by decide), hstep 'v' _ (by decide),
    squeeze_cons (by simp), hstep 'b' _ (by decide), hstep 'l' _ (by decide), hstep 'o' _ (by decide),
    hstep 'c' _ (by decide), hstep 'k' _ (by decide), hname]
  rfl

/-- Plain names lead to different paths. -/
theorem squeeze_devBlock_inj {a b : Str} (ha : '/' ∉ a) (hb : '/' ∉ b)
    (h : squeeze (append devBlock a) = squeeze (append devBlock b)) : a = b := by
  rw [squeeze_append_devBlock ha, squeeze_append_devBlock hb] at h
  exact append_devBlock_inj ha hb h

theorem setGPTData_fresh {collection : List (Str × GPTData)} {p : Str} (gpt : GPTData)
    (h : ∀ entry ∈ collection, squeeze entry.1 ≠ squeeze p) :
    setGPTData collection p gpt = collection ++ [(p, gpt)] := by
  unfold setGPTData
  rw [if_neg]
  simpa using fun path data hmem => h (path, data) hmem

theorem mem_setGPTData {collection : List (Str × GPTData)} {p : Str} {gpt : GPTData} {entry : Str × GPTData}
    (h : entry ∈ setGPTData collection p gpt) :
    entry ∈ collection ∨ squeeze entry.1 = squeeze p ∧ entry.2 = gpt := by
  unfold setGPTData at h
  split at h
  next =>
    obtain ⟨old, hold, rfl⟩ := List.mem_map.mp h
    split
    next hsame => exact Or.inr ⟨hsame, rfl⟩
    next => exact Or.inl hold
  next =>
    rcases List.mem_append.mp h with hold | hnew
    · exact Or.inl hold
    · rw [List.mem_singleton.mp hnew]
      exact Or.inr ⟨rfl, rfl⟩

/-- The keys of the map: its paths, up to equality. -/
def pathKeys (collection : List (Str × GPTData)) : List Str := collection.map fun entry => squeeze entry.1

theorem pathKeys_setGPTData (collection : List (Str × GPTData)) (p : Str) (gpt : GPTData) :
    pathKeys (setGPTData collection p gpt) =
      if squeeze p ∈ pathKeys collection then pathKeys collection else pathKeys collection ++ [squeeze p] := by
  have hany : (collection.any fun entry => squeeze entry.1 = squeeze p) = true ↔ squeeze p ∈ pathKeys collection := by
    simp [pathKeys, List.any_eq_true]
  unfold setGPTData
  by_cases hmem : squeeze p ∈ pathKeys collection
  · rw [if_pos (hany.mpr hmem), if_pos hmem]
    unfold pathKeys
    rw [List.map_map]
    refine List.map_congr_left fun entry _ => ?_
    show squeeze (if squeeze entry.1 = squeeze p then (entry.1, gpt) else entry).1 = squeeze entry.1
    split
    next => rfl
    next => rfl
  · rw [if_neg fun h => hmem (hany.mp h), if_neg hmem]
    simp [pathKeys]

theorem mem_pathKeys_setGPTData {collection : List (Str × GPTData)} {p key : Str} {gpt : GPTData} :
    key ∈ pathKeys (setGPTData collection p gpt) ↔ key ∈ pathKeys collection ∨ key = squeeze p := by
  rw [pathKeys_setGPTData]
  split
  next hmem =>
    constructor
    · exact Or.inl
    · rintro (h | rfl)
      · exact h
      · exact hmem
  next => rw [List.mem_append, List.mem_singleton]

theorem nodup_pathKeys_setGPTData {collection : List (Str × GPTData)} (p : Str) (gpt : GPTData)
    (h : (pathKeys collection).Nodup) : (pathKeys (setGPTData collection p gpt)).Nodup := by
  rw [pathKeys_setGPTData]
  split
  next => exact h
  next hmem =>
    rw [List.nodup_append_comm, List.singleton_append, List.nodup_cons]
    exact ⟨hmem, h⟩

/-- What the turn of the loop for one table adds. -/
theorem scanTables_cons (name : Str) (names : List Str) (localPartitions : List Partition)
    (gptDataCollection : List (Str × GPTData)) :
    dev.scanTables (name :: names) (localPartitions, gptDataCollection) =
      match dev.loaded name with
      | none => dev.scanTables names (localPartitions, gptDataCollection)
      | some gpt =>
        dev.scanTables names
          (localPartitions ++ dev.tableEntries name, setGPTData gptDataCollection (append devBlock name) gpt) := by
  rw [scanTables]
  by_cases hrem : dev.isRemovable name = true
  · have hnone : dev.loaded name = none := if_pos hrem
    rw [if_pos hrem, hnone]
  · have hsame : dev.loaded name = dev.LoadPartitions (append devBlock name) := if_neg hrem
    rw [if_neg hrem, ← hsame]
    cases hload : dev.loaded name with
    | none => rfl
    | some gpt =>
      have hentries : dev.tableEntries name = dev.slotEntries (append devBlock name) 0 gpt.parts := by
        unfold tableEntries
        rw [hload]
      show dev.scanTables names (dev.scanSlots _ 0 gpt.parts localPartitions, _) = _
      rw [scanSlots_eq, hentries]

theorem scanTables_partitions (names : List Str) (localPartitions : List Partition)
    (gptDataCollection : List (Str × GPTData)) :
    (dev.scanTables names (localPartitions, gptDataCollection)).1 =
      localPartitions ++ names.flatMap dev.tableEntries := by
  induction names generalizing localPartitions gptDataCollection with
  | nil => simp [scanTables]
  | cons name names ih =>
    rw [scanTables_cons, List.flatMap_cons, ← List.append_assoc]
    cases hload : dev.loaded name with
    | none =>
      have hempty : dev.tableEntries name = [] := by
        unfold tableEntries
        rw [hload]
      rw [hempty, List.append_nil]
      exact ih _ _
    | some gpt => exact ih _ _

/-- The map has one key for each path that loads, besides those it had. -/
theorem mem_pathKeys_scanTables {names : List Str} {localPartitions : List Partition}
    {gptDataCollection : List (Str × GPTData)} {key : Str} :
    key ∈ pathKeys (dev.scanTables names (localPartitions, gptDataCollection)).2 ↔
      key ∈ pathKeys gptDataCollection ∨
        ∃ name ∈ names, (dev.loaded name).isSome = true ∧ key = squeeze (append devBlock name) := by
  induction names generalizing localPartitions gptDataCollection with
  | nil => simp [scanTables]
  | cons name names ih =>
    rw [scanTables_cons, List.exists_mem_cons_iff]
    cases hload : dev.loaded name with
    | none => simp [ih]
    | some gpt => simp [ih, mem_pathKeys_setGPTData, or_assoc]

theorem nodup_pathKeys_scanTables {names : List Str} {localPartitions : List Partition}
    {gptDataCollection : List (Str × GPTData)} (h : (pathKeys gptDataCollection).Nodup) :
    (pathKeys (dev.scanTables names (localPartitions, gptDataCollection)).2).Nodup := by
  induction names generalizing localPartitions gptDataCollection with
  | nil => exact h
  | cons name names ih =>
    rw [scanTables_cons]
    cases dev.loaded name with
    | none => exact ih h
    | some gpt => exact ih (nodup_pathKeys_setGPTData _ gpt h)

/-- Data under a path has been read from a table of that path. -/
theorem mem_scanTables_gptData {names : List Str} {localPartitions : List Partition}
    {gptDataCollection : List (Str × GPTData)} {entry : Str × GPTData}
    (h : entry ∈ (dev.scanTables names (localPartitions, gptDataCollection)).2) :
    entry ∈ gptDataCollection ∨
      ∃ name ∈ names, squeeze entry.1 = squeeze (append devBlock name) ∧ dev.loaded name = some entry.2 := by
  induction names generalizing localPartitions gptDataCollection with
  | nil => exact Or.inl h
  | cons name names ih =>
    rw [scanTables_cons] at h
    rw [List.exists_mem_cons_iff]
    cases hload : dev.loaded name with
    | none =>
      rw [hload] at h
      rcases ih h with hold | hlater
      · exact Or.inl hold
      · exact Or.inr (Or.inr hlater)
    | some gpt =>
      rw [hload] at h
      rcases ih h with hset | hlater
      · rcases mem_setGPTData hset with hold | ⟨hpath, hdata⟩
        · exact Or.inl hold
        · exact Or.inr (Or.inl ⟨hpath, congrArg some hdata.symm⟩)
      · exact Or.inr (Or.inr hlater)

/-- Under plain names no key is met again. -/
theorem scanTables_gptData {names : List Str} (hfile : ∀ name ∈ names, '/' ∉ name) (hnodup : names.Nodup)
    {localPartitions : List Partition} {gptDataCollection : List (Str × GPTData)}
    (hfresh : ∀ entry ∈ gptDataCollection, ∀ name ∈ names, squeeze entry.1 ≠ squeeze (append devBlock name)) :
    (dev.scanTables names (localPartitions, gptDataCollection)).2 =
      gptDataCollection ++ names.filterMap dev.tableData := by
  induction names generalizing localPartitions gptDataCollection with
  | nil => simp [scanTables]
  | cons name names ih =>
    rw [List.forall_mem_cons] at hfile
    obtain ⟨hnot, hrest⟩ := List.nodup_cons.mp hnodup
    have hfresh' : ∀ entry ∈ gptDataCollection, ∀ other ∈ names, squeeze entry.1 ≠ squeeze (append devBlock other) :=
      fun e he other ho => hfresh e he other (List.mem_cons_of_mem _ ho)
    rw [scanTables_cons]
    cases hload : dev.loaded name with
    | none =>
      have hnone : dev.tableData name = none := by simp [tableData, hload]
      rw [List.filterMap_cons_none hnone]
      exact ih hfile.2 hrest hfresh'
    | some gpt =>
      have hsome : dev.tableData name = some (append devBlock name, gpt) := by simp [tableData, hload]
      have hnext : ∀ e ∈ gptDataCollection ++ [(append devBlock name, gpt)], ∀ other ∈ names,
          squeeze e.1 ≠ squeeze (append devBlock other) := by
        intro e he other ho
        rcases List.mem_append.mp he with hold | hnew
        · exact hfresh' e hold other ho
        · rw [List.mem_singleton.mp hnew]
          intro heq
          have hsame := squeeze_devBlock_inj hfile.1 (hfile.2 other ho) heq
          exact hnot (hsame ▸ ho)
      dsimp only
      rw [setGPTData_fresh gpt fun e he => hfresh e he name List.mem_cons_self, ih hfile.2 hrest hnext,
        List.filterMap_cons_some hsome, List.append_assoc]
      rfl

theorem mem_tableData {names : List Str} {entry : Str × GPTData} : entry ∈ names.filterMap dev.tableData ↔
    ∃ name ∈ names, entry.1 = append devBlock name ∧ dev.loaded name = some entry.2 := by
  rw [List.mem_filterMap]
  refine exists_congr fun name => and_congr_right fun _ => ?_
  unfold tableData
  rw [Option.map_eq_some_iff]
  constructor
  · intro h
    obtain ⟨gpt, hgpt, rfl⟩ := h
    exact ⟨rfl, hgpt⟩
  · intro h
    obtain ⟨hpath, hgpt⟩ := h
    exact ⟨entry.2, hgpt, Prod.ext hpath.symm rfl⟩

theorem tableData_pairwise {names : List Str} (hfile : ∀ name ∈ names, '/' ∉ name) (hnodup : names.Nodup) :
    (names.filterMap dev.tableData).Pairwise fun a b => squeeze a.1 ≠ squeeze b.1 := by
  rw [List.pairwise_filterMap]
  refine hnodup.imp_of_mem ?_
  intro a b ha hb hab x hx y hy heq
  obtain ⟨_, _, rfl⟩ := Option.map_eq_some_iff.mp hx
  obtain ⟨_, _, rfl⟩ := Option.map_eq_some_iff.mp hy
  exact hab (squeeze_devBlock_inj (hfile a ha) (hfile b hb) heq)

/-- A used slot of a table that the scan reads. -/
def UsedSlot (dev : ScanDevice) (name : Str) (i : Nat) : Prop :=
  ∃ gpt part, dev.loaded name = some gpt ∧ gpt.parts[i]? = some part ∧ part.IsUsed = true

/-- No two of the names lead to one path with a used slot there. -/
def SlotsApart (dev : ScanDevice) (names : List Str) : Prop :=
  names.Pairwise fun a b =>
    squeeze (append devBlock a) = squeeze (append devBlock b) → ∀ i, ¬ (dev.UsedSlot a i ∧ dev.UsedSlot b i)

theorem slotsApart_of_plain {names : List Str} (hfile : ∀ name ∈ names, '/' ∉ name) (hnodup : names.Nodup) :
    dev.SlotsApart names := by
  refine hnodup.imp_of_mem fun ha hb hne heq => ?_
  exact absurd (squeeze_devBlock_inj (hfile _ ha) (hfile _ hb) heq) hne

theorem usedSlot_iff {name : Str} {i : Nat} :
    dev.UsedSlot name i ↔ ∃ q ∈ dev.tableEntries name, q.localIndex = i := by
  constructor
  · rintro ⟨gpt, part, hload, hpart, hused⟩
    exact ⟨_, mem_tableEntries.mpr ⟨gpt, i, part, hload, hpart, hused, rfl⟩, rfl⟩
  · rintro ⟨q, hq, rfl⟩
    obtain ⟨gpt, j, part, hload, hpart, hused, rfl⟩ := mem_tableEntries.mp hq
    exact ⟨gpt, part, hload, hpart, hused⟩

theorem tableEntries_once (name : Str) :
    (dev.tableEntries name).Pairwise fun a b => a.localIndex ≠ b.localIndex := by
  unfold tableEntries
  cases dev.loaded name with
  | none => exact List.Pairwise.nil
  | some gpt => exact slotEntries_pairwise _ 0 gpt.parts

/-- Over all tables no slot is registered twice, unless two names lead to it. -/
theorem tableEntries_pairwise_iff {names : List Str} : (names.flatMap dev.tableEntries).Pairwise (fun a b =>
      (squeeze a.localTablePath, a.localIndex) ≠ (squeeze b.localTablePath, b.localIndex)) ↔
    dev.SlotsApart names := by
  rw [List.pairwise_flatMap, and_iff_right]
  · refine List.Pairwise.iff fun a b => ?_
    constructor
    · intro h hpath i hboth
      obtain ⟨x, hx, hindex⟩ := usedSlot_iff.mp hboth.1
      obtain ⟨y, hy, hindex'⟩ := usedSlot_iff.mp hboth.2
      refine h x hx y hy ?_
      rw [tableEntries_path hx, tableEntries_path hy, hpath, hindex, hindex']
    · intro h x hx y hy heq
      obtain ⟨hpath, hindex⟩ := Prod.ext_iff.mp heq
      dsimp only at hpath hindex
      rw [tableEntries_path hx, tableEntries_path hy] at hpath
      exact h hpath x.localIndex ⟨usedSlot_iff.mpr ⟨x, hx, rfl⟩, usedSlot_iff.mpr ⟨y, hy, hindex.symm⟩⟩
  · intro name _
    refine (tableEntries_once name).imp fun hne heq => ?_
    exact hne (Prod.ext_iff.mp heq).2

end ScanDevice

/-- What a scan reads and writes of a `PartitionTableData`. The table names are whatever
`setTables` was given, in the order of their iteration. -/
structure TableStore where
  gptDataCollection : List (Str × GPTData)
  localPartitions : List Partition
  localTableNames : List Str
  buildAutoOnDiskChanges : Bool := true
  nodup : localTableNames.Nodup
  physical : ∀ p ∈ localPartitions, p.isLogical = false

namespace TableStore

theorem physical_nil : ∀ p ∈ ([] : List Partition), p.isLogical = false := fun _ h => absurd h List.not_mem_nil

theorem scan_physical (dev : ScanDevice) (std : StdSort) (names : List Str) :
    ∀ p ∈ (std.sort (dev.scanTables names ([], [])).1).map fun p => (Partition.moveAssign .empty p).1,
      p.isLogical = false := by
  intro p hp
  obtain ⟨q, hq, rfl⟩ := List.mem_map.mp hp
  have hmem := (std.perm _).mem_iff.mp hq
  rw [ScanDevice.scanTables_partitions, List.nil_append] at hmem
  obtain ⟨name, _, hentry⟩ := List.mem_flatMap.mp hmem
  obtain ⟨_, _, _, _, _, _, rfl⟩ := ScanDevice.mem_tableEntries.mp hentry
  rfl

/-- Sorting moves every partition to its place. -/
def scan (dev : ScanDevice) (std : StdSort) (t : TableStore) : Outcome TableStore :=
  if t.localTableNames = [] then raise ⟨"Empty disk path.", 1, false⟩
  else
    .ok { t with
      gptDataCollection := (dev.scanTables t.localTableNames ([], [])).2
      localPartitions := (std.sort (dev.scanTables t.localTableNames ([], [])).1).map fun p =>
        (Partition.moveAssign .empty p).1
      physical := scan_physical dev std t.localTableNames }

/-- The store holds what the disks of `names` hold: an entry for each used slot of a
table that is not removable and loads, sorted by name, and the data of just these tables. -/
structure Scanned (dev : ScanDevice) (names : List Str) (t : TableStore) : Prop where
  entries : ∀ p, p ∈ t.localPartitions ↔ ∃ name ∈ names, ∃ gpt i part, dev.loaded name = some gpt ∧
    gpt.parts[i]? = some part ∧ part.IsUsed = true ∧
    p = ⟨append ScanDevice.devBlock name, [], i, part,
      dev.openpart_open (Partition.slotPath (append ScanDevice.devBlock name) i), false⟩
  device : ∀ p ∈ t.localPartitions, p.path = Partition.slotPath p.localTablePath p.localIndex
  sorted : t.localPartitions.Pairwise fun a b => ¬ b.name < a.name
  tables : ∀ name ∈ names, (dev.loaded name).isSome = true →
    ∃ entry ∈ t.gptDataCollection, squeeze entry.1 = squeeze (append ScanDevice.devBlock name)
  data : ∀ entry ∈ t.gptDataCollection, ∃ name ∈ names,
    squeeze entry.1 = squeeze (append ScanDevice.devBlock name) ∧ dev.loaded name = some entry.2
  tablesOnce : t.gptDataCollection.Pairwise fun a b => squeeze a.1 ≠ squeeze b.1

/-- No slot of a table is registered twice. -/
def Once (t : TableStore) : Prop :=
  t.localPartitions.Pairwise fun a b =>
    (squeeze a.localTablePath, a.localIndex) ≠ (squeeze b.localTablePath, b.localIndex)

variable {dev : ScanDevice} {std : StdSort} {t t' : TableStore}

theorem scan_of_names (dev : ScanDevice) (std : StdSort) (hnames : t.localTableNames ≠ []) :
    ∃ t', t.scan dev std = .ok t' := ⟨_, if_neg hnames⟩

/-- What a scan that returns has put together, and what it has left alone. -/
theorem scan_ok (h : t.scan dev std = .ok t') :
    t'.localPartitions = std.sort (t.localTableNames.flatMap dev.tableEntries) ∧
      t'.gptDataCollection = (dev.scanTables t.localTableNames ([], [])).2 ∧
      t'.localTableNames = t.localTableNames ∧ t'.buildAutoOnDiskChanges = t.buildAutoOnDiskChanges := by
  unfold scan at h
  split at h
  next => cases h
  next =>
    cases h
    refine ⟨?_, rfl, rfl, rfl⟩
    show (std.sort (dev.scanTables t.localTableNames ([], [])).1).map id = _
    rw [List.map_id, ScanDevice.scanTables_partitions, List.nil_append]

theorem scanned_of_scan (h : t.scan dev std = .ok t') : Scanned dev t.localTableNames t' := by
  obtain ⟨hlist, hgpt, _, _⟩ := scan_ok h
  have hkeys : (ScanDevice.pathKeys t'.gptDataCollection).Nodup := by
    rw [hgpt]
    exact ScanDevice.nodup_pathKeys_scanTables List.nodup_nil
  refine ⟨?_, ?_, ?_, ?_, ?_, List.pairwise_map.mp hkeys⟩
  · intro p
    rw [hlist, (std.perm _).mem_iff, List.mem_flatMap]
    exact exists_congr fun name => and_congr_right fun _ => ScanDevice.mem_tableEntries
  · intro p hp
    unfold Partition.path
    rw [t'.physical p hp]
    rfl
  · rw [hlist]
    exact std.sorted _
  · intro name hname hload
    have hkey : squeeze (append ScanDevice.devBlock name) ∈ ScanDevice.pathKeys t'.gptDataCollection := by
      rw [hgpt]
      exact ScanDevice.mem_pathKeys_scanTables.mpr (Or.inr ⟨name, hname, hload, rfl⟩)
    exact List.mem_map.mp hkey
  · intro entry hentry
    rw [hgpt] at hentry
    exact (ScanDevice.mem_scanTables_gptData hentry).resolve_left List.not_mem_nil

theorem once_iff_of_scan (h : t.scan dev std = .ok t') : t'.Once ↔ dev.SlotsApart t.localTableNames := by
  unfold Once
  rw [(scan_ok h).1, (std.perm _).pairwise_iff (fun hne heq => hne heq.symm)]
  exact ScanDevice.tableEntries_pairwise_iff

/-- A scan that returns leaves the store with what the disks hold, each slot once as long
as no two names lead to it, which plain names do not. -/
theorem scan_exact (h : t.scan dev std = .ok t') :
    Scanned dev t.localTableNames t' ∧ (t'.Once ↔ dev.SlotsApart t.localTableNames) ∧
      ((∀ name ∈ t.localTableNames, '/' ∉ name) → t'.Once) := by
  have honce := once_iff_of_scan h
  exact ⟨scanned_of_scan h, honce, fun hfile => honce.mpr (ScanDevice.slotsApart_of_plain hfile t.nodup)⟩

/-- Four disks: two that load, one of them with an unused slot, one that is removable, and
one that does not load. Only the first node can be opened. -/
def fourDisks : ScanDevice where
  removable path := if path = "/sys/block/sdb/removable".toList then some "1".toList else some "0".toList
  LoadPartitions path :=
    if path = "/dev/block/sda".toList then
      some ⟨512, [⟨"vendor", true, 1, 0, 7⟩, ⟨[], false, 0, 0, 0⟩, ⟨"boot", true, 2, 8, 15⟩], 0, 3⟩
    else if path = "/dev/block/sdc".toList then none
    else some ⟨4096, [⟨"abl", true, 3, 0, 7⟩], 0, 3⟩
  openpart_open path := if path = "/dev/block/sda1".toList then some ⟨path, 4096, true⟩ else none

/-- The store of another device, whose names have been replaced. -/
def fourNames : TableStore where
  gptDataCollection := (bootTable 1).gptDataCollection
  localPartitions := (bootTable 1).localPartitions
  localTableNames := ["sdd", "sdb", "sda", "sdc"]
  nodup := by decide
  physical := (bootTable 1).physical

theorem scan_exact_four : ∃ t, fourNames.scan fourDisks .merge = .ok t ∧
    Scanned fourDisks ["sdd", "sdb", "sda", "sdc"] t ∧ t.Once := by
  obtain ⟨t, hscan⟩ := scan_of_names (t := fourNames) fourDisks .merge (List.cons_ne_nil _ _)
  obtain ⟨hscanned, _, honce⟩ := scan_exact hscan
  have hplain : ∀ name ∈ fourNames.localTableNames, '/' ∉ name := by decide
  exact ⟨t, hscan, hscanned, honce hplain⟩

/-- The disk `sda` under its name and under its path. -/
def sdaTwice : TableStore where
  gptDataCollection := []
  localPartitions := []
  localTableNames := ["sda", "/dev/block/sda"]
  nodup := by decide
  physical := physical_nil

/-- Both names lead to the same disk, and each of its slots is registered for both. -/
theorem slots_registered_twice : ∃ t, sdaTwice.scan fourDisks .merge = .ok t ∧ ¬ t.Once := by
  obtain ⟨t, hscan⟩ := scan_of_names (t := sdaTwice) fourDisks .merge (List.cons_ne_nil _ _)
  refine ⟨t, hscan, fun honce => ?_⟩
  have hapart := (once_iff_of_scan hscan).mp honce
  have hname : fourDisks.UsedSlot "sda" 0 := ⟨_, _, rfl, rfl, rfl⟩
  have hpath : fourDisks.UsedSlot "/dev/block/sda" 0 := ⟨_, _, rfl, rfl, rfl⟩
  exact List.pairwise_pair.mp hapart (by decide) 0 ⟨hname, hpath⟩

end TableStore

namespace PartitionTableData

def toStore (t : PartitionTableData) : TableStore where
  gptDataCollection := t.gptDataCollection
  localPartitions := t.localPartitions
  localTableNames := t.localTableNames.list
  buildAutoOnDiskChanges := t.buildAutoOnDiskChanges
  nodup := t.localTableNames.nodup
  physical := t.physical

/-- Takes over what a scan of `s` has registered. -/
def withStore (t : PartitionTableData) (s : TableStore) : PartitionTableData :=
  { t with
    gptDataCollection := s.gptDataCollection
    localPartitions := s.localPartitions
    physical := s.physical }

def scan (dev : ScanDevice) (std : StdSort) (t : PartitionTableData) : Outcome PartitionTableData :=
  (t.toStore.scan dev std).map t.withStore

/-- What a scan that returns has put together, and what it has left alone. -/
theorem scan_ok {dev : ScanDevice} {std : StdSort} {t t' : PartitionTableData}
    (h : t.scan dev std = .ok t') :
    t'.localPartitions = std.sort (t.localTableNames.list.flatMap dev.tableEntries) ∧
      t'.gptDataCollection = t.localTableNames.list.filterMap dev.tableData ∧
      t'.localTableNames = t.localTableNames ∧ t'.buildAutoOnDiskChanges = t.buildAutoOnDiskChanges := by
  unfold scan at h
  cases hscan : t.toStore.scan dev std with
  | error stop =>
    rw [hscan] at h
    cases h
  | ok s =>
    rw [hscan] at h
    cases h
    obtain ⟨hlist, hgpt, _, _⟩ := TableStore.scan_ok hscan
    refine ⟨hlist, ?_, rfl, rfl⟩
    show s.gptDataCollection = _
    rw [hgpt]
    exact ScanDevice.scanTables_gptData t.localTableNames.fileNames t.localTableNames.nodup
      (fun entry he => absurd he List.not_mem_nil)

theorem mem_partitions_of_scan {dev : ScanDevice} {std : StdSort} {t t' : PartitionTableData}
    (h : t.scan dev std = .ok t') {p : Partition} :
    p ∈ t'.localPartitions ↔ ∃ name ∈ t.localTableNames.list, p ∈ dev.tableEntries name := by
  rw [(scan_ok h).1, (std.perm _).mem_iff, List.mem_flatMap]

theorem mem_gptData_of_scan {dev : ScanDevice} {std : StdSort} {t t' : PartitionTableData}
    (h : t.scan dev std = .ok t') {entry : Str × GPTData} : entry ∈ t'.gptDataCollection ↔
      ∃ name ∈ t.localTableNames.list, entry.1 = append ScanDevice.devBlock name ∧
        dev.loaded name = some entry.2 := by
  rw [(scan_ok h).2.1]
  exact ScanDevice.mem_tableData

/-- The data under the path of a listed table is that of its disk. -/
theorem loaded_of_scan {dev : ScanDevice} {std : StdSort} {t t' : PartitionTableData}
    (h : t.scan dev std = .ok t') {entry : Str × GPTData} (hentry : entry ∈ t'.gptDataCollection) {name : Str}
    (hname : name ∈ t.localTableNames.list) (hpath : squeeze entry.1 = squeeze (append ScanDevice.devBlock name)) :
    dev.loaded name = some entry.2 := by
  obtain ⟨other, hother, hown, hload⟩ := (mem_gptData_of_scan h).mp hentry
  have hfile := t.localTableNames.fileNames
  rw [hown] at hpath
  rwa [ScanDevice.squeeze_devBlock_inj (hfile other hother) (hfile name hname) hpath] at hload

/-- A device with the one disk of `bootTable`, whose nodes cannot be opened. -/
def bootDevice : ScanDevice where
  removable _ := some "0"
  LoadPartitions _ := some ⟨512, [⟨"boot", true, 1, 0, 1⟩], 0, 3⟩
  openpart_open _ := none

end PartitionTableData

end PartitionManager
