import Mathlib.Data.List.Forall2
import PartitionManager.Flags
import PartitionManager.Library.Checks
import PartitionManager.Magic

namespace PartitionManager

namespace FileSystemMagic

def EXTFS_FS : UInt64 := 0xEF53
def F2FS_FS : UInt64 := 0xF2F52010
def EROFS_FS : UInt64 := 0xE0F5E1E2
def EXFAT_FS : UInt64 := 0x5441465845
def FAT12_FS : UInt64 := 0x3231544146
def FAT16_FS : UInt64 := 0x3631544146
def FAT32_FS : UInt64 := 0x3233544146
def NTFS_FS : UInt64 := 0x5346544E
def MSDOS_FS : UInt64 := 0x4D44

end FileSystemMagic

namespace AndroidMagic

def BOOT_IMAGE : UInt64 := 0x2144494F52444E41
def VBOOT_IMAGE : UInt64 := 0x544F4F4252444E56
def LK_IMAGE : UInt64 := 0x00006B6C
def DTBO_IMAGE : UInt64 := 0x1EABB7D7
def VBMETA_IMAGE : UInt64 := 0x425641
def SUPER_IMAGE : UInt64 := 0x61446C67
def SPARSE_IMAGE : UInt64 := 0x3AFF26ED
def DDR_IMAGE : UInt64 := 0x00524444
def ZTECFG : UInt64 := 0x7A7465636667
def ELF : UInt64 := 0x464C457F
def RAW : UInt64 := 0x00000000

end AndroidMagic

/-- Insertion into a `std::map`: what is there under the same key stays. -/
def insertMagic (entry : UInt64 × Str) : List (UInt64 × Str) → List (UInt64 × Str)
  | [] => [entry]
  | first :: entries =>
    if entry.1 < first.1 then entry :: first :: entries
    else if entry.1 = first.1 then first :: entries
    else first :: insertMagic entry entries

theorem mem_insertMagic {entry e : UInt64 × Str} {entries : List (UInt64 × Str)} (h : e ∈ insertMagic entry entries) :
    e = entry ∨ e ∈ entries := by
  induction entries with
  | nil => exact Or.inl (List.mem_singleton.mp h)
  | cons first entries ih =>
    unfold insertMagic at h
    split at h
    next => exact (List.mem_cons.mp h).imp_right fun h => h
    next =>
      split at h
      next => exact Or.inr h
      next =>
        rcases List.mem_cons.mp h with rfl | h
        · exact Or.inr List.mem_cons_self
        · exact (ih h).imp_right (List.mem_cons_of_mem _)

theorem insertMagic_sorted {entry : UInt64 × Str} {entries : List (UInt64 × Str)}
    (h : entries.Pairwise fun a b => a.1 < b.1) : (insertMagic entry entries).Pairwise fun a b => a.1 < b.1 := by
  induction entries with
  | nil => exact List.pairwise_singleton _ _
  | cons first entries ih =>
    obtain ⟨hfirst, hrest⟩ := List.pairwise_cons.mp h
    unfold insertMagic
    split
    next hlt =>
      refine List.pairwise_cons.mpr ⟨fun e he => ?_, h⟩
      rcases List.mem_cons.mp he with rfl | he
      · exact hlt
      · exact UInt64.lt_trans hlt (hfirst e he)
    next hge =>
      split
      next => exact h
      next hne =>
        refine List.pairwise_cons.mpr ⟨fun e he => ?_, ih hrest⟩
        rcases mem_insertMagic he with rfl | he
        · exact UInt64.lt_of_le_of_ne (UInt64.not_lt.mp hge) (Ne.symm hne)
        · exact hfirst e he

/-- A `std::map<uint64_t, std::string>`, in the order in which it is gone through. -/
structure MagicMap where
  entries : List (UInt64 × Str)
  sorted : entries.Pairwise fun a b => a.1 < b.1

namespace MagicMap

def empty : MagicMap := ⟨[], List.Pairwise.nil⟩

def insert (map : MagicMap) (entry : UInt64 × Str) : MagicMap :=
  ⟨insertMagic entry map.entries, insertMagic_sorted map.sorted⟩

def ofList (entries : List (UInt64 × Str)) : MagicMap := entries.foldl insert empty

end MagicMap

/-- The maps of `Extra`, which a program has one of each. -/
structure MagicTables where
  FileSystemMagics : MagicMap
  AndroidMagics : MagicMap
  Magics : MagicMap

def androidMagics : List (UInt64 × Str) :=
  [(AndroidMagic.BOOT_IMAGE, "Android Boot Image"), (AndroidMagic.VBOOT_IMAGE, "Android Vendor Boot Image"),
    (AndroidMagic.LK_IMAGE, "Android LK (Bootloader)"), (AndroidMagic.DTBO_IMAGE, "Android DTBO Image"),
    (AndroidMagic.VBMETA_IMAGE, "Android VBMeta Image"), (AndroidMagic.SUPER_IMAGE, "Android Super Image"),
    (AndroidMagic.SPARSE_IMAGE, "Android Sparse Image"), (AndroidMagic.ZTECFG, "ZTE Configuration"),
    (AndroidMagic.DDR_IMAGE, "DDR Image"), (AndroidMagic.ELF, "ELF"), (AndroidMagic.RAW, "Raw Data")]

def fileSystemMagics : List (UInt64 × Str) :=
  [(FileSystemMagic.EXTFS_FS, "EXT2/3/4"), (FileSystemMagic.F2FS_FS, "F2FS"), (FileSystemMagic.EROFS_FS, "EROFS"),
    (FileSystemMagic.EXFAT_FS, "exFAT"), (FileSystemMagic.FAT12_FS, "FAT12"), (FileSystemMagic.FAT16_FS, "FAT16"),
    (FileSystemMagic.FAT32_FS, "FAT32"), (FileSystemMagic.NTFS_FS, "NTFS"), (FileSystemMagic.MSDOS_FS, "MSDOS")]

/-- As the program starts. -/
def MagicTables.start : MagicTables where
  FileSystemMagics := .ofList fileSystemMagics
  AndroidMagics := .ofList androidMagics
  Magics := .ofList (androidMagics ++ fileSystemMagics)

def upperHexDigit (n : Nat) : Char := if n < 10 then Char.ofNat (48 + n) else Char.ofNat (55 + n)

def formatMagic (magic : UInt64) : Str :=
  "0x" ++ ((List.range 16).map fun i => upperHexDigit (magic.toNat / 16 ^ (15 - i) % 16))

structure TypePlugin where
  contents : List Str
  bufferSize : Nat
  onlyCheckAndroidMagics : Bool := false
  onlyCheckFileSystemMagics : Bool := false

/-- What `run` meets: the tables, the answers at the prompt for each of the contents, and what
a search for a magic finds at a path. -/
structure TypeWorld where
  flags : BasicFlags
  fs : FileSystem
  answers : Nat → List Str
  file : Str → UInt64 → MagicFile

namespace TypePlugin

variable (plugin : TypePlugin)

/-- Merging into a map that is empty takes every entry out of the other one. -/
def merge (tables : MagicTables) : MagicMap × MagicTables :=
  if plugin.onlyCheckAndroidMagics then (tables.AndroidMagics, { tables with AndroidMagics := .empty })
  else if plugin.onlyCheckFileSystemMagics then (tables.FileSystemMagics, { tables with FileSystemMagics := .empty })
  else (tables.Magics, { tables with Magics := .empty })

variable (abi : Abi) (w : TypeWorld) (fuel : Nat)

/-- The loop over the map: the first entry whose magic is found. -/
def search (path : Outcome Str) : List (UInt64 × Str) → Outcome (Option (UInt64 × Str))
  | [] => .ok none
  | entry :: entries => do
    let file ← path
    let found ← (hasMagic abi entry.1 (abi.wrap plugin.bufferSize) (w.file file entry.1) fuel).result
    if found then .ok (some entry) else search path entries

def typeLine (content : Str) (entry : UInt64 × Str) : Str :=
  content ++ " contains " ++ entry.2 ++ " magic (" ++ formatMagic entry.1 ++ ")"

def notFound (content : Str) : HelperError := ⟨"Couldn't find partition or image file: " ++ content, 1, false⟩

def undetermined (content : Str) : HelperError :=
  let hint : Str := if content = ("userdata" : Str) then " (encrypted filesystem?)" else ""
  ⟨"Couldn't determine type of " ++ content ++ hint, 1, false⟩

/-- One turn of the loop over the contents: the line that is printed. -/
def typeOf (map : MagicMap) (answers : List Str) (content : Str) : Outcome Str := do
  let (partition, tType) ← findPartition w.flags w.fs answers content
  if tType.isNone && partition.isNone && !w.fs.fileIsExists content then raise (notFound content)
  else
    let path : Outcome Str :=
      if w.fs.fileIsExists content then .ok content
      else
        match partition with
        | some partition => partition.absolutePath w.fs
        | none => .error (.undefined .nullDereference)
    let found ← plugin.search abi w fuel path map.entries
    match found with
    | some entry => .ok (typeLine content entry)
    | none => raise (undetermined content)

/-- The lines that are printed for the contents from the `i`-th on, and how `run` ends. -/
def typeAll (map : MagicMap) (i : Nat) : List Str → List Str × Outcome Bool
  | [] => ([], .ok true)
  | content :: contents =>
    match plugin.typeOf abi w fuel map (w.answers i) content with
    | .error stop => ([], .error stop)
    | .ok line => (line :: (typeAll map (i + 1) contents).1, (typeAll map (i + 1) contents).2)

/-- `run`, with the maps that it leaves. -/
def run (tables : MagicTables) : MagicTables × List Str × Outcome Bool :=
  ((plugin.merge tables).2, plugin.typeAll abi w fuel (plugin.merge tables).1 0 plugin.contents)

end TypePlugin

/-- The file has the magic among the bytes that are read of it. A magic without bytes is in none. -/
def MagicFile.Has (file : MagicFile) (magic : UInt64) : Prop :=
  file.opens = true ∧ magic ≠ 0 ∧ magicBytes magic <:+: file.data

/-- The file does not open, or as many bytes are read of it as the magic has. -/
def MagicFile.Readable (abi : Abi) (buf : Int) (magic : UInt64) (file : MagicFile) : Prop :=
  file.opens = false ∨ (file.ReadInto abi buf ∧ (getMagicLength magic : Int) ≤ file.bytesRead)

/-- The first entry with a magic that the files have. -/
def FirstMagic (file : UInt64 → MagicFile) (entries : List (UInt64 × Str)) : Option (UInt64 × Str) → Prop
  | none => ∀ entry ∈ entries, ¬ (file entry.1).Has entry.1
  | some entry => entry ∈ entries ∧ (file entry.1).Has entry.1 ∧
    ∀ other ∈ entries, other.1 < entry.1 → ¬ (file other.1).Has other.1

/-- Whether a content is looked for as a file, or else in which partition. -/
inductive TypePath (w : TypeWorld) (answers : List Str) (content : Str) : Outcome Str → Prop
  | file (found : Option Partition × Option TableType) (hexist : w.fs.fileIsExists content = true)
      (hfound : findPartition w.flags w.fs answers content = .ok found) : TypePath w answers content (.ok content)
  | partition (partition : Partition) (tType : Option TableType) (hexist : w.fs.fileIsExists content = false)
      (hfound : findPartition w.flags w.fs answers content = .ok (some partition, tType)) :
      TypePath w answers content (partition.absolutePath w.fs)

/-- What is printed for a content, or how it ends `run`. -/
inductive TypeResult (map : MagicMap) (w : TypeWorld) (answers : List Str) (content : Str) : Outcome Str → Prop
  | stopped (stop : Stop) (hfound : findPartition w.flags w.fs answers content = .error stop) :
      TypeResult map w answers content (.error stop)
  | missing (hexist : w.fs.fileIsExists content = false)
      (hfound : findPartition w.flags w.fs answers content = .ok (none, none)) :
      TypeResult map w answers content (raise (TypePlugin.notFound content))
  | lost (stop : Stop) (hpath : TypePath w answers content (.error stop)) :
      TypeResult map w answers content (.error stop)
  | typed (path : Str) (entry : UInt64 × Str) (hpath : TypePath w answers content (.ok path))
      (hfirst : FirstMagic (w.file path) map.entries (some entry)) :
      TypeResult map w answers content (.ok (TypePlugin.typeLine content entry))
  | undetermined (path : Outcome Str) (hpath : TypePath w answers content path)
      (hnone : ∀ file, path = .ok file → FirstMagic (w.file file) map.entries none)
      (hlost : ∀ stop, path = .error stop → map.entries = []) :
      TypeResult map w answers content (raise (TypePlugin.undetermined content))

/-- The lines of the first contents, all of them if `run` returns; otherwise the next one ends it. -/
def TypeRun (map : MagicMap) (w : TypeWorld) (contents : List (Str × Nat)) (printed : List Str)
    (result : Outcome Bool) : Prop :=
  ∃ done rest, contents = done ++ rest ∧
    List.Forall₂ (fun content line => TypeResult map w (w.answers content.2) content.1 (.ok line)) done printed ∧
    ((rest = [] ∧ result = .ok true) ∨
      ∃ content later stop, rest = content :: later ∧ result = .error stop ∧
        TypeResult map w (w.answers content.2) content.1 (.error stop))

theorem hasMagic_settles {abi : Abi} {buf : Int} {magic : UInt64} {file : MagicFile}
    (h : file.Readable abi buf magic) :
    ∃ least found, (∀ fuel ≥ least, (hasMagic abi magic buf file fuel).result = .ok found) ∧
      (found = true ↔ file.Has magic) := by
  rcases h with hclosed | ⟨hread, hlong⟩
  · refine ⟨0, false, fun fuel _ => ?_, ?_⟩
    · unfold hasMagic
      rw [hclosed]
      rfl
    · refine iff_of_false Bool.false_ne_true fun hhas => ?_
      rw [hhas.1] at hclosed
      cases hclosed
  · by_cases hzero : magic = 0
    · subst hzero
      refine ⟨0, false, fun fuel _ => ?_, iff_of_false Bool.false_ne_true fun hhas => hhas.2.1 rfl⟩
      have hbuf := hread.buffer
      have hbytes := hread.bytesRead
      unfold hasMagic
      rw [hread.opens, if_neg (by decide), if_neg (by omega), if_neg (by omega), if_pos (by decide)]
    · have hpos := getMagicLength_pos hzero
      have hdata := hread.data_length
      obtain ⟨exit, ⟨least, hrun⟩, found, hfound, htruth, _⟩ := hread.search_returns hpos (by omega)
      refine ⟨least, found, fun fuel hfuel => ?_, ?_⟩
      · have hmore := Loop.run_leave_mono hrun (fuel - least)
        rw [Nat.add_sub_cancel' hfuel] at hmore
        rw [hasMagic_eq hread hpos, hmore]
        exact hfound
      · rw [htruth]
        exact ⟨fun h => ⟨hread.opens, hzero, h⟩, fun h => h.2.2⟩

namespace TypePlugin

variable {plugin : TypePlugin} {abi : Abi} {w : TypeWorld} {map : MagicMap}

theorem search_settles {path : Str} {entries : List (UInt64 × Str)}
    (hsorted : entries.Pairwise fun a b => a.1 < b.1)
    (hread : ∀ entry ∈ entries, (∀ other ∈ entries, other.1 < entry.1 → ¬ (w.file path other.1).Has other.1) →
      (w.file path entry.1).Readable abi (abi.wrap plugin.bufferSize) entry.1) :
    ∃ least found, (∀ fuel ≥ least, plugin.search abi w fuel (.ok path) entries = .ok found) ∧
      FirstMagic (w.file path) entries found := by
  induction entries with
  | nil => exact ⟨0, none, fun _ _ => rfl, fun entry hmem => absurd hmem List.not_mem_nil⟩
  | cons entry entries ih =>
    obtain ⟨hless, hrest⟩ := List.pairwise_cons.mp hsorted
    have hfirst : ∀ other ∈ entry :: entries, ¬ other.1 < entry.1 := by
      intro other hmem hlt
      rcases List.mem_cons.mp hmem with rfl | hmem
      · exact UInt64.lt_irrefl _ hlt
      · exact UInt64.lt_irrefl _ (UInt64.lt_trans hlt (hless other hmem))
    obtain ⟨least, found, hfound, hhas⟩ := hasMagic_settles
      (hread entry List.mem_cons_self fun other hmem hlt => absurd hlt (hfirst other hmem))
    cases found with
    | true =>
      refine ⟨least, some entry, fun fuel hfuel => ?_, List.mem_cons_self, hhas.mp rfl, ?_⟩
      · unfold search
        rw [Checks.ok_bind, hfound fuel hfuel]
        rfl
      · exact fun other hmem hlt => absurd hlt (hfirst other hmem)
    | false =>
      have hnot : ¬ (w.file path entry.1).Has entry.1 := fun h => Bool.false_ne_true (hhas.mpr h)
      obtain ⟨least', found', hfound', hfirst⟩ := ih hrest fun e hmem hbefore =>
        hread e (List.mem_cons_of_mem _ hmem) (List.forall_mem_cons.mpr ⟨fun _ => hnot, hbefore⟩)
      refine ⟨max least least', found', fun fuel hfuel => ?_, ?_⟩
      · unfold search
        rw [Checks.ok_bind, hfound fuel (by omega)]
        exact hfound' fuel (by omega)
      · cases found' with
        | none => exact List.forall_mem_cons.mpr ⟨hnot, hfirst⟩
        | some e =>
          obtain ⟨hmem, hhas', hbefore⟩ := hfirst
          exact ⟨List.mem_cons_of_mem _ hmem, hhas', List.forall_mem_cons.mpr ⟨fun _ => hnot, hbefore⟩⟩

theorem search_lost {stop : Stop} {entries : List (UInt64 × Str)} (fuel : Nat) :
    plugin.search abi w fuel (.error stop) entries = if entries = [] then .ok none else .error stop := by
  cases entries with
  | nil => rfl
  | cons entry entries => rfl

theorem getCorrectTableObj_none {name : Str} {c1 c2 : Option BaseTableData}
    (h : (getCorrectTableObj name c1 c2 none).1 = none) : (getCorrectTableObj name c1 c2 none).2 = none := by
  cases c1 with
  | none => rfl
  | some c1 =>
    cases c2 with
    | none => rfl
    | some c2 =>
      unfold getCorrectTableObj at h ⊢
      dsimp only at h ⊢
      split at h
      next heq => rfl
      next => cases h
      next => cases h

/-- A search that finds no partition has found no table either. -/
theorem findPartition_none {flags : BasicFlags} {fs : FileSystem} {answers : List Str} {name : Str}
    {tType : Option TableType} (h : findPartition flags fs answers name = .ok (none, tType)) : tType = none := by
  have hfind : (do
      let partition ← setupPartition fs answers name (getCorrectTableObj name flags.first flags.second none).1
      .ok (partition, (getCorrectTableObj name flags.first flags.second none).2) :
        Outcome (Option Partition × Option TableType)) = .ok (none, tType) := h
  obtain ⟨partition, hsetup, heq⟩ := Checks.bind_ok_iff.mp hfind
  obtain ⟨rfl, rfl⟩ := Prod.mk.inj (Except.ok.inj heq)
  refine getCorrectTableObj_none ?_
  cases htable : (getCorrectTableObj name flags.first flags.second none).1 with
  | none => rfl
  | some table =>
    have hderef : ∀ x, derefOptional x ≠ .ok none := by
      intro x hx
      obtain ⟨found, _, hx⟩ := Checks.bind_ok_iff.mp hx
      cases found <;> cases hx
    rw [htable] at hsetup
    cases table <;> exact absurd hsetup (hderef _)

/-- What is searched for this content can be: its file, for the entries of the map up to the
first one that it has. -/
def Searchable (plugin : TypePlugin) (abi : Abi) (w : TypeWorld) (map : MagicMap) (answers : List Str)
    (content : Str) : Prop :=
  ∀ path, TypePath w answers content (.ok path) → ∀ entry ∈ map.entries,
    (∀ other ∈ map.entries, other.1 < entry.1 → ¬ (w.file path other.1).Has other.1) →
      (w.file path entry.1).Readable abi (abi.wrap plugin.bufferSize) entry.1

def Readable (plugin : TypePlugin) (abi : Abi) (w : TypeWorld) (map : MagicMap) : Prop :=
  ∀ content ∈ plugin.contents.zipIdx, plugin.Searchable abi w map (w.answers content.2) content.1

theorem typeOf_settles {answers : List Str} {content : Str} (hread : plugin.Searchable abi w map answers content) :
    ∃ least result, (∀ fuel ≥ least, plugin.typeOf abi w fuel map answers content = result) ∧
      TypeResult map w answers content result := by
  have hsearch : ∀ path : Outcome Str, TypePath w answers content path →
      ∃ least result, (∀ fuel ≥ least, (do
        let found ← plugin.search abi w fuel path map.entries
        match found with
        | some entry => (.ok (typeLine content entry) : Outcome Str)
        | none => raise (undetermined content)) = result) ∧ TypeResult map w answers content result := by
    intro path hpath
    cases path with
    | ok file =>
      obtain ⟨least, found, hfound, hfirst⟩ := search_settles map.sorted (hread file hpath)
      cases found with
      | some entry =>
        refine ⟨least, _, fun fuel hfuel => ?_, .typed file entry hpath hfirst⟩
        rw [hfound fuel hfuel]
        rfl
      | none =>
        refine ⟨least, _, fun fuel hfuel => ?_, .undetermined _ hpath ?_ fun stop h => nomatch h⟩
        · rw [hfound fuel hfuel]
          rfl
        · intro file' heq
          obtain rfl := Except.ok.inj heq
          exact hfirst
    | error stop =>
      by_cases hempty : map.entries = []
      · refine ⟨0, _, fun fuel _ => ?_, .undetermined _ hpath (fun file h => nomatch h) fun _ _ => hempty⟩
        rw [search_lost, if_pos hempty]
        rfl
      · refine ⟨0, _, fun fuel _ => ?_, .lost stop hpath⟩
        rw [search_lost, if_neg hempty]
        rfl
  unfold typeOf
  cases hfound : findPartition w.flags w.fs answers content with
  | error stop => exact ⟨0, _, fun _ _ => rfl, .stopped stop hfound⟩
  | ok found =>
    obtain ⟨partition, tType⟩ := found
    simp only [Checks.ok_bind]
    cases hexist : w.fs.fileIsExists content with
    | true =>
      simp only [Bool.not_true, Bool.and_false, Bool.false_eq_true, if_false, if_true]
      exact hsearch _ (.file _ hexist hfound)
    | false =>
      cases partition with
      | some partition =>
        simp only [Option.isNone_some, Bool.and_false, Bool.false_and, Bool.false_eq_true, if_false]
        exact hsearch _ (.partition partition tType hexist hfound)
      | none =>
        obtain rfl := findPartition_none hfound
        exact ⟨0, _, fun _ _ => rfl, .missing hexist hfound⟩

theorem typeAll_settles (i : Nat) (contents : List Str)
    (hread : ∀ content ∈ contents.zipIdx i, plugin.Searchable abi w map (w.answers content.2) content.1) :
    ∃ least, ∀ fuel ≥ least, TypeRun map w (contents.zipIdx i) (plugin.typeAll abi w fuel map i contents).1
      (plugin.typeAll abi w fuel map i contents).2 := by
  induction contents generalizing i with
  | nil => exact ⟨0, fun _ _ => ⟨[], [], rfl, .nil, Or.inl ⟨rfl, rfl⟩⟩⟩
  | cons content contents ih =>
    rw [List.zipIdx_cons, List.forall_mem_cons] at hread
    obtain ⟨least, result, hresult, htype⟩ := typeOf_settles hread.1
    obtain ⟨least', hrest⟩ := ih (i + 1) hread.2
    refine ⟨max least least', fun fuel hfuel => ?_⟩
    have hone := hresult fuel (by omega)
    unfold typeAll
    rw [hone, List.zipIdx_cons]
    cases result with
    | error stop =>
      exact ⟨[], _, rfl, .nil, Or.inr ⟨_, _, stop, rfl, rfl, htype⟩⟩
    | ok line =>
      obtain ⟨done, rest, heq, hlines, hend⟩ := hrest fuel (by omega)
      exact ⟨(content, i) :: done, rest, by rw [heq]; rfl, .cons htype hlines, hend⟩

end TypePlugin

/-- `type` tells of each content in turn the first magic of the map that its file has, and
stops at the first content of which it can tell none. -/
theorem type_run {plugin : TypePlugin} {abi : Abi} {w : TypeWorld} {tables : MagicTables}
    (hread : plugin.Readable abi w (plugin.merge tables).1) :
    ∃ least, ∀ fuel ≥ least, TypeRun (plugin.merge tables).1 w plugin.contents.zipIdx
      (plugin.run abi w fuel tables).2.1 (plugin.run abi w fuel tables).2.2 :=
  TypePlugin.typeAll_settles 0 plugin.contents hread

/-- Nothing but the magic, up to eight bytes that are read. -/
def bareMagic (magic : UInt64) : MagicFile := ⟨true, magicBytes magic ++ List.replicate 8 0, 8⟩

def bootType : TypePlugin := { contents := ["boot.img", "lk.img"], bufferSize := 4096 }

/-- Two images, and no partition that goes by their names. -/
def imageWorld : TypeWorld where
  flags := bootFlags 1
  fs := { bootFileSystem with fileIsExists := fun path => path = "boot.img" ∨ path = "lk.img" }
  answers := fun _ => []
  file := fun path _ => bareMagic (if path = "boot.img" then AndroidMagic.BOOT_IMAGE else AndroidMagic.LK_IMAGE)

theorem bareMagic_readable (magic other : UInt64) : (bareMagic magic).Readable .arm64_v8a 4096 other := by
  have hlength : (bareMagic magic).bytesRead ≤ (bareMagic magic).content.length := by
    show (8 : Int) ≤ ((magicBytes magic ++ List.replicate 8 0).length : Nat)
    rw [List.length_append, List.length_replicate]
    omega
  have hnonneg : (0 : Int) ≤ 8 := by decide
  have hbuffer : (8 : Int) ≤ 4096 := by decide
  refine Or.inr ⟨⟨rfl, ⟨by decide, by decide⟩, ⟨hnonneg, hbuffer⟩, hlength⟩, ?_⟩
  have hle := getMagicLength_le other
  show (getMagicLength other : Int) ≤ 8
  omega

theorem type_run_images : ∃ least, ∀ fuel ≥ least,
    TypeRun (bootType.merge .start).1 imageWorld bootType.contents.zipIdx
      (bootType.run .arm64_v8a imageWorld fuel .start).2.1 (bootType.run .arm64_v8a imageWorld fuel .start).2.2 := by
  have hwrap : Abi.arm64_v8a.wrap (bootType.bufferSize : Nat) = 4096 := by decide +kernel
  refine type_run fun _ _ path _ entry _ _ => ?_
  rw [hwrap]
  exact bareMagic_readable _ _

example : (bootType.run .arm64_v8a imageWorld 10 .start).2.1 =
    [("boot.img contains Android Boot Image magic (0x2144494F52444E41)" : Str),
      ("lk.img contains Android LK (Bootloader) magic (0x0000000000006B6C)" : Str)] := by
  decide +kernel

end PartitionManager
