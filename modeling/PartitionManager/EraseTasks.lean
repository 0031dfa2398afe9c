import PartitionManager.AsyncManager
import PartitionManager.Erase
import PartitionManager.FlashTasks
import PartitionManager.Library.Workers

namespace PartitionManager

/-- One process of `ErasePlugin::run`: the name it was given, how the checks before its loop
end, and how its writes go. The processes share one standard input: the checks may end in any
way that some words of it lead to. -/
structure EraseTask (abi : Abi) where
  partitionName : Str
  checked : AsyncResult ⊕ (Partition × EraseSetup)
  writes : Schedule abi
  overflow : Int → Int

namespace Layout

variable (layout : Layout)

/-- Where the first `size` bytes of `p` lie. -/
def region (p : Partition) (size : Nat) : Set Nat := {c | ∃ k < size, layout.cell p k = c}

end Layout

section

variable {abi : Abi}

/-- The checks of `runAsync` end as the task says, without an exception. -/
def EraseTask.Started (plugin : ErasePlugin) (flags : BasicFlags) (fs : FileSystem) (fileSize : Str → Int)
    (task : EraseTask abi) : Prop :=
  ∃ answers openErrno confirmPrompt,
    match task.checked with
    | .inl r => plugin.precheck ⟨flags, fs, answers, fileSize, openErrno, confirmPrompt⟩ task.partitionName abi =
        .ok (.inl r)
    | .inr (p, setup) =>
        plugin.precheck ⟨flags, fs, answers, fileSize, openErrno, confirmPrompt⟩ task.partitionName abi =
          .ok (.inr setup) ∧
        ∃ tType, findPartition flags fs answers task.partitionName = .ok (some p, tType)

/-- The bytes that the task is going to erase. -/
def EraseTask.cells (layout : Layout) (task : EraseTask abi) : Set Nat :=
  match task.checked with
  | .inl _ => ∅
  | .inr (p, setup) => layout.region p setup.partitionSize

/-- One turn of the loop of `runAsync` on the disks that all tasks share. -/
def EraseTask.turn (layout : Layout) (fs : FileSystem) (task : EraseTask abi) (store : Nat → UInt8)
    (s : EraseState) : (Nat → UInt8) × Loop.Turn EraseState AsyncResult :=
  match task.checked with
  | .inl r => (store, .leave r)
  | .inr (p, setup) =>
    let device := layout.content store p setup.partitionSize
    match eraseTurn ⟨device, task.writes, task.overflow, fs.strerror⟩ setup { s with device } with
    | .again s' =>
      (layout.put store p s.offset (Bytes.slice s'.device s.offset (s'.offset - s.offset)), .again s')
    | .leave exit => (store, .leave exit.result)

/-- `run` has been given these names and started these tasks for them. -/
structure ErasePlugin.Starts (plugin : ErasePlugin) (partitions : List Str) (flags : BasicFlags) (fs : FileSystem)
    (fileSize : Str → Int) (tasks : List (EraseTask abi)) : Prop where
  names : tasks.map EraseTask.partitionName = partitions
  started : ∀ task ∈ tasks, task.Started plugin flags fs fileSize

end

namespace Layout

variable {layout : Layout} {store store' : Nat → UInt8} {p : Partition}

theorem content_length (size : Nat) : (layout.content store p size).length = size := by
  simp [content]

theorem content_getElem? (size k : Nat) :
    (layout.content store p size)[k]? = if k < size then some (store (layout.cell p k)) else none := by
  unfold content
  rw [List.getElem?_map]
  split
  next hk => rw [List.getElem?_range hk, Option.map_some]
  next hk => rw [List.getElem?_eq_none (by simpa using hk), Option.map_none]

theorem content_congr {size : Nat} (h : ∀ c ∈ layout.region p size, store c = store' c) :
    layout.content store p size = layout.content store' p size := by
  unfold content
  refine List.map_congr_left fun k hk => ?_
  exact h _ ⟨k, List.mem_range.mp hk, rfl⟩

theorem put_of_not_mem {offset size : Nat} {chunk : List UInt8} {c : Nat} (h : offset + chunk.length ≤ size)
    (hc : c ∉ layout.region p size) : layout.put store p offset chunk c = store c := by
  rcases layout.put_cases store p offset chunk c with ⟨i, hi, hcell, _⟩ | ⟨_, hkept⟩
  · exact absurd ⟨offset + i, by omega, hcell⟩ hc
  · exact hkept

theorem put_congr {offset : Nat} {chunk : List UInt8} {c : Nat} (h : store c = store' c) :
    layout.put store p offset chunk c = layout.put store' p offset chunk c := by
  unfold put
  split
  next => rfl
  next => exact h

/-- Writing to a partition overwrites its content. -/
theorem content_put {offset size : Nat} {chunk : List UInt8} (h : offset + chunk.length ≤ size) :
    layout.content (layout.put store p offset chunk) p size =
      Bytes.overwrite (layout.content store p size) offset chunk := by
  have hlength : (layout.content store p size).length = size := content_length size
  apply List.ext_getElem?
  intro k
  rw [Bytes.overwrite_getElem? (by rw [hlength]; exact h), content_getElem?, content_getElem?]
  by_cases hk : k < size
  · rw [if_pos hk, if_pos hk]
    rcases layout.put_cases store p offset chunk (layout.cell p k) with ⟨i, hi, hcell, hbyte⟩ | ⟨hnot, hkept⟩
    · obtain rfl := layout.inj p hcell
      rw [if_pos ⟨by omega, by omega⟩, Nat.add_sub_cancel_left]
      exact hbyte.symm
    · rw [if_neg, hkept]
      intro hin
      refine hnot (k - offset) (by omega) ?_
      rw [Nat.add_sub_cancel' hin.1]
  · rw [if_neg hk, if_neg hk, if_neg (by omega)]

end Layout

namespace EraseTask

variable {abi : Abi} {layout : Layout} {fs : FileSystem} {task : EraseTask abi} {p : Partition} {setup : EraseSetup}

/-- The counter is the offset, and that is within the partition. -/
def Counts (task : EraseTask abi) (s : EraseState) : Prop :=
  match task.checked with
  | .inl _ => True
  | .inr (_, setup) => s.bytesWritten = s.offset ∧ s.offset ≤ setup.partitionSize

/-- Everything a turn can do: zeros are put behind those that are there, or the loop is left. -/
theorem turn_cases (layout : Layout) (fs : FileSystem) (hchecked : task.checked = .inr (p, setup))
    (hmax : setup.partitionSize ≤ abi.SSIZE_MAX) {s : EraseState} (hs : task.Counts s) (store : Nat → UInt8) :
    (∃ r, task.turn layout fs store s = (store, .leave r) ∧ (r.result = true ↔ s.offset = setup.partitionSize)) ∨
      ∃ n s', 0 < n ∧ s.offset + n ≤ setup.partitionSize ∧ s'.offset = s.offset + n ∧
        s'.bytesWritten = s'.offset ∧
        task.turn layout fs store s = (layout.put store p s.offset (List.replicate n 0), .again s') := by
  unfold Counts at hs
  rw [hchecked] at hs
  obtain ⟨hcounter, hwithin⟩ : s.bytesWritten = s.offset ∧ s.offset ≤ setup.partitionSize := hs
  have hn : setup.partitionSize < 2 ^ abi.bits := Nat.lt_of_le_of_lt hmax abi.SSIZE_MAX_lt
  have hbits := abi.bits_le
  have hu : toUInt64 s.bytesWritten = s.offset := by
    rw [hcounter]
    exact toUInt64_natCast (by omega)
  unfold turn
  rw [hchecked]
  dsimp only
  have hlength : (layout.content store p setup.partitionSize).length = setup.partitionSize :=
    Layout.content_length _
  generalize layout.content store p setup.partitionSize = device at hlength
  have hto : EraseState.toWrite abi setup { s with device } = min setup.buf (setup.partitionSize - s.offset) :=
    EraseState.toWrite_eq hn hcounter hwithin
  rcases eraseTurn_cases ⟨device, task.writes, task.overflow, fs.strerror⟩ setup { s with device } with
    ⟨hend, hturn⟩ | ⟨hmore, _, exit, hturn, hfailed⟩ | ⟨_, n, hresult, hpos, hturn⟩
  · have hend' : setup.partitionSize ≤ s.offset := hu ▸ hend
    rw [hturn]
    exact Or.inl ⟨_, rfl, iff_of_true rfl (by omega)⟩
  · have hmore' : s.offset < setup.partitionSize := hu ▸ hmore
    rw [hturn]
    refine Or.inl ⟨_, rfl, ?_⟩
    rw [hfailed]
    exact iff_of_false Bool.false_ne_true (by omega)
  · have hle : n ≤ EraseState.toWrite abi setup { s with device } := by
      have hcount := task.writes.le_count s.turn (EraseState.toWrite abi setup { s with device })
      unfold EraseIO.result at hresult
      dsimp only at hresult
      omega
    have hzeros : EraseState.data abi setup { s with device } =
        List.replicate (EraseState.toWrite abi setup { s with device }) 0 :=
      EraseState.data_eq hn hcounter hwithin
    have hchunk : (EraseState.data abi setup { s with device }).take n = List.replicate n 0 := by
      rw [hzeros, List.take_replicate, Nat.min_eq_left hle]
    have hput : Bytes.slice (Bytes.overwrite device s.offset (List.replicate n 0)) s.offset n =
        List.replicate n 0 := by
      have hread := @Bytes.slice_overwrite _ device (List.replicate n 0) s.offset
        (by rw [List.length_replicate, hlength]; omega)
      rwa [List.length_replicate] at hread
    have hcount : abi.addSsize task.overflow s.bytesWritten n = (s.offset + n : Nat) := by
      rw [hcounter]
      exact Abi.addSsize_of_le task.overflow (by omega)
    rw [hturn, hchunk]
    refine Or.inr ⟨n, ⟨abi.addSsize task.overflow s.bytesWritten n, s.offset + n,
      Bytes.overwrite device s.offset (List.replicate n 0), s.turn + 1⟩, hpos, by omega, rfl, hcount, ?_⟩
    dsimp only
    rw [Nat.add_sub_cancel_left, hput]

theorem cells_of_checked (hchecked : task.checked = .inr (p, setup)) :
    task.cells layout = layout.region p setup.partitionSize := by
  unfold cells
  rw [hchecked]

/-- A turn changes nothing outside the partition of its task. -/
theorem turn_frame (hmax : ∀ p setup, task.checked = .inr (p, setup) → setup.partitionSize ≤ abi.SSIZE_MAX)
    {s : EraseState} (hs : task.Counts s) (store : Nat → UInt8) {c : Nat} (hc : c ∉ task.cells layout) :
    (task.turn layout fs store s).1 c = store c := by
  cases hchecked : task.checked with
  | inl r =>
    unfold turn
    rw [hchecked]
  | inr found =>
    obtain ⟨p, setup⟩ := found
    rw [cells_of_checked hchecked] at hc
    rcases turn_cases layout fs hchecked (hmax p setup hchecked) hs store with
      ⟨r, heq, _⟩ | ⟨n, next, _, hle, _, _, heq⟩
    · rw [heq]
    · rw [heq]
      exact Layout.put_of_not_mem (by rw [List.length_replicate]; exact hle) hc

/-- And it depends on nothing else. -/
theorem turn_congr {store store' : Nat → UInt8} (h : ∀ c ∈ task.cells layout, store c = store' c)
    (s : EraseState) : (task.turn layout fs store s).2 = (task.turn layout fs store' s).2 ∧
      ∀ c ∈ task.cells layout, (task.turn layout fs store s).1 c = (task.turn layout fs store' s).1 c := by
  cases hchecked : task.checked with
  | inl r =>
    unfold turn
    rw [hchecked]
    exact ⟨rfl, h⟩
  | inr found =>
    obtain ⟨p, setup⟩ := found
    rw [cells_of_checked hchecked] at h ⊢
    have hcontent : layout.content store p setup.partitionSize = layout.content store' p setup.partitionSize :=
      Layout.content_congr h
    unfold turn
    rw [hchecked]
    dsimp only
    rw [hcontent]
    split
    next => exact ⟨rfl, fun c hc => Layout.put_congr (h c hc)⟩
    next => exact ⟨rfl, h⟩

end EraseTask

section

variable {abi : Abi} {layout : Layout} {fs : FileSystem} {tasks : List (EraseTask abi)}

theorem ErasePlugin.precheck_early {plugin : ErasePlugin} {w : EraseWorld} {partitionName : Str} {r : AsyncResult}
    (h : plugin.precheck w partitionName abi = .ok (.inl r)) : r.result = false := by
  obtain ⟨found, _, h⟩ := Checks.bind_ok_iff.mp h
  cases found with
  | none =>
    cases h
    rfl
  | some p =>
    obtain ⟨size, _, h⟩ := Checks.bind_ok_iff.mp h
    split at h
    next =>
      cases h
      rfl
    next =>
      split at h
      next =>
        cases h
        rfl
      next =>
        obtain ⟨buf, _, h⟩ := Checks.bind_ok_iff.mp h
        obtain ⟨path, _, h⟩ := Checks.bind_ok_iff.mp h
        split at h
        next =>
          cases h
          rfl
        next =>
          split at h
          next => cases h
          next => cases h

theorem EraseTask.Started.early {plugin : ErasePlugin} {flags : BasicFlags} {fileSize : Str → Int}
    {task : EraseTask abi} {r : AsyncResult} (h : task.Started plugin flags fs fileSize)
    (hchecked : task.checked = .inl r) : r.result = false := by
  obtain ⟨answers, openErrno, confirmPrompt, h⟩ := h
  rw [hchecked] at h
  exact ErasePlugin.precheck_early h

end

end PartitionManager
