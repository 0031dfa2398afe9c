import PartitionManager.Transfers

namespace PartitionManager

/-- A device under a wipe, and the writes that have gone to it. -/
structure Wiping where
  device : List UInt8
  writes : List (Nat × List UInt8)

/-- How a wipe ends. -/
structure WipeExit extends Wiping where
  ret : Int
  op : Option PartHandle
  errno : Errno

/-- The buffer of `openpart_wipe`. -/
def zeroBuffer : List UInt8 := List.replicate 4096 0

/-- The device takes the bytes of a write. -/
def Wiping.take (lfs : FileOffsetBits) (w : Wiping) (offset : UInt64) (bytes : List UInt8) : Wiping :=
  let position := (lfs.off_t offset).toNat
  ⟨Bytes.overwrite w.device position bytes, w.writes ++ [(position, bytes)]⟩

def PartHandle.openpart_sync (op : PartHandle) (fsync : Except Errno Unit) (errno : Errno) : Int × PartHandle × Errno :=
  match fsync with
  | .error e => (-1, { op with err := e }, e)
  | .ok () => (0, op, errno)

/-- What follows the loop. -/
def wipeExit (fsync : Except Errno Unit) (errno : Errno) (op : PartHandle) (r : Wiping × Except Errno Unit) :
    WipeExit :=
  match r.2 with
  | .error e => ⟨r.1, -1, some { op with err := e }, e⟩
  | .ok () =>
    let synced := op.openpart_sync fsync errno
    ⟨r.1, synced.1, some synced.2.1, synced.2.2⟩

section

variable (lfs : FileOffsetBits) (answers : Answers) (fsync : Except Errno Unit) (errno : Errno)
  (device : List UInt8)

/-- `openpart_wipe`, given up after `fuel` turns of its loop. -/
def openpart_wipe (op : Option PartHandle) (fuel : Nat) : Option WipeExit :=
  match op with
  | none => some ⟨⟨device, []⟩, -1, none, EINVAL⟩
  | some op =>
    if op.flags &&& OP_RDWR = 0 then some ⟨⟨device, []⟩, -1, some { op with err := EACCES }, errno⟩
    else
      (transferLoop 4096 (answers.call lfs fun _ count => zeroBuffer.take count) (Wiping.take lfs) 0
        op.size.toNat ⟨device, []⟩ fuel).map (wipeExit fsync errno op)

end

/-- The write reaches byte `i`. -/
def Reached (writes : List (Nat × List UInt8)) (i : Nat) : Prop :=
  ∃ write ∈ writes, write.1 ≤ i ∧ i < write.1 + write.2.length

/-- What the wipe of a device through a handle comes to: what its calls of `pwrite` and `fsync`
answer decides what it returns, and how far the device is wiped. -/
structure Wiped (lfs : FileOffsetBits) (answers : Answers) (fsync : Except Errno Unit) (device : List UInt8)
    (op : PartHandle) (w : WipeExit) : Prop where
  inside : ∀ write ∈ w.writes, write.1 + write.2.length ≤ op.size.toNat
  zeros : ∀ write ∈ w.writes, ∀ b ∈ write.2, b = 0
  whole : w.ret = 0 → (∀ i < op.size.toNat, Reached w.writes i) ∧
    w.device = List.replicate op.size.toNat 0 ++ device.drop op.size.toNat
  unreached : ∀ i, ¬ Reached w.writes i → w.device[i]? = device[i]?
  readonly : op.flags &&& OP_RDWR = 0 →
    w.ret = -1 ∧ w.op = some { op with err := EACCES } ∧ w.writes = [] ∧ w.device = device
  through : op.flags &&& OP_RDWR ≠ 0 → (∀ k e, ¬ answers.StopsAt lfs 4096 0 op.size.toNat k e) →
    w.device = List.replicate op.size.toNat 0 ++ device.drop op.size.toNat ∧ (fsync = .ok () → w.ret = 0) ∧
      ∀ e, fsync = .error e → w.ret = -1 ∧ w.op = some { op with err := e }
  stopped : op.flags &&& OP_RDWR ≠ 0 → ∀ k e, answers.StopsAt lfs 4096 0 op.size.toNat k e →
    w.ret = -1 ∧ w.op = some { op with err := e } ∧
      w.device = List.replicate (answers.delivered 4096 k) 0 ++ device.drop (answers.delivered 4096 k)

/-- The first `p` bytes of the device are wiped, and no others. -/
structure WipedTo (device : List UInt8) (p : Nat) (w : Wiping) : Prop where
  device_eq : w.device = List.replicate p 0 ++ device.drop p
  inside : ∀ write ∈ w.writes, write.1 + write.2.length ≤ p
  zeros : ∀ write ∈ w.writes, ∀ b ∈ write.2, b = 0
  whole : ∀ i < p, Reached w.writes i

section

variable {lfs : FileOffsetBits} {answers : Answers} {device : List UInt8} {w : Wiping} {p : Nat}

theorem zeroBuffer_take (count : Nat) : zeroBuffer.take count = List.replicate (min count 4096) 0 := by
  unfold zeroBuffer
  rw [List.take_replicate]

theorem wipedTo_zero (device : List UInt8) : WipedTo device 0 ⟨device, []⟩ where
  device_eq := by simp
  inside := by simp
  zeros := by simp
  whole := by simp

theorem WipedTo.unreached (h : WipedTo device p w) {i : Nat} (hi : ¬ Reached w.writes i) :
    w.device[i]? = device[i]? := by
  have hge : p ≤ i := Nat.le_of_not_lt fun hlt => hi (h.whole i hlt)
  have hlength : (List.replicate p (0 : UInt8)).length = p := List.length_replicate
  rw [h.device_eq, List.getElem?_append_right (by omega), List.getElem?_drop, hlength]
  congr 1
  omega

/-- The next write continues what is wiped. -/
theorem WipedTo.take {count : Nat} (h : WipedTo device p w)
    (hp : (lfs.off_t (0 + UInt64.ofNat p)).toNat = p) :
    WipedTo device (p + count) (w.take lfs (0 + UInt64.ofNat p) (List.replicate count 0)) := by
  have hlength : (List.replicate p (0 : UInt8)).length = p := List.length_replicate
  have hcount : (List.replicate count (0 : UInt8)).length = count := List.length_replicate
  unfold Wiping.take
  rw [hp]
  have hmem : ∀ write ∈ w.writes ++ [(p, List.replicate count 0)],
      write ∈ w.writes ∨ write = (p, List.replicate count 0) := by
    intro write hwrite
    simpa using hwrite
  refine ⟨?_, ?_, ?_, ?_⟩
  · show Bytes.overwrite w.device p (List.replicate count 0) = _
    have hover := Bytes.overwrite_append (List.replicate p (0 : UInt8)) (device.drop p) (List.replicate count 0)
    rw [hlength, hcount] at hover
    rw [h.device_eq, hover, List.drop_drop, ← List.replicate_add]
  · intro write hwrite
    rcases hmem write hwrite with hold | hnew
    · have hin := h.inside write hold
      omega
    · rw [hnew]
      show p + (List.replicate count (0 : UInt8)).length ≤ p + count
      omega
  · intro write hwrite b hb
    rcases hmem write hwrite with hold | hnew
    · exact h.zeros write hold b hb
    · rw [hnew] at hb
      exact List.eq_of_mem_replicate hb
  · intro i hi
    rcases Nat.lt_or_ge i p with hlt | hge
    · obtain ⟨write, hwrite, hbounds⟩ := h.whole i hlt
      exact ⟨write, List.mem_append_left _ hwrite, hbounds⟩
    · refine ⟨_, List.mem_append_right _ (List.mem_singleton_self _), hge, ?_⟩
      show i < p + (List.replicate count (0 : UInt8)).length
      omega

/-- Every write continues what is wiped, and is where the schedule has it. -/
theorem wipe_keeps (size : Nat) (device : List UInt8) :
    Pieces.Keeps size 4096 (answers.piece lfs (fun _ count => zeroBuffer.take count) (lfs.base 0))
      (fun a p => Wiping.take lfs a (0 + UInt64.ofNat p))
      (fun i p a => OnSchedule answers lfs 4096 (lfs.base 0) size i p ∧ WipedTo device p a) := by
  intro i p a piece hp ha hpiece
  obtain ⟨hbelow, length, hanswer, rfl⟩ := piece_ok_iff.mp hpiece
  have hposition := off_t_position hbelow
  rw [base_zero, Nat.zero_add] at hposition
  have hfull : (zeroBuffer.take (min (min 4096 (size - p)) (max length 1))).length =
      min (min 4096 (size - p)) (max length 1) := by
    rw [zeroBuffer_take, List.length_replicate]
    omega
  refine ⟨ha.1.next hp hanswer hbelow hfull, ?_⟩
  rw [zeroBuffer_take, List.length_replicate]
  exact ha.2.take hposition

/-- What follows a loop that got through. -/
theorem WipedTo.through {op : PartHandle} {i : Nat} (fsync : Except Errno Unit) (errno : Errno)
    (hs : OnSchedule answers lfs 4096 (lfs.base 0) op.size.toNat i op.size.toNat)
    (h : WipedTo device op.size.toNat w) (hflag : op.flags &&& OP_RDWR ≠ 0) :
    Wiped lfs answers fsync device op (wipeExit fsync errno op (w, .ok ())) := by
  rw [base_zero] at hs
  refine ⟨h.inside, h.zeros, fun _ => ⟨h.whole, h.device_eq⟩, fun i hi => h.unreached hi,
    fun hro => absurd hro hflag, fun _ _ => ⟨h.device_eq, ?_, ?_⟩, ?_⟩
  · rintro rfl
    rfl
  · rintro e rfl
    exact ⟨rfl, rfl⟩
  · intro _ k e hstops
    rw [← base_zero lfs] at hs hstops
    exact absurd hstops hs.not_stopsAt

/-- What follows a loop that a call has stopped. -/
theorem WipedTo.stopped {op : PartHandle} {i : Nat} {e : Errno} (fsync : Except Errno Unit) (errno : Errno)
    (hstops : answers.StopsAt lfs 4096 0 op.size.toNat i e) (hp : answers.delivered 4096 i = p)
    (h : WipedTo device p w) (hflag : op.flags &&& OP_RDWR ≠ 0) :
    Wiped lfs answers fsync device op (wipeExit fsync errno op (w, .error e)) := by
  have hwithin := hstops.within
  refine ⟨?_, h.zeros, (nomatch ·), fun i hi => h.unreached hi, fun hro => absurd hro hflag,
    fun _ hnone => absurd hstops (hnone i e), ?_⟩
  · intro write hwrite
    have hin := h.inside write hwrite
    omega
  · intro _ k e' hstops'
    obtain ⟨rfl, rfl⟩ := hstops.unique hstops'
    rw [hp]
    exact ⟨rfl, rfl, h.device_eq⟩

theorem zeroBuffer_take_length (p count : Nat) :
    ((fun _ count => zeroBuffer.take count : Nat → Nat → List UInt8) p count).length ≤ count := by
  show (zeroBuffer.take count).length ≤ count
  rw [List.length_take]
  omega

end

/-- A wipe ends, and clears the device of the handle and nothing else, as far as its calls let it. -/
theorem openpart_wipe_clears (lfs : FileOffsetBits) (answers : Answers) (fsync : Except Errno Unit)
    (errno : Errno) (device : List UInt8) (op : PartHandle) :
    (∃ fuel w, openpart_wipe lfs answers fsync errno device (some op) fuel = some w) ∧
      ∀ fuel w, openpart_wipe lfs answers fsync errno device (some op) fuel = some w →
        Wiped lfs answers fsync device op w := by
  unfold openpart_wipe
  by_cases hflag : op.flags &&& OP_RDWR = 0
  · simp only [if_pos hflag]
    refine ⟨⟨0, _, rfl⟩, ?_⟩
    intro fuel w hw
    cases hw
    exact ⟨by simp, by simp, by simp, fun i _ => rfl, fun _ => ⟨rfl, rfl, rfl, rfl⟩, fun h => absurd hflag h,
      fun h => absurd hflag h⟩
  · simp only [if_neg hflag]
    refine ⟨?_, ?_⟩
    · have hprogress : ∀ p count, lfs.base 0 + p < 2 ^ (lfs.width - 1) → p < op.size.toNat → 0 < count →
          count ≤ op.size.toNat - p → 0 < (zeroBuffer.take count).length := by
        intro p count _ _ hcount _
        rw [zeroBuffer_take, List.length_replicate]
        omega
      obtain ⟨fuel, r, hr⟩ := transferLoop_total answers (Wiping.take lfs) ⟨device, []⟩ zeroBuffer_take_length
        (buffer_le lfs) hprogress (by decide)
      refine ⟨fuel, wipeExit fsync errno op r, ?_⟩
      rw [hr]
      rfl
    · intro fuel w hw
      obtain ⟨⟨wiping, answer⟩, hr, rfl⟩ := Option.map_eq_some_iff.mp hw
      have hstart : OnSchedule answers lfs 4096 (lfs.base 0) op.size.toNat 0 0 ∧ WipedTo device 0 ⟨device, []⟩ :=
        ⟨onSchedule_zero, wipedTo_zero device⟩
      rcases transferLoop_keeps zeroBuffer_take_length (buffer_le lfs) hstart
        (wipe_keeps op.size.toNat device) hr with ⟨i, ⟨hs, hall⟩, hok⟩ | ⟨e, i, p, hp, ⟨hs, hpart⟩, hcall, herror⟩
      · obtain rfl : answer = .ok () := hok
        exact hall.through fsync errno hs hflag
      · obtain rfl : answer = .error e := herror
        have hstops := hs.stopsAt hp hcall
        rw [base_zero] at hstops
        exact hpart.stopped fsync errno hstops (hs.delivered_eq hp) hflag

end PartitionManager
