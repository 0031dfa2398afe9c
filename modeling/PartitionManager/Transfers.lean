import PartitionManager.Sectors
import PartitionManager.Library.Bytes
import PartitionManager.Library.Pieces

namespace PartitionManager

/-- How a descriptor answers its calls, one after another: a call fails, or it transfers up to
so many bytes, and at least one where there is one. -/
abbrev Answers := Nat → Except Errno Nat

/-- A `pread` or `pwrite` of what `deliver` has at each position. -/
def Answers.call (answers : Answers) (lfs : FileOffsetBits) (deliver : Nat → Nat → List UInt8)
    (turn count : Nat) (offset : UInt64) : Except Errno (List UInt8) :=
  if lfs.off_t offset < 0 then .error EINVAL
  else
    match answers turn with
    | .error errno => .error errno
    | .ok length => .ok (deliver (lfs.off_t offset).toNat (min count (max length 1)))

/-- `struct openpart`, as the calls of `utility.c` see it. -/
structure PartHandle extends OpenPartT where
  err : Errno := 0
  size : UInt64
  deriving DecidableEq

/-- The variables of the loops of `utility.c`, and what the turns so far have left. -/
structure Cursor (α : Type) where
  offset : UInt64
  remaining : Nat
  turn : Nat
  acc : α

section

variable {α : Type} (sizeof_buf : Nat) (call : Nat → Nat → UInt64 → Except Errno (List UInt8))
  (use : α → UInt64 → List UInt8 → α)

/-- One turn: a call for the next `count` bytes, and what is made of the bytes it transfers. -/
def transferTurn (c : Cursor α) : Loop.Turn (Cursor α) (α × Except Errno Unit) :=
  if 0 < c.remaining then
    let count := min sizeof_buf c.remaining
    match call c.turn count c.offset with
    | .error errno => .leave (c.acc, .error errno)
    | .ok bytes =>
      .again ⟨c.offset + UInt64.ofNat bytes.length, c.remaining - bytes.length, c.turn + 1,
        use c.acc c.offset bytes⟩
  else .leave (c.acc, .ok ())

/-- The loop, given up after `fuel` turns. -/
def transferLoop (start : UInt64) (size : Nat) (acc : α) (fuel : Nat) : Option (α × Except Errno Unit) :=
  (Loop.run (transferTurn sizeof_buf call use) fuel ⟨start, size, 0, acc⟩).left

end

/-- The same call in terms of what is done of a range from `base` on. -/
def Answers.piece (answers : Answers) (lfs : FileOffsetBits) (deliver : Nat → Nat → List UInt8) (base : Nat)
    (turn p count : Nat) : Except Errno (List UInt8) :=
  if 2 ^ (lfs.width - 1) ≤ base + p then .error EINVAL
  else
    match answers turn with
    | .error errno => .error errno
    | .ok length => .ok (deliver (base + p) (min count (max length 1)))

/-- What the first `k` calls deliver of a range that is on the device. -/
def Answers.delivered (answers : Answers) (sizeof_buf : Nat) : Nat → Nat
  | 0 => 0
  | k + 1 =>
    match answers k with
    | .error _ => answers.delivered sizeof_buf k
    | .ok length => answers.delivered sizeof_buf k + min sizeof_buf (max length 1)

/-- Before a range from `base` on is through, a call fails: as the schedule has it, or because
its position does not fit in `off_t`. -/
def Answers.StopsWithin (answers : Answers) (lfs : FileOffsetBits) (sizeof_buf base size : Nat) : Prop :=
  ∃ k, answers.delivered sizeof_buf k < size ∧
    ((∃ e, answers k = .error e) ∨ 2 ^ (lfs.width - 1) ≤ base + answers.delivered sizeof_buf k)

/-- The `k`-th call is the first that fails, with `e`, and the range is not through before it. -/
structure Answers.StopsAt (answers : Answers) (lfs : FileOffsetBits) (sizeof_buf base size k : Nat) (e : Errno) :
    Prop where
  within : answers.delivered sizeof_buf k < size
  passed : ∀ j < k, (∃ length, answers j = .ok length) ∧
    base + answers.delivered sizeof_buf j < 2 ^ (lfs.width - 1)
  fails : (2 ^ (lfs.width - 1) ≤ base + answers.delivered sizeof_buf k ∧ e = EINVAL) ∨
    (base + answers.delivered sizeof_buf k < 2 ^ (lfs.width - 1) ∧ answers k = .error e)

/-- The position on the device that `off_t` makes of an offset. -/
def FileOffsetBits.base (lfs : FileOffsetBits) (start : UInt64) : Nat := start.toNat % 2 ^ lfs.width

/-- Where the cursor is when part of the range is done. -/
def cursorAt {α : Type} (start : UInt64) (size : Nat) (s : Pieces.State α) : Cursor α :=
  ⟨start + UInt64.ofNat s.done, size - s.done, s.turn, s.acc⟩

section

variable {α : Type} {lfs : FileOffsetBits} {answers : Answers} {deliver : Nat → Nat → List UInt8}
  {sizeof_buf size : Nat} {start : UInt64} {use : α → UInt64 → List UInt8 → α} {acc : α}

theorem two_pow_width (lfs : FileOffsetBits) : 2 ^ lfs.width = 2 * 2 ^ (lfs.width - 1) := by
  cases lfs <;> decide

theorem base_lt (lfs : FileOffsetBits) (start : UInt64) : lfs.base start < 2 ^ lfs.width :=
  Nat.mod_lt _ (Nat.two_pow_pos _)

theorem base_zero (lfs : FileOffsetBits) : lfs.base 0 = 0 := by
  cases lfs <;> decide

theorem buffer_le (lfs : FileOffsetBits) : 4096 ≤ 2 ^ (lfs.width - 1) := by
  cases lfs <;> decide

/-- As long as the range does not wrap, neither does the position in it. -/
theorem position_eq {p : Nat} (h : lfs.base start + p < 2 ^ lfs.width) :
    (start + UInt64.ofNat p).toNat % 2 ^ lfs.width = lfs.base start + p := by
  have hdvd : 2 ^ lfs.width ∣ 2 ^ 64 := by
    cases lfs <;> decide
  rw [UInt64.toNat_add, UInt64.toNat_ofNat', Nat.add_mod_mod, Nat.mod_mod_of_dvd _ hdvd, Nat.add_mod]
  unfold FileOffsetBits.base at *
  rw [Nat.mod_eq_of_lt (by omega : p < 2 ^ lfs.width), Nat.mod_eq_of_lt h]

theorem off_t_position {p : Nat} (h : lfs.base start + p < 2 ^ (lfs.width - 1)) :
    (lfs.off_t (start + UInt64.ofNat p)).toNat = lfs.base start + p := by
  have hwidth := two_pow_width lfs
  have hposition := position_eq (by omega : lfs.base start + p < 2 ^ lfs.width)
  rw [off_t_toNat, hposition]
  rw [off_t_neg_iff, hposition]
  omega

theorem call_eq_piece {p : Nat} (h : lfs.base start + p < 2 ^ lfs.width) (turn count : Nat) :
    answers.call lfs deliver turn count (start + UInt64.ofNat p) =
      answers.piece lfs deliver (lfs.base start) turn p count := by
  have hneg := @off_t_neg_iff lfs (start + UInt64.ofNat p)
  rw [position_eq h] at hneg
  unfold Answers.call Answers.piece
  by_cases hbig : 2 ^ (lfs.width - 1) ≤ lfs.base start + p
  · rw [if_pos hbig, if_pos (hneg.mpr hbig)]
  · rw [if_neg hbig, if_neg (fun h => hbig (hneg.mp h)), off_t_position (by omega)]

theorem piece_ok_iff {base turn p count : Nat} {piece : List UInt8} :
    answers.piece lfs deliver base turn p count = .ok piece ↔
      base + p < 2 ^ (lfs.width - 1) ∧
        ∃ length, answers turn = .ok length ∧ piece = deliver (base + p) (min count (max length 1)) := by
  unfold Answers.piece
  by_cases hbig : 2 ^ (lfs.width - 1) ≤ base + p
  · rw [if_pos hbig]
    simp [hbig]
  · rw [if_neg hbig]
    cases hanswer : answers turn with
    | error errno => simp
    | ok length => simp [Nat.lt_of_not_le hbig, eq_comm]

theorem piece_error_iff {base turn p count : Nat} {e : Errno} :
    answers.piece lfs deliver base turn p count = .error e ↔
      (2 ^ (lfs.width - 1) ≤ base + p ∧ e = EINVAL) ∨
        (base + p < 2 ^ (lfs.width - 1) ∧ answers turn = .error e) := by
  unfold Answers.piece
  by_cases hbig : 2 ^ (lfs.width - 1) ≤ base + p
  · rw [if_pos hbig]
    simp [hbig, eq_comm]
  · rw [if_neg hbig]
    cases hanswer : answers turn with
    | error errno => simp [Nat.lt_of_not_le hbig, Nat.not_le.mpr (Nat.lt_of_not_le hbig)]
    | ok length => simp [Nat.not_le.mpr (Nat.lt_of_not_le hbig)]

theorem piece_bounded (hdeliver : ∀ p count, (deliver p count).length ≤ count) (base : Nat) :
    Pieces.Bounded (answers.piece lfs deliver base) := by
  intro i p count piece h
  obtain ⟨_, length, _, rfl⟩ := piece_ok_iff.mp h
  have hle := hdeliver (base + p) (min count (max length 1))
  omega

/-- A turn of the cursor is a piece of the range. -/
theorem transferTurn_cursorAt (s : Pieces.State α) (hdone : s.done ≤ size)
    (hposition : lfs.base start + s.done < 2 ^ lfs.width) :
    transferTurn sizeof_buf (answers.call lfs deliver) use (cursorAt start size s) =
      (Pieces.step size sizeof_buf (answers.piece lfs deliver (lfs.base start))
        (fun a p => use a (start + UInt64.ofNat p)) s).map (cursorAt start size) := by
  unfold transferTurn Pieces.step cursorAt
  by_cases hmore : s.done < size
  · rw [if_pos (by omega : 0 < size - s.done), if_pos hmore]
    dsimp only
    rw [call_eq_piece hposition]
    cases hpiece : answers.piece lfs deliver (lfs.base start) s.turn s.done (min sizeof_buf (size - s.done)) with
    | error e => rfl
    | ok piece =>
      simp only [Loop.Turn.map, UInt64.ofNat_add, UInt64.add_assoc, Nat.sub_add_eq]
  · rw [if_neg (by omega : ¬ 0 < size - s.done), if_neg hmore]
    rfl

/-- The loop goes through its range piece by piece: what the wrapping offsets do to it is
said by `piece`. -/
theorem transferLoop_eq (hdeliver : ∀ p count, (deliver p count).length ≤ count)
    (hbuf : sizeof_buf ≤ 2 ^ (lfs.width - 1)) (fuel : Nat) :
    transferLoop sizeof_buf (answers.call lfs deliver) use start size acc fuel =
      (Loop.run (Pieces.step size sizeof_buf (answers.piece lfs deliver (lfs.base start))
        (fun a p => use a (start + UInt64.ofNat p))) fuel ⟨0, 0, acc⟩).left := by
  have hzero : (⟨start, size, 0, acc⟩ : Cursor α) = cursorAt start size ⟨0, 0, acc⟩ := by
    simp [cursorAt]
  unfold transferLoop
  rw [hzero]
  refine (congrArg Loop.Turn.left (Loop.run_map (I := fun s => s.done ≤ size ∧
    lfs.base start + s.done < 2 ^ lfs.width) (cursorAt start size) ?_ ?_ ?_ fuel)).trans (Loop.left_map _ _)
  · intro s s' hs hstep
    obtain ⟨hmore, piece, hpiece, hs'⟩ := Pieces.step_again_iff.mp hstep
    have hlength := piece_bounded hdeliver _ _ _ _ _ hpiece
    have hbelow := (piece_ok_iff.mp hpiece).1
    have hwidth := two_pow_width lfs
    rw [hs']
    refine ⟨?_, ?_⟩
    · show s.done + piece.length ≤ size
      omega
    · show lfs.base start + (s.done + piece.length) < 2 ^ lfs.width
      omega
  · intro s hs
    exact transferTurn_cursorAt s hs.1 hs.2
  · exact ⟨Nat.zero_le _, base_lt lfs start⟩

/-- The loop does not go on forever if every call that succeeds transfers something. -/
theorem transferLoop_total (answers : Answers) (use : α → UInt64 → List UInt8 → α) (acc : α)
    (hdeliver : ∀ p count, (deliver p count).length ≤ count) (hbuf : sizeof_buf ≤ 2 ^ (lfs.width - 1))
    (h : ∀ p count, lfs.base start + p < 2 ^ (lfs.width - 1) → p < size → 0 < count → count ≤ size - p →
      0 < (deliver (lfs.base start + p) count).length) (hpos : 0 < sizeof_buf) :
    ∃ fuel r, transferLoop sizeof_buf (answers.call lfs deliver) use start size acc fuel = some r := by
  have hprogress : ∀ i p piece, p < size →
      answers.piece lfs deliver (lfs.base start) i p (min sizeof_buf (size - p)) = .ok piece → 0 < piece.length := by
    intro i p piece hp hpiece
    obtain ⟨hbelow, length, _, rfl⟩ := piece_ok_iff.mp hpiece
    exact h p _ hbelow hp (by omega) (by omega)
  obtain ⟨r, fuel, hrun⟩ := @Pieces.returns_of_progress _ _ _ _ _ _ (fun a p => use a (start + UInt64.ofNat p))
    ⟨0, 0, acc⟩ hprogress
  refine ⟨fuel, r, ?_⟩
  rw [transferLoop_eq hdeliver hbuf, hrun]
  rfl

/-- What holds where the loop ends: the whole range is done, or a call has failed. -/
theorem transferLoop_keeps {P : Nat → Nat → α → Prop} (hdeliver : ∀ p count, (deliver p count).length ≤ count)
    (hbuf : sizeof_buf ≤ 2 ^ (lfs.width - 1)) (h0 : P 0 0 acc)
    (hk : Pieces.Keeps size sizeof_buf (answers.piece lfs deliver (lfs.base start))
      (fun a p => use a (start + UInt64.ofNat p)) P)
    {fuel : Nat} {r : α × Except Errno Unit}
    (h : transferLoop sizeof_buf (answers.call lfs deliver) use start size acc fuel = some r) :
    (∃ i, P i size r.1 ∧ r.2 = .ok ()) ∨
      ∃ e i p, p < size ∧ P i p r.1 ∧
        answers.piece lfs deliver (lfs.base start) i p (min sizeof_buf (size - p)) = .error e ∧ r.2 = .error e := by
  rw [transferLoop_eq hdeliver hbuf, Loop.left_eq_some_iff] at h
  exact Pieces.returns_keeps (piece_bounded hdeliver _) hk (Nat.zero_le _) h0 ⟨fuel, h⟩

theorem slice_length_le (content : List UInt8) (p count : Nat) : (Bytes.slice content p count).length ≤ count := by
  rw [Bytes.slice_length]
  omega

/-- A loop that reads its range ends just if the range is on the device, or a call fails: one
that the schedule lets fail, or one past what `off_t` can say. -/
theorem readLoop_ends_iff (answers : Answers) (use : α → UInt64 → List UInt8 → α) (acc : α)
    (content : List UInt8) (hbuf : sizeof_buf ≤ 2 ^ (lfs.width - 1)) (hpos : 0 < sizeof_buf) :
    (∃ fuel r, transferLoop sizeof_buf (answers.call lfs (Bytes.slice content)) use start size acc fuel = some r) ↔
      size = 0 ∨ lfs.base start + size ≤ content.length ∨ 2 ^ (lfs.width - 1) ≤ max (lfs.base start) content.length ∨
        ∃ i e, answers i = .error e := by
  constructor
  · intro hends
    by_contra hbad
    simp only [not_or, not_le, not_exists] at hbad
    obtain ⟨hsize, hshort, hfits, hanswers⟩ := hbad
    obtain ⟨fuel, r, hr⟩ := hends
    have hread : ∀ i p count, p ≤ content.length - lfs.base start → ∃ piece,
        answers.piece lfs (Bytes.slice content) (lfs.base start) i p count = .ok piece ∧
          p + piece.length ≤ content.length - lfs.base start := by
      intro i p count hp
      cases hanswer : answers i with
      | error e => exact absurd hanswer (hanswers i e)
      | ok length =>
        refine ⟨_, piece_ok_iff.mpr ⟨by omega, length, hanswer, rfl⟩, ?_⟩
        rw [Bytes.slice_length]
        omega
    have hforever := @Pieces.runsForever_of_short _ _ _ _ sizeof_buf _
      (fun a p => use a (start + UInt64.ofNat p)) ⟨0, 0, acc⟩ (content.length - lfs.base start)
      (by omega : content.length - lfs.base start < size) (Nat.zero_le _) hread
    rw [transferLoop_eq (slice_length_le content) hbuf, Loop.left_eq_some_iff] at hr
    exact Loop.not_returns_of_runsForever hforever ⟨fuel, hr⟩
  · intro h
    by_cases hfailure : ∃ i e, answers i = .error e
    · obtain ⟨i, e, hi⟩ := hfailure
      have herror : ∀ p count, ∃ e, answers.piece lfs (Bytes.slice content) (lfs.base start) i p count = .error e := by
        intro p count
        unfold Answers.piece
        rw [hi]
        split
        next => exact ⟨_, rfl⟩
        next => exact ⟨e, rfl⟩
      obtain ⟨r, fuel, hrun⟩ := @Pieces.returns_of_failure _ _ _ size sizeof_buf _
        (fun a p => use a (start + UInt64.ofNat p)) ⟨0, 0, acc⟩ i (Nat.zero_le i) herror
      refine ⟨fuel, r, ?_⟩
      rw [transferLoop_eq (slice_length_le content) hbuf, hrun]
      rfl
    · refine transferLoop_total answers use acc (slice_length_le content) hbuf ?_ hpos
      intro p count hbelow hp hcount hle
      rw [Bytes.slice_length]
      rcases h with h | h | h | h
      · omega
      · omega
      · omega
      · exact absurd h hfailure

theorem delivered_mono (answers : Answers) (sizeof_buf : Nat) {j k : Nat} (h : j ≤ k) :
    answers.delivered sizeof_buf j ≤ answers.delivered sizeof_buf k := by
  induction k with
  | zero =>
    have hj : j = 0 := by omega
    rw [hj]
  | succ k ih =>
    have hstep : answers.delivered sizeof_buf k ≤ answers.delivered sizeof_buf (k + 1) := by
      rw [Answers.delivered]
      split
      next => exact Nat.le_refl _
      next => omega
    rcases Nat.lt_or_ge k j with hlt | hge
    · have hj : j = k + 1 := by omega
      rw [hj]
    · have hk := ih hge
      omega

/-- Where a loop stands whose calls transfer all that they are asked for, in terms of the
schedule alone. -/
structure OnSchedule (answers : Answers) (lfs : FileOffsetBits) (sizeof_buf base size i p : Nat) : Prop where
  done : p = min size (answers.delivered sizeof_buf i)
  passed : ∀ j < i, (∃ length, answers j = .ok length) ∧
    base + answers.delivered sizeof_buf j < 2 ^ (lfs.width - 1)

theorem onSchedule_zero : OnSchedule answers lfs sizeof_buf (lfs.base start) size 0 0 :=
  ⟨(Nat.min_zero size).symm, fun j hj => absurd hj (Nat.not_lt_zero j)⟩

theorem OnSchedule.next {i p length : Nat} {piece : List UInt8}
    (hs : OnSchedule answers lfs sizeof_buf (lfs.base start) size i p) (hp : p < size)
    (hanswer : answers i = .ok length) (hbelow : lfs.base start + p < 2 ^ (lfs.width - 1))
    (hpiece : piece.length = min (min sizeof_buf (size - p)) (max length 1)) :
    OnSchedule answers lfs sizeof_buf (lfs.base start) size (i + 1) (p + piece.length) := by
  have hdone := hs.done
  have hstep : answers.delivered sizeof_buf (i + 1) =
      answers.delivered sizeof_buf i + min sizeof_buf (max length 1) := by
    rw [Answers.delivered, hanswer]
  refine ⟨?_, ?_⟩
  · rw [hpiece, hstep]
    omega
  · intro j hj
    rcases Nat.lt_or_ge j i with hlt | hge
    · exact hs.passed j hlt
    · have hji : j = i := by omega
      rw [hji]
      exact ⟨⟨length, hanswer⟩, by omega⟩

theorem OnSchedule.delivered_eq {i p : Nat} (hs : OnSchedule answers lfs sizeof_buf (lfs.base start) size i p)
    (hp : p < size) : answers.delivered sizeof_buf i = p := by
  have hdone := hs.done
  omega

/-- Where a call fails, the schedule stops the loop. -/
theorem OnSchedule.stopsAt {i p count : Nat} {e : Errno}
    (hs : OnSchedule answers lfs sizeof_buf (lfs.base start) size i p) (hp : p < size)
    (hcall : answers.piece lfs deliver (lfs.base start) i p count = .error e) :
    answers.StopsAt lfs sizeof_buf (lfs.base start) size i e := by
  have heq := hs.delivered_eq hp
  refine ⟨heq ▸ hp, hs.passed, ?_⟩
  rw [heq]
  exact piece_error_iff.mp hcall

/-- A loop that is through has not been stopped. -/
theorem OnSchedule.not_stopsAt {i k : Nat} {e : Errno}
    (hs : OnSchedule answers lfs sizeof_buf (lfs.base start) size i size) :
    ¬ answers.StopsAt lfs sizeof_buf (lfs.base start) size k e := by
  intro hstops
  have hdone := hs.done
  have hwithin := hstops.within
  have hlt : k < i := by
    by_contra hge
    have hmono := delivered_mono answers sizeof_buf (Nat.le_of_not_lt hge)
    omega
  obtain ⟨⟨length, hlength⟩, hbelow⟩ := hs.passed k hlt
  rcases hstops.fails with ⟨hbig, _⟩ | ⟨_, herror⟩
  · omega
  · rw [hlength] at herror
    cases herror

theorem Answers.StopsAt.unique {base k k' : Nat} {e e' : Errno} (h : answers.StopsAt lfs sizeof_buf base size k e)
    (h' : answers.StopsAt lfs sizeof_buf base size k' e') : k = k' ∧ e = e' := by
  have hnot : ∀ {k k' : Nat} {e e' : Errno}, answers.StopsAt lfs sizeof_buf base size k e →
      answers.StopsAt lfs sizeof_buf base size k' e' → ¬ k < k' := by
    intro k k' e e' h h' hlt
    obtain ⟨⟨length, hlength⟩, hbelow⟩ := h'.passed k hlt
    rcases h.fails with ⟨hbig, _⟩ | ⟨_, herror⟩
    · omega
    · rw [hlength] at herror
      cases herror
  have hk : k = k' := by
    have hle := hnot h h'
    have hge := hnot h' h
    omega
  subst hk
  refine ⟨rfl, ?_⟩
  rcases h.fails with ⟨hbig, he⟩ | ⟨hsmall, he⟩ <;> rcases h'.fails with ⟨hbig', he'⟩ | ⟨hsmall', he'⟩
  · rw [he, he']
  · omega
  · omega
  · exact Except.error.inj (he.symm.trans he')

theorem onSchedule_keeps (answers : Answers) (use : α → UInt64 → List UInt8 → α) {content : List UInt8}
    (hin : lfs.base start + size ≤ content.length) :
    Pieces.Keeps size sizeof_buf (answers.piece lfs (Bytes.slice content) (lfs.base start))
      (fun a p => use a (start + UInt64.ofNat p))
      (fun i p _ => OnSchedule answers lfs sizeof_buf (lfs.base start) size i p) := by
  intro i p a piece hp hs hpiece
  obtain ⟨hbelow, length, hanswer, rfl⟩ := piece_ok_iff.mp hpiece
  refine hs.next hp hanswer hbelow ?_
  rw [Bytes.slice_length]
  omega

/-- A loop that reads a range on the device fails just if a call fails before the range is through. -/
theorem readLoop_failed_iff (answers : Answers) (use : α → UInt64 → List UInt8 → α) (acc : α)
    {content : List UInt8} (hbuf : sizeof_buf ≤ 2 ^ (lfs.width - 1))
    (hin : lfs.base start + size ≤ content.length) {fuel : Nat} {r : α × Except Errno Unit}
    (h : transferLoop sizeof_buf (answers.call lfs (Bytes.slice content)) use start size acc fuel = some r) :
    (∃ e, r.2 = .error e) ↔ answers.StopsWithin lfs sizeof_buf (lfs.base start) size := by
  have h0 : OnSchedule answers lfs sizeof_buf (lfs.base start) size 0 0 := onSchedule_zero
  rcases transferLoop_keeps (slice_length_le content) hbuf h0 (onSchedule_keeps answers use hin) h with
    ⟨i, hs, hok⟩ | ⟨e, i, p, hp, hs, hcall, herror⟩
  · refine iff_of_false (fun ⟨e, he⟩ => by rw [hok] at he; cases he) ?_
    intro hstops
    obtain ⟨k, hk, hfail⟩ := hstops
    have hdone := hs.done
    have hlt : k < i := by
      by_contra hge
      have hmono := delivered_mono answers sizeof_buf (Nat.le_of_not_lt hge)
      omega
    obtain ⟨⟨length, hlength⟩, hbelow⟩ := hs.passed k hlt
    rcases hfail with ⟨e, he⟩ | hbig
    · rw [hlength] at he
      cases he
    · omega
  · obtain ⟨hwithin, _, hfails⟩ := hs.stopsAt hp hcall
    refine iff_of_true ⟨e, herror⟩ ⟨i, hwithin, ?_⟩
    rcases hfails with ⟨hbig, _⟩ | ⟨_, hanswer⟩
    · exact Or.inr hbig
    · exact Or.inl ⟨e, hanswer⟩

end

end PartitionManager
