import PartitionManager.Basic

namespace PartitionManager

/-- The answers of a descriptor to successive transfer calls. The `i`-th call,
asked for `count` bytes, returns `result i count`; if that is `-1`, the call
leaves `errno i` behind. -/
structure Schedule (abi : Abi) where
  result : Nat → Nat → Int
  errno : Nat → Errno
  ge_neg_one : ∀ i count, -1 ≤ result i count
  le_count : ∀ i count, result i count ≤ count
  le_max : ∀ i count, result i count ≤ abi.SSIZE_MAX

/-- Writes: nothing is taken of an empty request, and a request longer than
`SSIZE_MAX` is refused. -/
structure WriteSchedule (abi : Abi) extends Schedule abi where
  zero : ∀ i, result i 0 = 0
  too_long : ∀ i count, abi.SSIZE_MAX < count → result i count = -1

/-- `errno` after the `i`-th call: successful calls leave it alone. -/
def Schedule.errnoAfter {abi : Abi} (sched : Schedule abi) (i count : Nat) (errno : Errno) : Errno :=
  if sched.result i count = -1 then sched.errno i else errno

theorem Schedule.errnoAfter_of_ok {abi : Abi} {sched : Schedule abi} {i count : Nat}
    (h : sched.result i count ≠ -1) (errno : Errno) : sched.errnoAfter i count errno = errno := by
  simp [errnoAfter, h]

theorem Schedule.errnoAfter_of_failed {abi : Abi} {sched : Schedule abi} {i count : Nat}
    (h : sched.result i count = -1) (errno : Errno) :
    sched.errnoAfter i count errno = sched.errno i := by
  simp [errnoAfter, h]

/-- A failed read, taken for a length, asks the next write for more than it may transfer. -/
theorem WriteSchedule.result_toSize_neg_one {abi : Abi} (writes : WriteSchedule abi) (i : Nat) :
    writes.result i (abi.toSize (-1)) = -1 := by
  apply writes.too_long
  cases abi <;> decide

/-- Transfers everything it is asked for, as far as one call can. -/
def WriteSchedule.full (abi : Abi) : WriteSchedule abi where
  result _ count := if abi.SSIZE_MAX < count then -1 else count
  errno _ := EINVAL
  ge_neg_one _ count := by split <;> omega
  le_count _ count := by split <;> omega
  le_max _ count := by split <;> omega
  zero _ := by simp
  too_long _ count h := by simp [h]

/-- Takes one byte at a time. -/
def Schedule.oneByte (abi : Abi) : Schedule abi where
  result _ count := if count = 0 then 0 else 1
  errno _ := EINVAL
  ge_neg_one _ count := by split <;> omega
  le_count _ count := by split <;> omega
  le_max _ count := by
    have hmax : 1 ≤ abi.SSIZE_MAX := by cases abi <;> decide
    split <;> omega

end PartitionManager
