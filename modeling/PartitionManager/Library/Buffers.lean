import Mathlib.Data.Nat.Digits.Defs
import PartitionManager.Library.Bytes

namespace Bytes

section

variable {α : Type} {old : Nat → α} {bytes m : List α} {offset count : Nat}

/-- A buffer after a read has put `bytes` at its start. -/
def fill (old : Nat → α) (bytes : List α) : Nat → α := fun i => bytes[i]?.getD (old i)

/-- What a buffer holds in `count` places from `offset` on. -/
def window (buf : Nat → α) (offset count : Nat) : List α := (List.range count).map fun i => buf (offset + i)

@[simp] theorem window_length (buf : Nat → α) (offset count : Nat) : (window buf offset count).length = count := by
  simp [window]

theorem window_getElem? (buf : Nat → α) (offset count i : Nat) :
    (window buf offset count)[i]? = if i < count then some (buf (offset + i)) else none := by
  unfold window
  rw [List.getElem?_map]
  split
  next hi => rw [List.getElem?_range hi, Option.map_some]
  next hi => rw [List.getElem?_eq_none (by simpa using hi), Option.map_none]

theorem window_append (buf : Nat → α) (offset m n : Nat) :
    window buf offset (m + n) = window buf offset m ++ window buf (offset + m) n := by
  unfold window
  rw [List.range_add, List.map_append, List.map_map]
  congr 1
  apply List.map_congr_left
  intro i _
  exact congrArg buf (Nat.add_assoc offset m i).symm

theorem window_succ (buf : Nat → α) (offset n : Nat) :
    window buf offset (n + 1) = buf offset :: window buf (offset + 1) n := by
  rw [Nat.add_comm, window_append]
  rfl

theorem slice_window {buf : Nat → α} {i n : Nat} (h : i + n ≤ count) :
    slice (window buf offset count) i n = window buf (offset + i) n := by
  apply List.ext_getElem?
  intro k
  rw [slice_getElem?, window_getElem?, window_getElem?]
  split
  next hk => rw [if_pos (by omega), Nat.add_assoc]
  next => rfl

/-- A window shows what was read of its range, then what the buffer held before. -/
theorem window_fill : window (fill old bytes) offset count = slice bytes offset count ++
    window old (offset + (slice bytes offset count).length) (count - (slice bytes offset count).length) := by
  have hlength := slice_length bytes offset count
  apply List.ext_getElem?
  intro i
  rw [window_getElem?]
  rcases Nat.lt_or_ge i (slice bytes offset count).length with hlt | hge
  · rw [List.getElem?_append_left hlt, slice_getElem?, if_pos (by omega), if_pos (by omega), fill,
      List.getElem?_eq_getElem (by omega), Option.getD_some]
  · rw [List.getElem?_append_right hge, window_getElem?]
    by_cases hi : i < count
    · have hplace : offset + (slice bytes offset count).length + (i - (slice bytes offset count).length) =
          offset + i := by omega
      rw [if_pos hi, if_pos (by omega), hplace, fill, List.getElem?_eq_none (by omega), Option.getD_none]
    · rw [if_neg hi, if_neg (by omega)]

theorem window_fill_of_le (h : offset + count ≤ bytes.length) :
    window (fill old bytes) offset count = slice bytes offset count := by
  have hlength := slice_length bytes offset count
  rw [window_fill, show count - (slice bytes offset count).length = 0 by omega]
  simp [window]

/-- Two reads into one buffer are one of the second and what it left of the first. -/
theorem fill_fill (old : Nat → α) (first second : List α) :
    fill (fill old first) second = fill old (second ++ first.drop second.length) := by
  funext i
  unfold fill
  rcases Nat.lt_or_ge i second.length with hlt | hge
  · rw [List.getElem?_append_left hlt, List.getElem?_eq_getElem hlt, Option.getD_some, Option.getD_some]
  · rw [List.getElem?_append_right hge, List.getElem?_eq_none hge, Option.getD_none, List.getElem?_drop,
      Nat.add_sub_cancel' hge]

/-- What was read of a window is how it begins. -/
theorem slice_prefix_window : slice bytes offset count <+: window (fill old bytes) offset count := by
  rw [window_fill]
  exact List.prefix_append _ _

/-- A window of which not all was read may hold anything that begins with what was. -/
theorem exists_window_eq (h : slice bytes offset count <+: m) (hm : m.length = count) (fallback : α) :
    ∃ old, window (fill old bytes) offset count = m := by
  obtain ⟨rest, hrest⟩ := h
  have hlength := congrArg List.length hrest
  rw [List.length_append] at hlength
  refine ⟨fun i => m.getD (i - offset) fallback, ?_⟩
  apply List.ext_getElem?
  intro i
  rw [window_getElem?]
  split
  next hi =>
    rcases Nat.lt_or_ge i (slice bytes offset count).length with hlt | hge
    · have hread := slice_getElem? bytes offset count i
      rw [if_pos hi, List.getElem?_eq_getElem hlt] at hread
      rw [fill, ← hread, Option.getD_some, ← hrest, List.getElem?_append_left hlt, List.getElem?_eq_getElem hlt]
    · have hread := slice_getElem? bytes offset count i
      rw [if_pos hi, List.getElem?_eq_none hge] at hread
      rw [fill, ← hread, Option.getD_none, Nat.add_sub_cancel_left, List.getD_eq_getElem?_getD,
        List.getElem?_eq_getElem (by omega), Option.getD_some]
  next hi => rw [List.getElem?_eq_none (by omega)]

/-- The last place of such a window holds what the buffer held before. -/
theorem window_getElem?_unread {i : Nat} (hi : i < count) (h : bytes.length ≤ offset + i) :
    (window (fill old bytes) offset count)[i]? = some (old (offset + i)) := by
  rw [window_getElem?, if_pos hi, fill, List.getElem?_eq_none h, Option.getD_none]

/-- A window shows the same, whatever was there before, when all of it was read. -/
theorem forall_window_eq_iff [Nontrivial α] (hm : m.length = count) :
    (∀ old, window (fill old bytes) offset count = m) ↔ slice bytes offset count = m := by
  have hlength := slice_length bytes offset count
  constructor
  · intro h
    by_contra hne
    have hshort : bytes.length < offset + count := by
      by_contra hlong
      obtain ⟨a, _⟩ := exists_pair_ne α
      have hwhole : window (fill (fun _ => a) bytes) offset count = slice bytes offset count :=
        window_fill_of_le (by omega)
      exact hne (hwhole.symm.trans (h _))
    have hpos : 0 < count := by
      by_contra hzero
      obtain rfl : count = 0 := by omega
      exact hne (by rw [List.length_eq_zero_iff.mp hm]; rfl)
    obtain ⟨a, b, hab⟩ := exists_pair_ne α
    have hlast : ∀ c, m[count - 1]? = some c := by
      intro c
      rw [← h fun _ => c]
      exact window_getElem?_unread (by omega) (by omega)
    exact hab (Option.some.inj ((hlast a).symm.trans (hlast b)))
  · intro h old
    have hall := congrArg List.length h
    rcases Nat.eq_zero_or_pos count with rfl | hpos
    · rw [← h]
      rfl
    · rw [window_fill_of_le (by omega), h]

/-- It never shows what contradicts that which was read, and only that. -/
theorem forall_window_ne_iff [Inhabited α] (hm : m.length = count) :
    (∀ old, window (fill old bytes) offset count ≠ m) ↔ ¬ slice bytes offset count <+: m := by
  constructor
  · intro h hstart
    obtain ⟨old, hold⟩ := exists_window_eq hstart hm default
    exact h old hold
  · intro h old heq
    exact h (heq ▸ slice_prefix_window)

end

/-- The number that bytes stand for in little-endian order. -/
def decode (bytes : List UInt8) : Nat := Nat.ofDigits 256 (bytes.map UInt8.toNat)

@[simp] theorem decode_nil : decode [] = 0 := rfl

theorem decode_cons (b : UInt8) (bytes : List UInt8) : decode (b :: bytes) = b.toNat + 256 * decode bytes := by
  simp [decode, Nat.ofDigits_cons]

theorem decode_append (xs ys : List UInt8) : decode (xs ++ ys) = decode xs + 256 ^ xs.length * decode ys := by
  unfold decode
  rw [List.map_append, Nat.ofDigits_append, List.length_map]

theorem decode_lt (bytes : List UInt8) : decode bytes < 256 ^ bytes.length := by
  have h := Nat.ofDigits_lt_base_pow_length (b := 256) (l := bytes.map UInt8.toNat) (by decide) (by
    intro x hx
    obtain ⟨b, _, rfl⟩ := List.mem_map.mp hx
    exact b.toNat_lt)
  rwa [List.length_map] at h

theorem decode_inj {xs ys : List UInt8} (hlength : xs.length = ys.length) (h : decode xs = decode ys) : xs = ys := by
  induction xs generalizing ys with
  | nil => exact (List.length_eq_zero_iff.mp hlength.symm).symm
  | cons x xs ih =>
    cases ys with
    | nil => cases hlength
    | cons y ys =>
      rw [decode_cons, decode_cons] at h
      have hx := x.toNat_lt
      have hy := y.toNat_lt
      have hfirst : x = y := UInt8.toNat_inj.mp (by omega)
      rw [hfirst, ih (Nat.succ.inj hlength) (by omega)]

/-- A bit of the number is a bit of one of its bytes. -/
theorem decode_testBit (b : UInt8) (bytes : List UInt8) (i : Nat) :
    (decode (b :: bytes)).testBit i = if i < 8 then b.toNat.testBit i else (decode bytes).testBit (i - 8) := by
  rw [decode_cons, Nat.add_comm]
  exact Nat.testBit_two_pow_mul_add (decode bytes) b.toNat_lt i

theorem decode_testBit_getElem? (bytes : List UInt8) (i bit : Nat) (h : bit < 8) :
    (decode bytes).testBit (8 * i + bit) = (bytes[i]?.getD 0).toNat.testBit bit := by
  induction bytes generalizing i with
  | nil => simp
  | cons b bytes ih =>
    rw [decode_testBit]
    cases i with
    | zero => simp [h]
    | succ i =>
      rw [if_neg (by omega), show 8 * (i + 1) + bit - 8 = 8 * i + bit by omega, ih i, List.getElem?_cons_succ]

end Bytes
