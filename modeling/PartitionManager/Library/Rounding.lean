import Mathlib.Algebra.Ring.Parity
import Mathlib.Algebra.Order.Ring.Nat
import Mathlib.Tactic.Ring

namespace Rounding

/-- The quotient rounded to the nearest number, and of two to the even one. -/
def nearest (n d : Nat) : Nat :=
  if 2 * (n % d) < d ∨ (2 * (n % d) = d ∧ n / d % 2 = 0) then n / d else n / d + 1

variable {n d s : Nat}

theorem nearest_of_lt (h : 2 * (n % d) < d) : nearest n d = n / d := if_pos (Or.inl h)

theorem nearest_of_gt (h : d < 2 * (n % d)) : nearest n d = n / d + 1 := if_neg (by omega)

theorem nearest_of_tie (h : 2 * (n % d) = d) : nearest n d = n / d + n / d % 2 := by
  unfold nearest
  split <;> omega

/-- The error is half a unit at most. -/
theorem nearest_error (n : Nat) (hd : 0 < d) :
    2 * n ≤ 2 * (nearest n d * d) + d ∧ 2 * (nearest n d * d) ≤ 2 * n + d := by
  have hsplit := Nat.div_add_mod' n d
  have hrest := Nat.mod_lt n hd
  rcases Nat.lt_trichotomy (2 * (n % d)) d with hlt | heq | hgt
  · rw [nearest_of_lt hlt]
    omega
  · rw [nearest_of_tie heq, Nat.add_mul]
    rcases Nat.mod_two_eq_zero_or_one (n / d) with heven | hodd
    · rw [heven]
      omega
    · rw [hodd]
      omega
  · rw [nearest_of_gt hgt, Nat.add_mul]
    omega

/-- A quotient with its rest below the divisor is rounded by the rest alone. -/
theorem nearest_mul_add {q r : Nat} (hr : r < d) :
    nearest (q * d + r) d = if 2 * r < d ∨ (2 * r = d ∧ q % 2 = 0) then q else q + 1 := by
  have hdiv : (q * d + r) / d = q := Nat.div_eq_of_lt_le (Nat.le_add_right _ _) (by rw [Nat.succ_mul]; omega)
  have hmod : (q * d + r) % d = r := by rw [Nat.mul_add_mod_self_right, Nat.mod_eq_of_lt hr]
  unfold nearest
  rw [hdiv, hmod]

/-- A multiple of an even number adds its whole part to the rest. -/
theorem nearest_mul_mul_add (hs : Even s) (hd : 0 < d) (q r : Nat) :
    nearest (s * q * d + r) d = s * q + nearest r d := by
  have hmod := Nat.mod_lt r hd
  have hwhole : s * q * d + r = (s * q + r / d) * d + r % d := by
    rw [Nat.add_mul, Nat.add_assoc, Nat.div_add_mod']
  have hparity : (s * q + r / d) % 2 = r / d % 2 := by
    obtain ⟨half, rfl⟩ := hs
    have heven : (half + half) * q = 2 * (half * q) := by ring
    omega
  rw [hwhole, nearest_mul_add hmod, hparity, nearest]
  split <;> omega

/-- In parts of an even number, the quotient is a whole number exactly if it is half a part
from one at most. -/
theorem dvd_nearest_iff (hs : Even s) (hpos : 0 < s) (hd : 0 < d) (n : Nat) :
    s ∣ nearest (s * n) d ↔ 2 * (s * (n % d)) ≤ d ∨ 2 * (s * (d - n % d)) ≤ d := by
  have hrest := Nat.mod_lt n hd
  have hsplit : s * n = s * (n / d) * d + s * (n % d) := by
    calc s * n = s * (n / d * d + n % d) := by rw [Nat.div_add_mod']
      _ = s * (n / d) * d + s * (n % d) := by ring
  rw [hsplit, nearest_mul_mul_add hs hd, Nat.dvd_add_right (Nat.dvd_mul_right s _)]
  generalize n % d = r at hrest
  have hgap : s * (d - r) + s * r = s * d := by rw [← Nat.mul_add, Nat.sub_add_cancel hrest.le]
  have herror := nearest_error (s * r) hd
  have htop : nearest (s * r) d ≤ s := by
    by_contra hlt
    have hmore : (s + 1) * d ≤ nearest (s * r) d * d := Nat.mul_le_mul_right d (by omega)
    have hless : s * r < s * d := Nat.mul_lt_mul_of_pos_left hrest hpos
    rw [Nat.succ_mul] at hmore
    omega
  constructor
  · intro hdvd
    rcases Nat.eq_zero_or_pos (nearest (s * r) d) with hzero | hmore
    · left
      rw [hzero] at herror
      omega
    · right
      rw [le_antisymm htop (Nat.le_of_dvd hmore hdvd)] at herror
      omega
  · intro hnear
    rcases hnear with hlow | hhigh
    · have hzero := nearest_mul_add (q := 0) (r := s * r) (d := d) (by omega)
      rw [Nat.zero_mul, Nat.zero_add, if_pos (by omega)] at hzero
      rw [hzero]
      exact Nat.dvd_zero s
    · have hgap0 : 0 < s * (d - r) := Nat.mul_pos hpos (by omega)
      have hbelow : s * r = (s - 1) * d + (d - s * (d - r)) := by
        rw [Nat.sub_mul, Nat.one_mul]
        have hone : d ≤ s * d := Nat.le_mul_of_pos_left d hpos
        omega
      have hround := nearest_mul_add (q := s - 1) (r := d - s * (d - r)) (d := d) (by omega)
      have hodd : (s - 1) % 2 = 1 := by
        obtain ⟨half, rfl⟩ := hs
        omega
      rw [← hbelow, if_neg (by omega), Nat.sub_add_cancel hpos] at hround
      rw [hround]

end Rounding
