import Mathlib.Algebra.Order.Ring.Nat

namespace Hex

/-- A hexadecimal digit in lower case. -/
def value (c : Char) : Option Nat :=
  if '0' ≤ c ∧ c ≤ '9' then some (c.toNat - 48)
  else if 'a' ≤ c ∧ c ≤ 'f' then some (c.toNat - 87)
  else none

def number (text : List Char) : Nat := text.foldl (fun n c => 16 * n + (value c).getD 0) 0

/-- A byte in two digits. -/
def byte : List Char → Option UInt8
  | [c, d] =>
    match value c, value d with
    | some m, some n => some (UInt8.ofNat (16 * m + n))
    | _, _ => none
  | _ => none

theorem value_digitChar {d : Nat} (h : d < 16) : value (Nat.digitChar d) = some d := by
  have hall : ∀ d < 16, value (Nat.digitChar d) = some d := by decide
  exact hall d h

theorem value_space : value ' ' = none := by decide

theorem number_append (text : List Char) (c : Char) :
    number (text ++ [c]) = 16 * number text + (value c).getD 0 := by
  unfold number
  rw [List.foldl_append]
  rfl

theorem number_pad (k : Nat) (text : List Char) : number (List.replicate k '0' ++ text) = number text := by
  have hzeros : (List.replicate k '0').foldl (fun n c => 16 * n + (value c).getD 0) 0 = 0 := by
    induction k with
    | zero => rfl
    | succ k ih =>
      rw [List.replicate_succ, List.foldl_cons]
      exact ih
  unfold number
  rw [List.foldl_append, hzeros]

theorem number_toDigits (n : Nat) : number (Nat.toDigits 16 n) = n := by
  induction n using Nat.strongRecOn with
  | _ n ih =>
    rcases Nat.lt_or_ge n 16 with hlt | hge
    · rw [Nat.toDigits_of_lt_base hlt]
      show 16 * 0 + (value (Nat.digitChar n)).getD 0 = n
      rw [value_digitChar hlt, Option.getD_some]
      omega
    · have hdigit := value_digitChar (Nat.mod_lt n (by decide : 0 < 16))
      rw [Nat.toDigits_of_base_le (by decide) hge, number_append, ih (n / 16) (by omega), hdigit, Option.getD_some]
      exact Nat.div_add_mod n 16

theorem value_of_mem_toDigits {n : Nat} {c : Char} (h : c ∈ Nat.toDigits 16 n) : value c ≠ none := by
  induction n using Nat.strongRecOn with
  | _ n ih =>
    rcases Nat.lt_or_ge n 16 with hlt | hge
    · rw [Nat.toDigits_of_lt_base hlt, List.mem_singleton] at h
      rw [h, value_digitChar hlt]
      simp
    · rw [Nat.toDigits_of_base_le (by decide) hge, List.mem_append, List.mem_singleton] at h
      rcases h with h | h
      · exact ih (n / 16) (by omega) h
      · rw [h, value_digitChar (Nat.mod_lt n (by decide : 0 < 16))]
        simp

theorem byte_digits (b : UInt8) : byte [Nat.digitChar (b.toNat / 16), Nat.digitChar (b.toNat % 16)] = some b := by
  have hlt := b.toNat_lt
  have hhigh := value_digitChar (by omega : b.toNat / 16 < 16)
  have hlow := value_digitChar (by omega : b.toNat % 16 < 16)
  have hsum : 16 * (b.toNat / 16) + b.toNat % 16 = b.toNat := Nat.div_add_mod _ 16
  simp only [byte, hhigh, hlow, hsum, UInt8.ofNat_toNat]

theorem byte_spaces : byte [' ', ' '] = none := by decide

end Hex
