import Mathlib.Data.Char
import Mathlib.Data.List.TakeWhile

namespace Utf16

def IsHigh (u : Nat) : Prop := 0xD800 ≤ u ∧ u < 0xDC00

def IsLow (u : Nat) : Prop := 0xDC00 ≤ u ∧ u < 0xE000

instance (u : Nat) : Decidable (IsHigh u) := inferInstanceAs (Decidable (_ ∧ _))

instance (u : Nat) : Decidable (IsLow u) := inferInstanceAs (Decidable (_ ∧ _))

/-- The character of a unit on its own; a surrogate has none and is replaced. -/
def single (u : Nat) : Char := if u.isValidChar then Char.ofNat u else Char.ofNat 0xFFFD

/-- The character of a surrogate pair. -/
def pair (u v : Nat) : Char := Char.ofNat (0x10000 + (u - 0xD800) * 0x400 + (v - 0xDC00))

def text : List Nat → List Char
  | [] => []
  | [u] => [single u]
  | u :: v :: units => if IsHigh u ∧ IsLow v then pair u v :: text units else single u :: text (v :: units)

/-- The UTF-8 form of a text that is given in units of UTF-16. -/
def toUtf8 (units : List Nat) : List UInt8 := (text units).flatMap String.utf8EncodeChar

theorem toNat_ofNat {n : Nat} (h : n.isValidChar) : (Char.ofNat n).toNat = n := by
  unfold Char.ofNat
  rw [dif_pos h]
  rfl

theorem utf8Size_eq_one_iff {c : Char} : (String.utf8EncodeChar c).length = 1 ↔ c.toNat < 0x80 := by
  rw [String.length_utf8EncodeChar, Char.utf8Size_eq_one_iff, UInt32.le_iff_toNat_le]
  exact Nat.lt_succ_iff.symm

theorem encode_pos (c : Char) : 1 ≤ (String.utf8EncodeChar c).length := by
  rw [String.length_utf8EncodeChar]
  exact c.utf8Size_pos

theorem encode_of_lt {c : Char} (h : c.toNat < 0x80) : String.utf8EncodeChar c = [UInt8.ofNat c.toNat] := by
  unfold String.utf8EncodeChar
  exact if_pos (Nat.lt_succ_iff.mp h)

theorem pair_toNat {u v : Nat} (hu : IsHigh u) (hv : IsLow v) :
    (pair u v).toNat = 0x10000 + (u - 0xD800) * 0x400 + (v - 0xDC00) := by
  apply toNat_ofNat
  have hlow := hv.2
  have hhigh := hu.2
  exact Or.inr ⟨by omega, by omega⟩

theorem encode_pair_length {u v : Nat} (hu : IsHigh u) (hv : IsLow v) :
    (String.utf8EncodeChar (pair u v)).length = 4 := by
  have hvalue := pair_toNat hu hv
  rw [String.length_utf8EncodeChar, Char.utf8Size_eq_four_iff, UInt32.lt_iff_toNat_lt]
  show 0xFFFF < (pair u v).toNat
  omega

theorem single_lt_iff {u : Nat} : (single u).toNat < 0x80 ↔ u < 0x80 := by
  unfold single
  split
  next h => rw [toNat_ofNat h]
  next h =>
    refine iff_of_false (by decide) fun hlt => h ?_
    exact Or.inl (by omega)

theorem single_ne_zero {u : Nat} (h : u ≠ 0) : (single u).toNat ≠ 0 := by
  unfold single
  split
  next hvalid => rwa [toNat_ofNat hvalid]
  next => decide

/-- No unit is lost, and only those of ASCII take one byte each. -/
theorem toUtf8_length (units : List Nat) : units.length ≤ (toUtf8 units).length ∧
    ((toUtf8 units).length = units.length → ∀ u ∈ units, u < 0x80) := by
  induction units using text.induct with
  | case1 => exact ⟨Nat.le_refl 0, fun _ _ hu => absurd hu List.not_mem_nil⟩
  | case2 u =>
    have hpos := encode_pos (single u)
    have hlength : (toUtf8 [u]).length = (String.utf8EncodeChar (single u)).length := by
      simp [toUtf8, text]
    rw [hlength]
    refine ⟨hpos, fun hone w hw => ?_⟩
    rw [List.mem_singleton.mp hw]
    exact single_lt_iff.mp (utf8Size_eq_one_iff.mp hone)
  | case3 u v units hpair ih =>
    have hfour := encode_pair_length hpair.1 hpair.2
    have hlength : (toUtf8 (u :: v :: units)).length = 4 + (toUtf8 units).length := by
      unfold toUtf8
      rw [text, if_pos hpair, List.flatMap_cons, List.length_append, hfour]
    rw [hlength, List.length_cons, List.length_cons]
    have hle := ih.1
    exact ⟨by omega, fun heq => by omega⟩
  | case4 u v units hpair ih =>
    have hpos := encode_pos (single u)
    have hlength : (toUtf8 (u :: v :: units)).length =
        (String.utf8EncodeChar (single u)).length + (toUtf8 (v :: units)).length := by
      unfold toUtf8
      rw [text, if_neg hpair, List.flatMap_cons, List.length_append]
    rw [hlength, List.length_cons]
    have hle := ih.1
    refine ⟨by omega, fun heq w hw => ?_⟩
    rcases List.mem_cons.mp hw with rfl | hw
    · exact single_lt_iff.mp (utf8Size_eq_one_iff.mp (by omega))
    · exact ih.2 (by omega) w hw

theorem toUtf8_of_ascii {units : List Nat} (h : ∀ u ∈ units, u < 0x80) : toUtf8 units = units.map UInt8.ofNat := by
  have hsingle : ∀ u, u < 0x80 → String.utf8EncodeChar (single u) = [UInt8.ofNat u] := by
    intro u hu
    have hvalue : (single u).toNat = u := by
      have hvalid : u.isValidChar := Or.inl (by omega)
      rw [single, if_pos hvalid, toNat_ofNat hvalid]
    rw [encode_of_lt (single_lt_iff.mpr hu), hvalue]
  induction units using text.induct with
  | case1 => rfl
  | case2 u =>
    rw [toUtf8, text, List.flatMap_singleton, hsingle u (h u (List.mem_singleton_self u))]
    rfl
  | case3 u v units hpair ih =>
    have hlt := h u List.mem_cons_self
    have hhigh := hpair.1.1
    omega
  | case4 u v units hpair ih =>
    have hrest := ih fun w hw => h w (List.mem_cons_of_mem u hw)
    unfold toUtf8 at hrest ⊢
    rw [text, if_neg hpair, List.flatMap_cons, hrest, hsingle u (h u List.mem_cons_self)]
    rfl

theorem zero_not_mem_cons {n : Nat} {bytes : List UInt8} (hpos : 0 < n) (hlt : n < 256) (h : 0 ∉ bytes) :
    0 ∉ UInt8.ofNat n :: bytes := by
  intro hmem
  rcases List.mem_cons.mp hmem with heq | hrest
  · have hnat := congrArg UInt8.toNat heq
    rw [UInt8.toNat_ofNat_of_lt' hlt] at hnat
    have hzero : (0 : UInt8).toNat = 0 := rfl
    omega
  · exact h hrest

/-- Only the null character has a zero byte. -/
theorem zero_not_mem_encode {c : Char} (h : c.toNat ≠ 0) : 0 ∉ String.utf8EncodeChar c := by
  have hvalue : c.val.toNat = c.toNat := rfl
  have hnil : (0 : UInt8) ∉ [] := List.not_mem_nil
  unfold String.utf8EncodeChar
  dsimp only
  split
  next => exact zero_not_mem_cons (by omega) (by omega) hnil
  next =>
    have hlast := zero_not_mem_cons (n := c.val.toNat % 0x40 + 0x80) (by omega) (by omega) hnil
    split
    next => exact zero_not_mem_cons (by omega) (by omega) hlast
    next =>
      have hrest := zero_not_mem_cons (n := c.val.toNat / 64 % 0x40 + 0x80) (by omega) (by omega) hlast
      split
      next => exact zero_not_mem_cons (by omega) (by omega) hrest
      next =>
        refine zero_not_mem_cons (by omega) (by omega) ?_
        exact zero_not_mem_cons (by omega) (by omega) hrest

theorem pair_ne_zero {u v : Nat} (hu : IsHigh u) (hv : IsLow v) : (pair u v).toNat ≠ 0 := by
  rw [pair_toNat hu hv]
  omega

theorem zero_not_mem_toUtf8 {units : List Nat} (h : 0 ∉ units) : 0 ∉ toUtf8 units := by
  have hchars : ∀ c ∈ text units, c.toNat ≠ 0 := by
    induction units using text.induct with
    | case1 => exact fun _ hc => absurd hc List.not_mem_nil
    | case2 u =>
      intro c hc
      rw [List.mem_singleton.mp hc]
      exact single_ne_zero fun hzero => h (List.mem_singleton.mpr hzero.symm)
    | case3 u v units hpair ih =>
      intro c hc
      rw [text, if_pos hpair] at hc
      rcases List.mem_cons.mp hc with heq | hc
      · rw [heq]
        exact pair_ne_zero hpair.1 hpair.2
      · exact ih (fun hzero => h (List.mem_cons_of_mem u (List.mem_cons_of_mem v hzero))) c hc
    | case4 u v units hpair ih =>
      intro c hc
      rw [text, if_neg hpair] at hc
      rcases List.mem_cons.mp hc with heq | hc
      · rw [heq]
        exact single_ne_zero fun hzero => h (List.mem_cons.mpr (Or.inl hzero.symm))
      · exact ih (fun hzero => h (List.mem_cons_of_mem u hzero)) c hc
  intro hmem
  obtain ⟨c, hc, hbyte⟩ := List.mem_flatMap.mp hmem
  exact zero_not_mem_encode (hchars c hc) hbyte

/-- The low bytes of a text, up to the first that is zero, are its UTF-8 form just in ASCII. -/
theorem lowBytes_eq_iff {units : List Nat} (h : 0 ∉ units) :
    (units.map UInt8.ofNat).takeWhile (· ≠ 0) = toUtf8 units ↔ ∀ u ∈ units, u < 0x80 := by
  constructor
  · intro heq
    obtain ⟨hle, hascii⟩ := toUtf8_length units
    have hshort := (List.takeWhile_prefix (fun b : UInt8 => decide (b ≠ 0)) (l := units.map UInt8.ofNat)).length_le
    rw [heq, List.length_map] at hshort
    exact hascii (by omega)
  · intro hascii
    rw [← toUtf8_of_ascii hascii, List.takeWhile_eq_self_iff]
    intro b hb
    exact decide_eq_true fun hzero => zero_not_mem_toUtf8 h (hzero ▸ hb)

theorem ascii_inj {units others : List Nat} (h : ∀ u ∈ units, u < 0x80) (h' : ∀ u ∈ others, u < 0x80)
    (heq : toUtf8 units = toUtf8 others) : units = others := by
  have hback : ∀ texts : List Nat, (∀ u ∈ texts, u < 0x80) → (texts.map UInt8.ofNat).map UInt8.toNat = texts := by
    intro texts htexts
    rw [List.map_map]
    refine (List.map_congr_left fun u hu => ?_).trans (List.map_id texts)
    have hlt := htexts u hu
    exact UInt8.toNat_ofNat_of_lt' (show u < UInt8.size by
      have hsize : UInt8.size = 256 := rfl
      omega)
  rw [toUtf8_of_ascii h, toUtf8_of_ascii h'] at heq
  rw [← hback units h, ← hback others h', heq]

end Utf16
