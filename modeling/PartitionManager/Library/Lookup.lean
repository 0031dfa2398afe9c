import Mathlib.Data.List.Nodup

/-! Searches through lists whose elements are known by a key. -/

namespace Lookup

variable {α κ : Type} [DecidableEq κ] {key : α → κ} {xs : List α} {x : α}

theorem find?_of_nodup (hnodup : (xs.map key).Nodup) (hx : x ∈ xs) :
    xs.find? (fun y => key y = key x) = some x := by
  have hsome : (xs.find? fun y => key y = key x).isSome := List.find?_isSome.mpr ⟨x, hx, by simp⟩
  obtain ⟨found, hfound⟩ := Option.isSome_iff_exists.mp hsome
  have hkey : key found = key x := by simpa using List.find?_some hfound
  rw [hfound, List.inj_on_of_nodup_map hnodup (List.mem_of_find?_eq_some hfound) hx hkey]

/-- The keys are distinct if every element is the only one with its key. -/
theorem nodup_iff_filter : (xs.map key).Nodup ↔ ∀ x ∈ xs, xs.filter (fun y => key y = key x) = [x] := by
  induction xs with
  | nil => simp
  | cons y ys ih =>
    rw [List.map_cons, List.nodup_cons, ih, List.forall_mem_cons, List.filter_cons_of_pos (by simp), List.cons.injEq,
      and_iff_right rfl, List.filter_eq_nil_iff]
    have hnew : key y ∉ ys.map key ↔ ∀ z ∈ ys, ¬ decide (key z = key y) = true := by
      simp [List.mem_map]
    rw [hnew]
    refine and_congr_right fun hfresh => forall_congr' fun x => imp_congr_right fun hx => ?_
    have hne : key y ≠ key x := by
      intro heq
      exact hfresh x hx (by simp [heq])
    rw [List.filter_cons_of_neg (by simpa using hne)]

/-- Where one search succeeds, another one that it would satisfy succeeds with the same
element just when it finds nothing before. -/
theorem find?_same_iff {p q : α → Bool} (hfind : xs.find? p = some x) (hq : q x = true) :
    xs.find? q = some x ↔ ∀ y ∈ xs.takeWhile (fun y => !p y), q y = false := by
  have hx := List.find?_some hfind
  induction xs with
  | nil => cases hfind
  | cons y ys ih =>
    cases hy : p y with
    | true =>
      rw [List.find?_cons_of_pos hy] at hfind
      cases hfind
      rw [List.takeWhile_cons_of_neg (by simp [hx]), List.find?_cons_of_pos hq]
      simp
    | false =>
      rw [List.find?_cons_of_neg (by simp [hy])] at hfind
      rw [List.takeWhile_cons_of_pos (by simp [hy]), List.forall_mem_cons]
      cases hqy : q y with
      | true =>
        rw [List.find?_cons_of_pos hqy]
        refine iff_of_false ?_ (by simp)
        intro heq
        cases heq
        rw [hx] at hy
        cases hy
      | false =>
        rw [List.find?_cons_of_neg (by simp [hqy]), and_iff_right rfl]
        exact ih hfind

/-- The elements with one of several distinct keys, collected key by key. -/
theorem flatMap_filter_perm {keys : List κ} (hnodup : keys.Nodup) (xs : List α) :
    (keys.flatMap fun k => xs.filter fun x => key x = k).Perm (xs.filter fun x => key x ∈ keys) := by
  induction keys with
  | nil => simp
  | cons k keys ih =>
    obtain ⟨hnew, hrest⟩ := List.nodup_cons.mp hnodup
    have hsplit := List.filter_append_perm (fun x => decide (key x = k)) (xs.filter fun x => key x ∈ k :: keys)
    have hone : (xs.filter fun x => key x ∈ k :: keys).filter (fun x => key x = k) = xs.filter fun x => key x = k := by
      rw [List.filter_filter]
      refine List.filter_congr fun x _ => ?_
      by_cases hk : key x = k
      · simp [hk]
      · simp [hk]
    have hothers : (xs.filter fun x => key x ∈ k :: keys).filter (fun x => !decide (key x = k)) =
        xs.filter fun x => key x ∈ keys := by
      rw [List.filter_filter]
      refine List.filter_congr fun x _ => ?_
      by_cases hk : key x = k
      · simp [hk, hnew]
      · simp [hk]
    rw [hone, hothers] at hsplit
    rw [List.flatMap_cons]
    exact ((ih hrest).append_left _).trans hsplit

end Lookup
