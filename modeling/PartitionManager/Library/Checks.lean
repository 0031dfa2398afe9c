import Mathlib.Data.List.Forall2
import Mathlib.Data.List.Induction

/-! Checks and computations over a list that may stop with an error. -/

namespace Checks

variable {α β ε : Type}

theorem ok_bind (a : α) (f : α → Except ε β) : (Except.ok a >>= f) = f a := rfl

theorem bind_ok_iff {x : Except ε α} {f : α → Except ε β} {b : β} :
    (x >>= f) = .ok b ↔ ∃ a, x = .ok a ∧ f a = .ok b := by
  cases x with
  | error e => simp [bind, Except.bind]
  | ok a => simp [bind, Except.bind]

theorem bind_error_iff {x : Except ε α} {f : α → Except ε β} {e : ε} :
    (x >>= f) = .error e ↔ x = .error e ∨ ∃ a, x = .ok a ∧ f a = .error e := by
  cases x with
  | error e => simp [bind, Except.bind]
  | ok a => simp [bind, Except.bind]

theorem check_error_iff {x : Except ε Unit} : (∃ e, x = .error e) ↔ ¬ x = .ok () := by
  cases x with
  | error e => simp
  | ok a => simp

theorem allM_ok_true {f : α → Except ε Bool} {xs : List α} :
    xs.allM f = .ok true ↔ ∀ x ∈ xs, f x = .ok true := by
  induction xs with
  | nil => exact iff_of_true rfl fun x hx => absurd hx List.not_mem_nil
  | cons x xs ih =>
    rw [List.forall_mem_cons, List.allM_cons, bind_ok_iff, ← ih]
    constructor
    · intro h
      obtain ⟨b, hb, hrest⟩ := h
      cases b with
      | true => exact ⟨hb, hrest⟩
      | false => cases hrest
    · intro h
      exact ⟨true, h.1, h.2⟩

/-- The checks stop with an error exactly at a failing one that all before let pass. -/
theorem allM_error {f : α → Except ε Bool} {xs : List α} {e : ε} :
    xs.allM f = .error e ↔
      ∃ pre x post, xs = pre ++ x :: post ∧ (∀ y ∈ pre, f y = .ok true) ∧ f x = .error e := by
  induction xs with
  | nil =>
    refine iff_of_false (fun h => nomatch h) ?_
    intro h
    obtain ⟨pre, x, post, hxs, _⟩ := h
    simp at hxs
  | cons z zs ih =>
    rw [List.allM_cons, bind_error_iff]
    constructor
    · intro h
      rcases h with hz | ⟨b, hb, hrest⟩
      · exact ⟨[], z, zs, rfl, fun y hy => absurd hy List.not_mem_nil, hz⟩
      · cases b with
        | false => cases hrest
        | true =>
          obtain ⟨pre, x, post, hzs, hpre, hx⟩ := ih.mp hrest
          exact ⟨z :: pre, x, post, by rw [hzs]; rfl, List.forall_mem_cons.mpr ⟨hb, hpre⟩, hx⟩
    · intro h
      obtain ⟨pre, x, post, hzs, hpre, hx⟩ := h
      cases pre with
      | nil =>
        obtain ⟨rfl, rfl⟩ := List.cons.inj hzs
        exact Or.inl hx
      | cons y pre =>
        obtain ⟨rfl, hrest⟩ := List.cons.inj hzs
        have hy := List.forall_mem_cons.mp hpre
        exact Or.inr ⟨true, hy.1, ih.mpr ⟨pre, x, post, hrest, hy.2, hx⟩⟩

/-- The invariant rule for a loop that may stop: it holds in the end, and before each turn. -/
theorem foldlM_ok {f : β → α → Except ε β} {Inv : β → Prop} {xs : List α} {b b' : β}
    (keep : ∀ c x c', Inv c → f c x = .ok c' → Inv c') (hb : Inv b) (h : xs.foldlM f b = .ok b') :
    Inv b' ∧ ∀ x ∈ xs, ∃ c c', Inv c ∧ f c x = .ok c' := by
  induction xs generalizing b with
  | nil =>
    cases h
    exact ⟨hb, fun x hx => absurd hx List.not_mem_nil⟩
  | cons x xs ih =>
    rw [List.foldlM_cons] at h
    obtain ⟨c, hc, hrest⟩ := bind_ok_iff.mp h
    obtain ⟨hend, hall⟩ := ih (keep b x c hb hc) hrest
    refine ⟨hend, fun y hy => ?_⟩
    rcases List.mem_cons.mp hy with rfl | hy
    · exact ⟨b, c, hb, hc⟩
    · exact hall y hy

/-- What each turn of a loop that ends does, another loop does too. -/
theorem foldlM_mono {f g : β → α → Except ε β} {xs : List α} {b b' : β}
    (hturn : ∀ c x c', f c x = .ok c' → g c x = .ok c') (h : xs.foldlM f b = .ok b') : xs.foldlM g b = .ok b' := by
  induction xs generalizing b with
  | nil => exact h
  | cons x xs ih =>
    rw [List.foldlM_cons] at h ⊢
    obtain ⟨c, hc, hrest⟩ := bind_ok_iff.mp h
    exact bind_ok_iff.mpr ⟨c, hturn b x c hc, ih hrest⟩

/-- A run over a list stops with an error at the first of its steps that fails. -/
theorem foldlM_error_iff {f : β → α → Except ε β} {xs : List α} {b : β} {e : ε} :
    xs.foldlM f b = .error e ↔
      ∃ pre x post c, xs = pre ++ x :: post ∧ pre.foldlM f b = .ok c ∧ f c x = .error e := by
  induction xs generalizing b with
  | nil =>
    refine iff_of_false (fun h => nomatch h) ?_
    intro h
    obtain ⟨pre, x, post, c, hxs, _⟩ := h
    simp at hxs
  | cons z zs ih =>
    rw [List.foldlM_cons, bind_error_iff]
    constructor
    · intro h
      rcases h with hz | ⟨c, hc, hrest⟩
      · exact ⟨[], z, zs, b, rfl, rfl, hz⟩
      · obtain ⟨pre, x, post, c', hzs, hpre, hx⟩ := ih.mp hrest
        refine ⟨z :: pre, x, post, c', by rw [hzs]; rfl, ?_, hx⟩
        rw [List.foldlM_cons, bind_ok_iff]
        exact ⟨c, hc, hpre⟩
    · intro h
      obtain ⟨pre, x, post, c', hzs, hpre, hx⟩ := h
      cases pre with
      | nil =>
        obtain ⟨rfl, rfl⟩ := List.cons.inj hzs
        cases hpre
        exact Or.inl hx
      | cons y pre =>
        obtain ⟨rfl, hrest⟩ := List.cons.inj hzs
        rw [List.foldlM_cons, bind_ok_iff] at hpre
        obtain ⟨c, hc, hpre⟩ := hpre
        exact Or.inr ⟨c, hc, ih.mpr ⟨pre, x, post, c', hrest, hpre, hx⟩⟩

section

variable {f : β → α → Except ε β} {xs : List α} {b : β} (Inv : List α → β → Prop) (Bad : α → Prop)

theorem foldlM_invariant (hb : Inv [] b)
    (keep : ∀ pre x post c c', xs = pre ++ x :: post → Inv pre c → f c x = .ok c' → Inv (pre ++ [x]) c')
    {pre post : List α} {c : β} (hxs : xs = pre ++ post) (h : pre.foldlM f b = .ok c) : Inv pre c := by
  induction pre using List.reverseRecOn generalizing post c with
  | nil =>
    cases h
    exact hb
  | append_singleton pre x ih =>
    have hsplit : xs = pre ++ x :: post := by rw [hxs, List.append_assoc, List.singleton_append]
    rw [List.foldlM_append, bind_ok_iff] at h
    obtain ⟨c', hpre, hx⟩ := h
    rw [List.foldlM_cons, bind_ok_iff] at hx
    obtain ⟨c'', hx, hend⟩ := hx
    cases hend
    exact keep pre x post c' c hsplit (ih hsplit hpre) hx

/-- Steps that fail for reasons of their own, whatever those before them did, get
through a list exactly if none of it has such a reason. -/
theorem foldlM_ok_iff_of_bad (hb : Inv [] b)
    (keep : ∀ pre x post c c', xs = pre ++ x :: post → Inv pre c → f c x = .ok c' → Inv (pre ++ [x]) c')
    (bad : ∀ pre x post c, xs = pre ++ x :: post → Inv pre c → ((∃ e, f c x = .error e) ↔ Bad x))
    {pre post : List α} (hxs : xs = pre ++ post) : (∃ c, pre.foldlM f b = .ok c) ↔ ∀ y ∈ pre, ¬ Bad y := by
  induction pre using List.reverseRecOn generalizing post with
  | nil => exact iff_of_true ⟨b, rfl⟩ fun y hy => absurd hy List.not_mem_nil
  | append_singleton pre x ih =>
    have hsplit : xs = pre ++ x :: post := by rw [hxs, List.append_assoc, List.singleton_append]
    have hgood : ∀ c, pre.foldlM f b = .ok c → ((∃ c', f c x = .ok c') ↔ ¬ Bad x) := by
      intro c hpre
      rw [← bad pre x post c hsplit (foldlM_invariant Inv hb keep hsplit hpre)]
      cases f c x with
      | error e => simp
      | ok c' => simp
    rw [List.forall_mem_append, ← ih hsplit, List.forall_mem_singleton]
    simp only [List.foldlM_append, bind_ok_iff, List.foldlM_cons, List.foldlM_nil]
    constructor
    · intro h
      obtain ⟨c', c, hpre, c'', hx, _⟩ := h
      exact ⟨⟨c, hpre⟩, (hgood c hpre).mp ⟨c'', hx⟩⟩
    · intro h
      obtain ⟨⟨c, hpre⟩, hx⟩ := h
      obtain ⟨c', hc'⟩ := (hgood c hpre).mpr hx
      exact ⟨c', c, hpre, c', hc', rfl⟩

/-- With the error each reason leads to. -/
theorem foldlM_error_iff_of_err (Err : α → ε → Prop) (hb : Inv [] b)
    (keep : ∀ pre x post c c', xs = pre ++ x :: post → Inv pre c → f c x = .ok c' → Inv (pre ++ [x]) c')
    (err : ∀ pre x post c e, xs = pre ++ x :: post → Inv pre c → (f c x = .error e ↔ Err x e)) {e : ε} :
    xs.foldlM f b = .error e ↔
      ∃ pre x post, xs = pre ++ x :: post ∧ Err x e ∧ ∀ y ∈ pre, ∀ e', ¬ Err y e' := by
  have hok : ∀ pre x post, xs = pre ++ x :: post →
      ((∃ c, pre.foldlM f b = .ok c) ↔ ∀ y ∈ pre, ∀ e', ¬ Err y e') := by
    intro pre x post hxs
    rw [foldlM_ok_iff_of_bad Inv (fun y => ∃ e', Err y e') hb keep ?_ hxs]
    · simp only [not_exists]
    · intro pre x post c hxs hc
      exact exists_congr fun e' => err pre x post c e' hxs hc
  rw [foldlM_error_iff]
  constructor
  · intro h
    obtain ⟨pre, x, post, c, hxs, hpre, hx⟩ := h
    exact ⟨pre, x, post, hxs, (err pre x post c e hxs (foldlM_invariant Inv hb keep hxs hpre)).mp hx,
      (hok pre x post hxs).mp ⟨c, hpre⟩⟩
  · intro h
    obtain ⟨pre, x, post, hxs, hx, hpre⟩ := h
    obtain ⟨c, hc⟩ := (hok pre x post hxs).mpr hpre
    exact ⟨pre, x, post, c, hxs, hc, (err pre x post c e hxs (foldlM_invariant Inv hb keep hxs hc)).mpr hx⟩

end

/-- A run over the parts of each element is a run over all parts. -/
theorem foldlM_flatMap {γ : Type} {f : β → α → Except ε β} {step : β → γ → Except ε β} {parts : α → List γ}
    {xs : List α} (h : ∀ x ∈ xs, ∀ c, f c x = (parts x).foldlM step c) (b : β) :
    xs.foldlM f b = (xs.flatMap parts).foldlM step b := by
  induction xs generalizing b with
  | nil => rfl
  | cons x xs ih =>
    obtain ⟨hx, hrest⟩ := List.forall_mem_cons.mp h
    rw [List.foldlM_cons, List.flatMap_cons, List.foldlM_append, hx]
    congr 1
    funext c
    exact ih hrest c

theorem exists_first (P : α → Prop) {xs : List α} {x : α} (hx : x ∈ xs) (hP : P x) :
    ∃ pre y post, xs = pre ++ y :: post ∧ P y ∧ ∀ z ∈ pre, ¬ P z := by
  induction xs with
  | nil => exact absurd hx List.not_mem_nil
  | cons y ys ih =>
    by_cases hy : P y
    · exact ⟨[], y, ys, rfl, hy, fun z hz => absurd hz List.not_mem_nil⟩
    · have hmem : x ∈ ys := (List.mem_cons.mp hx).resolve_left fun h => hy (h ▸ hP)
      obtain ⟨pre, z, post, hys, hz, hpre⟩ := ih hmem
      refine ⟨y :: pre, z, post, by rw [hys]; rfl, hz, ?_⟩
      exact List.forall_mem_cons.mpr ⟨hy, hpre⟩

theorem mapM_ok_iff {f : α → Except ε β} {xs : List α} {ys : List β} :
    xs.mapM f = .ok ys ↔ List.Forall₂ (fun x y => f x = .ok y) xs ys := by
  induction xs generalizing ys with
  | nil =>
    rw [List.forall₂_nil_left_iff]
    constructor
    · intro h
      exact (Except.ok.inj h).symm
    · intro h
      subst ys
      rfl
  | cons x xs ih =>
    rw [List.mapM_cons, bind_ok_iff, List.forall₂_cons_left_iff]
    constructor
    · intro h
      obtain ⟨y, hy, hrest⟩ := h
      obtain ⟨ys', hys, hcons⟩ := bind_ok_iff.mp hrest
      exact ⟨y, ys', hy, ih.mp hys, (Except.ok.inj hcons).symm⟩
    · intro h
      obtain ⟨y, ys', hy, hys, rfl⟩ := h
      exact ⟨y, hy, bind_ok_iff.mpr ⟨ys', ih.mpr hys, rfl⟩⟩

/-- The first error of a list is what its `mapM` ends with. -/
theorem mapM_error_of {f : α → Except ε β} {pre post : List α} {x : α} {ys : List β} {e : ε}
    (hpre : List.Forall₂ (fun x y => f x = .ok y) pre ys) (hx : f x = .error e) :
    (pre ++ x :: post).mapM f = .error e := by
  induction hpre with
  | nil =>
    rw [List.nil_append, List.mapM_cons, hx]
    rfl
  | @cons y b pre ys hy _ ih =>
    rw [List.cons_append, List.mapM_cons, hy, ih]
    rfl

/-- A filter whose test never fails. -/
theorem filterM_ok {f : α → Except ε Bool} {p : α → Bool} {xs : List α} (h : ∀ x ∈ xs, f x = .ok (p x)) :
    xs.filterM f = .ok (xs.filter p) := by
  have haux : ∀ acc, List.filterAuxM f xs acc = .ok ((xs.filter p).reverse ++ acc) := by
    induction xs with
    | nil =>
      intro acc
      rfl
    | cons x xs ih =>
      intro acc
      rw [List.forall_mem_cons] at h
      have hstep : List.filterAuxM f (x :: xs) acc = f x >>= fun b => List.filterAuxM f xs (cond b (x :: acc) acc) := rfl
      rw [hstep, h.1, ok_bind, ih h.2]
      cases hx : p x with
      | true =>
        rw [List.filter_cons_of_pos hx, List.reverse_cons, List.append_assoc, List.singleton_append]
        rfl
      | false =>
        rw [List.filter_cons_of_neg (by simp [hx])]
        rfl
  have hfilter : xs.filterM f = List.filterAuxM f xs [] >>= fun ys => pure ys.reverse := rfl
  rw [hfilter, haux, ok_bind, List.append_nil, List.reverse_reverse]
  rfl

end Checks
