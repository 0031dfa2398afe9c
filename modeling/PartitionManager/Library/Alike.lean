import Mathlib.Data.List.Induction
import PartitionManager.Library.TokenLoop

/-- Two computations end alike: with the same error, or with results that are related. -/
inductive Alike {ε α β : Type} (R : α → β → Prop) : Except ε α → Except ε β → Prop
  | error (e : ε) : Alike R (.error e) (.error e)
  | ok {a : α} {b : β} (h : R a b) : Alike R (.ok a) (.ok b)

namespace Alike

variable {ε α β γ δ : Type} {R : α → β → Prop} {S : γ → δ → Prop} {x : Except ε α} {y : Except ε β}

theorem of_eq {R : α → α → Prop} {x y : Except ε α} (h : x = y) (hR : ∀ a, R a a) : Alike R x y := by
  subst h
  cases x with
  | error e => exact .error e
  | ok a => exact .ok (hR a)

theorem imp {S : α → β → Prop} (h : Alike R x y) (hS : ∀ a b, R a b → S a b) : Alike S x y := by
  cases h with
  | error e => exact .error e
  | ok hab => exact .ok (hS _ _ hab)

theorem bind {f : α → Except ε γ} {g : β → Except ε δ} (h : Alike R x y)
    (hf : ∀ a b, R a b → Alike S (f a) (g b)) : Alike S (x >>= f) (y >>= g) := by
  cases h with
  | error e => exact .error e
  | ok hab => exact hf _ _ hab

/-- The same check before both. -/
theorem check (x : Except ε Unit) {a : α} {b : β} (h : R a b) : Alike R (do x; .ok a) (do x; .ok b) := by
  cases x with
  | error e => exact .error e
  | ok _ => exact .ok h

/-- Computations that end alike succeed together. -/
theorem exists_ok (h : Alike R x y) {a : α} (hx : x = .ok a) : ∃ b, y = .ok b ∧ R a b := by
  cases h with
  | error e => cases hx
  | ok hab =>
    cases hx
    exact ⟨_, rfl, hab⟩

theorem error_iff (h : Alike R x y) (e : ε) : x = .error e ↔ y = .error e := by
  cases h with
  | error e' =>
    constructor
    · intro h
      rw [← Except.error.inj h]
    · intro h
      rw [← Except.error.inj h]
  | ok hab => exact iff_of_false (fun h => nomatch h) (fun h => nomatch h)

theorem eq {x y : Except ε α} (h : Alike Eq x y) : x = y := by
  cases h with
  | error e => rfl
  | ok hab => rw [hab]

/-- What is known of each result may be added. -/
theorem with_results (h : Alike R x y) {P : α → Prop} {Q : β → Prop} (hP : ∀ a, x = .ok a → P a)
    (hQ : ∀ b, y = .ok b → Q b) : Alike (fun a b => R a b ∧ P a ∧ Q b) x y := by
  cases h with
  | error e => exact .error e
  | ok hab => exact .ok ⟨hab, hP _ rfl, hQ _ rfl⟩

/-- The rule for two runs over one list, with a relation that may depend on what is done already. -/
theorem foldlM {ι : Type} {f : α → ι → Except ε α} {g : β → ι → Except ε β} {xs : List ι} (R : List ι → α → β → Prop)
    (keep : ∀ pre x post a b, xs = pre ++ x :: post → R pre a b → Alike (R (pre ++ [x])) (f a x) (g b x))
    {a : α} {b : β} (hR : R [] a b) : Alike (R xs) (xs.foldlM f a) (xs.foldlM g b) := by
  have hall : ∀ pre post, xs = pre ++ post → Alike (R pre) (pre.foldlM f a) (pre.foldlM g b) := by
    intro pre
    induction pre using List.reverseRecOn with
    | nil => exact fun _ _ => .ok hR
    | append_singleton pre x ih =>
      intro post hxs
      have hsplit : xs = pre ++ x :: post := by rw [hxs, List.append_assoc, List.singleton_append]
      rw [List.foldlM_append, List.foldlM_append]
      refine (ih _ hsplit).bind fun a' b' hab => ?_
      rw [List.foldlM_cons, List.foldlM_cons]
      exact (keep pre x post a' b' hsplit hab).bind fun a'' b'' h => .ok h
  exact hall xs [] (List.append_nil xs).symm

end Alike

namespace TokenLoop

variable {τ υ σ ρ ε : Type} {loop : TokenLoop τ υ σ ε} {other : TokenLoop τ υ ρ ε} {R : σ → ρ → Prop}

/-- Two loops that read alike, and act alike on the uses that occur, make the same of their tokens and end alike. -/
theorem run_alike (Mine : υ → Prop)
    (hread : ∀ s t token next, R s t → (∀ use, loop.read s token next = .ok (some use) → Mine use) →
      loop.read s token next = other.read t token next)
    (hact : ∀ s t token next use, R s t → loop.read s token next = .ok (some use) → Mine use →
      Alike R (loop.act s use) (other.act t use))
    (htakes : ∀ use, loop.takesNext use = other.takesNext use) {i j : Nat} {args : List τ} {skip : Bool} {s : σ} {t : ρ}
    (hR : R s t) (hmine : ∀ v ∈ (loop.run i args skip s).1, Mine v.use) :
    Alike R (loop.run i args skip s).2 (other.run j args skip t).2 ∧
      (other.run j args skip t).1.map Visit.use = (loop.run i args skip s).1.map Visit.use := by
  induction args generalizing i j skip s t with
  | nil => exact ⟨.ok hR, rfl⟩
  | cons token rest ih =>
    cases skip with
    | true => exact ih hR hmine
    | false =>
      have hfirst : ∀ use, loop.read s token rest.head? = .ok (some use) → Mine use := by
        intro use hfound
        have hmem : (i, use) ∈ uses (loop.run i (token :: rest) false s).1 := first_mem_uses hfound
        obtain ⟨v, hv, hsame⟩ := List.mem_map.mp hmem
        have huse := hmine v hv
        rw [(Prod.mk.inj hsame).2] at huse
        exact huse
      have hsame := hread s t token rest.head? hR hfirst
      cases hfound : loop.read s token rest.head? with
      | error stop =>
        rw [run_unread hfound, run_unread (hsame.symm.trans hfound)]
        exact ⟨.error stop, rfl⟩
      | ok found =>
        have hfound' := hsame.symm.trans hfound
        cases found with
        | none =>
          rw [run_ignored hfound] at hmine ⊢
          rw [run_ignored hfound']
          exact ih hR hmine
        | some use =>
          have hboth := hact s t token rest.head? use hR hfound (hfirst use hfound)
          cases hstep : loop.act s use with
          | error stop =>
            have hstep' := (hboth.error_iff stop).mp hstep
            rw [run_refused hfound hstep, run_refused hfound' hstep']
            exact ⟨.error stop, rfl⟩
          | ok s' =>
            obtain ⟨t', hstep', hR'⟩ := hboth.exists_ok hstep
            rw [run_next hfound hstep] at hmine ⊢
            rw [run_next hfound' hstep', ← htakes]
            obtain ⟨hend, huses⟩ := ih (j := j + 1) hR' (List.forall_mem_cons.mp hmine).2
            exact ⟨hend, congrArg (use :: ·) huses⟩

/-- What a loop makes of its tokens does not depend on where the count starts. -/
theorem run_index (i j : Nat) (args : List τ) (skip : Bool) (s : σ) :
    (loop.run j args skip s).2 = (loop.run i args skip s).2 ∧
      (loop.run j args skip s).1.map Visit.use = (loop.run i args skip s).1.map Visit.use := by
  have hboth : Alike Eq (loop.run i args skip s).2 (loop.run j args skip s).2 ∧
      (loop.run j args skip s).1.map Visit.use = (loop.run i args skip s).1.map Visit.use :=
    run_alike (fun _ => True) (fun s t token next h _ => by rw [h])
      (fun s t token next use h _ _ => h ▸ .of_eq rfl fun _ => rfl) (fun _ => rfl) rfl (fun _ _ => trivial)
  exact ⟨hboth.1.eq.symm, hboth.2⟩

/-- A loop that acts on nothing stays where it is. -/
theorem run_none {i : Nat} {args : List τ} {skip : Bool} {s t : σ} (h : loop.run i args skip s = ([], .ok t)) :
    t = s := by
  induction args generalizing i skip s with
  | nil => exact (Except.ok.inj (congrArg Prod.snd h)).symm
  | cons token rest ih =>
    cases skip with
    | true => exact ih h
    | false =>
      rcases run_cons_ok (congrArg Prod.snd h) with ⟨_, hrun⟩ | ⟨use, r, _, _, hrun⟩
      · exact ih (hrun.symm.trans h)
      · rw [hrun] at h
        cases congrArg Prod.fst h

/-- A loop that acts once ends where the act leads. -/
theorem run_one {i j : Nat} {args : List τ} {skip : Bool} {s r t : σ} {use : υ}
    (h : loop.run i args skip s = ([⟨j, r, use⟩], .ok t)) :
    loop.act s use = .ok t ∧ ∃ token next, loop.read s token next = .ok (some use) := by
  induction args generalizing i skip s with
  | nil => cases congrArg Prod.fst h
  | cons token rest ih =>
    cases skip with
    | true => exact ih h
    | false =>
      rcases run_cons_ok (congrArg Prod.snd h) with ⟨_, hrun⟩ | ⟨use', r', hread, hact, hrun⟩
      · exact ih (hrun.symm.trans h)
      · rw [hrun] at h
        obtain ⟨hvisit, hlater⟩ := List.cons.inj (congrArg Prod.fst h)
        cases hvisit
        have hok : (loop.run (j + 1) rest (loop.takesNext use) r').2 = .ok t := congrArg Prod.snd h
        have hend : t = r' := run_none (Prod.ext hlater hok)
        subst hend
        exact ⟨hact, token, rest.head?, hread⟩

/-- A loop that gets through some tokens by themselves gets through them in front of others. -/
theorem run_append (steady : ∀ s token next use t, loop.read s token next = .ok (some use) → loop.act s use = .ok t →
      loop.takesNext use = false → ∀ next', loop.read s token next' = .ok (some use))
    (passes : ∀ s token next, loop.read s token next = .ok none → ∀ next', loop.read s token next' = .ok none)
    (takes : ∀ s token use, loop.read s token none = .ok (some use) → loop.takesNext use = false) {i : Nat}
    {pre rest : List τ} {skip : Bool} {s t : σ} (hskip : skip = true → pre ≠ [])
    (h : (loop.run i pre skip s).2 = .ok t) :
    loop.run i (pre ++ rest) skip s =
      ((loop.run i pre skip s).1 ++ (loop.run (i + pre.length) rest false t).1,
        (loop.run (i + pre.length) rest false t).2) := by
  induction pre generalizing i skip s with
  | nil =>
    cases skip with
    | true => exact absurd rfl (hskip rfl)
    | false =>
      cases h
      rfl
  | cons token pre ih =>
    have hindex : i + (token :: pre).length = i + 1 + pre.length := by
      rw [List.length_cons]
      omega
    have hnever : false = true → pre ≠ [] := fun h => absurd h Bool.false_ne_true
    rw [hindex]
    cases skip with
    | true =>
      by_cases hpre : pre = []
      · subst hpre
        cases h
        rfl
      · exact ih (fun _ => hpre) h
    | false =>
      rcases run_cons_ok h with ⟨hread, hrun⟩ | ⟨use, r, hread, hact, hrun⟩
      · rw [hrun] at h ⊢
        rw [List.cons_append, run_ignored (passes s token _ hread _)]
        exact ih hnever h
      · rw [hrun] at h ⊢
        have htakes : loop.takesNext use = true → pre ≠ [] := by
          rintro hnext rfl
          rw [takes s token use hread] at hnext
          exact Bool.false_ne_true hnext
        have hread' : loop.read s token (pre ++ rest).head? = .ok (some use) := by
          cases pre with
          | nil => exact steady s token _ use r hread hact (takes s token use hread) _
          | cons first later => exact hread
        rw [List.cons_append, run_next hread' hact, ih htakes h]
        rfl

end TokenLoop
