import Mathlib.Data.List.Basic

/-- A loop over tokens that may take the next token along with one, and may stop. -/
structure TokenLoop (τ υ σ ε : Type) where
  read : σ → τ → Option τ → Except ε (Option υ)
  act : σ → υ → Except ε σ
  takesNext : υ → Bool

namespace TokenLoop

/-- A token that the loop has acted on: its place, and the state before. -/
structure Visit (σ υ : Type) where
  index : Nat
  state : σ
  use : υ

variable {τ υ σ ε : Type} (loop : TokenLoop τ υ σ ε)

/-- The visits of the loop, and how it ends. `skip` is set after a use that
takes the next token. -/
def run (index : Nat) : List τ → Bool → σ → List (Visit σ υ) × Except ε σ
  | [], _, s => ([], .ok s)
  | _ :: rest, true, s => run (index + 1) rest false s
  | token :: rest, false, s =>
    match loop.read s token rest.head? with
    | .error stop => ([], .error stop)
    | .ok none => run (index + 1) rest false s
    | .ok (some use) =>
      match loop.act s use with
      | .error stop => ([⟨index, s, use⟩], .error stop)
      | .ok s' =>
        let later := run (index + 1) rest (loop.takesNext use) s'
        (⟨index, s, use⟩ :: later.1, later.2)

/-- A token that the loop turns to, with the next one and the state it finds. -/
structure Turn (τ σ : Type) where
  token : τ
  next : Option τ
  state : σ

/-- All turns of the loop, the last of which may stop it. -/
def turns : List τ → Bool → σ → List (Turn τ σ)
  | [], _, _ => []
  | _ :: rest, true, s => turns rest false s
  | token :: rest, false, s =>
    ⟨token, rest.head?, s⟩ ::
      match loop.read s token rest.head? with
      | .error _ => []
      | .ok none => turns rest false s
      | .ok (some use) =>
        match loop.act s use with
        | .error _ => []
        | .ok s' => turns rest (loop.takesNext use) s'

/-- How a turn stops the loop. -/
def Stops (t : Turn τ σ) (stop : ε) : Prop :=
  loop.read t.state t.token t.next = .error stop ∨
    ∃ use, loop.read t.state t.token t.next = .ok (some use) ∧ loop.act t.state use = .error stop

/-- The visits without the states. -/
def uses (visits : List (Visit σ υ)) : List (Nat × υ) := visits.map fun v => (v.index, v.use)

section

variable {loop : TokenLoop τ υ σ ε} {index : Nat} {token : τ} {rest : List τ} {s s' : σ} {use : υ} {stop : ε}

theorem run_unread (hread : loop.read s token rest.head? = .error stop) :
    loop.run index (token :: rest) false s = ([], .error stop) := by
  rw [run]
  simp only [hread]

theorem run_ignored (hread : loop.read s token rest.head? = .ok none) :
    loop.run index (token :: rest) false s = loop.run (index + 1) rest false s := by
  conv_lhs => rw [run]
  simp only [hread]

theorem run_refused (hread : loop.read s token rest.head? = .ok (some use)) (hact : loop.act s use = .error stop) :
    loop.run index (token :: rest) false s = ([⟨index, s, use⟩], .error stop) := by
  rw [run]
  simp only [hread, hact]

theorem run_next (hread : loop.read s token rest.head? = .ok (some use)) (hact : loop.act s use = .ok s') :
    loop.run index (token :: rest) false s =
      (⟨index, s, use⟩ :: (loop.run (index + 1) rest (loop.takesNext use) s').1,
        (loop.run (index + 1) rest (loop.takesNext use) s').2) := by
  conv_lhs => rw [run]
  simp only [hread, hact]

/-- A turn that does not stop the loop passes over its token, or acts on a use of it. -/
theorem run_cons_ok (h : (loop.run index (token :: rest) false s).2 = .ok s') :
    (loop.read s token rest.head? = .ok none ∧
        loop.run index (token :: rest) false s = loop.run (index + 1) rest false s) ∨
      ∃ use t, loop.read s token rest.head? = .ok (some use) ∧ loop.act s use = .ok t ∧
        loop.run index (token :: rest) false s =
          (⟨index, s, use⟩ :: (loop.run (index + 1) rest (loop.takesNext use) t).1,
            (loop.run (index + 1) rest (loop.takesNext use) t).2) := by
  cases hread : loop.read s token rest.head? with
  | error stop =>
    rw [run_unread hread] at h
    cases h
  | ok found =>
    cases found with
    | none => exact Or.inl ⟨rfl, run_ignored hread⟩
    | some use =>
      cases hact : loop.act s use with
      | error stop =>
        rw [run_refused hread hact] at h
        cases h
      | ok t => exact Or.inr ⟨use, t, rfl, hact, run_next hread hact⟩

end

section

variable {loop : TokenLoop τ υ σ ε} {index : Nat} {args : List τ} {skip : Bool} {s s' : σ}

theorem run_error_iff {stop : ε} :
    (loop.run index args skip s).2 = .error stop ↔ ∃ t ∈ loop.turns args skip s, loop.Stops t stop := by
  induction args generalizing index skip s with
  | nil => simp [run, turns]
  | cons token rest ih =>
    cases skip with
    | true => exact ih
    | false =>
      rw [turns, List.exists_mem_cons_iff]
      cases hread : loop.read s token rest.head? with
      | error stop' =>
        rw [run_unread hread]
        simp [Stops, hread]
      | ok found =>
        cases found with
        | none =>
          rw [run_ignored hread, ih]
          simp [Stops, hread]
        | some use =>
          cases hact : loop.act s use with
          | error stop' =>
            rw [run_refused hread hact]
            simp [Stops, hread, hact]
          | ok s' =>
            rw [run_next hread hact]
            simp [Stops, hread, hact, ih]

/-- Each visit is one of the token at its place. -/
theorem mem_run {v : Visit σ υ} (h : v ∈ (loop.run index args skip s).1) :
    ∃ k token, v.index = index + k ∧ args[k]? = some token ∧
      loop.read v.state token args[k + 1]? = .ok (some v.use) := by
  induction args generalizing index skip s with
  | nil => cases h
  | cons token rest ih =>
    have hlater : ∀ {skip : Bool} {s : σ}, v ∈ (loop.run (index + 1) rest skip s).1 →
        ∃ k token', v.index = index + k ∧ (token :: rest)[k]? = some token' ∧
          loop.read v.state token' (token :: rest)[k + 1]? = .ok (some v.use) := by
      intro skip s hmem
      obtain ⟨k, token', hindex, htoken, hread⟩ := ih hmem
      exact ⟨k + 1, token', by omega, htoken, hread⟩
    cases skip with
    | true => exact hlater h
    | false =>
      cases hread : loop.read s token rest.head? with
      | error stop =>
        rw [run_unread hread] at h
        cases h
      | ok found =>
        cases found with
        | none =>
          rw [run_ignored hread] at h
          exact hlater h
        | some use =>
          have hfirst : loop.read s token (token :: rest)[0 + 1]? = .ok (some use) := by
            rw [← hread, List.head?_eq_getElem?]
            rfl
          cases hact : loop.act s use with
          | error stop =>
            rw [run_refused hread hact] at h
            cases List.mem_singleton.mp h
            exact ⟨0, token, rfl, rfl, hfirst⟩
          | ok s' =>
            rw [run_next hread hact] at h
            rcases List.mem_cons.mp h with rfl | hmem
            · exact ⟨0, token, rfl, rfl, hfirst⟩
            · exact hlater hmem

/-- A loop that does not stop has acted at each of its visits. -/
theorem acted_of_run_ok {v : Visit σ υ} (h : (loop.run index args skip s).2 = .ok s')
    (hv : v ∈ (loop.run index args skip s).1) : ∃ t, loop.act v.state v.use = .ok t := by
  induction args generalizing index skip s with
  | nil => cases hv
  | cons token rest ih =>
    cases skip with
    | true => exact ih h hv
    | false =>
      rcases run_cons_ok h with ⟨_, hrun⟩ | ⟨use, t, _, hact, hrun⟩
      · rw [hrun] at h hv
        exact ih h hv
      · rw [hrun] at h hv
        rcases List.mem_cons.mp hv with rfl | hlater
        · exact ⟨t, hact⟩
        · exact ih h hlater

theorem run_ok_after {Inv : List υ → σ → Prop} {Good : List υ → υ → Prop} {before : List υ}
    (step : ∀ before s token next use s', Inv before s → loop.read s token next = .ok (some use) →
      loop.act s use = .ok s' → Good before use ∧ Inv (before ++ [use]) s')
    (hs : Inv before s) (h : (loop.run index args skip s).2 = .ok s') :
    Inv (before ++ (loop.run index args skip s).1.map Visit.use) s' ∧
      ∀ pre use post, (loop.run index args skip s).1.map Visit.use = pre ++ use :: post →
        Good (before ++ pre) use := by
  induction args generalizing index skip s before with
  | nil =>
    cases h
    exact ⟨by simpa [run] using hs, fun pre use post heq => by simp [run] at heq⟩
  | cons token rest ih =>
    cases skip with
    | true => exact ih hs h
    | false =>
      rcases run_cons_ok h with ⟨_, hrun⟩ | ⟨use, t, hread, hact, hrun⟩
      · rw [hrun] at h ⊢
        exact ih hs h
      · rw [hrun] at h ⊢
        obtain ⟨hgood, ht⟩ := step before s token _ use t hs hread hact
        obtain ⟨hend, hall⟩ := ih ht h
        refine ⟨by simpa using hend, fun pre use' post heq => ?_⟩
        rw [List.map_cons] at heq
        rcases List.cons_eq_append_iff.mp heq with ⟨rfl, hfirst⟩ | ⟨pre', rfl, hrest⟩
        · cases hfirst
          rwa [List.append_nil]
        · have hlater := hall pre' use' post hrest
          rwa [List.append_assoc] at hlater

/-- The invariant rule: what one use shows of those before it, a loop that does
not stop shows of all its uses. -/
theorem run_ok (Inv : List υ → σ → Prop) (Good : List υ → υ → Prop)
    (step : ∀ before s token next use s', Inv before s → loop.read s token next = .ok (some use) →
      loop.act s use = .ok s' → Good before use ∧ Inv (before ++ [use]) s')
    (hs : Inv [] s) (h : (loop.run index args skip s).2 = .ok s') :
    Inv ((loop.run index args skip s).1.map Visit.use) s' ∧
      ∀ pre use post, (loop.run index args skip s).1.map Visit.use = pre ++ use :: post → Good pre use := by
  have hall := run_ok_after step hs h
  simpa only [List.nil_append] using hall

/-- The same for an invariant of the states alone. -/
theorem run_invariant (Inv : σ → Prop) (keep : ∀ s use s', Inv s → loop.act s use = .ok s' → Inv s')
    (hs : Inv s) (h : (loop.run index args skip s).2 = .ok s') : Inv s' :=
  (run_ok (fun _ => Inv) (fun _ _ => True) (fun _ s _ _ use s' hs _ hact => ⟨trivial, keep s use s' hs hact⟩) hs h).1

/-- A loop that passes over no token has, in its uses, all of them. -/
theorem run_tokens {tokens : υ → List τ} (all : ∀ s token next, loop.read s token next ≠ .ok none)
    (own : ∀ s token next use, loop.read s token next = .ok (some use) →
      (loop.takesNext use = false ∧ tokens use = [token]) ∨
        (loop.takesNext use = true ∧ ∃ value, next = some value ∧ tokens use = [token, value]))
    (h : (loop.run index args skip s).2 = .ok s') :
    ((loop.run index args skip s).1.map Visit.use).flatMap tokens = if skip then args.tail else args := by
  induction args generalizing index skip s with
  | nil => simp [run]
  | cons token rest ih =>
    cases skip with
    | true => exact ih h
    | false =>
      obtain ⟨hread, _⟩ | ⟨use, t, hread, hact, hrun⟩ := run_cons_ok h
      · exact absurd hread (all _ _ _)
      · rw [hrun] at h ⊢
        have hrest := ih h
        rw [List.map_cons, List.flatMap_cons, hrest]
        rcases own s token _ use hread with ⟨htakes, htokens⟩ | ⟨htakes, value, hnext, htokens⟩
        · simp [htakes, htokens]
        · obtain ⟨rest', rfl⟩ : ∃ rest', rest = value :: rest' := List.head?_eq_some_iff.mp hnext
          simp [htakes, htokens]

end

/-- Two loops that read alike and accept alike have the same uses. -/
theorem run_uses_congr {ρ : Type} {loop : TokenLoop τ υ σ ε} {other : TokenLoop τ υ ρ ε} {R : σ → ρ → Prop}
    (hread : ∀ s t token next, R s t → loop.read s token next = other.read t token next)
    (haccept : ∀ s t use, R s t → ((∃ s', loop.act s use = .ok s') ↔ ∃ t', other.act t use = .ok t'))
    (hkeep : ∀ s t use s' t', R s t → loop.act s use = .ok s' → other.act t use = .ok t' → R s' t')
    (htakes : ∀ use, loop.takesNext use = other.takesNext use) {index : Nat} {args : List τ} {skip : Bool}
    {s : σ} {t : ρ} (hR : R s t) : uses (loop.run index args skip s).1 = uses (other.run index args skip t).1 := by
  induction args generalizing index skip s t with
  | nil => rfl
  | cons token rest ih =>
    cases skip with
    | true => exact ih hR
    | false =>
      have hsame := hread s t token rest.head? hR
      cases hfound : loop.read s token rest.head? with
      | error stop => rw [run_unread hfound, run_unread (hsame.symm.trans hfound)]; rfl
      | ok found =>
        have hfound' := hsame.symm.trans hfound
        cases found with
        | none =>
          rw [run_ignored hfound, run_ignored hfound']
          exact ih hR
        | some use =>
          have hboth := haccept s t use hR
          cases hact : loop.act s use with
          | error stop =>
            cases hact' : other.act t use with
            | error stop' =>
              rw [run_refused hfound hact, run_refused hfound' hact']
              rfl
            | ok t' =>
              obtain ⟨s', hs'⟩ := hboth.mpr ⟨t', hact'⟩
              rw [hact] at hs'
              cases hs'
          | ok s' =>
            obtain ⟨t', hact'⟩ := hboth.mp ⟨s', hact⟩
            have hR' := hkeep s t use s' t' hR hact hact'
            rw [run_next hfound hact, run_next hfound' hact', ← htakes]
            exact congrArg (List.cons (index, use)) (ih hR')

theorem le_of_mem_uses {loop : TokenLoop τ υ σ ε} {index : Nat} {args : List τ} {skip : Bool} {s : σ}
    {u : Nat × υ} (h : u ∈ uses (loop.run index args skip s).1) : index ≤ u.1 := by
  obtain ⟨v, hv, rfl⟩ := List.mem_map.mp h
  obtain ⟨k, _, hindex, _⟩ := mem_run hv
  dsimp only
  omega

section

variable {loop : TokenLoop τ υ σ ε} {index : Nat} {token : τ} {rest : List τ} {s s' : σ} {use use' : υ}

theorem first_mem_uses (hread : loop.read s token rest.head? = .ok (some use)) :
    (index, use) ∈ uses (loop.run index (token :: rest) false s).1 := by
  cases hact : loop.act s use with
  | error stop =>
    rw [run_refused hread hact]
    exact List.mem_singleton.mpr rfl
  | ok s' =>
    rw [run_next hread hact]
    exact List.mem_cons_self

theorem use_eq_of_first (hread : loop.read s token rest.head? = .ok (some use))
    (h : (index, use') ∈ uses (loop.run index (token :: rest) false s).1) : use' = use := by
  cases hact : loop.act s use with
  | error stop =>
    rw [run_refused hread hact] at h
    exact (Prod.mk.inj (List.mem_singleton.mp h)).2
  | ok s' =>
    rw [run_next hread hact] at h
    rcases List.mem_cons.mp h with heq | hlater
    · exact (Prod.mk.inj heq).2
    · have hle := le_of_mem_uses hlater
      dsimp only at hle
      omega

theorem later_mem_uses (hread : loop.read s token rest.head? = .ok (some use)) (hact : loop.act s use = .ok s')
    {u : Nat × υ} (hu : u ∈ uses (loop.run index (token :: rest) false s).1) (hlt : index < u.1) :
    u ∈ uses (loop.run (index + 1) rest (loop.takesNext use) s').1 := by
  rw [run_next hread hact] at hu
  rcases List.mem_cons.mp hu with rfl | hmem
  · exact absurd hlt (Nat.lt_irrefl index)
  · exact hmem

end

section

variable {ρ : Type} {small : TokenLoop τ υ σ ε} {big : TokenLoop τ υ ρ ε} {Mine : υ → Prop}

/-- Two loops over the same tokens, of which the second passes over none and the
first only cares for some uses. `Follows` is what makes their turns comparable. -/
structure Follows (small : TokenLoop τ υ σ ε) (big : TokenLoop τ υ ρ ε) (Mine : υ → Prop) : Prop where
  all : ∀ t token next, big.read t token next ≠ .ok none
  stop : ∀ s t token next stop, small.read s token next = .error stop →
    ∃ stop', big.read t token next = .error stop'
  missed : ∀ s t token next use, small.read s token next = .ok none → big.read t token next = .ok (some use) →
    ¬ Mine use
  value : ∀ t token next use, big.read t token next = .ok (some use) → big.takesNext use = true →
    ∃ value, next = some value ∧ ∀ s next', small.read s value next' = .ok none
  act : ∀ s t s' token next use, small.read s' token next = .ok (some use) →
    ((∃ r, small.act s use = .ok r) ↔ ∃ r, big.act t use = .ok r)
  takesNext : ∀ use, small.takesNext use = big.takesNext use

/-- The second run has no uses of its own that concern the first, and the first stops
only where the second does. -/
def Completes (Mine : υ → Prop) (first : List (Visit σ υ) × Except ε σ) (second : List (Visit ρ υ) × Except ε ρ) :
    Prop :=
  (∀ u ∈ uses second.1, Mine u.2 → u ∈ uses first.1) ∧ ((∃ t', second.2 = .ok t') → ∃ s', first.2 = .ok s')

section

variable {index : Nat} {token : τ} {rest : List τ} {s : σ} {t : ρ} {use use' : υ}

/-- The first loop passes over a token that the second uses. -/
theorem Follows.complete_missed (hfollows : Follows small big Mine)
    (hbig : big.read t token rest.head? = .ok (some use)) (hsmall : small.read s token rest.head? = .ok none)
    (hincl : ∀ u ∈ uses (small.run index (token :: rest) false s).1, u ∈ uses (big.run index (token :: rest) false t).1)
    (hrest : ∀ t', (∀ u ∈ uses (small.run (index + 1) rest false s).1,
        u ∈ uses (big.run (index + 1) rest (big.takesNext use) t').1) →
      Completes Mine (small.run (index + 1) rest false s) (big.run (index + 1) rest (big.takesNext use) t')) :
    Completes Mine (small.run index (token :: rest) false s) (big.run index (token :: rest) false t) := by
  have hother := hfollows.missed s t token _ use hsmall hbig
  rw [run_ignored hsmall] at hincl ⊢
  cases hact : big.act t use with
  | error stop =>
    rw [run_refused hbig hact]
    refine ⟨fun u hu hmine => ?_, fun ⟨_, h⟩ => (nomatch h)⟩
    cases List.mem_singleton.mp hu
    exact absurd hmine hother
  | ok t' =>
    obtain ⟨hall, hend⟩ := hrest t' fun u hu => later_mem_uses hbig hact (hincl u hu) (le_of_mem_uses hu)
    rw [run_next hbig hact]
    refine ⟨fun u hu hmine => ?_, hend⟩
    rcases List.mem_cons.mp hu with rfl | hmem
    · exact absurd hmine hother
    · exact hall u hmem hmine

/-- Both loops use the token, so they act alike. -/
theorem Follows.complete_used (hfollows : Follows small big Mine)
    (hbig : big.read t token rest.head? = .ok (some use)) (hsmall : small.read s token rest.head? = .ok (some use'))
    (hincl : ∀ u ∈ uses (small.run index (token :: rest) false s).1, u ∈ uses (big.run index (token :: rest) false t).1)
    (hrest : ∀ s' t', (∀ u ∈ uses (small.run (index + 1) rest (small.takesNext use) s').1,
        u ∈ uses (big.run (index + 1) rest (big.takesNext use) t').1) →
      Completes Mine (small.run (index + 1) rest (small.takesNext use) s')
        (big.run (index + 1) rest (big.takesNext use) t')) :
    Completes Mine (small.run index (token :: rest) false s) (big.run index (token :: rest) false t) := by
  obtain rfl : use' = use := use_eq_of_first hbig (hincl _ (first_mem_uses hsmall))
  have hact := hfollows.act s t s token _ use' hsmall
  cases hbigact : big.act t use' with
  | error stop =>
    rw [run_refused hbig hbigact]
    refine ⟨fun u hu _ => ?_, fun ⟨_, h⟩ => (nomatch h)⟩
    cases List.mem_singleton.mp hu
    exact first_mem_uses hsmall
  | ok t' =>
    obtain ⟨s', hsmallact⟩ := hact.mpr ⟨t', hbigact⟩
    have hlater : ∀ u ∈ uses (small.run (index + 1) rest (small.takesNext use') s').1,
        u ∈ uses (big.run (index + 1) rest (big.takesNext use') t').1 := by
      intro u hu
      have hmem : u ∈ uses (small.run index (token :: rest) false s).1 := by
        rw [run_next hsmall hsmallact]
        exact List.mem_cons_of_mem _ hu
      exact later_mem_uses hbig hbigact (hincl u hmem) (le_of_mem_uses hu)
    obtain ⟨hall, hend⟩ := hrest s' t' hlater
    rw [run_next hsmall hsmallact, run_next hbig hbigact]
    refine ⟨fun u hu hmine => ?_, hend⟩
    rcases List.mem_cons.mp hu with rfl | hmem
    · exact List.mem_cons_self
    · exact List.mem_cons_of_mem _ (hall u hmem hmine)

end

/-- Where every use of the first loop is one of the second, the second has no
other uses that concern the first, and the first stops only where the second does. -/
theorem Follows.complete (hfollows : Follows small big Mine) {index : Nat} {args : List τ} {skip skip' : Bool}
    {s : σ} {t : ρ} (hskip : skip = true → skip' = true)
    (hplain : skip' = true → ∀ value, args.head? = some value → ∀ s next, small.read s value next = .ok none)
    (hincl : ∀ u ∈ uses (small.run index args skip s).1, u ∈ uses (big.run index args skip' t).1) :
    (∀ u ∈ uses (big.run index args skip' t).1, Mine u.2 → u ∈ uses (small.run index args skip s).1) ∧
      ((∃ t', (big.run index args skip' t).2 = .ok t') → ∃ s', (small.run index args skip s).2 = .ok s') := by
  induction args generalizing index skip skip' s t with
  | nil => exact ⟨fun u hu => by simp [run, uses] at hu, fun _ => ⟨s, by simp [run]⟩⟩
  | cons token rest ih =>
    have hnever : ∀ value, rest.head? = some value → false = true →
        ∀ s next, small.read s value next = .ok none := fun _ _ h => absurd h Bool.false_ne_true
    cases skip' with
    | true =>
      cases skip with
      | true => exact ih (fun h => h) (fun h value hv => hnever value hv h) hincl
      | false =>
        have hignored := hplain rfl token rfl s rest.head?
        rw [run_ignored hignored] at hincl ⊢
        exact ih (fun h => h) (fun h value hv => hnever value hv h) hincl
    | false =>
      cases skip with
      | true => exact absurd (hskip rfl) Bool.false_ne_true
      | false =>
        cases hbig : big.read t token rest.head? with
        | error stop =>
          rw [run_unread hbig]
          exact ⟨fun u hu => absurd hu List.not_mem_nil, fun ⟨_, h⟩ => (nomatch h)⟩
        | ok found =>
          cases found with
          | none => exact absurd hbig (hfollows.all _ _ _)
          | some use =>
            -- a value that the second loop takes means nothing to the first
            have hvalue : big.takesNext use = true → ∀ value, rest.head? = some value →
                ∀ s next, small.read s value next = .ok none := by
              intro htakes value hhead
              obtain ⟨value', hnext, hnone⟩ := hfollows.value t token _ use hbig htakes
              cases hhead.symm.trans hnext
              exact hnone
            cases hsmall : small.read s token rest.head? with
            | error stop =>
              obtain ⟨stop', hstop⟩ := hfollows.stop s t token _ stop hsmall
              rw [hbig] at hstop
              cases hstop
            | ok found =>
              cases found with
              | none =>
                exact hfollows.complete_missed hbig hsmall hincl fun t' hrest =>
                  ih (fun h => absurd h Bool.false_ne_true) hvalue hrest
              | some use' =>
                exact hfollows.complete_used hbig hsmall hincl fun s' t' hrest =>
                  ih (fun h => hfollows.takesNext use ▸ h) hvalue hrest

end

section

variable (loop : TokenLoop τ υ σ ε) (tokens : υ → List τ)

/-- The loop makes this use of its tokens, whatever comes after them. -/
def Reads (s : σ) (use : υ) : Prop :=
  ∃ token values, tokens use = token :: values ∧ values.length = (if loop.takesNext use then 1 else 0) ∧
    ∀ rest : List τ, loop.read s token (values ++ rest).head? = .ok (some use)

/-- The uses of a loop that does not stop, each read from its own tokens. -/
inductive Plays : σ → List υ → σ → Prop
  | nil (s : σ) : Plays s [] s
  | cons {s t s' : σ} {use : υ} {later : List υ} (hread : loop.Reads tokens s use) (hact : loop.act s use = .ok t)
    (rest : Plays t later s') : Plays s (use :: later) s'

end

section

variable {loop : TokenLoop τ υ σ ε} {tokens : υ → List τ} {s s' : σ}

theorem plays_nil_iff : loop.Plays tokens s [] s' ↔ s = s' := by
  refine ⟨fun h => ?_, fun h => h ▸ .nil s⟩
  cases h
  rfl

theorem plays_cons_iff {use : υ} {later : List υ} : loop.Plays tokens s (use :: later) s' ↔
    loop.Reads tokens s use ∧ ∃ t, loop.act s use = .ok t ∧ loop.Plays tokens t later s' := by
  constructor
  · intro h
    cases h with
    | cons hread hact rest => exact ⟨hread, _, hact, rest⟩
  · intro h
    obtain ⟨hread, t, hact, rest⟩ := h
    exact .cons hread hact rest

theorem plays_append_iff {before after : List υ} : loop.Plays tokens s (before ++ after) s' ↔
    ∃ t, loop.Plays tokens s before t ∧ loop.Plays tokens t after s' := by
  induction before generalizing s with
  | nil => simp [plays_nil_iff]
  | cons use before ih =>
    simp only [List.cons_append, plays_cons_iff, ih]
    constructor
    · intro h
      obtain ⟨hread, r, hact, t, hbefore, hafter⟩ := h
      exact ⟨t, ⟨hread, r, hact, hbefore⟩, hafter⟩
    · intro h
      obtain ⟨t, ⟨hread, r, hact, hbefore⟩, hafter⟩ := h
      exact ⟨hread, r, hact, t, hbefore, hafter⟩

theorem Plays.run {played : List υ} (h : loop.Plays tokens s played s') (index : Nat) :
    (loop.run index (played.flatMap tokens) false s).1.map Visit.use = played ∧
      (loop.run index (played.flatMap tokens) false s).2 = .ok s' := by
  induction h generalizing index with
  | nil s => exact ⟨rfl, rfl⟩
  | @cons s t s' use later hread hact rest ih =>
    obtain ⟨token, values, htokens, hlength, hread⟩ := hread
    rw [List.flatMap_cons, htokens, List.cons_append, run_next (hread _) hact]
    cases htakes : loop.takesNext use with
    | false =>
      have hnil : values = [] := List.length_eq_zero_iff.mp (by simpa [htakes] using hlength)
      obtain ⟨huses, hend⟩ := ih (index + 1)
      subst hnil
      exact ⟨congrArg (List.cons use) huses, hend⟩
    | true =>
      obtain ⟨value, rfl⟩ := List.length_eq_one_iff.mp (by simpa [htakes] using hlength)
      obtain ⟨huses, hend⟩ := ih (index + 1 + 1)
      exact ⟨congrArg (List.cons use) huses, hend⟩

theorem plays_of_run (all : ∀ s token next, loop.read s token next ≠ .ok none)
    (own : ∀ s token next use, loop.read s token next = .ok (some use) →
      (loop.takesNext use = false ∧ tokens use = [token]) ∨
        (loop.takesNext use = true ∧ ∃ value, next = some value ∧ tokens use = [token, value]))
    (steady : ∀ s token next use t, loop.read s token next = .ok (some use) → loop.act s use = .ok t →
      loop.takesNext use = false → ∀ next', loop.read s token next' = .ok (some use))
    {index : Nat} {args : List τ} {skip : Bool} (h : (loop.run index args skip s).2 = .ok s') :
    loop.Plays tokens s ((loop.run index args skip s).1.map Visit.use) s' := by
  induction args generalizing index skip s with
  | nil =>
    cases h
    exact .nil _
  | cons token rest ih =>
    cases skip with
    | true => exact ih h
    | false =>
      obtain ⟨hread, _⟩ | ⟨use, t, hread, hact, hrun⟩ := run_cons_ok h
      · exact absurd hread (all _ _ _)
      · rw [hrun] at h ⊢
        refine .cons ?_ hact (ih h)
        rcases own s token _ use hread with ⟨htakes, htokens⟩ | ⟨htakes, value, hnext, htokens⟩
        · exact ⟨token, [], htokens, by simp [htakes], fun _ => steady _ _ _ _ _ hread hact htakes _⟩
        · refine ⟨token, [value], htokens, by simp [htakes], fun _ => ?_⟩
          rw [← hread, hnext]
          rfl

/-- A use that can change places with each of a stretch can be moved past all of it. -/
theorem plays_move_iff {use : υ} {middle after : List υ}
    (swap : ∀ other ∈ middle, ∀ s after, loop.Plays tokens s (use :: other :: after) s' ↔
      loop.Plays tokens s (other :: use :: after) s') :
    loop.Plays tokens s (use :: (middle ++ after)) s' ↔ loop.Plays tokens s (middle ++ use :: after) s' := by
  induction middle generalizing s with
  | nil => exact Iff.rfl
  | cons other middle ih =>
    rw [List.cons_append, swap other List.mem_cons_self, List.cons_append, plays_cons_iff, plays_cons_iff]
    refine and_congr_right fun _ => exists_congr fun t => and_congr_right fun _ => ?_
    exact ih fun other' hmem => swap other' (List.mem_cons_of_mem _ hmem)

end

end TokenLoop
