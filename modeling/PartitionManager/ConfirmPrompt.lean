import PartitionManager.DefaultTexts

namespace PartitionManager

/-- What a `confirmPrompt` leaves behind: the input, the output and its static counter. -/
structure Console where
  typed : List Char
  printed : Str
  total_tries : Int

/-- `std::cin >> p` skips blanks. At the end of the input nothing is read. -/
def readChar (typed : List Char) : Option (Char × List Char) :=
  match typed.dropWhile isspace with
  | [] => none
  | p :: rest => some (p, rest)

def confirmQuestion (message : Str) : Str := message.takeWhile (· ≠ '\x00') ++ " [ y / n ]: "

/-- There is no result if nothing could be read: `p` is compared all the same. -/
def confirmPrompt (message : Str) (maxTries : Int) (s : Console) : Option (Bool × Console) :=
  match readChar s.typed with
  | none => none
  | some (p, rest) =>
    let printed := s.printed ++ confirmQuestion message
    if p = 'y' ∨ p = 'Y' then some (true, ⟨rest, printed, 1⟩)
    else if p = 'n' ∨ p = 'N' then some (false, ⟨rest, printed, 1⟩)
    else if s.total_tries ≥ maxTries then
      some (false, ⟨rest, printed ++ "You have made many attempts (" ++ signed_to_string maxTries ++ ")!\n",
        s.total_tries⟩)
    else
      confirmPrompt message maxTries
        ⟨rest, printed ++ "Unexpected answer: '" ++ p :: ("'. Try again.\n" : Str), s.total_tries + 1⟩
  termination_by (maxTries - s.total_tries).toNat

/-- One call of a history. -/
structure Confirmation where
  before : Console
  maxTries : Int
  result : Option (Bool × Console)

/-- Calls one after the other, up to one without a result. -/
def confirmAll : List (Str × Int) → Console → List Confirmation
  | [], _ => []
  | (message, maxTries) :: calls, s =>
    match confirmPrompt message maxTries s with
    | none => [⟨s, maxTries, none⟩]
    | some (answer, s') => ⟨s, maxTries, some (answer, s')⟩ :: confirmAll calls s'

def Console.start (typed : List Char) : Console := ⟨typed, [], 1⟩

/-- The characters that are no blanks. -/
def characters (typed : List Char) : List Char := typed.filter fun c => !isspace c

def answerOf (c : Char) : Option Bool :=
  if c = 'y' ∨ c = 'Y' then some true else if c = 'n' ∨ c = 'N' then some false else none

def firstAnswer (cs : List Char) : Option Bool := cs.findSome? answerOf

/-- How often the call reads before it gives up. -/
def attemptsLeft (maxTries total_tries : Int) : Nat := (max 1 (maxTries - total_tries + 1)).toNat

namespace Confirmation

/-- The call answers as if it were the only one. -/
def Lawful (c : Confirmation) : Prop :=
  ∃ answer after, c.result = some (answer, after) ∧
    (∃ read, characters c.before.typed = read ++ characters after.typed ∧ (read.length : Int) ≤ c.maxTries) ∧
    (answer = true ↔ firstAnswer ((characters c.before.typed).take c.maxTries.toNat) = some true)

/-- An answer is among the attempts that the counter leaves, or they are all typed and
the full number of them would not confirm. -/
def Timely (c : Confirmation) : Prop :=
  (∃ ch ∈ (characters c.before.typed).take (attemptsLeft c.maxTries c.before.total_tries), answerOf ch ≠ none) ∨
    (attemptsLeft c.maxTries c.before.total_tries ≤ (characters c.before.typed).length ∧
      firstAnswer ((characters c.before.typed).take c.maxTries.toNat) ≠ some true)

end Confirmation

/-- How a call with `n` attempts left ends, given the characters typed. -/
inductive Confirms (n : Nat) (tries : Int) (cs : List Char) : Option (Bool × Console) → Prop
  | answered {before after : List Char} {c : Char} {answer : Bool} {s' : Console} (hsplit : cs = before ++ c :: after)
      (hlen : before.length < n) (hnone : ∀ d ∈ before, answerOf d = none) (hanswer : answerOf c = some answer)
      (hrest : characters s'.typed = after) (htries : s'.total_tries = 1) : Confirms n tries cs (some (answer, s'))
  | exhausted {read after : List Char} {s' : Console} (hsplit : cs = read ++ after) (hlen : read.length = n)
      (hnone : ∀ d ∈ read, answerOf d = none) (hrest : characters s'.typed = after) (htries : tries ≤ s'.total_tries) :
      Confirms n tries cs (some (false, s'))
  | ended (hlen : cs.length < n) (hnone : ∀ d ∈ cs, answerOf d = none) : Confirms n tries cs none

theorem readChar_cases (typed : List Char) :
    (readChar typed = none ∧ characters typed = []) ∨
      ∃ p rest, readChar typed = some (p, rest) ∧ characters typed = p :: characters rest := by
  induction typed with
  | nil => exact Or.inl ⟨rfl, rfl⟩
  | cons c typed ih =>
    cases hblank : isspace c with
    | true =>
      have hread : readChar (c :: typed) = readChar typed := by
        rw [readChar, List.dropWhile_cons_of_pos hblank, readChar]
      have hskip : characters (c :: typed) = characters typed := List.filter_cons_of_neg (by simp [hblank])
      rw [hread, hskip]
      exact ih
    | false =>
      right
      refine ⟨c, typed, ?_, List.filter_cons_of_pos (by simp [hblank])⟩
      rw [readChar, List.dropWhile_cons_of_neg (by simp [hblank])]

theorem readChar_none {typed : List Char} (h : readChar typed = none) : characters typed = [] := by
  rcases readChar_cases typed with ⟨_, hnone⟩ | ⟨p, rest, hsome, _⟩
  · exact hnone
  · cases h.symm.trans hsome

theorem readChar_some {typed rest : List Char} {p : Char} (h : readChar typed = some (p, rest)) :
    characters typed = p :: characters rest := by
  rcases readChar_cases typed with ⟨hnone, _⟩ | ⟨p', rest', hsome, hcons⟩
  · cases h.symm.trans hnone
  · cases h.symm.trans hsome
    exact hcons

theorem answerOf_none {p : Char} (hy : ¬ (p = 'y' ∨ p = 'Y')) (hn : ¬ (p = 'n' ∨ p = 'N')) : answerOf p = none := by
  rw [answerOf, if_neg hy, if_neg hn]

/-- A character that is no answer, before a call that had it as its first attempt. -/
theorem Confirms.cons {n : Nat} {tries tries' : Int} {cs : List Char} {result : Option (Bool × Console)} {p : Char}
    (hp : answerOf p = none) (hle : tries ≤ tries') (h : Confirms n tries' cs result) :
    Confirms (n + 1) tries (p :: cs) result := by
  have hnone : ∀ ds : List Char, (∀ d ∈ ds, answerOf d = none) → ∀ d ∈ p :: ds, answerOf d = none := by
    intro ds hds d hd
    rcases List.mem_cons.mp hd with rfl | hmem
    · exact hp
    · exact hds d hmem
  cases h with
  | @answered before _ _ _ _ hsplit hlen hbefore hanswer hrest htries =>
    have hlen' : (p :: before).length < n + 1 := Nat.succ_lt_succ hlen
    exact .answered (congrArg (p :: ·) hsplit) hlen' (hnone _ hbefore) hanswer hrest htries
  | exhausted hsplit hlen hread hrest htries =>
    exact .exhausted (congrArg (p :: ·) hsplit) (congrArg (· + 1) hlen) (hnone _ hread) hrest (hle.trans htries)
  | ended hlen hcs => exact .ended (Nat.succ_lt_succ hlen) (hnone _ hcs)

theorem attemptsLeft_pos (maxTries total_tries : Int) : 0 < attemptsLeft maxTries total_tries := by
  unfold attemptsLeft
  omega

/-- Each turn takes one of the attempts that the counter leaves. -/
theorem confirmPrompt_confirms (message : Str) (maxTries : Int) (s : Console) :
    Confirms (attemptsLeft maxTries s.total_tries) s.total_tries (characters s.typed)
      (confirmPrompt message maxTries s) := by
  have hpos := attemptsLeft_pos maxTries
  have hfirst : ∀ (p : Char) (rest : List Char), p :: rest = [] ++ p :: rest := fun _ _ => rfl
  induction s using confirmPrompt.induct message maxTries with
  | case1 s hread =>
    rw [confirmPrompt, hread, readChar_none hread]
    exact .ended (hpos _) fun d hd => nomatch hd
  | case2 s p rest hread hy =>
    have hanswer : answerOf p = some true := if_pos hy
    rw [confirmPrompt, hread, readChar_some hread]
    dsimp only
    rw [if_pos hy]
    exact .answered (hfirst p _) (hpos _) (fun d hd => nomatch hd) hanswer rfl rfl
  | case3 s p rest hread hy hn =>
    have hanswer : answerOf p = some false := by rw [answerOf, if_neg hy, if_pos hn]
    rw [confirmPrompt, hread, readChar_some hread]
    dsimp only
    rw [if_neg hy, if_pos hn]
    exact .answered (hfirst p _) (hpos _) (fun d hd => nomatch hd) hanswer rfl rfl
  | case4 s p rest hread hy hn hmax =>
    have hlast : attemptsLeft maxTries s.total_tries = 1 := by
      unfold attemptsLeft
      omega
    rw [confirmPrompt, hread, readChar_some hread, hlast]
    dsimp only
    rw [if_neg hy, if_neg hn, if_pos hmax]
    have hread : p :: characters rest = [p] ++ characters rest := rfl
    exact .exhausted hread rfl (List.forall_mem_singleton.mpr (answerOf_none hy hn)) rfl le_rfl
  | case5 s p rest hread printed hy hn hmax ih =>
    have hmore : attemptsLeft maxTries s.total_tries = attemptsLeft maxTries (s.total_tries + 1) + 1 := by
      unfold attemptsLeft
      omega
    rw [confirmPrompt, hread, readChar_some hread, hmore]
    dsimp only
    rw [if_neg hy, if_neg hn, if_neg hmax]
    have hgrown : s.total_tries ≤ s.total_tries + 1 := by omega
    exact ih.cons (answerOf_none hy hn) hgrown

theorem firstAnswer_append {before : List Char} (h : ∀ d ∈ before, answerOf d = none) (rest : List Char) :
    firstAnswer (before ++ rest) = firstAnswer rest := by
  have hnone : before.findSome? answerOf = none := List.findSome?_eq_none_iff.mpr h
  rw [firstAnswer, List.findSome?_append, hnone]
  rfl

/-- The first answer is found among the first characters, if that many are looked at. -/
theorem firstAnswer_take {before after : List Char} {c : Char} {answer : Bool} {m : Nat} (hlen : before.length < m)
    (hnone : ∀ d ∈ before, answerOf d = none) (hanswer : answerOf c = some answer) :
    firstAnswer ((before ++ c :: after).take m) = some answer ∧ c ∈ (before ++ c :: after).take m := by
  obtain ⟨k, rfl⟩ := Nat.exists_eq_add_of_lt hlen
  rw [Nat.add_assoc, List.take_length_add_append, List.take_succ_cons]
  refine ⟨?_, List.mem_append_right before List.mem_cons_self⟩
  rw [firstAnswer_append hnone, firstAnswer, List.findSome?_cons_of_isSome (by rw [hanswer]; rfl)]
  exact hanswer

/-- With one attempt left at least, and no more than are allowed, a call is lawful
exactly if it is timely. -/
theorem Confirms.lawful_iff {s : Console} {maxTries : Int} {result : Option (Bool × Console)}
    (h : Confirms (attemptsLeft maxTries s.total_tries) s.total_tries (characters s.typed) result)
    (hmax : 1 ≤ maxTries) (htries : 1 ≤ s.total_tries) :
    (Confirmation.mk s maxTries result).Lawful ↔ (Confirmation.mk s maxTries result).Timely := by
  have hle : attemptsLeft maxTries s.total_tries ≤ maxTries.toNat := by
    unfold attemptsLeft
    omega
  unfold Confirmation.Lawful Confirmation.Timely
  dsimp only
  generalize attemptsLeft maxTries s.total_tries = n at h hle
  cases h with
  | @answered before after c answer s' hsplit hlen hnone hanswer hrest _ =>
    have hfirst : firstAnswer ((characters s.typed).take maxTries.toNat) = some answer := by
      rw [hsplit]
      exact (firstAnswer_take (by omega) hnone hanswer).1
    refine iff_of_true ⟨answer, s', rfl, ⟨before ++ [c], ?_, ?_⟩, ?_⟩ (Or.inl ⟨c, ?_, ?_⟩)
    · rw [hsplit, hrest, List.append_assoc]
      rfl
    · rw [List.length_append, List.length_singleton]
      omega
    · rw [hfirst, Option.some.injEq]
    · rw [hsplit]
      exact (firstAnswer_take hlen hnone hanswer).2
    · rw [hanswer]
      rintro ⟨⟩
  | @exhausted read after s' hsplit hlen hnone hrest _ =>
    have htake : (characters s.typed).take n = read := by rw [hsplit, ← hlen, List.take_left]
    have hnever : ¬ ∃ ch ∈ (characters s.typed).take n, answerOf ch ≠ none := by
      rintro ⟨ch, hmem, hanswer⟩
      rw [htake] at hmem
      exact hanswer (hnone ch hmem)
    have hall : n ≤ (characters s.typed).length := by
      rw [hsplit, List.length_append]
      omega
    constructor
    · rintro ⟨answer, s'', hresult, _, hlaw⟩
      cases hresult
      exact Or.inr ⟨hall, fun hyes => Bool.noConfusion (hlaw.mpr hyes)⟩
    · rintro (hsome | ⟨_, hno⟩)
      · exact absurd hsome hnever
      · refine ⟨false, s', rfl, ⟨read, ?_, by omega⟩, iff_of_false Bool.noConfusion hno⟩
        rw [hsplit, hrest]
  | ended hlen hnone =>
    refine iff_of_false ?_ ?_
    · rintro ⟨_, _, hresult, _⟩
      cases hresult
    · rintro (⟨ch, hmem, hanswer⟩ | ⟨hall, _⟩)
      · exact hanswer (hnone ch (List.mem_of_mem_take hmem))
      · omega

/-- The counter is one at least after every call. -/
theorem Confirms.tries_pos {n : Nat} {tries : Int} {cs : List Char} {answer : Bool} {s' : Console}
    (h : Confirms n tries cs (some (answer, s'))) (hpos : 1 ≤ tries) : 1 ≤ s'.total_tries := by
  cases h with
  | answered _ _ _ _ _ htries => omega
  | exhausted _ _ _ _ htries => omega

theorem confirmAll_lawful_iff {calls : List (Str × Int)} (hmax : ∀ call ∈ calls, 1 ≤ call.2) {s : Console}
    (htries : 1 ≤ s.total_tries) : ∀ c ∈ confirmAll calls s, (c.Lawful ↔ c.Timely) := by
  induction calls generalizing s with
  | nil =>
    intro c hc
    cases hc
  | cons call calls ih =>
    obtain ⟨message, maxTries⟩ := call
    have hconfirms := confirmPrompt_confirms message maxTries s
    have hlimit : 1 ≤ maxTries := hmax _ List.mem_cons_self
    intro c hc
    rw [confirmAll] at hc
    cases hcall : confirmPrompt message maxTries s with
    | none =>
      rw [hcall] at hc hconfirms
      obtain rfl := List.mem_singleton.mp hc
      exact hconfirms.lawful_iff hlimit htries
    | some result =>
      obtain ⟨answer, s'⟩ := result
      rw [hcall] at hc hconfirms
      rcases List.mem_cons.mp hc with rfl | hmem
      · exact hconfirms.lawful_iff hlimit htries
      · exact ih (fun call hcall => hmax call (List.mem_cons_of_mem _ hcall)) (hconfirms.tries_pos htries) c hmem

/-- Each call of a history is independent of those before it exactly if it is timely. -/
theorem confirmations_independent_iff {calls : List (Str × Int)} (hmax : ∀ call ∈ calls, 1 ≤ call.2)
    (typed : List Char) :
    (∀ c ∈ confirmAll calls (.start typed), c.Lawful) ↔ ∀ c ∈ confirmAll calls (.start typed), c.Timely := by
  have hstart : 1 ≤ (Console.start typed).total_tries := le_rfl
  exact forall_congr' fun c => forall_congr' fun hc => confirmAll_lawful_iff hmax hstart c hc

def threeCalls : List (Str × Int) := [("Continue?", 2), ("Continue?", 2), ("Really?", 3)]

/-- The first call runs out of its attempts, the second has one left and needs no more. -/
theorem confirmations_independent_after_exhausted :
    (confirmAll threeCalls (.start "abyxn")).map (fun c => c.result.map Prod.fst) =
      [some false, some true, some false] ∧
    ∀ c ∈ confirmAll threeCalls (.start "abyxn"), c.Lawful := by
  have hcalls : ∃ first second third, confirmAll threeCalls (.start "abyxn") =
      [⟨.start "abyxn", 2, some (false, first)⟩, ⟨first, 2, some (true, second)⟩,
        ⟨second, 3, some (false, third)⟩] ∧
      first.typed = ['y', 'x', 'n'] ∧ second.typed = ['x', 'n'] ∧ second.total_tries = 1 := by
    simp [threeCalls, confirmAll, confirmPrompt, readChar, Console.start, isspace]
  obtain ⟨first, second, third, hcalls, hfirst, hsecond, htries⟩ := hcalls
  refine ⟨by rw [hcalls]; rfl, (confirmations_independent_iff (by decide) "abyxn").mpr ?_⟩
  rw [hcalls]
  simp only [List.forall_mem_cons]
  have hexhausted : attemptsLeft 2 1 ≤ (characters "abyxn").length ∧
      firstAnswer ((characters "abyxn").take 2) ≠ some true := by decide
  have hthird : 'n' ∈ (characters ['x', 'n']).take (attemptsLeft 3 1) := by decide
  refine ⟨Or.inr hexhausted, Or.inl ⟨'y', ?_, by decide⟩, Or.inl ⟨'n', ?_, by decide⟩, by simp⟩
  · -- however few attempts are left, there is a first one
    obtain ⟨n, hn⟩ := Nat.exists_eq_add_one.mpr (attemptsLeft_pos 2 first.total_tries)
    rw [hfirst, hn]
    exact List.mem_cons_self
  · rw [hsecond, htries]
    exact hthird

/-- After a call that ran out of its two attempts, the next one gives up at its first. -/
theorem second_call_cut_short :
    (confirmAll [("Continue?", 2), ("Continue?", 2)] (.start "abcy")).map (fun c => c.result.map Prod.fst) =
      [some false, some false] ∧
    ¬ ∀ c ∈ confirmAll [("Continue?", 2), ("Continue?", 2)] (.start "abcy"), c.Lawful := by
  have hcalls : ∃ first second, confirmAll [("Continue?", 2), ("Continue?", 2)] (.start "abcy") =
      [⟨.start "abcy", 2, some (false, first)⟩, ⟨first, 2, some (false, second)⟩] ∧ first.typed = ['c', 'y'] := by
    simp [confirmAll, confirmPrompt, readChar, Console.start, isspace]
  obtain ⟨first, second, hcalls, htyped⟩ := hcalls
  rw [hcalls]
  refine ⟨rfl, fun h => ?_⟩
  obtain ⟨answer, after, hresult, _, hlaw⟩ := h ⟨first, 2, some (false, second)⟩ (by simp)
  cases hresult
  rw [htyped] at hlaw
  have hyes : firstAnswer ((characters ['c', 'y']).take 2) = some true := by decide
  exact Bool.noConfusion (hlaw.mpr hyes)

end PartitionManager
