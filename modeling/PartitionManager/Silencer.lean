import Mathlib.Logic.Function.Basic
import PartitionManager.Library.Descriptors

namespace PartitionManager

open Descriptors (Table)

inductive StreamBuf where
  | other (n : Nat)
  | null_stream (silencer : Nat)
  deriving DecidableEq

/-- The fields of a `Silencer`. A `none` stands for `nullptr` and -1, and `null_stream`
has the descriptor of its file while it is open. -/
structure Silencer where
  saved_cout : Option StreamBuf := none
  saved_cerr : Option StreamBuf := none
  null_stream : Option Nat := none
  saved_stdout_fd : Option Nat := none
  saved_stderr_fd : Option Nat := none
  null_fd : Option Nat := none
  deriving DecidableEq

/-- The process: its descriptors, the number of files opened, the buffers of `std::cout` and
`std::cerr`, and the objects. -/
structure SilencerWorld where
  fds : Table Nat
  opened : Nat
  cout : Option StreamBuf
  cerr : Option StreamBuf
  silencers : Nat → Silencer

namespace SilencerWorld

variable (w : SilencerWorld)

/-- Opening a file, which may fail. -/
def openNull (succeeds : Bool) : Option Nat × SilencerWorld :=
  if succeeds then (some w.fds.lowest, { w with fds := (w.fds.open_ w.opened).2, opened := w.opened + 1 })
  else (none, w)

/-- `open` of a stream, which fails for one that is open already and leaves it so. -/
def openStream (stream : Option Nat) (succeeds : Bool) : Option Nat × SilencerWorld :=
  match stream with
  | some fd => (some fd, w)
  | none => w.openNull succeeds

def dup (fd : Nat) : Option Nat × SilencerWorld :=
  match w.fds.dup fd with
  | none => (none, w)
  | some (copy, fds) => (some copy, { w with fds })

/-- `dup2` and `close` fail for -1. -/
def dup2 (fd : Option Nat) (fd' : Nat) : SilencerWorld := { w with fds := fd.elim w.fds (w.fds.dup2 · fd') }

def close (fd : Option Nat) : SilencerWorld := { w with fds := fd.elim w.fds w.fds.close }

def set (i : Nat) (s : Silencer) : SilencerWorld := { w with silencers := Function.update w.silencers i s }

/-- `streamOpens` and `nullOpens` say whether the two calls that open `/dev/null` succeed. -/
def silence (i : Nat) (streamOpens nullOpens : Bool) : SilencerWorld :=
  let s := w.silencers i
  if s.saved_cout.isSome ∨ s.null_fd.isSome then w
  else
    let (null_stream, w) := w.openStream s.null_stream streamOpens
    let s := { s with null_stream, saved_cout := w.cout, saved_cerr := w.cerr }
    let w := { w with cout := some (.null_stream i), cerr := some (.null_stream i) }
    match w.openNull nullOpens with
    | (none, w) => w.set i s
    | (some null_fd, w) =>
      let (saved_stdout_fd, w) := w.dup 1
      let (saved_stderr_fd, w) := w.dup 2
      let w := (w.dup2 (some null_fd) 1).dup2 (some null_fd) 2
      w.set i { s with null_fd := some null_fd, saved_stdout_fd, saved_stderr_fd }

def stop (i : Nat) : SilencerWorld :=
  let s := w.silencers i
  if s.saved_cout.isNone ∧ s.null_fd.isNone then w
  else
    let (s, w) := if s.saved_cout.isSome then
        ({ s with saved_cout := none, saved_cerr := none, null_stream := none },
          ({ w with cout := s.saved_cout, cerr := s.saved_cerr } : SilencerWorld).close s.null_stream)
      else (s, w)
    match s.null_fd with
    | none => w.set i s
    | some null_fd =>
      let w := (w.dup2 s.saved_stdout_fd 1).dup2 s.saved_stderr_fd 2
      let w := ((w.close s.saved_stdout_fd).close s.saved_stderr_fd).close (some null_fd)
      w.set i { s with saved_stdout_fd := none, saved_stderr_fd := none, null_fd := none }

/-- The destructor stops, and then the file of the stream is closed. -/
def destroy (i : Nat) : SilencerWorld :=
  let w := w.stop i
  (w.close (w.silencers i).null_stream).set i {}

end SilencerWorld

/-- The same numbers are open on the same files, and the streams have the same buffers. -/
structure SameOutputs (w w' : SilencerWorld) : Prop where
  fds : ∀ fd, w.fds.file fd = w'.fds.file fd
  cout : w.cout = w'.cout
  cerr : w.cerr = w'.cerr

/-- A run that is properly nested: the state, and the objects that are silenced, the last one
first, each with the state at its `silence`. -/
inductive SilencerRun (start : SilencerWorld) : SilencerWorld → List (Nat × SilencerWorld) → Prop
  | start : SilencerRun start start []
  | silence {w pending} (i : Nat) (streamOpens nullOpens : Bool) (h : SilencerRun start w pending)
      (hfree : i ∉ pending.map Prod.fst) :
      SilencerRun start (w.silence i streamOpens nullOpens) ((i, w) :: pending)
  | silenceAgain {w pending} (i : Nat) (streamOpens nullOpens : Bool) (h : SilencerRun start w pending)
      (hpending : i ∈ pending.map Prod.fst) : SilencerRun start (w.silence i streamOpens nullOpens) pending
  | stop {w w₀ pending} (i : Nat) (h : SilencerRun start w ((i, w₀) :: pending)) :
      SilencerRun start (w.stop i) pending
  | stopAgain {w pending} (i : Nat) (h : SilencerRun start w pending) (hfree : i ∉ pending.map Prod.fst) :
      SilencerRun start (w.stop i) pending
  | destroy {w w₀ pending} (i : Nat) (h : SilencerRun start w ((i, w₀) :: pending)) :
      SilencerRun start (w.destroy i) pending
  | destroyAgain {w pending} (i : Nat) (h : SilencerRun start w pending) (hfree : i ∉ pending.map Prod.fst) :
      SilencerRun start (w.destroy i) pending

/-- What is promised in a state of a run. -/
structure UndoneExactly (w : SilencerWorld) (pending : List (Nat × SilencerWorld)) : Prop where
  stop : ∀ i w₀, pending.head? = some (i, w₀) → SameOutputs (w.stop i) w₀ ∧ SameOutputs (w.destroy i) w₀
  silenceAgain : ∀ i, i ∈ pending.map Prod.fst → ∀ streamOpens nullOpens, w.silence i streamOpens nullOpens = w
  stopAgain : ∀ i, i ∉ pending.map Prod.fst → w.stop i = w ∧ SameOutputs (w.destroy i) w

/-- Nothing is silenced, both standard descriptors are open, and `std::cout` has a buffer. -/
structure Audible (w : SilencerWorld) : Prop where
  stdout : ∃ f, w.fds.file 1 = some f
  stderr : ∃ f, w.fds.file 2 = some f
  cout : w.cout.isSome = true

/-- `SameOutputs`, and the same objects. -/
structure SameState (w w' : SilencerWorld) : Prop extends SameOutputs w w' where
  silencers : w.silencers = w'.silencers

namespace SilencerWorld

variable {w : SilencerWorld} {i : Nat}

theorem silence_again {streamOpens nullOpens : Bool} (h : (w.silencers i).saved_cout.isSome = true) :
    w.silence i streamOpens nullOpens = w := if_pos (Or.inl h)

theorem stop_again (h : w.silencers i = {}) : w.stop i = w := by
  unfold stop
  rw [h]
  exact if_pos ⟨rfl, rfl⟩

theorem close_file (fd : Option Nat) (n : Nat) :
    (w.close fd).fds.file n = if fd = some n then none else w.fds.file n := by
  cases fd with
  | none => rfl
  | some fd =>
    show (w.fds.put fd none).file n = _
    rw [Table.file_put]
    simp only [Option.some.injEq, eq_comm]

theorem dup2_file {fd : Nat} {f : Nat} (h : w.fds.file fd = some f) (fd' n : Nat) :
    (w.dup2 (some fd) fd').fds.file n = if n = fd' then some f else w.fds.file n := by
  show (w.fds.dup2 fd fd').file n = _
  unfold Table.dup2
  rw [h]
  exact Table.file_put _ _ _ _

end SilencerWorld

/-- How the redirected descriptors stand to those before: the three new numbers were free. -/
structure Redirected (w w' : SilencerWorld) (null_stream : Option Nat) (null_fd out err : Nat) : Prop where
  nullFree : w.fds.file null_fd = none
  outFree : w.fds.file out = none
  errFree : w.fds.file err = none
  outFile : w'.fds.file out = w.fds.file 1
  errFile : w'.fds.file err = w.fds.file 2
  outOther : null_stream ≠ some out
  errOther : null_stream ≠ some err
  kept : ∀ fd, fd ≠ 1 → fd ≠ 2 → fd ≠ null_fd → fd ≠ out → fd ≠ err → null_stream ≠ some fd →
    w'.fds.file fd = w.fds.file fd

/-- What `silence` leaves in the fields of the object. -/
structure Muted (w w' : SilencerWorld) (i : Nat) (s : Silencer) : Prop where
  silencers : w'.silencers = Function.update w.silencers i s
  saved_cout : s.saved_cout = w.cout
  saved_cerr : s.saved_cerr = w.cerr
  streamFree : ∀ fd, s.null_stream = some fd → w.fds.file fd = none
  unredirected : s.null_fd = none → s.saved_stdout_fd = none ∧ s.saved_stderr_fd = none ∧
    ∀ fd, s.null_stream ≠ some fd → w'.fds.file fd = w.fds.file fd
  redirected : ∀ null_fd, s.null_fd = some null_fd → ∃ out err, s.saved_stdout_fd = some out ∧
    s.saved_stderr_fd = some err ∧ Redirected w w' s.null_stream null_fd out err
  audible : Audible w'

namespace SilencerWorld

variable {w w' w'' : SilencerWorld} {i : Nat} {s : Silencer}

/-- The number of a file that is opened was free, and no other changes. -/
structure Opens (w w' : SilencerWorld) (number : Option Nat) : Prop where
  free : ∀ fd, number = some fd → w.fds.file fd = none
  used : ∀ fd, number = some fd → w'.fds.file fd ≠ none
  kept : ∀ fd, number ≠ some fd → w'.fds.file fd = w.fds.file fd
  cout : w'.cout = w.cout
  cerr : w'.cerr = w.cerr
  silencers : w'.silencers = w.silencers

theorem openNull_opens (succeeds : Bool) : Opens w (w.openNull succeeds).2 (w.openNull succeeds).1 := by
  cases succeeds with
  | false =>
    refine ⟨?_, ?_, fun fd _ => rfl, rfl, rfl, rfl⟩
    · rintro fd ⟨⟩
    · rintro fd ⟨⟩
  | true =>
    refine ⟨?_, ?_, ?_, rfl, rfl, rfl⟩
    · rintro fd ⟨⟩
      exact w.fds.file_lowest
    · rintro fd ⟨⟩
      show (w.fds.put _ _).file _ ≠ none
      rw [Table.file_put_self]
      rintro ⟨⟩
    · intro fd h
      have hne : fd ≠ w.fds.lowest := fun heq => h (congrArg some heq.symm)
      exact Table.file_put_ne _ _ hne

theorem dup_of_file {fd f : Nat} (h : w.fds.file fd = some f) :
    w.dup fd = (some w.fds.lowest, { w with fds := (w.fds.open_ f).2 }) := by
  unfold dup Table.dup
  rw [h]
  rfl

theorem Opens.keeps {number : Option Nat} {fd f : Nat} (h : Opens w w' number) (hused : w.fds.file fd = some f) :
    w'.fds.file fd = some f := by
  rw [h.kept fd, hused]
  intro hnumber
  rw [h.free fd hnumber] at hused
  cases hused

theorem Opens.free_before {number : Option Nat} {fd : Nat} (h : Opens w w' number) (hfree : w'.fds.file fd = none) :
    w.fds.file fd = none ∧ number ≠ some fd := by
  have hother : number ≠ some fd := fun hnumber => h.used fd hnumber hfree
  exact ⟨(h.kept fd hother).symm.trans hfree, hother⟩

/-- Two descriptors are made to lead to the file of a third. -/
theorem dup2_twice {fd f : Nat} (h : w.fds.file fd = some f) (n : Nat) :
    ((w.dup2 (some fd) 1).dup2 (some fd) 2).fds.file n = if n = 2 then some f else if n = 1 then some f else
      w.fds.file n := by
  have hone := dup2_file h 1
  have hnull : (w.dup2 (some fd) 1).fds.file fd = some f := by
    rw [hone]
    split
    next => rfl
    next => exact h
  rw [dup2_file hnull, hone]

/-- Three numbers are given out, one after the other, and then 1 and 2 are redirected. -/
theorem Opens.redirected {w₁ : SilencerWorld} {null_stream : Option Nat} {t₂ t₃ t₄ : Table Nat}
    {null_fd out err f x y : Nat} (hopens : Opens w w₁ null_stream) (hx : w.fds.file 1 = some x)
    (hy : w.fds.file 2 = some y) (hnull : w₁.fds.Gives t₂ null_fd f) (hout : t₂.Gives t₃ out x)
    (herr : t₃.Gives t₄ err y) (hw' : ∀ n, n ≠ 1 → n ≠ 2 → w'.fds.file n = t₄.file n) :
    Redirected w w' null_stream null_fd out err := by
  have hout₁ := hnull.free_before hout.free
  have herr₂ := hout.free_before herr.free
  have herr₁ := hnull.free_before herr₂.2
  have hx₁ := hopens.keeps hx
  have hy₁ := hopens.keeps hy
  have hx₂ := hnull.keeps hx₁
  have hy₂ := hnull.keeps hy₁
  refine ⟨(hopens.free_before hnull.free).1, (hopens.free_before hout₁.2).1, (hopens.free_before herr₁.2).1, ?_, ?_,
    (hopens.free_before hout₁.2).2, (hopens.free_before herr₁.2).2, ?_⟩
  · rw [hw' out (hout.ne hx₂).symm (hout.ne hy₂).symm, herr.keeps hout.file, hx]
  · rw [hw' err (herr.ne (hout.keeps hx₂)).symm (herr.ne (hout.keeps hy₂)).symm, herr.file, hy]
  · intro fd h1 h2 hnull' hout' herr' hstream
    rw [hw' fd h1 h2, herr.kept fd herr', hout.kept fd hout', hnull.kept fd hnull', hopens.kept fd hstream]

/-- The two files are opened, and the descriptors redirected. -/
theorem silence_muted (haudible : Audible w) (hidle : w.silencers i = {}) (streamOpens nullOpens : Bool) :
    ∃ s, Muted w (w.silence i streamOpens nullOpens) i s := by
  obtain ⟨x, hx⟩ := haudible.stdout
  obtain ⟨y, hy⟩ := haudible.stderr
  have hopens := @openNull_opens w streamOpens
  unfold silence
  rw [hidle]
  dsimp only [openStream]
  rw [if_neg (by decide)]
  generalize w.openNull streamOpens = opened at hopens
  obtain ⟨null_stream, w₁⟩ := opened
  cases nullOpens with
  | false =>
    refine ⟨_, ⟨congrArg (Function.update · i _) hopens.silencers, hopens.cout, hopens.cerr, hopens.free,
      fun _ => ⟨rfl, rfl, hopens.kept⟩, ?_, ⟨⟨x, hopens.keeps hx⟩, ⟨y, hopens.keeps hy⟩, rfl⟩⟩⟩
    rintro null_fd ⟨⟩
  | true =>
    -- the numbers given out are new each time
    have hnull := Table.gives_open w₁.fds w₁.opened
    let t₂ := (w₁.fds.open_ w₁.opened).2
    have hout := Table.gives_open t₂ x
    let t₃ := (t₂.open_ x).2
    have herr := Table.gives_open t₃ y
    let t₄ := (t₃.open_ y).2
    let v : SilencerWorld := { w₁ with
      cout := some (.null_stream i), cerr := some (.null_stream i), fds := t₂, opened := w₁.opened + 1 }
    have hdup₁ : v.dup 1 = (some t₂.lowest, { v with fds := t₃ }) := dup_of_file (hnull.keeps (hopens.keeps hx))
    have hdup₂ : dup { v with fds := t₃ } 2 = (some t₃.lowest, { v with fds := t₄ }) :=
      dup_of_file (hout.keeps (hnull.keeps (hopens.keeps hy)))
    show ∃ s, Muted w ((((((v.dup 1).2.dup 2).2.dup2 (some w₁.fds.lowest) 1).dup2 (some w₁.fds.lowest) 2)).set i
      { saved_cout := w₁.cout, saved_cerr := w₁.cerr, null_stream, null_fd := some w₁.fds.lowest,
        saved_stdout_fd := (v.dup 1).1, saved_stderr_fd := ((v.dup 1).2.dup 2).1 }) i s
    rw [hdup₁, hdup₂]
    have hfile := dup2_twice (w := { v with fds := t₄ }) (herr.keeps (hout.keeps hnull.file))
    refine ⟨_, ⟨congrArg (Function.update · i _) hopens.silencers, hopens.cout, hopens.cerr, hopens.free, ?_, ?_,
      ⟨⟨w₁.opened, hfile 1⟩, ⟨w₁.opened, hfile 2⟩, rfl⟩⟩⟩
    · rintro ⟨⟩
    · rintro _ ⟨⟩
      refine ⟨t₂.lowest, t₃.lowest, rfl, rfl, hopens.redirected hx hy hnull hout herr fun n h1 h2 => ?_⟩
      exact (hfile n).trans ((if_neg h2).trans (if_neg h1))

/-- The object is as it was again. -/
theorem set_idle {v : SilencerWorld} (hidle : w.silencers i = {}) (hmuted : Muted w w' i s)
    (hsame : v.silencers = w'.silencers) : (v.set i {}).silencers = w.silencers := by
  show Function.update v.silencers i {} = w.silencers
  rw [hsame, hmuted.silencers, Function.update_idem, ← hidle, Function.update_eq_self]

/-- The two saved descriptors are put back, and the three numbers are closed. -/
theorem redirected_restored {v : SilencerWorld} {null_stream : Option Nat} {null_fd out err x y : Nat}
    (h : Redirected w w' null_stream null_fd out err) (hx : w.fds.file 1 = some x) (hy : w.fds.file 2 = some y)
    (hfree : ∀ fd, null_stream = some fd → w.fds.file fd = none)
    (hv : ∀ n, v.fds.file n = if null_stream = some n then none else w'.fds.file n) (fd : Nat) :
    (((((v.dup2 (some out) 1).dup2 (some err) 2).close (some out)).close (some err)).close
      (some null_fd)).fds.file fd = w.fds.file fd := by
  have hout : v.fds.file out = some x := by
    rw [hv, if_neg h.outOther, h.outFile, hx]
  have hone := dup2_file hout 1
  have herr_one : err ≠ 1 := by
    rintro rfl
    rw [h.errFree] at hx
    cases hx
  have herr : (v.dup2 (some out) 1).fds.file err = some y := by
    rw [hone, if_neg herr_one, hv, if_neg h.errOther, h.errFile, hy]
  rw [close_file, close_file, close_file, dup2_file herr, hone, hv]
  by_cases hnull : fd = null_fd
  · rw [if_pos (congrArg some hnull.symm), hnull, h.nullFree]
  rw [if_neg fun heq => hnull (Option.some.inj heq).symm]
  by_cases herr' : fd = err
  · rw [if_pos (congrArg some herr'.symm), herr', h.errFree]
  rw [if_neg fun heq => herr' (Option.some.inj heq).symm]
  by_cases hout' : fd = out
  · rw [if_pos (congrArg some hout'.symm), hout', h.outFree]
  rw [if_neg fun heq => hout' (Option.some.inj heq).symm]
  by_cases htwo : fd = 2
  · rw [if_pos htwo, htwo, hy]
  rw [if_neg htwo]
  by_cases hfd : fd = 1
  · rw [if_pos hfd, hfd, hx]
  rw [if_neg hfd]
  by_cases hstream : null_stream = some fd
  · rw [if_pos hstream, hfree fd hstream]
  · rw [if_neg hstream, h.kept fd hfd htwo hnull hout' herr' hstream]

/-- The file of the stream is closed, and the descriptors are restored. -/
theorem stop_muted (haudible : Audible w) (hidle : w.silencers i = {}) (hmuted : Muted w w' i s)
    (hsame : SameState w'' w') : SameState (w''.stop i) w := by
  have hobject : w''.silencers i = s := by rw [hsame.silencers, hmuted.silencers, Function.update_self]
  have hcout : s.saved_cout.isSome = true := by
    rw [hmuted.saved_cout]
    exact haudible.cout
  have hsilenced : ¬ (s.saved_cout.isNone = true ∧ s.null_fd.isNone = true) := by
    rintro ⟨hnone, _⟩
    rw [Option.isNone_iff_eq_none.mp hnone] at hcout
    cases hcout
  have hclosed : ∀ n, (close { w'' with cout := s.saved_cout, cerr := s.saved_cerr } s.null_stream).fds.file n =
      if s.null_stream = some n then none else w'.fds.file n := by
    intro n
    rw [← hsame.fds n]
    exact close_file _ _
  unfold stop
  rw [hobject]
  dsimp only
  rw [if_neg hsilenced, if_pos hcout]
  dsimp only
  cases hnull : s.null_fd with
  | none =>
    obtain ⟨hstdout, hstderr, hkept⟩ := hmuted.unredirected hnull
    dsimp only
    rw [hstdout, hstderr]
    refine ⟨⟨fun fd => ?_, hmuted.saved_cout, hmuted.saved_cerr⟩, set_idle hidle hmuted hsame.silencers⟩
    refine (hclosed fd).trans ?_
    by_cases hstream : s.null_stream = some fd
    · rw [if_pos hstream, hmuted.streamFree fd hstream]
    · rw [if_neg hstream, ← hkept fd hstream]
  | some null_fd =>
    obtain ⟨out, err, hstdout, hstderr, hredirected⟩ := hmuted.redirected null_fd hnull
    obtain ⟨x, hx⟩ := haudible.stdout
    obtain ⟨y, hy⟩ := haudible.stderr
    dsimp only
    rw [hstdout, hstderr]
    refine ⟨⟨fun fd => ?_, hmuted.saved_cout, hmuted.saved_cerr⟩, set_idle hidle hmuted hsame.silencers⟩
    exact redirected_restored hredirected hx hy hmuted.streamFree hclosed fd

end SilencerWorld

theorem SameState.refl (w : SilencerWorld) : SameState w w := ⟨⟨fun _ => rfl, rfl, rfl⟩, rfl⟩

theorem SameState.trans {w w' w'' : SilencerWorld} (h : SameState w w') (h' : SameState w' w'') : SameState w w'' :=
  ⟨⟨fun fd => (h.fds fd).trans (h'.fds fd), h.cout.trans h'.cout, h.cerr.trans h'.cerr⟩,
    h.silencers.trans h'.silencers⟩

theorem Audible.same {w w' : SilencerWorld} (h : Audible w') (hsame : SameState w w') : Audible w :=
  ⟨by rw [hsame.fds]; exact h.stdout, by rw [hsame.fds]; exact h.stderr, by rw [hsame.cout]; exact h.cout⟩

/-- The destructor of an object whose `stop` has reset it does no more than `stop`. -/
theorem SilencerWorld.destroy_same {w : SilencerWorld} {i : Nat} (hidle : (w.stop i).silencers i = {}) :
    SameState (w.destroy i) (w.stop i) := by
  unfold destroy
  dsimp only
  rw [hidle]
  refine ⟨⟨fun _ => rfl, rfl, rfl⟩, ?_⟩
  show Function.update (w.stop i).silencers i {} = (w.stop i).silencers
  rw [← hidle, Function.update_eq_self]

/-- The state is that after the `silence` of the last object, which was called in the state
that was tracked then. -/
inductive Tracks (start : SilencerWorld) : SilencerWorld → List (Nat × SilencerWorld) → Prop
  | start {w} (hsame : SameState w start) : Tracks start w []
  | cons {w w₀ w' pending i s} (h : Tracks start w₀ pending) (hfree : i ∉ pending.map Prod.fst)
      (hmuted : Muted w₀ w' i s) (hsame : SameState w w') : Tracks start w ((i, w₀) :: pending)

namespace Tracks

variable {start w w' : SilencerWorld} {pending : List (Nat × SilencerWorld)} {i : Nat}

theorem same (h : Tracks start w pending) (hsame : SameState w' w) : Tracks start w' pending := by
  cases h with
  | start hstart => exact .start (hsame.trans hstart)
  | cons hbefore hfree hmuted hlast => exact .cons hbefore hfree hmuted (hsame.trans hlast)

theorem audible (h : Tracks start w pending) (haudible : Audible start) : Audible w := by
  cases h with
  | start hsame => exact haudible.same hsame
  | cons _ _ hmuted hsame => exact hmuted.audible.same hsame

theorem active (h : Tracks start w pending) (haudible : Audible start) :
    ∀ i, i ∈ pending.map Prod.fst → (w.silencers i).saved_cout.isSome = true := by
  induction h with
  | start hsame =>
    intro i hi
    cases hi
  | @cons w w₀ w' pending i s h hfree hmuted hsame ih =>
    intro j hj
    rw [hsame.silencers, hmuted.silencers]
    by_cases hj' : j = i
    · rw [hj', Function.update_self, hmuted.saved_cout]
      exact (h.audible haudible).cout
    · rw [Function.update_of_ne hj']
      exact ih j ((List.mem_cons.mp hj).resolve_left hj')

variable (hidle : ∀ i, start.silencers i = {})

include hidle

theorem idle (h : Tracks start w pending) : ∀ i, i ∉ pending.map Prod.fst → w.silencers i = {} := by
  induction h with
  | start hsame =>
    intro i _
    rw [hsame.silencers]
    exact hidle i
  | cons _ _ hmuted hsame ih =>
    intro j hj
    obtain ⟨hne, hrest⟩ := not_or.mp fun h => hj (List.mem_cons.mpr h)
    rw [hsame.silencers, hmuted.silencers, Function.update_of_ne hne]
    exact ih j hrest

/-- Stopping the last object leads back to the state at its `silence`. -/
theorem stop_last {w₀ : SilencerWorld} (h : Tracks start w ((i, w₀) :: pending)) (haudible : Audible start) :
    SameState (w.stop i) w₀ ∧ SameState (w.destroy i) w₀ ∧ Tracks start w₀ pending := by
  cases h with
  | cons hbefore hfree hmuted hsame =>
    have hfirst := hbefore.idle hidle i hfree
    have hstop := SilencerWorld.stop_muted (hbefore.audible haudible) hfirst hmuted hsame
    have hreset : (w.stop i).silencers i = {} := by rw [hstop.silencers, hfirst]
    exact ⟨hstop, (SilencerWorld.destroy_same hreset).trans hstop, hbefore⟩

theorem stop_again (h : Tracks start w pending) (hfree : i ∉ pending.map Prod.fst) :
    w.stop i = w ∧ SameState (w.destroy i) w := by
  have hfirst := h.idle hidle i hfree
  have hstop := SilencerWorld.stop_again hfirst
  have hreset : (w.stop i).silencers i = {} := by rw [hstop, hfirst]
  have hdestroy := SilencerWorld.destroy_same hreset
  rw [hstop] at hdestroy
  exact ⟨hstop, hdestroy⟩

theorem undoneExactly (h : Tracks start w pending) (haudible : Audible start) : UndoneExactly w pending where
  stop i w₀ hhead := by
    obtain ⟨rest, rfl⟩ := List.head?_eq_some_iff.mp hhead
    obtain ⟨hstop, hdestroy, _⟩ := h.stop_last hidle haudible
    exact ⟨hstop.toSameOutputs, hdestroy.toSameOutputs⟩
  silenceAgain i hi _ _ := SilencerWorld.silence_again (h.active haudible i hi)
  stopAgain i hi := by
    obtain ⟨hstop, hdestroy⟩ := h.stop_again hidle hi
    exact ⟨hstop, hdestroy.toSameOutputs⟩

end Tracks

/-- What one operation leaves is tracked again. -/
theorem SilencerRun.tracks {start w : SilencerWorld} {pending : List (Nat × SilencerWorld)}
    (h : SilencerRun start w pending) (haudible : Audible start) (hidle : ∀ i, start.silencers i = {}) :
    Tracks start w pending := by
  induction h with
  | start => exact .start (.refl start)
  | silence i streamOpens nullOpens _ hfree ih =>
    obtain ⟨s, hmuted⟩ := SilencerWorld.silence_muted (ih.audible haudible) (ih.idle hidle i hfree) streamOpens nullOpens
    exact .cons ih hfree hmuted (.refl _)
  | silenceAgain i streamOpens nullOpens _ hpending ih =>
    rw [SilencerWorld.silence_again (ih.active haudible i hpending)]
    exact ih
  | stop i _ ih =>
    obtain ⟨hstop, _, hbefore⟩ := ih.stop_last hidle haudible
    exact hbefore.same hstop
  | stopAgain i _ hfree ih => exact ih.same (by rw [(ih.stop_again hidle hfree).1]; exact .refl _)
  | destroy i _ ih =>
    obtain ⟨_, hdestroy, hbefore⟩ := ih.stop_last hidle haudible
    exact hbefore.same hdestroy
  | destroyAgain i _ hfree ih => exact ih.same (ih.stop_again hidle hfree).2

/-- If both standard descriptors are open when a run starts, and `std::cout` has a buffer,
silencing is undone exactly in every state of the run. -/
theorem silencing_undone {start w : SilencerWorld} {pending : List (Nat × SilencerWorld)} (haudible : Audible start)
    (hidle : ∀ i, start.silencers i = {}) (h : SilencerRun start w pending) : UndoneExactly w pending :=
  (h.tracks haudible hidle).undoneExactly hidle haudible

/-- A process with the descriptors 0 to `n - 1`. -/
def startedWith (n : Nat) : SilencerWorld where
  fds := (List.range n).map some
  opened := n
  cout := some (.other 0)
  cerr := some (.other 1)
  silencers _ := {}

theorem silencing_undone_nested :
    UndoneExactly (((startedWith 3).silence 0 true true).silence 1 true false)
      [(1, (startedWith 3).silence 0 true true), (0, startedWith 3)] := by
  have haudible : Audible (startedWith 3) := ⟨⟨1, rfl⟩, ⟨2, rfl⟩, rfl⟩
  have houter := SilencerRun.silence 0 true true (@SilencerRun.start (startedWith 3)) (by decide)
  exact silencing_undone haudible (fun _ => rfl) (.silence 1 true false houter (by decide))

/-- Without a descriptor 2 the stream takes this number. All calls succeed, and the
descriptor is open afterwards. -/
theorem closed_stderr_reopened :
    ((startedWith 2).silence 0 true true).silencers 0 =
      { saved_cout := some (.other 0), saved_cerr := some (.other 1), null_stream := some 2,
        saved_stdout_fd := some 4, saved_stderr_fd := some 5, null_fd := some 3 } ∧
    (startedWith 2).fds.file 2 = none ∧
    (((startedWith 2).silence 0 true true).stop 0).fds.file 2 = some 2 ∧
    ¬ ∀ w pending, SilencerRun (startedWith 2) w pending → UndoneExactly w pending := by
  refine ⟨rfl, rfl, rfl, fun h => ?_⟩
  have hrun := SilencerRun.silence 0 true true (@SilencerRun.start (startedWith 2)) (by decide)
  have hsame := ((h _ _ hrun).stop 0 (startedWith 2) rfl).1.fds 2
  cases hsame

end PartitionManager
