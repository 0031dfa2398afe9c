import PartitionManager.FileCalls

namespace PartitionManager

/-- A cell of a buffer. -/
def cell (tmp : List Char) (i : Nat) : Outcome Char :=
  (tmp[i]?).elim (.error (.undefined .indexOutOfRange)) .ok

def setCell (tmp : List Char) (i : Nat) (c : Char) : Outcome (List Char) :=
  if i < tmp.length then .ok (tmp.set i c) else .error (.undefined .indexOutOfRange)

/-- What is read from the start of a buffer on, up to the zero. -/
def cString (tmp : List Char) : Outcome Str :=
  if tmp.all (· ≠ '\x00') then .error (.undefined .indexOutOfRange) else .ok (path_c_str tmp)

/-- `char tmp[PATH_MAX]`. -/
abbrev PathBuffer := { tmp : List Char // tmp.length = PATH_MAX }

theorem snprintf_length (tmp : PathBuffer) (text : Str) :
    (text.take (PATH_MAX - 1) ++ '\x00' :: tmp.1.drop ((text.take (PATH_MAX - 1)).length + 1)).length = PATH_MAX := by
  have htmp := tmp.2
  unfold PATH_MAX at htmp ⊢
  simp only [List.length_append, List.length_take, List.length_cons, List.length_drop]
  omega

/-- `snprintf(tmp, sizeof(tmp), "%s", text)`. -/
def snprintf (tmp : PathBuffer) (text : Str) : PathBuffer :=
  ⟨text.take (PATH_MAX - 1) ++ '\x00' :: tmp.1.drop ((text.take (PATH_MAX - 1)).length + 1),
    snprintf_length tmp text⟩

/-- A text that is shorter is not cut. -/
theorem snprintf_eq (tmp : PathBuffer) {text : Str} (hshort : text.length < PATH_MAX) :
    (snprintf tmp text).1 = text ++ '\x00' :: tmp.1.drop (text.length + 1) := by
  show text.take (PATH_MAX - 1) ++ _ = _
  rw [List.take_of_length_le (by omega)]

section

variable (fails : Nat → Bool)

/-- The two calls for one leading part of the path. `false` is to return. -/
def ensureDirectory (tmp : Str) (w : FileWorld) : Bool × FileWorld :=
  match w.access fails tmp with
  | (some _, w) => (true, w)
  | (none, w) =>
    match w.mkdir fails tmp with
    | (.ok _, w) => (true, w)
    | (.error errno, w) => (errno = EEXIST, w)

/-- The loop over the buffer, with so many cells from `p` on. Gives the buffer that it leaves, or
nothing where it returns false. -/
def prefixLoop : Nat → Nat → List Char → FileWorld → Outcome (Option (List Char) × FileWorld)
  | 0, _, _, _ => .error (.undefined .indexOutOfRange)
  | cells + 1, p, tmp, w => do
    let c ← cell tmp p
    if c = '\x00' then .ok (some tmp, w)
    else if c = '/' then do
      let cut ← setCell tmp p '\x00'
      let path ← cString cut
      let r := ensureDirectory fails path w
      if r.1 then do
        let tmp ← setCell cut p '/'
        prefixLoop cells (p + 1) tmp r.2
      else .ok (none, r.2)
    else prefixLoop cells (p + 1) tmp w

/-- `stack` is what the buffer holds before it is written to. -/
def makeRecursiveDirectory (abi : Abi) (stack : PathBuffer) (paths : Str) (w : FileWorld) :
    Outcome (Bool × FileWorld) := do
  let tmp := (snprintf stack (path_c_str paths)).1
  let text ← cString tmp
  let last := abi.toSize ((text.length : Int) - 1)
  let c ← cell tmp last
  let tmp ← if c = '/' then setCell tmp last '\x00' else .ok tmp
  let r ← prefixLoop fails (PATH_MAX - 1) 1 tmp w
  match r with
  | (none, w) => .ok (false, w)
  | (some tmp, w) => do
    let text ← cString tmp
    .ok (ensureDirectory fails text w)

/-- A path without its last slash. -/
def withoutSlash (text : Str) : Str := if text.getLast? = some '/' then text.dropLast else text

/-- The leading parts of `before ++ rest` that end before a slash of `rest`. -/
def leadsFrom (before : Str) : Str → List Str
  | [] => []
  | c :: rest => (if c = '/' then [before] else []) ++ leadsFrom (before ++ [c]) rest

/-- The paths of the ancestors. A slash at the start is none of them. -/
def ancestors (text : Str) : List Str := leadsFrom (text.take 1) (text.drop 1)

def ensureAll : List Str → FileWorld → Bool × FileWorld
  | [], w => (true, w)
  | path :: paths, w =>
    let r := ensureDirectory fails path w
    if r.1 then ensureAll paths r.2 else (false, r.2)

/-- Makes the ancestors, then the directory itself. -/
def ensurePath (text : Str) (w : FileWorld) : Bool × FileWorld :=
  let r := ensureAll fails (ancestors text) w
  if r.1 then ensureDirectory fails text r.2 else (false, r.2)

end

section

variable {fails : Nat → Bool} {before rest after : List Char} {c : Char} {w : FileWorld}

theorem cell_append : cell (before ++ c :: after) before.length = .ok c := by
  unfold cell
  rw [List.getElem?_append_right le_rfl, Nat.sub_self]
  rfl

theorem setCell_append (d : Char) :
    setCell (before ++ c :: after) before.length d = .ok (before ++ d :: after) := by
  unfold setCell
  rw [if_pos (by simp), List.set_append_right _ _ le_rfl, Nat.sub_self, List.set_cons_zero]

theorem cString_append (hbefore : ∀ x ∈ before, x ≠ '\x00') :
    cString (before ++ '\x00' :: after) = .ok before := by
  have hzero : ¬ (before ++ '\x00' :: after).all (· ≠ '\x00') = true := by
    rw [List.all_eq_true]
    intro h
    exact absurd (h '\x00' (List.mem_append_right _ List.mem_cons_self)) (by decide)
  unfold cString path_c_str
  rw [if_neg hzero, List.takeWhile_append_of_pos (by simpa using hbefore)]
  simp

theorem prefixLoop_end (cells : Nat) :
    prefixLoop fails (cells + 1) before.length (before ++ '\x00' :: after) w =
      .ok (some (before ++ '\x00' :: after), w) := by
  rw [prefixLoop, cell_append]
  rfl

/-- The buffer is cut, used and put together again for every leading part. -/
theorem prefixLoop_eq (cells : Nat) (hcells : rest.length < cells)
    (hzero : ∀ x ∈ before ++ rest, x ≠ '\x00') :
    prefixLoop fails cells before.length (before ++ (rest ++ '\x00' :: after)) w =
      .ok (if (ensureAll fails (leadsFrom before rest) w).1 then some (before ++ (rest ++ '\x00' :: after)) else none,
        (ensureAll fails (leadsFrom before rest) w).2) := by
  induction rest generalizing before cells w with
  | nil =>
    obtain ⟨cells, rfl⟩ := Nat.exists_eq_succ_of_ne_zero (Nat.ne_of_gt hcells)
    exact prefixLoop_end cells
  | cons c rest ih =>
    obtain ⟨cells, rfl⟩ := Nat.exists_eq_succ_of_ne_zero (Nat.ne_of_gt (Nat.zero_lt_of_lt hcells))
    have hc : c ≠ '\x00' := hzero c (List.mem_append_right _ List.mem_cons_self)
    have hbefore : ∀ x ∈ before, x ≠ '\x00' := fun x hx => hzero x (List.mem_append_left _ hx)
    have hnext : ∀ w, prefixLoop fails cells (before.length + 1) (before ++ c :: (rest ++ '\x00' :: after)) w =
        .ok (if (ensureAll fails (leadsFrom (before ++ [c]) rest) w).1 then
            some (before ++ c :: (rest ++ '\x00' :: after)) else none,
          (ensureAll fails (leadsFrom (before ++ [c]) rest) w).2) := by
      intro w
      have hih := @ih (before ++ [c]) w cells (Nat.lt_of_succ_lt_succ hcells)
        (by rw [List.append_assoc]; exact hzero)
      rwa [List.length_append, List.append_assoc] at hih
    rw [List.cons_append, prefixLoop, cell_append]
    dsimp only [bind, Except.bind]
    rw [if_neg hc, leadsFrom]
    by_cases hslash : c = '/'
    · subst hslash
      rw [if_pos rfl, setCell_append]
      dsimp only
      rw [cString_append hbefore]
      dsimp only
      rw [if_pos rfl, List.singleton_append, ensureAll]
      cases hensure : (ensureDirectory fails before w).1 with
      | false => rfl
      | true =>
        rw [if_pos rfl, setCell_append, if_pos rfl]
        exact hnext _
    · rw [if_neg hslash, if_neg hslash, List.nil_append]
      exact hnext w

/-- The loop begins behind the first character. What stands there when there is none is a zero as well. -/
theorem prefixLoop_ancestors {text : Str} (hzero : ∀ x ∈ text, x ≠ '\x00') (hshort : text.length < PATH_MAX)
    (hempty : text = [] → after.head? = some '\x00') :
    prefixLoop fails (PATH_MAX - 1) 1 (text ++ '\x00' :: after) w =
      .ok (if (ensureAll fails (ancestors text) w).1 then some (text ++ '\x00' :: after) else none,
        (ensureAll fails (ancestors text) w).2) := by
  cases text with
  | nil =>
    obtain ⟨tail, rfl⟩ := List.head?_eq_some_iff.mp (hempty rfl)
    exact @prefixLoop_end fails ['\x00'] tail w (PATH_MAX - 2)
  | cons c rest =>
    rw [List.length_cons] at hshort
    exact @prefixLoop_eq fails [c] rest after w (PATH_MAX - 1) (by omega) hzero

/-- What follows once the buffer holds the path without its last slash. -/
theorem prefixLoop_then {text : Str} (hzero : ∀ x ∈ text, x ≠ '\x00') (hshort : text.length < PATH_MAX)
    (hempty : text = [] → after.head? = some '\x00') :
    (do
      let r ← prefixLoop fails (PATH_MAX - 1) 1 (text ++ '\x00' :: after) w
      match r with
      | (none, w) => .ok (false, w)
      | (some tmp, w) => do
        let text ← cString tmp
        .ok (ensureDirectory fails text w)) = (.ok (ensurePath fails text w) : Outcome (Bool × FileWorld)) := by
  rw [prefixLoop_ancestors hzero hshort hempty]
  unfold ensurePath
  dsimp only [bind, Except.bind]
  cases hall : (ensureAll fails (ancestors text) w).1 with
  | false => rfl
  | true =>
    rw [if_pos rfl, if_pos rfl]
    dsimp only
    rw [cString_append hzero]

theorem toSize_pred {abi : Abi} {n : Nat} (hpos : 0 < n) (h : n < PATH_MAX) :
    abi.toSize ((n : Int) - 1) = n - 1 := by
  have hmax : PATH_MAX ≤ 2 ^ abi.bits := by cases abi <;> decide
  have hcast : (n : Int) - 1 = ((n - 1 : Nat) : Int) := by omega
  rw [hcast, Abi.toSize_natCast (by omega)]

theorem makeRecursiveDirectory_eq (abi : Abi) (stack : PathBuffer) {paths : Str} (w : FileWorld)
    (hne : path_c_str paths ≠ []) (hshort : (path_c_str paths).length < PATH_MAX) :
    makeRecursiveDirectory fails abi stack paths w =
      .ok (ensurePath fails (withoutSlash (path_c_str paths)) w) := by
  have hzero : ∀ x ∈ path_c_str paths, x ≠ '\x00' := fun x hx => by simpa using List.mem_takeWhile_imp hx
  obtain ⟨init, d, htext⟩ := (List.eq_nil_or_concat' (path_c_str paths)).resolve_left hne
  rw [htext] at hzero hshort ⊢
  have hinit : ∀ x ∈ init, x ≠ '\x00' := fun x hx => hzero x (List.mem_append_left _ hx)
  unfold makeRecursiveDirectory
  rw [htext, snprintf_eq stack hshort]
  rw [List.length_append, List.length_singleton] at hshort
  dsimp only [bind, Except.bind]
  rw [cString_append hzero]
  dsimp only
  rw [List.length_append, List.length_singleton, toSize_pred (n := init.length + 1) (Nat.succ_pos _) hshort,
    Nat.add_sub_cancel, List.append_assoc, List.singleton_append, cell_append]
  dsimp only
  unfold withoutSlash
  rw [List.getLast?_concat, List.dropLast_concat]
  by_cases hslash : d = '/'
  · subst hslash
    rw [if_pos rfl, if_pos rfl, setCell_append]
    exact prefixLoop_then hinit (by omega) fun _ => rfl
  · rw [if_neg hslash, if_neg (fun h => hslash (Option.some.inj h))]
    have hthen := @prefixLoop_then fails (stack.1.drop (init.length + 1 + 1)) w (init ++ [d]) hzero
      (by simpa using hshort) (fun h => absurd h (List.concat_ne_nil d init))
    rwa [List.append_assoc, List.singleton_append] at hthen

/-- Of an empty path the cell before the buffer is read. -/
theorem makeRecursiveDirectory_empty (abi : Abi) (stack : PathBuffer) {paths : Str} (w : FileWorld)
    (hempty : path_c_str paths = []) :
    makeRecursiveDirectory fails abi stack paths w = .error (.undefined .indexOutOfRange) := by
  have hbuffer : (snprintf stack []).1 = [] ++ '\x00' :: stack.1.drop 1 := snprintf_eq stack (by decide)
  have hlength : (snprintf stack []).1.length ≤ abi.toSize (((0 : Nat) : Int) - 1) := by
    rw [(snprintf stack []).2]
    cases abi <;> decide
  have hcell : cell (snprintf stack []).1 (abi.toSize (((0 : Nat) : Int) - 1)) =
      .error (.undefined .indexOutOfRange) := by
    unfold cell
    rw [List.getElem?_eq_none hlength]
    rfl
  have htext : cString (snprintf stack []).1 = .ok [] := by
    rw [hbuffer]
    exact cString_append (by simp)
  unfold makeRecursiveDirectory
  rw [hempty]
  dsimp only [bind, Except.bind]
  rw [htext]
  dsimp only [List.length_nil]
  rw [hcell]

end

/-- A leading part of a path, up to its end or to a slash. -/
def IsLead (lead path : Str) : Prop :=
  lead ≠ [] ∧ ∃ rest, path = lead ++ rest ∧ (rest = [] ∨ rest.head? = some '/')

/-- What is new in a tree are directories that leading parts of a path stand for. -/
structure MadeFor (path : Str) (t t' : FileTree) : Prop where
  kept : t ≤ t'
  made : ∀ p, t.kind p = none → t'.kind p ≠ none →
    t'.kind p = some .directory ∧ ∃ lead, IsLead lead path ∧ t'.resolve lead = some p

/-- A call stays in its buffer, makes nothing but missing ancestors and the directory itself,
changes nothing that is there, and returns true only for a directory. -/
structure MakesDirectory (abi : Abi) (fails : Nat → Bool) (stack : PathBuffer) (paths : Str) (w : FileWorld) :
    Prop where
  inRange : ∃ r, makeRecursiveDirectory fails abi stack paths w = .ok r
  made : ∀ r, makeRecursiveDirectory fails abi stack paths w = .ok r →
    MadeFor (path_c_str paths) w.tree r.2.tree
  named : ∀ w', makeRecursiveDirectory fails abi stack paths w = .ok (true, w') →
    w'.tree.stat (path_c_str paths) = some .directory

/-- The last two calls find a directory or nothing under the path, unless they fail. -/
def LeadsToDirectory (fails : Nat → Bool) (path : Str) (w : FileWorld) : Prop :=
  (fails w.calls = false → ∀ k, w.tree.stat path = some k → k = .directory) ∧
    (fails (w.calls + 1) = false → w.tree.isTaken path = true → w.tree.stat path = some .directory)

section

variable {fails : Nat → Bool} {path : Str} {w : FileWorld} {t t' t'' : FileTree}

theorem MadeFor.refl (path : Str) (t : FileTree) : MadeFor path t t :=
  ⟨le_rfl, fun _ hnone hsome => absurd hnone hsome⟩

theorem MadeFor.trans (h : MadeFor path t t') (h' : MadeFor path t' t'') : MadeFor path t t'' := by
  refine ⟨le_trans h.kept h'.kept, fun p hnone hsome => ?_⟩
  by_cases hp : t'.kind p = none
  · exact h'.made p hp hsome
  · obtain ⟨hk, lead, hlead, hresolve⟩ := h.made p hnone hp
    exact ⟨h'.kept.2.2 _ _ hk, lead, hlead, FileTree.resolve_mono h'.kept hresolve⟩

theorem MadeFor.mkdir {lead : Str} (hlead : IsLead lead path) (h : t.mkdir lead = some t') : MadeFor path t t' := by
  obtain ⟨hle, q, hresolve, hkind⟩ := FileTree.mkdir_adds h
  refine ⟨hle, fun p hnone hsome => ?_⟩
  rw [hkind] at hsome ⊢
  split
  next heq => exact ⟨rfl, lead, hlead, heq ▸ hresolve⟩
  next hne =>
    rw [if_neg hne] at hsome
    exact absurd hnone hsome

/-- What the two calls can come to. -/
inductive Ensured (fails : Nat → Bool) (path : Str) (w : FileWorld) : Bool × FileWorld → Prop where
  | found {k : EntryKind} {w' : FileWorld} (hcall : fails w.calls = false) (hstat : w.tree.stat path = some k)
      (hsame : w'.tree = w.tree) : Ensured fails path w (true, w')
  | made {w' : FileWorld} (hmissing : fails w.calls = false → w.tree.stat path = none)
      (hmkdir : w.tree.mkdir path = some w'.tree) : Ensured fails path w (true, w')
  | taken {w' : FileWorld} (hcall : fails (w.calls + 1) = false) (htaken : w.tree.isTaken path = true)
      (hsame : w'.tree = w.tree) : Ensured fails path w (true, w')
  | failed {w' : FileWorld} (hmissing : fails w.calls = false → w.tree.stat path = none)
      (hfailed : fails (w.calls + 1) = false → w.tree.isTaken path = false)
      (hsame : w'.tree = w.tree) : Ensured fails path w (false, w')

theorem ensureDirectory_ensured (path : Str) (w : FileWorld) :
    Ensured fails path w (ensureDirectory fails path w) := by
  have haccess : w.access fails path = (if fails w.calls then none else w.tree.stat path, w.tick) := rfl
  unfold ensureDirectory
  rw [haccess]
  cases hstat : (if fails w.calls then none else w.tree.stat path) with
  | some k =>
    split at hstat
    next => cases hstat
    next hcall => exact .found (Bool.eq_false_iff.mpr hcall) hstat rfl
  | none =>
    have hmissing : fails w.calls = false → w.tree.stat path = none := by
      intro hcall
      rwa [hcall, if_neg Bool.noConfusion] at hstat
    dsimp only
    unfold FileWorld.mkdir
    dsimp only
    cases hchange : w.tick.change fails (·.mkdir path) with
    | mk ok w' =>
      rcases FileWorld.change_cases hchange with ⟨rfl, hsame⟩ | ⟨rfl, hmkdir⟩
      · rw [if_neg Bool.noConfusion]
        have hcalls : w.tick.calls = w.calls + 1 := rfl
        dsimp only
        rw [hcalls]
        cases hcall : fails (w.calls + 1) with
        | true => exact .failed hmissing (fun h => by rw [hcall] at h; cases h) hsame
        | false =>
          cases htaken : w.tree.isTaken path with
          | true =>
            have hexist : w.tick.tree.isTaken path = true := htaken
            rw [hexist]
            exact .taken hcall htaken hsame
          | false =>
            have hexist : w.tick.tree.isTaken path = false := htaken
            rw [hexist]
            exact .failed hmissing (fun _ => htaken) hsame
      · rw [if_pos rfl]
        exact .made hmissing hmkdir

variable {r : Bool × FileWorld}

theorem Ensured.madeFor {lead : Str} (h : Ensured fails lead w r) (hlead : lead ≠ [] → IsLead lead path) :
    MadeFor path w.tree r.2.tree := by
  cases h with
  | found _ _ hsame => exact hsame ▸ .refl path _
  | made _ hmkdir =>
    refine .mkdir (hlead ?_) hmkdir
    rintro rfl
    cases hmkdir
  | taken _ _ hsame => exact hsame ▸ .refl path _
  | failed _ _ hsame => exact hsame ▸ .refl path _

theorem Ensured.leadsToDirectory_iff (h : Ensured fails path w r) :
    LeadsToDirectory fails path w ↔ (r.1 = true → r.2.tree.stat path = some .directory) := by
  cases h with
  | found hcall hstat hsame =>
    rw [hsame]
    constructor
    · rintro ⟨hfound, _⟩ _
      rw [hstat, hfound hcall _ hstat]
    · intro hdir
      refine ⟨fun _ k hk => ?_, fun _ _ => hdir rfl⟩
      rw [hdir rfl] at hk
      exact (Option.some.inj hk).symm
  | made hmissing hmkdir =>
    obtain ⟨_, q, hresolve, hkind⟩ := FileTree.mkdir_adds hmkdir
    refine iff_of_true ⟨fun hcall k hk => ?_, fun _ htaken => ?_⟩ fun _ => ?_
    · rw [hmissing hcall] at hk
      cases hk
    · rw [FileTree.isTaken_of_mkdir hmkdir] at htaken
      cases htaken
    · exact FileTree.stat_of_resolve hresolve (by rw [hkind, if_pos rfl])
  | taken hcall htaken hsame =>
    rw [hsame]
    constructor
    · rintro ⟨_, hexist⟩ _
      exact hexist hcall htaken
    · intro hdir
      refine ⟨fun _ k hk => ?_, fun _ _ => hdir rfl⟩
      rw [hdir rfl] at hk
      exact (Option.some.inj hk).symm
  | failed hmissing hfailed _ =>
    refine iff_of_true ⟨fun hcall k hk => ?_, fun hcall htaken => ?_⟩ (by rintro ⟨⟩)
    · rw [hmissing hcall] at hk
      cases hk
    · rw [hfailed hcall] at htaken
      cases htaken

theorem ensureAll_madeFor (paths : List Str) (hpaths : ∀ lead ∈ paths, IsLead lead path) (w : FileWorld) :
    MadeFor path w.tree (ensureAll fails paths w).2.tree := by
  induction paths generalizing w with
  | nil => exact .refl path _
  | cons lead paths ih =>
    obtain ⟨hlead, hrest⟩ := List.forall_mem_cons.mp hpaths
    have hfirst := (@ensureDirectory_ensured fails lead w).madeFor fun _ => hlead
    rw [ensureAll]
    split
    next => exact hfirst.trans (ih hrest _)
    next => exact hfirst

theorem isLead_of_mem_leadsFrom {before rest lead : Str} (hbefore : before ≠ [])
    (h : lead ∈ leadsFrom before rest) : IsLead lead (before ++ rest) := by
  induction rest generalizing before with
  | nil => exact absurd h List.not_mem_nil
  | cons c rest ih =>
    rw [leadsFrom] at h
    rcases List.mem_append.mp h with h | h
    · split at h
      next hslash =>
        obtain rfl := List.mem_singleton.mp h
        exact ⟨hbefore, c :: rest, rfl, Or.inr (by rw [List.head?_cons, hslash])⟩
      next => exact absurd h List.not_mem_nil
    · have hlead := ih (List.concat_ne_nil c before) h
      rwa [List.append_assoc] at hlead

theorem isLead_of_mem_ancestors {text lead : Str} (h : lead ∈ ancestors text) : IsLead lead text := by
  cases text with
  | nil => exact absurd h List.not_mem_nil
  | cons c rest => exact isLead_of_mem_leadsFrom (List.cons_ne_nil c []) h

/-- The path with a slash at its end has the leading parts of the path without it. -/
theorem IsLead.of_withoutSlash {lead text : Str} (h : IsLead lead (withoutSlash text)) : IsLead lead text := by
  unfold withoutSlash at h
  split at h
  next hlast =>
    obtain ⟨hlead, rest, htext, hrest⟩ := h
    have hfull := (List.dropLast_append_getLast? _ hlast).symm
    rw [htext, List.append_assoc] at hfull
    refine ⟨hlead, rest ++ ['/'], hfull, Or.inr ?_⟩
    rcases hrest with rfl | hrest
    · rfl
    · rw [List.head?_append, hrest]
      rfl
  next => exact h

theorem stat_withoutSlash {text : Str} (h : withoutSlash text ≠ []) :
    t.stat text = some .directory ↔ t.stat (withoutSlash text) = some .directory := by
  unfold withoutSlash at h ⊢
  split at h
  next hlast =>
    rw [if_pos hlast, ← FileTree.stat_concat_slash h]
    rw [List.dropLast_append_getLast? _ hlast]
  next hlast => rw [if_neg hlast]

theorem ensurePath_madeFor (text : Str) (w : FileWorld) :
    MadeFor text w.tree (ensurePath fails (withoutSlash text) w).2.tree := by
  have hancestors := @ensureAll_madeFor fails text (ancestors (withoutSlash text))
    (fun _ hlead => (isLead_of_mem_ancestors hlead).of_withoutSlash) w
  unfold ensurePath
  dsimp only
  split
  next =>
    refine hancestors.trans ((ensureDirectory_ensured _ _).madeFor fun hne => ?_)
    have hself : IsLead (withoutSlash text) (withoutSlash text) := ⟨hne, [], (List.append_nil _).symm, Or.inl rfl⟩
    exact hself.of_withoutSlash
  next => exact hancestors

theorem make_directory_iff (abi : Abi) (fails : Nat → Bool) (stack : PathBuffer) (w : FileWorld) {paths : Str}
    (hshort : (path_c_str paths).length < PATH_MAX) :
    MakesDirectory abi fails stack paths w ↔
      path_c_str paths ≠ [] ∧
        ∀ w₁, ensureAll fails (ancestors (withoutSlash (path_c_str paths))) w = (true, w₁) →
          LeadsToDirectory fails (withoutSlash (path_c_str paths)) w₁ := by
  constructor
  · intro h
    have hne : path_c_str paths ≠ [] := by
      intro hempty
      obtain ⟨r, hr⟩ := h.inRange
      rw [makeRecursiveDirectory_empty abi stack w hempty] at hr
      cases hr
    refine ⟨hne, fun w₁ hall => ?_⟩
    by_cases hnil : withoutSlash (path_c_str paths) = []
    · rw [hnil]
      refine ⟨?_, ?_⟩
      · rintro _ _ ⟨⟩
      · rintro _ ⟨⟩
    · refine (ensureDirectory_ensured _ _).leadsToDirectory_iff.mpr fun htrue => ?_
      have hrun := @makeRecursiveDirectory_eq fails abi stack paths w hne hshort
      unfold ensurePath at hrun
      rw [hall] at hrun
      dsimp only at hrun
      rw [if_pos rfl, ← Prod.mk.eta (p := ensureDirectory fails _ w₁), htrue] at hrun
      exact (stat_withoutSlash hnil).mp (h.named _ hrun)
  · rintro ⟨hne, hlast⟩
    have hrun := @makeRecursiveDirectory_eq fails abi stack paths w hne hshort
    refine ⟨⟨_, hrun⟩, fun r hr => ?_, fun w' hr => ?_⟩
    · rw [hrun] at hr
      rw [← Except.ok.inj hr]
      exact ensurePath_madeFor _ w
    · rw [hrun] at hr
      have hpath := Except.ok.inj hr
      unfold ensurePath at hpath
      dsimp only at hpath
      split at hpath
      next hall =>
        have hdir := (ensureDirectory_ensured _ _).leadsToDirectory_iff.mp (hlast _ (Prod.ext hall rfl))
        rw [hpath] at hdir
        have hstat := hdir rfl
        exact (stat_withoutSlash (FileTree.stat_eq_directory_iff.mp hstat).1).mpr hstat
      next => cases hpath

/-- A file, and a link to nothing. -/
def strayEntries : List (Place × EntryKind) := [(["f".toList], .regular), (["l".toList], .symlink "nowhere")]

theorem strayEntries_unique : (strayEntries.map Prod.fst).Nodup := by
  decide

theorem strayEntries_named : ∀ e ∈ strayEntries, e.1 ≠ [] ∧ ∀ name ∈ e.1, isEntryName name = true := by
  decide

theorem strayEntries_closed :
    ∀ e ∈ strayEntries, e.1.dropLast = [] ∨ (e.1.dropLast, .directory) ∈ strayEntries := by
  decide

def strayTree : FileTree := ⟨strayEntries, [], 40, strayEntries_unique, strayEntries_named, strayEntries_closed⟩

theorem clearStack_length : (List.replicate PATH_MAX '\x00').length = PATH_MAX := List.length_replicate

def clearStack : PathBuffer := ⟨List.replicate PATH_MAX '\x00', clearStack_length⟩

theorem make_directory_nested :
    MakesDirectory .arm64_v8a (fun _ => false) clearStack "a//b/" ⟨strayTree, 0⟩ := by
  refine (make_directory_iff _ _ _ _ (by decide)).mpr ⟨by decide, fun w₁ hall => ?_⟩
  have hmissing : (ensureAll (fun _ => false) (ancestors "a//b") ⟨strayTree, 0⟩).2.tree.stat "a//b" = none := by
    decide
  have hfree : (ensureAll (fun _ => false) (ancestors "a//b") ⟨strayTree, 0⟩).2.tree.isTaken "a//b" = false := by
    decide
  have hw₁ : (ensureAll (fun _ => false) (ancestors "a//b") ⟨strayTree, 0⟩).2 = w₁ := congrArg Prod.snd hall
  rw [hw₁] at hmissing hfree
  refine ⟨fun _ k hk => ?_, fun _ htaken => ?_⟩
  · exact absurd (hmissing.symm.trans hk) (Option.some_ne_none k).symm
  · exact absurd (hfree.symm.trans htaken) Bool.noConfusion

theorem not_makesDirectory {abi : Abi} {stack : PathBuffer} {paths : Str} (hne : path_c_str paths ≠ [])
    (hshort : (path_c_str paths).length < PATH_MAX)
    (htrue : (ensurePath fails (withoutSlash (path_c_str paths)) w).1 = true)
    (hstat : (ensurePath fails (withoutSlash (path_c_str paths)) w).2.tree.stat (path_c_str paths) ≠
      some .directory) : ¬ MakesDirectory abi fails stack paths w := by
  intro h
  have hrun := @makeRecursiveDirectory_eq fails abi stack paths w hne hshort
  exact hstat (h.named _ (hrun.trans (congrArg _ (Prod.ext htrue rfl))))

/-- True is returned for a file and for a link to nothing, and the cell before the buffer is read
for an empty path. -/
theorem file_taken_for_directory :
    ¬ MakesDirectory .arm64_v8a (fun _ => false) clearStack "f" ⟨strayTree, 0⟩ ∧
      ¬ MakesDirectory .arm64_v8a (fun _ => false) clearStack "l" ⟨strayTree, 0⟩ ∧
      ¬ MakesDirectory .arm64_v8a (fun _ => false) clearStack "" ⟨strayTree, 0⟩ := by
  refine ⟨?_, ?_, fun h => ?_⟩
  · exact not_makesDirectory (by decide) (by decide) (by decide) (by decide)
  · exact not_makesDirectory (by decide) (by decide) (by decide) (by decide)
  · obtain ⟨r, hr⟩ := h.inRange
    rw [makeRecursiveDirectory_empty _ _ _ rfl] at hr
    cases hr

end

end PartitionManager
