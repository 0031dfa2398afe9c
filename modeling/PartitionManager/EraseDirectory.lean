import PartitionManager.FileCalls

namespace PartitionManager

section

variable (fails : Nat → Bool)

def eraseEntry (entry : Str) (w : FileWorld) : Bool × FileWorld := w.remove fails (path_c_str entry)

/-- What the loop does with an entry of a kind that `lstat` has given. -/
def eraseKind (erase : Str → FileWorld → Option (Bool × FileWorld)) (fullpath : Str) (w : FileWorld) :
    EntryKind → Option (Bool × FileWorld)
  | .directory => erase fullpath w
  | .regular => some (eraseEntry fails fullpath w)
  | _ => some (w.unlink fails fullpath)

/-- The loop over `readdir`, which ends as well where `readdir` fails. `true` is to go on after it. -/
def eraseLoop (erase : Str → FileWorld → Option (Bool × FileWorld)) (directory : Str) :
    List Str → FileWorld → Option (Bool × FileWorld)
  | [], w => some (true, w.tick)
  | d_name :: rest, w =>
    if fails w.calls then some (true, w.tick)
    else if d_name = ".".toList ∨ d_name = "..".toList then eraseLoop erase directory rest w.tick
    else
      let fullpath := (directory ++ '/' :: d_name).take (PATH_MAX - 1)
      match w.tick.lstat fails fullpath with
      | (none, w) => some (false, w)
      | (some kind, w) =>
        (eraseKind fails erase fullpath w kind).bind fun r =>
          if r.1 then eraseLoop erase directory rest r.2 else some (false, r.2)

/-- `eraseDirectoryRecursive`, given up below `depth` levels. -/
def eraseDirectoryRecursive : Nat → Str → FileWorld → Option (Bool × FileWorld)
  | 0, _, _ => none
  | depth + 1, directory, w =>
    match w.opendir fails (path_c_str directory) with
    | (none, w) => some (false, w)
    | (some names, w) =>
      (eraseLoop fails (eraseDirectoryRecursive depth) (path_c_str directory) names w).bind fun r =>
        if r.1 then some (r.2.rmdir fails (path_c_str directory)) else some (false, r.2)

/-- A run ends, takes away nothing but what stands at `top` or below it, and leaves nothing of
that where it returns true. -/
structure ErasesInside (directory : Str) (top : Place) (w : FileWorld) : Prop where
  ends : ∃ depth r, eraseDirectoryRecursive fails depth directory w = some r
  inside : ∀ depth ok w', eraseDirectoryRecursive fails depth directory w = some (ok, w') →
    w.tree.RemovedBelow top w'.tree
  gone : ∀ depth w', eraseDirectoryRecursive fails depth directory w = some (true, w') →
    ∀ p, top <+: p → w'.tree.kind p = none

end

/-- In the tree from before the run, a path leads to a directory, and so do the paths that are
made below it, none of which is cut. -/
structure Target (t : FileTree) (path : Str) (top : Place) : Prop where
  leads : t.Leads path top
  nonempty : path ≠ []
  text : path_c_str path = path
  short : ∀ below, t.kind (top ++ below) ≠ none → (path ++ below.flatMap ('/' :: ·)).length < PATH_MAX

section

variable {fails : Nat → Bool} {t : FileTree} {path : Str} {top : Place} {name : List Char} {w w' : FileWorld}

theorem Target.fullpath (h : Target t path top) (hk : t.kind (top ++ [name]) ≠ none) :
    (path ++ '/' :: name).take (PATH_MAX - 1) = path ++ '/' :: name := by
  have hshort := h.short [name] hk
  rw [List.flatMap_singleton] at hshort
  exact List.take_of_length_le (by omega)

theorem Target.text_child (h : Target t path top) (hname : isEntryName name = true) :
    path_c_str (path ++ '/' :: name) = path ++ '/' :: name := by
  have htext := List.takeWhile_eq_self_iff.mp h.text
  simp only [isEntryName, Bool.and_eq_true, List.all_eq_true, bne_iff_ne] at hname
  refine List.takeWhile_eq_self_iff.mpr fun c hc => ?_
  rcases List.mem_append.mp hc with hc | hc
  · exact htext c hc
  · rcases List.mem_cons.mp hc with rfl | hc
    · decide
    · simpa using (hname.1.1.2 c hc).2

theorem Target.child (h : Target t path top) (hk : t.kind (top ++ [name]) = some .directory) :
    Target t (path ++ '/' :: name) (top ++ [name]) := by
  have hsome : t.kind (top ++ [name]) ≠ none := hk ▸ Option.some_ne_none _
  have hname := FileTree.isEntryName_of_kind hsome (List.mem_append_right top List.mem_cons_self)
  refine ⟨?_, List.append_ne_nil_of_left_ne_nil h.nonempty _, h.text_child hname, fun below hbelow => ?_⟩
  · have hlocate := (FileTree.locate_child h.nonempty hname).mpr
      ⟨top, h.leads, FileTree.kind_of_child hsome, rfl⟩
    exact FileTree.leads_of_locate hlocate hk
  · rw [List.append_assoc, List.singleton_append] at hbelow
    have hshort := h.short (name :: below) hbelow
    rw [List.flatMap_cons] at hshort
    simpa [List.append_assoc] using hshort

/-- What `lstat` sees under the path of a child is the child. -/
theorem Target.lstat (h : Target t path top) (hle : w.tree ≤ t) (hk : t.kind (top ++ [name]) ≠ none) {k : EntryKind}
    (hstat : w.lstat fails (path ++ '/' :: name) = (some k, w')) :
    w'.tree = w.tree ∧ w.tree.locate (path ++ '/' :: name) = some (top ++ [name]) ∧
      w.tree.kind (top ++ [name]) = some k := by
  have hname := FileTree.isEntryName_of_kind hk (List.mem_append_right top List.mem_cons_self)
  obtain ⟨hsame, hkind⟩ := FileWorld.ask_eq_some hstat
  have hentry := (FileTree.entryKind_child hname).symm.trans hkind
  obtain ⟨q, hq, hk'⟩ := Option.bind_eq_some_iff.mp hentry
  obtain ⟨p, hleads, _, rfl⟩ := (FileTree.locate_child h.nonempty hname).mp hq
  obtain rfl := (hleads.mono hle).unique h.leads
  exact ⟨hsame, hq, hk'⟩

/-- What the loop does with a child takes away nothing but what stands there or below it. -/
theorem Target.eraseKind_removes (h : Target t path top) {erase : Str → FileWorld → Option (Bool × FileWorld)}
    (herase : ∀ w r, Target t (path ++ '/' :: name) (top ++ [name]) → w.tree ≤ t →
      erase (path ++ '/' :: name) w = some r → w.tree.RemovedBelow (top ++ [name]) r.2.tree)
    (hle : w.tree ≤ t) (hlocate : w.tree.locate (path ++ '/' :: name) = some (top ++ [name])) {k : EntryKind}
    (hk : w.tree.kind (top ++ [name]) = some k) {r : Bool × FileWorld}
    (hrun : eraseKind fails erase (path ++ '/' :: name) w k = some r) :
    w.tree.RemovedBelow (top ++ [name]) r.2.tree := by
  have hk' := hle.2.2 _ _ hk
  cases k with
  | directory => exact herase w r (h.child hk') hle hrun
  | regular =>
    have hname := FileTree.isEntryName_of_kind (hk' ▸ Option.some_ne_none _)
      (List.mem_append_right top List.mem_cons_self)
    unfold eraseKind eraseEntry at hrun
    rw [h.text_child hname] at hrun
    exact FileWorld.remove_removed (Option.some.inj hrun) hlocate
  | symlink target => exact FileWorld.unlink_removed (Option.some.inj hrun) hlocate
  | other => exact FileWorld.unlink_removed (Option.some.inj hrun) hlocate

variable {erase : Str → FileWorld → Option (Bool × FileWorld)}

/-- One turn of the loop: it ends here, or goes on past an entry that is no child, or a child is erased. -/
theorem Target.eraseLoop_cons (h : Target t path top) (hle : w.tree ≤ t) (rest : List Str)
    (hname : name = ".".toList ∨ name = "..".toList ∨ t.kind (top ++ [name]) ≠ none) :
    (∃ ok w₁, w₁.tree = w.tree ∧ eraseLoop fails erase path (name :: rest) w = some (ok, w₁)) ∨
      eraseLoop fails erase path (name :: rest) w = eraseLoop fails erase path rest w.tick ∨
      ∃ k w₁, w₁.tree = w.tree ∧ w.tree.locate (path ++ '/' :: name) = some (top ++ [name]) ∧
        w.tree.kind (top ++ [name]) = some k ∧
        eraseLoop fails erase path (name :: rest) w = (eraseKind fails erase (path ++ '/' :: name) w₁ k).bind
          fun r => if r.1 then eraseLoop fails erase path rest r.2 else some (false, r.2) := by
  rw [eraseLoop]
  by_cases hfails : fails w.calls = true
  · rw [if_pos hfails]
    exact Or.inl ⟨true, w.tick, rfl, rfl⟩
  · rw [if_neg hfails]
    by_cases hdot : name = ".".toList ∨ name = "..".toList
    · rw [if_pos hdot]
      exact Or.inr (Or.inl rfl)
    · have hk : t.kind (top ++ [name]) ≠ none := by
        rw [not_or] at hdot
        exact (hname.resolve_left hdot.1).resolve_left hdot.2
      rw [if_neg hdot, h.fullpath hk]
      dsimp only
      cases hstat : w.tick.lstat fails (path ++ '/' :: name) with
      | mk answer w₁ =>
        cases answer with
        | none =>
          refine Or.inl ⟨false, w₁, ?_, rfl⟩
          have hw₁ : w.tick.tick = w₁ := congrArg Prod.snd hstat
          rw [← hw₁]
          rfl
        | some k =>
          obtain ⟨hsame, hlocate, hkind⟩ := h.lstat (w := w.tick) hle hk hstat
          exact Or.inr (Or.inr ⟨k, w₁, hsame, hlocate, hkind, rfl⟩)

theorem Target.eraseLoop_removes (h : Target t path top)
    (herase : ∀ name w r, Target t (path ++ '/' :: name) (top ++ [name]) → w.tree ≤ t →
      erase (path ++ '/' :: name) w = some r → w.tree.RemovedBelow (top ++ [name]) r.2.tree)
    (names : List Str) (hnames : ∀ n ∈ names, n = ".".toList ∨ n = "..".toList ∨ t.kind (top ++ [n]) ≠ none)
    (w : FileWorld) (hle : w.tree ≤ t) (r : Bool × FileWorld) (hrun : eraseLoop fails erase path names w = some r) :
    w.tree.RemovedBelow top r.2.tree := by
  induction names generalizing w with
  | nil =>
    rw [← Option.some.inj hrun]
    exact .refl top _
  | cons name rest ih =>
    obtain ⟨hname, hrest⟩ := List.forall_mem_cons.mp hnames
    rcases @Target.eraseLoop_cons fails t path top name w erase h hle rest hname with
      ⟨ok, w₁, hsame, hturn⟩ | hturn | ⟨k, w₁, hsame, hlocate, hk, hturn⟩
    · rw [hturn] at hrun
      rw [← Option.some.inj hrun, hsame]
      exact .refl top _
    · rw [hturn] at hrun
      exact ih hrest w.tick hle hrun
    · rw [hturn] at hrun
      obtain ⟨s, hs, hrun⟩ := Option.bind_eq_some_iff.mp hrun
      rw [← hsame] at hle hlocate hk ⊢
      have hchild := h.eraseKind_removes (herase name) hle hlocate hk hs
      have hbelow := hchild.of_prefix (List.prefix_append top [name])
      split at hrun
      next => exact hbelow.trans (ih hrest s.2 (le_trans hbelow.le hle) hrun)
      next =>
        rw [← Option.some.inj hrun]
        exact hbelow

theorem Target.eraseLoop_ends (h : Target t path top)
    (herase : ∀ name w r, Target t (path ++ '/' :: name) (top ++ [name]) → w.tree ≤ t →
      erase (path ++ '/' :: name) w = some r → w.tree.RemovedBelow (top ++ [name]) r.2.tree)
    (hends : ∀ name w, t.kind (top ++ [name]) = some .directory → w.tree ≤ t →
      ∃ r, erase (path ++ '/' :: name) w = some r)
    (names : List Str) (hnames : ∀ n ∈ names, n = ".".toList ∨ n = "..".toList ∨ t.kind (top ++ [n]) ≠ none)
    (w : FileWorld) (hle : w.tree ≤ t) : ∃ r, eraseLoop fails erase path names w = some r := by
  induction names generalizing w with
  | nil => exact ⟨_, rfl⟩
  | cons name rest ih =>
    obtain ⟨hname, hrest⟩ := List.forall_mem_cons.mp hnames
    rcases @Target.eraseLoop_cons fails t path top name w erase h hle rest hname with
      ⟨ok, w₁, _, hturn⟩ | hturn | ⟨k, w₁, hsame, hlocate, hk, hturn⟩
    · exact ⟨_, hturn⟩
    · rw [hturn]
      exact ih hrest w.tick hle
    · rw [← hsame] at hle hlocate hk
      have hkind : ∃ s, eraseKind fails erase (path ++ '/' :: name) w₁ k = some s := by
        cases k with
        | directory => exact hends name w₁ (hle.2.2 _ _ hk) hle
        | regular => exact ⟨_, rfl⟩
        | symlink target => exact ⟨_, rfl⟩
        | other => exact ⟨_, rfl⟩
      obtain ⟨s, hs⟩ := hkind
      have hchild := h.eraseKind_removes (herase name) hle hlocate hk hs
      rw [hturn, hs, Option.bind_some]
      split
      next => exact ih hrest s.2 (le_trans hchild.le hle)
      next => exact ⟨_, rfl⟩

theorem Target.opendir (h : Target t path top) (hle : w.tree ≤ t) {names : List Str}
    (hopen : w.opendir fails path = (some names, w')) :
    w'.tree = w.tree ∧ ∀ n ∈ names, n = ".".toList ∨ n = "..".toList ∨ t.kind (top ++ [n]) ≠ none := by
  obtain ⟨hsame, hnames⟩ := FileWorld.ask_eq_some hopen
  refine ⟨hsame, ?_⟩
  obtain ⟨p, hp, rfl⟩ := Option.map_eq_some_iff.mp hnames
  obtain ⟨hresolve, _⟩ := Option.filter_eq_some_iff.mp hp
  obtain rfl := ((FileTree.leads_of_resolve hresolve).mono hle).unique h.leads
  intro n hn
  rcases List.mem_cons.mp hn with hn | hn
  · exact Or.inl hn
  · rcases List.mem_cons.mp hn with hn | hn
    · exact Or.inr (Or.inl hn)
    · obtain ⟨k, hk⟩ := Option.ne_none_iff_exists'.mp (FileTree.mem_children_iff.mp hn)
      exact Or.inr (Or.inr (hle.2.2 _ _ hk ▸ Option.some_ne_none k))

/-- By induction on the levels below which a run is given up. -/
theorem Target.erase_removes (depth : Nat) (h : Target t path top) (hle : w.tree ≤ t) {r : Bool × FileWorld}
    (hrun : eraseDirectoryRecursive fails depth path w = some r) :
    w.tree.RemovedBelow top r.2.tree ∧ (r.1 = true → r.2.tree.kind top = none) := by
  induction depth generalizing path top w r with
  | zero => cases hrun
  | succ depth ih =>
    rw [eraseDirectoryRecursive, h.text] at hrun
    split at hrun
    next w₁ hopen =>
      have hw₁ : w.tick = w₁ := congrArg Prod.snd hopen
      rw [← Option.some.inj hrun, ← hw₁]
      exact ⟨.refl top _, by rintro ⟨⟩⟩
    next names w₁ hopen =>
      obtain ⟨hsame, hnames⟩ := h.opendir hle hopen
      obtain ⟨s, hs, hrun⟩ := Option.bind_eq_some_iff.mp hrun
      rw [← hsame] at hle ⊢
      have hloop := h.eraseLoop_removes (fun _ _ _ hchild hle hrun => (ih hchild hle hrun).1) names hnames w₁ hle s hs
      split at hrun
      next =>
        -- what the last call takes away is the directory itself
        have hlast : s.2.rmdir fails path = (r.1, r.2) := Option.some.inj hrun
        rcases FileWorld.change_cases hlast with ⟨hok, hkept⟩ | ⟨_, hrmdir⟩
        · rw [hkept, hok]
          exact ⟨hloop, by rintro ⟨⟩⟩
        · obtain ⟨q, hq, hk, hremoved, hgone⟩ := FileTree.rmdir_removes hrmdir
          have hleads := (FileTree.leads_of_locate hq hk).mono (le_trans hloop.le hle)
          obtain rfl := hleads.unique h.leads
          exact ⟨hloop.trans hremoved, fun _ => hgone⟩
      next hstop =>
        rw [← Option.some.inj hrun]
        exact ⟨hloop, by rintro ⟨⟩⟩

theorem Target.erase_ends (depth : Nat) (h : Target t path top) (hle : w.tree ≤ t) (hpos : 0 < depth)
    (hdepth : ∀ below, t.kind (top ++ below) ≠ none → below.length < depth) :
    ∃ r, eraseDirectoryRecursive fails depth path w = some r := by
  induction depth generalizing path top w with
  | zero => exact absurd hpos (Nat.lt_irrefl 0)
  | succ depth ih =>
    rw [eraseDirectoryRecursive, h.text]
    split
    next => exact ⟨_, rfl⟩
    next names w₁ hopen =>
      obtain ⟨hsame, hnames⟩ := h.opendir hle hopen
      rw [← hsame] at hle
      have hends : ∀ name w, t.kind (top ++ [name]) = some .directory → w.tree ≤ t →
          ∃ r, eraseDirectoryRecursive fails depth (path ++ '/' :: name) w = some r := by
        intro name w hk hle
        refine ih (h.child hk) hle (Nat.lt_of_succ_lt_succ (hdepth [name] (hk ▸ Option.some_ne_none _)))
          fun below hbelow => ?_
        rw [List.append_assoc] at hbelow
        exact Nat.lt_of_succ_lt_succ (hdepth ([name] ++ below) hbelow)
      obtain ⟨s, hs⟩ := h.eraseLoop_ends (fun _ _ _ hchild hle hrun => (hchild.erase_removes depth hle hrun).1)
        hends names hnames w₁ hle
      rw [hs, Option.bind_some]
      split
      next => exact ⟨_, rfl⟩
      next => exact ⟨_, rfl⟩

theorem erase_stays_inside (fails : Nat → Bool) (w : FileWorld) {directory : Str} {top : Place}
    (htop : w.tree.resolve (path_c_str directory) = some top)
    (hshort : ∀ below, w.tree.kind (top ++ below) ≠ none →
      (path_c_str directory ++ below.flatMap ('/' :: ·)).length < PATH_MAX) :
    ErasesInside fails directory top w := by
  have htext : path_c_str (path_c_str directory) = path_c_str directory := List.takeWhile_idem
  have hsame : ∀ depth, eraseDirectoryRecursive fails depth directory w =
      eraseDirectoryRecursive fails depth (path_c_str directory) w := by
    intro depth
    cases depth with
    | zero => rfl
    | succ depth => rw [eraseDirectoryRecursive, eraseDirectoryRecursive, htext]
  have hnonempty : path_c_str directory ≠ [] := by
    intro hnil
    rw [hnil] at htop
    cases htop
  have htarget : Target w.tree (path_c_str directory) top :=
    ⟨FileTree.leads_of_resolve htop, hnonempty, htext, hshort⟩
  have hremoves : ∀ depth r, eraseDirectoryRecursive fails depth directory w = some r →
      w.tree.RemovedBelow top r.2.tree ∧ (r.1 = true → r.2.tree.kind top = none) := by
    intro depth r hrun
    rw [hsame] at hrun
    exact htarget.erase_removes depth le_rfl hrun
  refine ⟨⟨w.tree.height + 1, ?_⟩, fun depth ok w' hrun => (hremoves depth _ hrun).1, ?_⟩
  · rw [hsame]
    refine htarget.erase_ends _ le_rfl (Nat.succ_pos _) fun below hbelow => ?_
    have hheight := FileTree.length_le_height hbelow
    rw [List.length_append] at hheight
    omega
  · rintro depth w' hrun p ⟨below, rfl⟩
    exact FileTree.kind_append_eq_none ((hremoves depth _ hrun).2 rfl) below

/-- `d` holds a file, a link to what is kept beside `d`, and a directory with a node in it. -/
def linkedEntries : List (Place × EntryKind) :=
  [(["d".toList], .directory), (["d".toList, "a".toList], .regular), (["d".toList, "l".toList], .symlink "/keep"),
    (["d".toList, "s".toList], .directory), (["d".toList, "s".toList, "b".toList], .other),
    (["keep".toList], .directory), (["keep".toList, "x".toList], .regular)]

theorem linkedEntries_unique : (linkedEntries.map Prod.fst).Nodup := by
  decide

theorem linkedEntries_named : ∀ e ∈ linkedEntries, e.1 ≠ [] ∧ ∀ name ∈ e.1, isEntryName name = true := by
  decide

theorem linkedEntries_closed :
    ∀ e ∈ linkedEntries, e.1.dropLast = [] ∨ (e.1.dropLast, .directory) ∈ linkedEntries := by
  decide

def linkedTree : FileTree :=
  ⟨linkedEntries, [], 40, linkedEntries_unique, linkedEntries_named, linkedEntries_closed⟩

theorem erase_linked_tree : ErasesInside (fun _ => false) "d" ["d".toList] ⟨linkedTree, 0⟩ := by
  refine erase_stays_inside _ _ (by decide) fun below hbelow => ?_
  obtain ⟨k, hk⟩ := Option.ne_none_iff_exists'.mp hbelow
  have hmem := (FileTree.kind_eq_some_iff (List.cons_ne_nil _ _)).mp hk
  have hall : ∀ e ∈ linkedEntries, (path_c_str "d" ++ e.1.tail.flatMap ('/' :: ·)).length < PATH_MAX := by decide
  exact hall _ hmem

end

end PartitionManager
