import Mathlib.Data.List.Induction
import Mathlib.Data.List.Nodup
import Mathlib.Order.Defs.PartialOrder
import PartitionManager.Library.Delimited

/-- Where an entry of a file tree stands: the names from the root on. -/
abbrev Place := List (List Char)

/-- What can be the name of an entry. -/
def isEntryName (name : List Char) : Bool :=
  !name.isEmpty && name.all (fun c => c != '/' && c != '\x00') && name != ['.'] && name != ['.', '.']

inductive EntryKind where
  | directory
  | regular
  | symlink (target : List Char)
  | other
  deriving DecidableEq

/-- The entries below a root. The working directory may have been removed. -/
structure FileTree where
  entries : List (Place × EntryKind)
  cwd : Place
  maxLinks : Nat
  unique : (entries.map Prod.fst).Nodup
  named : ∀ e ∈ entries, e.1 ≠ [] ∧ ∀ name ∈ e.1, isEntryName name = true
  closed : ∀ e ∈ entries, e.1.dropLast = [] ∨ (e.1.dropLast, .directory) ∈ entries

namespace FileTree

variable {t t' : FileTree} {p q : Place} {name : List Char} {k : EntryKind}

/-- What stands at a place. -/
def kind (t : FileTree) (p : Place) : Option EntryKind :=
  if p = [] then some .directory else (t.entries.find? fun e => e.1 = p).map Prod.snd

theorem kind_root : t.kind [] = some .directory := rfl

theorem kind_eq_some_iff (hp : p ≠ []) : t.kind p = some k ↔ (p, k) ∈ t.entries := by
  unfold kind
  rw [if_neg hp]
  constructor
  · intro h
    obtain ⟨e, he, rfl⟩ := Option.map_eq_some_iff.mp h
    have hplace : e.1 = p := by simpa using List.find?_some he
    rw [← hplace]
    exact List.mem_of_find?_eq_some he
  · intro h
    have hsome : (t.entries.find? fun e => e.1 = p).isSome = true :=
      List.find?_isSome.mpr ⟨(p, k), h, by simp⟩
    obtain ⟨e, he⟩ := Option.isSome_iff_exists.mp hsome
    have hplace : e.1 = p := by simpa using List.find?_some he
    have hsame : e = (p, k) :=
      List.inj_on_of_nodup_map t.unique (List.mem_of_find?_eq_some he) h hplace
    rw [he, hsame, Option.map_some]

theorem kind_eq_none_iff (hp : p ≠ []) : t.kind p = none ↔ ∀ e ∈ t.entries, e.1 ≠ p := by
  rw [Option.eq_none_iff_forall_ne_some]
  constructor
  · rintro h e he rfl
    exact h e.2 ((kind_eq_some_iff hp).mpr he)
  · intro h k hk
    exact h _ ((kind_eq_some_iff hp).mp hk) rfl

/-- Everything stands in a directory. -/
theorem kind_of_child (h : t.kind (p ++ [name]) ≠ none) : t.kind p = some .directory := by
  obtain ⟨k, hk⟩ := Option.ne_none_iff_exists'.mp h
  have hmem := (kind_eq_some_iff (List.concat_ne_nil name p)).mp hk
  have hclosed := t.closed _ hmem
  rw [List.dropLast_concat] at hclosed
  by_cases hp : p = []
  · rw [hp, kind_root]
  · exact (kind_eq_some_iff hp).mpr (hclosed.resolve_left hp)

/-- Nothing is left below a place where nothing stands. -/
theorem kind_append_eq_none (h : t.kind p = none) (below : Place) : t.kind (p ++ below) = none := by
  induction below using List.reverseRecOn with
  | nil => rwa [List.append_nil]
  | append_singleton below name ih =>
    by_contra hsome
    rw [← List.append_assoc] at hsome
    rw [kind_of_child hsome] at ih
    cases ih

theorem isEntryName_of_kind (h : t.kind p ≠ none) (hname : name ∈ p) : isEntryName name = true := by
  obtain ⟨k, hk⟩ := Option.ne_none_iff_exists'.mp h
  exact (t.named _ ((kind_eq_some_iff (List.ne_nil_of_mem hname)).mp hk)).2 name hname

/-- The names in a directory, in the order in which they are listed. -/
def children (t : FileTree) (p : Place) : List (List Char) :=
  t.entries.filterMap fun e => if e.1.dropLast = p then e.1.getLast? else none

theorem mem_children_iff : name ∈ t.children p ↔ t.kind (p ++ [name]) ≠ none := by
  unfold children
  rw [List.mem_filterMap]
  constructor
  · rintro ⟨e, he, hname⟩
    split at hname
    next hdrop =>
      have hplace : e.1 = p ++ [name] := by
        rw [← hdrop]
        exact (List.dropLast_append_getLast? name hname).symm
      rw [← hplace, (kind_eq_some_iff (t.named e he).1).mpr he]
      exact Option.some_ne_none _
    next => cases hname
  · intro h
    obtain ⟨k, hk⟩ := Option.ne_none_iff_exists'.mp h
    refine ⟨_, (kind_eq_some_iff (List.concat_ne_nil name p)).mp hk, ?_⟩
    rw [List.dropLast_concat, if_pos rfl, List.getLast?_concat]

theorem erase_unique (t : FileTree) (p : Place) : ((t.entries.filter fun e => e.1 ≠ p).map Prod.fst).Nodup :=
  t.unique.sublist (List.filter_sublist.map Prod.fst)

theorem erase_named (t : FileTree) (p : Place) :
    ∀ e ∈ t.entries.filter fun e => e.1 ≠ p, e.1 ≠ [] ∧ ∀ name ∈ e.1, isEntryName name = true :=
  fun e he => t.named e (List.mem_of_mem_filter he)

theorem erase_closed (t : FileTree) (p : Place) (hleaf : t.children p = []) :
    ∀ e ∈ t.entries.filter fun e => e.1 ≠ p,
      e.1.dropLast = [] ∨ (e.1.dropLast, .directory) ∈ t.entries.filter fun e => e.1 ≠ p := by
  intro e he
  have hmem := List.mem_of_mem_filter he
  refine (t.closed e hmem).imp_right fun hparent => List.mem_filter.mpr ⟨hparent, ?_⟩
  -- what stands in the directory that is taken away would be a child of it
  have hne : e.1.dropLast ≠ p := by
    intro heq
    obtain ⟨before, last, hlast⟩ := (List.eq_nil_or_concat' e.1).resolve_left (t.named e hmem).1
    rw [hlast, List.dropLast_concat] at heq
    have hchild : last ∈ t.children p := by
      rw [mem_children_iff, ← heq, ← hlast, (kind_eq_some_iff (t.named e hmem).1).mpr hmem]
      exact Option.some_ne_none _
    rw [hleaf] at hchild
    exact List.not_mem_nil hchild
  simpa using hne

theorem add_unique (t : FileTree) (p : Place) (k : EntryKind) (hnew : t.kind (p ++ [name]) = none) :
    ((t.entries ++ [(p ++ [name], k)]).map Prod.fst).Nodup := by
  have hnot := (kind_eq_none_iff (List.concat_ne_nil name p)).mp hnew
  rw [List.map_append, List.map_singleton, List.nodup_append]
  refine ⟨t.unique, List.nodup_singleton _, ?_⟩
  rintro a ha b hb rfl
  obtain ⟨e, he, rfl⟩ := List.mem_map.mp ha
  exact hnot e he (List.mem_singleton.mp hb)

theorem add_named (t : FileTree) (p : Place) (k : EntryKind) (hp : t.kind p = some .directory)
    (hname : isEntryName name = true) : ∀ e ∈ t.entries ++ [(p ++ [name], k)],
      e.1 ≠ [] ∧ ∀ name ∈ e.1, isEntryName name = true := by
  intro e he
  rcases List.mem_append.mp he with he | he
  · exact t.named e he
  · obtain rfl := List.mem_singleton.mp he
    refine ⟨List.concat_ne_nil name p, fun n hn => ?_⟩
    rcases List.mem_append.mp hn with hn | hn
    · exact isEntryName_of_kind (hp ▸ Option.some_ne_none _) hn
    · rwa [List.mem_singleton.mp hn]

theorem add_closed (t : FileTree) (p : Place) (k : EntryKind) (hp : t.kind p = some .directory) :
    ∀ e ∈ t.entries ++ [(p ++ [name], k)],
      e.1.dropLast = [] ∨ (e.1.dropLast, .directory) ∈ t.entries ++ [(p ++ [name], k)] := by
  intro e he
  rcases List.mem_append.mp he with he | he
  · exact (t.closed e he).imp_right (List.mem_append_left _)
  · obtain rfl := List.mem_singleton.mp he
    rw [List.dropLast_concat]
    by_cases hroot : p = []
    · exact Or.inl hroot
    · exact Or.inr (List.mem_append_left _ ((kind_eq_some_iff hroot).mp hp))

/-- The tree without an entry below which nothing stands. -/
def erase (t : FileTree) (p : Place) (hleaf : t.children p = []) : FileTree where
  entries := t.entries.filter fun e => e.1 ≠ p
  cwd := t.cwd
  maxLinks := t.maxLinks
  unique := erase_unique t p
  named := erase_named t p
  closed := erase_closed t p hleaf

/-- The tree with one entry more. -/
def add (t : FileTree) (p : Place) (name : List Char) (k : EntryKind) (hp : t.kind p = some .directory)
    (hnew : t.kind (p ++ [name]) = none) (hname : isEntryName name = true) : FileTree where
  entries := t.entries ++ [(p ++ [name], k)]
  cwd := t.cwd
  maxLinks := t.maxLinks
  unique := add_unique t p k hnew
  named := add_named t p k hp hname
  closed := add_closed t p k hp

theorem kind_erase (hp : p ≠ []) (hleaf : t.children p = []) (q : Place) :
    (t.erase p hleaf).kind q = if q = p then none else t.kind q := by
  by_cases hq : q = []
  · rw [hq, kind_root, kind_root, if_neg (Ne.symm hp)]
  · refine Option.ext fun k => ?_
    rw [kind_eq_some_iff hq]
    split
    next heq => simp [erase, heq]
    next hne =>
      rw [kind_eq_some_iff hq]
      simp [erase, hne]

theorem kind_add {hp : t.kind p = some .directory} {hnew : t.kind (p ++ [name]) = none}
    {hname : isEntryName name = true} (q : Place) :
    (t.add p name k hp hnew hname).kind q = if q = p ++ [name] then some k else t.kind q := by
  by_cases hq : q = []
  · rw [hq, kind_root, kind_root, if_neg (Ne.symm (List.concat_ne_nil name p))]
  · refine Option.ext fun k' => ?_
    rw [kind_eq_some_iff hq]
    split
    next heq =>
      subst heq
      have hnot := (kind_eq_none_iff hq).mp hnew
      simp only [add, List.mem_append, List.mem_singleton, Prod.mk.injEq, true_and, Option.some.injEq]
      refine ⟨fun h => ?_, fun h => Or.inr h.symm⟩
      rcases h with h | h
      · exact absurd rfl (hnot _ h)
      · exact h.symm
    next hne =>
      rw [kind_eq_some_iff hq]
      simp [add, hne]

/-- Every entry of one tree is in the other. -/
instance : Preorder FileTree where
  le t t' := t'.cwd = t.cwd ∧ t'.maxLinks = t.maxLinks ∧ ∀ p k, t.kind p = some k → t'.kind p = some k
  le_refl t := ⟨rfl, rfl, fun _ _ h => h⟩
  le_trans a b c hab hbc :=
    ⟨hbc.1.trans hab.1, hbc.2.1.trans hab.2.1, fun p k h => hbc.2.2 p k (hab.2.2 p k h)⟩

theorem erase_le (hp : p ≠ []) (hleaf : t.children p = []) : t.erase p hleaf ≤ t := by
  refine ⟨rfl, rfl, fun q k h => ?_⟩
  rw [kind_erase hp] at h
  split at h
  next => cases h
  next => exact h

theorem le_add {hp : t.kind p = some .directory} {hnew : t.kind (p ++ [name]) = none}
    {hname : isEntryName name = true} : t ≤ t.add p name k hp hnew hname := by
  refine ⟨rfl, rfl, fun q k h => ?_⟩
  rw [kind_add]
  split
  next heq =>
    rw [heq, hnew] at h
    cases h
  next => exact h

/-- A component of a path. -/
inductive Step where
  | here
  | up
  | into (name : List Char)

def step (component : List Char) : Step :=
  if component = ['.'] then .here else if component = ['.', '.'] then .up else .into component

theorem step_of_isEntryName (h : isEntryName name = true) : step name = .into name := by
  simp only [isEntryName, Bool.and_eq_true, bne_iff_ne, ne_eq] at h
  rw [step, if_neg h.1.2, if_neg h.2]

def components (path : List Char) : List Step := (Delimited.fields '/' path).map step

/-- The components that are walked through. A slash at the end asks for a directory. -/
def steps (path : List Char) : List Step :=
  components path ++ if path.getLast? = some '/' then [.here] else []

def start (path : List Char) (base : Place) : Place := if path.head? = some '/' then [] else base

/-- One can stand there: in a directory, or in what was one on the way to the working directory. -/
def Standing (t : FileTree) (p : Place) : Prop := t.kind p = some .directory ∨ p <+: t.cwd

instance (t : FileTree) (p : Place) : Decidable (t.Standing p) :=
  inferInstanceAs (Decidable (t.kind p = some .directory ∨ p <+: t.cwd))

/-- Walks on from a place. What `follow` does is to go on at a link. -/
def walkWith (t : FileTree) (follow : Place → List Step → Option (Place × Nat)) (links : Nat) :
    Place → List Step → Option (Place × Nat)
  | p, [] => some (p, links)
  | p, .here :: rest => if t.Standing p then t.walkWith follow links p rest else none
  | p, .up :: rest => if t.Standing p then t.walkWith follow links p.dropLast rest else none
  | p, .into name :: rest =>
    match t.kind (p ++ [name]) with
    | none => none
    | some (.symlink target) => follow (start target p) (steps target ++ rest)
    | some _ => t.walkWith follow links (p ++ [name]) rest

/-- Walks from a place, with so many links that may be followed. Gives the links that are left. -/
def walk (t : FileTree) : Nat → Place → List Step → Option (Place × Nat)
  | 0 => t.walkWith (fun _ _ => none) 0
  | links + 1 => t.walkWith (t.walk links) (links + 1)

theorem walkWith_append {follow : Place → List Step → Option (Place × Nat)}
    {next : Place × Nat → List Step → Option (Place × Nat)} {links : Nat}
    (hfollow : ∀ p xs ys, follow p (xs ++ ys) = (follow p xs).bind (next · ys))
    (hnext : ∀ p ys, next (p, links) ys = t.walkWith follow links p ys) (p : Place) (xs ys : List Step) :
    t.walkWith follow links p (xs ++ ys) = (t.walkWith follow links p xs).bind (next · ys) := by
  induction xs generalizing p with
  | nil => rw [List.nil_append, walkWith, Option.bind_some, hnext]
  | cons x xs ih =>
    cases x with
    | here =>
      rw [List.cons_append, walkWith, walkWith, ih]
      split
      next => rfl
      next => rfl
    | up =>
      rw [List.cons_append, walkWith, walkWith, ih]
      split
      next => rfl
      next => rfl
    | into name =>
      rw [List.cons_append, walkWith, walkWith]
      cases hk : t.kind (p ++ [name]) with
      | none => rfl
      | some k =>
        cases k with
        | symlink target =>
          dsimp only
          rw [← List.append_assoc, hfollow]
        | directory => exact ih _
        | regular => exact ih _
        | other => exact ih _

/-- A walk along two lists of components is one walk after the other. -/
theorem walk_append (links : Nat) (p : Place) (xs ys : List Step) :
    t.walk links p (xs ++ ys) = (t.walk links p xs).bind fun r => t.walk r.2 r.1 ys := by
  induction links generalizing p xs ys with
  | zero => exact walkWith_append (fun _ _ _ => rfl) (fun _ _ => rfl) p xs ys
  | succ links ih => exact walkWith_append ih (fun _ _ => rfl) p xs ys

theorem walkWith_mono (h : t ≤ t') {follow follow' : Place → List Step → Option (Place × Nat)} {links : Nat}
    (hfollow : ∀ p xs r, follow p xs = some r → follow' p xs = some r) (p : Place) (xs : List Step)
    {r : Place × Nat} (hw : t.walkWith follow links p xs = some r) :
    t'.walkWith follow' links p xs = some r := by
  have hstanding : ∀ p, t.Standing p → t'.Standing p := by
    intro p hp
    unfold Standing
    rw [h.1]
    exact hp.imp_left (h.2.2 p _)
  induction xs generalizing p with
  | nil => exact hw
  | cons x xs ih =>
    cases x with
    | here =>
      rw [walkWith] at hw ⊢
      split at hw
      next hp =>
        rw [if_pos (hstanding p hp)]
        exact ih p hw
      next => cases hw
    | up =>
      rw [walkWith] at hw ⊢
      split at hw
      next hp =>
        rw [if_pos (hstanding p hp)]
        exact ih _ hw
      next => cases hw
    | into name =>
      rw [walkWith] at hw ⊢
      cases hk : t.kind (p ++ [name]) with
      | none =>
        rw [hk] at hw
        cases hw
      | some k =>
        rw [hk] at hw
        rw [h.2.2 _ _ hk]
        cases k with
        | symlink target => exact hfollow _ _ _ hw
        | directory => exact ih _ hw
        | regular => exact ih _ hw
        | other => exact ih _ hw

/-- With more entries every walk that led somewhere still leads there. -/
theorem walk_mono (h : t ≤ t') (links : Nat) (p : Place) (xs : List Step) {r : Place × Nat}
    (hw : t.walk links p xs = some r) : t'.walk links p xs = some r := by
  induction links generalizing p xs r with
  | zero => exact walkWith_mono h (fun _ _ _ h => h) p xs hw
  | succ links ih => exact walkWith_mono h (fun p xs _ => ih p xs) p xs hw

/-- What a path stands for. -/
def resolve (t : FileTree) (path : List Char) : Option Place :=
  if path = [] then none else (t.walk t.maxLinks (start path t.cwd) (steps path)).map Prod.fst

/-- The directory and the name of the entry of a path. -/
def parent (t : FileTree) (path : List Char) : Option (Place × List Char) :=
  match (components path).getLast? with
  | some (.into name) =>
    (t.walk t.maxLinks (start path t.cwd) (components path).dropLast).bind fun r =>
      if t.kind r.1 = some .directory then some (r.1, name) else none
  | _ => none

/-- Where the entry of a path stands, or would stand: a link at the end is not followed. -/
def locate (t : FileTree) (path : List Char) : Option Place := (t.parent path).map fun r => r.1 ++ [r.2]

/-- The kind of what a path stands for. -/
def stat (t : FileTree) (path : List Char) : Option EntryKind :=
  (t.resolve path).bind fun p => if t.Standing p then some .directory else t.kind p

/-- The kind of the entry of a path. -/
def entryKind (t : FileTree) (path : List Char) : Option EntryKind :=
  if path.getLast? = some '/' then (t.resolve path).bind t.kind
  else
    match (components path).getLast? with
    | some (.into _) => (t.locate path).bind t.kind
    | _ => (t.resolve path).bind t.kind

/-- The walk along a path ends there. -/
def Leads (t : FileTree) (path : List Char) (p : Place) : Prop :=
  ∃ links, t.walk t.maxLinks (start path t.cwd) (components path) = some (p, links)

theorem Leads.unique {path : List Char} (hp : t.Leads path p) (hq : t.Leads path q) : p = q := by
  obtain ⟨links, hp⟩ := hp
  obtain ⟨links', hq⟩ := hq
  rw [hp] at hq
  exact congrArg Prod.fst (Option.some.inj hq)

theorem Leads.mono {path : List Char} (h : t ≤ t') (hp : t.Leads path p) : t'.Leads path p := by
  obtain ⟨links, hp⟩ := hp
  refine ⟨links, ?_⟩
  rw [h.1, h.2.1]
  exact walk_mono h _ _ _ hp

theorem resolve_mono {path : List Char} (h : t ≤ t') (hp : t.resolve path = some p) :
    t'.resolve path = some p := by
  unfold resolve at hp ⊢
  split at hp
  next => cases hp
  next hne =>
    obtain ⟨r, hr, rfl⟩ := Option.map_eq_some_iff.mp hp
    rw [if_neg hne, h.1, h.2.1, walk_mono h _ _ _ hr, Option.map_some]

theorem exists_walkWith (links : Nat) : ∃ follow, t.walk links = t.walkWith follow links := by
  cases links with
  | zero => exact ⟨_, rfl⟩
  | succ links => exact ⟨_, rfl⟩

theorem walk_nil (links : Nat) (p : Place) : t.walk links p [] = some (p, links) := by
  obtain ⟨follow, hwalk⟩ := @exists_walkWith t links
  rw [hwalk, walkWith]

theorem walk_here (links : Nat) (p : Place) :
    t.walk links p [.here] = if t.Standing p then some (p, links) else none := by
  obtain ⟨follow, hwalk⟩ := @exists_walkWith t links
  rw [hwalk, walkWith, walkWith]

theorem walk_into (links : Nat) (hk : t.kind (p ++ [name]) = some .directory) :
    t.walk links p [.into name] = some (p ++ [name], links) := by
  obtain ⟨follow, hwalk⟩ := @exists_walkWith t links
  rw [hwalk, walkWith, hk]
  rfl

variable {path : List Char}

theorem leads_of_resolve (h : t.resolve path = some p) : t.Leads path p := by
  unfold resolve at h
  split at h
  next => cases h
  next =>
    obtain ⟨r, hr, rfl⟩ := Option.map_eq_some_iff.mp h
    unfold steps at hr
    rw [walk_append] at hr
    obtain ⟨s, hs, hr⟩ := Option.bind_eq_some_iff.mp hr
    split at hr
    next =>
      rw [walk_here] at hr
      split at hr
      next =>
        rw [← Option.some.inj hr]
        exact ⟨s.2, hs⟩
      next => cases hr
    next =>
      rw [walk_nil] at hr
      rw [← Option.some.inj hr]
      exact ⟨s.2, hs⟩

theorem resolve_of_leads (hpath : path ≠ []) (h : t.Leads path p) (hstanding : t.Standing p) :
    t.resolve path = some p := by
  obtain ⟨links, hw⟩ := h
  unfold resolve steps
  rw [if_neg hpath, walk_append, hw, Option.bind_some]
  split
  next => rw [walk_here, if_pos hstanding, Option.map_some]
  next => rw [walk_nil, Option.map_some]

theorem parent_eq_some_iff :
    t.parent path = some (p, name) ↔ ∃ before links, components path = before ++ [.into name] ∧
      t.walk t.maxLinks (start path t.cwd) before = some (p, links) ∧ t.kind p = some .directory := by
  unfold parent
  constructor
  · intro h
    split at h
    next other hlast =>
      obtain ⟨r, hr, h⟩ := Option.bind_eq_some_iff.mp h
      split at h
      next hk =>
        cases h
        exact ⟨_, r.2, (List.dropLast_append_getLast? _ hlast).symm, hr, hk⟩
      next => cases h
    next => cases h
  · rintro ⟨before, links, hcomponents, hw, hk⟩
    rw [hcomponents, List.getLast?_concat]
    dsimp only
    rw [List.dropLast_concat, hw, Option.bind_some, if_pos hk]

theorem locate_eq_some_iff :
    t.locate path = some q ↔ ∃ p name, t.parent path = some (p, name) ∧ q = p ++ [name] := by
  unfold locate
  rw [Option.map_eq_some_iff]
  constructor
  · rintro ⟨⟨p, name⟩, hr, rfl⟩
    exact ⟨p, name, hr, rfl⟩
  · rintro ⟨p, name, hr, rfl⟩
    exact ⟨(p, name), hr, rfl⟩

/-- The entry of a directory is where the path of the directory leads. -/
theorem leads_of_locate (h : t.locate path = some p) (hk : t.kind p = some .directory) : t.Leads path p := by
  obtain ⟨d, name, hparent, rfl⟩ := locate_eq_some_iff.mp h
  obtain ⟨before, links, hcomponents, hw, hd⟩ := parent_eq_some_iff.mp hparent
  refine ⟨links, ?_⟩
  rw [hcomponents, walk_append, hw, Option.bind_some, walk_into links hk]

theorem locate_ne_nil (h : t.locate path = some p) : p ≠ [] := by
  obtain ⟨d, name, _, rfl⟩ := locate_eq_some_iff.mp h
  exact List.concat_ne_nil name d

theorem components_child (hname : isEntryName name = true) :
    components (path ++ '/' :: name) = components path ++ [.into name] := by
  have hstep := step_of_isEntryName hname
  simp only [isEntryName, Bool.and_eq_true, List.all_eq_true, Bool.not_eq_true', List.isEmpty_eq_false_iff,
    bne_iff_ne] at hname
  have hslash : '/' ∉ name := fun hmem => (hname.1.1.2 '/' hmem).1 rfl
  unfold components
  rw [Delimited.fields_append_cons, Delimited.fields_of_not_mem hname.1.1.1 hslash, List.map_append,
    List.map_singleton, hstep]

theorem locate_child (hpath : path ≠ []) (hname : isEntryName name = true) :
    t.locate (path ++ '/' :: name) = some q ↔
      ∃ p, t.Leads path p ∧ t.kind p = some .directory ∧ q = p ++ [name] := by
  have hstart : start (path ++ '/' :: name) t.cwd = start path t.cwd := by
    unfold start
    rw [List.head?_append_of_ne_nil _ hpath]
  rw [locate_eq_some_iff]
  constructor
  · rintro ⟨p, other, hparent, rfl⟩
    obtain ⟨before, links, hcomponents, hw, hk⟩ := parent_eq_some_iff.mp hparent
    rw [components_child hname] at hcomponents
    rw [hstart] at hw
    obtain ⟨rfl, hlast⟩ := List.append_inj' hcomponents rfl
    cases hlast
    exact ⟨p, ⟨links, hw⟩, hk, rfl⟩
  · rintro ⟨p, ⟨links, hw⟩, hk, rfl⟩
    rw [← hstart] at hw
    exact ⟨p, name, parent_eq_some_iff.mpr ⟨_, links, components_child hname, hw, hk⟩, rfl⟩

theorem entryKind_child (hname : isEntryName name = true) :
    t.entryKind (path ++ '/' :: name) = (t.locate (path ++ '/' :: name)).bind t.kind := by
  have hcomponents := @components_child name path hname
  simp only [isEntryName, Bool.and_eq_true, List.all_eq_true, Bool.not_eq_true', List.isEmpty_eq_false_iff,
    bne_iff_ne] at hname
  have hlast : (path ++ '/' :: name).getLast? ≠ some '/' := by
    obtain ⟨c, hc⟩ := List.getLast?_isSome.mpr hname.1.1.1 |> Option.isSome_iff_exists.mp
    rw [List.getLast?_append_cons, List.getLast?_cons_of_ne_nil hname.1.1.1, hc]
    rintro ⟨⟩
    exact (hname.1.1.2 '/' (List.mem_of_getLast? hc)).1 rfl
  unfold entryKind
  rw [if_neg hlast, hcomponents, List.getLast?_concat]

theorem children_eq_nil (h : t.kind p ≠ some .directory) : t.children p = [] := by
  refine List.eq_nil_iff_forall_not_mem.mpr fun name hname => ?_
  exact h (kind_of_child (mem_children_iff.mp hname))

/-- Takes away an entry that is no directory. -/
def unlink (t : FileTree) (path : List Char) : Option FileTree :=
  (t.locate path).bind fun p =>
    if hk : t.kind p = some .directory then none
    else if t.kind p = none ∨ path.getLast? = some '/' then none
    else some (t.erase p (children_eq_nil hk))

/-- Takes away a directory with nothing in it. -/
def rmdir (t : FileTree) (path : List Char) : Option FileTree :=
  (t.locate path).bind fun p =>
    if hleaf : t.kind p = some .directory ∧ t.children p = [] then some (t.erase p hleaf.2) else none

/-- Makes a directory where nothing stands. -/
def mkdir (t : FileTree) (path : List Char) : Option FileTree :=
  (t.parent path).bind fun r =>
    if h : t.kind r.1 = some .directory ∧ t.kind (r.1 ++ [r.2]) = none ∧ isEntryName r.2 = true then
      some (t.add r.1 r.2 .directory h.1 h.2.1 h.2.2)
    else none

/-- The entry of a path is there already. -/
def isTaken (t : FileTree) (path : List Char) : Bool :=
  path ≠ [] &&
    match (components path).getLast? with
    | some (.into _) => ((t.locate path).bind t.kind).isSome
    | _ => (t.walk t.maxLinks (start path t.cwd) (components path)).isSome

/-- What was taken away stood at the top or below it. -/
structure RemovedBelow (t : FileTree) (top : Place) (t' : FileTree) : Prop where
  le : t' ≤ t
  kept : ∀ p, ¬ top <+: p → t'.kind p = t.kind p

theorem RemovedBelow.refl (top : Place) (t : FileTree) : t.RemovedBelow top t := ⟨le_rfl, fun _ _ => rfl⟩

theorem RemovedBelow.trans {top : Place} {a b c : FileTree} (hab : a.RemovedBelow top b)
    (hbc : b.RemovedBelow top c) : a.RemovedBelow top c :=
  ⟨le_trans hbc.le hab.le, fun p hp => (hbc.kept p hp).trans (hab.kept p hp)⟩

theorem RemovedBelow.of_prefix {top : Place} (hp : top <+: p) (h : t.RemovedBelow p t') : t.RemovedBelow top t' :=
  ⟨h.le, fun q hq => h.kept q fun hpq => hq (hp.trans hpq)⟩

theorem RemovedBelow.erase (hp : p ≠ []) (hleaf : t.children p = []) : t.RemovedBelow p (t.erase p hleaf) := by
  refine ⟨erase_le hp hleaf, fun q hq => ?_⟩
  rw [kind_erase hp, if_neg]
  rintro rfl
  exact hq List.prefix_rfl

theorem unlink_removes (h : t.unlink path = some t') : ∃ p, t.locate path = some p ∧ t.RemovedBelow p t' := by
  obtain ⟨p, hp, h⟩ := Option.bind_eq_some_iff.mp h
  split at h
  next => cases h
  next hk =>
    split at h
    next => cases h
    next =>
      obtain rfl := Option.some.inj h
      exact ⟨p, hp, RemovedBelow.erase (locate_ne_nil hp) (children_eq_nil hk)⟩

theorem rmdir_removes (h : t.rmdir path = some t') :
    ∃ p, t.locate path = some p ∧ t.kind p = some .directory ∧ t.RemovedBelow p t' ∧ t'.kind p = none := by
  obtain ⟨p, hp, h⟩ := Option.bind_eq_some_iff.mp h
  split at h
  next hleaf =>
    obtain rfl := Option.some.inj h
    refine ⟨p, hp, hleaf.1, RemovedBelow.erase (locate_ne_nil hp) hleaf.2, ?_⟩
    rw [kind_erase (locate_ne_nil hp), if_pos rfl]
  next => cases h

theorem mkdir_adds (h : t.mkdir path = some t') :
    t ≤ t' ∧
      ∃ q, t'.resolve path = some q ∧ ∀ p, t'.kind p = if p = q then some .directory else t.kind p := by
  obtain ⟨⟨d, name⟩, hparent, h⟩ := Option.bind_eq_some_iff.mp h
  split at h
  next hnew =>
    obtain rfl := Option.some.inj h
    have hle : t ≤ t.add d name .directory hnew.1 hnew.2.1 hnew.2.2 := le_add
    refine ⟨hle, d ++ [name], ?_, kind_add⟩
    obtain ⟨before, links, hcomponents, hw, hd⟩ := parent_eq_some_iff.mp hparent
    have hpath : path ≠ [] := by
      rintro rfl
      exact List.concat_ne_nil _ _ hcomponents.symm
    have hk : (t.add d name .directory hnew.1 hnew.2.1 hnew.2.2).kind (d ++ [name]) = some .directory := by
      rw [kind_add, if_pos rfl]
    refine resolve_of_leads hpath ⟨links, ?_⟩ (Or.inl hk)
    rw [hcomponents, walk_append, hle.1, hle.2.1, walk_mono hle _ _ _ hw, Option.bind_some, walk_into links hk]
  next => cases h

/-- What can be made is not there yet. -/
theorem isTaken_of_mkdir (h : t.mkdir path = some t') : t.isTaken path = false := by
  obtain ⟨⟨d, name⟩, hparent, h⟩ := Option.bind_eq_some_iff.mp h
  split at h
  next hnew =>
    obtain ⟨before, links, hcomponents, _, _⟩ := parent_eq_some_iff.mp hparent
    have hlocate : t.locate path = some (d ++ [name]) := locate_eq_some_iff.mpr ⟨d, name, hparent, rfl⟩
    have hnone : t.kind (d ++ [name]) = none := hnew.2.1
    unfold isTaken
    rw [hcomponents, List.getLast?_concat]
    dsimp only
    rw [hlocate, Option.bind_some, hnone, Option.isSome_none, Bool.and_false]
  next => cases h

theorem stat_eq_directory_iff :
    t.stat path = some .directory ↔ path ≠ [] ∧ ∃ p, t.Leads path p ∧ t.Standing p := by
  unfold stat
  constructor
  · intro h
    obtain ⟨p, hp, h⟩ := Option.bind_eq_some_iff.mp h
    have hpath : path ≠ [] := by
      rintro rfl
      cases hp
    refine ⟨hpath, p, leads_of_resolve hp, ?_⟩
    split at h
    next hstanding => exact hstanding
    next => exact Or.inl h
  · rintro ⟨hpath, p, hleads, hstanding⟩
    rw [resolve_of_leads hpath hleads hstanding, Option.bind_some, if_pos hstanding]

theorem stat_of_resolve (h : t.resolve path = some p) (hk : t.kind p = some .directory) :
    t.stat path = some .directory := by
  refine stat_eq_directory_iff.mpr ⟨?_, p, leads_of_resolve h, Or.inl hk⟩
  rintro rfl
  cases h

/-- A slash more makes no difference to a path of a directory. -/
theorem stat_concat_slash (hpath : path ≠ []) :
    t.stat (path ++ ['/']) = some .directory ↔ t.stat path = some .directory := by
  have hcomponents : components (path ++ ['/']) = components path := by
    unfold components
    rw [Delimited.fields_append_cons, List.map_append]
    exact List.append_nil _
  have hleads : ∀ p, t.Leads (path ++ ['/']) p ↔ t.Leads path p := by
    intro p
    unfold Leads start
    rw [hcomponents, List.head?_append_of_ne_nil _ hpath]
  rw [stat_eq_directory_iff, stat_eq_directory_iff]
  simp only [hleads, hpath, ne_eq, List.append_eq_nil_iff, false_and, not_false_eq_true, true_and]

/-- A tree is finite, and no entry is deeper than its height. -/
def height (t : FileTree) : Nat := (t.entries.map Prod.fst).flatten.length

theorem length_le_height (h : t.kind p ≠ none) : p.length ≤ t.height := by
  by_cases hp : p = []
  · rw [hp]
    exact Nat.zero_le _
  · obtain ⟨k, hk⟩ := Option.ne_none_iff_exists'.mp h
    have hmem := List.mem_map_of_mem (f := Prod.fst) ((kind_eq_some_iff hp).mp hk)
    exact (List.sublist_flatten_of_mem hmem).length_le

end FileTree
