import PartitionManager.Handles

namespace PartitionManager

namespace World

/-- Every live handle has a descriptor, and handles not yet allocated are not live. -/
structure Opened (w : World) : Prop where
  table : ∀ h op, w.heap h = some op → ∃ file, w.table op.fd = some ⟨h, file⟩
  fresh : ∀ h, w.next ≤ h → w.heap h = none

/-- Every descriptor belongs to a live handle, and exactly the handles that are gone had
theirs closed, once each; no other number was given to `close`. -/
structure Balanced (w : World) : Prop extends Opened w where
  descriptors : ∀ fd d, w.table fd = some d → ∃ op, w.heap d.owner = some op ∧ op.fd = fd
  once : (w.closes.map Prod.snd).Nodup
  closed : ∀ owner, owner ∈ w.closes.map Prod.snd ↔ ∃ h, owner = some h ∧ h < w.next ∧ w.heap h = none

/-- What a ledger has to withstand. -/
structure Ledger (L : World → Prop) (ok : OpenPartT → Prop) : Prop where
  opened : ∀ w, L w → Opened w
  congr : ∀ w w', L w → w'.heap = w.heap → w'.next = w.next → w'.table = w.table → w'.closes = w.closes → L w'
  openpart_open : ∀ devs w path flags extra answer w' op, L w →
    w.openpart_open devs path flags extra answer = some (w', op) → L w'
  load : ∀ w h hd, L w → w.heap h = some hd →
    L { w with heap := Function.update w.heap h (some { hd with info_loaded := true }) }
  free : ∀ w h hd, L w → w.heap h = some hd → ok hd → L (w.free h hd)

variable {devs : DeviceTree} {w w' : World} {o h : Nat} {obj : PartitionObject} {op : Ptr} {hd : OpenPartT}

theorem free_objects : (w.free h hd).objects = w.objects := by
  unfold free
  split <;> rfl

theorem free_raw : (w.free h hd).raw = w.raw := by
  unfold free
  split <;> rfl

theorem free_heap : (w.free h hd).heap = Function.update w.heap h none := by
  unfold free
  split <;> rfl

theorem free_next : (w.free h hd).next = w.next := by
  unfold free
  split <;> rfl

/-- The descriptors of the other handles stay open. -/
theorem free_table {fd : UInt32} {d : Descriptor} (hopen : Opened w) (hhd : w.heap h = some hd)
    (hd' : w.table fd = some d) (howner : d.owner ≠ h) : (w.free h hd).table fd = some d := by
  unfold free
  split
  next hpos =>
    by_cases hfd : fd = hd.fd
    · obtain ⟨file, hfile⟩ := hopen.table h hd hhd
      rw [hfd, hfile] at hd'
      exact absurd (congrArg Descriptor.owner (Option.some.inj hd')).symm howner
    · simp [close, hfd, hd']
  next => exact hd'

theorem Opened.free (hopen : Opened w) (hhd : w.heap h = some hd) : Opened (w.free h hd) := by
  refine ⟨?_, ?_⟩
  · intro q op hq
    rw [free_heap] at hq
    have hne : q ≠ h := by
      intro heq
      simp [heq] at hq
    rw [Function.update_of_ne hne] at hq
    obtain ⟨file, hfile⟩ := hopen.table q op hq
    exact ⟨file, free_table hopen hhd hfile hne⟩
  · intro q hq
    rw [free_next] at hq
    rw [free_heap]
    by_cases heq : q = h
    · simp [heq]
    · rw [Function.update_of_ne heq]
      exact hopen.fresh q hq

theorem Balanced.free (hw : Balanced w) (hhd : w.heap h = some hd) (hfd : hd.fd ≠ 0) : Balanced (w.free h hd) := by
  obtain ⟨file, hfile⟩ := hw.table h hd hhd
  have hpos : hd.fd > 0 := by
    rw [gt_iff_lt, UInt32.lt_iff_toNat_lt]
    apply Nat.pos_of_ne_zero
    intro hzero
    exact hfd (UInt32.toNat_inj.mp hzero)
  have hcloses : (w.free h hd).closes = (hd.fd, some h) :: w.closes := by
    unfold World.free
    rw [if_pos hpos]
    simp [close, hfile]
  have htable : (w.free h hd).table = Function.update w.table hd.fd none := by
    unfold World.free
    rw [if_pos hpos]
    rfl
  have hnot : some h ∉ w.closes.map Prod.snd := by
    intro hmem
    obtain ⟨q, hq, _, hnone⟩ := (hw.closed (some h)).mp hmem
    rw [← Option.some.inj hq, hhd] at hnone
    cases hnone
  have hlt : h < w.next := by
    by_contra hge
    rw [hw.fresh h (Nat.le_of_not_lt hge)] at hhd
    cases hhd
  refine ⟨hw.toOpened.free hhd, ?_, ?_, ?_⟩
  · intro fd d hd'
    rw [htable] at hd'
    have hne : fd ≠ hd.fd := by
      intro heq
      simp [heq] at hd'
    rw [Function.update_of_ne hne] at hd'
    obtain ⟨op, hop, hopfd⟩ := hw.descriptors fd d hd'
    have howner : d.owner ≠ h := by
      intro heq
      rw [heq, hhd] at hop
      exact hne (hopfd.symm.trans (congrArg OpenPartT.fd (Option.some.inj hop)).symm)
    refine ⟨op, ?_, hopfd⟩
    rw [free_heap, Function.update_of_ne howner]
    exact hop
  · rw [hcloses]
    exact List.nodup_cons.mpr ⟨hnot, hw.once⟩
  · intro owner
    rw [hcloses, List.map_cons, List.mem_cons, hw.closed owner, free_next, free_heap]
    constructor
    · intro hor
      rcases hor with rfl | ⟨q, rfl, hq, hnone⟩
      · exact ⟨h, rfl, hlt, by simp⟩
      · refine ⟨q, rfl, hq, ?_⟩
        by_cases heq : q = h
        · simp [heq]
        · rw [Function.update_of_ne heq]
          exact hnone
    · intro hex
      obtain ⟨q, rfl, hq, hnone⟩ := hex
      by_cases heq : q = h
      · exact Or.inl (congrArg some heq)
      · rw [Function.update_of_ne heq] at hnone
        exact Or.inr ⟨q, rfl, hq, hnone⟩

/-- A number that was free is given to a descriptor of a new handle. -/
theorem openFd_table {fd : UInt32} {device : Str} {oflags : UInt32} (hopen : Opened w) (hfd : w.table fd = none)
    (hhd : w.heap h = some hd) : ∃ file, (w.openFd devs fd device oflags).table hd.fd = some ⟨h, file⟩ := by
  obtain ⟨file, hfile⟩ := hopen.table h hd hhd
  refine ⟨file, ?_⟩
  have hne : hd.fd ≠ fd := by
    intro heq
    rw [heq, hfd] at hfile
    cases hfile
  simp [openFd, Function.update_of_ne hne, hfile]

/-- A logical partition is copied by its path, another one by that of the device of its handle. -/
theorem copyPath_cases {src : PartitionObject} {info : Bool} {path : Str}
    (h' : w.copyPath src h info = some (w', path)) :
    (src.isLogical = true ∧ w' = w ∧ path = src.logicalPartitionPath) ∨
      (src.isLogical ≠ true ∧ w.openpart_get_part_path h info = some (w', some path)) := by
  unfold copyPath at h'
  split at h'
  next hlogical =>
    cases h'
    exact Or.inl ⟨hlogical, rfl, rfl⟩
  next hphysical =>
    obtain ⟨ans, hans, h'⟩ := Option.bind_eq_some_iff.mp h'
    obtain ⟨p, hp, h'⟩ := Option.map_eq_some_iff.mp h'
    cases h'
    rw [← hp]
    exact Or.inr ⟨hphysical, hans⟩

/-- Everything `openpart_open` can do: fail without a trace but a closed descriptor,
or allocate a handle with a descriptor of its own. -/
theorem openpart_open_cases {path : Option Str} {flags extra : UInt32} {answer : OpenAnswer}
    (h : w.openpart_open devs path flags extra answer = some (w', op)) :
    (w' = w ∧ op = .null) ∨
    (∃ fd device, w.table fd = none ∧ op = .null ∧
      w' = (w.openFd devs fd device (openFlags flags extra)).close fd) ∨
    (∃ fd device p, path = some p ∧ devs.realpath p = some device ∧ answer = .opened fd ∧ w.table fd = none ∧
      op = .handle w.next ∧
      w' = { w.openFd devs fd device (openFlags flags extra) with
        heap := Function.update w.heap w.next
          (some { fd := fd, flags := flags, sector_size := devs.handleSectorSize flags device }) }) := by
  cases answer with
  | refused =>
    obtain ⟨rfl, rfl⟩ := Prod.mk.inj (Option.some.inj h)
    exact Or.inl ⟨rfl, rfl⟩
  | dropped fd =>
    obtain ⟨device, _, h⟩ := Option.bind_eq_some_iff.mp h
    split at h
    next hfree =>
      obtain ⟨rfl, rfl⟩ := Prod.mk.inj (Option.some.inj h)
      rw [freeFd, Bool.and_eq_true, Option.isNone_iff_eq_none] at hfree
      exact Or.inr (Or.inl ⟨fd, device, hfree.1, rfl, rfl⟩)
    next => cases h
  | opened fd =>
    obtain ⟨device, hdevice, h⟩ := Option.bind_eq_some_iff.mp h
    obtain ⟨p, hp, hreal⟩ := Option.bind_eq_some_iff.mp hdevice
    dsimp only at h
    split at h
    next hfree =>
      obtain ⟨rfl, rfl⟩ := Prod.mk.inj (Option.some.inj h)
      rw [freeFd, Bool.and_eq_true, Option.isNone_iff_eq_none] at hfree
      exact Or.inr (Or.inr ⟨fd, device, p, hp, hreal, rfl, hfree.1, rfl, rfl⟩)
    next => cases h

theorem openpart_open_places {path : Option Str} {flags extra : UInt32} {answer : OpenAnswer}
    (h : w.openpart_open devs path flags extra answer = some (w', op)) :
    w'.objects = w.objects ∧ w'.raw = w.raw := by
  rcases openpart_open_cases h with ⟨rfl, _⟩ | ⟨_, _, _, _, rfl⟩ | ⟨_, _, _, _, _, _, _, _, rfl⟩
  · exact ⟨rfl, rfl⟩
  · exact ⟨rfl, rfl⟩
  · exact ⟨rfl, rfl⟩

theorem dropped_table {fd : UInt32} {device : Str} {oflags : UInt32} (hfd : w.table fd = none) :
    ((w.openFd devs fd device oflags).close fd).table = w.table := by
  funext fd'
  by_cases heq : fd' = fd
  · subst fd'
    simp [close, hfd]
  · simp [close, openFd, heq]

theorem Opened.dropped {fd : UInt32} {device : Str} {oflags : UInt32} (hopen : Opened w) (hfd : w.table fd = none) :
    Opened ((w.openFd devs fd device oflags).close fd) := by
  refine ⟨?_, ?_⟩
  · intro q op hq
    rw [dropped_table hfd]
    exact hopen.table q op hq
  · intro q hq
    exact hopen.fresh q (Nat.le_of_succ_le hq)

theorem Opened.opened {fd : UInt32} {device : Str} {oflags : UInt32} (hopen : Opened w) (hfd : w.table fd = none)
    (hnew : hd.fd = fd) :
    Opened { w.openFd devs fd device oflags with heap := Function.update w.heap w.next (some hd) } := by
  refine ⟨?_, ?_⟩
  · intro q op hq
    by_cases heq : q = w.next
    · subst q
      have hop : hd = op := by simpa using hq
      subst op
      exact ⟨_, by simp [openFd, hnew]; rfl⟩
    · have hold : w.heap q = some op := by simpa [heq] using hq
      exact openFd_table hopen hfd hold
  · intro q hq
    have hne : q ≠ w.next := by
      intro heq
      subst q
      exact absurd hq (Nat.not_succ_le_self _)
    show Function.update w.heap w.next (some hd) q = none
    rw [Function.update_of_ne hne]
    exact hopen.fresh q (Nat.le_of_succ_le hq)

theorem Balanced.not_closed (hw : Balanced w) : some w.next ∉ w.closes.map Prod.snd := by
  intro hmem
  obtain ⟨q, hq, hlt, _⟩ := (hw.closed _).mp hmem
  rw [← Option.some.inj hq] at hlt
  exact Nat.lt_irrefl _ hlt

theorem Balanced.dropped {fd : UInt32} {device : Str} {oflags : UInt32} (hw : Balanced w) (hfd : w.table fd = none) :
    Balanced ((w.openFd devs fd device oflags).close fd) := by
  have hcloses : ((w.openFd devs fd device oflags).close fd).closes = (fd, some w.next) :: w.closes := by
    simp [close, openFd]
  refine ⟨hw.toOpened.dropped hfd, ?_, ?_, ?_⟩
  · intro fd' d hd'
    rw [dropped_table hfd] at hd'
    exact hw.descriptors fd' d hd'
  · rw [hcloses]
    exact List.nodup_cons.mpr ⟨hw.not_closed, hw.once⟩
  · intro owner
    rw [hcloses, List.map_cons, List.mem_cons, hw.closed owner]
    constructor
    · intro hor
      rcases hor with rfl | ⟨q, rfl, hq, hnone⟩
      · exact ⟨w.next, rfl, Nat.lt_succ_self _, hw.fresh _ (Nat.le_refl _)⟩
      · exact ⟨q, rfl, Nat.lt_succ_of_lt hq, hnone⟩
    · intro hex
      obtain ⟨q, rfl, hq, hnone⟩ := hex
      rcases Nat.lt_succ_iff_lt_or_eq.mp hq with hlt | rfl
      · exact Or.inr ⟨q, rfl, hlt, hnone⟩
      · exact Or.inl rfl

theorem Balanced.opened {fd : UInt32} {device : Str} {oflags : UInt32} (hw : Balanced w) (hfd : w.table fd = none)
    (hnew : hd.fd = fd) :
    Balanced { w.openFd devs fd device oflags with heap := Function.update w.heap w.next (some hd) } := by
  refine ⟨hw.toOpened.opened hfd hnew, ?_, hw.once, ?_⟩
  · intro fd' d hd'
    by_cases heq : fd' = fd
    · subst fd'
      have howner : d.owner = w.next := by
        simp only [openFd, Function.update_self, Option.some.injEq] at hd'
        rw [← hd']
      exact ⟨hd, by simp [howner], hnew⟩
    · have hold : w.table fd' = some d := by simpa [openFd, heq] using hd'
      obtain ⟨op, hop, hopfd⟩ := hw.descriptors fd' d hold
      have hne : d.owner ≠ w.next := by
        intro hnext
        rw [hnext, hw.fresh _ (Nat.le_refl _)] at hop
        cases hop
      exact ⟨op, by simp [hne, hop], hopfd⟩
  · intro owner
    show owner ∈ w.closes.map Prod.snd ↔ _
    rw [hw.closed owner]
    constructor
    · intro hex
      obtain ⟨q, rfl, hq, hnone⟩ := hex
      exact ⟨q, rfl, Nat.lt_succ_of_lt hq, by simp [Nat.ne_of_lt hq, hnone]⟩
    · intro hex
      obtain ⟨q, rfl, hq, hnone⟩ := hex
      have hne : q ≠ w.next := by
        intro heq
        simp [heq] at hnone
      refine ⟨q, rfl, Nat.lt_of_le_of_ne (Nat.lt_succ_iff.mp hq) hne, ?_⟩
      simpa [hne] using hnone

/-- What changes neither handles nor descriptors keeps the balance. -/
theorem Balanced.congr (hw : Balanced w) (hheap : w'.heap = w.heap) (hnext : w'.next = w.next)
    (htable : w'.table = w.table) (hcloses : w'.closes = w.closes) : Balanced w' := by
  refine ⟨⟨?_, ?_⟩, ?_, ?_, ?_⟩
  · rw [hheap, htable]
    exact hw.table
  · rw [hheap, hnext]
    exact hw.fresh
  · rw [hheap, htable]
    exact hw.descriptors
  · rw [hcloses]
    exact hw.once
  · rw [hcloses, hheap, hnext]
    exact hw.closed

theorem Balanced.openpart_open {path : Option Str} {flags extra : UInt32} {answer : OpenAnswer} (hw : Balanced w)
    (h : w.openpart_open devs path flags extra answer = some (w', op)) : Balanced w' := by
  rcases openpart_open_cases h with ⟨rfl, _⟩ | ⟨_, _, hfd, _, rfl⟩ | ⟨_, _, _, _, _, _, hfd, _, rfl⟩
  · exact hw
  · exact hw.dropped hfd
  · exact hw.opened hfd rfl

theorem Opened.openpart_open {path : Option Str} {flags extra : UInt32} {answer : OpenAnswer} (hopen : Opened w)
    (h : w.openpart_open devs path flags extra answer = some (w', op)) : Opened w' := by
  rcases openpart_open_cases h with ⟨rfl, _⟩ | ⟨_, _, hfd, _, rfl⟩ | ⟨_, _, _, _, _, _, hfd, _, rfl⟩
  · exact hopen
  · exact hopen.dropped hfd
  · exact hopen.opened hfd rfl

theorem loaded_cases {info : Bool} {ans : Option OpenPartT} (h' : w.loaded h info = some (w', ans)) :
    w' = w ∨ ∃ hd, w.heap h = some hd ∧
      w' = { w with heap := Function.update w.heap h (some { hd with info_loaded := true }) } := by
  unfold loaded at h'
  split at h'
  next => cases h'
  next op hop =>
    split at h'
    next =>
      cases h'
      exact Or.inl rfl
    next =>
      split at h'
      next =>
        cases h'
        exact Or.inl rfl
      next =>
        split at h'
        next d hd =>
          split at h'
          next =>
            cases h'
            exact Or.inr ⟨op, hop, rfl⟩
          next => cases h'
        next => cases h'

section

variable (hhd : w.heap h = some hd)

include hhd

theorem isSome_load (r : Nat) :
    (Function.update w.heap h (some { hd with info_loaded := true }) r).isSome = (w.heap r).isSome := by
  by_cases hr : r = h
  · subst r
    simp [hhd]
  · simp [hr]

theorem eq_none_load (r : Nat) :
    Function.update w.heap h (some { hd with info_loaded := true }) r = none ↔ w.heap r = none := by
  rw [← Option.isNone_iff_eq_none, ← Option.isNone_iff_eq_none, ← Option.not_isSome, ← Option.not_isSome,
    isSome_load hhd]

/-- Reading the header changes nothing but the mark that it was read. -/
theorem Opened.load (hopen : Opened w) :
    Opened { w with heap := Function.update w.heap h (some { hd with info_loaded := true }) } := by
  refine ⟨?_, ?_⟩
  · intro r op hr
    by_cases heq : r = h
    · subst r
      dsimp only at hr
      rw [Function.update_self] at hr
      rw [← Option.some.inj hr]
      exact hopen.table h hd hhd
    · exact hopen.table r op (by simpa [heq] using hr)
  · intro r hr
    exact (eq_none_load hhd r).mpr (hopen.fresh r hr)

theorem Balanced.load (hw : Balanced w) :
    Balanced { w with heap := Function.update w.heap h (some { hd with info_loaded := true }) } := by
  refine ⟨hw.toOpened.load hhd, ?_, hw.once, ?_⟩
  · intro fd d hd'
    obtain ⟨op, hop, hfd⟩ := hw.descriptors fd d hd'
    by_cases heq : d.owner = h
    · rw [heq, hhd] at hop
      cases Option.some.inj hop
      exact ⟨{ hd with info_loaded := true }, by simp [heq], hfd⟩
    · exact ⟨op, by simp [heq, hop], hfd⟩
  · intro owner
    simp only [eq_none_load hhd]
    exact hw.closed owner

end

theorem openedLedger : Ledger Opened fun _ => True where
  opened _ hw := hw
  congr w w' hw hheap hnext htable _ := by
    refine ⟨?_, ?_⟩
    · rw [hheap, htable]
      exact hw.table
    · rw [hheap, hnext]
      exact hw.fresh
  openpart_open _ _ _ _ _ _ _ _ hw h := hw.openpart_open h
  load _ _ _ hw hhd := hw.load hhd
  free _ _ _ hw hhd _ := hw.free hhd

theorem balancedLedger : Ledger Balanced fun hd => hd.fd ≠ 0 where
  opened _ hw := hw.toOpened
  congr _ _ hw hheap hnext htable hcloses := hw.congr hheap hnext htable hcloses
  openpart_open _ _ _ _ _ _ _ _ hw h := hw.openpart_open h
  load _ _ _ hw hhd := hw.load hhd
  free _ _ _ hw hhd hfd := hw.free hhd hfd

end World

end PartitionManager
