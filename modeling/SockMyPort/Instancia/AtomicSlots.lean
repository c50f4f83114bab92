/-
# The slots that can be given up

The loops of the replacement algorithms give up the first atomic slots of a list, as many as
entries are needed. In a status table that agrees with the entry table the atomic slots are
the places of the atomic entries, so that distinct slots are distinct keys.
-/

import SockMyPort.Instancia.AgeOrder
import Mathlib.Data.List.Rotate

namespace SockMyPort.Instancia

open SockMyPort.Commons Library

variable {config : Config}

/-! ## Visiting slots -/

/-- The slot is atomic. -/
def isAtomicAt (table : List Status) (slot : ℕ) : Bool :=
  decide ((statusAt table slot).status = .atomic)

/-- The table after some slots have been given up. -/
def giveUpSlots (table : List Status) (slots : List ℕ) : List Status :=
  table.mapIdx fun slot status => if slot ∈ slots then status.giveUp else status

theorem statusAt_set_ne {table : List Status} {slot other : ℕ} (status : Status)
    (hne : slot ≠ other) : statusAt (table.set slot status) other = statusAt table other := by
  simp only [statusAt, List.getD_eq_getElem?_getD, List.getElem?_set_ne hne]

@[simp]
theorem giveUpSlots_nil (table : List Status) : giveUpSlots table [] = table := by
  apply List.ext_getElem?
  intro slot
  simp [giveUpSlots]

theorem giveUpSlots_set {table : List Status} {slot : ℕ} {slots : List ℕ} (hslot : slot ∉ slots) :
    giveUpSlots (table.set slot (statusAt table slot).giveUp) slots =
      giveUpSlots table (slot :: slots) := by
  apply List.ext_getElem?
  intro other
  simp only [giveUpSlots, List.getElem?_mapIdx, List.getElem?_set]
  by_cases hsame : slot = other
  · subst hsame
    by_cases hlength : slot < table.length
    · simp [hlength, hslot, statusAt]
    · simp [hlength]
  · have hne : other ≠ slot := fun hother => hsame hother.symm
    simp [hsame, hne]

theorem statusAt_giveUpSlots_of_not_mem {table : List Status} {slots : List ℕ} {slot : ℕ}
    (hslot : slot ∉ slots) : statusAt (giveUpSlots table slots) slot = statusAt table slot := by
  simp only [statusAt, List.getD_eq_getElem?_getD, giveUpSlots, List.getElem?_mapIdx, hslot,
    if_false]
  cases table[slot]? <;> rfl

theorem statusAt_giveUpSlots_of_mem {table : List Status} {slots : List ℕ} {slot : ℕ}
    (hslot : slot ∈ slots) (hatomic : isAtomicAt table slot = true) :
    statusAt (giveUpSlots table slots) slot = (statusAt table slot).giveUp := by
  have hget := getElem?_of_atomic (of_decide_eq_true hatomic)
  rw [statusAt, List.getD_eq_getElem?_getD, giveUpSlots, List.getElem?_mapIdx, hget]
  simp [hslot]

/-- What is given up is not atomic any more. -/
theorem isAtomicAt_giveUpSlots {table : List Status} {slots : List ℕ}
    (hatomic : ∀ slot ∈ slots, isAtomicAt table slot = true) (slot : ℕ) :
    isAtomicAt (giveUpSlots table slots) slot =
      (isAtomicAt table slot && decide (slot ∉ slots)) := by
  by_cases hslot : slot ∈ slots
  · rw [isAtomicAt, statusAt_giveUpSlots_of_mem hslot (hatomic slot hslot)]
    simp [Status.giveUp, hslot]
  · rw [isAtomicAt, statusAt_giveUpSlots_of_not_mem hslot]
    simp [isAtomicAt, hslot]

/-- Slots of any status keep their sizes. -/
theorem spaceUsed_giveUpSlots (table : List Status) (slots : List ℕ) (slot : ℕ) :
    (statusAt (giveUpSlots table slots) slot).spaceUsed = (statusAt table slot).spaceUsed := by
  simp only [statusAt, List.getD_eq_getElem?_getD, giveUpSlots, List.getElem?_mapIdx]
  cases table[slot]? with
  | none => rfl
  | some status =>
      simp only [Option.map_some, Option.getD_some]
      split <;> rfl

theorem Replacement.visit_of_atomic {replacement : Replacement} {slot : ℕ}
    (hatomic : isAtomicAt replacement.table slot = true) :
    replacement.visit slot =
      { table := replacement.table.set slot (statusAt replacement.table slot).giveUp
        replacedKeys := replacement.replacedKeys ++ [(statusAt replacement.table slot).key]
        entriesNeeded := replacement.entriesNeeded - 1
        totalReplaced := replacement.totalReplaced + 1 } := by
  have hstatus := of_decide_eq_true hatomic
  simp only [Replacement.visit, getElem?_of_atomic hstatus, hstatus, if_true]
  rfl

theorem Replacement.visit_of_not_atomic {replacement : Replacement} {slot : ℕ}
    (hatomic : isAtomicAt replacement.table slot = false) :
    replacement.visit slot = replacement := by
  simp only [Replacement.visit]
  split
  · rename_i status hslot
    rw [isAtomicAt, statusAt_of_getElem? hslot] at hatomic
    rw [if_neg (of_decide_eq_false hatomic)]
  · rfl

theorem isAtomicAt_set_of_ne {table : List Status} {slot other : ℕ} (status : Status)
    (hne : slot ≠ other) : isAtomicAt (table.set slot status) other = isAtomicAt table other := by
  rw [isAtomicAt, statusAt_set_ne status hne, isAtomicAt]

/-- Slots that are all atomic are all given up. -/
theorem Replacement.foldl_visit {victims : List ℕ} (hnodup : victims.Nodup)
    (replacement : Replacement)
    (hatomic : ∀ slot ∈ victims, isAtomicAt replacement.table slot = true) :
    victims.foldl Replacement.visit replacement =
      { table := giveUpSlots replacement.table victims
        replacedKeys := replacement.replacedKeys ++
          victims.map fun slot => (statusAt replacement.table slot).key
        entriesNeeded := replacement.entriesNeeded - victims.length
        totalReplaced := replacement.totalReplaced + victims.length } := by
  induction victims generalizing replacement with
  | nil => simp
  | cons slot victims ih =>
      obtain ⟨hslot, hrest⟩ := List.nodup_cons.mp hnodup
      have hne : ∀ other ∈ victims, slot ≠ other := by
        intro other hmem hsame
        exact hslot (hsame ▸ hmem)
      rw [List.foldl_cons, Replacement.visit_of_atomic (hatomic slot List.mem_cons_self),
        ih hrest _ fun other hmem => ?_]
      · have hkeys : (victims.map fun other => (statusAt
            (replacement.table.set slot (statusAt replacement.table slot).giveUp) other).key) =
            victims.map fun other => (statusAt replacement.table other).key := by
          apply List.map_congr_left
          intro other hmem
          rw [statusAt_set_ne _ (hne other hmem)]
        simp only [giveUpSlots_set hslot, hkeys, List.map_cons, List.append_assoc,
          List.singleton_append, List.length_cons]
        congr 1 <;> omega
      · rw [isAtomicAt_set_of_ne _ (hne other hmem)]
        exact hatomic other (List.mem_cons_of_mem _ hmem)

/-- The first atomic slots, as many as entries are needed. -/
def Replacement.victims (replacement : Replacement) (slots : List ℕ) : List ℕ :=
  (slots.filter (isAtomicAt replacement.table)).take replacement.entriesNeeded.toNat

theorem Replacement.scan_of_done {replacement : Replacement} (hdone : replacement.entriesNeeded = 0)
    (slots : List ℕ) : replacement.scan slots = (replacement, 0) := by
  cases slots with
  | nil => rfl
  | cons slot slots => simp [Replacement.scan, hdone]

theorem Replacement.scan_cons {replacement : Replacement} (hneeded : replacement.entriesNeeded ≠ 0)
    (slot : ℕ) (slots : List ℕ) :
    replacement.scan (slot :: slots) =
      (((replacement.visit slot).scan slots).1, ((replacement.visit slot).scan slots).2 + 1) := by
  simp [Replacement.scan, hneeded]

/-- The victims after the first slot. -/
theorem Replacement.victims_cons {slot : ℕ} {slots : List ℕ} (hslot : slot ∉ slots)
    {replacement : Replacement} (hneeded : 0 < replacement.entriesNeeded) :
    replacement.victims (slot :: slots) =
      if isAtomicAt replacement.table slot = true then
        slot :: (replacement.visit slot).victims slots
      else (replacement.visit slot).victims slots := by
  by_cases hatomic : isAtomicAt replacement.table slot = true
  · have hsucc : replacement.entriesNeeded.toNat = (replacement.entriesNeeded - 1).toNat + 1 := by
      omega
    have hfilter : slots.filter (isAtomicAt (replacement.table.set slot
        (statusAt replacement.table slot).giveUp)) =
        slots.filter (isAtomicAt replacement.table) := by
      apply List.filter_congr
      intro other hmem
      apply isAtomicAt_set_of_ne
      intro hsame
      exact hslot (hsame ▸ hmem)
    rw [if_pos hatomic, Replacement.visit_of_atomic hatomic, Replacement.victims,
      List.filter_cons_of_pos hatomic, hsucc, List.take_succ_cons, Replacement.victims, hfilter]
  · have hfalse := Bool.eq_false_iff.mpr hatomic
    rw [if_neg hatomic, Replacement.visit_of_not_atomic hfalse, Replacement.victims,
      List.filter_cons_of_neg hatomic, Replacement.victims]

/-- **The loop** gives its victims up and leaves the other slots alone. -/
theorem Replacement.scan_fst {slots : List ℕ} (hnodup : slots.Nodup) (replacement : Replacement)
    (hneeded : 0 ≤ replacement.entriesNeeded) :
    (replacement.scan slots).1 =
      (replacement.victims slots).foldl Replacement.visit replacement := by
  induction slots generalizing replacement with
  | nil => simp [Replacement.scan, Replacement.victims]
  | cons slot slots ih =>
      obtain ⟨hslot, hrest⟩ := List.nodup_cons.mp hnodup
      by_cases hzero : replacement.entriesNeeded = 0
      · rw [Replacement.scan_of_done hzero]
        simp [Replacement.victims, hzero]
      · rw [Replacement.scan_cons hzero, Replacement.victims_cons hslot (by omega)]
        by_cases hatomic : isAtomicAt replacement.table slot = true
        · rw [if_pos hatomic, List.foldl_cons]
          apply ih hrest
          rw [Replacement.visit_of_atomic hatomic]
          simp only
          omega
        · rw [if_neg hatomic, Replacement.visit_of_not_atomic (Bool.eq_false_iff.mpr hatomic)]
          exact ih hrest replacement hneeded

/-- One loop after another is a loop over both lists. -/
theorem Replacement.scan_append (replacement : Replacement) (first second : List ℕ) :
    (replacement.scan (first ++ second)).1 = ((replacement.scan first).1.scan second).1 := by
  induction first generalizing replacement with
  | nil => rfl
  | cons slot first ih =>
      by_cases hzero : replacement.entriesNeeded = 0
      · simp only [Replacement.scan_of_done hzero]
      · rw [List.cons_append, Replacement.scan_cons hzero, Replacement.scan_cons hzero, ih]

theorem Replacement.mem_victims {replacement : Replacement} {slots : List ℕ} {slot : ℕ}
    (hmem : slot ∈ replacement.victims slots) :
    slot ∈ slots ∧ isAtomicAt replacement.table slot = true :=
  List.mem_filter.mp (List.mem_of_mem_take hmem)

theorem Replacement.nodup_victims {slots : List ℕ} (hnodup : slots.Nodup)
    (replacement : Replacement) : (replacement.victims slots).Nodup :=
  (hnodup.filter _).sublist (List.take_sublist ..)

/-- What the loop leaves behind. -/
theorem Replacement.scan_eq {slots : List ℕ} (hnodup : slots.Nodup) (replacement : Replacement)
    (hneeded : 0 ≤ replacement.entriesNeeded) :
    (replacement.scan slots).1 =
      { table := giveUpSlots replacement.table (replacement.victims slots)
        replacedKeys := replacement.replacedKeys ++
          (replacement.victims slots).map fun slot => (statusAt replacement.table slot).key
        entriesNeeded := replacement.entriesNeeded - (replacement.victims slots).length
        totalReplaced := replacement.totalReplaced + (replacement.victims slots).length } := by
  rw [Replacement.scan_fst hnodup replacement hneeded]
  exact Replacement.foldl_visit (replacement.nodup_victims hnodup) replacement
    fun slot hmem => (Replacement.mem_victims hmem).2

/-! ## Where the loop stops -/

/-- Over consecutive slots the loop stops behind its last victim. -/
theorem Replacement.scan_snd_of_enough (start count : ℕ) (replacement : Replacement)
    (hneeded : 0 < replacement.entriesNeeded)
    (henough : replacement.entriesNeeded ≤
      ((List.range' start count).filter (isAtomicAt replacement.table)).length) :
    ∃ last, (replacement.victims (List.range' start count)).getLast? = some last ∧
      last < start + count ∧ start + (replacement.scan (List.range' start count)).2 = last + 1 := by
  induction count generalizing start replacement with
  | zero =>
      rw [List.range'_zero, List.filter_nil, List.length_nil] at henough
      omega
  | succ count ih =>
      have hslot : start ∉ List.range' (start + 1) count := by
        rw [List.mem_range'_1]
        omega
      rw [List.range'_succ] at henough ⊢
      rw [Replacement.victims_cons hslot hneeded, Replacement.scan_cons (by omega)]
      by_cases hatomic : isAtomicAt replacement.table start = true
      · rw [if_pos hatomic]
        have hvisit := Replacement.visit_of_atomic hatomic
        have hlength : ((List.range' (start + 1) count).filter
            (isAtomicAt (replacement.visit start).table)).length =
            ((List.range' (start + 1) count).filter (isAtomicAt replacement.table)).length := by
          rw [hvisit]
          congr 1
          apply List.filter_congr
          intro other hmem
          apply isAtomicAt_set_of_ne
          intro hsame
          exact hslot (hsame ▸ hmem)
        have hless : (replacement.visit start).entriesNeeded = replacement.entriesNeeded - 1 := by
          rw [hvisit]
        by_cases hone : replacement.entriesNeeded = 1
        · have hdone : (replacement.visit start).entriesNeeded = 0 := by omega
          refine ⟨start, ?_, by omega, ?_⟩
          · simp [Replacement.victims, hdone]
          · rw [Replacement.scan_of_done hdone]
        · rw [List.filter_cons_of_pos hatomic, List.length_cons] at henough
          obtain ⟨last, hlast, hrange, hstop⟩ := ih (start + 1) (replacement.visit start)
            (by omega) (by omega)
          refine ⟨last, ?_, by omega, by omega⟩
          rw [List.getLast?_cons, hlast, Option.getD_some]
      · have hfalse := Bool.eq_false_iff.mpr hatomic
        rw [List.filter_cons_of_neg hatomic] at henough
        rw [if_neg hatomic, Replacement.visit_of_not_atomic hfalse]
        obtain ⟨last, hlast, hrange, hstop⟩ := ih (start + 1) replacement hneeded henough
        exact ⟨last, hlast, by omega, by omega⟩

/-- With too few atomic slots the loop visits them all. -/
theorem Replacement.scan_snd_of_short {slots : List ℕ} (hnodup : slots.Nodup)
    (replacement : Replacement)
    (hshort : ((slots.filter (isAtomicAt replacement.table)).length : ℤ) <
      replacement.entriesNeeded) :
    (replacement.scan slots).2 = slots.length := by
  induction slots generalizing replacement with
  | nil => rfl
  | cons slot slots ih =>
      obtain ⟨hslot, hrest⟩ := List.nodup_cons.mp hnodup
      rw [Replacement.scan_cons (by omega), List.length_cons, ih hrest]
      by_cases hatomic : isAtomicAt replacement.table slot = true
      · rw [List.filter_cons_of_pos hatomic, List.length_cons] at hshort
        have hfilter : slots.filter (isAtomicAt (replacement.visit slot).table) =
            slots.filter (isAtomicAt replacement.table) := by
          rw [Replacement.visit_of_atomic hatomic]
          apply List.filter_congr
          intro other hmem
          apply isAtomicAt_set_of_ne
          intro hsame
          exact hslot (hsame ▸ hmem)
        rw [hfilter, Replacement.visit_of_atomic hatomic]
        simp only
        omega
      · rw [List.filter_cons_of_neg hatomic] at hshort
        rw [Replacement.visit_of_not_atomic (Bool.eq_false_iff.mpr hatomic)]
        exact hshort

/-! ## Slots and entries -/

variable (config) in
/-- The atomic slots are the places of the atomic entries. -/
structure AtomicSlots (table : List Entry) (statuses : List Status) : Prop where
  own : ∀ entry ∈ table, entryTableIsEntryAtomic config entry = true →
    (statusAt statuses entry.number).status = .atomic ∧
      (statusAt statuses entry.number).key = entry.key
  only : ∀ slot, (statusAt statuses slot).status = .atomic →
    ∃ entry ∈ table, entryTableIsEntryAtomic config entry = true ∧ entry.number = slot

variable (config) in
/-- So many distinct keys, each with an atomic entry in the table. -/
structure AtomicKeys (table : List Entry) (count : ℤ) (keys : List CString) : Prop where
  length : keys.length = count
  nodup : keys.Nodup
  atomic : ∀ key ∈ keys, ∃ entry, entryTableGetEntry table key = some entry ∧
    entryTableIsEntryAtomic config entry = true

theorem AgedInOrder.atomicSlots {order : List CString} {limit : ℤ} {table : List Entry}
    {statuses : List Status} (h : AgedInOrder config order limit [] table statuses) :
    AtomicSlots config table statuses where
  own := h.own
  only slot hatomic := h.only slot (by simp) hatomic

/-- A status table that agrees with the entry table has such slots. -/
theorem CoherentStatus.atomicSlots {table : List Entry} {statuses : List Status} {left : ℤ}
    (h : CoherentStatus config table statuses) (inv : TableInvariant config table left)
    (hlength : statuses.length = config.totalEntries) : AtomicSlots config table statuses where
  own entry hmem hatomic := by
    have hinside := inv.inside entry hmem
    have hpos := inv.slots_pos entry hmem
    obtain ⟨hkey, hstatus, -⟩ := convertEntryToStatus_spec config entry
    have hget : statuses[entry.number]? = some (statusAt statuses entry.number) := by
      have hlt : entry.number < statuses.length := by omega
      rw [List.getElem?_eq_getElem hlt, statusAt_of_getElem? (List.getElem?_eq_getElem hlt)]
    obtain ⟨hsame, hname, -⟩ := h.occupied entry.number _ hget entry hmem (by
      rw [Entry.mem_run]
      omega)
    exact ⟨hsame.trans (hstatus.mpr hatomic), hname.trans hkey⟩
  only slot hatomic := by
    have hget := getElem?_of_atomic hatomic
    by_contra hnone
    apply h.unoccupied slot _ hget ?_ (Or.inl hatomic)
    intro entry hmem hrun
    obtain ⟨hsame, -⟩ := h.occupied slot _ hget entry hmem hrun
    have hentry := (convertEntryToStatus_spec config entry).2.1.mp (hsame.symm.trans hatomic)
    have hone := reqEntries_of_atomic hentry (inv.nonempty entry hmem)
    rw [Entry.mem_run, Entry.slots, hone] at hrun
    exact hnone ⟨entry, hmem, hentry, by omega⟩

namespace AtomicSlots

variable {table : List Entry} {statuses : List Status} {left : ℤ}

theorem entry_of_atomic (h : AtomicSlots config table statuses) {slot : ℕ}
    (hatomic : isAtomicAt statuses slot = true) :
    ∃ entry ∈ table, entryTableIsEntryAtomic config entry = true ∧ entry.number = slot ∧
      (statusAt statuses slot).key = entry.key := by
  obtain ⟨entry, hmem, hentry, rfl⟩ := h.only slot (of_decide_eq_true hatomic)
  exact ⟨entry, hmem, hentry, rfl, (h.own entry hmem hentry).2⟩

/-- A list of all the atomic slots lists the places of the atomic entries. -/
theorem perm (h : AtomicSlots config table statuses) (inv : TableInvariant config table left)
    {slots : List ℕ} (hnodup : slots.Nodup)
    (hall : ∀ slot, slot ∈ slots ↔ isAtomicAt statuses slot = true) :
    slots.Perm ((table.filter (entryTableIsEntryAtomic config)).map Entry.number) := by
  have hnumbers : (table.map Entry.number).Nodup :=
    List.pairwise_map.mpr (inv.numbers_lt.imp Nat.ne_of_lt)
  apply (List.perm_ext_iff_of_nodup hnodup (hnumbers.sublist (List.filter_sublist.map _))).mpr
  intro slot
  rw [hall, isAtomicAt, decide_eq_true_eq]
  constructor
  · intro hatomic
    obtain ⟨entry, hmem, hentry, hnumber⟩ := h.only slot hatomic
    exact List.mem_map.mpr ⟨entry, List.mem_filter.mpr ⟨hmem, hentry⟩, hnumber⟩
  · intro hmem
    obtain ⟨entry, hentry, rfl⟩ := List.mem_map.mp hmem
    obtain ⟨htable, hatomic⟩ := List.mem_filter.mp hentry
    exact (h.own entry htable hatomic).1

/-- Distinct atomic slots are distinct keys of atomic entries. -/
theorem atomicKeys (h : AtomicSlots config table statuses) (inv : TableInvariant config table left)
    {slots : List ℕ} (hnodup : slots.Nodup)
    (hatomic : ∀ slot ∈ slots, isAtomicAt statuses slot = true) :
    AtomicKeys config table slots.length (slots.map fun slot => (statusAt statuses slot).key) := by
  constructor
  · rw [List.length_map]
  · apply hnodup.map_on
    intro first hfirst second hsecond hkey
    obtain ⟨entry, hmem, -, rfl, hname⟩ := h.entry_of_atomic (hatomic first hfirst)
    obtain ⟨other, hother, -, rfl, hname'⟩ := h.entry_of_atomic (hatomic second hsecond)
    rw [hname, hname'] at hkey
    rw [List.inj_on_of_nodup_map inv.keysDistinct hmem hother hkey]
  · intro key hkey
    obtain ⟨slot, hslot, rfl⟩ := List.mem_map.mp hkey
    obtain ⟨entry, hmem, hentry, -, hname⟩ := h.entry_of_atomic (hatomic slot hslot)
    exact ⟨entry, (inv.getEntry_eq_some_iff _ _).mpr ⟨hmem, hname.symm⟩, hentry⟩

/-- There are as many atomic slots as atomic entries. -/
theorem length_eq (h : AtomicSlots config table statuses) (inv : TableInvariant config table left)
    {slots : List ℕ} (hnodup : slots.Nodup)
    (hall : ∀ slot, slot ∈ slots ↔ isAtomicAt statuses slot = true) :
    slots.length = entryTableAtomicEntriesCount config table := by
  rw [(h.perm inv hnodup hall).length_eq, List.length_map, ← List.countP_eq_length_filter]
  rfl

end AtomicSlots

end SockMyPort.Instancia
