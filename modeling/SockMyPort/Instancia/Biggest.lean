/-
# Replacing the biggest keys

The policy by size sorts the slots by their sizes, the biggest first, and leaves the choice
among slots of one size to the circular algorithm. That algorithm subtracts the free entries
from what it is asked for, which have been subtracted already. Without free entries the
biggest keys are replaced; and so they are where the circular algorithm is not asked.
-/

import SockMyPort.Instancia.Clock

namespace SockMyPort.Instancia

open SockMyPort.Commons Library

variable {config : Config}

/-! ## What a replacement by size is to do -/

/-- `space_used` of a slot. -/
def sizeAt (table : List Status) (slot : ℕ) : ℤ := (statusAt table slot).spaceUsed

@[simp]
theorem sizeAt_giveUpSlots (table : List Status) (slots : List ℕ) (slot : ℕ) :
    sizeAt (giveUpSlots table slots) slot = sizeAt table slot := spaceUsed_giveUpSlots ..

variable (config) in
/-- The victims of this size are what a call of `algorithm_circular` gives up: the call finds
the bigger victims gone, sees no other atomic slots than those of the size, and is asked for
as many entries as are still missing. -/
def ChosenByCircular (state : InstanceState) (key : CString) (replacedKeys : List CString)
    (victims : List ℕ) (size : ℤ) (finished : InstanceState) (keys : List CString) : Prop :=
  ∃ (bigger : List ℕ) (before : InstanceState) (tied : List ℕ),
    bigger = victims.filter (fun slot => size < sizeAt state.entryTableStatusGlobal slot) ∧
    before = { state with
      entryTableStatusGlobal := giveUpSlots state.entryTableStatusGlobal bigger
      algorithmCircularPointer := before.algorithmCircularPointer } ∧
    (bigger = [] → before.algorithmCircularPointer = state.algorithmCircularPointer) ∧
    (∀ slot, slot ∈ tied ∧ isAtomicAt before.entryTableStatusGlobal slot = true ↔
      isAtomicAt state.entryTableStatusGlobal slot = true ∧
        sizeAt state.entryTableStatusGlobal slot = size) ∧
    let chosen := algorithmCircular config before tied
      (keyValueGenerator key ((victims.length - bigger.length) * config.entrySize))
      (replacedKeys ++ bigger.map fun slot => (statusAt state.entryTableStatusGlobal slot).key)
    finished = chosen.state ∧ keys = chosen.replacedKeys

/-- Two atomic slots have this size. -/
def TiedSize (table : List Status) (size : ℤ) : Prop :=
  ∃ first second, first ≠ second ∧ isAtomicAt table first = true ∧
    isAtomicAt table second = true ∧ sizeAt table first = size ∧ sizeAt table second = size

variable (config) in
/-- Some atomic slots are given up, no atomic slot that is kept is bigger than one of them, and
among slots tied at the smallest size given up the circular algorithm chooses. -/
structure BiggestReplaced (state : InstanceState) (key : CString) (replacedKeys : List CString)
    (victims : List ℕ) (finished : InstanceState) (keys : List CString) : Prop where
  nodup : victims.Nodup
  atomic : ∀ slot ∈ victims, isAtomicAt state.entryTableStatusGlobal slot = true
  statuses : finished.entryTableStatusGlobal = giveUpSlots state.entryTableStatusGlobal victims
  replaced : keys = replacedKeys ++
    victims.map fun slot => (statusAt state.entryTableStatusGlobal slot).key
  biggest : ∀ victim ∈ victims, ∀ kept, isAtomicAt state.entryTableStatusGlobal kept = true →
    kept ∉ victims →
      sizeAt state.entryTableStatusGlobal kept ≤ sizeAt state.entryTableStatusGlobal victim
  tied : ∀ smallest ∈ victims, (∀ victim ∈ victims,
    sizeAt state.entryTableStatusGlobal smallest ≤ sizeAt state.entryTableStatusGlobal victim) →
    TiedSize state.entryTableStatusGlobal (sizeAt state.entryTableStatusGlobal smallest) →
      ChosenByCircular config state key replacedKeys victims
        (sizeAt state.entryTableStatusGlobal smallest) finished keys

/-! ## The loop -/

/-- The loop after some turns, with entries still missing: the victims are bigger than every
slot that is atomic yet, and those slots are all ahead. -/
structure BsuReached (state : InstanceState) (replacedKeys : List CString) (needed : ℤ)
    (victims : List ℕ) (reached : InstanceState) (keys : List CString) (remaining : ℤ)
    (slots sameSize : List ℕ) : Prop where
  frame : reached = { state with
    entryTableStatusGlobal := giveUpSlots state.entryTableStatusGlobal victims
    algorithmCircularPointer := reached.algorithmCircularPointer }
  pointer : victims = [] → reached.algorithmCircularPointer = state.algorithmCircularPointer
  replaced : keys = replacedKeys ++
    victims.map fun slot => (statusAt state.entryTableStatusGlobal slot).key
  nodup : victims.Nodup
  atomic : ∀ slot ∈ victims, isAtomicAt state.entryTableStatusGlobal slot = true
  count : remaining + victims.length = needed
  missing : 0 < remaining
  sorted : slots.Pairwise fun first second =>
    sizeAt state.entryTableStatusGlobal second ≤ sizeAt state.entryTableStatusGlobal first
  distinct : slots.Nodup
  ahead : ∀ slot, isAtomicAt reached.entryTableStatusGlobal slot = true → slot ∈ slots
  seen : sameSize.Nodup
  bigger : ∀ slot, slot ∈ victims ∨ slot ∈ sameSize → ∀ other,
    isAtomicAt reached.entryTableStatusGlobal other = true →
      sizeAt state.entryTableStatusGlobal other < sizeAt state.entryTableStatusGlobal slot

variable (config) in
/-- A turn at an atomic slot: slots of its size are given up, all of them unless fewer are
missing. -/
structure BsuTurn (reached : InstanceState) (key : CString) (keys : List CString) (remaining : ℤ)
    (size : ℤ) (sameSize chosen : List ℕ) (next : InstanceState) (nextKeys : List CString) :
    Prop where
  nodup : chosen.Nodup
  atomic : ∀ slot ∈ chosen, isAtomicAt reached.entryTableStatusGlobal slot = true ∧
    sizeAt reached.entryTableStatusGlobal slot = size
  some : chosen ≠ []
  frame : next = { reached with
    entryTableStatusGlobal := giveUpSlots reached.entryTableStatusGlobal chosen
    algorithmCircularPointer := next.algorithmCircularPointer }
  replaced : nextKeys = keys ++
    chosen.map fun slot => (statusAt reached.entryTableStatusGlobal slot).key
  enough : (chosen.length : ℤ) ≤ remaining
  all : (chosen.length : ℤ) < remaining → ∀ slot,
    isAtomicAt reached.entryTableStatusGlobal slot = true →
      sizeAt reached.entryTableStatusGlobal slot = size → slot ∈ chosen
  tied : TiedSize reached.entryTableStatusGlobal size →
    (∀ slot, slot ∈ sameSize ∧ isAtomicAt reached.entryTableStatusGlobal slot = true ↔
      isAtomicAt reached.entryTableStatusGlobal slot = true ∧
        sizeAt reached.entryTableStatusGlobal slot = size) ∧
    let executed := algorithmCircular config reached sameSize
      (keyValueGenerator key (remaining.toNat * config.entrySize)) keys
    next = executed.state ∧ nextKeys = executed.replacedKeys

/-- Slots are given up one list after another. -/
theorem giveUpSlots_append (table : List Status) (first second : List ℕ) :
    giveUpSlots (giveUpSlots table first) second = giveUpSlots table (first ++ second) := by
  apply List.ext_getElem?
  intro slot
  simp only [giveUpSlots, List.getElem?_mapIdx, List.mem_append, Option.map_map]
  cases table[slot]? with
  | none => rfl
  | some status =>
      by_cases hfirst : slot ∈ first <;> by_cases hsecond : slot ∈ second <;>
        simp [hfirst, hsecond, Status.giveUp]

/-- The choice among slots of one size is left to the circular algorithm. -/
theorem bsuTurn_of_circular (config : Config) {reached : InstanceState} (key : CString)
    (keys : List CString) {remaining size : ℤ} {sameSize : List ℕ} (hleft : reached.entriesLeft = 0)
    (hmissing : 0 < remaining)
    (hroom : remaining ≤ entryTableAtomicEntriesCount config reached.entryTable)
    (hnodup : sameSize.Nodup)
    (hsame : ∀ slot, slot ∈ sameSize ∧ isAtomicAt reached.entryTableStatusGlobal slot = true ↔
      isAtomicAt reached.entryTableStatusGlobal slot = true ∧
        sizeAt reached.entryTableStatusGlobal slot = size)
    (hsome : ∃ slot ∈ sameSize, isAtomicAt reached.entryTableStatusGlobal slot = true) :
    let executed := algorithmCircular config reached sameSize
      (keyValueGenerator key (remaining.toNat * config.entrySize)) keys
    ∃ chosen, BsuTurn config reached key keys remaining size sameSize chosen executed.state
      executed.replacedKeys ∧ executed.result = chosen.length := by
  intro executed
  have hshort : entryTableHaveEntries config reached
      (keyValueGenerator key (remaining.toNat * config.entrySize)) = false := by
    simp only [entryTableHaveEntries, entriesNeeded_filler, hleft, decide_eq_false_iff_not]
    omega
  have hfits : newValueFits config reached
      (keyValueGenerator key (remaining.toNat * config.entrySize)) = true := by
    simp only [newValueFits, entriesNeeded_filler, hleft, decide_eq_true_eq]
    omega
  have hexecuted := algorithmCircular_eq hnodup hshort hfits keys
  have hcount : ((entryTableEntriesNeeded config
      (keyValueGenerator key (remaining.toNat * config.entrySize)) : ℤ) -
        reached.entriesLeft).toNat = remaining.toNat := by
    rw [entriesNeeded_filler, hleft]
    omega
  simp only [hcount] at hexecuted
  have hmem : ∀ slot, slot ∈ (clockOrder sameSize reached.algorithmCircularPointer).filter
      (isAtomicAt reached.entryTableStatusGlobal) ↔
        isAtomicAt reached.entryTableStatusGlobal slot = true ∧
          sizeAt reached.entryTableStatusGlobal slot = size := by
    intro slot
    rw [List.mem_filter, (perm_clockOrder _ _).mem_iff, hsame]
  refine ⟨clockVictims reached.entryTableStatusGlobal sameSize reached.algorithmCircularPointer
    remaining.toNat, ?_, by simp only [executed, hexecuted]⟩
  constructor
  case nodup =>
    exact (((perm_clockOrder _ _).nodup_iff.mpr hnodup).filter _).sublist (List.take_sublist ..)
  case atomic =>
    intro slot hslot
    exact (hmem slot).mp (List.mem_of_mem_take hslot)
  case some =>
    obtain ⟨slot, hslot, hatomic⟩ := hsome
    have hany := (hmem slot).mpr ((hsame slot).mp ⟨hslot, hatomic⟩)
    intro hnil
    rcases List.take_eq_nil_iff.mp hnil with hzero | hempty
    · omega
    · rw [hempty] at hany
      cases hany
  case frame => simp only [executed, hexecuted]
  case replaced => simp only [executed, hexecuted]
  case enough =>
    rw [clockVictims, List.length_take]
    omega
  case all =>
    intro hless slot hatomic hsize
    rw [clockVictims, List.length_take] at hless
    rw [clockVictims, List.take_of_length_le (by omega)]
    exact (hmem slot).mpr ⟨hatomic, hsize⟩
  case tied => exact fun _ => ⟨hsame, rfl, rfl⟩

/-- A slot that is the only one of its size is given up directly. -/
theorem bsuTurn_of_alone {reached : InstanceState} {key : CString} {keys : List CString}
    {remaining : ℤ} {slot : ℕ} {sameSize : List ℕ} (hmissing : 0 < remaining)
    (hatomic : isAtomicAt reached.entryTableStatusGlobal slot = true)
    (halone : ∀ other, isAtomicAt reached.entryTableStatusGlobal other = true →
      sizeAt reached.entryTableStatusGlobal other = sizeAt reached.entryTableStatusGlobal slot →
        other = slot) :
    BsuTurn config reached key keys remaining (sizeAt reached.entryTableStatusGlobal slot) sameSize
      [slot]
      { reached with
          entryTableStatusGlobal := reached.entryTableStatusGlobal.set slot
            (statusAt reached.entryTableStatusGlobal slot).giveUp }
      (keys ++ [(statusAt reached.entryTableStatusGlobal slot).key]) := by
  constructor
  case nodup => exact List.nodup_singleton slot
  case atomic =>
    intro other hmem
    rw [List.mem_singleton.mp hmem]
    exact ⟨hatomic, rfl⟩
  case some => exact List.cons_ne_nil slot []
  case frame =>
    have hset : giveUpSlots (reached.entryTableStatusGlobal.set slot
        (statusAt reached.entryTableStatusGlobal slot).giveUp) [] =
          giveUpSlots reached.entryTableStatusGlobal [slot] :=
      giveUpSlots_set List.not_mem_nil
    rw [giveUpSlots_nil] at hset
    rw [hset]
  case replaced => rfl
  case enough =>
    rw [List.length_singleton]
    omega
  case all =>
    intro _ other hother hsize
    exact List.mem_singleton.mpr (halone other hother hsize)
  case tied =>
    rintro ⟨first, second, hne, hfirst, hsecond, hsize, hsize'⟩
    exact absurd ((halone first hfirst hsize).trans (halone second hsecond hsize').symm) hne

namespace BsuReached

variable {state reached next : InstanceState} {key : CString}
  {replacedKeys keys nextKeys : List CString}
  {needed remaining : ℤ} {victims slots sameSize chosen : List ℕ} {slot : ℕ}

/-- What is atomic yet was atomic and is no victim. -/
theorem atomic_iff (h : BsuReached state replacedKeys needed victims reached keys remaining
    slots sameSize) (other : ℕ) :
    isAtomicAt reached.entryTableStatusGlobal other = true ↔
      isAtomicAt state.entryTableStatusGlobal other = true ∧ other ∉ victims := by
  rw [h.frame, isAtomicAt_giveUpSlots h.atomic, Bool.and_eq_true, decide_eq_true_eq]

theorem sizeAt_eq (h : BsuReached state replacedKeys needed victims reached keys remaining
    slots sameSize) (other : ℕ) :
    sizeAt reached.entryTableStatusGlobal other = sizeAt state.entryTableStatusGlobal other := by
  rw [h.frame, sizeAt_giveUpSlots]

theorem key_eq (h : BsuReached state replacedKeys needed victims reached keys remaining
    slots sameSize) {other : ℕ} (hother : other ∉ victims) :
    (statusAt reached.entryTableStatusGlobal other).key =
      (statusAt state.entryTableStatusGlobal other).key := by
  rw [h.frame, statusAt_giveUpSlots_of_not_mem hother]

/-- The first slot of the rest is the biggest one that is atomic yet. -/
theorem le_of_atomic (h : BsuReached state replacedKeys needed victims reached keys remaining
    (slot :: slots) sameSize) {other : ℕ}
    (hatomic : isAtomicAt reached.entryTableStatusGlobal other = true) :
    sizeAt state.entryTableStatusGlobal other ≤ sizeAt state.entryTableStatusGlobal slot := by
  rcases List.mem_cons.mp (h.ahead other hatomic) with rfl | hmem
  · exact le_rfl
  · exact (List.pairwise_cons.mp h.sorted).1 other hmem

/-- A slot that is not atomic is passed over. -/
theorem skip (h : BsuReached state replacedKeys needed victims reached keys remaining
    (slot :: slots) sameSize)
    (hslot : isAtomicAt reached.entryTableStatusGlobal slot = false) :
    BsuReached state replacedKeys needed victims reached keys remaining slots sameSize :=
  { h with
    sorted := (List.pairwise_cons.mp h.sorted).2
    distinct := (List.nodup_cons.mp h.distinct).2
    ahead := by
      intro other hatomic
      rcases List.mem_cons.mp (h.ahead other hatomic) with rfl | hmem
      · rw [hslot] at hatomic
        cases hatomic
      · exact hmem }

/-- The victims with those of a turn. -/
theorem nodup_append (h : BsuReached state replacedKeys needed victims reached keys remaining
    slots sameSize) {size : ℤ} {tied : List ℕ}
    (hturn : BsuTurn config reached key keys remaining size tied chosen next nextKeys) :
    (victims ++ chosen).Nodup := by
  apply h.nodup.append hturn.nodup
  intro other hvictim hchosen
  exact ((h.atomic_iff other).mp (hturn.atomic other hchosen).1).2 hvictim

theorem atomic_append (h : BsuReached state replacedKeys needed victims reached keys remaining
    slots sameSize) {size : ℤ} {tied : List ℕ}
    (hturn : BsuTurn config reached key keys remaining size tied chosen next nextKeys) :
    ∀ other ∈ victims ++ chosen, isAtomicAt state.entryTableStatusGlobal other = true := by
  intro other hmem
  rcases List.mem_append.mp hmem with hvictim | hchosen
  · exact h.atomic other hvictim
  · exact ((h.atomic_iff other).mp (hturn.atomic other hchosen).1).1

theorem frame_append (h : BsuReached state replacedKeys needed victims reached keys remaining
    slots sameSize) {size : ℤ} {tied : List ℕ}
    (hturn : BsuTurn config reached key keys remaining size tied chosen next nextKeys) :
    next = { state with
      entryTableStatusGlobal := giveUpSlots state.entryTableStatusGlobal (victims ++ chosen)
      algorithmCircularPointer := next.algorithmCircularPointer } := by
  rw [hturn.frame, ← giveUpSlots_append]
  have hframe := h.frame
  rw [hframe]

theorem replaced_append (h : BsuReached state replacedKeys needed victims reached keys
    remaining slots sameSize) {size : ℤ} {tied : List ℕ}
    (hturn : BsuTurn config reached key keys remaining size tied chosen next nextKeys) :
    nextKeys = replacedKeys ++
      (victims ++ chosen).map fun slot => (statusAt state.entryTableStatusGlobal slot).key := by
  rw [hturn.replaced, h.replaced, List.map_append, List.append_assoc]
  congr 2
  apply List.map_congr_left
  intro other hmem
  exact h.key_eq ((h.atomic_iff other).mp (hturn.atomic other hmem).1).2

/-- A turn after which nothing is missing. -/
theorem finish (h : BsuReached state replacedKeys needed victims reached keys remaining
    (slot :: slots) sameSize) {tied : List ℕ}
    (hturn : BsuTurn config reached key keys remaining
      (sizeAt reached.entryTableStatusGlobal slot) tied chosen next nextKeys)
    (hdone : (chosen.length : ℤ) = remaining) :
    BiggestReplaced config state key replacedKeys (victims ++ chosen) next nextKeys := by
  have hsize : ∀ other ∈ chosen, sizeAt state.entryTableStatusGlobal other =
      sizeAt state.entryTableStatusGlobal slot := by
    intro other hmem
    rw [← h.sizeAt_eq, ← h.sizeAt_eq]
    exact (hturn.atomic other hmem).2
  obtain ⟨witness, hwitness⟩ := List.exists_mem_of_ne_nil _ hturn.some
  have hbigger : ∀ other ∈ victims, sizeAt state.entryTableStatusGlobal slot <
      sizeAt state.entryTableStatusGlobal other := by
    intro other hmem
    rw [← hsize witness hwitness]
    exact h.bigger other (Or.inl hmem) witness (hturn.atomic witness hwitness).1
  have hsmallest : ∀ smallest ∈ victims ++ chosen, (∀ victim ∈ victims ++ chosen,
      sizeAt state.entryTableStatusGlobal smallest ≤ sizeAt state.entryTableStatusGlobal victim) →
        sizeAt state.entryTableStatusGlobal smallest =
          sizeAt state.entryTableStatusGlobal slot := by
    intro smallest hmem hleast
    have hle := hleast witness (List.mem_append_right _ hwitness)
    rw [hsize witness hwitness] at hle
    rcases List.mem_append.mp hmem with hvictim | hchosen
    · exact absurd (hbigger smallest hvictim) (not_lt.mpr hle)
    · exact hsize smallest hchosen
  constructor
  case nodup => exact h.nodup_append hturn
  case atomic => exact h.atomic_append hturn
  case statuses => rw [h.frame_append hturn]
  case replaced => exact h.replaced_append hturn
  case biggest =>
    intro victim hvictim kept hkept hnot
    have hatomic := (h.atomic_iff kept).mpr
      ⟨hkept, fun hmem => hnot (List.mem_append_left _ hmem)⟩
    rcases List.mem_append.mp hvictim with hearlier | hchosen
    · exact (h.bigger victim (Or.inl hearlier) kept hatomic).le
    · rw [hsize victim hchosen]
      exact h.le_of_atomic hatomic
  case tied =>
    intro smallest hmem hleast htied
    have hsame := hsmallest smallest hmem hleast
    rw [hsame] at htied ⊢
    obtain ⟨first, second, hne, hfirst, hsecond, hsizes⟩ := htied
    have hatomic : ∀ other, isAtomicAt state.entryTableStatusGlobal other = true →
        sizeAt state.entryTableStatusGlobal other = sizeAt state.entryTableStatusGlobal slot →
          isAtomicAt reached.entryTableStatusGlobal other = true := by
      intro other hother hequal
      refine (h.atomic_iff other).mpr ⟨hother, fun hvictim => ?_⟩
      have hlt := hbigger other hvictim
      rw [hequal] at hlt
      exact lt_irrefl _ hlt
    obtain ⟨hclass, hexecuted, hkeys⟩ := hturn.tied ⟨first, second, hne,
      hatomic first hfirst hsizes.1, hatomic second hsecond hsizes.2,
      by rw [h.sizeAt_eq, h.sizeAt_eq, hsizes.1], by rw [h.sizeAt_eq, h.sizeAt_eq, hsizes.2]⟩
    have hfilter : (victims ++ chosen).filter (fun other =>
        sizeAt state.entryTableStatusGlobal slot < sizeAt state.entryTableStatusGlobal other) =
          victims := by
      rw [List.filter_append, List.filter_eq_self.mpr (by simpa using hbigger),
        List.filter_eq_nil_iff.mpr ?_, List.append_nil]
      intro other hother
      rw [hsize other hother]
      simp
    refine ⟨victims, reached, tied, hfilter.symm, h.frame, h.pointer, ?_, ?_⟩
    · intro other
      rw [hclass, h.sizeAt_eq, h.sizeAt_eq]
      constructor
      · rintro ⟨hother, hequal⟩
        exact ⟨((h.atomic_iff other).mp hother).1, hequal⟩
      · rintro ⟨hother, hequal⟩
        exact ⟨hatomic other hother hequal, hequal⟩
    · have hcount : (victims ++ chosen).length - victims.length = remaining.toNat := by
        rw [List.length_append]
        omega
      rw [hcount, ← h.replaced]
      exact ⟨hexecuted, hkeys⟩

/-- A turn after which entries are missing yet. -/
theorem proceed (h : BsuReached state replacedKeys needed victims reached keys remaining
    (slot :: slots) sameSize) {tied : List ℕ}
    (hslot : isAtomicAt reached.entryTableStatusGlobal slot = true)
    (hturn : BsuTurn config reached key keys remaining
      (sizeAt reached.entryTableStatusGlobal slot) tied chosen next nextKeys)
    (hmore : (chosen.length : ℤ) < remaining) (hseen : tied.Nodup)
    (htied : ∀ other ∈ tied, other ∈ sameSize ∨
      sizeAt state.entryTableStatusGlobal other = sizeAt state.entryTableStatusGlobal slot) :
    BsuReached state replacedKeys needed (victims ++ chosen) next nextKeys
      (remaining - chosen.length) slots tied := by
  have hnext : ∀ other, isAtomicAt next.entryTableStatusGlobal other = true →
      isAtomicAt reached.entryTableStatusGlobal other = true ∧ other ∉ chosen := by
    intro other hother
    rw [hturn.frame, isAtomicAt_giveUpSlots fun slot hmem => (hturn.atomic slot hmem).1,
      Bool.and_eq_true, decide_eq_true_eq] at hother
    exact hother
  have hsmaller : ∀ other, isAtomicAt next.entryTableStatusGlobal other = true →
      sizeAt state.entryTableStatusGlobal other < sizeAt state.entryTableStatusGlobal slot := by
    intro other hother
    obtain ⟨hatomic, hkept⟩ := hnext other hother
    apply lt_of_le_of_ne (h.le_of_atomic hatomic)
    intro hequal
    rw [← h.sizeAt_eq, ← h.sizeAt_eq] at hequal
    exact hkept (hturn.all hmore other hatomic hequal)
  have hsize : ∀ other ∈ chosen, sizeAt state.entryTableStatusGlobal other =
      sizeAt state.entryTableStatusGlobal slot := by
    intro other hmem
    rw [← h.sizeAt_eq, ← h.sizeAt_eq]
    exact (hturn.atomic other hmem).2
  have hcount := h.count
  constructor
  case frame => exact h.frame_append hturn
  case pointer =>
    intro hnil
    exact absurd (List.append_eq_nil_iff.mp hnil).2 hturn.some
  case replaced => exact h.replaced_append hturn
  case nodup => exact h.nodup_append hturn
  case atomic => exact h.atomic_append hturn
  case count =>
    rw [List.length_append]
    omega
  case missing => omega
  case sorted => exact (List.pairwise_cons.mp h.sorted).2
  case distinct => exact (List.nodup_cons.mp h.distinct).2
  case ahead =>
    intro other hother
    obtain ⟨hatomic, hkept⟩ := hnext other hother
    refine (List.mem_cons.mp (h.ahead other hatomic)).resolve_left fun hsame => ?_
    subst hsame
    exact hkept (hturn.all hmore other hslot rfl)
  case seen => exact hseen
  case bigger =>
    rintro earlier (hmem | hmem) other hother
    · rcases List.mem_append.mp hmem with hvictim | hchosen
      · exact h.bigger earlier (Or.inl hvictim) other (hnext other hother).1
      · rw [hsize earlier hchosen]
        exact hsmaller other hother
    · rcases htied earlier hmem with hearlier | hequal
      · exact h.bigger earlier (Or.inr hearlier) other (hnext other hother).1
      · rw [hequal]
        exact hsmaller other hother

end BsuReached

/-- The first atomic slot of a list is the only one of its size from there on. -/
def biggestIsAlone (table : List Status) : List ℕ → Bool
  | [] => true
  | slot :: slots =>
      if isAtomicAt table slot then
        decide (((slot :: slots).filter fun other =>
          sizeAt table other = sizeAt table slot).length ≤ 1)
      else biggestIsAlone table slots

theorem bsuLoop_of_done (keyValue : KeyValue) (slots : List ℕ) (state : InstanceState)
    (keys : List CString) (sameSize : List ℕ) :
    bsuLoop config keyValue slots state keys 0 sameSize = (state, keys) := by
  cases slots <;> simp [bsuLoop]

/-- While entries are missing, some slot is atomic yet. -/
theorem BsuReached.exists_atomic {state reached : InstanceState} {replacedKeys keys : List CString}
    {needed remaining : ℤ} {victims slots sameSize : List ℕ}
    (h : BsuReached state replacedKeys needed victims reached keys remaining slots sameSize)
    (henough : needed ≤ ((List.range state.entryTableStatusGlobal.length).filter
      (isAtomicAt state.entryTableStatusGlobal)).length) :
    ∃ slot, isAtomicAt reached.entryTableStatusGlobal slot = true := by
  by_contra hnone
  have hsubset : (List.range state.entryTableStatusGlobal.length).filter
      (isAtomicAt state.entryTableStatusGlobal) ⊆ victims := by
    intro slot hmem
    by_contra hkept
    exact hnone ⟨slot, (h.atomic_iff slot).mpr ⟨(List.mem_filter.mp hmem).2, hkept⟩⟩
  have hle := (List.subperm_of_subset (List.nodup_range.filter _) hsubset).length_le
  have hcount := h.count
  have hmissing := h.missing
  omega

/-- The slots of equal size, as the loop lists them at a slot. -/
def sameSizeFrom (table : List Status) (sameSize : List ℕ) (slot : ℕ) (slots : List ℕ) : List ℕ :=
  sameSize ++ (slot :: slots).filter fun other => sizeAt table other = sizeAt table slot

namespace BsuReached

variable {state reached : InstanceState} {keyValue : KeyValue} {replacedKeys keys : List CString}
  {needed remaining : ℤ} {victims slots sameSize : List ℕ} {slot : ℕ}

/-- The loop at an atomic slot. -/
theorem bsuLoop_cons_of_atomic (h : BsuReached state replacedKeys needed victims reached keys
    remaining (slot :: slots) sameSize)
    (hatomic : isAtomicAt reached.entryTableStatusGlobal slot = true) :
    bsuLoop config keyValue (slot :: slots) reached keys remaining sameSize =
      if (sameSizeFrom reached.entryTableStatusGlobal sameSize slot slots).length > 1 then
        let chosen := algorithmCircular config reached
          (sameSizeFrom reached.entryTableStatusGlobal sameSize slot slots)
          (keyValueGenerator keyValue.key (remaining.toNat * config.entrySize)) keys
        bsuLoop config keyValue slots chosen.state chosen.replacedKeys (remaining - chosen.result)
          (sameSizeFrom reached.entryTableStatusGlobal sameSize slot slots)
      else
        bsuLoop config keyValue slots
          { reached with
              entryTableStatusGlobal := reached.entryTableStatusGlobal.set slot
                (statusAt reached.entryTableStatusGlobal slot).giveUp }
          (keys ++ [(statusAt reached.entryTableStatusGlobal slot).key]) (remaining - 1)
          (sameSizeFrom reached.entryTableStatusGlobal sameSize slot slots) := by
  have hmissing := h.missing
  rw [bsuLoop, if_neg (by omega)]
  simp only
  rw [if_pos (of_decide_eq_true hatomic)]
  rfl

/-- What was listed before, or has the size. -/
theorem mem_sameSizeFrom (h : BsuReached state replacedKeys needed victims reached keys remaining
    (slot :: slots) sameSize) {other : ℕ}
    (hmem : other ∈ sameSizeFrom reached.entryTableStatusGlobal sameSize slot slots) :
    other ∈ sameSize ∨
      sizeAt state.entryTableStatusGlobal other = sizeAt state.entryTableStatusGlobal slot := by
  rcases List.mem_append.mp hmem with hearlier | hsame
  · exact Or.inl hearlier
  · rw [← h.sizeAt_eq, ← h.sizeAt_eq]
    exact Or.inr (of_decide_eq_true (List.mem_filter.mp hsame).2)

theorem nodup_sameSizeFrom (h : BsuReached state replacedKeys needed victims reached keys remaining
    (slot :: slots) sameSize)
    (hatomic : isAtomicAt reached.entryTableStatusGlobal slot = true) :
    (sameSizeFrom reached.entryTableStatusGlobal sameSize slot slots).Nodup := by
  apply h.seen.append (h.distinct.filter _)
  intro other hearlier hsame
  have hlt := h.bigger other (Or.inr hearlier) slot hatomic
  rw [← h.sizeAt_eq, ← h.sizeAt_eq other] at hlt
  exact hlt.ne' (of_decide_eq_true (List.mem_filter.mp hsame).2)

/-- Of these slots, those are atomic that have the size. -/
theorem atomic_sameSizeFrom (h : BsuReached state replacedKeys needed victims reached keys remaining
    (slot :: slots) sameSize) (other : ℕ) :
    other ∈ sameSizeFrom reached.entryTableStatusGlobal sameSize slot slots ∧
        isAtomicAt reached.entryTableStatusGlobal other = true ↔
      isAtomicAt reached.entryTableStatusGlobal other = true ∧
        sizeAt reached.entryTableStatusGlobal other =
          sizeAt reached.entryTableStatusGlobal slot := by
  constructor
  · rintro ⟨hmem, hother⟩
    refine ⟨hother, ?_⟩
    rcases h.mem_sameSizeFrom hmem with hearlier | hsame
    · exact absurd (h.bigger other (Or.inr hearlier) other hother) (lt_irrefl _)
    · rw [h.sizeAt_eq, h.sizeAt_eq, hsame]
  · rintro ⟨hother, hsame⟩
    exact ⟨List.mem_append_right _ (List.mem_filter.mpr
      ⟨h.ahead other hother, decide_eq_true hsame⟩), hother⟩

/-- A list of one slot lists no other one of the size. -/
theorem alone_of_sameSizeFrom (h : BsuReached state replacedKeys needed victims reached keys
    remaining (slot :: slots) sameSize)
    (hatomic : isAtomicAt reached.entryTableStatusGlobal slot = true)
    (hone : ¬ (sameSizeFrom reached.entryTableStatusGlobal sameSize slot slots).length > 1) :
    ∀ other, isAtomicAt reached.entryTableStatusGlobal other = true →
      sizeAt reached.entryTableStatusGlobal other = sizeAt reached.entryTableStatusGlobal slot →
        other = slot := by
  intro other hother hsame
  have hslot := ((h.atomic_sameSizeFrom slot).mpr ⟨hatomic, rfl⟩).1
  have hfound := ((h.atomic_sameSizeFrom other).mpr ⟨hother, hsame⟩).1
  cases hlist : sameSizeFrom reached.entryTableStatusGlobal sameSize slot slots with
  | nil =>
      rw [hlist] at hslot
      cases hslot
  | cons first rest =>
      rw [hlist, List.length_cons] at hone
      have hrest : rest = [] := List.length_eq_zero_iff.mp (by omega)
      rw [hlist, hrest, List.mem_singleton] at hslot hfound
      rw [hslot, hfound]

/-- **A turn of the loop**, when nothing is free or nothing is left to the circular
algorithm. -/
theorem exists_turn (keyValue : KeyValue)
    (h : BsuReached state replacedKeys needed victims reached keys remaining (slot :: slots)
      sameSize)
    (hatomic : isAtomicAt reached.entryTableStatusGlobal slot = true)
    (hroom : needed ≤ entryTableAtomicEntriesCount config state.entryTable)
    (hsound : state.entriesLeft = 0 ∨ remaining = 1 ∧ sameSize = [] ∧
      biggestIsAlone reached.entryTableStatusGlobal (slot :: slots) = true) :
    ∃ (chosen : List ℕ) (next : InstanceState) (nextKeys : List CString),
      BsuTurn config reached keyValue.key keys remaining
        (sizeAt reached.entryTableStatusGlobal slot)
        (sameSizeFrom reached.entryTableStatusGlobal sameSize slot slots) chosen next nextKeys ∧
      bsuLoop config keyValue (slot :: slots) reached keys remaining sameSize =
        bsuLoop config keyValue slots next nextKeys (remaining - chosen.length)
          (sameSizeFrom reached.entryTableStatusGlobal sameSize slot slots) := by
  rw [h.bsuLoop_cons_of_atomic hatomic]
  split
  · rename_i hmany
    have hleft : state.entriesLeft = 0 := by
      refine hsound.resolve_right ?_
      rintro ⟨-, rfl, halone⟩
      rw [biggestIsAlone, if_pos hatomic, decide_eq_true_eq] at halone
      exact absurd hmany (not_lt.mpr halone)
    have hreached : reached.entriesLeft = 0 ∧ reached.entryTable = state.entryTable := by
      rw [h.frame]
      exact ⟨hleft, rfl⟩
    have hcount := h.count
    obtain ⟨chosen, hchosen, hresult⟩ := bsuTurn_of_circular config keyValue.key keys
      hreached.1 h.missing (by rw [hreached.2]; omega)
      (h.nodup_sameSizeFrom hatomic) h.atomic_sameSizeFrom
      ⟨slot, ((h.atomic_sameSizeFrom slot).mpr ⟨hatomic, rfl⟩).1, hatomic⟩
    refine ⟨chosen, _, _, hchosen, ?_⟩
    simp only
    rw [hresult]
  · rename_i hone
    exact ⟨[slot], _, _, bsuTurn_of_alone h.missing hatomic (h.alone_of_sameSizeFrom hatomic hone),
      rfl⟩

end BsuReached

/-- **The loop** gives up the biggest slots. -/
theorem bsuLoop_biggest (config : Config) {state reached : InstanceState} (keyValue : KeyValue)
    {replacedKeys keys : List CString} {needed remaining : ℤ} {victims slots sameSize : List ℕ}
    (h : BsuReached state replacedKeys needed victims reached keys remaining slots sameSize)
    (henough : needed ≤ ((List.range state.entryTableStatusGlobal.length).filter
      (isAtomicAt state.entryTableStatusGlobal)).length)
    (hroom : needed ≤ entryTableAtomicEntriesCount config state.entryTable)
    (hsound : state.entriesLeft = 0 ∨ remaining = 1 ∧ sameSize = [] ∧
      biggestIsAlone reached.entryTableStatusGlobal slots = true) :
    ∃ chosen, (chosen.length : ℤ) = needed ∧
      BiggestReplaced config state keyValue.key replacedKeys chosen
        (bsuLoop config keyValue slots reached keys remaining sameSize).1
        (bsuLoop config keyValue slots reached keys remaining sameSize).2 := by
  induction slots generalizing reached keys remaining victims sameSize with
  | nil =>
      obtain ⟨slot, hatomic⟩ := h.exists_atomic henough
      exact absurd (h.ahead slot hatomic) List.not_mem_nil
  | cons slot slots ih =>
      by_cases hatomic : isAtomicAt reached.entryTableStatusGlobal slot = true
      · obtain ⟨chosen, next, nextKeys, hturn, hloop⟩ :=
          h.exists_turn keyValue hatomic hroom hsound
        rw [hloop]
        have hcount := h.count
        have hpositive := List.length_pos_iff.mpr hturn.some
        by_cases hdone : (chosen.length : ℤ) = remaining
        · refine ⟨victims ++ chosen, by rw [List.length_append]; omega, ?_⟩
          rw [hdone, sub_self, bsuLoop_of_done]
          exact h.finish hturn hdone
        · have hmore := lt_of_le_of_ne hturn.enough hdone
          apply ih (h.proceed hatomic hturn hmore (h.nodup_sameSizeFrom hatomic)
            fun other hmem => h.mem_sameSizeFrom hmem)
          exact Or.inl (hsound.resolve_right fun hone => by omega)
      · have hnot : ¬ (statusAt reached.entryTableStatusGlobal slot).status = .atomic := by
          intro hstatus
          exact hatomic (decide_eq_true hstatus)
        have hmissing := h.missing
        rw [bsuLoop, if_neg (by omega)]
        simp only
        rw [if_neg hnot]
        rw [biggestIsAlone, if_neg hatomic] at hsound
        exact ih (h.skip (Bool.eq_false_iff.mpr hatomic)) hsound

/-! ## The algorithm -/

variable (config) in
/-- The sorted copy of `algorithm_bsu`. -/
def slotsBySize (table : List Status) : List ℕ :=
  config.sort.listSort
    (fun first second => biggestSize (statusAt table first) (statusAt table second))
    (List.range table.length)

theorem pairwise_slotsBySize (config : Config) (table : List Status) :
    (slotsBySize config table).Pairwise fun first second =>
      sizeAt table second ≤ sizeAt table first := by
  have hsorted := config.sort.pairwise
    (fun first second => biggestSize (statusAt table first) (statusAt table second))
    (List.range table.length)
    (fun a b => by
      simp only [biggestSize, Bool.or_eq_true, Bool.not_eq_true', decide_eq_false_iff_not]
      omega)
    (fun a b c => by
      simp only [biggestSize, Bool.not_eq_true', decide_eq_false_iff_not]
      omega)
  apply hsorted.imp
  intro first second hle
  simpa [biggestSize, sizeAt] using hle

variable (config) in
/-- The circular algorithm is not asked to subtract free entries a second time: nothing is free,
or one entry is missing and the biggest atomic slot is not listed with another one. -/
def subtractsOnce (state : InstanceState) (keyValue : KeyValue) : Bool :=
  decide (state.entriesLeft = 0) ||
    (decide (entryTableEntriesNeeded config keyValue - state.entriesLeft = 1) &&
      biggestIsAlone state.entryTableStatusGlobal
        (slotsBySize config state.entryTableStatusGlobal))

/-- The loop as it begins. -/
theorem bsuReached_start (config : Config) {state : InstanceState} {needed : ℤ}
    (hneeded : 0 < needed) (replacedKeys : List CString) :
    BsuReached state replacedKeys needed [] state replacedKeys needed
      (slotsBySize config state.entryTableStatusGlobal) [] where
  frame := by rw [giveUpSlots_nil]
  pointer _ := rfl
  replaced := (List.append_nil replacedKeys).symm
  nodup := List.nodup_nil
  atomic := by simp
  count := by simp
  missing := hneeded
  sorted := pairwise_slotsBySize config _
  distinct := (config.sort.perm _ _).nodup_iff.mpr List.nodup_range
  ahead slot hatomic := by
    rw [slotsBySize, (config.sort.perm _ _).mem_iff, List.mem_range]
    exact isAtomicAt_lt hatomic
  seen := List.nodup_nil
  bigger slot hmem := by
    rcases hmem with hmem | hmem <;> cases hmem

theorem AtomicSlots.exists_biggest {state : InstanceState} {keyValue : KeyValue} {left : ℤ}
    (hslots : AtomicSlots config state.entryTable state.entryTableStatusGlobal)
    (inv : TableInvariant config state.entryTable left)
    (hshort : entryTableHaveEntries config state keyValue = false)
    (hfits : newValueFits config state keyValue = true)
    (honce : subtractsOnce config state keyValue = true) (replacedKeys : List CString) :
    let executed := algorithmBsu config state (List.range state.entryTableStatusGlobal.length)
      keyValue replacedKeys
    ∃ victims, (victims.length : ℤ) = entryTableEntriesNeeded config keyValue - state.entriesLeft ∧
      BiggestReplaced config state keyValue.key replacedKeys victims executed.state
        executed.replacedKeys := by
  intro executed
  have hcount := hslots.length_eq inv
    ((List.nodup_range (n := state.entryTableStatusGlobal.length)).filter
      (isAtomicAt state.entryTableStatusGlobal)) (by
        intro slot
        rw [List.mem_filter, List.mem_range, and_iff_right_iff_imp]
        exact isAtomicAt_lt)
  have hexecuted : executed.state = (bsuLoop config keyValue
        (slotsBySize config state.entryTableStatusGlobal) state replacedKeys
        (entryTableEntriesNeeded config keyValue - state.entriesLeft) []).1 ∧
      executed.replacedKeys = (bsuLoop config keyValue
        (slotsBySize config state.entryTableStatusGlobal) state replacedKeys
        (entryTableEntriesNeeded config keyValue - state.entriesLeft) []).2 := by
    simp only [executed, algorithmBsu, hshort, hfits, Bool.not_false, Bool.and_self, if_true]
    exact ⟨rfl, rfl⟩
  simp only [entryTableHaveEntries, decide_eq_false_iff_not] at hshort
  simp only [newValueFits, decide_eq_true_eq] at hfits
  simp only [subtractsOnce, Bool.or_eq_true, Bool.and_eq_true, decide_eq_true_eq] at honce
  have hneeded : 0 < (entryTableEntriesNeeded config keyValue : ℤ) - state.entriesLeft := by omega
  obtain ⟨victims, hvictims, hbiggest⟩ := bsuLoop_biggest config keyValue
    (bsuReached_start config hneeded replacedKeys) (by rw [hcount]; omega) (by omega)
    (honce.imp_right fun hone => ⟨hone.1, rfl, hone.2⟩)
  rw [← hexecuted.1, ← hexecuted.2] at hbiggest
  exact ⟨victims, hvictims, hbiggest⟩

/-- **The policy by size** replaces the biggest keys, as many as entries are missing, in every
state in which the circular algorithm does not subtract free entries a second time. -/
theorem algorithmBsu_biggest {state : InstanceState} {keyValue : KeyValue} {left : ℤ}
    (inv : TableInvariant config state.entryTable left)
    (hcoherent : CoherentStatus config state.entryTable state.entryTableStatusGlobal)
    (hlength : state.entryTableStatusGlobal.length = config.totalEntries)
    (hshort : entryTableHaveEntries config state keyValue = false)
    (hfits : newValueFits config state keyValue = true)
    (honce : subtractsOnce config state keyValue = true) (replacedKeys : List CString) :
    let executed := algorithmBsu config state (List.range state.entryTableStatusGlobal.length)
      keyValue replacedKeys
    ∃ victims, BiggestReplaced config state keyValue.key replacedKeys victims executed.state
        executed.replacedKeys ∧
      AtomicKeys config state.entryTable
        (entryTableEntriesNeeded config keyValue - state.entriesLeft)
        (victims.map fun slot => (statusAt state.entryTableStatusGlobal slot).key) := by
  have hslots := hcoherent.atomicSlots inv hlength
  obtain ⟨victims, hvictims, hbiggest⟩ := hslots.exists_biggest inv hshort hfits honce replacedKeys
  refine ⟨victims, hbiggest, ?_⟩
  rw [← hvictims]
  exact hslots.atomicKeys inv hbiggest.nodup hbiggest.atomic

/-- Three entries of two bytes, replaced by size. -/
def threePairs : Config where
  setup := ⟨3, 2, threeEntries.totalEntries_pos, Nat.two_pos, threeEntries.setup.totalEntries_lt⟩
  replacementAlgorithm := .bsu
  sort := insertionListSort

/-- A SET of a key of one byte to a value of one or two. -/
def setPair (key : UInt8) (long : Bool) : Request :=
  .set ⟨true, literal [key], literal (if long then [120, 120] else [120]), by cases long <;> decide,
    true⟩

/-- The storage is full with a small key and two bigger ones: one of those is replaced. -/
theorem algorithmBsu_biggest_full : ∃ state : InstanceState,
    let keyValue := keyValueCreate (literal [102]) (literal [120])
    let executed := algorithmBsu threePairs state (List.range state.entryTableStatusGlobal.length)
      keyValue []
    executed.replacedKeys = [literal [98]] ∧
    ∃ victims, BiggestReplaced threePairs state keyValue.key [] victims executed.state
        executed.replacedKeys ∧
      AtomicKeys threePairs state.entryTable
        (entryTableEntriesNeeded threePairs keyValue - state.entriesLeft)
        (victims.map fun slot => (statusAt state.entryTableStatusGlobal slot).key) := by
  obtain ⟨finish, hrun, hcheck⟩ := PartialStep.exists_run_of_execute
    ((instanceStep threePairs).guarded fun traced request =>
      requestKeepsStatus threePairs traced.state request) (freshInstance threePairs [])
    [setPair 97 false, setPair 98 true, setPair 99 true]
    (fun traced =>
      let keyValue := keyValueCreate (literal [102]) (literal [120])
      !entryTableHaveEntries threePairs traced.state keyValue &&
      newValueFits threePairs traced.state keyValue &&
      subtractsOnce threePairs traced.state keyValue &&
      decide ((algorithmBsu threePairs traced.state
        (List.range traced.state.entryTableStatusGlobal.length) keyValue []).replacedKeys =
          [literal [98]]))
    (by decide +kernel)
  simp only [Bool.and_eq_true, Bool.not_eq_true', decide_eq_true_eq] at hcheck
  obtain ⟨⟨⟨hshort, hfits⟩, honce⟩, hkeys⟩ := hcheck
  obtain ⟨hinv, hcoherent⟩ := coherentInvariant_of_runs (PartialStep.runs_of_guarded hrun)
  exact ⟨finish.state, hkeys, algorithmBsu_biggest hinv.table hcoherent hinv.statuses.length hshort
    hfits honce []⟩

/-- Two keys and a free entry: for a value of three entries two keys should be replaced, and one
is. -/
theorem not_algorithmBsu_biggest :
    ¬ ∀ (config : Config) (state : InstanceState) (keyValue : KeyValue) (left : ℤ),
      TableInvariant config state.entryTable left →
      CoherentStatus config state.entryTable state.entryTableStatusGlobal →
      state.entryTableStatusGlobal.length = config.totalEntries →
      entryTableGetEntry state.entryTable keyValue.key = none →
      entryTableHaveEntries config state keyValue = false →
      newValueFits config state keyValue = true →
        let executed := algorithmBsu config state
          (List.range state.entryTableStatusGlobal.length) keyValue []
        ∃ victims, BiggestReplaced config state keyValue.key [] victims executed.state
            executed.replacedKeys ∧
          AtomicKeys config state.entryTable
            (entryTableEntriesNeeded config keyValue - state.entriesLeft)
            (victims.map fun slot => (statusAt state.entryTableStatusGlobal slot).key) := by
  intro hclaim
  obtain ⟨finish, hrun, hcheck⟩ := PartialStep.exists_run_of_execute
    ((instanceStep threePairs).guarded fun traced request =>
      requestKeepsStatus threePairs traced.state request) (freshInstance threePairs [])
    [setPair 97 false, setPair 98 false]
    (fun traced =>
      let keyValue := keyValueCreate (literal [102]) (literal [120, 120, 120, 120, 120])
      (entryTableGetEntry traced.state.entryTable keyValue.key).isNone &&
      !entryTableHaveEntries threePairs traced.state keyValue &&
      newValueFits threePairs traced.state keyValue &&
      decide (entryTableEntriesNeeded threePairs keyValue - traced.state.entriesLeft = 2) &&
      decide ((algorithmBsu threePairs traced.state
        (List.range traced.state.entryTableStatusGlobal.length) keyValue []).replacedKeys =
          [literal [97]]))
    (by decide +kernel)
  simp only [Bool.and_eq_true, Option.isNone_iff_eq_none, Bool.not_eq_true', decide_eq_true_eq]
    at hcheck
  obtain ⟨⟨⟨⟨habsent, hshort⟩, hfits⟩, hneeded⟩, hkeys⟩ := hcheck
  obtain ⟨hinv, hcoherent⟩ := coherentInvariant_of_runs (PartialStep.runs_of_guarded hrun)
  obtain ⟨victims, hbiggest, hatomic⟩ := hclaim _ _ _ _ hinv.table hcoherent hinv.statuses.length
    habsent hshort hfits
  have hlength := hatomic.length
  have hreplaced := hbiggest.replaced
  rw [hkeys, List.nil_append] at hreplaced
  rw [← hreplaced, hneeded] at hlength
  cases hlength

end SockMyPort.Instancia
