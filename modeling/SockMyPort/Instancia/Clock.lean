/-
# The circular replacement as a clock

The circular policy gives up the first atomic slots that it meets going round the status
table from its pointer. The keys are the right ones from every position. The pointer follows
the scan only as long as the scan does not start again at slot 0: the second loop has an
index of its own, and the pointer stays at the end of the table.
-/

import SockMyPort.Instancia.AtomicSlots

namespace SockMyPort.Instancia

open SockMyPort.Commons Library

variable {config : Config}

/-! ## The order of the clock -/

/-- The position that a pointer denotes: past the end it is the first one. -/
def pointedSlot (length pointer : ℕ) : ℕ := if pointer < length then pointer else 0

/-- Once round the list from the pointer on. -/
def clockOrder (slots : List ℕ) (pointer : ℕ) : List ℕ :=
  slots.rotate (pointedSlot slots.length pointer)

/-- The slots that a clock gives up, as many as are needed. -/
def clockVictims (table : List Status) (slots : List ℕ) (pointer needed : ℕ) : List ℕ :=
  ((clockOrder slots pointer).filter (isAtomicAt table)).take needed

theorem clockOrder_of_start {slots : List ℕ} {pointer : ℕ}
    (hstart : slots.length ≤ pointer ∨ pointer = 0) : clockOrder slots pointer = slots := by
  have hzero : pointedSlot slots.length pointer = 0 := by
    rw [pointedSlot]
    split <;> omega
  rw [clockOrder, hzero, List.rotate_zero]

theorem clockOrder_of_lt (slots : List ℕ) (pointer : ℕ) (hpointer : pointer < slots.length) :
    clockOrder slots pointer = slots.drop pointer ++ slots.take pointer := by
  rw [clockOrder, pointedSlot, if_pos hpointer, List.rotate_eq_drop_append_take (by omega)]

theorem perm_clockOrder (slots : List ℕ) (pointer : ℕ) : (clockOrder slots pointer).Perm slots :=
  List.rotate_perm ..

variable (config) in
/-- What the algorithm starts with. -/
def Replacement.start (state : InstanceState) (keyValue : KeyValue)
    (replacedKeys : List CString) : Replacement where
  table := state.entryTableStatusGlobal
  replacedKeys := replacedKeys
  entriesNeeded := entryTableEntriesNeeded config keyValue - state.entriesLeft
  totalReplaced := 0

/-- Where the pointer is left. -/
def clockPointer (replacement : Replacement) (slots : List ℕ) (pointer : ℕ) : ℕ :=
  if slots.length ≤ pointer ∨ pointer = 0 then (replacement.scan slots).2
  else pointer + (replacement.scan (slots.drop pointer)).2

/-- **The algorithm** on any list of distinct slots. -/
theorem algorithmCircular_eq {state : InstanceState} {keyValue : KeyValue} {slots : List ℕ}
    (hnodup : slots.Nodup) (hshort : entryTableHaveEntries config state keyValue = false)
    (hfits : newValueFits config state keyValue = true) (replacedKeys : List CString) :
    let victims := clockVictims state.entryTableStatusGlobal slots state.algorithmCircularPointer
      (entryTableEntriesNeeded config keyValue - state.entriesLeft).toNat
    algorithmCircular config state slots keyValue replacedKeys =
      { state := { state with
          entryTableStatusGlobal := giveUpSlots state.entryTableStatusGlobal victims
          algorithmCircularPointer := clockPointer
            (Replacement.start config state keyValue replacedKeys) slots
            state.algorithmCircularPointer }
        replacedKeys := replacedKeys ++
          victims.map fun slot => (statusAt state.entryTableStatusGlobal slot).key
        result := victims.length } := by
  intro victims
  have hneeded : 0 ≤ (Replacement.start config state keyValue replacedKeys).entriesNeeded := by
    simp only [entryTableHaveEntries, decide_eq_false_iff_not] at hshort
    simp only [Replacement.start]
    omega
  have hscan := Replacement.scan_eq
    ((perm_clockOrder slots state.algorithmCircularPointer).nodup_iff.mpr
    hnodup) (Replacement.start config state keyValue replacedKeys) hneeded
  simp only [algorithmCircular, hshort, hfits, Bool.not_false, Bool.and_self, if_true, ge_iff_le]
  by_cases hstart : slots.length ≤ state.algorithmCircularPointer ∨
      state.algorithmCircularPointer = 0
  · rw [if_pos hstart]
    rw [clockOrder_of_start hstart] at hscan
    have hvictims : (Replacement.start config state keyValue replacedKeys).victims slots =
        victims := by
      simp only [victims, clockVictims, clockOrder_of_start hstart]
      rfl
    rw [hvictims] at hscan
    have hpointer : clockPointer (Replacement.start config state keyValue replacedKeys) slots
        state.algorithmCircularPointer =
          ((Replacement.start config state keyValue replacedKeys).scan slots).2 := by
      rw [clockPointer, if_pos hstart]
    rw [hpointer]
    simp only [Replacement.start] at hscan ⊢
    rw [hscan]
    simp
  · rw [if_neg hstart]
    rw [clockOrder_of_lt _ _ (by omega), Replacement.scan_append] at hscan
    have hvictims : (Replacement.start config state keyValue replacedKeys).victims
        (slots.drop state.algorithmCircularPointer ++ slots.take state.algorithmCircularPointer) =
        victims := by
      simp only [victims, clockVictims]
      rw [clockOrder_of_lt _ _ (by omega)]
      rfl
    rw [hvictims] at hscan
    have hpointer : clockPointer (Replacement.start config state keyValue replacedKeys) slots
        state.algorithmCircularPointer = state.algorithmCircularPointer +
          ((Replacement.start config state keyValue replacedKeys).scan
            (slots.drop state.algorithmCircularPointer)).2 := by
      rw [clockPointer, if_neg hstart]
    rw [hpointer]
    simp only [Replacement.start] at hscan ⊢
    rw [hscan]
    simp

/-! ## The clock on the status table -/

variable (config) in
/-- The slots that a clock gives up for a value. -/
def clockEvicts (state : InstanceState) (keyValue : KeyValue) : List ℕ :=
  clockVictims state.entryTableStatusGlobal (List.range state.entryTableStatusGlobal.length)
    state.algorithmCircularPointer
    (entryTableEntriesNeeded config keyValue - state.entriesLeft).toNat

variable (config) in
/-- `algorithm_circular` works as a clock: it gives up the first atomic slots from the pointer
on, as many as entries are missing, and leaves the pointer behind the last one. -/
structure ClockReplaces (state : InstanceState) (keyValue : KeyValue)
    (replacedKeys : List CString) (executed : AlgorithmResult) : Prop where
  result : executed.result = entryTableEntriesNeeded config keyValue - state.entriesLeft
  keys : AtomicKeys config state.entryTable
    (entryTableEntriesNeeded config keyValue - state.entriesLeft)
    ((clockEvicts config state keyValue).map fun slot =>
      (statusAt state.entryTableStatusGlobal slot).key)
  replaced : executed.replacedKeys = replacedKeys ++
    (clockEvicts config state keyValue).map fun slot =>
      (statusAt state.entryTableStatusGlobal slot).key
  statuses : executed.state.entryTableStatusGlobal =
    giveUpSlots state.entryTableStatusGlobal (clockEvicts config state keyValue)
  resumes : ∀ last, (clockEvicts config state keyValue).getLast? = some last →
    pointedSlot state.entryTableStatusGlobal.length executed.state.algorithmCircularPointer =
      (last + 1) % state.entryTableStatusGlobal.length

variable (config) in
/-- The scan does not have to start again at the beginning of the table: it begins there, or
there are enough atomic slots from the pointer on. -/
def scanStaysAhead (state : InstanceState) (keyValue : KeyValue) : Bool :=
  decide (state.entryTableStatusGlobal.length ≤ state.algorithmCircularPointer ∨
    state.algorithmCircularPointer = 0) ||
  decide (entryTableEntriesNeeded config keyValue - state.entriesLeft ≤
    (((List.range state.entryTableStatusGlobal.length).drop state.algorithmCircularPointer).filter
      (isAtomicAt state.entryTableStatusGlobal)).length)

theorem pointedSlot_of_le {length pointer : ℕ} (hpointer : pointer ≤ length) :
    pointedSlot length pointer = pointer % length := by
  rw [pointedSlot]
  split
  · rename_i hlt
    rw [Nat.mod_eq_of_lt hlt]
  · rw [Nat.le_antisymm hpointer (by omega), Nat.mod_self]

theorem isAtomicAt_lt {table : List Status} {slot : ℕ} (hatomic : isAtomicAt table slot = true) :
    slot < table.length :=
  (List.getElem?_eq_some_iff.mp (getElem?_of_atomic (of_decide_eq_true hatomic))).1

theorem mem_filter_clockOrder {table : List Status} {pointer slot : ℕ} :
    slot ∈ (clockOrder (List.range table.length) pointer).filter (isAtomicAt table) ↔
      isAtomicAt table slot = true := by
  rw [List.mem_filter, (perm_clockOrder _ _).mem_iff, List.mem_range, and_iff_right_iff_imp]
  exact isAtomicAt_lt

theorem nodup_filter_clockOrder (table : List Status) (pointer : ℕ) :
    ((clockOrder (List.range table.length) pointer).filter (isAtomicAt table)).Nodup :=
  ((perm_clockOrder _ _).nodup_iff.mpr List.nodup_range).filter _

/-- A value that fits with replacements finds enough slots. -/
theorem AtomicSlots.length_clockEvicts {state : InstanceState} {keyValue : KeyValue} {left : ℤ}
    (h : AtomicSlots config state.entryTable state.entryTableStatusGlobal)
    (inv : TableInvariant config state.entryTable left)
    (hshort : entryTableHaveEntries config state keyValue = false)
    (hfits : newValueFits config state keyValue = true) :
    ((clockEvicts config state keyValue).length : ℤ) =
      entryTableEntriesNeeded config keyValue - state.entriesLeft := by
  have hcount := h.length_eq inv
    (nodup_filter_clockOrder state.entryTableStatusGlobal state.algorithmCircularPointer)
    fun _ => mem_filter_clockOrder
  simp only [entryTableHaveEntries, decide_eq_false_iff_not] at hshort
  simp only [newValueFits, decide_eq_true_eq] at hfits
  rw [clockEvicts, clockVictims, List.length_take_of_le (by rw [hcount]; omega)]
  omega

/-- What the algorithm gives up are slots of as many atomic keys. -/
theorem AtomicSlots.atomicKeys_clockEvicts {state : InstanceState} {left : ℤ}
    (h : AtomicSlots config state.entryTable state.entryTableStatusGlobal)
    (inv : TableInvariant config state.entryTable left) (keyValue : KeyValue) :
    AtomicKeys config state.entryTable (clockEvicts config state keyValue).length
      ((clockEvicts config state keyValue).map fun slot =>
        (statusAt state.entryTableStatusGlobal slot).key) := by
  apply h.atomicKeys inv
  · exact (nodup_filter_clockOrder _ _).sublist (List.take_sublist ..)
  · intro slot hmem
    exact mem_filter_clockOrder.mp (List.mem_of_mem_take hmem)

/-- Where the pointer is left when the scan stays ahead of it. -/
theorem clockPointer_of_ahead {state : InstanceState} {keyValue : KeyValue}
    (replacedKeys : List CString)
    (hshort : entryTableHaveEntries config state keyValue = false)
    (henough : (entryTableEntriesNeeded config keyValue - state.entriesLeft).toNat ≤
      (clockEvicts config state keyValue).length)
    (hahead : scanStaysAhead config state keyValue = true) :
    ∃ last, (clockEvicts config state keyValue).getLast? = some last ∧
      last < state.entryTableStatusGlobal.length ∧
      clockPointer (Replacement.start config state keyValue replacedKeys)
        (List.range state.entryTableStatusGlobal.length) state.algorithmCircularPointer =
          last + 1 := by
  have hneeded : 0 < (Replacement.start config state keyValue replacedKeys).entriesNeeded := by
    simp only [entryTableHaveEntries, decide_eq_false_iff_not] at hshort
    simp only [Replacement.start]
    omega
  by_cases hstart : state.entryTableStatusGlobal.length ≤ state.algorithmCircularPointer ∨
      state.algorithmCircularPointer = 0
  · have horder : clockOrder (List.range state.entryTableStatusGlobal.length)
        state.algorithmCircularPointer = List.range state.entryTableStatusGlobal.length :=
      clockOrder_of_start (by rw [List.length_range]; exact hstart)
    rw [clockEvicts, clockVictims, horder, List.range_eq_range'] at henough ⊢
    rw [List.length_take] at henough
    obtain ⟨last, hlast, hrange, hstop⟩ := Replacement.scan_snd_of_enough
      0 state.entryTableStatusGlobal.length
      (Replacement.start config state keyValue replacedKeys) hneeded (by
        simp only [Replacement.start] at hneeded ⊢
        omega)
    refine ⟨last, hlast, by omega, ?_⟩
    rw [clockPointer, List.length_range', if_pos hstart]
    omega
  · rw [scanStaysAhead, Bool.or_eq_true, decide_eq_true_eq, decide_eq_true_eq] at hahead
    have hroom := hahead.resolve_left hstart
    have horder := clockOrder_of_lt (List.range state.entryTableStatusGlobal.length)
      state.algorithmCircularPointer (by rw [List.length_range]; omega)
    have hdrop : (List.range state.entryTableStatusGlobal.length).drop
        state.algorithmCircularPointer = List.range' state.algorithmCircularPointer
          (state.entryTableStatusGlobal.length - state.algorithmCircularPointer) := by
      rw [List.range_eq_range', List.drop_range']
      simp
    obtain ⟨last, hlast, hrange, hstop⟩ := Replacement.scan_snd_of_enough
      state.algorithmCircularPointer
      (state.entryTableStatusGlobal.length - state.algorithmCircularPointer)
      (Replacement.start config state keyValue replacedKeys) hneeded (by
        rw [hdrop] at hroom
        exact hroom)
    refine ⟨last, ?_, by omega, ?_⟩
    · rw [clockEvicts, clockVictims, horder, List.filter_append, List.take_append_of_le_length
        (by omega), hdrop]
      exact hlast
    · rw [clockPointer, List.length_range, if_neg hstart, hdrop]
      exact hstop

/-- When the scan starts again, the pointer stays at the end of the table, and the last victim
lies before the place where the scan began. -/
theorem clockPointer_of_wrapped {state : InstanceState} {keyValue : KeyValue}
    (replacedKeys : List CString) (henough :
      ((clockEvicts config state keyValue).length : ℤ) =
        entryTableEntriesNeeded config keyValue - state.entriesLeft)
    (hwrapped : scanStaysAhead config state keyValue = false) :
    state.algorithmCircularPointer < state.entryTableStatusGlobal.length ∧
      (∃ last, (clockEvicts config state keyValue).getLast? = some last ∧
        last < state.algorithmCircularPointer) ∧
      clockPointer (Replacement.start config state keyValue replacedKeys)
        (List.range state.entryTableStatusGlobal.length) state.algorithmCircularPointer =
          state.entryTableStatusGlobal.length := by
  rw [scanStaysAhead, Bool.or_eq_false_iff, decide_eq_false_iff_not, decide_eq_false_iff_not]
    at hwrapped
  obtain ⟨hstart, hroom⟩ := hwrapped
  have horder := clockOrder_of_lt (List.range state.entryTableStatusGlobal.length)
    state.algorithmCircularPointer (by rw [List.length_range]; omega)
  refine ⟨by omega, ?_, ?_⟩
  · rw [clockEvicts, clockVictims, horder, List.filter_append, List.take_append] at henough ⊢
    rw [List.take_of_length_le (by omega)] at henough ⊢
    have hrest : ((List.take state.algorithmCircularPointer
        (List.range state.entryTableStatusGlobal.length)).filter
          (isAtomicAt state.entryTableStatusGlobal)).take
        ((entryTableEntriesNeeded config keyValue - state.entriesLeft).toNat -
          (((List.range state.entryTableStatusGlobal.length).drop
            state.algorithmCircularPointer).filter
              (isAtomicAt state.entryTableStatusGlobal)).length) ≠ [] := by
      intro hnil
      rw [hnil, List.append_nil] at henough
      omega
    refine ⟨_, List.getLast?_append_of_ne_nil _ hrest ▸ List.getLast?_eq_some_getLast hrest, ?_⟩
    have hbefore : ∀ slot ∈ (List.range state.entryTableStatusGlobal.length).take
        state.algorithmCircularPointer, slot < state.algorithmCircularPointer := by
      intro slot hslot
      rw [List.take_range, List.mem_range] at hslot
      omega
    apply hbefore
    exact (List.mem_filter.mp (List.mem_of_mem_take (List.getLast_mem hrest))).1
  · rw [clockPointer, List.length_range, if_neg hstart,
      Replacement.scan_snd_of_short (List.nodup_range.sublist (List.drop_sublist ..)) _
        (not_le.mp hroom), List.length_drop, List.length_range]
    omega

/-- **The circular policy is a clock** exactly when its scan stays ahead of the pointer,
whatever the counter of free entries says. -/
theorem clockReplaces_iff {state : InstanceState} {keyValue : KeyValue} {left : ℤ}
    (inv : TableInvariant config state.entryTable left)
    (hcoherent : CoherentStatus config state.entryTable state.entryTableStatusGlobal)
    (hlength : state.entryTableStatusGlobal.length = config.totalEntries)
    (hshort : entryTableHaveEntries config state keyValue = false)
    (hfits : newValueFits config state keyValue = true) (replacedKeys : List CString) :
    ClockReplaces config state keyValue replacedKeys
        (algorithmCircular config state (List.range state.entryTableStatusGlobal.length) keyValue
          replacedKeys) ↔
      scanStaysAhead config state keyValue = true := by
  have hslots := hcoherent.atomicSlots inv hlength
  have hcount := hslots.length_clockEvicts inv hshort hfits
  have hpositive : 0 < state.entryTableStatusGlobal.length := by
    rw [hlength]
    exact config.totalEntries_pos
  rw [algorithmCircular_eq List.nodup_range hshort hfits, ← clockEvicts]
  constructor
  · intro hclock
    by_contra hwrapped
    obtain ⟨hpointer, ⟨last, hlast, hbefore⟩, hend⟩ := clockPointer_of_wrapped
      replacedKeys hcount (Bool.eq_false_iff.mpr hwrapped)
    have hresumes := hclock.resumes last hlast
    simp only at hresumes
    rw [hend, pointedSlot_of_le le_rfl, Nat.mod_self, Nat.mod_eq_of_lt (by omega)]
      at hresumes
    omega
  · intro hahead
    obtain ⟨last, hlast, hrange, hend⟩ := clockPointer_of_ahead replacedKeys
      hshort (by omega) hahead
    constructor
    case result => exact hcount
    case keys =>
      have hkeys := hslots.atomicKeys_clockEvicts inv keyValue
      rw [hcount] at hkeys
      exact hkeys
    case replaced => rfl
    case statuses => rfl
    case resumes =>
      intro other hother
      simp only
      rw [Option.some.inj (hother.symm.trans hlast), hend, pointedSlot_of_le (by omega)]

/-- A SET of a key of one byte to the value `x`. -/
def setX (key : UInt8) : Request := .set ⟨true, literal [key], literal [120], literal_x_ne, true⟩

/-- After four keys the pointer is at slot 1, and a value of two entries takes the slots 1
and 2. -/
theorem clockReplaces_iff_ahead : ∃ state : InstanceState,
    clockEvicts threeEntries state (keyValueCreate (literal [102]) (literal [120, 120])) = [1, 2] ∧
    ClockReplaces threeEntries state (keyValueCreate (literal [102]) (literal [120, 120])) []
      (algorithmCircular threeEntries state (List.range state.entryTableStatusGlobal.length)
        (keyValueCreate (literal [102]) (literal [120, 120])) []) := by
  obtain ⟨finish, hrun, hcheck⟩ := PartialStep.exists_run_of_execute
    ((instanceStep threeEntries).guarded fun traced request =>
      requestKeepsStatus threeEntries traced.state request) (freshInstance threeEntries [])
    [setX 97, setX 98, setX 99, setX 100]
    (fun traced =>
      let keyValue := keyValueCreate (literal [102]) (literal [120, 120])
      !entryTableHaveEntries threeEntries traced.state keyValue &&
      newValueFits threeEntries traced.state keyValue &&
      scanStaysAhead threeEntries traced.state keyValue &&
      decide (clockEvicts threeEntries traced.state keyValue = [1, 2]))
    (by decide +kernel)
  simp only [Bool.and_eq_true, Bool.not_eq_true', decide_eq_true_eq] at hcheck
  obtain ⟨⟨⟨hshort, hfits⟩, hahead⟩, hvictims⟩ := hcheck
  obtain ⟨hinv, hcoherent⟩ := coherentInvariant_of_runs (PartialStep.runs_of_guarded hrun)
  exact ⟨finish.state, hvictims, (clockReplaces_iff hinv.table hcoherent hinv.statuses.length hshort
    hfits []).mpr hahead⟩

/-- After five keys the pointer is at slot 2, and a value of two entries takes the slots 2
and 0: the next scan does not begin at slot 1. -/
theorem not_clockReplaces :
    ¬ ∀ (config : Config) (state : InstanceState) (keyValue : KeyValue) (left : ℤ),
      TableInvariant config state.entryTable left →
      CoherentStatus config state.entryTable state.entryTableStatusGlobal →
      state.entryTableStatusGlobal.length = config.totalEntries →
      entryTableGetEntry state.entryTable keyValue.key = none →
      entryTableHaveEntries config state keyValue = false →
      newValueFits config state keyValue = true →
        ClockReplaces config state keyValue []
          (algorithmCircular config state (List.range state.entryTableStatusGlobal.length) keyValue
            []) := by
  intro hclaim
  obtain ⟨finish, hrun, hcheck⟩ := PartialStep.exists_run_of_execute
    ((instanceStep threeEntries).guarded fun traced request =>
      requestKeepsStatus threeEntries traced.state request) (freshInstance threeEntries [])
    [setX 97, setX 98, setX 99, setX 100, setX 101]
    (fun traced =>
      let keyValue := keyValueCreate (literal [102]) (literal [120, 120])
      let executed := algorithmCircular threeEntries traced.state
        (List.range traced.state.entryTableStatusGlobal.length) keyValue []
      (entryTableGetEntry traced.state.entryTable keyValue.key).isNone &&
      !entryTableHaveEntries threeEntries traced.state keyValue &&
      newValueFits threeEntries traced.state keyValue &&
      decide ((clockEvicts threeEntries traced.state keyValue).getLast? = some 0) &&
      decide (pointedSlot traced.state.entryTableStatusGlobal.length
        executed.state.algorithmCircularPointer = 0) &&
      decide (traced.state.entryTableStatusGlobal.length = 3))
    (by decide +kernel)
  simp only [Bool.and_eq_true, Option.isNone_iff_eq_none, Bool.not_eq_true', decide_eq_true_eq]
    at hcheck
  obtain ⟨⟨⟨⟨⟨habsent, hshort⟩, hfits⟩, hlast⟩, hpointer⟩, hlength⟩ := hcheck
  obtain ⟨hinv, hcoherent⟩ := coherentInvariant_of_runs (PartialStep.runs_of_guarded hrun)
  have hresumes := (hclaim _ _ _ _ hinv.table hcoherent hinv.statuses.length habsent hshort
    hfits).resumes 0 hlast
  rw [hpointer, hlength] at hresumes
  cases hresumes

end SockMyPort.Instancia
