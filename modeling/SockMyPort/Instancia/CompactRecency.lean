/-
# What a compaction does to the counters

Compaction deletes every key and adds it again, through the call that a SET uses: the counter
of the key becomes zero and the others count. In the end the counters say where the entries
stand in the table, whatever they said before. A turn that clears the slot of an entry put
back earlier, because it bears the same name in another case, leaves a zero there.
-/

import SockMyPort.Instancia.LeastRecentlySet

namespace SockMyPort.Instancia

open SockMyPort.Commons Library

variable {config : Config}

/-! ## Where the entries are put, and what is cleared -/

variable (config) in
/-- Where compaction puts the entry at this place of the table. -/
def packedNumber (state : InstanceState) (place : ℕ) : ℕ :=
  occupied (Entry.slots config) (state.entryTable.take place)

variable (config) in
/-- The turn of a compaction clears the slot. -/
def turnClears (state : InstanceState) (turn slot : ℕ) : Bool :=
  match state.entryTable[turn]? with
  | some entry =>
      deleteKvClears entry.key (compactTurns config state turn).entryTableStatusGlobal
        (reqEntries config entry.size) slot
  | none => false

variable (config) in
/-- One of these turns clears the slot of the entry that was put back before it. -/
def clearedBefore (state : InstanceState) (turns place : ℕ) : Bool :=
  (List.range turns).any fun turn =>
    decide (place < turn) && turnClears config state turn (packedNumber config state place)

variable (config) in
/-- A later turn of the compaction clears the slot of the entry at this place. -/
def clearedLater (state : InstanceState) (place : ℕ) : Bool :=
  clearedBefore config state state.entryTable.length place

theorem clearedBefore_succ (state : InstanceState) (turns place : ℕ) :
    clearedBefore config state (turns + 1) place =
      (clearedBefore config state turns place ||
        decide (place < turns) &&
          turnClears config state turns (packedNumber config state place)) := by
  rw [clearedBefore, List.range_succ, List.any_append, List.any_cons, List.any_nil, Bool.or_false]
  rfl

theorem clearedBefore_self (state : InstanceState) (place : ℕ) :
    clearedBefore config state (place + 1) place = false := by
  rw [clearedBefore, List.any_eq_false]
  intro turn hturn
  rw [List.mem_range] at hturn
  have hnot : ¬ place < turn := by omega
  simp [hnot]

theorem packedNumber_succ (config : Config) {state : InstanceState} {place : ℕ}
    (hplace : place < state.entryTable.length) :
    packedNumber config state (place + 1) =
      packedNumber config state place + state.entryTable[place].slots config := by
  rw [packedNumber, List.take_succ_eq_append_getElem hplace, occupied_append, packedNumber]
  simp

theorem packedNumber_mono (config : Config) (state : InstanceState) {first second : ℕ}
    (hle : first ≤ second) :
    packedNumber config state first ≤ packedNumber config state second := by
  obtain ⟨more, rfl⟩ := Nat.exists_eq_add_of_le hle
  rw [packedNumber, packedNumber, List.take_add, occupied_append]
  omega

theorem getElem?_packFrom (start : ℕ) (entries : List Entry) (place : ℕ) :
    (packFrom config start entries)[place]? = entries[place]?.map fun entry =>
      { entry with number := start + occupied (Entry.slots config) (entries.take place) } := by
  induction entries generalizing start place with
  | nil => rfl
  | cons entry entries ih =>
      cases place with
      | zero => simp [packFrom]
      | succ place =>
          simp only [packFrom, List.getElem?_cons_succ, ih, List.take_succ_cons, occupied_cons,
            Nat.add_assoc]

namespace InstanceInvariant

variable {state : InstanceState}

/-! ## The counters after some turns -/

/-- What a turn does to the statuses. -/
theorem statusAt_compactTurns_succ (inv : InstanceInvariant config state) {turn : ℕ}
    (hturn : turn < state.entryTable.length) (slot : ℕ) :
    statusAt (Instancia.compactTurns config state (turn + 1)).entryTableStatusGlobal slot =
      if packedNumber config state turn ≤ slot ∧ slot < packedNumber config state (turn + 1) then
        convertEntryToStatus config
          { state.entryTable[turn] with number := packedNumber config state turn }
      else if turnClears config state turn slot then deletedStatus
      else
        (statusAt (Instancia.compactTurns config state turn).entryTableStatusGlobal slot).age := by
  have hreached := (inv.compactTurns turn).1
  have htable := inv.compactTurns_packed hturn.le
  rw [List.drop_eq_getElem_cons hturn] at htable
  have hentry : (Instancia.compactTurns config state turn).entryTable[turn]? =
      some state.entryTable[turn] := by
    rw [htable, List.getElem?_append_right (by simp)]
    simp [Nat.min_eq_left hturn.le]
  have hmem := List.mem_of_getElem? hentry
  have hsize := hreached.table.nonempty _ hmem
  have hkey := keyValueGenerator_key state.entryTable[turn].size (hreached.table.keyShort _ hmem)
  obtain ⟨nextEntry, hsearch, hinside, heq⟩ := hreached.compactEntry_eq hmem
  have hothers := hreached.table.otherEntries_of_split htable
  rw [hothers] at hsearch
  have hplace := hreached.searchGap_packed htable hsearch
  rw [← packedNumber] at hplace
  subst hplace
  have hslots : reqEntries config (keyValueGenerator state.entryTable[turn].key
      state.entryTable[turn].size).size = state.entryTable[turn].slots config := by
    rw [keyValueGenerator_size, Entry.slots]
  have hconverted : convertEntryToStatus config (convertKeyValueToEntry
      (keyValueGenerator state.entryTable[turn].key state.entryTable[turn].size)
        (packedNumber config state turn)) =
      convertEntryToStatus config
        { state.entryTable[turn] with number := packedNumber config state turn } := by
    rw [convertKeyValueToEntry, hkey, keyValueGenerator_size]
  simp only [Instancia.compactTurns, Instancia.compactTurn, hentry, heq, putBack,
    Instancia.takeOut]
  rw [statusAt_add (by rw [keyValueGenerator_size]; exact hsize) (by
    rw [hslots, length_entryTableStatusDeleteKv, hreached.statuses.length]
    exact hinside), hslots, hconverted, packedNumber_succ config hturn, statusAt_delete, hkey,
    entryTableEntriesNeeded_eq, hslots]
  have hclears : turnClears config state turn slot = deleteKvClears state.entryTable[turn].key
      (Instancia.compactTurns config state turn).entryTableStatusGlobal
      (state.entryTable[turn].slots config) slot := by
    rw [turnClears, List.getElem?_eq_getElem hturn, Entry.slots]
  rw [hclears]
  split
  · rfl
  · split <;> rfl

/-- After some turns, an entry that was put back has the counter of the turns since then, or
zero where its slot has been cleared. -/
theorem counters_compactTurns (inv : InstanceInvariant config state) {turns : ℕ}
    (hturns : turns ≤ state.entryTable.length) {place : ℕ} (hplace : place < turns) :
    let status := statusAt (Instancia.compactTurns config state turns).entryTableStatusGlobal
      (packedNumber config state place)
    if clearedBefore config state turns place then
      status.status = .free ∧ status.lastReferenced = 0
    else status.status ≠ .free ∧ status.lastReferenced = turns - 1 - place := by
  induction turns with
  | zero => exact absurd hplace (Nat.not_lt_zero place)
  | succ turns ih =>
      have hlt : turns < state.entryTable.length := hturns
      have hpositive := inv.table.slots_pos _ (List.getElem_mem hlt)
      rcases Nat.lt_succ_iff_lt_or_eq.mp hplace with hearlier | rfl
      · have hpos := inv.table.slots_pos _ (List.getElem_mem (hearlier.trans hlt))
        have hsucc := packedNumber_succ config (hearlier.trans hlt)
        have hmono := packedNumber_mono config state
          (show place + 1 ≤ turns from hearlier)
        have hsmall : state.entryTable.length < 2 ^ 31 :=
          inv.table.length_le.trans_lt config.setup.totalEntries_lt
        have hbefore := ih hlt.le hearlier
        have hstep := inv.statusAt_compactTurns_succ hlt (packedNumber config state place)
        rw [if_neg (by omega)] at hstep
        simp only at hbefore ⊢
        rw [hstep, clearedBefore_succ, decide_eq_true hearlier, Bool.true_and]
        cases hclears : turnClears config state turns (packedNumber config state place)
        · rw [Bool.or_false]
          simp only [Bool.false_eq_true, if_false]
          cases hcleared : clearedBefore config state turns place
          · rw [hcleared] at hbefore
            simp only [Bool.false_eq_true, if_false] at hbefore ⊢
            refine ⟨by rw [Status.age_status]; exact hbefore.1, ?_⟩
            rw [Status.age, if_pos hbefore.1]
            simp only
            rw [hbefore.2, Int.bmod_eq_of_le_mul_two (by omega) (by omega)]
            push_cast
            omega
          · rw [hcleared] at hbefore
            simp only [if_true] at hbefore ⊢
            refine ⟨by rw [Status.age_status]; exact hbefore.1, ?_⟩
            rw [Status.age, if_neg (by simp [hbefore.1])]
            exact hbefore.2
        · simp [deletedStatus]
      · have hstep := inv.statusAt_compactTurns_succ hlt (packedNumber config state place)
        have hsucc := packedNumber_succ config hlt
        rw [if_pos (by omega)] at hstep
        simp only
        rw [hstep, clearedBefore_self]
        simp only [Bool.false_eq_true, if_false]
        constructor
        · intro hfree
          rcases (convertEntryToStatus_spec config _).2.2 with hclaims | hclaims <;>
            rw [hfree] at hclaims <;> cases hclaims
        · rw [convertEntryToStatus]
          split <;> simp

end InstanceInvariant

/-! ## The order of the counters -/

/-- `last_referenced` of a stored key. -/
def lastReferencedOf (state : InstanceState) (key : CString) : Option ℤ :=
  (entryTableGetEntry state.entryTable key).map fun entry =>
    entry.lastReferenced state.entryTableStatusGlobal

/-- Whenever the counter of a stored key is greater than that of another one, it stays so. -/
def KeepsOrder (before after : InstanceState) : Prop :=
  ∀ (first second : CString) (older younger : ℤ),
    lastReferencedOf before first = some older → lastReferencedOf before second = some younger →
      younger < older →
        ∃ older' younger', lastReferencedOf after first = some older' ∧
          lastReferencedOf after second = some younger' ∧ younger' < older'

variable (config) in
/-- An entry with a greater counter than another one is not cleared by a later turn, and stands
before the other one; if that one is cleared, it is enough that it is not the last one. -/
def CompactKeepsOrder (state : InstanceState) : Prop :=
  ∀ (first : ℕ) (hfirst : first < state.entryTable.length) (second : ℕ)
    (hsecond : second < state.entryTable.length),
    state.entryTable[second].lastReferenced state.entryTableStatusGlobal <
        state.entryTable[first].lastReferenced state.entryTableStatusGlobal →
      clearedLater config state first = false ∧
        if clearedLater config state second then first + 1 < state.entryTable.length
        else first < second

instance (state : InstanceState) : Decidable (CompactKeepsOrder config state) :=
  inferInstanceAs (Decidable (∀ (first : ℕ) (hfirst : first < state.entryTable.length) (second : ℕ)
    (hsecond : second < state.entryTable.length),
    state.entryTable[second].lastReferenced state.entryTableStatusGlobal <
        state.entryTable[first].lastReferenced state.entryTableStatusGlobal →
      clearedLater config state first = false ∧
        if clearedLater config state second then first + 1 < state.entryTable.length
        else first < second))

namespace InstanceInvariant

variable {state : InstanceState}

theorem lastReferencedOf_getElem (inv : InstanceInvariant config state) {place : ℕ}
    (hplace : place < state.entryTable.length) :
    lastReferencedOf state state.entryTable[place].key =
      some (state.entryTable[place].lastReferenced state.entryTableStatusGlobal) := by
  rw [lastReferencedOf, inv.getEntry_of_mem (List.getElem_mem hplace), Option.map_some]

theorem exists_place_of_lastReferencedOf {key : CString} {counter : ℤ}
    (hcounter : lastReferencedOf state key = some counter) :
    ∃ (place : ℕ) (hplace : place < state.entryTable.length), state.entryTable[place].key = key ∧
      state.entryTable[place].lastReferenced state.entryTableStatusGlobal = counter := by
  obtain ⟨entry, hget, rfl⟩ := Option.map_eq_some_iff.mp hcounter
  obtain ⟨place, hplace, rfl⟩ := List.getElem_of_mem (mem_of_getEntry hget)
  exact ⟨place, hplace, (key_of_getEntry hget), rfl⟩

/-- **After a compaction** the counters say where the entries stand. -/
theorem lastReferencedOf_compact (inv : InstanceInvariant config state) {place : ℕ}
    (hplace : place < state.entryTable.length) :
    lastReferencedOf (Instancia.compactationCompact config state) state.entryTable[place].key =
      some (if clearedLater config state place then (0 : ℤ)
        else (state.entryTable.length : ℤ) - 1 - place) := by
  have hpacked := inv.compactationCompact_packed
  have hentry : (Instancia.compactationCompact config state).entryTable[place]? =
      some { state.entryTable[place] with number := packedNumber config state place } := by
    rw [hpacked, getElem?_packFrom, List.getElem?_eq_getElem hplace, Option.map_some,
      Nat.zero_add, packedNumber]
  have hget := inv.compactationCompact.1.getEntry_of_mem (List.mem_of_getElem? hentry)
  have hcounters := inv.counters_compactTurns (le_refl state.entryTable.length) hplace
  simp only at hget hcounters
  rw [lastReferencedOf, hget, Option.map_some, Entry.lastReferenced, clearedLater,
    Instancia.compactationCompact]
  cases hcleared : clearedBefore config state state.entryTable.length place
  · rw [hcleared] at hcounters
    simp only [Bool.false_eq_true, if_false] at hcounters ⊢
    rw [hcounters.2]
  · rw [hcleared] at hcounters
    simp only [if_true] at hcounters ⊢
    rw [hcounters.2]

theorem keepsOrder_compact_iff (inv : InstanceInvariant config state) :
    KeepsOrder state (Instancia.compactationCompact config state) ↔
      CompactKeepsOrder config state := by
  constructor
  · intro hkeeps first hfirst second hsecond hless
    obtain ⟨older, younger, holder, hyounger, hstill⟩ := hkeeps _ _ _ _
      (inv.lastReferencedOf_getElem hfirst) (inv.lastReferencedOf_getElem hsecond) hless
    rw [inv.lastReferencedOf_compact hfirst, Option.some.injEq] at holder
    rw [inv.lastReferencedOf_compact hsecond, Option.some.injEq] at hyounger
    rw [← holder, ← hyounger] at hstill
    cases hcleared : clearedLater config state first <;>
      cases hcleared' : clearedLater config state second <;>
      simp only [hcleared, hcleared', Bool.false_eq_true, Bool.true_eq_false, if_false, if_true,
        true_and, false_and] at hstill ⊢ <;>
      omega
  · intro hkeeps first second older younger holder hyounger hless
    obtain ⟨place, hplace, rfl, rfl⟩ := exists_place_of_lastReferencedOf holder
    obtain ⟨other, hother, rfl, rfl⟩ := exists_place_of_lastReferencedOf hyounger
    obtain ⟨hcleared, hbefore⟩ := hkeeps place hplace other hother hless
    refine ⟨_, _, inv.lastReferencedOf_compact hplace, inv.lastReferencedOf_compact hother, ?_⟩
    rw [hcleared]
    cases hcleared' : clearedLater config state other <;>
      simp only [hcleared', Bool.false_eq_true, if_false, if_true] at hbefore ⊢ <;> omega

end InstanceInvariant

/-! ## The victims by age -/

variable (config) in
/-- A new value that needs a replacement replaces the same keys. -/
def SameVictims (before after : InstanceState) : Prop :=
  ∀ keyValue : KeyValue, entryTableGetEntry before.entryTable keyValue.key = none →
    entryTableHaveEntries config before keyValue = false →
    newValueFits config before keyValue = true →
      (algorithmLru config after (List.range after.entryTableStatusGlobal.length) keyValue
          []).replacedKeys =
        (algorithmLru config before (List.range before.entryTableStatusGlobal.length) keyValue
          []).replacedKeys

variable (config) in
/-- The keys of the atomic slots in the order in which `algorithm_lru` meets them. -/
def keysByReference (table : List Status) : List CString :=
  (atomicByReference config table).map fun slot => (statusAt table slot).key

variable (config) in
/-- The keys of the atomic entries in the order of the table. -/
def atomicTableKeys (table : List Entry) : List CString :=
  (table.filter (entryTableIsEntryAtomic config)).map Entry.key

/-- Packing keeps the atomic keys and their order. -/
theorem atomicTableKeys_packFrom (config : Config) (start : ℕ) (entries : List Entry) :
    atomicTableKeys config (packFrom config start entries) = atomicTableKeys config entries := by
  induction entries generalizing start with
  | nil => rfl
  | cons entry entries ih =>
      have hsame : entryTableIsEntryAtomic config { entry with number := start } =
          entryTableIsEntryAtomic config entry := rfl
      simp only [atomicTableKeys] at ih
      simp only [atomicTableKeys, packFrom, List.filter_cons, hsame]
      split
      · rw [List.map_cons, List.map_cons, ih]
      · exact ih _

/-- Packing keeps the number of atomic entries. -/
theorem atomicEntriesCount_packFrom (start : ℕ) (entries : List Entry) :
    entryTableAtomicEntriesCount config (packFrom config start entries) =
      entryTableAtomicEntriesCount config entries := by
  have hkeys := congrArg List.length (atomicTableKeys_packFrom config start entries)
  rw [atomicTableKeys, atomicTableKeys, List.length_map, List.length_map] at hkeys
  rw [entryTableAtomicEntriesCount, entryTableAtomicEntriesCount, List.countP_eq_length_filter,
    List.countP_eq_length_filter, hkeys]

theorem map_key_packFrom (config : Config) (start : ℕ) (entries : List Entry) :
    (packFrom config start entries).map Entry.key = entries.map Entry.key := by
  induction entries generalizing start with
  | nil => rfl
  | cons entry entries ih => rw [packFrom, List.map_cons, List.map_cons, ih]

theorem AtomicSlots.aged {table : List Entry} {statuses : List Status}
    (h : AtomicSlots config table statuses) : AgedInOrder config [] 0 [] table statuses where
  own := h.own
  only slot _ hatomic := h.only slot hatomic
  range _ _ _ hkey := by cases hkey
  aged := .nil

/-- Where the counters fall from entry to entry, `algorithm_lru` meets the atomic slots in the
order of the table. -/
theorem AtomicSlots.keysByReference_eq {table : List Entry} {statuses : List Status} {left : ℤ}
    (h : AtomicSlots config table statuses) (inv : TableInvariant config table left)
    (hordered : (table.filter (entryTableIsEntryAtomic config)).Pairwise fun first second =>
      second.lastReferenced statuses < first.lastReferenced statuses) :
    keysByReference config statuses = atomicTableKeys config table := by
  have hperm := h.perm inv (nodup_atomicByReference config statuses) fun _ => mem_atomicByReference
  have hnumbers : ((table.filter (entryTableIsEntryAtomic config)).map Entry.number).Pairwise
      fun first second => (statusAt statuses second).lastReferenced <
        (statusAt statuses first).lastReferenced := List.pairwise_map.mpr hordered
  have hdistinct : (((table.filter (entryTableIsEntryAtomic config)).map Entry.number).map
      fun slot => (statusAt statuses slot).lastReferenced).Nodup :=
    List.pairwise_map.mpr (hnumbers.imp fun hlt => ne_of_gt hlt)
  have hslots : atomicByReference config statuses =
      (table.filter (entryTableIsEntryAtomic config)).map Entry.number := by
    apply hperm.eq_of_pairwise _ (atomicByReference_pairwise config statuses)
      (hnumbers.imp fun hlt => le_of_lt hlt)
    intro first second hfirst hsecond hle hge
    exact List.inj_on_of_nodup_map hdistinct (hperm.mem_iff.mp hfirst) hsecond
      (le_antisymm hge hle)
  rw [keysByReference, hslots, atomicTableKeys, List.map_map]
  apply List.map_congr_left
  intro entry hmem
  obtain ⟨htable, hatomic⟩ := List.mem_filter.mp hmem
  exact (h.own entry htable hatomic).2

/-- A number, written with so many binary digits. -/
def binaryKey (width number : ℕ) : CString :=
  (List.range width).map fun bit =>
    if number.testBit bit then ⟨49, by decide⟩ else ⟨48, by decide⟩

theorem binaryKey_injective {width first second : ℕ} (hfirst : first < 2 ^ width)
    (hsecond : second < 2 ^ width) (hsame : binaryKey width first = binaryKey width second) :
    first = second := by
  apply Nat.eq_of_testBit_eq
  intro bit
  by_cases hbit : bit < width
  · have hdigit := List.map_inj_left.mp hsame bit (List.mem_range.mpr hbit)
    cases hone : first.testBit bit <;> cases htwo : second.testBit bit <;>
      simp_all
  · have hwidth : 2 ^ width ≤ 2 ^ bit := Nat.pow_le_pow_right (by decide) (by omega)
    rw [Nat.testBit_lt_two_pow (by omega), Nat.testBit_lt_two_pow (by omega)]

/-- There is always a key that is not stored. -/
theorem TableInvariant.exists_absent {table : List Entry} {left : ℤ}
    (inv : TableInvariant config table left) :
    ∃ key : CString, key.length ≤ 40 ∧ entryTableGetEntry table key = none := by
  have hsmall : table.length < 2 ^ 31 := inv.length_le.trans_lt config.setup.totalEntries_lt
  by_contra hall
  have hsubset : (List.range (table.length + 1)).map (binaryKey 32) ⊆ table.map Entry.key := by
    intro key hkey
    obtain ⟨number, -, rfl⟩ := List.mem_map.mp hkey
    by_contra hfresh
    exact hall ⟨binaryKey 32 number, by simp [binaryKey],
      entryTableGetEntry_eq_none_iff.mpr hfresh⟩
  have hnodup : ((List.range (table.length + 1)).map (binaryKey 32)).Nodup := by
    apply List.nodup_range.map_on
    intro first hfirst second hsecond hsame
    rw [List.mem_range] at hfirst hsecond
    exact binaryKey_injective (by omega) (by omega) hsame
  have hle := (List.subperm_of_subset hnodup hsubset).length_le
  simp only [List.length_map, List.length_range] at hle
  omega

namespace InstanceInvariant

variable {state : InstanceState}

/-- After a compaction that keeps the atomic slots, they are met in the order of the table. -/
theorem keysByReference_compact (inv : InstanceInvariant config state)
    (hslots : AtomicSlots config state.entryTable state.entryTableStatusGlobal)
    (hkeeps : compactKeepsSlots config state = true) :
    keysByReference config (Instancia.compactationCompact config state).entryTableStatusGlobal =
      atomicTableKeys config state.entryTable := by
  have hages := inv.aged_compactTurns hslots.aged hkeeps (le_refl _)
  have hpacked := inv.compactationCompact_packed
  rw [List.take_length, ← map_key_packFrom config 0, ← hpacked] at hages
  rw [← atomicTableKeys_packFrom config 0 state.entryTable, ← hpacked]
  apply hages.atomicSlots.keysByReference_eq inv.compactationCompact.1.table
  apply List.pairwise_filter.mpr
  apply (List.pairwise_map.mp hages.aged).imp_of_mem
  intro first second hfirst hsecond holder hatomic hatomic'
  exact holder first hfirst second hsecond hatomic hatomic' rfl rfl

/-- **The victims by age** stay the same exactly when they are met in the order of the table
already. -/
theorem sameVictims_compact_iff (inv : InstanceInvariant config state)
    (hslots : AtomicSlots config state.entryTable state.entryTableStatusGlobal)
    (hkeeps : compactKeepsSlots config state = true) :
    SameVictims config state (Instancia.compactationCompact config state) ↔
      keysByReference config state.entryTableStatusGlobal =
        atomicTableKeys config state.entryTable := by
  obtain ⟨hcompacted, -, hleft⟩ := inv.compactationCompact
  have hafter := inv.keysByReference_compact hslots hkeeps
  have hpacked := inv.compactationCompact_packed
  have hcount : entryTableAtomicEntriesCount config
      (Instancia.compactationCompact config state).entryTable =
        entryTableAtomicEntriesCount config state.entryTable := by
    rw [hpacked, atomicEntriesCount_packFrom]
  -- both calls take as many keys from the front of their lists
  have hvictims : ∀ keyValue : KeyValue,
      entryTableHaveEntries config state keyValue = false →
      newValueFits config state keyValue = true →
        (algorithmLru config (Instancia.compactationCompact config state)
          (List.range (Instancia.compactationCompact config state).entryTableStatusGlobal.length)
          keyValue []).replacedKeys = (atomicTableKeys config state.entryTable).take
            (entryTableEntriesNeeded config keyValue - state.entriesLeft).toNat ∧
        (algorithmLru config state (List.range state.entryTableStatusGlobal.length) keyValue
          []).replacedKeys = (keysByReference config state.entryTableStatusGlobal).take
            (entryTableEntriesNeeded config keyValue - state.entriesLeft).toNat := by
    intro keyValue hshort hfits
    have hshort' : entryTableHaveEntries config (Instancia.compactationCompact config state)
        keyValue = false := by
      rw [entryTableHaveEntries, hleft]
      exact hshort
    have hfits' : newValueFits config (Instancia.compactationCompact config state) keyValue =
        true := by
      rw [newValueFits, hleft, hcount]
      exact hfits
    rw [algorithmLru_replacedKeys hshort' hfits', algorithmLru_replacedKeys hshort hfits,
      List.nil_append, List.nil_append, List.map_take, List.map_take, hleft, ← hafter]
    exact ⟨rfl, rfl⟩
  constructor
  · intro hsame
    have hlength : (atomicTableKeys config state.entryTable).length =
        entryTableAtomicEntriesCount config state.entryTable := by
      rw [atomicTableKeys, List.length_map, ← List.countP_eq_length_filter]
      rfl
    have hlength' : (keysByReference config state.entryTableStatusGlobal).length =
        entryTableAtomicEntriesCount config state.entryTable := by
      rw [keysByReference, List.length_map]
      exact hslots.length_eq inv.table (nodup_atomicByReference config _)
        fun _ => mem_atomicByReference
    have hnonneg := inv.table.left_nonneg
    obtain ⟨key, hkey, habsent⟩ := inv.table.exists_absent
    -- a new value that takes everything that is free and all the atomic entries
    have hneeded := entriesNeeded_filler config key
      (state.entriesLeft.toNat + entryTableAtomicEntriesCount config state.entryTable)
    by_cases hnone : entryTableAtomicEntriesCount config state.entryTable = 0
    · rw [hnone] at hlength hlength'
      rw [List.length_eq_zero_iff.mp hlength, List.length_eq_zero_iff.mp hlength']
    · have hshort : entryTableHaveEntries config state (keyValueGenerator key
          ((state.entriesLeft.toNat + entryTableAtomicEntriesCount config state.entryTable) *
            config.entrySize)) = false := by
        rw [entryTableHaveEntries, hneeded, decide_eq_false_iff_not]
        omega
      have hfits : newValueFits config state (keyValueGenerator key
          ((state.entriesLeft.toNat + entryTableAtomicEntriesCount config state.entryTable) *
            config.entrySize)) = true := by
        rw [newValueFits, hneeded, decide_eq_true_eq]
        omega
      obtain ⟨hcompact, hplain⟩ := hvictims _ hshort hfits
      have hboth := hsame _ (by rw [keyValueGenerator_key _ hkey]; exact habsent) hshort hfits
      rw [hcompact, hplain, hneeded, List.take_of_length_le (by omega),
        List.take_of_length_le (by omega)] at hboth
      exact hboth.symm
  · intro horder keyValue _ hshort hfits
    obtain ⟨hcompact, hplain⟩ := hvictims keyValue hshort hfits
    rw [hcompact, hplain, horder]

/-- **Compaction and recency.** The order of the counters is kept exactly when it is the order
of the table, up to what later turns clear. The victims by age are kept, where the turns keep
the atomic slots, exactly when they are met in the order of the table. -/
theorem compact_recency (inv : InstanceInvariant config state)
    (hcoherent : state.Coherent config) :
    (KeepsOrder state (Instancia.compactationCompact config state) ↔
        CompactKeepsOrder config state) ∧
      (compactKeepsSlots config state = true →
        (SameVictims config state (Instancia.compactationCompact config state) ↔
          keysByReference config state.entryTableStatusGlobal =
            atomicTableKeys config state.entryTable)) :=
  ⟨inv.keepsOrder_compact_iff, fun hkeeps => inv.sameVictims_compact_iff
    (hcoherent.atomicSlots inv.table inv.statuses.length) hkeeps⟩

end InstanceInvariant

/-- Two keys that stand in the order in which they were set keep it, and so does the choice. -/
theorem compact_recency_two : ∃ state : InstanceState,
    KeepsOrder state (compactationCompact threeEntries state) ∧
      SameVictims threeEntries state (compactationCompact threeEntries state) := by
  obtain ⟨finish, hrun, hcheck⟩ := PartialStep.exists_run_of_execute
    ((instanceStep threeEntries).guarded fun traced request =>
      requestKeepsStatus threeEntries traced.state request) (freshInstance threeEntries [])
    [.set (setOneByte true 97), .set (setOneByte true 98)]
    (fun traced => decide (CompactKeepsOrder threeEntries traced.state) &&
      compactKeepsSlots threeEntries traced.state &&
      decide (keysByReference threeEntries traced.state.entryTableStatusGlobal =
        atomicTableKeys threeEntries traced.state.entryTable))
    (by decide +kernel)
  simp only [Bool.and_eq_true, decide_eq_true_eq] at hcheck
  obtain ⟨⟨horder, hslots⟩, hkeys⟩ := hcheck
  obtain ⟨hinv, hcoherent⟩ := coherentInvariant_of_runs (PartialStep.runs_of_guarded hrun)
  obtain ⟨hkeeps, hvictims⟩ := hinv.compact_recency hcoherent
  exact ⟨finish.state, hkeeps.mpr horder, (hvictims hslots).mpr hkeys⟩

/-- The first of two keys is set again: a compaction makes it the one that was set longer ago. -/
theorem not_compact_recency :
    ¬ ∀ (config : Config) (state : InstanceState), InstanceInvariant config state →
      state.Coherent config →
        KeepsOrder state (compactationCompact config state) ∧
          SameVictims config state (compactationCompact config state) := by
  intro hclaim
  obtain ⟨finish, hrun, hcheck⟩ := PartialStep.exists_run_of_execute
    ((instanceStep threeEntries).guarded fun traced request =>
      requestKeepsStatus threeEntries traced.state request) (freshInstance threeEntries [])
    [.set (setOneByte true 97), .set (setOneByte true 98), .set (setOneByte false 97)]
    (fun traced => !decide (CompactKeepsOrder threeEntries traced.state))
    (by decide +kernel)
  rw [Bool.not_eq_true', decide_eq_false_iff_not] at hcheck
  obtain ⟨hinv, hcoherent⟩ := coherentInvariant_of_runs (PartialStep.runs_of_guarded hrun)
  exact hcheck (hinv.keepsOrder_compact_iff.mp (hclaim threeEntries finish.state hinv hcoherent).1)

end SockMyPort.Instancia
