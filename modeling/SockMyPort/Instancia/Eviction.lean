/-
# What the replacement algorithms do

All algorithms share one effect: some atomic statuses become used, and their
keys are appended to the list of replaced keys. Which ones are chosen, and how
many, differs from policy to policy; nothing else changes.
-/

import SockMyPort.Instancia.Algorithms

namespace SockMyPort.Instancia

open SockMyPort.Commons

variable {config : Config}

/-! ## Giving up statuses -/

/-- A slot that is given up keeps everything but its status. -/
def Status.giveUp (status : Status) : Status := { status with status := .used }

/-- `Evicts before after keys`: the statuses given up between the two tables are
atomic ones with these keys, and no other slot changes. -/
structure Evicts (before after : List Status) (keys : List CString) : Prop where
  length : after.length = before.length
  slots : ∀ i : ℕ, after[i]? = before[i]? ∨
    ∃ status, before[i]? = some status ∧ status.status = .atomic ∧ status.key ∈ keys ∧
      after[i]? = some status.giveUp
  keys : ∀ key ∈ keys, ∃ (i : ℕ) (status : Status), before[i]? = some status ∧
    status.status = .atomic ∧ status.key = key ∧ after[i]? = some status.giveUp

theorem Evicts.refl (table : List Status) : Evicts table table [] where
  length := rfl
  slots _ := .inl rfl
  keys _ hmem := by cases hmem

theorem Evicts.single {table : List Status} {slot : ℕ} {status : Status}
    (hslot : table[slot]? = some status) (hatomic : status.status = .atomic) :
    Evicts table (table.set slot status.giveUp) [status.key] where
  length := List.length_set
  slots i := by
    by_cases hi : slot = i
    · subst hi
      obtain ⟨hlt, -⟩ := List.getElem?_eq_some_iff.mp hslot
      exact .inr ⟨status, hslot, hatomic, by simp, List.getElem?_set_self hlt⟩
    · exact .inl (List.getElem?_set_ne hi)
  keys key hmem := by
    obtain rfl := List.mem_singleton.mp hmem
    obtain ⟨hlt, -⟩ := List.getElem?_eq_some_iff.mp hslot
    exact ⟨slot, status, hslot, hatomic, rfl, List.getElem?_set_self hlt⟩

theorem Evicts.trans {before middle after : List Status} {first second : List CString}
    (hfirst : Evicts before middle first) (hsecond : Evicts middle after second) :
    Evicts before after (first ++ second) where
  length := hsecond.length.trans hfirst.length
  slots i := by
    rcases hsecond.slots i with hsame | ⟨status, hmiddle, hatomic, hkey, hafter⟩
    · rcases hfirst.slots i with hsame' | ⟨status, hbefore, hatomic, hkey, hmiddle⟩
      · exact .inl (hsame.trans hsame')
      · exact .inr ⟨status, hbefore, hatomic, List.mem_append_left _ hkey, hsame.trans hmiddle⟩
    · -- a slot given up earlier is no longer atomic
      rcases hfirst.slots i with hsame' | ⟨earlier, -, -, -, hmiddle'⟩
      · exact .inr ⟨status, hsame'.symm.trans hmiddle, hatomic, List.mem_append_right _ hkey,
          hafter⟩
      · rw [hmiddle'] at hmiddle
        cases hmiddle
        cases hatomic
  keys key hmem := by
    rcases List.mem_append.mp hmem with hmem | hmem
    · obtain ⟨i, status, hbefore, hatomic, hkey, hmiddle⟩ := hfirst.keys key hmem
      refine ⟨i, status, hbefore, hatomic, hkey, ?_⟩
      rcases hsecond.slots i with hsame | ⟨later, hmiddle', hatomic', -, -⟩
      · exact hsame.trans hmiddle
      · rw [hmiddle] at hmiddle'
        cases hmiddle'
        cases hatomic'
    · obtain ⟨i, status, hmiddle, hatomic, hkey, hafter⟩ := hsecond.keys key hmem
      refine ⟨i, status, ?_, hatomic, hkey, hafter⟩
      rcases hfirst.slots i with hsame | ⟨earlier, -, -, -, hmiddle'⟩
      · exact hsame.symm.trans hmiddle
      · rw [hmiddle'] at hmiddle
        cases hmiddle
        cases hatomic

/-! ## The loops -/

theorem Replacement.visit_evicts (replacement : Replacement) (slot : ℕ) :
    ∃ keys, Evicts replacement.table (replacement.visit slot).table keys ∧
      (replacement.visit slot).replacedKeys = replacement.replacedKeys ++ keys ∧
      (replacement.visit slot).totalReplaced = replacement.totalReplaced + keys.length := by
  simp only [Replacement.visit]
  split
  · rename_i status hslot
    split
    · rename_i hatomic
      exact ⟨[status.key], .single hslot hatomic, rfl, rfl⟩
    · exact ⟨[], .refl _, by simp, by simp⟩
  · exact ⟨[], .refl _, by simp, by simp⟩

theorem Replacement.scan_evicts (slots : List ℕ) (replacement : Replacement) :
    ∃ keys, Evicts replacement.table (replacement.scan slots).1.table keys ∧
      (replacement.scan slots).1.replacedKeys = replacement.replacedKeys ++ keys ∧
      (replacement.scan slots).1.totalReplaced = replacement.totalReplaced + keys.length := by
  induction slots generalizing replacement with
  | nil => exact ⟨[], .refl _, by simp [Replacement.scan], by simp [Replacement.scan]⟩
  | cons slot slots ih =>
      simp only [Replacement.scan]
      split
      · exact ⟨[], .refl _, by simp, by simp⟩
      · obtain ⟨first, hfirst, hkeys, htotal⟩ := replacement.visit_evicts slot
        obtain ⟨rest, hrest, hkeys', htotal'⟩ := ih (replacement.visit slot)
        refine ⟨first ++ rest, hfirst.trans hrest, ?_, ?_⟩
        · rw [hkeys', hkeys, List.append_assoc]
        · rw [htotal', htotal, List.length_append]
          omega

/-! ## The algorithms -/

/-- The effect of an algorithm that starts with a list of replaced keys. -/
structure Replaces (state : InstanceState) (replacedKeys : List CString) (next : InstanceState)
    (nextKeys evicted : List CString) : Prop where
  frame : ∃ statuses pointer, next =
    { state with entryTableStatusGlobal := statuses, algorithmCircularPointer := pointer }
  replacedKeys : nextKeys = replacedKeys ++ evicted
  statuses : Evicts state.entryTableStatusGlobal next.entryTableStatusGlobal evicted

theorem Replaces.refl (state : InstanceState) (replacedKeys : List CString) :
    Replaces state replacedKeys state replacedKeys [] where
  frame := ⟨_, _, rfl⟩
  replacedKeys := (List.append_nil _).symm
  statuses := .refl _

theorem Replaces.trans {state middle next : InstanceState}
    {keys middleKeys nextKeys first second : List CString}
    (hfirst : Replaces state keys middle middleKeys first)
    (hsecond : Replaces middle middleKeys next nextKeys second) :
    Replaces state keys next nextKeys (first ++ second) where
  frame := by
    obtain ⟨statuses, pointer, rfl⟩ := hfirst.frame
    obtain ⟨statuses', pointer', rfl⟩ := hsecond.frame
    exact ⟨statuses', pointer', rfl⟩
  replacedKeys := by rw [hsecond.replacedKeys, hfirst.replacedKeys, List.append_assoc]
  statuses := hfirst.statuses.trans hsecond.statuses

/-- The circular algorithm counts the keys that it gives up. -/
theorem algorithmCircular_replaces (config : Config) (state : InstanceState) (entryTable : List ℕ)
    (keyValue : KeyValue) (replacedKeys : List CString) :
    ∃ evicted, Replaces state replacedKeys
        (algorithmCircular config state entryTable keyValue replacedKeys).state
        (algorithmCircular config state entryTable keyValue replacedKeys).replacedKeys evicted ∧
      ((algorithmCircular config state entryTable keyValue replacedKeys).result = 0 →
        evicted = []) := by
  simp only [algorithmCircular]
  split
  · split
    · obtain ⟨keys, hevicts, hkeys, htotal⟩ := Replacement.scan_evicts entryTable
        { table := state.entryTableStatusGlobal
          replacedKeys := replacedKeys
          entriesNeeded := entryTableEntriesNeeded config keyValue - state.entriesLeft
          totalReplaced := 0 }
      refine ⟨keys, ⟨⟨_, _, rfl⟩, hkeys, hevicts⟩, fun hzero => ?_⟩
      simp only [htotal] at hzero
      exact List.eq_nil_of_length_eq_zero (by omega)
    · obtain ⟨ahead, hahead, hkeys, htotal⟩ := Replacement.scan_evicts
        (entryTable.drop state.algorithmCircularPointer)
        { table := state.entryTableStatusGlobal
          replacedKeys := replacedKeys
          entriesNeeded := entryTableEntriesNeeded config keyValue - state.entriesLeft
          totalReplaced := 0 }
      obtain ⟨wrapped, hwrapped, hkeys', htotal'⟩ := Replacement.scan_evicts
        (entryTable.take state.algorithmCircularPointer)
        (Replacement.scan
          { table := state.entryTableStatusGlobal
            replacedKeys := replacedKeys
            entriesNeeded := entryTableEntriesNeeded config keyValue - state.entriesLeft
            totalReplaced := 0 }
          (entryTable.drop state.algorithmCircularPointer)).1
      refine ⟨ahead ++ wrapped, ⟨⟨_, _, rfl⟩, ?_, hahead.trans hwrapped⟩, fun hzero => ?_⟩
      · simp only [hkeys', hkeys, List.append_assoc]
      · simp only [htotal', htotal] at hzero
        exact List.eq_nil_of_length_eq_zero (by rw [List.length_append]; omega)
  · exact ⟨[], .refl _ _, fun _ => rfl⟩

theorem algorithmLru_replaces (config : Config) (state : InstanceState) (entryTable : List ℕ)
    (keyValue : KeyValue) (replacedKeys : List CString) :
    ∃ evicted, Replaces state replacedKeys
        (algorithmLru config state entryTable keyValue replacedKeys).state
        (algorithmLru config state entryTable keyValue replacedKeys).replacedKeys evicted := by
  simp only [algorithmLru]
  split
  · obtain ⟨keys, hevicts, hkeys, -⟩ := Replacement.scan_evicts
      (config.sort.listSort (fun first second =>
        smallestReference (statusAt state.entryTableStatusGlobal first)
          (statusAt state.entryTableStatusGlobal second)) entryTable)
      { table := state.entryTableStatusGlobal
        replacedKeys := replacedKeys
        entriesNeeded := entryTableEntriesNeeded config keyValue - state.entriesLeft
        totalReplaced := 0 }
    exact ⟨keys, ⟨_, _, rfl⟩, hkeys, hevicts⟩
  · exact ⟨[], .refl _ _⟩

theorem bsuLoop_replaces (keyValue : KeyValue) (slots : List ℕ) (state : InstanceState)
    (replacedKeys : List CString) (entriesNeeded : ℤ) (sameSize : List ℕ) :
    ∃ evicted, Replaces state replacedKeys
      (bsuLoop config keyValue slots state replacedKeys entriesNeeded sameSize).1
      (bsuLoop config keyValue slots state replacedKeys entriesNeeded sameSize).2 evicted := by
  induction slots generalizing state replacedKeys entriesNeeded sameSize with
  | nil => exact ⟨[], .refl _ _⟩
  | cons slot slots ih =>
      simp only [bsuLoop]
      split
      · exact ⟨[], .refl _ _⟩
      · split
        · rename_i hatomic
          split
          · obtain ⟨chosen, hchosen, -⟩ := algorithmCircular_replaces config state
              (sameSize ++ (slot :: slots).filter fun other =>
                (statusAt state.entryTableStatusGlobal other).spaceUsed =
                  (statusAt state.entryTableStatusGlobal slot).spaceUsed)
              (keyValueGenerator keyValue.key (entriesNeeded.toNat * config.entrySize))
              replacedKeys
            obtain ⟨rest, hrest⟩ := ih _ _ _ _
            exact ⟨chosen ++ rest, hchosen.trans hrest⟩
          · have hslot : state.entryTableStatusGlobal[slot]? =
                some (statusAt state.entryTableStatusGlobal slot) := by
              simp only [statusAt, List.getD_eq_getElem?_getD] at hatomic ⊢
              cases hget : state.entryTableStatusGlobal[slot]? with
              | none =>
                  rw [hget] at hatomic
                  cases hatomic
              | some status => rfl
            have hsingle : Replaces state replacedKeys
                { state with
                  entryTableStatusGlobal := state.entryTableStatusGlobal.set slot
                    (statusAt state.entryTableStatusGlobal slot).giveUp }
                (replacedKeys ++ [(statusAt state.entryTableStatusGlobal slot).key])
                [(statusAt state.entryTableStatusGlobal slot).key] :=
              ⟨⟨_, _, rfl⟩, rfl, .single hslot hatomic⟩
            obtain ⟨rest, hrest⟩ := ih _ _ _ _
            exact ⟨_, hsingle.trans hrest⟩
        · exact ih _ _ _ _

theorem algorithmBsu_replaces (config : Config) (state : InstanceState) (entryTable : List ℕ)
    (keyValue : KeyValue) (replacedKeys : List CString) :
    ∃ evicted, Replaces state replacedKeys
        (algorithmBsu config state entryTable keyValue replacedKeys).state
        (algorithmBsu config state entryTable keyValue replacedKeys).replacedKeys evicted := by
  simp only [algorithmBsu]
  split
  · exact bsuLoop_replaces _ _ _ _ _ _
  · exact ⟨[], .refl _ _⟩

/-- Under every policy some atomic statuses are given up, and no status is when
the result is zero. -/
theorem algorithmsExec_replaces (config : Config) (algorithmId : AlgorithmId)
    (state : InstanceState)
    (entryTable : List ℕ) (keyValue : KeyValue) (replacedKeys : List CString) :
    ∃ evicted, Replaces state replacedKeys
        (algorithmsExec config algorithmId state entryTable keyValue replacedKeys).state
        (algorithmsExec config algorithmId state entryTable keyValue replacedKeys).replacedKeys
        evicted ∧
      ((algorithmsExec config algorithmId state entryTable keyValue replacedKeys).result = 0 →
        evicted = []) := by
  cases algorithmId with
  | circular => exact algorithmCircular_replaces _ state entryTable keyValue replacedKeys
  | lru =>
      obtain ⟨evicted, h⟩ := algorithmLru_replaces config state entryTable keyValue
        replacedKeys
      refine ⟨evicted, h, fun hzero => ?_⟩
      simp only [algorithmsExec, algorithmLru] at hzero
      split at hzero <;> cases hzero
  | bsu =>
      obtain ⟨evicted, h⟩ := algorithmBsu_replaces config state entryTable keyValue
        replacedKeys
      refine ⟨evicted, h, fun hzero => ?_⟩
      simp only [algorithmsExec, algorithmBsu] at hzero
      split at hzero <;> cases hzero
  | unknown => exact ⟨[], .refl _ _, fun _ => rfl⟩

end SockMyPort.Instancia
