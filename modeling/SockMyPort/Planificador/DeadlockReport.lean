/-
# What is reported about deadlocks

The classification is correct at every moment: a zero stands for an ESI on no cycle, and
a number for the ESIs of one cycle. Every turn of the outer loop leaves fewer ESIs that
were not analyzed.
-/

import SockMyPort.Planificador.DeadlockSearch
import SockMyPort.Planificador.Main
import Mathlib.Data.List.Duplicate
import Mathlib.Data.List.NodupEquivFin

namespace SockMyPort.Planificador

open SockMyPort.Commons Library Relation

variable {config : Config} {tables : WaitTables config} {first second esiId last owner : ℤ}
  {cycle : List ℤ} {fuel : ℕ} {current next : Classification} {esi : EsiInDeadlock}

/-! ## Correct classifications -/

/-- What the states say about the wait-for graph. -/
structure Labelled (tables : WaitTables config) (current : Classification) : Prop where
  ids : current.allEsisInSystem.map EsiInDeadlock.esiId =
    tables.esisInSystem.map EsiInformation.esiId
  holding : ∀ esi ∈ current.allEsisInSystem, esi.esiState = -1 →
    esiHoldingAKey tables esi.esiId = true
  meaning : ∀ esi ∈ current.allEsisInSystem, esi.esiState = -1 ∨
    esi.esiState = 0 ∧ ¬ OnCycle (WaitsFor tables) esi.esiId ∨
    1 ≤ esi.esiState ∧ esi.esiState ≤ current.deadlockNumber ∧
      OnCycle (WaitsFor tables) esi.esiId
  same : ∀ esi ∈ current.allEsisInSystem, ∀ other ∈ current.allEsisInSystem,
    1 ≤ esi.esiState → OnCycle (WaitsFor tables) other.esiId →
      (other.esiState = esi.esiState ↔ SameCycle (WaitsFor tables) esi.esiId other.esiId)

/-- An owner holds a key. -/
theorem esiHoldingAKey_of_waitsFor (hwaits : WaitsFor tables first second) :
    esiHoldingAKey tables second = true := by
  obtain ⟨request, -, -, blocker, hblocker, -, howner⟩ := hwaits
  exact List.any_eq_true.mpr ⟨blocker, hblocker, by simpa using howner⟩

theorem esiHoldingAKey_of_onCycle (hcycle : OnCycle (WaitsFor tables) first) :
    esiHoldingAKey tables first = true := by
  obtain ⟨before, -, hwaits⟩ := TransGen.tail'_iff.mp hcycle
  exact esiHoldingAKey_of_waitsFor hwaits

theorem labelled_initialStates (tables : WaitTables config) :
    Labelled tables ⟨initialStates tables, 0⟩ where
  ids := by
    rw [initialStates, List.map_map]
    rfl
  holding esi hmem hopen := by
    obtain ⟨information, -, rfl⟩ := List.mem_map.mp hmem
    by_contra hnot
    rw [if_neg hnot] at hopen
    cases hopen
  meaning esi hmem := by
    obtain ⟨information, -, rfl⟩ := List.mem_map.mp hmem
    rcases Bool.eq_false_or_eq_true (esiHoldingAKey tables information.esiId) with hholds | hnot
    · exact .inl (if_pos hholds)
    · refine .inr (.inl ⟨if_neg (by simp [hnot]), fun hcycle => ?_⟩)
      rw [esiHoldingAKey_of_onCycle hcycle] at hnot
      cases hnot
  same esi hmem other _ hpositive := by
    obtain ⟨information, -, rfl⟩ := List.mem_map.mp hmem
    dsimp only at hpositive
    split at hpositive <;> omega

/-- Zeros for ESIs that are on no cycle. -/
theorem Labelled.zeros {esis : List EsiInDeadlock} (hlabelled : Labelled tables current)
    (hassigned : Assigned (fun esiId => ¬ OnCycle (WaitsFor tables) esiId) 0
      current.allEsisInSystem esis) :
    Labelled tables { current with allEsisInSystem := esis } where
  ids := hassigned.ids.trans hlabelled.ids
  holding esi hmem hopen := by
    obtain ⟨old, hold, hid, rfl | ⟨hzero, -⟩⟩ := hassigned.mem hmem
    · exact hlabelled.holding esi hold hopen
    · omega
  meaning esi hmem := by
    obtain ⟨old, hold, hid, rfl | ⟨hzero, hoff⟩⟩ := hassigned.mem hmem
    · exact hlabelled.meaning esi hold
    · exact .inr (.inl ⟨hzero, hoff⟩)
  same esi hmem other hother hpositive hcycle := by
    obtain ⟨old, hold, hid, rfl | ⟨hzero, -⟩⟩ := hassigned.mem hmem
    · obtain ⟨old', hold', hid', rfl | ⟨-, hoff⟩⟩ := hassigned.mem hother
      · exact hlabelled.same esi hold other hold' hpositive hcycle
      · exact absurd hcycle hoff
    · omega

/-- The next number for the ESIs of a cycle, of each of which there is one record. -/
theorem Labelled.deadlock {esis : List EsiInDeadlock} (hwell : tables.WellFormed)
    (hlabelled : Labelled tables current) (hfirst : OnCycle (WaitsFor tables) first)
    (hcycle : ∀ esiId, esiId ∈ cycle ↔ ReflTransGen (WaitsFor tables) first esiId)
    (hassigned : Assigned (· ∈ cycle) (current.deadlockNumber + 1) current.allEsisInSystem esis)
    (hall : ∀ esi ∈ esis, esi.esiId ∈ cycle → esi.esiState = current.deadlockNumber + 1) :
    Labelled tables ⟨esis, current.deadlockNumber + 1⟩ := by
  have hdet := waitsFor_rightUnique hwell
  have hsplit : ∀ esi ∈ esis, esi.esiId ∈ cycle ∧ esi.esiState = current.deadlockNumber + 1 ∨
      esi.esiId ∉ cycle ∧ esi ∈ current.allEsisInSystem := by
    intro esi hmem
    rcases Classical.em (esi.esiId ∈ cycle) with hin | hout
    · exact .inl ⟨hin, hall esi hmem hin⟩
    · obtain ⟨old, hold, hid, rfl | ⟨-, hin⟩⟩ := hassigned.mem hmem
      · exact .inr ⟨hout, hold⟩
      · exact absurd hin hout
  have hbelow : ∀ esi ∈ current.allEsisInSystem, esi.esiState ≤ current.deadlockNumber := by
    intro esi hmem
    rcases hlabelled.meaning esi hmem with hopen | ⟨hzero, -⟩ | ⟨-, hle, -⟩ <;> omega
  constructor
  case ids => exact hassigned.ids.trans hlabelled.ids
  case holding =>
    intro esi hmem hopen
    rcases hsplit esi hmem with ⟨-, hnew⟩ | ⟨-, hold⟩
    · omega
    · exact hlabelled.holding esi hold hopen
  case meaning =>
    intro esi hmem
    rcases hsplit esi hmem with ⟨hin, hnew⟩ | ⟨-, hold⟩
    · refine .inr (.inr ⟨by omega, ?_, hfirst.of_reach hdet ((hcycle esi.esiId).mp hin)⟩)
      rw [hnew]
      exact le_rfl
    · rcases hlabelled.meaning esi hold with hopen | hzero | ⟨hlow, hhigh, honCycle⟩
      · exact .inl hopen
      · exact .inr (.inl hzero)
      · exact .inr (.inr ⟨hlow, by push_cast; omega, honCycle⟩)
  case same =>
    intro esi hmem other hother hpositive honCycle
    rcases hsplit esi hmem with ⟨hin, hnew⟩ | ⟨hout, hold⟩
    · -- the new cycle
      have hreach := (hcycle esi.esiId).mp hin
      have hesi := hfirst.of_reach hdet hreach
      rw [hnew, hesi.sameCycle_iff hdet]
      rcases hsplit other hother with ⟨hin', hnew'⟩ | ⟨hout', hold'⟩
      · exact iff_of_true hnew' ((hfirst.returns hdet hreach).trans ((hcycle _).mp hin'))
      · refine iff_of_false ?_ fun hgo => hout' ((hcycle _).mpr (hreach.trans hgo))
        have hle := hbelow other hold'
        omega
    · rcases hsplit other hother with ⟨hin', hnew'⟩ | ⟨hout', hold'⟩
      · refine iff_of_false ?_ fun hsame => hout ((hcycle _).mpr ?_)
        · have hle := hbelow esi hold
          omega
        · exact ((hcycle _).mp hin').trans hsame.2.to_reflTransGen
      · exact hlabelled.same esi hold other hold' hpositive honCycle

/-! ## Turns of the outer loop -/

/-- An ESI that holds a key and requests one has one record, and its chain does not lead
into a cycle from outside. -/
def Classifiable (tables : WaitTables config) : Prop :=
  ∀ information ∈ tables.esisInSystem, esiHoldingAKey tables information.esiId = true →
    esiAsksForAKey tables information.esiId = true →
      (tables.esisInSystem.map EsiInformation.esiId).count information.esiId = 1 ∧
        Settles (WaitsFor tables) information.esiId

/-- With one record there are no two. -/
theorem eq_of_count_eq_one {esis : List EsiInDeadlock} {first second : EsiInDeadlock}
    (hcount : (esis.map EsiInDeadlock.esiId).count first.esiId = 1) (hfirst : first ∈ esis)
    (hsecond : second ∈ esis) (hsame : second.esiId = first.esiId) : second = first := by
  rw [List.count_eq_countP, List.countP_map, List.countP_eq_length_filter] at hcount
  obtain ⟨only, honly⟩ := List.length_eq_one_iff.mp hcount
  have hmem : ∀ esi ∈ esis, esi.esiId = first.esiId → esi = only := by
    intro esi hesi hid
    refine List.mem_singleton.mp (honly ▸ List.mem_filter.mpr ⟨hesi, ?_⟩)
    simp [hid]
  rw [hmem second hsecond hsame, hmem first hfirst rfl]

/-- The ESIs that are still to be analyzed. -/
def openEsis (current : Classification) : ℕ := current.allEsisInSystem.countP esiNotAnalized

theorem countP_le_of_getElem? {α : Type} {condition : α → Bool} {list list' : List α}
    (hlength : list'.length = list.length)
    (hless : ∀ (index : ℕ) (value' : α), list'[index]? = some value' → condition value' = true →
      ∃ value, list[index]? = some value ∧ condition value = true) :
    list'.countP condition ≤ list.countP condition := by
  induction list generalizing list' with
  | nil =>
      rw [List.eq_nil_of_length_eq_zero hlength]
  | cons head tail ih =>
      cases list' with
      | nil => cases hlength
      | cons head' tail' =>
          have htail := ih (Nat.succ.inj hlength) fun index value' => hless (index + 1) value'
          rw [List.countP_cons, List.countP_cons]
          have hhead : condition head' = true → condition head = true := by
            intro htrue
            obtain ⟨value, hvalue, hcondition⟩ := hless 0 head' rfl htrue
            cases hvalue
            exact hcondition
          split
          · rw [if_pos (hhead ‹_›)]
            omega
          · split <;> omega

/-- A list in which one place less satisfies the condition. -/
theorem countP_lt_of_getElem? {α : Type} {condition : α → Bool} {list list' : List α} {index : ℕ}
    {value value' : α} (hlength : list'.length = list.length)
    (hless : ∀ (index : ℕ) (value' : α), list'[index]? = some value' → condition value' = true →
      ∃ value, list[index]? = some value ∧ condition value = true)
    (hvalue : list[index]? = some value) (htrue : condition value = true)
    (hvalue' : list'[index]? = some value') (hfalse : condition value' = false) :
    list'.countP condition < list.countP condition := by
  induction list generalizing list' index with
  | nil => cases hvalue
  | cons head tail ih =>
      cases list' with
      | nil => cases hlength
      | cons head' tail' =>
          have hrest := fun index value' => hless (index + 1) value'
          rw [List.countP_cons, List.countP_cons]
          cases index with
          | zero =>
              cases hvalue
              cases hvalue'
              have htail := countP_le_of_getElem? (Nat.succ.inj hlength) hrest
              rw [if_pos htrue, if_neg (by simp [hfalse])]
              omega
          | succ index =>
              have htail := ih (Nat.succ.inj hlength) hrest hvalue hvalue'
              have hhead : condition head' = true → condition head = true := by
                intro htrue
                obtain ⟨value, hvalue, hcondition⟩ := hless 0 head' rfl htrue
                cases hvalue
                exact hcondition
              split
              · rw [if_pos (hhead ‹_›)]
                omega
              · split <;> omega

/-- An assignment of another state than `-1` that reaches an open ESI. -/
theorem openEsis_lt {touched : ℤ → Prop} {state : ℤ} (hassigned : Assigned touched state
    current.allEsisInSystem next.allEsisInSystem) (hstate : state ≠ -1)
    {index : ℕ} (hindex : current.allEsisInSystem[index]? = some esi)
    (hopen : esiNotAnalized esi = true)
    (hset : next.allEsisInSystem[index]? = some { esi with esiState := state }) :
    openEsis next < openEsis current := by
  have hlength := congrArg List.length hassigned.ids
  rw [List.length_map, List.length_map] at hlength
  refine countP_lt_of_getElem? hlength ?_ hindex hopen hset (by simpa [esiNotAnalized] using hstate)
  intro index value' hvalue' hcondition
  have hlt : index < current.allEsisInSystem.length :=
    hlength ▸ (List.getElem?_eq_some_iff.mp hvalue').1
  have hold := List.getElem?_eq_getElem hlt
  refine ⟨_, hold, ?_⟩
  rcases hassigned.kept index _ hold with hkept | ⟨hchanged, -⟩
  · cases hvalue'.symm.trans hkept
    exact hcondition
  · cases hvalue'.symm.trans hchanged
    simp [esiNotAnalized, hstate] at hcondition

/-- What the outer loop makes progress to. -/
structure Turn (tables : WaitTables config) (current next : Classification) : Prop where
  labelled : Labelled tables next
  less : openEsis next < openEsis current

theorem classify_of_not_asking (hasks : esiAsksForAKey tables esi.esiId = false) :
    classify tables fuel current esi =
      (assignFirst esiNotAnalized 0 current.allEsisInSystem).map fun esis =>
        { current with allEsisInSystem := esis } := by
  rw [classify, hasks]
  rfl

theorem classify_of_waitsFor (hwell : tables.WellFormed)
    (hwaits : WaitsFor tables esi.esiId owner) :
    classify tables fuel current esi =
      (followOwners tables esi.esiId fuel [esi.esiId, owner] owner).bind
        (concludeWalk tables current) := by
  rw [classify, (esiAsksForAKey_iff hwell).mpr ⟨owner, hwaits⟩,
    (obtainRequestOwner_eq_some_iff hwell).mpr hwaits]
  rfl

/-- An ESI that requests nothing. -/
theorem Labelled.turn_of_not_asking (hwell : tables.WellFormed)
    (hlabelled : Labelled tables current)
    (hfind : current.allEsisInSystem.find? esiNotAnalized = some esi)
    (hasks : esiAsksForAKey tables esi.esiId = false) :
    ∃ next, Returns (fun fuel => classify tables fuel current esi) next ∧
      Turn tables current next := by
  have hopen := List.find?_some hfind
  obtain ⟨esis, hassign⟩ := exists_assignFirst 0 ⟨esi, List.mem_of_find?_eq_some hfind, hopen⟩
  have hoff : ¬ OnCycle (WaitsFor tables) esi.esiId := by
    intro hcycle
    obtain ⟨owner, howner, -⟩ := TransGen.head'_iff.mp hcycle
    rw [(esiAsksForAKey_iff hwell).mpr ⟨owner, howner⟩] at hasks
    cases hasks
  have hassigned : Assigned (fun esiId => ¬ OnCycle (WaitsFor tables) esiId) 0
      current.allEsisInSystem esis := by
    refine ⟨assignFirst_ids hassign, fun index old hindex => ?_⟩
    rcases assignFirst_getElem? hassign hindex with hkept | ⟨hset, hfirst, -⟩
    · exact .inl hkept
    · rw [hfind] at hfirst
      cases hfirst
      exact .inr ⟨hset, hoff⟩
  obtain ⟨index, first, hindex, hfirst, hset⟩ := assignFirst_done hassign
  rw [hfind] at hfirst
  cases hfirst
  refine ⟨{ current with allEsisInSystem := esis }, ?_, hlabelled.zeros hassigned, ?_⟩
  · simp only [classify_of_not_asking hasks, hassign]
    exact returns_some _
  · exact openEsis_lt hassigned (by decide) hindex hopen hset

/-- The records of the ESIs that were walked get the new state, and one of them was open. -/
theorem exists_applyState_of_walked (hlabelled : Labelled tables current)
    (hwell : tables.WellFormed)
    (hfind : current.allEsisInSystem.find? esiNotAnalized = some esi)
    (hsingle : (current.allEsisInSystem.map EsiInDeadlock.esiId).count esi.esiId = 1)
    (hwalked : Walked tables esi.esiId cycle last) {state : ℤ} (hstate : state ≠ -1) :
    ∃ esis, applyState state cycle current.allEsisInSystem = some esis ∧
      ∀ number, openEsis ⟨esis, number⟩ < openEsis current := by
  have hmem := List.mem_of_find?_eq_some hfind
  have hlisted : ∀ esiId ∈ cycle, esiId ∈ current.allEsisInSystem.map EsiInDeadlock.esiId := by
    intro esiId hesi
    rcases reflTransGen_iff_eq_or_transGen.mp (hwalked.reached esiId hesi) with heq | hpath
    · rw [heq]
      exact List.mem_map_of_mem hmem
    · obtain ⟨before, -, request, -, -, blocker, hblocker, -, rfl⟩ := TransGen.tail'_iff.mp hpath
      obtain ⟨information, hinformation, hid⟩ := hwell.ownersListed blocker hblocker
      rw [hlabelled.ids, ← hid]
      exact List.mem_map_of_mem hinformation
  obtain ⟨esis, happly⟩ := exists_applyState state hlisted
  have hassigned := applyState_assigned happly
  refine ⟨esis, happly, fun number => ?_⟩
  obtain ⟨index, hset⟩ := List.mem_iff_getElem?.mp (applyState_done happly hwalked.first_mem)
  have hid := congrArg (fun ids => ids[index]?) hassigned.ids
  simp only [List.getElem?_map, hset, Option.map_some] at hid
  obtain ⟨old, hold, hsame⟩ := Option.map_eq_some_iff.mp hid.symm
  have hequal := eq_of_count_eq_one hsingle hmem (List.mem_of_getElem? hold) hsame
  rw [hequal] at hold
  have hless : openEsis ⟨esis, number⟩ < openEsis current :=
    openEsis_lt hassigned hstate hold (List.find?_some hfind) hset
  exact hless

/-- What is known of an ESI of the list that holds a key and requests one. -/
theorem Labelled.classifiable (hlabelled : Labelled tables current)
    (hclassifiable : Classifiable tables)
    (hlisted : esiId ∈ current.allEsisInSystem.map EsiInDeadlock.esiId)
    (hholds : esiHoldingAKey tables esiId = true) (hasks : esiAsksForAKey tables esiId = true) :
    (current.allEsisInSystem.map EsiInDeadlock.esiId).count esiId = 1 ∧
      Settles (WaitsFor tables) esiId := by
  rw [hlabelled.ids] at hlisted ⊢
  obtain ⟨information, hmem, rfl⟩ := List.mem_map.mp hlisted
  exact hclassifiable information hmem hholds hasks

/-- The ESIs of a cycle that was walked. -/
theorem Labelled.turn_of_cycle (hwell : tables.WellFormed) (hclassifiable : Classifiable tables)
    (hlabelled : Labelled tables current) {esis : List EsiInDeadlock}
    (hwalked : Walked tables first cycle last) (hclose : WaitsFor tables last first)
    (happly : applyState (current.deadlockNumber + 1) cycle current.allEsisInSystem = some esis) :
    Labelled tables ⟨esis, current.deadlockNumber + 1⟩ := by
  have hdet := waitsFor_rightUnique hwell
  have hassigned := applyState_assigned happly
  have hfirst : OnCycle (WaitsFor tables) first :=
    TransGen.tail' (hwalked.reached last hwalked.last_mem) hclose
  refine hlabelled.deadlock hwell hfirst (fun _ => hwalked.mem_iff hwell hclose) hassigned ?_
  intro esi hmem hin
  have hcycle := hfirst.of_reach hdet (hwalked.reached esi.esiId hin)
  obtain ⟨owner, howner, -⟩ := TransGen.head'_iff.mp hcycle
  have hlisted : esi.esiId ∈ current.allEsisInSystem.map EsiInDeadlock.esiId :=
    hassigned.ids ▸ List.mem_map_of_mem hmem
  obtain ⟨hcount, -⟩ := hlabelled.classifiable hclassifiable hlisted
    (esiHoldingAKey_of_onCycle hcycle) ((esiAsksForAKey_iff hwell).mpr ⟨owner, howner⟩)
  rw [← hassigned.ids] at hcount
  rw [← eq_of_count_eq_one hcount hmem (applyState_done happly hin) rfl]

/-- An ESI that requests a key. -/
theorem Labelled.turn_of_waitsFor (hwell : tables.WellFormed)
    (hclassifiable : Classifiable tables) (hlabelled : Labelled tables current)
    (hfind : current.allEsisInSystem.find? esiNotAnalized = some esi)
    (hwaits : WaitsFor tables esi.esiId owner) :
    ∃ next, Returns (fun fuel => classify tables fuel current esi) next ∧
      Turn tables current next := by
  have hdet := waitsFor_rightUnique hwell
  have hmem := List.mem_of_find?_eq_some hfind
  have hopen : esi.esiState = -1 := by simpa [esiNotAnalized] using List.find?_some hfind
  obtain ⟨hcount, hsettles⟩ := hlabelled.classifiable hclassifiable (List.mem_map_of_mem hmem)
    (hlabelled.holding esi hmem hopen) ((esiAsksForAKey_iff hwell).mpr ⟨owner, hwaits⟩)
  obtain ⟨⟨cycle, last⟩, hreturns⟩ := followOwners_returns_of_settles hwell hsettles hwaits
  obtain ⟨fuel, hfuel⟩ := hreturns.exists_fuel
  obtain ⟨hwalked, hstops⟩ := followOwners_spec hwell (Walked.start hwaits) hfuel
  have hclassify : ∀ next, concludeWalk tables current (cycle, last) = some next →
      Returns (fun fuel => classify tables fuel current esi) next := by
    intro next hnext
    simp only [classify_of_waitsFor hwell hwaits]
    refine hreturns.bind ?_
    simp only [hnext]
    exact returns_some next
  cases hasks : esiAsksForAKey tables last with
  | false =>
      obtain ⟨esis, happly, hless⟩ := exists_applyState_of_walked hlabelled hwell hfind hcount
        hwalked (show (0 : ℤ) ≠ -1 by decide)
      have hlast : ∀ next, ¬ WaitsFor tables last next := by
        intro next hnext
        rw [(esiAsksForAKey_iff hwell).mpr ⟨next, hnext⟩] at hasks
        cases hasks
      have hends : ChainEnds (WaitsFor tables) esi.esiId :=
        ⟨last, hwalked.reached last hwalked.last_mem, hlast⟩
      have hassigned := applyState_assigned happly
      refine ⟨⟨esis, current.deadlockNumber⟩,
        hclassify _ (by rw [concludeWalk, hasks]; simp [happly]), ?_,
        hless _⟩
      refine hlabelled.zeros ⟨hassigned.ids, fun index old hindex => ?_⟩
      rcases hassigned.kept index old hindex with hkept | ⟨hset, hin⟩
      · exact .inl hkept
      · exact .inr ⟨hset, (hends.of_reach hdet (hwalked.reached _ hin)).not_onCycle hdet⟩
  | true =>
      obtain ⟨next, hnext⟩ := (esiAsksForAKey_iff hwell).mp hasks
      have hclose : WaitsFor tables last esi.esiId :=
        hstops.resolve_left fun hnone => hnone next hnext
      obtain ⟨esis, happly, hless⟩ := exists_applyState_of_walked hlabelled hwell hfind hcount
        hwalked (show (current.deadlockNumber + 1 : ℤ) ≠ -1 by omega)
      exact ⟨⟨esis, current.deadlockNumber + 1⟩,
        hclassify _ (by rw [concludeWalk, hasks]; simp [happly]),
        hlabelled.turn_of_cycle hwell hclassifiable hwalked hclose happly, hless _⟩

/-- **One turn** of the outer loop. -/
theorem Labelled.turn (hwell : tables.WellFormed) (hclassifiable : Classifiable tables)
    (hlabelled : Labelled tables current)
    (hfind : current.allEsisInSystem.find? esiNotAnalized = some esi) :
    ∃ next, Returns (fun fuel => classify tables fuel current esi) next ∧
      Turn tables current next := by
  cases hasks : esiAsksForAKey tables esi.esiId with
  | false => exact hlabelled.turn_of_not_asking hwell hfind hasks
  | true =>
      obtain ⟨owner, howner⟩ := (esiAsksForAKey_iff hwell).mp hasks
      exact hlabelled.turn_of_waitsFor hwell hclassifiable hfind howner

/-- **The outer loop** ends with a correct classification of all ESIs. -/
theorem Labelled.classifyAll (hwell : tables.WellFormed) (hclassifiable : Classifiable tables)
    (hlabelled : Labelled tables current) :
    ∃ final, Returns (fun fuel => Planificador.classifyAll tables fuel current) final ∧
      Labelled tables final ∧ final.allEsisInSystem.find? esiNotAnalized = none := by
  induction hopen : openEsis current using Nat.strong_induction_on generalizing current with
  | h count ih =>
      cases hfind : current.allEsisInSystem.find? esiNotAnalized with
      | none =>
          refine ⟨current, returns_of_succ ?_, hlabelled, hfind⟩
          simp only [Planificador.classifyAll, hfind]
          exact returns_some current
      | some esi =>
          obtain ⟨next, hreturns, hturn⟩ := hlabelled.turn hwell hclassifiable hfind
          obtain ⟨final, hrest, hfinal⟩ :=
            ih (openEsis next) (hopen ▸ hturn.less) hturn.labelled rfl
          refine ⟨final, returns_of_succ ?_, hfinal⟩
          simp only [Planificador.classifyAll, hfind]
          exact hreturns.bind hrest

/-! ## When the search does not end -/

/-- There is an open record of an ESI whose chain does not settle, or behind another record
of the same ESI. -/
def Stuck (tables : WaitTables config) (current : Classification) (esiId : ℤ) : Prop :=
  ∃ index : ℕ, current.allEsisInSystem[index]? = some ⟨esiId, -1⟩ ∧
    (¬ Settles (WaitsFor tables) esiId ∨
      ∃ before < index, (current.allEsisInSystem.map EsiInDeadlock.esiId)[before]? = some esiId)

/-- Nothing happens to such a record. -/
theorem Stuck.of_kept (hstuck : Stuck tables current esiId)
    (hids : next.allEsisInSystem.map EsiInDeadlock.esiId =
      current.allEsisInSystem.map EsiInDeadlock.esiId)
    (hkept : ∀ index : ℕ, current.allEsisInSystem[index]? = some ⟨esiId, -1⟩ →
      (¬ Settles (WaitsFor tables) esiId ∨ ∃ before < index,
        (current.allEsisInSystem.map EsiInDeadlock.esiId)[before]? = some esiId) →
      next.allEsisInSystem[index]? = some ⟨esiId, -1⟩) : Stuck tables next esiId := by
  obtain ⟨index, hindex, hwhy⟩ := hstuck
  refine ⟨index, hkept index hindex hwhy, ?_⟩
  rw [hids]
  exact hwhy

/-- A walk does not reach it. -/
theorem Stuck.of_applyState (hwell : tables.WellFormed) (hstuck : Stuck tables current esiId)
    (hwalked : Walked tables first cycle last) (hstops : Stops tables first last) {state : ℤ}
    (happly : applyState state cycle current.allEsisInSystem = some next.allEsisInSystem) :
    Stuck tables next esiId := by
  have hassigned := applyState_assigned happly
  refine hstuck.of_kept hassigned.ids fun index hindex hwhy => ?_
  rcases hwhy with hnot | ⟨before, hbefore, hsame⟩
  · refine (hassigned.kept index _ hindex).resolve_right fun hset => hnot ?_
    exact (hwalked.settles hstops).of_reach (waitsFor_rightUnique hwell)
      (hwalked.reached esiId hset.2)
  · rw [List.getElem?_map] at hsame
    obtain ⟨other, hother, hid⟩ := Option.map_eq_some_iff.mp hsame
    exact applyState_getElem?_of_earlier happly hindex hbefore hother hid

theorem Stuck.classify (hwell : tables.WellFormed)
    (hasks : esiAsksForAKey tables esiId = true) (hstuck : Stuck tables current esiId)
    (hfind : current.allEsisInSystem.find? esiNotAnalized = some esi)
    (hclassify : Planificador.classify tables fuel current esi = some next) :
    Stuck tables next esiId := by
  cases hesi : esiAsksForAKey tables esi.esiId with
  | false =>
      rw [classify_of_not_asking hesi] at hclassify
      obtain ⟨esis, hassign, rfl⟩ := Option.map_eq_some_iff.mp hclassify
      refine hstuck.of_kept (assignFirst_ids hassign) fun index hindex _ => ?_
      refine (assignFirst_getElem? hassign hindex).resolve_right fun hset => ?_
      have hsame := hfind.symm.trans hset.2.1
      cases hsame
      rw [hasks] at hesi
      cases hesi
  | true =>
      obtain ⟨owner, howner⟩ := (esiAsksForAKey_iff hwell).mp hesi
      rw [classify_of_waitsFor hwell howner] at hclassify
      obtain ⟨⟨cycle, last⟩, hfollow, hconclude⟩ := Option.bind_eq_some_iff.mp hclassify
      obtain ⟨hwalked, hstops⟩ := followOwners_spec hwell (Walked.start howner) hfollow
      rw [concludeWalk] at hconclude
      split at hconclude
      · obtain ⟨esis, happly, rfl⟩ := Option.map_eq_some_iff.mp hconclude
        exact hstuck.of_applyState hwell hwalked hstops happly
      · obtain ⟨esis, happly, rfl⟩ := Option.map_eq_some_iff.mp hconclude
        exact hstuck.of_applyState hwell hwalked hstops happly

/-- **The outer loop goes on forever** with such a record. -/
theorem Stuck.classifyAll (hwell : tables.WellFormed)
    (hasks : esiAsksForAKey tables esiId = true) (hstuck : Stuck tables current esiId) :
    Planificador.classifyAll tables fuel current = none := by
  induction fuel generalizing current with
  | zero => rfl
  | succ fuel ih =>
      rw [Planificador.classifyAll]
      split
      · rename_i hnone
        obtain ⟨index, hindex, -⟩ := hstuck
        have hclosed := List.find?_eq_none.mp hnone _ (List.mem_of_getElem? hindex)
        exact absurd rfl hclosed
      · rename_i esi hfind
        cases hclassify : Planificador.classify tables fuel current esi with
        | none => rfl
        | some next => exact ih (hstuck.classify hwell hasks hfind hclassify)

/-- Without the condition there is such a record at the beginning. -/
theorem exists_stuck_of_not_classifiable (hnot : ¬ Classifiable tables) :
    ∃ esiId, esiAsksForAKey tables esiId = true ∧
      Stuck tables ⟨initialStates tables, 0⟩ esiId := by
  simp only [Classifiable, not_forall] at hnot
  obtain ⟨information, hmem, hholds, hasks, hnot⟩ := hnot
  have hids := (labelled_initialStates tables).ids
  have hopen : ∀ index : ℕ, (tables.esisInSystem.map EsiInformation.esiId)[index]? =
      some information.esiId →
      (initialStates tables)[index]? = some ⟨information.esiId, -1⟩ := by
    intro index hindex
    rw [List.getElem?_map] at hindex
    obtain ⟨other, hother, hid⟩ := Option.map_eq_some_iff.mp hindex
    rw [initialStates, List.getElem?_map, hother, Option.map_some, hid, if_pos hholds]
  refine ⟨information.esiId, hasks, ?_⟩
  have hlisted := List.mem_map_of_mem (f := EsiInformation.esiId) hmem
  rcases Classical.em (Settles (WaitsFor tables) information.esiId) with hsettles | hout
  · have htwo : 2 ≤ (tables.esisInSystem.map EsiInformation.esiId).count information.esiId := by
      have hpositive := List.count_pos_iff.mpr hlisted
      have hother : (tables.esisInSystem.map EsiInformation.esiId).count information.esiId ≠ 1 :=
        fun hone => hnot ⟨hone, hsettles⟩
      omega
    obtain ⟨before, index, hlt, hbefore, hindex⟩ := List.duplicate_iff_exists_distinct_get.mp
      (List.duplicate_iff_two_le_count.mpr htwo)
    refine ⟨index, hopen index ?_, .inr ⟨before, hlt, ?_⟩⟩
    · rw [List.getElem?_eq_getElem index.2]
      exact congrArg some hindex.symm
    · rw [hids, List.getElem?_eq_getElem before.2]
      exact congrArg some hbefore.symm
  · obtain ⟨index, hindex⟩ := List.mem_iff_getElem?.mp hlisted
    exact ⟨index, hopen index hindex, .inl hout⟩

/-! ## The result -/

/-- The ESI is printed under the number of a deadlock. -/
def ReportedUnder (report : List (ℕ × List (EsiInformation config))) (number : ℕ)
    (esiId : ℤ) : Prop :=
  ∃ members, (number, members) ∈ report ∧ ∃ information ∈ members, information.esiId = esiId

/-- The detection terminates and is exact. -/
def DetectsDeadlocks (tables : WaitTables config) : Prop :=
  ∃ report, Returns (detectAndShowAllDeadlocks tables) report ∧
    (∀ information ∈ tables.esisInSystem,
      (∃ number, ReportedUnder report number information.esiId) ↔
        OnCycle (WaitsFor tables) information.esiId) ∧
    ∀ first ∈ tables.esisInSystem, ∀ second ∈ tables.esisInSystem, ∀ number number',
      ReportedUnder report number first.esiId → ReportedUnder report number' second.esiId →
        (number = number' ↔ SameCycle (WaitsFor tables) first.esiId second.esiId)

/-- What is printed at the end. -/
def reportOf (tables : WaitTables config) (final : Classification) :
    List (ℕ × List (EsiInformation config)) :=
  (List.range final.deadlockNumber).map fun index =>
    (index + 1, shownUnder tables final.allEsisInSystem (index + 1))

theorem mem_shownUnder_iff {esis : List EsiInDeadlock} {number : ℕ}
    (hids : esis.map EsiInDeadlock.esiId = tables.esisInSystem.map EsiInformation.esiId) :
    (∃ information ∈ shownUnder tables esis number, information.esiId = esiId) ↔
      ⟨esiId, number⟩ ∈ esis := by
  constructor
  · rintro ⟨information, hmem, rfl⟩
    obtain ⟨esi, hesi, hfind⟩ := List.mem_filterMap.mp hmem
    obtain ⟨hmem, hstate⟩ := List.mem_filter.mp hesi
    have hid : information.esiId = esi.esiId := by simpa using List.find?_some hfind
    rw [hid, ← of_decide_eq_true hstate]
    exact hmem
  · intro hmem
    have hlisted : esiId ∈ tables.esisInSystem.map EsiInformation.esiId :=
      hids ▸ List.mem_map_of_mem hmem
    obtain ⟨information, hinformation, hid⟩ := List.mem_map.mp hlisted
    have hsome : (tables.esisInSystem.find? fun information => information.esiId = esiId).isSome :=
      List.find?_isSome.mpr ⟨information, hinformation, by simpa using hid⟩
    obtain ⟨shown, hshown⟩ := Option.isSome_iff_exists.mp hsome
    refine ⟨shown, List.mem_filterMap.mpr ⟨⟨esiId, number⟩, ?_, hshown⟩, ?_⟩
    · exact List.mem_filter.mpr ⟨hmem, by simp⟩
    · simpa using List.find?_some hshown

/-- An ESI is printed under the number that it has. -/
theorem reportedUnder_iff {final : Classification} {number : ℕ}
    (hlabelled : Labelled tables final) :
    ReportedUnder (reportOf tables final) number esiId ↔
      1 ≤ number ∧ ⟨esiId, number⟩ ∈ final.allEsisInSystem := by
  rw [← mem_shownUnder_iff hlabelled.ids]
  constructor
  · rintro ⟨members, hmembers, hshown⟩
    obtain ⟨index, -, hpair⟩ := List.mem_map.mp hmembers
    obtain ⟨hnumber, hequal⟩ := Prod.mk.inj hpair
    subst hnumber hequal
    exact ⟨Nat.succ_le_succ (Nat.zero_le index), hshown⟩
  · rintro ⟨hpositive, hshown⟩
    refine ⟨_, List.mem_map.mpr ⟨number - 1, List.mem_range.mpr ?_, ?_⟩, hshown⟩
    · have hmem := (mem_shownUnder_iff hlabelled.ids).mp hshown
      rcases hlabelled.meaning _ hmem with hopen | ⟨hzero, -⟩ | ⟨-, hle, -⟩
      · have hstate : (number : ℤ) = -1 := hopen
        omega
      · have hstate : (number : ℤ) = 0 := hzero
        omega
      · have hstate : (number : ℤ) ≤ final.deadlockNumber := hle
        omega
    · rw [Nat.sub_add_cancel hpositive]

/-- A correct classification of all ESIs is an exact report. -/
theorem Labelled.exact {final : Classification} (hlabelled : Labelled tables final)
    (hclosed : final.allEsisInSystem.find? esiNotAnalized = none) :
    (∀ information ∈ tables.esisInSystem,
      (∃ number, ReportedUnder (reportOf tables final) number information.esiId) ↔
        OnCycle (WaitsFor tables) information.esiId) ∧
    ∀ first ∈ tables.esisInSystem, ∀ second ∈ tables.esisInSystem, ∀ number number',
      ReportedUnder (reportOf tables final) number first.esiId →
        ReportedUnder (reportOf tables final) number' second.esiId →
          (number = number' ↔ SameCycle (WaitsFor tables) first.esiId second.esiId) := by
  simp only [reportedUnder_iff hlabelled]
  have hcycle : ∀ (number : ℕ) (esiId : ℤ), 1 ≤ number →
      ⟨esiId, number⟩ ∈ final.allEsisInSystem → OnCycle (WaitsFor tables) esiId := by
    intro number esiId hpositive hmem
    rcases hlabelled.meaning _ hmem with hopen | ⟨hzero, -⟩ | ⟨-, -, honCycle⟩
    · have hstate : (number : ℤ) = -1 := hopen
      omega
    · have hstate : (number : ℤ) = 0 := hzero
      omega
    · exact honCycle
  constructor
  · intro information hmem
    constructor
    · rintro ⟨number, hpositive, hnumber⟩
      exact hcycle number _ hpositive hnumber
    · intro honCycle
      have hlisted : information.esiId ∈ final.allEsisInSystem.map EsiInDeadlock.esiId :=
        hlabelled.ids ▸ List.mem_map_of_mem hmem
      obtain ⟨esi, hesi, hid⟩ := List.mem_map.mp hlisted
      have hanalyzed := List.find?_eq_none.mp hclosed esi hesi
      rcases hlabelled.meaning esi hesi with hopen | ⟨-, hoff⟩ | ⟨hlow, -, -⟩
      · exact absurd (by simpa [esiNotAnalized] using hopen) hanalyzed
      · exact absurd honCycle (hid ▸ hoff)
      · refine ⟨esi.esiState.toNat, by omega, ?_⟩
        rw [Int.toNat_of_nonneg (by omega), ← hid]
        exact hesi
  · rintro first - second - number number' ⟨hpositive, hfirst⟩ ⟨hpositive', hsecond⟩
    have hlow : (1 : ℤ) ≤ number := by omega
    have hsame := hlabelled.same _ hfirst _ hsecond hlow
      (hcycle number' second.esiId hpositive' hsecond)
    rw [← hsame]
    constructor
    · intro hequal
      exact congrArg Nat.cast hequal.symm
    · intro hequal
      exact (Int.ofNat.inj hequal).symm

/-- **The detection of deadlocks** terminates and is exact when every ESI that holds a key
and requests one has one record and a chain that does not lead into a cycle from outside;
otherwise it does not terminate. -/
theorem detectsDeadlocks_iff (hwell : tables.WellFormed) :
    DetectsDeadlocks tables ↔ Classifiable tables := by
  constructor
  · rintro ⟨report, hreturns, -⟩
    by_contra hnot
    obtain ⟨esiId, hasks, hstuck⟩ := exists_stuck_of_not_classifiable hnot
    obtain ⟨fuel, hfuel⟩ := hreturns.exists_fuel
    rw [detectAndShowAllDeadlocks, hstuck.classifyAll hwell hasks] at hfuel
    cases hfuel
  · intro hclassifiable
    obtain ⟨final, hreturns, hlabelled, hclosed⟩ :=
      (labelled_initialStates tables).classifyAll hwell hclassifiable
    exact ⟨reportOf tables final, hreturns.map _, hlabelled.exact hclosed⟩

/-- An ESI of a test. -/
def esiInformationTest (esiId : ℤ) : EsiInformation (smallConfig .fifo) :=
  ⟨esiId, esiId, (1 : ℤ), 0, 0⟩

/-- The first test of the repository: two ESIs that wait for each other. -/
def firstTest : WaitTables (smallConfig .fifo) where
  lockedKeys := [⟨literal [82, 50], 1⟩, ⟨literal [82, 49], 2⟩]
  esiRequests := [⟨1, literal [82, 49]⟩, ⟨2, literal [82, 50]⟩]
  esisInSystem := [esiInformationTest 1, esiInformationTest 2]

/-- The deadlock of the first test is detected. -/
theorem detectsDeadlocks_iff_firstTest : DetectsDeadlocks firstTest := by
  have hwell : firstTest.WellFormed := ⟨by decide, by decide, by decide, by decide⟩
  have hone : WaitsFor firstTest 1 2 := (obtainRequestOwner_eq_some_iff hwell).mp (by decide)
  have htwo : WaitsFor firstTest 2 1 := (obtainRequestOwner_eq_some_iff hwell).mp (by decide)
  refine (detectsDeadlocks_iff hwell).mpr fun information hmem _ _ => ?_
  rcases List.mem_pair.mp hmem with rfl | rfl
  · exact ⟨by decide, .inl (.head hone (.single htwo))⟩
  · exact ⟨by decide, .inl (.head htwo (.single hone))⟩

/-- Two ESIs wait for each other, and a third one that holds a key waits for one of them. -/
def waitsFromOutside : WaitTables (smallConfig .fifo) where
  lockedKeys := [⟨literal [82, 49], 1⟩, ⟨literal [82, 50], 2⟩, ⟨literal [82, 51], 3⟩]
  esiRequests := [⟨1, literal [82, 50]⟩, ⟨2, literal [82, 51]⟩, ⟨3, literal [82, 50]⟩]
  esisInSystem := [esiInformationTest 1, esiInformationTest 2, esiInformationTest 3]

/-- The detection does not terminate. -/
theorem not_detectsDeadlocks :
    ¬ ∀ (config : Config) (tables : WaitTables config), tables.WellFormed →
      DetectsDeadlocks tables := by
  intro hclaim
  have hwell : waitsFromOutside.WellFormed := ⟨by decide, by decide, by decide, by decide⟩
  have hdet := waitsFor_rightUnique hwell
  have hone : WaitsFor waitsFromOutside 1 2 :=
    (obtainRequestOwner_eq_some_iff hwell).mp (by decide)
  have htwo : WaitsFor waitsFromOutside 2 3 :=
    (obtainRequestOwner_eq_some_iff hwell).mp (by decide)
  have hthree : WaitsFor waitsFromOutside 3 2 :=
    (obtainRequestOwner_eq_some_iff hwell).mp (by decide)
  have hout : ¬ Settles (WaitsFor waitsFromOutside) 1 := by
    rintro (hcycle | hends)
    · -- nobody requests the key of the first ESI
      obtain ⟨before, -, request, hrequest, -, blocker, hblocker, hkey, howner⟩ :=
        TransGen.tail'_iff.mp hcycle
      revert request blocker
      decide
    · exact (hends.of_reach hdet (.single hone)).not_onCycle hdet (.head htwo (.single hthree))
  have hstuck : Stuck waitsFromOutside ⟨initialStates waitsFromOutside, 0⟩ 1 :=
    ⟨0, by decide, .inl hout⟩
  obtain ⟨report, hreturns, -⟩ := hclaim _ waitsFromOutside hwell
  obtain ⟨fuel, hfuel⟩ := hreturns.exists_fuel
  rw [detectAndShowAllDeadlocks, hstuck.classifyAll hwell (by decide)] at hfuel
  cases hfuel

end SockMyPort.Planificador
