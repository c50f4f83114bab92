/-
# What the search for deadlocks reads

The search reads through what it looks up: the request of an ESI, the node of a requested
key, and the record of an ESI of a chain. Here it says why it has no result, so that a
search that goes on forever is told apart from one that reads through a null pointer.
-/

import SockMyPort.Library.Attempts
import SockMyPort.Planificador.DeadlockSearch

namespace SockMyPort.Planificador

open SockMyPort.Commons Library

variable {config : Config} (tables : WaitTables config)

/-! ## The search with its reasons -/

/-- The condition of the inner loop. -/
def goesOn (firstEsi esiId : ℤ) : Bool :=
  esiAsksForAKey tables esiId && !esiRequestsMatchesFirst tables firstEsi esiId

/-- The inner loop. -/
def readOwners (firstEsi : ℤ) : ℕ → List ℤ → ℤ → Attempt (List ℤ × ℤ)
  | 0, _, _ => .error .spent
  | fuel + 1, currentEsiCycle, esiId =>
      if goesOn tables firstEsi esiId then
        (dereference (obtainRequestOwner tables esiId)).bind fun owner =>
          readOwners firstEsi fuel (currentEsiCycle ++ [owner]) owner
      else .ok (currentEsiCycle, esiId)

/-- The body of the outer loop. -/
def analyze (fuel : ℕ) (current : Classification) (esi : EsiInDeadlock) :
    Attempt Classification :=
  if !esiAsksForAKey tables esi.esiId then
    dereference ((assignFirst esiNotAnalized 0 current.allEsisInSystem).map fun esis =>
      { current with allEsisInSystem := esis })
  else
    (dereference (obtainRequestOwner tables esi.esiId)).bind fun owner =>
      (readOwners tables esi.esiId fuel [esi.esiId, owner] owner).bind fun walk =>
        dereference (concludeWalk tables current walk)

/-- The outer loop. -/
def analyzeAll : ℕ → Classification → Attempt Classification
  | 0, _ => .error .spent
  | fuel + 1, current =>
      match current.allEsisInSystem.find? esiNotAnalized with
      | none => .ok current
      | some esi => (analyze tables fuel current esi).bind (analyzeAll fuel)

/-- The names that are read to print the ESIs of a deadlock. -/
def readShown (esis : List EsiInDeadlock) (number : ℕ) : Attempt (List (EsiInformation config)) :=
  (esis.filter fun esi => esi.esiState = (number : ℤ)).mapM fun esi =>
    dereference (tables.esisInSystem.find? fun information => information.esiId = esi.esiId)

/-- `detect_and_show_all_deadlocks`. -/
def detectAndShow (fuel : ℕ) : Attempt (List (ℕ × List (EsiInformation config))) :=
  (analyzeAll tables fuel ⟨initialStates tables, 0⟩).bind fun final =>
    (List.range final.deadlockNumber).mapM fun index =>
      (readShown tables final.allEsisInSystem (index + 1)).map (index + 1, ·)

/-- Everything that the search reads through is found, however long it goes on. -/
def NeverCrashes : Prop := ∀ fuel, Survives (detectAndShow tables fuel)

variable {tables} {firstEsi esiId owner last : ℤ} {cycle : List ℤ} {fuel : ℕ}
  {current next : Classification} {esi : EsiInDeadlock}

/-! ## The records of the ESIs -/

/-- What the search keeps: there is one record for each registered ESI, in order, and a
record that was not analyzed is that of an ESI that holds a key. -/
structure Recorded (tables : WaitTables config) (current : Classification) : Prop where
  ids : current.allEsisInSystem.map EsiInDeadlock.esiId =
    tables.esisInSystem.map EsiInformation.esiId
  holding : ∀ esi ∈ current.allEsisInSystem, esiNotAnalized esi = true →
    esiHoldingAKey tables esi.esiId = true

theorem recorded_initialStates (tables : WaitTables config) :
    Recorded tables ⟨initialStates tables, 0⟩ where
  ids := by
    rw [initialStates, List.map_map]
    rfl
  holding esi hmem hopen := by
    obtain ⟨information, -, rfl⟩ := List.mem_map.mp hmem
    by_contra hnot
    simp [esiNotAnalized, hnot] at hopen

/-- The ESIs whose records get a state when the body of the outer loop is run for an ESI. -/
def Touched (tables : WaitTables config) (fuel : ℕ) (firstEsi esiId : ℤ) : Prop :=
  if esiAsksForAKey tables firstEsi then
    ∃ owner cycle last, obtainRequestOwner tables firstEsi = some owner ∧
      readOwners tables firstEsi fuel [firstEsi, owner] owner = .ok (cycle, last) ∧ esiId ∈ cycle
  else esiId = firstEsi

theorem of_concludeWalk {walk : List ℤ × ℤ}
    (hconclude : concludeWalk tables current walk = some next) :
    ∃ state, 0 ≤ state ∧
      applyState state walk.1 current.allEsisInSystem = some next.allEsisInSystem := by
  obtain ⟨cycle, last⟩ := walk
  rw [concludeWalk] at hconclude
  split at hconclude
  · obtain ⟨esis, happly, rfl⟩ := Option.map_eq_some_iff.mp hconclude
    exact ⟨0, le_rfl, happly⟩
  · obtain ⟨esis, happly, rfl⟩ := Option.map_eq_some_iff.mp hconclude
    exact ⟨_, by omega, happly⟩

/-- The body of the outer loop assigns a state to the touched ESIs. -/
theorem assigned_analyze (hfind : current.allEsisInSystem.find? esiNotAnalized = some esi)
    (hanalyze : analyze tables fuel current esi = .ok next) :
    ∃ state, 0 ≤ state ∧ Assigned (Touched tables fuel esi.esiId) state
      current.allEsisInSystem next.allEsisInSystem := by
  cases hasks : esiAsksForAKey tables esi.esiId with
  | false =>
      rw [analyze, if_pos (by simp [hasks]), dereference_eq_ok_iff] at hanalyze
      obtain ⟨esis, hassign, rfl⟩ := Option.map_eq_some_iff.mp hanalyze
      refine ⟨0, le_rfl, assignFirst_ids hassign, fun index old hindex => ?_⟩
      rcases assignFirst_getElem? hassign hindex with hkept | ⟨hset, hfirst, -⟩
      · exact .inl hkept
      · rw [hfind] at hfirst
        obtain rfl := Option.some.inj hfirst
        exact .inr ⟨hset, by simp [Touched, hasks]⟩
  | true =>
      rw [analyze, if_neg (by simp [hasks])] at hanalyze
      obtain ⟨owner, howner, hanalyze⟩ := bind_eq_ok_iff.mp hanalyze
      obtain ⟨⟨cycle, last⟩, hwalk, hconclude⟩ := bind_eq_ok_iff.mp hanalyze
      rw [dereference_eq_ok_iff] at howner hconclude
      obtain ⟨state, hstate, happly⟩ := of_concludeWalk hconclude
      have hassigned := applyState_assigned happly
      refine ⟨state, hstate, hassigned.ids, fun index old hindex => ?_⟩
      refine (hassigned.kept index old hindex).imp_right fun hset => ⟨hset.1, ?_⟩
      rw [Touched, if_pos hasks]
      exact ⟨owner, cycle, last, howner, hwalk, hset.2⟩

theorem Recorded.analyze (hrecorded : Recorded tables current)
    (hfind : current.allEsisInSystem.find? esiNotAnalized = some esi)
    (hanalyze : Planificador.analyze tables fuel current esi = .ok next) :
    Recorded tables next := by
  obtain ⟨state, hstate, hassigned⟩ := assigned_analyze hfind hanalyze
  refine ⟨hassigned.ids.trans hrecorded.ids, fun other hmem hopen => ?_⟩
  obtain ⟨old, hold, hid, rfl | ⟨hset, -⟩⟩ := hassigned.mem hmem
  · exact hrecorded.holding other hold hopen
  · have hnot : other.esiState = -1 := of_decide_eq_true hopen
    omega

theorem Recorded.analyzeAll (hrecorded : Recorded tables current)
    (hanalyze : Planificador.analyzeAll tables fuel current = .ok next) : Recorded tables next := by
  induction fuel generalizing current with
  | zero => cases hanalyze
  | succ fuel ih =>
      rw [Planificador.analyzeAll] at hanalyze
      split at hanalyze
      · exact Except.ok.inj hanalyze ▸ hrecorded
      · rename_i esi hfind
        obtain ⟨middle, hturn, hrest⟩ := bind_eq_ok_iff.mp hanalyze
        exact ih (hrecorded.analyze hfind hturn) hrest

/-- The names of recorded ESIs are found. -/
theorem Recorded.readShown (hrecorded : Recorded tables current) (number : ℕ) :
    Planificador.readShown tables current.allEsisInSystem number =
      .ok (shownUnder tables current.allEsisInSystem number) := by
  refine mapM_dereference fun esi hmem => ?_
  have hlisted : esi.esiId ∈ tables.esisInSystem.map EsiInformation.esiId :=
    hrecorded.ids ▸ List.mem_map_of_mem (List.mem_of_mem_filter hmem)
  obtain ⟨information, hinformation, hid⟩ := List.mem_map.mp hlisted
  exact Option.isSome_iff_exists.mp
    (List.find?_isSome.mpr ⟨information, hinformation, by simpa using hid⟩)

theorem Recorded.mapM_readShown (hrecorded : Recorded tables current) (indices : List ℕ) :
    (indices.mapM fun index => (Planificador.readShown tables current.allEsisInSystem
        (index + 1)).map (index + 1, ·)) =
      .ok (indices.map fun index =>
        (index + 1, shownUnder tables current.allEsisInSystem (index + 1))) := by
  induction indices with
  | nil => rfl
  | cons index indices ih =>
      rw [List.mapM_cons, hrecorded.readShown, ih]
      rfl

/-! ## The search without its reasons -/

theorem toOption_readOwners (firstEsi esiId : ℤ) (fuel : ℕ) (cycle : List ℤ) :
    (readOwners tables firstEsi fuel cycle esiId).toOption =
      followOwners tables firstEsi fuel cycle esiId := by
  induction fuel generalizing cycle esiId with
  | zero => rfl
  | succ fuel ih =>
      rw [readOwners, followOwners, goesOn]
      split
      · simp only [toOption_bind, toOption_dereference, ih]
      · rfl

theorem toOption_analyze (fuel : ℕ) (current : Classification) (esi : EsiInDeadlock) :
    (analyze tables fuel current esi).toOption = classify tables fuel current esi := by
  rw [analyze, classify]
  split
  · exact toOption_dereference _
  · simp only [toOption_bind, toOption_dereference, toOption_readOwners]
    rfl

theorem toOption_analyzeAll (fuel : ℕ) (current : Classification) :
    (analyzeAll tables fuel current).toOption = classifyAll tables fuel current := by
  induction fuel generalizing current with
  | zero => rfl
  | succ fuel ih =>
      rw [analyzeAll, classifyAll]
      cases hfind : current.allEsisInSystem.find? esiNotAnalized with
      | none => rfl
      | some esi => simp only [toOption_bind, toOption_analyze, ih]

/-- **The same search**: it has the same result, with a reason when it has none. -/
theorem toOption_detectAndShow (tables : WaitTables config) (fuel : ℕ) :
    (detectAndShow tables fuel).toOption = detectAndShowAllDeadlocks tables fuel := by
  rw [detectAndShow, detectAndShowAllDeadlocks, ← toOption_analyzeAll]
  cases hanalyze : analyzeAll tables fuel ⟨initialStates tables, 0⟩ with
  | error failure => rfl
  | ok final =>
      have hrecorded := (recorded_initialStates tables).analyzeAll hanalyze
      exact congrArg Except.toOption (hrecorded.mapM_readShown _)

/-- Printing finds every name. -/
theorem neverCrashes_iff_analyzeAll :
    NeverCrashes tables ↔ ∀ fuel, Survives (analyzeAll tables fuel ⟨initialStates tables, 0⟩) := by
  refine forall_congr' fun fuel => survives_bind_iff.trans (and_iff_left fun final hfinal => ?_)
  rw [((recorded_initialStates tables).analyzeAll hfinal).mapM_readShown]
  exact survives_ok _

end SockMyPort.Planificador
