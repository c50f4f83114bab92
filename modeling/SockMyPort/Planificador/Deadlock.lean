/-
# Detecting deadlocks

`detect_and_show_all_deadlocks` of the console. From each ESI that holds a key and was
not classified yet, the owners of the requested keys are followed until one of them
requests nothing, or requests a key of the first ESI. A chain that leads into a cycle
from outside has neither, so that loops run on fuel here and the function may not end.
-/

import SockMyPort.Planificador.State
import SockMyPort.Library.Chains

namespace SockMyPort.Planificador

open SockMyPort.Commons Library

/-- The arguments of `detect_and_show_all_deadlocks`. -/
structure WaitTables (config : Config) where
  lockedKeys : List KeyBlocker
  esiRequests : List EsiSexpectingKey
  esisInSystem : List (EsiInformation config)

/-- `esi_in_deadlock`. The state is `-1` at first, `0` for no deadlock, and otherwise the
number of a deadlock. -/
structure EsiInDeadlock where
  esiId : ℤ
  esiState : ℤ
  deriving DecidableEq

variable {config : Config} (tables : WaitTables config)

/-! ## Lookups -/

/-- `esi_holding_a_key`. -/
def esiHoldingAKey (esiId : ℤ) : Bool := tables.lockedKeys.any fun blocker => blocker.esiId = esiId

/-- `esi_asks_for_a_key`. -/
def esiAsksForAKey (esiId : ℤ) : Bool := tables.esiRequests.any fun request => request.esiFd = esiId

/-- `obtain_esi_request`. -/
def obtainEsiRequest (esiId : ℤ) : Option EsiSexpectingKey :=
  tables.esiRequests.find? fun request => request.esiFd = esiId

/-- `obtain_key_owner`, which the program does not survive for a key that is not locked. -/
def obtainKeyOwner (requestedKey : CString) : Option ℤ :=
  (tables.lockedKeys.find? fun blocker => blocker.key = requestedKey).map KeyBlocker.esiId

/-- The owner of the key that an ESI requests. -/
def obtainRequestOwner (esiId : ℤ) : Option ℤ :=
  (obtainEsiRequest tables esiId).bind fun request => obtainKeyOwner tables request.key

/-- `esi_requests_matches_first_esi_in_cycle_assigned_key`. -/
def esiRequestsMatchesFirst (firstEsi esiId : ℤ) : Bool :=
  match obtainEsiRequest tables esiId with
  | none => false
  | some request => tables.lockedKeys.any fun blocker =>
      blocker.esiId = firstEsi && request.key = blocker.key

/-! ## The search -/

/-- The inner loop: the cycle so far, and the last ESI on it. -/
def followOwners (firstEsi : ℤ) : ℕ → List ℤ → ℤ → Option (List ℤ × ℤ)
  | 0, _, _ => none
  | fuel + 1, currentEsiCycle, esiId =>
      if esiAsksForAKey tables esiId && !esiRequestsMatchesFirst tables firstEsi esiId then
        (obtainRequestOwner tables esiId).bind fun owner =>
          followOwners firstEsi fuel (currentEsiCycle ++ [owner]) owner
      else some (currentEsiCycle, esiId)

/-- `list_find`, and an assignment to what was found. -/
def assignFirst (condition : EsiInDeadlock → Bool) (state : ℤ) :
    List EsiInDeadlock → Option (List EsiInDeadlock)
  | [] => none
  | esi :: esis =>
      if condition esi then some ({ esi with esiState := state } :: esis)
      else (assignFirst condition state esis).map (esi :: ·)

/-- `apply_a_zero` and `apply_deadlock_id` for all ESIs of a cycle. -/
def applyState (state : ℤ) (currentEsiCycle : List ℤ) (allEsisInSystem : List EsiInDeadlock) :
    Option (List EsiInDeadlock) :=
  currentEsiCycle.foldlM (fun esis esiId => assignFirst (fun esi => esi.esiId = esiId) state esis)
    allEsisInSystem

/-- The states so far, and the deadlocks that were found. -/
structure Classification where
  allEsisInSystem : List EsiInDeadlock
  deadlockNumber : ℕ

/-- `esi_not_analized`. -/
def esiNotAnalized (esi : EsiInDeadlock) : Bool := esi.esiState = -1

/-- The states after a walk: zeros when the last ESI requests nothing, and otherwise the
number of the next deadlock. -/
def concludeWalk (current : Classification) : List ℤ × ℤ → Option Classification
  | (currentEsiCycle, esiId) =>
      if !esiAsksForAKey tables esiId then
        (applyState 0 currentEsiCycle current.allEsisInSystem).map fun esis =>
          { current with allEsisInSystem := esis }
      else
        (applyState (current.deadlockNumber + 1) currentEsiCycle current.allEsisInSystem).map
          fun esis => ⟨esis, current.deadlockNumber + 1⟩

/-- The body of the outer loop, for the first ESI that was not analyzed. -/
def classify (fuel : ℕ) (current : Classification) (esi : EsiInDeadlock) : Option Classification :=
  if !esiAsksForAKey tables esi.esiId then
    (assignFirst esiNotAnalized 0 current.allEsisInSystem).map fun esis =>
      { current with allEsisInSystem := esis }
  else do
    let owner ← obtainRequestOwner tables esi.esiId
    let walk ← followOwners tables esi.esiId fuel [esi.esiId, owner] owner
    concludeWalk tables current walk

/-- The outer loop. -/
def classifyAll : ℕ → Classification → Option Classification
  | 0, _ => none
  | fuel + 1, current =>
      match current.allEsisInSystem.find? esiNotAnalized with
      | none => some current
      | some esi => (classify tables fuel current esi).bind (classifyAll fuel)

/-- `create_esi_in_deadlock` for all ESIs, and a zero for those without keys. -/
def initialStates : List EsiInDeadlock :=
  tables.esisInSystem.map fun information =>
    ⟨information.esiId, if esiHoldingAKey tables information.esiId then -1 else 0⟩

/-- The ESIs that are printed under the number of a deadlock. -/
def shownUnder (esis : List EsiInDeadlock) (number : ℕ) : List (EsiInformation config) :=
  (esis.filter fun esi => esi.esiState = (number : ℤ)).filterMap fun esi =>
    tables.esisInSystem.find? fun information => information.esiId = esi.esiId

/-- `detect_and_show_all_deadlocks`: each deadlock with the ESIs that are printed, unless the
fuel is spent or the program does not survive. -/
def detectAndShowAllDeadlocks (fuel : ℕ) : Option (List (ℕ × List (EsiInformation config))) :=
  (classifyAll tables fuel ⟨initialStates tables, 0⟩).map fun final =>
    (List.range final.deadlockNumber).map fun index =>
      (index + 1, shownUnder tables final.allEsisInSystem (index + 1))

/-! ## The wait-for graph -/

/-- The first ESI requests a key that the second one holds. -/
def WaitsFor (first second : ℤ) : Prop :=
  ∃ request ∈ tables.esiRequests, request.esiFd = first ∧
    ∃ blocker ∈ tables.lockedKeys, blocker.key = request.key ∧ blocker.esiId = second

/-- Keys are locked once at most and by ESIs of the list; every ESI requests one key at most,
and what is requested is locked. -/
structure WaitTables.WellFormed : Prop where
  lockedOnce : (tables.lockedKeys.map KeyBlocker.key).Nodup
  ownersListed : ∀ blocker ∈ tables.lockedKeys, ∃ information ∈ tables.esisInSystem,
    information.esiId = blocker.esiId
  oneRequest : (tables.esiRequests.map EsiSexpectingKey.esiFd).Nodup
  requestedLocked : ∀ request ∈ tables.esiRequests, ∃ blocker ∈ tables.lockedKeys,
    blocker.key = request.key

variable {tables} {first second esiId owner : ℤ}

/-- In a list of different values, a lookup finds the only candidate. -/
theorem find?_eq_some_of_nodup {α β : Type} [DecidableEq β] {f : α → β} {list : List α} {found : α}
    {value : β} (hnodup : (list.map f).Nodup) (hmem : found ∈ list) (hvalue : f found = value) :
    list.find? (fun candidate => f candidate = value) = some found := by
  induction list with
  | nil => cases hmem
  | cons head tail ih =>
      obtain ⟨hfresh, htail⟩ := List.nodup_cons.mp hnodup
      rcases List.mem_cons.mp hmem with rfl | hlater
      · exact List.find?_cons_of_pos (by simp [hvalue])
      · have hother : f head ≠ value := by
          intro hsame
          exact hfresh (hsame ▸ hvalue ▸ List.mem_map_of_mem hlater)
        rw [List.find?_cons_of_neg (by simp [hother])]
        exact ih htail hlater

/-- The code follows the edges of the graph. -/
theorem obtainRequestOwner_eq_some_iff (hwell : tables.WellFormed) :
    obtainRequestOwner tables first = some second ↔ WaitsFor tables first second := by
  constructor
  · intro howner
    obtain ⟨request, hrequest, hkey⟩ := Option.bind_eq_some_iff.mp howner
    obtain ⟨blocker, hblocker, rfl⟩ := Option.map_eq_some_iff.mp hkey
    exact ⟨request, List.mem_of_find?_eq_some hrequest, by simpa using List.find?_some hrequest,
      blocker, List.mem_of_find?_eq_some hblocker, by simpa using List.find?_some hblocker, rfl⟩
  · rintro ⟨request, hrequest, hfirst, blocker, hblocker, hkey, rfl⟩
    rw [obtainRequestOwner, obtainEsiRequest,
      find?_eq_some_of_nodup hwell.oneRequest hrequest hfirst, Option.bind_some, obtainKeyOwner,
      find?_eq_some_of_nodup hwell.lockedOnce hblocker hkey, Option.map_some]

theorem waitsFor_rightUnique (hwell : tables.WellFormed) :
    Relator.RightUnique (WaitsFor tables) := by
  intro first second other hsecond hother
  rw [← obtainRequestOwner_eq_some_iff hwell] at hsecond hother
  exact Option.some.inj (hsecond.symm.trans hother)

theorem esiAsksForAKey_iff (hwell : tables.WellFormed) :
    esiAsksForAKey tables first = true ↔ ∃ second, WaitsFor tables first second := by
  rw [esiAsksForAKey, List.any_eq_true]
  constructor
  · rintro ⟨request, hrequest, hfirst⟩
    obtain ⟨blocker, hblocker, hkey⟩ := hwell.requestedLocked request hrequest
    exact ⟨blocker.esiId, request, hrequest, by simpa using hfirst, blocker, hblocker, hkey, rfl⟩
  · rintro ⟨second, request, hrequest, hfirst, -⟩
    exact ⟨request, hrequest, by simpa using hfirst⟩

theorem esiRequestsMatchesFirst_iff (hwell : tables.WellFormed) :
    esiRequestsMatchesFirst tables first esiId = true ↔ WaitsFor tables esiId first := by
  rw [esiRequestsMatchesFirst]
  split
  · rename_i hnone
    refine iff_of_false Bool.false_ne_true ?_
    rintro ⟨request, hrequest, hesi, -⟩
    rw [obtainEsiRequest, find?_eq_some_of_nodup hwell.oneRequest hrequest hesi] at hnone
    cases hnone
  · rename_i request hrequest
    have hesi : request.esiFd = esiId := by simpa using List.find?_some hrequest
    rw [List.any_eq_true]
    constructor
    · rintro ⟨blocker, hblocker, hmatch⟩
      simp only [Bool.and_eq_true, decide_eq_true_eq] at hmatch
      exact ⟨request, List.mem_of_find?_eq_some hrequest, hesi, blocker, hblocker, hmatch.2.symm,
        hmatch.1⟩
    · rintro ⟨other, hother, hsame, blocker, hblocker, hkey, hfirst⟩
      rw [obtainEsiRequest, find?_eq_some_of_nodup hwell.oneRequest hother hsame] at hrequest
      cases hrequest
      exact ⟨blocker, hblocker, by simp [hfirst, hkey]⟩

end SockMyPort.Planificador
