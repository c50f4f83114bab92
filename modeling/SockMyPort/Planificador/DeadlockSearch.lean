/-
# When the search for deadlocks ends, and what it finds

A walk along the owners ends exactly when the chain settles, and then it has found a whole
cycle or a chain without one. The classification of the ESIs is correct at every moment
of the search; an ESI whose chain leads into a cycle from outside is never classified.
-/

import SockMyPort.Planificador.Deadlock
import SockMyPort.Library.Fuel
import Mathlib.Data.List.Count

namespace SockMyPort.Planificador

open SockMyPort.Commons Library Relation

variable {config : Config} {tables : WaitTables config} {first second esiId last owner : ℤ}
  {cycle cycle' : List ℤ} {fuel : ℕ}

/-! ## Walks -/

/-- A walk from the first ESI: everything on it was reached, and everything but the last
one is followed by its owner. -/
structure Walked (tables : WaitTables config) (first : ℤ) (cycle : List ℤ) (last : ℤ) :
    Prop where
  first_mem : first ∈ cycle
  last_mem : last ∈ cycle
  reached : ∀ esi ∈ cycle, ReflTransGen (WaitsFor tables) first esi
  followed : ∀ esi ∈ cycle, esi = last ∨ ∃ next ∈ cycle, WaitsFor tables esi next

/-- Why a walk stops. -/
def Stops (tables : WaitTables config) (first last : ℤ) : Prop :=
  (∀ next, ¬ WaitsFor tables last next) ∨ WaitsFor tables last first

theorem Walked.start (hwaits : WaitsFor tables first second) :
    Walked tables first [first, second] second where
  first_mem := List.mem_cons_self
  last_mem := List.mem_cons_of_mem _ (List.mem_singleton_self _)
  reached esi hesi := by
    rcases List.mem_pair.mp hesi with rfl | rfl
    · exact .refl
    · exact .single hwaits
  followed esi hesi := by
    rcases List.mem_pair.mp hesi with rfl | rfl
    · exact .inr ⟨second, List.mem_cons_of_mem _ (List.mem_singleton_self _), hwaits⟩
    · exact .inl rfl

theorem Walked.follow (hwalked : Walked tables first cycle last)
    (hwaits : WaitsFor tables last second) : Walked tables first (cycle ++ [second]) second where
  first_mem := List.mem_append_left _ hwalked.first_mem
  last_mem := List.mem_append_right _ (List.mem_singleton_self _)
  reached esi hesi := by
    rcases List.mem_append.mp hesi with hbefore | hlast
    · exact hwalked.reached esi hbefore
    · rw [List.mem_singleton.mp hlast]
      exact (hwalked.reached last hwalked.last_mem).tail hwaits
  followed esi hesi := by
    have hsecond : second ∈ cycle ++ [second] :=
      List.mem_append_right _ (List.mem_singleton_self _)
    rcases List.mem_append.mp hesi with hbefore | hlast
    · rcases hwalked.followed esi hbefore with rfl | ⟨next, hnext, hedge⟩
      · exact .inr ⟨second, hsecond, hwaits⟩
      · exact .inr ⟨next, List.mem_append_left _ hnext, hedge⟩
    · exact .inl (List.mem_singleton.mp hlast)

theorem stops_iff (hwell : tables.WellFormed) :
    (esiAsksForAKey tables last && !esiRequestsMatchesFirst tables first last) = false ↔
      Stops tables first last := by
  rw [Bool.and_eq_false_iff, Bool.not_eq_false', esiRequestsMatchesFirst_iff hwell, Stops,
    ← Bool.not_eq_true, esiAsksForAKey_iff hwell, not_exists]

/-- A walk that goes on follows an edge. -/
theorem followOwners_succ (hwell : tables.WellFormed) (fuel : ℕ) (cycle : List ℤ)
    (hstep : WaitsFor tables last owner) (hgoes : ¬ Stops tables first last) :
    followOwners tables first (fuel + 1) cycle last =
      followOwners tables first fuel (cycle ++ [owner]) owner := by
  rw [← stops_iff hwell, Bool.not_eq_false] at hgoes
  rw [followOwners, if_pos hgoes, (obtainRequestOwner_eq_some_iff hwell).mpr hstep,
    Option.bind_some]

theorem followOwners_of_stops (hwell : tables.WellFormed) (fuel : ℕ) (cycle : List ℤ)
    (hstops : Stops tables first last) :
    followOwners tables first (fuel + 1) cycle last = some (cycle, last) := by
  rw [← stops_iff hwell] at hstops
  rw [followOwners, if_neg (by rw [hstops]; exact Bool.false_ne_true)]

/-- What a walk returns. -/
theorem followOwners_spec (hwell : tables.WellFormed) (hwalked : Walked tables first cycle last)
    {result : List ℤ × ℤ} (hreturn : followOwners tables first fuel cycle last = some result) :
    Walked tables first result.1 result.2 ∧ Stops tables first result.2 := by
  induction fuel generalizing cycle last with
  | zero => cases hreturn
  | succ fuel ih =>
      rcases Classical.em (Stops tables first last) with hstops | hgoes
      · rw [followOwners_of_stops hwell fuel cycle hstops] at hreturn
        cases hreturn
        exact ⟨hwalked, hstops⟩
      · obtain ⟨owner, howner⟩ : ∃ owner, WaitsFor tables last owner := by
          by_contra hnone
          exact hgoes (.inl (not_exists.mp hnone))
        rw [followOwners_succ hwell fuel cycle howner hgoes] at hreturn
        exact ih (hwalked.follow howner) hreturn

/-- A walk returns when a place to stop is ahead. -/
theorem followOwners_returns (hwell : tables.WellFormed) (cycle : List ℤ)
    (hahead : ∃ stop, ReflTransGen (WaitsFor tables) last stop ∧ Stops tables first stop) :
    ∃ result, Returns (fun fuel => followOwners tables first fuel cycle last) result := by
  obtain ⟨stop, hreach, hstops⟩ := hahead
  induction hreach using ReflTransGen.head_induction_on generalizing cycle with
  | refl =>
      refine ⟨(cycle, stop), returns_of_succ ?_⟩
      simp only [followOwners_of_stops hwell _ cycle hstops]
      exact returns_some _
  | @head current next hstep hrest ih =>
      rcases Classical.em (Stops tables first current) with hhere | hgoes
      · refine ⟨(cycle, current), returns_of_succ ?_⟩
        simp only [followOwners_of_stops hwell _ cycle hhere]
        exact returns_some _
      · obtain ⟨result, hreturns⟩ := ih (cycle ++ [next])
        refine ⟨result, returns_of_succ ?_⟩
        simp only [followOwners_succ hwell _ cycle hstep hgoes]
        exact hreturns

/-- The walk from an ESI whose chain settles returns. -/
theorem followOwners_returns_of_settles (hwell : tables.WellFormed)
    (hsettles : Settles (WaitsFor tables) first) (hwaits : WaitsFor tables first second) :
    ∃ result, Returns (fun fuel => followOwners tables first fuel [first, second] second)
      result := by
  have hdet := waitsFor_rightUnique hwell
  apply followOwners_returns hwell
  rcases hsettles with hcycle | hends
  · obtain ⟨stop, hreach, hclose⟩ := hcycle.exists_last hdet hwaits
    exact ⟨stop, hreach, .inr hclose⟩
  · obtain ⟨stop, hreach, hstop⟩ := hends.of_reach hdet (.single hwaits)
    exact ⟨stop, hreach, .inl hstop⟩

/-- A walk that has stopped shows that the chain settles. -/
theorem Walked.settles (hwalked : Walked tables first cycle last)
    (hstops : Stops tables first last) :
    Settles (WaitsFor tables) first := by
  have hreach := hwalked.reached last hwalked.last_mem
  rcases hstops with hnone | hclose
  · exact .inr ⟨last, hreach, hnone⟩
  · exact .inl (TransGen.tail' hreach hclose)

/-- A walk that has come back holds exactly what is reached. -/
theorem Walked.mem_iff (hwell : tables.WellFormed) (hwalked : Walked tables first cycle last)
    (hclose : WaitsFor tables last first) :
    esiId ∈ cycle ↔ ReflTransGen (WaitsFor tables) first esiId := by
  constructor
  · exact hwalked.reached esiId
  · intro hreach
    induction hreach with
    | refl => exact hwalked.first_mem
    | tail _ hstep ih =>
        rcases hwalked.followed _ ih with rfl | ⟨next, hnext, hedge⟩
        · rw [waitsFor_rightUnique hwell hstep hclose]
          exact hwalked.first_mem
        · rw [waitsFor_rightUnique hwell hstep hedge]
          exact hnext

/-! ## Assignments -/

variable {condition : EsiInDeadlock → Bool} {state : ℤ} {esis esis' : List EsiInDeadlock}
  {esi found : EsiInDeadlock}

/-- The states change to one value only, and only for ESIs that were touched. -/
structure Assigned (touched : ℤ → Prop) (state : ℤ) (esis esis' : List EsiInDeadlock) : Prop where
  ids : esis'.map EsiInDeadlock.esiId = esis.map EsiInDeadlock.esiId
  kept : ∀ (index : ℕ) (esi : EsiInDeadlock), esis[index]? = some esi → esis'[index]? = some esi ∨
    esis'[index]? = some { esi with esiState := state } ∧ touched esi.esiId

theorem Assigned.mem {touched : ℤ → Prop} (hassigned : Assigned touched state esis esis')
    (hmem : esi ∈ esis') : ∃ old ∈ esis, old.esiId = esi.esiId ∧
      (esi = old ∨ esi.esiState = state ∧ touched esi.esiId) := by
  obtain ⟨index, hindex⟩ := List.mem_iff_getElem?.mp hmem
  have hid := congrArg (fun ids => ids[index]?) hassigned.ids
  simp only [List.getElem?_map, hindex, Option.map_some] at hid
  obtain ⟨old, hold, hsame⟩ := Option.map_eq_some_iff.mp hid.symm
  refine ⟨old, List.mem_of_getElem? hold, hsame, ?_⟩
  rcases hassigned.kept index old hold with hkept | ⟨hset, htouched⟩
  · exact .inl (Option.some.inj (hindex.symm.trans hkept))
  · have hequal := Option.some.inj (hindex.symm.trans hset)
    rw [hequal]
    exact .inr ⟨rfl, htouched⟩

theorem assignFirst_ids (hassign : assignFirst condition state esis = some esis') :
    esis'.map EsiInDeadlock.esiId = esis.map EsiInDeadlock.esiId := by
  induction esis generalizing esis' with
  | nil => cases hassign
  | cons head tail ih =>
      rw [assignFirst] at hassign
      split at hassign
      · cases hassign
        rfl
      · obtain ⟨rest, hrest, rfl⟩ := Option.map_eq_some_iff.mp hassign
        rw [List.map_cons, ih hrest, List.map_cons]

/-- An assignment changes the first candidate and nothing else. -/
theorem assignFirst_getElem? (hassign : assignFirst condition state esis = some esis')
    {index : ℕ} (hindex : esis[index]? = some esi) :
    esis'[index]? = some esi ∨ esis'[index]? = some { esi with esiState := state } ∧
      esis.find? condition = some esi ∧
        ∀ before < index, ∀ other, esis[before]? = some other → condition other = false := by
  induction esis generalizing esis' index with
  | nil => cases hassign
  | cons head tail ih =>
      rw [assignFirst] at hassign
      split at hassign
      · rename_i hhead
        cases hassign
        cases index with
        | zero =>
            cases hindex
            exact .inr ⟨rfl, List.find?_cons_of_pos hhead, fun _ hbefore => by omega⟩
        | succ index => exact .inl hindex
      · rename_i hhead
        obtain ⟨rest, hrest, rfl⟩ := Option.map_eq_some_iff.mp hassign
        cases index with
        | zero => exact .inl hindex
        | succ index =>
            rcases ih hrest hindex with hkept | ⟨hset, hfind, hnone⟩
            · exact .inl hkept
            · refine .inr ⟨hset, by rw [List.find?_cons_of_neg hhead, hfind], ?_⟩
              intro before hbefore other hother
              cases before with
              | zero =>
                  cases hother
                  simpa using hhead
              | succ before => exact hnone before (by omega) other hother

/-- The first candidate has the new state afterwards. -/
theorem assignFirst_done (hassign : assignFirst condition state esis = some esis') :
    ∃ (index : ℕ) (esi : EsiInDeadlock), esis[index]? = some esi ∧
      esis.find? condition = some esi ∧ esis'[index]? = some { esi with esiState := state } := by
  induction esis generalizing esis' with
  | nil => cases hassign
  | cons head tail ih =>
      rw [assignFirst] at hassign
      split at hassign
      · rename_i hhead
        cases hassign
        exact ⟨0, head, rfl, List.find?_cons_of_pos hhead, rfl⟩
      · rename_i hhead
        obtain ⟨rest, hrest, rfl⟩ := Option.map_eq_some_iff.mp hassign
        obtain ⟨index, esi, hindex, hfind, hdone⟩ := ih hrest
        exact ⟨index + 1, esi, hindex, by rw [List.find?_cons_of_neg hhead, hfind], hdone⟩

theorem exists_assignFirst (state : ℤ) (hcandidate : ∃ esi ∈ esis, condition esi = true) :
    ∃ esis', assignFirst condition state esis = some esis' := by
  induction esis with
  | nil =>
      obtain ⟨esi, hmem, -⟩ := hcandidate
      cases hmem
  | cons head tail ih =>
      rw [assignFirst]
      split
      · exact ⟨_, rfl⟩
      · rename_i hhead
        obtain ⟨esi, hmem, hesi⟩ := hcandidate
        rcases List.mem_cons.mp hmem with rfl | htail
        · exact absurd hesi hhead
        · obtain ⟨rest, hrest⟩ := ih ⟨esi, htail, hesi⟩
          exact ⟨head :: rest, by rw [hrest]; rfl⟩

theorem applyState_cons (head : ℤ) (tail : List ℤ) :
    applyState state (head :: tail) esis =
      (assignFirst (fun esi => esi.esiId = head) state esis).bind (applyState state tail) := rfl

/-- What the states of a cycle become. -/
theorem applyState_assigned (happly : applyState state cycle esis = some esis') :
    Assigned (· ∈ cycle) state esis esis' := by
  induction cycle generalizing esis with
  | nil =>
      cases happly
      exact ⟨rfl, fun index esi hindex => .inl hindex⟩
  | cons head tail ih =>
      rw [applyState_cons] at happly
      obtain ⟨middle, hassign, hrest⟩ := Option.bind_eq_some_iff.mp happly
      have htail := ih hrest
      refine ⟨htail.ids.trans (assignFirst_ids hassign), fun index esi hindex => ?_⟩
      rcases assignFirst_getElem? hassign hindex with hkept | ⟨hset, hfind, -⟩
      · rcases htail.kept index esi hkept with hagain | ⟨hagain, hmem⟩
        · exact .inl hagain
        · exact .inr ⟨hagain, List.mem_cons_of_mem _ hmem⟩
      · have hid : esi.esiId = head := by simpa using List.find?_some hfind
        refine .inr ⟨?_, hid ▸ List.mem_cons_self⟩
        rcases htail.kept index _ hset with hagain | ⟨hagain, -⟩
        · exact hagain
        · exact hagain

/-- Every ESI of a cycle has a record with the new state. -/
theorem applyState_done (happly : applyState state cycle esis = some esis') (hmem : esiId ∈ cycle) :
    ⟨esiId, state⟩ ∈ esis' := by
  induction cycle generalizing esis with
  | nil => cases hmem
  | cons head tail ih =>
      rw [applyState_cons] at happly
      obtain ⟨middle, hassign, hrest⟩ := Option.bind_eq_some_iff.mp happly
      rcases List.mem_cons.mp hmem with rfl | htail
      · obtain ⟨index, esi, -, hfind, hdone⟩ := assignFirst_done hassign
        have hhead : esi.esiId = esiId := by simpa using List.find?_some hfind
        rw [hhead] at hdone
        rcases (applyState_assigned hrest).kept index _ hdone with hkept | ⟨hset, -⟩
        · exact List.mem_of_getElem? hkept
        · exact List.mem_of_getElem? hset
      · exact ih hrest htail

theorem exists_applyState (state : ℤ)
    (hlisted : ∀ esiId ∈ cycle, esiId ∈ esis.map EsiInDeadlock.esiId) :
    ∃ esis', applyState state cycle esis = some esis' := by
  induction cycle generalizing esis with
  | nil => exact ⟨esis, rfl⟩
  | cons head tail ih =>
      obtain ⟨esi, hmem, hid⟩ := List.mem_map.mp (hlisted head List.mem_cons_self)
      obtain ⟨middle, hassign⟩ := exists_assignFirst state
        (⟨esi, hmem, by simpa using hid⟩ : ∃ esi ∈ esis, decide (esi.esiId = head) = true)
      rw [applyState_cons, hassign, Option.bind_some]
      apply ih
      rw [assignFirst_ids hassign]
      exact fun esiId htail => hlisted esiId (List.mem_cons_of_mem _ htail)

/-- A second record of an ESI is never reached. -/
theorem applyState_getElem?_of_earlier (happly : applyState state cycle esis = some esis')
    {index before : ℕ} {other : EsiInDeadlock} (hindex : esis[index]? = some esi)
    (hbefore : before < index) (hother : esis[before]? = some other)
    (hsame : other.esiId = esi.esiId) : esis'[index]? = some esi := by
  induction cycle generalizing esis other with
  | nil =>
      cases happly
      exact hindex
  | cons head tail ih =>
      rw [applyState_cons] at happly
      obtain ⟨middle, hassign, hrest⟩ := Option.bind_eq_some_iff.mp happly
      have hmiddle : middle[index]? = some esi := by
        rcases assignFirst_getElem? hassign hindex with hkept | ⟨-, hfind, hnone⟩
        · exact hkept
        · have hhead : esi.esiId = head := by simpa using List.find?_some hfind
          have hfalse := hnone before hbefore other hother
          simp [hsame, hhead] at hfalse
      rcases assignFirst_getElem? hassign hother with hkept | ⟨hset, -⟩
      · exact ih hrest hmiddle hkept hsame
      · exact ih hrest hmiddle hset hsame

end SockMyPort.Planificador
