/-
# When the search for deadlocks finds what it reads

A walk from an ESI needs every key that is requested on the way to be locked, and when it
stops, everything on the way to be registered. The search crashes in the first walk that
lacks something, unless an earlier one never stops.
-/

import SockMyPort.Planificador.DeadlockLookups
import SockMyPort.Planificador.DeadlockReport
import SockMyPort.Planificador.Removal

namespace SockMyPort.Planificador

open SockMyPort.Commons Library Relation

variable {config : Config} {tables : WaitTables config} {firstEsi esiId owner last : ℤ}
  {cycle : List ℤ} {fuel : ℕ} {current next : Classification} {esi : EsiInDeadlock}

/-! ## Walks -/

/-- The ESIs that the walk from the first ESI comes to. -/
inductive Visits (tables : WaitTables config) (firstEsi : ℤ) : ℤ → Prop
  | owner {owner : ℤ} (howner : obtainRequestOwner tables firstEsi = some owner) :
      Visits tables firstEsi owner
  | next {esiId owner : ℤ} (hvisits : Visits tables firstEsi esiId)
      (hgoes : goesOn tables firstEsi esiId = true)
      (howner : obtainRequestOwner tables esiId = some owner) : Visits tables firstEsi owner

/-- The walk stops. -/
def WalkEnds (tables : WaitTables config) (firstEsi : ℤ) : Prop :=
  ∃ last, Visits tables firstEsi last ∧ goesOn tables firstEsi last = false

/-- The ESI is in the list. -/
def Listed (tables : WaitTables config) (esiId : ℤ) : Prop :=
  esiId ∈ tables.esisInSystem.map EsiInformation.esiId

/-- The walk lacks nothing: every key that is requested is locked, and when the walk stops,
everything on it is in the list. -/
structure Walkable (tables : WaitTables config) (firstEsi : ℤ) : Prop where
  starts : ∃ owner, obtainRequestOwner tables firstEsi = some owner
  locked : ∀ esiId, Visits tables firstEsi esiId → goesOn tables firstEsi esiId = true →
    ∃ owner, obtainRequestOwner tables esiId = some owner
  listed : WalkEnds tables firstEsi → ∀ esiId, Visits tables firstEsi esiId →
    Listed tables esiId

/-- A walk that has come to an ESI, with everything on the way. -/
structure Trail (tables : WaitTables config) (firstEsi : ℤ) (cycle : List ℤ) (last : ℤ) :
    Prop where
  first_mem : firstEsi ∈ cycle
  last_visited : Visits tables firstEsi last
  visited : ∀ esiId ∈ cycle, esiId = firstEsi ∨ Visits tables firstEsi esiId
  owner_mem : ∃ owner ∈ cycle, obtainRequestOwner tables firstEsi = some owner
  followed : ∀ esiId ∈ cycle, esiId = last ∨
    ∃ owner ∈ cycle, obtainRequestOwner tables esiId = some owner

theorem Trail.start (howner : obtainRequestOwner tables firstEsi = some owner) :
    Trail tables firstEsi [firstEsi, owner] owner where
  first_mem := List.mem_cons_self
  last_visited := .owner howner
  visited esiId hmem := by
    rcases List.mem_pair.mp hmem with rfl | rfl
    · exact .inl rfl
    · exact .inr (.owner howner)
  owner_mem := ⟨owner, List.mem_cons_of_mem _ (List.mem_singleton_self _), howner⟩
  followed esiId hmem := by
    rcases List.mem_pair.mp hmem with rfl | rfl
    · exact .inr ⟨owner, List.mem_cons_of_mem _ (List.mem_singleton_self _), howner⟩
    · exact .inl rfl

theorem Trail.follow (htrail : Trail tables firstEsi cycle last)
    (hgoes : goesOn tables firstEsi last = true)
    (howner : obtainRequestOwner tables last = some owner) :
    Trail tables firstEsi (cycle ++ [owner]) owner where
  first_mem := List.mem_append_left _ htrail.first_mem
  last_visited := htrail.last_visited.next hgoes howner
  visited esiId hmem := by
    rcases List.mem_append.mp hmem with hbefore | hlast
    · exact htrail.visited esiId hbefore
    · rw [List.mem_singleton.mp hlast]
      exact .inr (htrail.last_visited.next hgoes howner)
  owner_mem := by
    obtain ⟨second, hsecond, heq⟩ := htrail.owner_mem
    exact ⟨second, List.mem_append_left _ hsecond, heq⟩
  followed esiId hmem := by
    have howns : owner ∈ cycle ++ [owner] := List.mem_append_right _ (List.mem_singleton_self _)
    rcases List.mem_append.mp hmem with hbefore | hlast
    · rcases htrail.followed esiId hbefore with rfl | ⟨other, hother, hedge⟩
      · exact .inr ⟨owner, howns, howner⟩
      · exact .inr ⟨other, List.mem_append_left _ hother, hedge⟩
    · exact .inl (List.mem_singleton.mp hlast)

/-- A walk that has stopped has come to everything. -/
theorem Trail.mem_of_visits (htrail : Trail tables firstEsi cycle last)
    (hstops : goesOn tables firstEsi last = false) (hvisits : Visits tables firstEsi esiId) :
    esiId ∈ cycle := by
  induction hvisits with
  | owner howner =>
      obtain ⟨second, hsecond, heq⟩ := htrail.owner_mem
      rwa [Option.some.inj (howner.symm.trans heq)]
  | @next esiId owner _ hgoes howner ih =>
      rcases htrail.followed esiId ih with rfl | ⟨other, hother, hedge⟩
      · rw [hgoes] at hstops
        cases hstops
      · rwa [Option.some.inj (howner.symm.trans hedge)]

/-- What the inner loop returns. -/
theorem readOwners_spec (htrail : Trail tables firstEsi cycle last) {walk : List ℤ × ℤ}
    (hwalk : readOwners tables firstEsi fuel cycle last = .ok walk) :
    Trail tables firstEsi walk.1 walk.2 ∧ goesOn tables firstEsi walk.2 = false := by
  induction fuel generalizing cycle last with
  | zero => cases hwalk
  | succ fuel ih =>
      rw [readOwners] at hwalk
      split at hwalk
      · rename_i hgoes
        obtain ⟨owner, howner, hrest⟩ := bind_eq_ok_iff.mp hwalk
        exact ih (htrail.follow hgoes (dereference_eq_ok_iff.mp howner)) hrest
      · rename_i hstops
        obtain rfl := Except.ok.inj hwalk
        exact ⟨htrail, Bool.eq_false_of_not_eq_true hstops⟩

/-- The inner loop comes to every ESI of the walk. -/
theorem exists_readOwners (howner : obtainRequestOwner tables firstEsi = some owner)
    (hvisits : Visits tables firstEsi esiId) :
    ∃ used cycle, Trail tables firstEsi cycle esiId ∧ ∀ fuel,
      readOwners tables firstEsi (fuel + used) [firstEsi, owner] owner =
        readOwners tables firstEsi fuel cycle esiId := by
  induction hvisits with
  | owner hsecond =>
      obtain rfl := Option.some.inj (howner.symm.trans hsecond)
      exact ⟨0, _, .start howner, fun fuel => rfl⟩
  | @next esiId other _ hgoes hother ih =>
      obtain ⟨used, cycle, htrail, hused⟩ := ih
      refine ⟨used + 1, _, htrail.follow hgoes hother, fun fuel => ?_⟩
      rw [← Nat.add_assoc, Nat.add_right_comm, hused, readOwners, if_pos hgoes, hother]
      rfl

/-- The inner loop does not crash when the keys are locked. -/
theorem Walkable.survives_readOwners (hwalkable : Walkable tables firstEsi)
    (hvisits : Visits tables firstEsi esiId) (fuel : ℕ) (cycle : List ℤ) :
    Survives (readOwners tables firstEsi fuel cycle esiId) := by
  induction fuel generalizing cycle esiId with
  | zero => exact survives_spent
  | succ fuel ih =>
      rw [readOwners]
      split
      · rename_i hgoes
        refine survives_bind_iff.mpr ⟨?_, fun owner howner => ?_⟩
        · exact survives_dereference_iff.mpr (hwalkable.locked esiId hvisits hgoes)
        · exact ih (hvisits.next hgoes (dereference_eq_ok_iff.mp howner)) _
      · exact survives_ok _

/-! ## One turn of the outer loop -/

/-- An ESI from which a walk may be started. -/
def Suspect (tables : WaitTables config) (esiId : ℤ) : Prop :=
  esiHoldingAKey tables esiId = true ∧ esiAsksForAKey tables esiId = true

theorem analyze_of_asking (hasks : esiAsksForAKey tables esi.esiId = true) :
    analyze tables fuel current esi =
      (dereference (obtainRequestOwner tables esi.esiId)).bind fun owner =>
        (readOwners tables esi.esiId fuel [esi.esiId, owner] owner).bind fun walk =>
          dereference (concludeWalk tables current walk) := by
  rw [analyze, if_neg (by simp [hasks])]

/-- The conclusion of a walk needs the records of everything on it. -/
theorem exists_concludeWalk_iff {walk : List ℤ × ℤ} :
    (∃ next, concludeWalk tables current walk = some next) ↔
      ∀ esiId ∈ walk.1, esiId ∈ current.allEsisInSystem.map EsiInDeadlock.esiId := by
  constructor
  · rintro ⟨next, hconclude⟩ esiId hmem
    obtain ⟨state, -, happly⟩ := of_concludeWalk hconclude
    rw [← (applyState_assigned happly).ids]
    exact List.mem_map_of_mem (applyState_done happly hmem)
  · intro hlisted
    obtain ⟨cycle, last⟩ := walk
    rw [concludeWalk]
    split
    · obtain ⟨esis, happly⟩ := exists_applyState 0 hlisted
      exact ⟨_, by rw [happly]; rfl⟩
    · obtain ⟨esis, happly⟩ := exists_applyState (current.deadlockNumber + 1 : ℤ) hlisted
      exact ⟨_, by rw [happly]; rfl⟩

theorem Recorded.survives_conclude_iff (hrecorded : Recorded tables current)
    {walk : List ℤ × ℤ} : Survives (dereference (concludeWalk tables current walk)) ↔
      ∀ esiId ∈ walk.1, Listed tables esiId := by
  rw [survives_dereference_iff, exists_concludeWalk_iff, hrecorded.ids]
  rfl

/-- An ESI that asks for nothing. -/
theorem survives_analyze_of_not_asking
    (hfind : current.allEsisInSystem.find? esiNotAnalized = some esi)
    (hasks : esiAsksForAKey tables esi.esiId = false) (fuel : ℕ) :
    Survives (analyze tables fuel current esi) := by
  rw [analyze, if_pos (by simp [hasks]), survives_dereference_iff]
  have hcandidate : ∃ esi ∈ current.allEsisInSystem, esiNotAnalized esi = true :=
    ⟨esi, List.mem_of_find?_eq_some hfind, List.find?_some hfind⟩
  obtain ⟨esis, hassign⟩ := exists_assignFirst 0 hcandidate
  exact ⟨_, by rw [hassign]; rfl⟩

theorem Recorded.listed (hrecorded : Recorded tables current)
    (hmem : esi ∈ current.allEsisInSystem) : Listed tables esi.esiId := by
  rw [Listed, ← hrecorded.ids]
  exact List.mem_map_of_mem hmem

/-- A walk that has not crashed with any fuel from some point on lacks nothing. -/
theorem Recorded.walkable_of_survives (hrecorded : Recorded tables current)
    (hasks : esiAsksForAKey tables esi.esiId = true) (enough : ℕ)
    (hsurvives : ∀ fuel, enough ≤ fuel → Survives (Planificador.analyze tables fuel current esi)) :
    Walkable tables esi.esiId := by
  simp only [analyze_of_asking hasks, survives_bind_iff, dereference_eq_ok_iff,
    @survives_dereference_iff _ (obtainRequestOwner tables esi.esiId),
    hrecorded.survives_conclude_iff] at hsurvives
  obtain ⟨owner, howner⟩ := (hsurvives enough le_rfl).1
  have hlater : ∀ used, enough ≤ enough + 1 + used := fun used => by omega
  refine ⟨⟨owner, howner⟩, fun esiId hvisits hgoes => ?_, fun hends esiId hvisits => ?_⟩
  · obtain ⟨used, cycle, -, hused⟩ := exists_readOwners howner hvisits
    have hread := ((hsurvives _ (hlater used)).2 owner howner).1
    rw [hused, readOwners, if_pos hgoes] at hread
    exact survives_dereference_iff.mp (survives_bind_iff.mp hread).1
  · obtain ⟨last, hlast, hstops⟩ := hends
    obtain ⟨used, cycle, htrail, hused⟩ := exists_readOwners howner hlast
    have hread := ((hsurvives _ (hlater used)).2 owner howner).2 (cycle, last)
    rw [hused, readOwners, if_neg (by simp [hstops])] at hread
    exact hread rfl esiId (htrail.mem_of_visits hstops hvisits)

/-- A walk that lacks nothing does not crash. -/
theorem Recorded.survives_of_walkable (hrecorded : Recorded tables current)
    (hmem : esi ∈ current.allEsisInSystem) (hasks : esiAsksForAKey tables esi.esiId = true)
    (hwalkable : Walkable tables esi.esiId) (fuel : ℕ) :
    Survives (Planificador.analyze tables fuel current esi) := by
  rw [analyze_of_asking hasks, survives_bind_iff, survives_dereference_iff]
  refine ⟨hwalkable.starts, fun owner howner => survives_bind_iff.mpr ⟨?_, fun walk hwalk => ?_⟩⟩
  · rw [dereference_eq_ok_iff] at howner
    exact hwalkable.survives_readOwners (.owner howner) fuel _
  · rw [dereference_eq_ok_iff] at howner
    refine hrecorded.survives_conclude_iff.mpr fun esiId hin => ?_
    obtain ⟨htrail, hstops⟩ := readOwners_spec (.start howner) hwalk
    rcases htrail.visited esiId hin with rfl | hvisits
    · exact hrecorded.listed hmem
    · exact hwalkable.listed ⟨walk.2, htrail.last_visited, hstops⟩ esiId hvisits

/-- A walk that lacks nothing and stops is concluded. -/
theorem Recorded.exists_analyze (hrecorded : Recorded tables current)
    (hmem : esi ∈ current.allEsisInSystem) (hasks : esiAsksForAKey tables esi.esiId = true)
    (hwalkable : Walkable tables esi.esiId) (hends : WalkEnds tables esi.esiId) :
    ∃ enough next, ∀ fuel, enough ≤ fuel →
      Planificador.analyze tables fuel current esi = .ok next := by
  obtain ⟨owner, howner⟩ := hwalkable.starts
  obtain ⟨last, hlast, hstops⟩ := hends
  obtain ⟨used, cycle, htrail, hused⟩ := exists_readOwners howner hlast
  have hwalk : ∀ fuel, 1 + used ≤ fuel →
      readOwners tables esi.esiId fuel [esi.esiId, owner] owner = .ok (cycle, last) := by
    intro fuel hfuel
    obtain ⟨less, rfl⟩ := Nat.exists_eq_add_of_le' hfuel
    rw [← Nat.add_assoc, hused, readOwners, if_neg (by simp [hstops])]
  have hsurvives := hrecorded.survives_of_walkable hmem hasks hwalkable (1 + used)
  rw [analyze_of_asking hasks, howner] at hsurvives
  have hconclude := (survives_bind_iff.mp hsurvives).2 owner rfl
  obtain ⟨next, hnext⟩ := survives_dereference_iff.mp
    ((survives_bind_iff.mp hconclude).2 _ (hwalk _ le_rfl))
  refine ⟨1 + used, next, fun fuel hfuel => ?_⟩
  rw [analyze_of_asking hasks, howner]
  exact bind_eq_ok_iff.mpr ⟨owner, rfl, bind_eq_ok_iff.mpr
    ⟨_, hwalk fuel hfuel, dereference_eq_ok_iff.mpr hnext⟩⟩

/-- A turn for an ESI that asks for a key: its walk lacked nothing and stopped. -/
theorem Recorded.of_analyze (hrecorded : Recorded tables current)
    (hasks : esiAsksForAKey tables esi.esiId = true)
    (hanalyze : Planificador.analyze tables fuel current esi = .ok next) :
    (Walkable tables esi.esiId ∧ WalkEnds tables esi.esiId) ∧
      ∀ esiId, Touched tables fuel esi.esiId esiId →
        esiId = esi.esiId ∨ Visits tables esi.esiId esiId := by
  rw [analyze_of_asking hasks] at hanalyze
  obtain ⟨owner, howner, hanalyze⟩ := bind_eq_ok_iff.mp hanalyze
  obtain ⟨⟨cycle, last⟩, hwalk, hconclude⟩ := bind_eq_ok_iff.mp hanalyze
  rw [dereference_eq_ok_iff] at howner hconclude
  obtain ⟨htrail, hstops⟩ := readOwners_spec (.start howner) hwalk
  have hlisted : ∀ esiId ∈ cycle, Listed tables esiId :=
    hrecorded.survives_conclude_iff.mp (survives_dereference_iff.mpr ⟨next, hconclude⟩)
  refine ⟨⟨⟨⟨owner, howner⟩, fun esiId hvisits hgoes => ?_, fun _ esiId hvisits => ?_⟩,
    last, htrail.last_visited, hstops⟩, fun esiId htouched => ?_⟩
  · rcases htrail.followed esiId (htrail.mem_of_visits hstops hvisits) with rfl | ⟨next, -, hnext⟩
    · rw [hgoes] at hstops
      cases hstops
    · exact ⟨next, hnext⟩
  · exact hlisted esiId (htrail.mem_of_visits hstops hvisits)
  · rw [Touched, if_pos hasks] at htouched
    obtain ⟨second, other, final, hsecond, hother, hin⟩ := htouched
    obtain rfl := Option.some.inj (howner.symm.trans hsecond)
    obtain ⟨rfl, -⟩ := Prod.mk.inj (Except.ok.inj (hwalk.symm.trans hother))
    exact htrail.visited esiId hin

/-! ## Every walk -/

/-- Every walk that may be started lacks nothing. -/
def EveryWalkable (tables : WaitTables config) : Prop :=
  ∀ information ∈ tables.esisInSystem, Suspect tables information.esiId →
    Walkable tables information.esiId

theorem Recorded.survives_analyzeAll (hwalkable : EveryWalkable tables)
    (hrecorded : Recorded tables current) (fuel : ℕ) :
    Survives (Planificador.analyzeAll tables fuel current) := by
  induction fuel generalizing current with
  | zero => exact survives_spent
  | succ fuel ih =>
      rw [Planificador.analyzeAll]
      split
      · exact survives_ok current
      · rename_i esi hfind
        have hmem := List.mem_of_find?_eq_some hfind
        refine survives_bind_iff.mpr ⟨?_, fun next hnext => ih (hrecorded.analyze hfind hnext)⟩
        cases hasks : esiAsksForAKey tables esi.esiId with
        | false => exact survives_analyze_of_not_asking hfind hasks fuel
        | true =>
            have hholds := hrecorded.holding esi hmem (List.find?_some hfind)
            obtain ⟨information, hinformation, hid⟩ := List.mem_map.mp (hrecorded.listed hmem)
            refine hrecorded.survives_of_walkable hmem hasks ?_ fuel
            rw [← hid] at hholds hasks ⊢
            exact hwalkable information hinformation ⟨hholds, hasks⟩

/-- **The search never crashes when no walk lacks anything.** -/
theorem neverCrashes_of_everyWalkable (hwalkable : EveryWalkable tables) : NeverCrashes tables :=
  neverCrashes_iff_analyzeAll.mpr
    ((recorded_initialStates tables).survives_analyzeAll hwalkable)

/-! ## Chains of owners -/

/-- The key that the first ESI requests is owned by the second one. -/
def OwnedBy (tables : WaitTables config) (first second : ℤ) : Prop :=
  obtainRequestOwner tables first = some second

/-- Every ESI is in the list once, and a key of an ESI of the list has no other owner. -/
structure Proper (tables : WaitTables config) : Prop where
  once : (tables.esisInSystem.map EsiInformation.esiId).Nodup
  owners : ∀ blocker ∈ tables.lockedKeys, Listed tables blocker.esiId →
    ∀ other ∈ tables.lockedKeys, other.key = blocker.key → other.esiId = blocker.esiId

/-- The chain of owners does not lead into a cycle from outside, and it stays in the list, up
to an ESI that asks for nothing. -/
structure Sane (tables : WaitTables config) (esiId : ℤ) : Prop where
  settles : Settles (OwnedBy tables) esiId
  listed : ∀ other, ReflTransGen (OwnedBy tables) esiId other → Listed tables other
  locked : ∀ other, ReflTransGen (OwnedBy tables) esiId other →
    esiAsksForAKey tables other = true → ∃ owner, OwnedBy tables other owner

theorem ownedBy_rightUnique : Relator.RightUnique (OwnedBy tables) := fun _ _ _ hfirst hsecond =>
  Option.some.inj (hfirst.symm.trans hsecond)

theorem asks_of_ownedBy (howner : OwnedBy tables esiId owner) :
    esiAsksForAKey tables esiId = true := by
  obtain ⟨request, hrequest, -⟩ := Option.bind_eq_some_iff.mp howner
  refine List.any_eq_true.mpr ⟨request, List.mem_of_find?_eq_some hrequest, ?_⟩
  simpa using List.find?_some hrequest

/-- Along a chain nothing is lost. -/
theorem Sane.of_reach (hsane : Sane tables firstEsi)
    (hreach : ReflTransGen (OwnedBy tables) firstEsi esiId) : Sane tables esiId :=
  ⟨hsane.settles.of_reach ownedBy_rightUnique hreach,
    fun other hother => hsane.listed other (hreach.trans hother),
    fun other hother => hsane.locked other (hreach.trans hother)⟩

theorem Visits.reach (hvisits : Visits tables firstEsi esiId) :
    ReflTransGen (OwnedBy tables) firstEsi esiId := by
  induction hvisits with
  | owner howner => exact .single howner
  | next _ _ howner ih => exact ih.tail howner

/-- A key that is requested is one of the first ESI's when that owns it. -/
theorem matchesFirst_iff (hproper : Proper tables) (hlisted : Listed tables firstEsi) :
    esiRequestsMatchesFirst tables firstEsi esiId = true ↔ OwnedBy tables esiId firstEsi := by
  rw [esiRequestsMatchesFirst, OwnedBy, obtainRequestOwner]
  cases obtainEsiRequest tables esiId with
  | none => exact iff_of_false Bool.false_ne_true fun howner => by cases howner
  | some request =>
      rw [Option.bind_some, obtainKeyOwner, List.any_eq_true]
      constructor
      · rintro ⟨blocker, hblocker, hmatch⟩
        obtain ⟨rfl, hkey⟩ : blocker.esiId = firstEsi ∧ request.key = blocker.key := by
          simpa using hmatch
        have hsome : (tables.lockedKeys.find? fun other => other.key = request.key).isSome :=
          List.find?_isSome.mpr ⟨blocker, hblocker, by simp [hkey]⟩
        obtain ⟨found, hfound⟩ := Option.isSome_iff_exists.mp hsome
        have hsame : found.key = request.key := by simpa using List.find?_some hfound
        rw [hfound, Option.map_some, hproper.owners blocker hblocker hlisted found
          (List.mem_of_find?_eq_some hfound) (hsame.trans hkey)]
      · intro howner
        obtain ⟨found, hfound, rfl⟩ := Option.map_eq_some_iff.mp howner
        have hsame : found.key = request.key := by simpa using List.find?_some hfound
        exact ⟨found, List.mem_of_find?_eq_some hfound, by simp [hsame]⟩

/-- From an ESI that is reached, with a place to stop ahead, the walk stops. -/
theorem walkEnds_of_ahead (hvisits : Visits tables firstEsi esiId)
    (hahead : ReflTransGen (OwnedBy tables) esiId last)
    (hstops : goesOn tables firstEsi last = false) : WalkEnds tables firstEsi := by
  induction hahead using ReflTransGen.head_induction_on with
  | refl => exact ⟨last, hvisits, hstops⟩
  | @head current next hstep _ ih =>
      by_cases hgoes : goesOn tables firstEsi current = true
      · exact ih (hvisits.next hgoes hstep)
      · exact ⟨current, hvisits, Bool.eq_false_of_not_eq_true hgoes⟩

/-- What the chain comes to, the walk comes to. -/
theorem eq_or_visits_of_reach (hproper : Proper tables) (hlisted : Listed tables firstEsi)
    (hreach : ReflTransGen (OwnedBy tables) firstEsi esiId) :
    esiId = firstEsi ∨ Visits tables firstEsi esiId := by
  induction hreach with
  | refl => exact .inl rfl
  | @tail current next _ hstep ih =>
      rcases ih with rfl | hvisits
      · exact .inr (.owner hstep)
      · by_cases hmatch : esiRequestsMatchesFirst tables firstEsi current = true
        · have hclose := (matchesFirst_iff hproper hlisted).mp hmatch
          exact .inl (ownedBy_rightUnique hstep hclose)
        · have hgoes : goesOn tables firstEsi current = true := by
            rw [goesOn, asks_of_ownedBy hstep]
            simpa using hmatch
          exact .inr (hvisits.next hgoes hstep)

/-- A chain whose walk stops settles. -/
theorem WalkEnds.settles (hproper : Proper tables) (hlisted : Listed tables firstEsi)
    (hends : WalkEnds tables firstEsi) : Settles (OwnedBy tables) firstEsi := by
  obtain ⟨last, hlast, hstops⟩ := hends
  rw [goesOn, Bool.and_eq_false_iff, Bool.not_eq_false'] at hstops
  rcases hstops with hnone | hmatch
  · refine .inr ⟨last, hlast.reach, fun owner howner => ?_⟩
    rw [asks_of_ownedBy howner] at hnone
    cases hnone
  · exact .inl (TransGen.tail' hlast.reach ((matchesFirst_iff hproper hlisted).mp hmatch))

/-- The walk along a chain that settles stops. -/
theorem Walkable.walkEnds (hproper : Proper tables) (hlisted : Listed tables firstEsi)
    (hwalkable : Walkable tables firstEsi) (hsettles : Settles (OwnedBy tables) firstEsi) :
    WalkEnds tables firstEsi := by
  obtain ⟨second, hsecond⟩ := hwalkable.starts
  rcases hsettles with hcycle | hends
  · obtain ⟨last, hlast, hclose⟩ := hcycle.exists_last ownedBy_rightUnique hsecond
    have hmatch := (matchesFirst_iff hproper hlisted).mpr hclose
    exact walkEnds_of_ahead (.owner hsecond) hlast (by simp [goesOn, hmatch])
  · obtain ⟨last, hlast, hnone⟩ := hends.of_reach ownedBy_rightUnique (.single hsecond)
    by_contra hnot
    have hgoes : goesOn tables firstEsi last = true := Bool.eq_true_of_not_eq_false fun hstops =>
      hnot (walkEnds_of_ahead (.owner hsecond) hlast hstops)
    rcases eq_or_visits_of_reach hproper hlisted (.head hsecond hlast) with rfl | hvisits
    · exact hnone second hsecond
    · obtain ⟨owner, howner⟩ := hwalkable.locked last hvisits hgoes
      exact hnone owner howner

/-- What a walk that stops and lacks nothing says about the chain. -/
theorem Walkable.sane (hproper : Proper tables) (hlisted : Listed tables firstEsi)
    (hwalkable : Walkable tables firstEsi) (hends : WalkEnds tables firstEsi) :
    Sane tables firstEsi := by
  refine ⟨hends.settles hproper hlisted, fun other hreach => ?_, fun other hreach hasks => ?_⟩
  · rcases eq_or_visits_of_reach hproper hlisted hreach with rfl | hvisits
    · exact hlisted
    · exact hwalkable.listed hends other hvisits
  · rcases eq_or_visits_of_reach hproper hlisted hreach with rfl | hvisits
    · exact hwalkable.starts
    · by_cases hmatch : esiRequestsMatchesFirst tables firstEsi other = true
      · exact ⟨firstEsi, (matchesFirst_iff hproper hlisted).mp hmatch⟩
      · exact hwalkable.locked other hvisits (by rw [goesOn, hasks]; simpa using hmatch)

theorem Sane.walkable (hsane : Sane tables firstEsi)
    (hasks : esiAsksForAKey tables firstEsi = true) : Walkable tables firstEsi where
  starts := hsane.locked firstEsi .refl hasks
  locked other hvisits hgoes := hsane.locked other hvisits.reach ((Bool.and_eq_true _ _).mp hgoes).1
  listed _ other hvisits := hsane.listed other hvisits.reach

/-- **A walk lacks nothing exactly when the chain of owners is sane, or does not settle.** -/
theorem walkable_iff (hproper : Proper tables) (hlisted : Listed tables firstEsi)
    (hasks : esiAsksForAKey tables firstEsi = true) :
    Walkable tables firstEsi ↔ (Settles (OwnedBy tables) firstEsi → Sane tables firstEsi) := by
  constructor
  · intro hwalkable hsettles
    exact hwalkable.sane hproper hlisted (hwalkable.walkEnds hproper hlisted hsettles)
  · intro hsane
    by_cases hsettles : Settles (OwnedBy tables) firstEsi
    · exact (hsane hsettles).walkable hasks
    · have hnext : ∀ other, ReflTransGen (OwnedBy tables) firstEsi other →
          ∃ owner, OwnedBy tables other owner := fun other hreach => by
        by_contra hnone
        exact hsettles (.inr ⟨other, hreach, not_exists.mp hnone⟩)
      exact ⟨hnext firstEsi .refl, fun other hvisits _ => hnext other hvisits.reach,
        fun hends => absurd (hends.settles hproper hlisted) hsettles⟩

/-! ## The order of the walks -/

/-- An ESI from which a walk may be started, and that was analyzed, has a sane chain. -/
def Analyzed (tables : WaitTables config) (current : Classification) : Prop :=
  ∀ esi ∈ current.allEsisInSystem, esiNotAnalized esi = false → Suspect tables esi.esiId →
    Sane tables esi.esiId

theorem analyzed_initialStates (tables : WaitTables config) :
    Analyzed tables ⟨initialStates tables, 0⟩ := by
  intro esi hmem hclosed hsuspect
  obtain ⟨information, -, rfl⟩ := List.mem_map.mp hmem
  simp [esiNotAnalized, hsuspect.1] at hclosed

theorem Analyzed.analyze (hproper : Proper tables) (hrecorded : Recorded tables current)
    (hanalyzed : Analyzed tables current)
    (hfind : current.allEsisInSystem.find? esiNotAnalized = some esi)
    (hturn : Planificador.analyze tables fuel current esi = .ok next) :
    Analyzed tables next := by
  have hmem := List.mem_of_find?_eq_some hfind
  obtain ⟨state, -, hassigned⟩ := assigned_analyze hfind hturn
  intro other hother hclosed hsuspect
  obtain ⟨old, hold, hid, rfl | ⟨-, htouched⟩⟩ := hassigned.mem hother
  · exact hanalyzed other hold hclosed hsuspect
  · cases hasks : esiAsksForAKey tables esi.esiId with
    | false =>
        rw [Touched, if_neg (by simp [hasks])] at htouched
        rw [htouched, Suspect, hasks] at hsuspect
        cases hsuspect.2
    | true =>
        obtain ⟨hwalk, hvisited⟩ := hrecorded.of_analyze hasks hturn
        have hsane := hwalk.1.sane hproper (hrecorded.listed hmem) hwalk.2
        rcases hvisited _ htouched with heq | hvisits
        · rwa [heq]
        · exact hsane.of_reach hvisits.reach

/-- The ESIs before the first one that was not analyzed. -/
theorem Recorded.exists_split (hrecorded : Recorded tables current)
    (hfind : current.allEsisInSystem.find? esiNotAnalized = some esi) :
    ∃ before information after, tables.esisInSystem = before ++ information :: after ∧
      information.esiId = esi.esiId ∧
      ∀ earlier ∈ before, ∃ other ∈ current.allEsisInSystem,
        other.esiId = earlier.esiId ∧ esiNotAnalized other = false := by
  obtain ⟨-, first, rest, hsplit, hclosed⟩ := List.find?_eq_some_iff_append.mp hfind
  have hids := hrecorded.ids
  rw [hsplit, List.map_append, List.map_cons] at hids
  obtain ⟨before, later, hesis, hbefore, hlater⟩ := List.map_eq_append_iff.mp hids.symm
  obtain ⟨information, after, rfl, hid, -⟩ := List.map_eq_cons_iff.mp hlater
  refine ⟨before, information, after, hesis, hid, fun earlier hearlier => ?_⟩
  have hlisted : earlier.esiId ∈ first.map EsiInDeadlock.esiId :=
    hbefore ▸ List.mem_map_of_mem hearlier
  obtain ⟨other, hother, hsame⟩ := List.mem_map.mp hlisted
  refine ⟨other, hsplit ▸ List.mem_append_left _ hother, hsame, ?_⟩
  simpa using hclosed other hother

/-- The chain of an ESI that holds a key and asks for one is sane when it settles, unless the
chain of such an ESI before it does not settle. -/
def OrderlyChains (tables : WaitTables config) : Prop :=
  ∀ before information after, tables.esisInSystem = before ++ information :: after →
    Suspect tables information.esiId →
      (∀ earlier ∈ before, Suspect tables earlier.esiId →
        Settles (OwnedBy tables) earlier.esiId) →
        Settles (OwnedBy tables) information.esiId → Sane tables information.esiId

theorem Analyzed.survives_analyzeAll (hproper : Proper tables) (horderly : OrderlyChains tables)
    (hrecorded : Recorded tables current) (hanalyzed : Analyzed tables current) (fuel : ℕ) :
    Survives (Planificador.analyzeAll tables fuel current) := by
  induction fuel generalizing current with
  | zero => exact survives_spent
  | succ fuel ih =>
      rw [Planificador.analyzeAll]
      split
      · exact survives_ok current
      · rename_i esi hfind
        have hmem := List.mem_of_find?_eq_some hfind
        refine survives_bind_iff.mpr ⟨?_, fun next hnext =>
          ih (hrecorded.analyze hfind hnext) (hanalyzed.analyze hproper hrecorded hfind hnext)⟩
        cases hasks : esiAsksForAKey tables esi.esiId with
        | false => exact survives_analyze_of_not_asking hfind hasks fuel
        | true =>
            have hholds := hrecorded.holding esi hmem (List.find?_some hfind)
            obtain ⟨before, information, after, hsplit, hid, hclosed⟩ :=
              hrecorded.exists_split hfind
            refine hrecorded.survives_of_walkable hmem hasks
              ((walkable_iff hproper (hrecorded.listed hmem) hasks).mpr ?_) fuel
            rw [← hid] at hholds hasks ⊢
            refine horderly before information after hsplit ⟨hholds, hasks⟩
              fun earlier hearlier hsuspect => ?_
            obtain ⟨other, hother, hsame, hdone⟩ := hclosed earlier hearlier
            rw [← hsame] at hsuspect ⊢
            exact (hanalyzed other hother hdone hsuspect).settles

/-- A turn gives its ESI a state. -/
theorem exists_done_of_analyze (hfind : current.allEsisInSystem.find? esiNotAnalized = some esi)
    (hturn : analyze tables fuel current esi = .ok next) :
    ∃ state, 0 ≤ state ∧ ⟨esi.esiId, state⟩ ∈ next.allEsisInSystem := by
  cases hasks : esiAsksForAKey tables esi.esiId with
  | false =>
      rw [analyze, if_pos (by simp [hasks]), dereference_eq_ok_iff] at hturn
      obtain ⟨esis, hassign, rfl⟩ := Option.map_eq_some_iff.mp hturn
      obtain ⟨index, first, -, hfirst, hdone⟩ := assignFirst_done hassign
      obtain rfl := Option.some.inj (hfind.symm.trans hfirst)
      exact ⟨0, le_rfl, List.mem_of_getElem? hdone⟩
  | true =>
      rw [analyze_of_asking hasks] at hturn
      obtain ⟨owner, howner, hturn⟩ := bind_eq_ok_iff.mp hturn
      obtain ⟨walk, hwalk, hconclude⟩ := bind_eq_ok_iff.mp hturn
      rw [dereference_eq_ok_iff] at howner hconclude
      obtain ⟨state, hstate, happly⟩ := of_concludeWalk hconclude
      obtain ⟨htrail, -⟩ := readOwners_spec (.start howner) hwalk
      exact ⟨state, hstate, applyState_done happly htrail.first_mem⟩

theorem Recorded.eq_of_esiId (hproper : Proper tables) (hrecorded : Recorded tables current)
    {other : EsiInDeadlock} (hmem : esi ∈ current.allEsisInSystem)
    (hother : other ∈ current.allEsisInSystem) (hsame : esi.esiId = other.esiId) : esi = other :=
  List.inj_on_of_nodup_map (hrecorded.ids ▸ hproper.once) hmem hother hsame

/-- A turn leaves fewer ESIs to analyze. -/
theorem Recorded.openEsis_lt (hproper : Proper tables) (hrecorded : Recorded tables current)
    (hfind : current.allEsisInSystem.find? esiNotAnalized = some esi)
    (hturn : Planificador.analyze tables fuel current esi = .ok next) :
    openEsis next < openEsis current := by
  obtain ⟨state, hstate, hassigned⟩ := assigned_analyze hfind hturn
  obtain ⟨final, hfinal, hdone⟩ := exists_done_of_analyze hfind hturn
  have hnext := hrecorded.analyze hfind hturn
  obtain ⟨index, hindex⟩ := List.mem_iff_getElem?.mp (List.mem_of_find?_eq_some hfind)
  have hopen := List.find?_some hfind
  refine Planificador.openEsis_lt hassigned (by omega) hindex hopen ?_
  refine ((hassigned.kept index esi hindex).resolve_left fun hkept => ?_).1
  have hsame := hnext.eq_of_esiId hproper (List.mem_of_getElem? hkept) hdone rfl
  have hstill : esi.esiState = -1 := of_decide_eq_true hopen
  rw [hsame] at hstill
  exact absurd hstill (by show final ≠ -1; omega)

/-- Of two ESIs of the list, the first of which is the first that was not analyzed. -/
theorem mem_of_splits {α : Type} {list before after before' after' : List α} {a a' : α}
    (hsplit : list = before ++ a :: after) (hsplit' : list = before' ++ a' :: after')
    (hnot : a ∉ before') : a' = a ∨ a' ∈ before := by
  rcases List.append_eq_append_iff.mp (hsplit.symm.trans hsplit') with
    ⟨between, rfl, hrest⟩ | ⟨between, rfl, hrest⟩
  · cases between with
    | nil => exact .inl (List.cons.inj hrest).1.symm
    | cons head tail =>
        rw [(List.cons.inj hrest).1] at hnot
        exact absurd (List.mem_append_right _ List.mem_cons_self) hnot
  · cases between with
    | nil => exact .inl (List.cons.inj hrest).1
    | cons head tail =>
        rw [(List.cons.inj hrest).1]
        exact .inr (List.mem_append_right _ List.mem_cons_self)

/-- A search that does not crash comes to an ESI before which every chain settles, and the
walk from it lacks nothing. -/
theorem Analyzed.walkable_of_survives (hproper : Proper tables)
    {before after : List (EsiInformation config)} {information : EsiInformation config}
    (hsplit : tables.esisInSystem = before ++ information :: after)
    (hsuspect : Suspect tables information.esiId)
    (hsettles : ∀ earlier ∈ before, Suspect tables earlier.esiId →
      Settles (OwnedBy tables) earlier.esiId)
    (hrecorded : Recorded tables current) (hanalyzed : Analyzed tables current) (enough : ℕ)
    (hsurvives : ∀ fuel, enough ≤ fuel → Survives (Planificador.analyzeAll tables fuel current)) :
    Walkable tables information.esiId := by
  induction hopen : openEsis current using Nat.strong_induction_on generalizing current enough with
  | h count ih =>
      have hlisted : information.esiId ∈ current.allEsisInSystem.map EsiInDeadlock.esiId := by
        rw [hrecorded.ids, hsplit]
        exact List.mem_map_of_mem (List.mem_append_right _ List.mem_cons_self)
      obtain ⟨own, hown, hid⟩ := List.mem_map.mp hlisted
      cases hclosed : esiNotAnalized own with
      | false =>
          -- an earlier walk came to the ESI
          rw [← hid] at hsuspect ⊢
          exact (hanalyzed own hown hclosed hsuspect).walkable hsuspect.2
      | true =>
          obtain ⟨esi, hfind⟩ := Option.isSome_iff_exists.mp
            (List.find?_isSome.mpr ⟨own, hown, hclosed⟩)
          have hmem := List.mem_of_find?_eq_some hfind
          have hturn : ∀ fuel, enough ≤ fuel →
              Survives (Planificador.analyze tables fuel current esi) ∧
                ∀ next, Planificador.analyze tables fuel current esi = .ok next →
                  Survives (Planificador.analyzeAll tables fuel next) := fun fuel hfuel => by
            have hagain := hsurvives (fuel + 1) (by omega)
            rw [Planificador.analyzeAll, hfind] at hagain
            exact survives_bind_iff.mp hagain
          have hwalkable : esiAsksForAKey tables esi.esiId = true → Walkable tables esi.esiId :=
            fun hasks => hrecorded.walkable_of_survives hasks enough fun fuel hfuel =>
              (hturn fuel hfuel).1
          obtain ⟨before', information', after', hsplit', hid', hdone⟩ :=
            hrecorded.exists_split hfind
          have hnot : information ∉ before' := fun hearlier => by
            obtain ⟨other, hother, hsame, hfalse⟩ := hdone information hearlier
            rw [hrecorded.eq_of_esiId hproper hother hown (hsame.trans hid.symm), hclosed] at hfalse
            cases hfalse
          rcases mem_of_splits hsplit hsplit' hnot with rfl | hearlier
          · rw [hid'] at hsuspect ⊢
            exact hwalkable hsuspect.2
          · -- the walk of an earlier ESI is concluded, and the search goes on
            obtain ⟨more, next, hnext⟩ : ∃ more next, ∀ fuel, more ≤ fuel →
                Planificador.analyze tables fuel current esi = .ok next := by
              cases hasks : esiAsksForAKey tables esi.esiId with
              | false =>
                  have hread := survives_analyze_of_not_asking hfind hasks
                  simp only [Planificador.analyze, hasks, Bool.not_false, if_true,
                    survives_dereference_iff] at hread ⊢
                  obtain ⟨next, hnext⟩ := hread 0
                  exact ⟨0, next, fun fuel _ => dereference_eq_ok_iff.mpr hnext⟩
              | true =>
                  refine hrecorded.exists_analyze hmem hasks (hwalkable hasks)
                    ((hwalkable hasks).walkEnds hproper (hrecorded.listed hmem) ?_)
                  have hholds := hrecorded.holding esi hmem (List.find?_some hfind)
                  rw [← hid'] at hholds hasks ⊢
                  exact hsettles information' hearlier ⟨hholds, hasks⟩
            have hfirst := hnext (max more enough) (le_max_left _ _)
            refine ih (openEsis next) (hopen ▸ hrecorded.openEsis_lt hproper hfind hfirst)
              (hrecorded.analyze hfind hfirst)
              (hanalyzed.analyze hproper hrecorded hfind hfirst) (max more enough)
              (fun fuel hfuel => ?_) rfl
            exact (hturn fuel (le_trans (le_max_right _ _) hfuel)).2 next
              (hnext fuel (le_trans (le_max_left _ _) hfuel))

/-- **The search of a proper list crashes exactly in the walk along a chain that settles and
is not sane**, when it comes to such a walk. -/
theorem neverCrashes_iff (hproper : Proper tables) :
    NeverCrashes tables ↔ OrderlyChains tables := by
  rw [neverCrashes_iff_analyzeAll]
  constructor
  · intro hsurvives before information after hsplit hsuspect hsettles
    have hlisted : Listed tables information.esiId := by
      rw [Listed, hsplit]
      exact List.mem_map_of_mem (List.mem_append_right _ List.mem_cons_self)
    exact (walkable_iff hproper hlisted hsuspect.2).mp
      ((analyzed_initialStates tables).walkable_of_survives hproper hsplit hsuspect hsettles
        (recorded_initialStates tables) 0 fun fuel _ => hsurvives fuel)
  · exact fun horderly => (analyzed_initialStates tables).survives_analyzeAll hproper horderly
      (recorded_initialStates tables)

/-! ## The result -/

/-- The lists with which the console calls the search. -/
def PlanificadorState.waitTables (state : PlanificadorState config) : WaitTables config :=
  ⟨state.gLockedKeys, state.gEsisSexpectingKeys, state.gEsiBursts⟩

theorem Sound.proper {state : PlanificadorState config} (hsound : Sound state) :
    Proper state.waitTables where
  once := hsound.nodup_ids
  owners blocker hblocker hlisted other hother hkey := by
    have hreal : blocker.esiId ≠ -1 := fun heq =>
      hsound.not_mem_ids (heq ▸ (show blocker.esiId ∈ state.ids from hlisted))
    have honly := hsound.filter_key hblocker hreal
    have hin : other ∈ state.gLockedKeys.filter fun node => node.key = blocker.key :=
      List.mem_filter.mpr ⟨hother, decide_eq_true hkey⟩
    rw [honly] at hin
    rw [List.mem_singleton.mp hin]

/-- **The deadlock command** finds everything that it reads when no walk along the owners lacks
anything. When every ESI is registered once and the keys of an ESI have no other owner, as
after every run of orderly events that block free keys, it does so exactly when the chains
of owners that it comes to are sane. -/
theorem neverCrashes_of_runs (finish : PlanificadorState config) :
    (EveryWalkable finish.waitTables → NeverCrashes finish.waitTables) ∧
      (Proper finish.waitTables →
        (NeverCrashes finish.waitTables ↔ OrderlyChains finish.waitTables)) ∧
      ∀ events, (mainStep config).Runs (fun state event => soundEvent state event = true)
        (PlanificadorState.init config) events finish → Proper finish.waitTables :=
  ⟨neverCrashes_of_everyWalkable, neverCrashes_iff, fun _ hrun => (sound_of_runs hrun).proper⟩

/-- ESIs that wait for each other are found by the search. -/
theorem sane_of_pair {first second : ℤ} (hfirst : Listed tables first)
    (hsecond : Listed tables second) (hthere : OwnedBy tables first second)
    (hback : OwnedBy tables second first) : Sane tables first := by
  have hpair : ∀ other, ReflTransGen (OwnedBy tables) first other →
      other = first ∨ other = second := by
    intro other hreach
    induction hreach with
    | refl => exact .inl rfl
    | tail _ hstep ih =>
        rcases ih with rfl | rfl
        · exact .inr (ownedBy_rightUnique hstep hthere)
        · exact .inl (ownedBy_rightUnique hstep hback)
  refine ⟨.inl (.head hthere (.single hback)), fun other hreach => ?_, fun other hreach _ => ?_⟩
  · rcases hpair other hreach with rfl | rfl
    · exact hfirst
    · exact hsecond
  · rcases hpair other hreach with rfl | rfl
    · exact ⟨second, hthere⟩
    · exact ⟨first, hback⟩

/-- Each of two ESIs waits for a key of the other. -/
def waitForEachOther : List Event :=
  [.newClient 10 true, .newClient 11 true, .console (.bloquear keyJ 2), .endOfTurn [],
    .coordinator (.isThisKeyBlocked keyK), .coordinator .blockKey,
    .executingEsi (.code .executionSuccess) (.code .didntFinishScript) [] [],
    .coordinator (.isThisKeyBlocked keyJ), .coordinator .isKeyBlockedByExecutingEsi,
    .executingEsi (.code .iAmBlocked) (.code .other) [] [],
    .coordinator (.isThisKeyBlocked keyK), .coordinator .isKeyBlockedByExecutingEsi,
    .executingEsi (.code .iAmBlocked) (.code .other) [] []]

/-- The deadlock command does not crash on them. -/
theorem neverCrashes_waitForEachOther :
    ∃ finish : PlanificadorState (smallConfig .fifo), finish.gBlockedQueue = [10, 11] ∧
      NeverCrashes finish.waitTables := by
  obtain ⟨finish, hrun, hcheck⟩ := PartialStep.exists_run_of_execute
    ((mainStep (smallConfig .fifo)).guarded soundEvent) (PlanificadorState.init _) waitForEachOther
    (fun state => decide (state.gBlockedQueue = [10, 11] ∧ state.ids = [10, 11] ∧
      obtainRequestOwner state.waitTables 10 = some 11 ∧
      obtainRequestOwner state.waitTables 11 = some 10)) (by decide +kernel)
  obtain ⟨hblocked, hids, hten, heleven⟩ := of_decide_eq_true hcheck
  have hlisted : ∀ fd : ℤ, fd ∈ [10, 11] → Listed finish.waitTables fd := fun fd hmem =>
    show fd ∈ finish.ids from hids ▸ hmem
  have hfirst := hlisted 10 List.mem_cons_self
  have hsecond := hlisted 11 (List.mem_cons_of_mem _ List.mem_cons_self)
  have hproper := (neverCrashes_of_runs finish).2.2 _ (PartialStep.runs_of_guarded hrun)
  refine ⟨finish, hblocked, ((neverCrashes_of_runs finish).2.1 hproper).mpr ?_⟩
  intro before information after hsplit _ _ _
  have hmem : information.esiId ∈ finish.ids := by
    show information.esiId ∈ finish.waitTables.esisInSystem.map EsiInformation.esiId
    rw [hsplit]
    exact List.mem_map_of_mem (List.mem_append_right _ List.mem_cons_self)
  rw [hids] at hmem
  rcases List.mem_pair.mp hmem with heq | heq
  · exact heq ▸ sane_of_pair hfirst hsecond hten heleven
  · exact heq ▸ sane_of_pair hsecond hfirst heleven hten

/-- A scheduler with a key that is blocked by the configuration. -/
def blockedConfig : Config := { smallConfig .fifo with blockedKeys := [keyK] }

/-- An ESI with a key of its own waits for the configured key, whose owner has no record. -/
theorem not_neverCrashes_blockedConfig :
    ¬ ∀ (config : Config) (finish : PlanificadorState config) (events : List Event),
      (mainStep config).FreeRuns (PlanificadorState.init config) events finish →
        NeverCrashes finish.waitTables := by
  intro hclaim
  obtain ⟨finish, hrun, hcheck⟩ := PartialStep.exists_run_of_execute
    (mainStep blockedConfig) (PlanificadorState.init _)
    [.newClient 10 true, .endOfTurn [],
      .coordinator (.isThisKeyBlocked keyJ), .coordinator .blockKey,
      .executingEsi (.code .executionSuccess) (.code .didntFinishScript) [] [],
      .coordinator (.isThisKeyBlocked keyK), .coordinator .isKeyBlockedByExecutingEsi,
      .executingEsi (.code .iAmBlocked) (.code .other) [] []]
    (fun state => !decide (Survives (detectAndShow state.waitTables 5))) (by decide +kernel)
  have hcrash := of_decide_eq_false (by simpa using hcheck)
  exact hcrash (hclaim _ finish _ hrun 5)

end SockMyPort.Planificador
