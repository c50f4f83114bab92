/-
# The memory of an instance, whatever is in its files

What a process has in memory depends on its files only through the values that it recovers.
Nothing about the dumper is assumed here, except that no key is recovered twice and no value
that is recovered is empty.
-/

import SockMyPort.Instancia.Lifetimes

namespace SockMyPort.Instancia

open SockMyPort.Commons Library

variable {config : Config} {process next : InstanceProcess}

/-! ## Processes that work -/

variable (config) in
/-- A process whose contents are those of some store. -/
structure Working (process : InstanceProcess) : Prop where
  inv : InstanceInvariant config process.filed.state
  remembered : ∃ store : InstanceStore, Remembers config process.filed.state store
  fits : FitsPhase config process.filed.state process.filed.phase

/-- What is recovered are values of distinct keys, and none is empty. -/
def recoversValues (process : InstanceProcess) : LifeEvent → Bool
  | .thread (.recover keys) =>
      let keyValues := (dumperRecover process.filed.state.dumper keys).2
      decide (keyValues.map KeyValue.key).Nodup &&
        keyValues.all fun keyValue => keyValue.value ≠ []
  | _ => true

/-- A value is found by its key. -/
theorem find?_of_mem {keyValues : List KeyValue} (hkeys : (keyValues.map KeyValue.key).Nodup)
    {keyValue : KeyValue} (hmem : keyValue ∈ keyValues) :
    (keyValues.find? fun other => other.key = keyValue.key) = some keyValue := by
  induction keyValues with
  | nil => cases hmem
  | cons first keyValues ih =>
      obtain ⟨hfirst, hrest⟩ := List.nodup_cons.mp hkeys
      obtain rfl | hmem := List.mem_cons.mp hmem
      · exact List.find?_cons_of_pos (by simp)
      · have hne : first.key ≠ keyValue.key := fun hsame =>
          hfirst (hsame ▸ List.mem_map_of_mem hmem)
        rw [List.find?_cons_of_neg (by simpa using hne)]
        exact ih hrest hmem

namespace Working

theorem newProcess (left : Dumper) (operations : List Operation) :
    Working config (newProcess config left operations) where
  inv := (instanceInit_invariant left.mountPoint).congr rfl rfl rfl rfl
  remembered := ⟨WriteBack.empty, fun _ => rfl⟩
  fits := fitsPhase_init _

theorem firstProcess (mountPoint : CString) : Working config (firstProcess config mountPoint) where
  inv := (instanceInit_invariant mountPoint).congr rfl rfl rfl rfl
  remembered := ⟨WriteBack.empty, fun _ => rfl⟩
  fits := fitsPhase_init _

/-- A recovery. The values that it finds are as good as those of any disk. -/
theorem recover (h : Working config process) (hphase : process.filed.phase = .starting)
    {keys : List CString}
    (hrecovers : recoversValues process (.thread (.recover keys)) = true) :
    Working config { start := process.start
                     filed := process.filed.after (recoverTurn config process.filed.state keys)
                     operations := process.operations ++
                       lifeOperations config process (.thread (.recover keys)) } := by
  obtain ⟨hkeys, hvalues⟩ := (Bool.and_eq_true _ _).mp hrecovers
  have hfits := h.fits
  rw [hphase] at hfits
  let found : InstanceStore :=
    { memory := fun _ => none
      disk := fun key =>
        ((dumperRecover process.filed.state.dumper keys).2.find? fun keyValue =>
          keyValue.key = key).map fun keyValue => bytesOf keyValue.value }
  have hfound : Remembers config process.filed.state found := fun key => hfits.1 key
  obtain ⟨hnext, hremembers, -⟩ := recoverTurn_remembers h.inv hfound hfits
    (of_decide_eq_true hkeys) fun keyValue hmem => by
      refine ⟨of_decide_eq_true (List.all_eq_true.mp hvalues keyValue hmem), ?_⟩
      show (Option.map _ (List.find? _ _)).map _ = _
      rw [find?_of_mem (of_decide_eq_true hkeys) hmem, Option.map_some, Option.map_some,
        messengerBytesToString_bytesOf]
  exact ⟨hnext, ⟨_, hremembers⟩, trivial⟩

/-- A turn that is not the recovery. -/
theorem turnMeans (h : Working config process) {store : InstanceStore}
    (hmemory : Remembers config process.filed.state store) {event : ThreadEvent}
    {turn : Turn process.filed.state}
    (hturn : takeTurn config process.filed event = some turn)
    (hrecover : ∀ keys, event = .recover keys → process.filed.phase ≠ .starting) :
    TurnMeans config turn store (turnOperations config process.filed event) :=
  turnMeans_takeTurn h.inv hmemory h.fits hturn fun keys hevent hphase =>
    absurd hphase (hrecover keys hevent)

/-- **The step lemma.** -/
theorem step (h : Working config process) {event : LifeEvent}
    (hrecovers : recoversValues process event = true)
    (hstep : lifeStep config process event = some next) : Working config next := by
  cases event with
  | restart =>
      obtain rfl := Option.some.inj hstep
      exact .newProcess _ _
  | restartDuring event calls cut =>
      obtain ⟨turn, -, rfl⟩ := Option.map_eq_some_iff.mp hstep
      exact .newProcess _ _
  | thread event =>
      obtain ⟨turn, hturn, rfl⟩ := Option.map_eq_some_iff.mp hstep
      by_cases hrecover : ∃ keys, event = .recover keys ∧ process.filed.phase = .starting
      · obtain ⟨keys, rfl, hphase⟩ := hrecover
        simp only [takeTurn, hphase] at hturn
        obtain rfl := Option.some.inj hturn
        exact h.recover hphase hrecovers
      · obtain ⟨store, hmemory⟩ := h.remembered
        obtain ⟨hinv, hremembers, -, -, hfits⟩ := h.turnMeans hmemory hturn
          fun keys hevent hphase => hrecover ⟨keys, hevent, hphase⟩
        exact ⟨hinv, ⟨_, hremembers⟩, hfits⟩

end Working

end SockMyPort.Instancia
