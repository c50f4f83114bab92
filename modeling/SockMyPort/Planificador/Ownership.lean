/-
# The owners of locked keys

Keys are added by `add_new_key_blocker`, which looks at nothing, and by the console,
which looks whether the key is locked. As long as the first adds a free key for a
registered ESI, a key that is owned by an ESI has one node, and its owner is
registered.
-/

import SockMyPort.Planificador.Operations
import SockMyPort.Library.Ownership

namespace SockMyPort.Planificador

open SockMyPort.Commons Library

variable {config : Config} {state next : PlanificadorState config}

/-- The keys that are locked. -/
def PlanificadorState.keys (state : PlanificadorState config) : List CString :=
  state.gLockedKeys.map KeyBlocker.key

/-- `add_new_key_blocker` adds a free key for a registered ESI. -/
def BlocksFree (state : PlanificadorState config) : Event → Prop
  | .coordinator .blockKey =>
      ∀ key ∈ state.lastKeyInquired, ∀ executing ∈ state.gExecutionQueue.head?,
        key ∉ state.gLockedKeys.map KeyBlocker.key ∧ executing ∈ state.ids
  | _ => True

theorem holdsFree_of_settles {dispatcher : Dispatcher CString ℤ} {operation : KeyOperation}
    (hsettles : settles operation = true) : dispatcher.HoldsFree operation := by
  cases operation with
  | hold key holder => cases hsettles
  | _ => trivial

theorem holdsFree_receiveOperations {dispatcher : Dispatcher CString ℤ}
    {result scriptEnd : Received}
    {operation : KeyOperation} (hmem : operation ∈ receiveOperations state result scriptEnd) :
    dispatcher.HoldsFree operation := by
  have hloss : ∀ {fd : ℤ} {received : Received}, operation ∈ lossOperations fd received →
      dispatcher.HoldsFree operation := fun {fd received} hmem => by
    cases received with
    | code => cases hmem
    | failure =>
        obtain rfl := List.mem_singleton.mp hmem
        trivial
  rcases List.mem_cons.mp hmem with rfl | hmem
  · trivial
  rcases List.mem_append.mp hmem with hmem | hmem
  · exact hloss hmem
  cases hresult : result.result with
  | executionSuccess =>
      rw [hresult] at hmem
      exact hloss hmem
  | iAmBlocked =>
      rw [hresult] at hmem
      obtain ⟨key, -, rfl⟩ := List.mem_map.mp hmem
      trivial
  | iBrokeTheLaw =>
      rw [hresult] at hmem
      obtain rfl := List.mem_singleton.mp hmem
      trivial
  | finishedScript | didntFinishScript | other =>
      rw [hresult] at hmem
      cases hmem

/-- The operations of an event hold free keys, when the event blocks a free key. -/
theorem holdsFree_operations {event : Event} (hblocks : BlocksFree state event) :
    ∀ operation ∈ operations state event, ∀ dispatcher : Dispatcher CString ℤ,
      dispatcher = state.dispatcher ∨ event ≠ .coordinator .blockKey →
        dispatcher.HoldsFree operation := by
  intro operation hmem dispatcher hsame
  cases event with
  | newClient newClientFd handshake =>
      obtain rfl := List.mem_singleton.mp hmem
      trivial
  | coordinator message =>
      cases message with
      | blockKey =>
          obtain rfl := hsame.resolve_right (not_not.mpr rfl)
          simp only [operations] at hmem
          split at hmem
          · rename_i key executing rest hkey hexecuting
            obtain rfl := List.mem_singleton.mp hmem
            obtain ⟨hfree, hknown⟩ := hblocks key hkey executing (by rw [hexecuting]; rfl)
            exact ⟨keys_dispatcher state ▸ hfree, Multiset.mem_coe.mpr hknown⟩
          · cases hmem
      | isThisKeyBlocked | isKeyBlockedByExecutingEsi | unlockKey | keyStatus => cases hmem
  | executingEsi result scriptEnd meanwhile unreachable =>
      obtain ⟨rest, hrest, hsettles⟩ :=
        exists_settles_executingEsiOperations state result scriptEnd meanwhile unreachable
      rw [operations, hrest] at hmem
      rcases List.mem_append.mp hmem with hmem | hmem
      · exact holdsFree_receiveOperations hmem
      · exact holdsFree_of_settles (List.all_eq_true.mp hsettles operation hmem)
  | endOfTurn unreachable =>
      exact holdsFree_of_settles
        (List.all_eq_true.mp (settles_endOfTurnOperations state unreachable) operation hmem)
  | console command => cases hmem

/-- What operations that hold free keys keep, their execution keeps. -/
theorem keep_of_holdsFree {inv : Dispatcher CString ℤ → Prop}
    (keep : ∀ {dispatcher after : Dispatcher CString ℤ} {operation : KeyOperation},
      inv dispatcher → dispatcher.HoldsFree operation →
        performKey dispatcher operation = some after → inv after)
    {dispatcher after : Dispatcher CString ℤ} {operations : List KeyOperation}
    (hholds : ∀ operation ∈ operations, ∀ dispatcher : Dispatcher CString ℤ,
      dispatcher.HoldsFree operation)
    (hexec : performKey.execute dispatcher operations = some after) (hinv : inv dispatcher) :
    inv after := by
  induction operations generalizing dispatcher with
  | nil => exact Option.some.inj hexec ▸ hinv
  | cons operation operations ih =>
      obtain ⟨middle, hperform, hrest⟩ := Option.bind_eq_some_iff.mp hexec
      exact ih (fun other hmem => hholds other (List.mem_cons_of_mem _ hmem)) hrest
        (keep hinv (hholds operation List.mem_cons_self dispatcher) hperform)

/-- What operations that hold free keys keep, an event keeps. -/
theorem keep_of_blocksFree {inv : Dispatcher CString ℤ → Prop} {event : Event}
    (keep : ∀ {dispatcher after : Dispatcher CString ℤ} {operation : KeyOperation},
      inv dispatcher → dispatcher.HoldsFree operation →
        performKey dispatcher operation = some after → inv after)
    (hgenuine : state.dispatcher.Genuine (-1)) (hblocks : BlocksFree state event)
    (hstep : mainStep config state event = some next) (hinv : inv state.dispatcher) :
    inv next.dispatcher := by
  have hexec := performs_mainStep hstep hgenuine
  have hholds := holdsFree_operations hblocks
  by_cases hevent : event = .coordinator .blockKey
  · -- there is at most one operation
    subst hevent
    cases hoperations : operations state (.coordinator .blockKey) with
    | nil =>
        rw [hoperations] at hexec
        exact Option.some.inj hexec ▸ hinv
    | cons operation rest =>
        have hrest : rest = [] := by
          simp only [operations] at hoperations
          split at hoperations
          · exact (List.cons.inj hoperations).2.symm
          · cases hoperations
        rw [hoperations, hrest] at hexec
        obtain ⟨after, hperform, hafter⟩ := Option.bind_eq_some_iff.mp hexec
        rw [← Option.some.inj hafter]
        exact keep hinv (hholds operation (hoperations ▸ List.mem_cons_self) _ (.inl rfl)) hperform
  · exact keep_of_holdsFree keep (fun operation hmem dispatcher =>
      hholds operation hmem dispatcher (.inr hevent)) hexec hinv

theorem owned_mainStep {event : Event} (hgenuine : state.dispatcher.Genuine (-1))
    (hblocks : BlocksFree state event) (hstep : mainStep config state event = some next)
    (howned : state.dispatcher.Owned (-1)) : next.dispatcher.Owned (-1) :=
  keep_of_blocksFree (fun hinv hholds hperform => hinv.perform hholds hperform) hgenuine hblocks
    hstep howned

theorem distinct_mainStep {event : Event} (hgenuine : state.dispatcher.Genuine (-1))
    (hblocks : BlocksFree state event) (hstep : mainStep config state event = some next)
    (hdistinct : state.dispatcher.Distinct) : next.dispatcher.Distinct :=
  keep_of_blocksFree (fun hinv hholds hperform => hinv.perform hholds hperform) hgenuine hblocks
    hstep hdistinct

theorem owned_init (config : Config) : (PlanificadorState.init config).dispatcher.Owned (-1) := by
  intro hold hmem
  obtain ⟨blocker, hblocker, rfl⟩ := List.mem_map.mp hmem
  obtain ⟨key, -, rfl⟩ := List.mem_map.mp hblocker
  exact .inl rfl

/-- Distinct keys of the configuration are distinct locked keys. -/
theorem distinct_init {config : Config} (hkeys : config.blockedKeys.Nodup) :
    (PlanificadorState.init config).dispatcher.Distinct := by
  rw [Dispatcher.Distinct, keys_dispatcher]
  simpa [PlanificadorState.init, Function.comp_def] using hkeys

end SockMyPort.Planificador
