/-
# Who may use a key, and who owns it

The scheduler never learns which ESI asks: it compares the owner of the key with the
head of the execution queue, and makes that head the owner. As long as the steps keep
pace the head is the ESI that asks.
-/

import SockMyPort.Sistema.Invariant

namespace SockMyPort.Sistema

open SockMyPort.Commons SockMyPort.Planificador Library

variable {config : Config} {finish : SistemaState config}

/-- The invariant of the system, with distinct keys. -/
def Locked (sistema : SistemaState config) : Prop :=
  SistemaInvariant sistema ∧ sistema.planificador.dispatcher.Distinct

theorem sistemaInvariant_of_runs {actions : List Action}
    (hrun : (step config).Runs (fun sistema action => keepsPace sistema action = true)
      (SistemaState.init config) actions finish) : SistemaInvariant finish :=
  hrun.invariant _ (fun hinv hpace hstep => hinv.step hpace hstep) (.init config)

/-! ## Mutual exclusion -/

/-- What the program is meant to keep: a SET or STORE is queued on an instance only
when the owner of the key, at the moment of the answer that allowed it, was the ESI
that sent it. -/
def MutualExclusion (sistema : SistemaState config) : Prop :=
  ∀ request ∈ sistema.requests, Allows request.operation.key request.sender request.owners

instance (key : CString) (who : ℕ) (owners : Owners) : Decidable (Allows key who owners) := by
  unfold Allows
  infer_instance

instance (sistema : SistemaState config) : Decidable (MutualExclusion sistema) := by
  unfold MutualExclusion
  infer_instance

/-- What the program is meant to keep: a key has one node, the owner of a node is
registered or nobody, and a key that was locked for the coordinator is owned by the ESI
that the coordinator asked for. -/
structure LockTable (sistema : SistemaState config) : Prop where
  distinct : (sistema.planificador.gLockedKeys.map KeyBlocker.key).Nodup
  registered : ∀ blocker ∈ sistema.planificador.gLockedKeys,
    blocker.esiId = -1 ∨ blocker.esiId ∈ sistema.planificador.ids
  attributed : ∀ blocked ∈ sistema.blockedKeys,
    blocked.owner.isSome = true ∧ blocked.owner = blocked.inquirer

end SockMyPort.Sistema
