/-
# Processes that hold keys and wait for them

An abstract dispatcher. A process is fresh, ready, running or blocked; a key is
held by a process or by the system, and a process may wait for a key. Queues are
multisets, since only the order of the waiting list decides anything. Processes
and keys are arbitrary types.

A process that is woken because a key was released has the turn to take that key
until it acts, is blocked again or leaves. Every waking is recorded.

An operation fails where it is about a process that is not known.
-/

import SockMyPort.Library.Runs
import Mathlib.Algebra.Order.Group.Multiset
import Mathlib.Tactic.Abel

namespace Library

universe u v

/-- A key and who holds it. -/
structure Hold (κ : Type u) (α : Type v) where
  key : κ
  holder : α
  deriving DecidableEq

/-- A process and the key that it waits for. -/
structure Wait (κ : Type u) (α : Type v) where
  process : α
  key : κ
  deriving DecidableEq

/-- The state of a dispatcher. -/
structure Dispatcher (κ : Type u) (α : Type v) where
  held : List (Hold κ α)
  waiting : List (Wait κ α)
  known : Multiset α
  connected : Multiset α
  fresh : Multiset α
  ready : Multiset α
  running : Multiset α
  blocked : Multiset α
  turns : List (Wait κ α)
  woken : List (Wait κ α)

/-- Where a process can be when somebody claims a key in its name. -/
inductive Place
  | ready
  | running
  deriving DecidableEq

/-- What can happen to a dispatcher. -/
inductive Operation (κ : Type u) (α : Type v)
  | enter (process : α) (greeted : Bool)
  | hold (key : κ) (holder : α)
  | wake (key : κ) (releases : Bool)
  | die (process : α)
  | finish (process : α)
  | enlist
  | block (process : α) (key : κ)
  | claim (place : Place) (process : α) (key : κ)
  | seize (process : α) (key : κ)
  | preempt (process : α)
  | dispatch (process : α)
  | act (process : α)
  deriving DecidableEq

namespace Dispatcher

variable {κ : Type u} {α : Type v}

/-- The keys that are held. -/
def keys (dispatcher : Dispatcher κ α) : List κ := dispatcher.held.map Hold.key

/-- The process that waits for a key and has waited longest. -/
def firstWaiter [DecidableEq κ] (dispatcher : Dispatcher κ α) (key : κ) : Option α :=
  (dispatcher.waiting.find? fun wait => wait.key = key).map Wait.process

/-- The processes in a place. -/
def processes (dispatcher : Dispatcher κ α) : Place → Multiset α
  | .ready => dispatcher.ready
  | .running => dispatcher.running

variable [DecidableEq κ] [DecidableEq α]

/-! ## Operations -/

/-- A process ends its turns. -/
def endTurns (dispatcher : Dispatcher κ α) (process : α) : Dispatcher κ α :=
  { dispatcher with turns := dispatcher.turns.filter fun turn => turn.process ≠ process }

/-- A process connects; it may be disconnected at once and still be registered. -/
def enter (dispatcher : Dispatcher κ α) (process : α) (greeted : Bool) : Dispatcher κ α :=
  let connected := { dispatcher with connected := process ::ₘ dispatcher.connected }
  let admitted :=
    if greeted then connected
    else ({ connected with
      connected := connected.connected.filter fun other => other ≠ process }).endTurns process
  { admitted with
    fresh := process ::ₘ admitted.fresh
    known := process ::ₘ admitted.known }

/-- A process that has waited longest for a key becomes ready. When the waking is
a release, or nobody waits, the key becomes free. -/
def wake (dispatcher : Dispatcher κ α) (key : κ) (releases : Bool) : Dispatcher κ α :=
  let free := dispatcher.held.eraseP fun hold => hold.key = key
  match dispatcher.firstWaiter key with
  | none => { dispatcher with held := free }
  | some process =>
      { dispatcher with
        waiting := dispatcher.waiting.eraseP fun wait => wait.process = process
        blocked := dispatcher.blocked.erase process
        ready := process ::ₘ dispatcher.ready
        held := if releases then free else dispatcher.held
        turns := if releases then dispatcher.turns ++ [⟨process, key⟩] else dispatcher.turns
        woken := dispatcher.woken ++ [⟨process, key⟩] }

/-- Release keys one after the other. -/
def releaseKeys (dispatcher : Dispatcher κ α) (keys : List κ) : Dispatcher κ α :=
  keys.foldl (fun dispatcher key => dispatcher.wake key true) dispatcher

/-- The keys that a process holds. -/
def keysOf (dispatcher : Dispatcher κ α) (process : α) : List κ :=
  (dispatcher.held.filter fun hold => hold.holder = process).map Hold.key

/-- A process is taken out of all queues. -/
def bury (dispatcher : Dispatcher κ α) (process : α) : Dispatcher κ α :=
  { dispatcher with
    fresh := dispatcher.fresh.erase process
    ready := dispatcher.ready.erase process
    running := dispatcher.running.erase process
    blocked := dispatcher.blocked.erase process }

/-- A process is forgotten. -/
def leave (dispatcher : Dispatcher κ α) (process : α) : Dispatcher κ α :=
  endTurns { dispatcher with
    waiting := dispatcher.waiting.eraseP fun wait => wait.process = process
    connected := dispatcher.connected.filter fun other => other ≠ process
    held := dispatcher.held.eraseP fun hold => hold.holder = process
    known := dispatcher.known.erase process } process

/-- A process releases all its keys and is forgotten. -/
def release (dispatcher : Dispatcher κ α) (process : α) : Dispatcher κ α :=
  (dispatcher.releaseKeys (dispatcher.keysOf process)).leave process

/-- A process dies, wherever it is. -/
def die (dispatcher : Dispatcher κ α) (process : α) : Dispatcher κ α :=
  (dispatcher.bury process).release process

/-- The running process ends. -/
def finish (dispatcher : Dispatcher κ α) (process : α) : Dispatcher κ α :=
  release { dispatcher with running := dispatcher.running.erase process } process

/-- All fresh processes become ready. -/
def enlist (dispatcher : Dispatcher κ α) : Dispatcher κ α :=
  { dispatcher with ready := dispatcher.ready + dispatcher.fresh, fresh := 0 }

/-- A process leaves a place to wait for a key. -/
def block (dispatcher : Dispatcher κ α) (place : Place) (process : α) (key : κ) :
    Dispatcher κ α :=
  let waits := { dispatcher with
    waiting := dispatcher.waiting ++ [Wait.mk process key]
    blocked := process ::ₘ dispatcher.blocked }
  match place with
  | .ready => { waits with ready := waits.ready.erase process }
  | .running => { waits with running := waits.running.erase process }

/-- A process takes a key, or waits for it when it is held. -/
def claim (dispatcher : Dispatcher κ α) (place : Place) (process : α) (key : κ) :
    Dispatcher κ α :=
  if key ∈ dispatcher.keys then (dispatcher.block place process key).endTurns process
  else { dispatcher with held := dispatcher.held ++ [⟨key, process⟩] }

/-- The system takes a free key in the name of a process that does not exist. -/
def seize (system : α) (dispatcher : Dispatcher κ α) (process : α) (key : κ) : Dispatcher κ α :=
  if process ∈ dispatcher.known ∨ key ∈ dispatcher.keys then dispatcher
  else { dispatcher with held := dispatcher.held ++ [⟨key, system⟩] }

/-- A running process becomes ready. -/
def preempt (dispatcher : Dispatcher κ α) (process : α) : Dispatcher κ α :=
  { dispatcher with
    running := dispatcher.running.erase process
    ready := process ::ₘ dispatcher.ready }

/-- A ready process runs. -/
def dispatch (dispatcher : Dispatcher κ α) (process : α) : Dispatcher κ α :=
  { dispatcher with
    ready := dispatcher.ready.erase process
    running := process ::ₘ dispatcher.running }

/-- One operation; `system` is no process. -/
def perform (system : α) : PartialStep (Dispatcher κ α) (Operation κ α) :=
  fun dispatcher operation =>
    match operation with
    | .enter process greeted =>
        if process ≠ system ∧ process ∉ dispatcher.connected then
          some (dispatcher.enter process greeted)
        else none
    | .hold key holder => some { dispatcher with held := dispatcher.held ++ [⟨key, holder⟩] }
    | .wake key releases =>
        if ∀ process ∈ dispatcher.firstWaiter key, process ∈ dispatcher.known then
          some (dispatcher.wake key releases)
        else none
    | .die process => if process ∈ dispatcher.known then some (dispatcher.die process) else none
    | .finish process =>
        if process ∈ dispatcher.known then some (dispatcher.finish process) else none
    | .enlist => some dispatcher.enlist
    | .block process key =>
        if process ≠ system ∧ process ∈ dispatcher.known then
          some (dispatcher.block .running process key)
        else none
    | .claim place process key =>
        if process ≠ system ∧ process ∈ dispatcher.known then
          some (dispatcher.claim place process key)
        else none
    | .seize process key => some (seize system dispatcher process key)
    | .preempt process => if process ≠ system then some (dispatcher.preempt process) else none
    | .dispatch process =>
        if process ∈ dispatcher.ready ∧ process ∈ dispatcher.known then
          some (dispatcher.dispatch process)
        else none
    | .act process => some (dispatcher.endTurns process)

end Dispatcher

end Library
