/-
# Who uses a connection

A connection is used by the threads that find its descriptor in a node, or that were given
the descriptor while it was there. As long as handlers close unused descriptors only, these
are the threads inside the critical section of one node, the node of the connection's
handler. A connection that waits for its configuration is alone with its handler.
-/

import SockMyPort.Sistema.InstanceConnections

namespace SockMyPort.Sistema.Sockets

open SockMyPort.Commons SockMyPort.Coordinador SockMyPort.Instancia Library

/-! ## Places -/

namespace Place

/-- The node of the instance whose connection the thread handles. -/
def host : Place → Option CString
  | .published name | .configuring name | .popping name | .asking name _ | .iterating name
  | .broadcasting name _ | .settling name _ => some name
  | .closing name => name
  | _ => none

/-- The node whose configuration was not sent yet. -/
def awaits : Place → Option CString
  | .published name | .configuring name => some name
  | _ => none

/-- The node whose descriptor may be replaced, under the lock of the list. -/
def replaces : Place → Option CString
  | .testing name | .publishing name => some name
  | _ => none

/-- The critical section that a thread in this place may be in. -/
def inside (keyList : KeyList) : Place → Option (CString × Message)
  | .configuring name => some (name, .configuration keyList)
  | .testing name => some (name, .instruction issuedIsAlive)
  | .asking name request => some (name, .instruction request)
  | .querying name key => some (name, .instruction (issuedRequestValue key))
  | _ => none

end Place

namespace Connections

variable {state next : Connections} {name other : CString} {node : InstanceNode}
  {thread : Thread} {place : Place} {connection fd : ℕ} {inside : CriticalSection}
  {channel : Channel ReceivedRequest} {setup : EntriesSetup}

/-! ## Updates -/

theorem fdAt_setNode : (state.setNode name node).fdAt other =
    if other = name then node.fd else state.fdAt other := by
  simp only [fdAt, Function.update_apply]
  split <;> rfl

theorem insideAt_setNode : (state.setNode name node).insideAt other =
    if other = name then node.inside else state.insideAt other := by
  simp only [insideAt, Function.update_apply]
  split <;> rfl

theorem fdAt_of_nodes {fd : Option ℕ} {inside : Option CriticalSection}
    (hnode : state.nodes name = some ⟨fd, inside⟩) : state.fdAt name = fd := by
  rw [fdAt, hnode, Option.bind_some]

theorem insideAt_of_nodes {fd : Option ℕ} {inside : Option CriticalSection}
    (hnode : state.nodes name = some ⟨fd, inside⟩) : state.insideAt name = inside := by
  rw [insideAt, hnode, Option.bind_some]

/-! ## The invariant -/

/-- Descriptors, locks and places agree. -/
structure Wired (state : Connections) : Prop where
  fresh : ∀ connection, state.accepted ≤ connection → state.place (.handler connection) = .start
  own : ∀ fd connection, state.descriptors fd = some connection → state.fdOf connection = fd
  bound : ∀ fd connection, state.descriptors fd = some connection → connection < state.accepted
  opened : ∀ connection < state.accepted, state.place (.handler connection) ≠ .closed →
    state.descriptors (state.fdOf connection) = some connection
  hosted : ∀ name fd, state.Refers name fd → ∃ connection,
    state.descriptors fd = some connection ∧ (state.place (.handler connection)).host = some name
  busy : ∀ name inside, state.insideAt name = some inside → ∃ keyList,
    (state.place inside.thread).inside keyList = some (name, inside.message)
  given : ∀ name inside, state.insideAt name = some inside → inside.message.takesFd = true →
    state.fdAt name = inside.fd ∨ state.fdAt name = none
  awaiting : ∀ connection name, (state.place (.handler connection)).awaits = some name →
    state.fdAt name = some (state.fdOf connection) ∧
      state.descriptors (state.fdOf connection) = some connection
  alone : ∀ connection name, state.place (.handler connection) = .published name →
    state.insideAt name = none
  configures : ∀ connection name, state.place (.handler connection) = .configuring name →
    ∃ inside, state.insideAt name = some inside ∧ inside.thread = .handler connection
  replacing : ∀ connection name, (state.place (.handler connection)).replaces = some name →
    state.listLock = some connection
  tested : ∀ name inside connection, state.insideAt name = some inside →
    inside.message.isTest = true → (state.place (.handler connection)).awaits ≠ some name
  replaced : ∀ name connection connection',
    state.place (.handler connection) = .publishing name →
    (state.place (.handler connection')).awaits ≠ some name
  scheduler : state.place .scheduler = .start ∨
    ∃ name key, state.place .scheduler = .querying name key

/-- A handler that is not at its start has been accepted. -/
theorem Wired.accepted_of_place (hwired : state.Wired)
    (hplace : state.place (.handler connection) ≠ .start) : connection < state.accepted := by
  by_contra hlarge
  exact hplace (hwired.fresh connection (Nat.le_of_not_lt hlarge))

theorem wired_init : Wired .init := by
  constructor <;> simp [init, Refers, fdAt, insideAt, Place.awaits, Place.replaces]

/-- Other fields do not matter. -/
theorem Wired.congr (hwired : state.Wired) (hnodes : next.nodes = state.nodes)
    (hdescriptors : next.descriptors = state.descriptors)
    (haccepted : next.accepted = state.accepted)
    (hfds : next.fdOf = state.fdOf) (hplace : next.place = state.place)
    (hlist : next.listLock = state.listLock) : next.Wired := by
  obtain ⟨nodes, descriptors, accepted, fdOf, channel, refused, place, list, tag, readings⟩ := next
  subst hnodes hdescriptors haccepted hfds hplace hlist
  exact ⟨hwired.fresh, hwired.own, hwired.bound, hwired.opened, hwired.hosted, hwired.busy,
    hwired.given, hwired.awaiting, hwired.alone, hwired.configures, hwired.replacing,
    hwired.tested, hwired.replaced, hwired.scheduler⟩

theorem Wired.setChannel (hwired : state.Wired) (connection : ℕ)
    (channel : Channel ReceivedRequest) : (state.setChannel connection channel).Wired :=
  hwired.congr rfl rfl rfl rfl rfl rfl

/-- A handler that is in no critical section moves. -/
theorem Wired.setPlace (hwired : state.Wired) (connection : ℕ)
    (haccepted : state.accepted ≤ connection → place = .start)
    (hinside : ∀ keyList, (state.place (.handler connection)).inside keyList = none)
    (hclosed : state.place (.handler connection) ≠ .closed)
    (hhost : place.host = (state.place (.handler connection)).host)
    (hawaits : place.awaits = none) (hreplaces : place.replaces = none) :
    (state.setPlace (.handler connection) place).Wired where
  fresh other hother := by
    have := hwired.fresh other hother
    grind [Function.update_apply]
  own := hwired.own
  bound := hwired.bound
  opened other hother hplace := by
    have := hwired.opened other hother
    grind [Function.update_apply]
  hosted name fd hrefers := by
    have := hwired.hosted name fd hrefers
    grind [Function.update_apply]
  busy name inside hname := by
    have := hwired.busy name inside hname
    grind [Function.update_apply]
  given := hwired.given
  awaiting other name hother := by
    have := hwired.awaiting other name
    grind [Function.update_apply]
  alone other name hother := by
    have := hwired.alone other name
    grind [Function.update_apply, Place.awaits]
  configures other name hother := by
    have := hwired.configures other name
    grind [Function.update_apply, Place.awaits]
  replacing other name hother := by
    have := hwired.replacing other name
    grind [Function.update_apply]
  tested name inside other hname htest := by
    have := hwired.tested name inside other hname htest
    grind [Function.update_apply]
  replaced name first second hfirst := by
    have := hwired.replaced name first second
    grind [Function.update_apply, Place.replaces]
  scheduler := hwired.scheduler

/-- The same, for places that are known. -/
theorem Wired.move (hwired : state.Wired) {before : Place}
    (hplace : state.place (.handler connection) = before) (hstart : before ≠ .start)
    (hinside : ∀ keyList, before.inside keyList = none) (hclosed : before ≠ .closed)
    (hhost : place.host = before.host) (hawaits : place.awaits = none)
    (hreplaces : place.replaces = none) :
    (state.setPlace (.handler connection) place).Wired := by
  subst hplace
  refine hwired.setPlace connection (fun haccepted => ?_) hinside hclosed hhost hawaits hreplaces
  exact absurd (hwired.fresh connection haccepted) hstart

/-- The thread in the critical section goes on. -/
theorem Wired.setInside (hwired : state.Wired) {fd : Option ℕ} {inside' : CriticalSection}
    (hnode : state.nodes name = some ⟨fd, some inside⟩) (hthread : inside'.thread = inside.thread)
    (hmessage : inside'.message = inside.message)
    (hfd : inside'.fd = inside.fd ∨ inside'.fd = inside.message.argument fd) :
    (state.setNode name ⟨fd, some inside'⟩).Wired where
  fresh := hwired.fresh
  own := hwired.own
  bound := hwired.bound
  opened := hwired.opened
  hosted other number hrefers := by
    have := hwired.hosted other number
    grind [Function.update_apply, Refers, Message.argument]
  busy other someone hsomeone := by
    have := hwired.busy other
    grind [Function.update_apply]
  given other someone hsomeone htakes := by
    have := hwired.given other
    grind [Function.update_apply, Message.argument]
  awaiting other someone hother := by
    have := hwired.awaiting other someone
    grind [Function.update_apply]
  alone other someone hother := by
    have := hwired.alone other someone
    grind [Function.update_apply]
  configures other someone hother := by
    have := hwired.configures other someone
    grind [Function.update_apply]
  replacing := hwired.replacing
  tested other someone connection hsomeone htest := by
    have := hwired.tested other
    grind [Function.update_apply]
  replaced := hwired.replaced
  scheduler := hwired.scheduler

/-! ## Leaving a critical section -/

/-- A thread leaves its critical section for a place that fits. -/
structure Leaves (name : CString) (result : Option (List (UInt8 × ℕ))) (message : Message)
    (place after : Place) : Prop where
  host : after.host = place.host
  awaits : after.awaits = none
  start : after ≠ .start ∨ ∃ key, place = .querying name key
  replaces : after.replaces = none ∨
    place = .testing name ∧ after = .publishing name ∧ result = none

theorem leaves_after {keyList : KeyList} {message : Message}
    {result : Option (List (UInt8 × ℕ))} (hplace : place.inside keyList = some (name, message)) :
    Leaves name result message place (message.after name result) := by
  cases place with
  | configuring node =>
      obtain ⟨rfl, rfl⟩ := Prod.mk.inj (Option.some.inj hplace)
      cases result <;> exact ⟨rfl, rfl, .inl nofun, .inl rfl⟩
  | testing node =>
      obtain ⟨rfl, rfl⟩ := Prod.mk.inj (Option.some.inj hplace)
      cases result with
      | none => exact ⟨rfl, rfl, .inl nofun, .inr ⟨rfl, rfl, rfl⟩⟩
      | some bytes => exact ⟨rfl, rfl, .inl nofun, .inl rfl⟩
  | asking node request =>
      obtain ⟨rfl, rfl⟩ := Prod.mk.inj (Option.some.inj hplace)
      obtain ⟨⟨instruction, hissued⟩, htakes⟩ := request
      cases instruction with
      | set isNew key value =>
          show Leaves node result _ _ (afterSet node result)
          rw [afterSet]
          split
          · exact ⟨rfl, rfl, .inl nofun, .inl rfl⟩
          · split <;> exact ⟨rfl, rfl, .inl nofun, .inl rfl⟩
      | store key =>
          show Leaves node result _ _ (afterStore node result)
          rw [afterStore]
          split <;> exact ⟨rfl, rfl, .inl nofun, .inl rfl⟩
      | _ => cases htakes
  | querying node key =>
      obtain ⟨rfl, rfl⟩ := Prod.mk.inj (Option.some.inj hplace)
      exact ⟨rfl, rfl, .inr ⟨key, rfl⟩, .inl rfl⟩
  | _ => cases hplace

theorem name_of_inside {keyList keyList' : KeyList} {node : CString} {message message' : Message}
    (hfirst : place.inside keyList = some (name, message))
    (hsecond : place.inside keyList' = some (node, message')) : name = node := by
  cases place <;> cases hfirst <;> cases hsecond <;> rfl

theorem isTest_of_inside {keyList : KeyList} {message : Message}
    (hplace : place.inside keyList = some (name, message)) (htest : message.isTest = true) :
    place = .testing name := by
  cases place with
  | testing node =>
      cases hplace
      rfl
  | asking node request =>
      obtain ⟨⟨instruction, hissued⟩, htakes⟩ := request
      cases hplace
      cases instruction <;>
        first | exact absurd htest Bool.false_ne_true | exact absurd htakes Bool.false_ne_true
  | _ => cases hplace <;> cases htest

/-- The lock of the node is released. -/
theorem Wired.unlock (hwired : state.Wired) {fd : Option ℕ}
    {result : Option (List (UInt8 × ℕ))} (hnode : state.nodes name = some ⟨fd, some inside⟩) :
    (state.unlock name fd inside result).Wired := by
  have hinside := insideAt_of_nodes hnode
  obtain ⟨keyList, hplace⟩ := hwired.busy name inside hinside
  obtain ⟨hhost, hawaits, hstart, hreplaces⟩ : Leaves name result inside.message
      (state.place inside.thread) (inside.message.after name result) := leaves_after hplace
  have htest := isTest_of_inside hplace
  have htesting : state.place inside.thread = .testing name → inside.message.isTest = true := by
    intro hsame
    rw [hsame] at hplace
    obtain ⟨-, hmessage⟩ := Prod.mk.inj (Option.some.inj hplace)
    rw [← hmessage]
    rfl
  have hbusy : ∀ other someone, other ≠ name → state.insideAt other = some someone →
      someone.thread ≠ inside.thread := by
    intro other someone hne hother hsame
    obtain ⟨keyList', hplace'⟩ := hwired.busy other someone hother
    rw [hsame] at hplace'
    exact hne (name_of_inside hplace' hplace)
  have hclosed : state.place inside.thread ≠ .closed := by
    intro hclosed
    rw [hclosed] at hplace
    cases hplace
  have haccepted : ∀ other, inside.thread = .handler other → other < state.accepted := by
    intro other hthread
    by_contra hlarge
    rw [hthread, hwired.fresh other (Nat.le_of_not_lt hlarge)] at hplace
    cases hplace
  have hscheduler : inside.thread = .scheduler → inside.message.after name result = .start := by
    intro hthread
    rw [hthread] at hplace
    rcases hwired.scheduler with hidle | ⟨node, key, hquerying⟩
    · rw [hidle] at hplace
      cases hplace
    · rw [hquerying] at hplace
      obtain ⟨rfl, hmessage⟩ := Prod.mk.inj (Option.some.inj hplace)
      rw [← hmessage]
      rfl
  have hlisted : inside.message.isTest = true →
      ∃ connection, inside.thread = .handler connection ∧ state.listLock = some connection := by
    intro hmessage
    cases hthread : inside.thread with
    | scheduler =>
        have hplace := htest hmessage
        rw [hthread] at hplace
        rcases hwired.scheduler with hidle | ⟨node, key, hquerying⟩
        · rw [hidle] at hplace
          cases hplace
        · rw [hquerying] at hplace
          cases hplace
    | handler connection =>
        refine ⟨connection, rfl, hwired.replacing connection name ?_⟩
        rw [← hthread, htest hmessage]
        rfl
  clear hplace keyList
  constructor
  case fresh =>
    intro other hother
    have := hwired.fresh other
    grind [Function.update_apply]
  case own => exact hwired.own
  case bound => exact hwired.bound
  case opened =>
    intro other hother hnot
    have := hwired.opened other hother
    grind [Function.update_apply]
  case hosted =>
    intro other number hrefers
    have := hwired.hosted other number
    grind [Function.update_apply, Refers]
  case busy =>
    intro other someone hother
    have := hwired.busy other someone
    grind [Function.update_apply]
  case given =>
    intro other someone hother
    have := hwired.given other someone
    grind [Function.update_apply]
  case awaiting =>
    intro other node hother
    have := hwired.awaiting other node
    grind [Function.update_apply]
  case alone =>
    intro other node hother
    have := hwired.alone other node
    grind [Function.update_apply, Place.awaits]
  case configures =>
    intro other node hother
    have := hwired.configures other node
    grind [Function.update_apply, Place.awaits]
  case replacing =>
    intro other node hother
    have := hwired.replacing other node
    grind [Function.update_apply, Place.replaces]
  case tested =>
    intro node someone other hnode hother
    have := hwired.tested node someone other
    grind [Function.update_apply]
  case replaced =>
    intro node first second hfirst
    have := hwired.replaced node first second
    have := hwired.tested name inside second hinside
    grind [Function.update_apply, Place.replaces]
  case scheduler =>
    have := hwired.scheduler
    grind [Function.update_apply, Place.inside]

/-! ## The steps -/

theorem Wired.accept (hwired : state.Wired) (hstep : state.accept fd = some next) :
    next.Wired := by
  rw [Connections.accept] at hstep
  split at hstep
  · cases hstep
  · rename_i hfree
    cases hstep
    have hbound := hwired.bound
    have hfresh := hwired.fresh
    constructor
    case fresh =>
      intro other hother
      exact hwired.fresh other (Nat.le_of_succ_le hother)
    case own =>
      intro number other hother
      have := hwired.own number other
      grind [Function.update_apply]
    case bound =>
      intro number other hother
      have := hwired.bound number other
      grind [Function.update_apply]
    case opened =>
      intro other hother hnot
      have := hwired.opened other
      grind [Function.update_apply]
    case hosted =>
      intro node number hrefers
      have := hwired.hosted node number hrefers
      grind [Function.update_apply]
    case busy => exact hwired.busy
    case given => exact hwired.given
    case awaiting =>
      intro other node hother
      have := hwired.awaiting other node hother
      grind [Function.update_apply]
    case alone => exact hwired.alone
    case configures => exact hwired.configures
    case replacing => exact hwired.replacing
    case tested => exact hwired.tested
    case replaced => exact hwired.replaced
    case scheduler => exact hwired.scheduler

/-- A new node. -/
theorem Wired.create (hwired : state.Wired)
    (hplace : state.place (.handler connection) = .named name) (hlock : state.listLock = none)
    (hnode : state.nodes name = none) :
    ((state.setNode name ⟨some (state.fdOf connection), none⟩).setPlace (.handler connection)
      (.published name)).Wired := by
  have hfd : state.fdAt name = none := by rw [Connections.fdAt, hnode, Option.bind_none]
  have hinside : state.insideAt name = none := by
    rw [Connections.insideAt, hnode, Option.bind_none]
  have haccepted := hwired.accepted_of_place (by rw [hplace]; nofun)
  have hopened := hwired.opened connection haccepted (by rw [hplace]; nofun)
  constructor
  case fresh =>
    intro other hother
    have := hwired.fresh other hother
    grind [Function.update_apply]
  case own => exact hwired.own
  case bound => exact hwired.bound
  case opened =>
    intro other hother hnot
    have := hwired.opened other hother
    grind [Function.update_apply]
  case hosted =>
    intro other number hrefers
    have := hwired.hosted other number
    grind [Function.update_apply, Refers, Place.host]
  case busy =>
    intro other someone hother
    have := hwired.busy other someone
    grind [Function.update_apply, Place.inside]
  case given =>
    intro other someone hother
    have := hwired.given other someone
    grind [Function.update_apply]
  case awaiting =>
    intro other node hother
    have := hwired.awaiting other node
    grind [Function.update_apply, Place.awaits]
  case alone =>
    intro other node hother
    have := hwired.alone other node
    grind [Function.update_apply]
  case configures =>
    intro other node hother
    have := hwired.configures other node
    grind [Function.update_apply]
  case replacing =>
    intro other node hother
    have := hwired.replacing other node
    grind [Function.update_apply, Place.replaces]
  case tested =>
    intro node someone other hsomeone htest
    have := hwired.tested node someone other
    grind [Function.update_apply, Place.awaits]
  case replaced =>
    intro node first second hfirst
    have := hwired.replaced node first second
    have := hwired.replacing first
    grind [Function.update_apply, Place.replaces, Place.awaits]
  case scheduler => exact hwired.scheduler

/-- The lock of the list is taken, as the descriptor may have to be replaced. -/
theorem Wired.takeList (hwired : state.Wired) {node : InstanceNode}
    (hplace : state.place (.handler connection) = .named name) (hlock : state.listLock = none)
    (hnode : state.nodes name = some node) :
    ({ state with listLock := some connection }.setPlace (.handler connection)
      (if node.fd.isSome then .testing name else .publishing name)).Wired := by
  have hfd : state.fdAt name = node.fd := by rw [Connections.fdAt, hnode, Option.bind_some]
  have haccepted := hwired.accepted_of_place (by rw [hplace]; nofun)
  constructor
  case fresh =>
    intro other hother
    have := hwired.fresh other hother
    grind [Function.update_apply]
  case own => exact hwired.own
  case bound => exact hwired.bound
  case opened =>
    intro other hother hnot
    have := hwired.opened other hother
    grind [Function.update_apply]
  case hosted =>
    intro other number hrefers
    have := hwired.hosted other number
    grind [Function.update_apply, Refers, Place.host]
  case busy =>
    intro other someone hother
    have := hwired.busy other someone
    grind [Function.update_apply, Place.inside]
  case given => exact hwired.given
  case awaiting =>
    intro other node hother
    have := hwired.awaiting other node
    grind [Function.update_apply, Place.awaits]
  case alone =>
    intro other node hother
    have := hwired.alone other node
    grind [Function.update_apply]
  case configures =>
    intro other node hother
    have := hwired.configures other node
    grind [Function.update_apply]
  case replacing =>
    intro other node hother
    have := hwired.replacing other
    grind [Function.update_apply, Place.replaces]
  case tested =>
    intro node someone other hsomeone htest
    have := hwired.tested node someone other
    grind [Function.update_apply, Place.awaits]
  case replaced =>
    intro node first second hfirst
    have := hwired.replaced node first second
    have := hwired.replacing first
    have := hwired.awaiting second node
    grind [Function.update_apply, Place.replaces, Place.awaits]
  case scheduler => exact hwired.scheduler

theorem Wired.add (hwired : state.Wired) (hstep : state.instanceListAdd connection = some next) :
    next.Wired := by
  rw [instanceListAdd] at hstep
  split at hstep
  · rename_i name hplace hlock
    split at hstep
    · rename_i hnode
      cases hstep
      exact hwired.create hplace hlock hnode
    · rename_i node hnode
      cases hstep
      exact hwired.takeList hplace hlock hnode
  · cases hstep

theorem Wired.publish (hwired : state.Wired) (hstep : state.publish connection = some next) :
    next.Wired := by
  rw [Connections.publish] at hstep
  split at hstep
  · rename_i name hplace
    split at hstep
    · rename_i old hnode
      cases hstep
      have hinside := insideAt_of_nodes hnode
      have hlisted := hwired.replacing connection name (by rw [hplace]; rfl)
      have hnone := hwired.replaced name connection
      have haccepted := hwired.accepted_of_place (by rw [hplace]; nofun)
      have hopened := hwired.opened connection haccepted (by rw [hplace]; nofun)
      constructor
      case fresh =>
        intro other hother
        have := hwired.fresh other hother
        grind [Function.update_apply]
      case own => exact hwired.own
      case bound => exact hwired.bound
      case opened =>
        intro other hother hnot
        have := hwired.opened other hother
        grind [Function.update_apply]
      case hosted =>
        intro other number hrefers
        have := hwired.hosted other number
        grind [Function.update_apply, Refers, Place.host]
      case busy =>
        intro other someone hother
        have := hwired.busy other someone
        grind [Function.update_apply, Place.inside]
      case given =>
        intro other someone hother
        have := hwired.given other someone
        grind [Function.update_apply]
      case awaiting =>
        intro other node hother
        have := hwired.awaiting other node
        grind [Function.update_apply, Place.awaits]
      case alone =>
        intro other node hother
        have := hwired.alone other node
        grind [Function.update_apply]
      case configures =>
        intro other node hother
        have := hwired.configures other node
        grind [Function.update_apply]
      case replacing =>
        intro other node hother
        have := hwired.replacing other node
        grind [Function.update_apply, Place.replaces]
      case tested =>
        intro node someone other hsomeone htest
        have := hwired.tested node someone other
        grind [Function.update_apply, Place.awaits]
      case replaced =>
        intro node first second hfirst
        have := hwired.replaced node first second
        have := hwired.replacing first
        grind [Function.update_apply, Place.replaces, Place.awaits]
      case scheduler => exact hwired.scheduler
    · cases hstep
  · cases hstep

/-- What a thread that wants a critical section does in it. -/
theorem inside_of_wants {keyList : KeyList} {message : Message}
    (hwants : place.wants keyList = some (name, message)) :
    (place = .published name ∧ message = .configuration keyList) ∨
      (place.inside keyList = some (name, message) ∧ ∃ instruction,
        message = .instruction instruction) := by
  cases place <;> cases hwants
  · exact .inr ⟨rfl, _, rfl⟩
  · exact .inl ⟨rfl, rfl⟩
  · exact .inr ⟨rfl, _, rfl⟩
  · exact .inr ⟨rfl, _, rfl⟩

/-- Nobody waits for the configuration of a node whose lock is free and whose connection
does not wait for it. -/
theorem Wired.awaits_ne (hwired : state.Wired) (hinside : state.insideAt name = none)
    (hpending : state.isPending name = false) (connection : ℕ) :
    (state.place (.handler connection)).awaits ≠ some name := by
  intro hawaits
  obtain ⟨hfd, hopen⟩ := hwired.awaiting connection name hawaits
  cases hplace : state.place (.handler connection) with
  | published node =>
      rw [isPending, hfd, Option.bind_some, hopen] at hpending
      simp only [hplace] at hpending
      cases hpending
  | configuring node =>
      rw [hplace] at hawaits
      obtain ⟨someone, hsomeone, -⟩ := hwired.configures connection node hplace
      rw [← Option.some.inj hawaits, hsomeone] at hinside
      cases hinside
  | closing node =>
      rw [hplace] at hawaits
      cases hawaits
  | _ =>
      rw [hplace] at hawaits
      cases hawaits

/-- A thread that holds no lock enters the critical section of a node that no connection
waits at. -/
theorem Wired.enter (hwired : state.Wired) {fd : Option ℕ}
    (hnode : state.nodes name = some ⟨fd, none⟩)
    (hplace : ∃ keyList, (state.place inside.thread).inside keyList = some (name, inside.message))
    (hfd : inside.fd = inside.message.argument fd)
    (htested : inside.message.isTest = true →
      ∀ connection, (state.place (.handler connection)).awaits ≠ some name)
    (halone : ∀ connection, state.place (.handler connection) ≠ .published name) :
    (state.setNode name ⟨fd, some inside⟩).Wired := by
  have hnone := insideAt_of_nodes hnode
  constructor
  case fresh => exact hwired.fresh
  case own => exact hwired.own
  case bound => exact hwired.bound
  case opened => exact hwired.opened
  case hosted =>
    intro other number hrefers
    have := hwired.hosted other number
    grind [Function.update_apply, Refers, Message.argument]
  case busy =>
    intro other someone hother
    have := hwired.busy other someone
    grind [Function.update_apply]
  case given =>
    intro other someone hother
    have := hwired.given other someone
    grind [Function.update_apply, Message.argument]
  case awaiting =>
    intro other node hother
    have := hwired.awaiting other node
    grind [Function.update_apply]
  case alone =>
    intro other node hother
    have := hwired.alone other node
    grind [Function.update_apply]
  case configures =>
    intro other node hother
    have := hwired.configures other node
    grind [Function.update_apply]
  case replacing => exact hwired.replacing
  case tested =>
    intro node someone other hsomeone htest
    have := hwired.tested node someone other
    grind [Function.update_apply]
  case replaced => exact hwired.replaced
  case scheduler => exact hwired.scheduler

/-- The handler of a connection begins to send the configuration. -/
theorem Wired.configure (hwired : state.Wired) {fd : Option ℕ} {keyList : KeyList}
    (hnode : state.nodes name = some ⟨fd, none⟩)
    (hplace : state.place (.handler connection) = .published name)
    (hthread : inside.thread = .handler connection)
    (hmessage : inside.message = .configuration keyList) (hfd : inside.fd = none) :
    ((state.setNode name ⟨fd, some inside⟩).setPlace (.handler connection)
      (.configuring name)).Wired := by
  have hnone := insideAt_of_nodes hnode
  have hinside : (Place.configuring name).inside keyList = some (name, inside.message) := by
    rw [hmessage]
    rfl
  have htest : inside.message.isTest = false := by
    rw [hmessage]
    rfl
  have htakes : inside.message.takesFd = false := by
    rw [hmessage]
    rfl
  -- whoever waits for the configuration at the same node has the same descriptor
  have hsame : ∀ other, (state.place (.handler other)).awaits = some name → other = connection := by
    intro other hother
    obtain ⟨hfirst, hopened⟩ := hwired.awaiting other name hother
    obtain ⟨hsecond, hopened'⟩ := hwired.awaiting connection name (by rw [hplace]; rfl)
    rw [hfirst] at hsecond
    rw [Option.some.inj hsecond, hopened'] at hopened
    exact (Option.some.inj hopened).symm
  constructor
  case fresh =>
    intro other hother
    have := hwired.fresh other hother
    grind [Function.update_apply]
  case own => exact hwired.own
  case bound => exact hwired.bound
  case opened =>
    intro other hother hnot
    have := hwired.opened other hother
    grind [Function.update_apply]
  case hosted =>
    intro other number hrefers
    have := hwired.hosted other number
    grind [Function.update_apply, Refers, Place.host]
  case busy =>
    intro other someone hother
    have := hwired.busy other someone
    grind [Function.update_apply, Place.inside]
  case given =>
    intro other someone hother
    have := hwired.given other someone
    grind [Function.update_apply]
  case awaiting =>
    intro other node hother
    have := hwired.awaiting other node
    grind [Function.update_apply, Place.awaits]
  case alone =>
    intro other node hother
    have := hwired.alone other node
    have := hsame other
    grind [Function.update_apply, Place.awaits]
  case configures =>
    intro other node hother
    have := hwired.configures other node
    grind [Function.update_apply]
  case replacing =>
    intro other node hother
    have := hwired.replacing other node
    grind [Function.update_apply, Place.replaces]
  case tested =>
    intro node someone other hsomeone htest
    have := hwired.tested node someone other
    grind [Function.update_apply, Place.awaits]
  case replaced =>
    intro node first second hfirst
    have := hwired.replaced node first second
    grind [Function.update_apply, Place.awaits]
  case scheduler => exact hwired.scheduler

theorem isPending_of_waits {keyList keyList' : KeyList} {instruction : IssuedInstruction}
    (hwaits : waitsForConfiguration state (.lock thread keyList) = true)
    (hinside : (state.place thread).inside keyList' = some (name, .instruction instruction)) :
    state.isPending name = false := by
  rw [waitsForConfiguration] at hwaits
  cases hplace : state.place thread with
  | testing node =>
      rw [hplace] at hinside hwaits
      rw [← (Prod.mk.inj (Option.some.inj hinside)).1]
      exact Bool.not_eq_true' _ ▸ hwaits
  | asking node request =>
      rw [hplace] at hinside hwaits
      rw [← (Prod.mk.inj (Option.some.inj hinside)).1]
      exact Bool.not_eq_true' _ ▸ hwaits
  | querying node key =>
      rw [hplace] at hinside hwaits
      rw [← (Prod.mk.inj (Option.some.inj hinside)).1]
      exact Bool.not_eq_true' _ ▸ hwaits
  | _ =>
      rw [hplace] at hinside
      cases hinside

theorem Wired.lock (hwired : state.Wired) {keyList : KeyList}
    (hwaits : waitsForConfiguration state (.lock thread keyList) = true)
    (hstep : state.lock setup thread keyList = some next) : next.Wired := by
  rw [Connections.lock] at hstep
  split at hstep
  · cases hstep
  · rename_i name message hwants
    split at hstep
    · rename_i fd hnode
      have hnone := insideAt_of_nodes hnode
      rcases inside_of_wants hwants with ⟨hplace, rfl⟩ | ⟨hinside, instruction, rfl⟩
      · -- the configuration
        cases hstep
        cases thread with
        | scheduler =>
            rcases hwired.scheduler with hidle | ⟨node, key, hquerying⟩
            · rw [hidle] at hplace
              cases hplace
            · rw [hquerying] at hplace
              cases hplace
        | handler connection =>
            let inside : CriticalSection := ⟨.handler connection, state.nextTag,
              .configuration keyList, none, .sending (instanceSendConfirmation setup keyList.val)⟩
            have hwired' : ((state.setNode name ⟨fd, some inside⟩).setPlace
                (.handler connection) (.configuring name)).Wired :=
              hwired.configure hnode hplace rfl rfl rfl
            exact hwired'.congr rfl rfl rfl rfl rfl rfl
      · -- a request
        cases hstep
        have hawaits := hwired.awaits_ne hnone (isPending_of_waits hwaits hinside)
        let inside : CriticalSection := ⟨thread, state.nextTag, .instruction instruction,
          (Message.instruction instruction).argument fd, .sending instruction.val.blocks⟩
        have hwired' : (state.setNode name ⟨fd, some inside⟩).Wired :=
          hwired.enter hnode ⟨keyList, hinside⟩ rfl (fun _ => hawaits) fun connection hplace =>
            hawaits connection (by rw [hplace]; rfl)
        refine hwired'.congr rfl rfl rfl rfl ?_ rfl
        exact Function.update_eq_self thread state.place
    · cases hstep

theorem Wired.afterSend (hwired : state.Wired) {fd : Option ℕ} {left : List (List UInt8)}
    (hnode : state.nodes name = some ⟨fd, some inside⟩) :
    (state.afterSend name fd inside left).Wired := by
  unfold Connections.afterSend
  split
  · exact hwired.unlock hnode
  · exact hwired.setInside hnode rfl rfl (.inr rfl)
  · exact hwired.setInside hnode rfl rfl (.inl rfl)

theorem Wired.send (hwired : state.Wired) {fails : Bool}
    (hstep : state.send name fails = some next) :
    next.Wired := by
  rw [Connections.send] at hstep
  split at hstep
  · rename_i fd inside hnode
    split at hstep
    · split at hstep
      · cases hstep
        exact hwired.unlock hnode
      · rename_i connection hopen
        obtain ⟨⟨isSent, channel⟩, -, rfl⟩ := Option.map_eq_some_iff.mp hstep
        have hwired' := hwired.setChannel connection channel
        split
        · exact hwired'.afterSend hnode
        · exact hwired'.unlock hnode
    · cases hstep
  · cases hstep

theorem Wired.afterRecv (hwired : state.Wired) {fd : Option ℕ} {instruction : Instruction}
    {chunks : List (List (UInt8 × ℕ))} (hnode : state.nodes name = some ⟨fd, some inside⟩) :
    (state.afterRecv name fd inside instruction chunks).Wired := by
  rw [Connections.afterRecv]
  split
  · exact hwired.setInside hnode rfl rfl (.inl rfl)
  · exact (hwired.unlock hnode).congr rfl rfl rfl rfl rfl rfl
  · exact hwired.unlock hnode

theorem Wired.recv (hwired : state.Wired) (hstep : state.recv name = some next) :
    next.Wired := by
  rw [Connections.recv] at hstep
  split at hstep
  · rename_i fd inside hnode
    split at hstep
    · split at hstep
      · split at hstep
        · cases hstep
          exact hwired.unlock hnode
        · rename_i connection hopen
          obtain ⟨⟨result, channel⟩, -, rfl⟩ := Option.map_eq_some_iff.mp hstep
          have hwired' := hwired.setChannel connection channel
          split
          · exact hwired'.afterRecv hnode
          · exact hwired'.unlock hnode
      · cases hstep
    · cases hstep
  · cases hstep

theorem Wired.settle (hwired : state.Wired) (hstep : state.settle connection = some next) :
    next.Wired := by
  rw [Connections.settle] at hstep
  split at hstep
  · rename_i name error hplace hlock
    split at hstep
    · -- the connection is taken out of its node
      rename_i fd inside hnode
      cases hstep
      have hinside := insideAt_of_nodes hnode
      have hfd := fdAt_of_nodes hnode
      have hnot := hwired.accepted_of_place (by rw [hplace]; nofun)
      have hopened := hwired.opened connection hnot (by rw [hplace]; nofun)
      constructor
      case fresh =>
        intro other hother
        have := hwired.fresh other hother
        grind [Function.update_apply]
      case own => exact hwired.own
      case bound => exact hwired.bound
      case opened =>
        intro other hother hclosed
        have := hwired.opened other hother
        grind [Function.update_apply]
      case hosted =>
        intro other number hrefers
        have := hwired.hosted other number
        grind [Function.update_apply, Refers, Place.host]
      case busy =>
        intro other someone hother
        have := hwired.busy other someone
        grind [Function.update_apply, Place.inside]
      case given =>
        intro other someone hother
        have := hwired.given other someone
        grind [Function.update_apply]
      case awaiting =>
        intro other node hother
        have := hwired.awaiting other node
        grind [Function.update_apply, Place.awaits]
      case alone =>
        intro other node hother
        have := hwired.alone other node
        grind [Function.update_apply]
      case configures =>
        intro other node hother
        have := hwired.configures other node
        grind [Function.update_apply]
      case replacing =>
        intro other node hother
        have := hwired.replacing other node
        grind [Function.update_apply, Place.replaces]
      case tested =>
        intro node someone other hsomeone htest
        have := hwired.tested node someone other
        grind [Function.update_apply, Place.awaits]
      case replaced =>
        intro node first second hfirst
        have := hwired.replaced node first second
        grind [Function.update_apply, Place.awaits]
      case scheduler => exact hwired.scheduler
    · cases hstep
    · rename_i hnode
      cases hstep
      exact hwired.move hplace nofun (fun _ => rfl) nofun rfl rfl rfl
  · cases hstep

theorem Wired.close (hwired : state.Wired) (hunused : ClosesUnused state (.close connection))
    (hstep : state.close connection = some next) : next.Wired := by
  rw [Connections.close] at hstep
  split at hstep
  · rename_i host hplace
    cases hstep
    have hunused : ∀ name, ¬ state.Refers name (state.fdOf connection) := hunused
    have haccepted := hwired.accepted_of_place (by rw [hplace]; nofun)
    have hopened := hwired.opened connection haccepted (by rw [hplace]; nofun)
    constructor
    case fresh =>
      intro other hother
      have := hwired.fresh other hother
      grind [Function.update_apply]
    case own =>
      intro number other hother
      have := hwired.own number other
      grind [Function.update_apply]
    case bound =>
      intro number other hother
      have := hwired.bound number other
      grind [Function.update_apply]
    case opened =>
      intro other hother hclosed
      have := hwired.opened other hother
      grind [Function.update_apply]
    case hosted =>
      intro other number hrefers
      have := hwired.hosted other number hrefers
      have := hunused other
      have := hwired.own number
      grind [Function.update_apply, Refers]
    case busy =>
      intro other someone hother
      have := hwired.busy other someone
      grind [Function.update_apply, Place.inside]
    case given => exact hwired.given
    case awaiting =>
      intro other node hother
      have := hwired.awaiting other node
      have := hunused node
      grind [Function.update_apply, Place.awaits, Refers]
    case alone =>
      intro other node hother
      have := hwired.alone other node
      grind [Function.update_apply]
    case configures =>
      intro other node hother
      have := hwired.configures other node
      grind [Function.update_apply]
    case replacing =>
      intro other node hother
      have := hwired.replacing other node
      grind [Function.update_apply, Place.replaces]
    case tested =>
      intro node someone other hsomeone htest
      have := hwired.tested node someone other
      grind [Function.update_apply, Place.awaits]
    case replaced =>
      intro node first second hfirst
      have := hwired.replaced node first second
      grind [Function.update_apply, Place.awaits]
    case scheduler => exact hwired.scheduler
  · cases hstep

theorem Wired.ask (hwired : state.Wired) {key : { key : CString // key.length ≤ 40 }}
    (hstep : state.ask name key = some next) : next.Wired := by
  rw [Connections.ask] at hstep
  split at hstep
  · rename_i fd hidle hfd
    cases hstep
    have hidle' : ∀ inside, state.insideAt name = some inside → inside.thread ≠ .scheduler := by
      intro inside hinside hthread
      obtain ⟨keyList, hplace⟩ := hwired.busy name inside hinside
      rw [hthread, hidle] at hplace
      cases hplace
    constructor
    case fresh =>
      intro other hother
      have := hwired.fresh other hother
      grind [Function.update_apply]
    case own => exact hwired.own
    case bound => exact hwired.bound
    case opened =>
      intro other hother hclosed
      have := hwired.opened other hother
      grind [Function.update_apply]
    case hosted =>
      intro other number hrefers
      have := hwired.hosted other number hrefers
      grind [Function.update_apply]
    case busy =>
      intro other someone hother
      have := hwired.busy other someone
      grind [Function.update_apply, Place.inside]
    case given => exact hwired.given
    case awaiting =>
      intro other node hother
      have := hwired.awaiting other node
      grind [Function.update_apply]
    case alone =>
      intro other node hother
      have := hwired.alone other node
      grind [Function.update_apply]
    case configures =>
      intro other node hother
      have := hwired.configures other node
      grind [Function.update_apply]
    case replacing =>
      intro other node hother
      have := hwired.replacing other node
      grind [Function.update_apply]
    case tested =>
      intro node someone other hsomeone htest
      have := hwired.tested node someone other
      grind [Function.update_apply]
    case replaced =>
      intro node first second hfirst
      have := hwired.replaced node first second
      grind [Function.update_apply]
    case scheduler => grind [Function.update_apply]
  · cases hstep

/-- A handler that has just confirmed the handshake moves. -/
theorem Wired.begin (hwired : state.Wired)
    (hplace : state.place (.handler connection) = .start) (hlarge : connection < state.accepted)
    (hhost : place.host = none) (hawaits : place.awaits = none)
    (hreplaces : place.replaces = none) :
    (state.setPlace (.handler connection) place).Wired := by
  refine hwired.setPlace connection (fun hsmall => ?_) (fun _ => ?_) ?_ ?_ hawaits hreplaces
  · omega
  · rw [hplace]
    rfl
  · rw [hplace]
    nofun
  · rw [hplace, hhost]
    rfl

theorem Wired.receiveName (hwired : state.Wired) {given : Option CString}
    (hstep : state.instanceRecvName connection given = some next) : next.Wired := by
  rw [instanceRecvName] at hstep
  split at hstep
  · rename_i hplace
    split at hstep
    · rename_i hlarge
      cases hstep
      cases given <;> exact hwired.begin hplace hlarge rfl rfl rfl
    · cases hstep
  · cases hstep

theorem Wired.leave (hwired : state.Wired) (hstep : state.leave connection = some next) :
    next.Wired := by
  rw [Connections.leave] at hstep
  split at hstep
  · rename_i hplace
    split at hstep
    · rename_i hlarge
      cases hstep
      exact hwired.begin hplace hlarge rfl rfl rfl
    · cases hstep
  · cases hstep

theorem Wired.refuse (hwired : state.Wired) {fails : Bool}
    (hstep : state.refuse connection fails = some next) : next.Wired := by
  rw [Connections.refuse] at hstep
  split at hstep
  · rename_i hplace
    obtain ⟨sent, -, rfl⟩ := Option.map_eq_some_iff.mp hstep
    have hwired' : (state.setPlace (.handler connection) (.closing none)).Wired :=
      hwired.move hplace nofun (fun _ => rfl) nofun rfl rfl rfl
    exact hwired'.congr rfl rfl rfl rfl rfl rfl
  · cases hstep

theorem Wired.pop (hwired : state.Wired) {request : Request}
    (hstep : state.pop connection request = some next) : next.Wired := by
  rw [Connections.pop] at hstep
  split at hstep
  · rename_i hplace
    cases hstep
    split <;> exact hwired.move hplace nofun (fun _ => rfl) nofun rfl rfl rfl
  · cases hstep

theorem Wired.iterate (hwired : state.Wired) {nodes : List CString}
    (hstep : state.iterate connection nodes = some next) : next.Wired := by
  rw [Connections.iterate] at hstep
  split at hstep
  · rename_i hplace
    split at hstep
    · cases hstep
      exact hwired.move hplace nofun (fun _ => rfl) nofun rfl rfl rfl
    · cases hstep
  · cases hstep

theorem Wired.sendCompact (hwired : state.Wired) {fails : Bool}
    (hstep : state.sendCompact connection fails = some next) : next.Wired := by
  rw [Connections.sendCompact] at hstep
  split at hstep
  · rename_i hplace
    cases hstep
    exact hwired.move hplace nofun (fun _ => rfl) nofun rfl rfl rfl
  · rename_i name node nodes hplace
    have hwired' : (state.setPlace (.handler connection) (.broadcasting name nodes)).Wired :=
      hwired.move hplace nofun (fun _ => rfl) nofun rfl rfl rfl
    split at hstep
    · split at hstep
      · cases hstep
        exact hwired'
      · split at hstep
        · cases hstep
          exact hwired'
        · obtain ⟨sent, -, rfl⟩ := Option.map_eq_some_iff.mp hstep
          exact hwired'.congr rfl rfl rfl rfl rfl rfl
    · cases hstep
  · cases hstep

/-- **One step** keeps descriptors, locks and places together, when no thread asks before
the configuration was sent and a descriptor is closed when it is unused. -/
theorem Wired.step (hwired : state.Wired) {event : LineEvent}
    (hwaits : state.waitsForConfiguration event = true) (hunused : state.ClosesUnused event)
    (hstep : Connections.step setup state event = some next) : next.Wired := by
  cases event with
  | accept fd => exact hwired.accept hstep
  | leave connection => exact hwired.leave hstep
  | receiveName connection name => exact hwired.receiveName hstep
  | add connection => exact hwired.add hstep
  | publish connection => exact hwired.publish hstep
  | refuse connection fails => exact hwired.refuse hstep
  | lock thread keyList => exact hwired.lock hwaits hstep
  | send name fails => exact hwired.send hstep
  | recv name => exact hwired.recv hstep
  | pop connection request => exact hwired.pop hstep
  | iterate connection nodes => exact hwired.iterate hstep
  | compact connection fails => exact hwired.sendCompact hstep
  | settle connection => exact hwired.settle hstep
  | close connection => exact hwired.close hunused hstep
  | ask name key => exact hwired.ask hstep
  | readConfig connection =>
      obtain ⟨channel, -, rfl⟩ := Option.map_eq_some_iff.mp hstep
      exact hwired.setChannel connection channel
  | serve connection outcome sent =>
      obtain ⟨channel, -, rfl⟩ := Option.map_eq_some_iff.mp hstep
      exact hwired.setChannel connection channel
  | die connection =>
      cases hstep
      exact hwired.setChannel connection _

/-! ## What follows -/

/-- The connection that the next call of the thread inside uses. -/
def connectionOf (state : Connections) (name : CString) (inside : CriticalSection) : Option ℕ :=
  (inside.descriptor (state.fdAt name)).bind state.descriptors

theorem refers_of_connectionOf (hinside : state.insideAt name = some inside)
    (hopen : state.connectionOf name inside = some connection) :
    ∃ fd, state.Refers name fd ∧ state.descriptors fd = some connection := by
  obtain ⟨fd, hfd, hopen⟩ := Option.bind_eq_some_iff.mp hopen
  refine ⟨fd, ?_, hopen⟩
  rw [CriticalSection.descriptor] at hfd
  split at hfd
  · exact .inr ⟨inside, hinside, hfd⟩
  · exact .inl hfd

theorem refers_of_fdAt (hopen : (state.fdAt name).bind state.descriptors = some connection) :
    ∃ fd, state.Refers name fd ∧ state.descriptors fd = some connection := by
  obtain ⟨fd, hfd, hopen⟩ := Option.bind_eq_some_iff.mp hopen
  exact ⟨fd, .inl hfd, hopen⟩

/-- The handler of a connection that is used has the node for its own. -/
theorem Wired.host_of_refers (hwired : state.Wired)
    (hrefers : ∃ fd, state.Refers name fd ∧ state.descriptors fd = some connection) :
    (state.place (.handler connection)).host = some name := by
  obtain ⟨fd, hrefers, hopen⟩ := hrefers
  obtain ⟨other, hother, hhost⟩ := hwired.hosted name fd hrefers
  rw [hopen] at hother
  rw [Option.some.inj hother]
  exact hhost

/-- A connection is used through one node. -/
theorem Wired.unique (hwired : state.Wired)
    (hname : ∃ fd, state.Refers name fd ∧ state.descriptors fd = some connection)
    (hother : ∃ fd, state.Refers other fd ∧ state.descriptors fd = some connection) :
    name = other := by
  have hhost := hwired.host_of_refers hname
  rw [hwired.host_of_refers hother] at hhost
  exact (Option.some.inj hhost).symm

/-- A thread inside uses the connection of the node, if there is one. -/
theorem Wired.connectionOf_eq (hwired : state.Wired)
    (hinside : state.insideAt name = some inside)
    (hopen : (state.fdAt name).bind state.descriptors = some connection) :
    state.connectionOf name inside = some connection := by
  rw [connectionOf, CriticalSection.descriptor]
  split
  · rename_i htakes
    rcases hwired.given name inside hinside htakes with hfd | hfd
    · rw [← hfd]
      exact hopen
    · rw [hfd] at hopen
      cases hopen
  · exact hopen

end Connections

end SockMyPort.Sistema.Sockets
