/-
# What is said on all connections

Every connection is in order: it has a conversation with the thread inside the critical
section of its node, and is settled when there is none. The invariant is kept by what a
thread does with a node: it enters the critical section, sends, receives and leaves.
-/

import SockMyPort.Sistema.InstanceDialogue
import SockMyPort.Sistema.InstanceNodes

namespace SockMyPort.Sistema.Sockets

open SockMyPort.Commons SockMyPort.Protocolo SockMyPort.Libs SockMyPort.Coordinador
  SockMyPort.Instancia Library

variable {setup : EntriesSetup}

/-! ## All connections -/

/-- Before the configuration. -/
def Place.isEarly : Place → Bool
  | .start | .named _ | .testing _ | .publishing _ | .refusing | .published _
  | .querying _ _ => true
  | _ => false

/-- What was written is the configuration, as far as it goes. -/
def Headed (setup : EntriesSetup) (written : List UInt8) : Prop :=
  ∃ keyList, written <+: configurationBytes setup keyList ∨
    configurationBytes setup keyList <+: written

/-- The configuration was written, or the instance is dead. -/
def Configured (setup : EntriesSetup) (channel : Channel ReceivedRequest) : Prop :=
  channel.isBroken = true ∨ ∃ keyList, configurationBytes setup keyList <+: channel.written

theorem Configured.write {channel : Channel ReceivedRequest}
    (hconfigured : Configured setup channel)
    (tag : ℕ) (block : List UInt8) : Configured setup (channel.write tag block) := by
  refine hconfigured.imp id ?_
  rintro ⟨keyList, hbegin⟩
  exact ⟨keyList, hbegin.trans (List.prefix_append _ _)⟩

/-- What follows the configuration comes after it. -/
theorem Configured.headed {channel : Channel ReceivedRequest}
    (hconfigured : Configured setup channel) (hbroken : channel.isBroken = false)
    (block : List UInt8) : Headed setup (channel.written ++ block) := by
  rcases hconfigured with hdead | ⟨keyList, hbegin⟩
  · rw [hbroken] at hdead
    cases hdead
  · exact ⟨keyList, .inr (hbegin.trans (List.prefix_append _ _))⟩

/-- A block of the configuration. -/
theorem Configuring.headed {channel : Channel ReceivedRequest} {keyList : KeyList}
    {block : List UInt8} {left : List (List UInt8)}
    (hconfiguring : Configuring setup keyList (block :: left) channel) :
    Headed setup (channel.written ++ block) := by
  refine ⟨keyList, .inl ⟨left.flatten, ?_⟩⟩
  rw [List.append_assoc, ← List.flatten_cons]
  exact hconfiguring.written

namespace Connections

/-- What is said on all connections. -/
structure Talking (setup : EntriesSetup) (state : Connections) : Prop where
  fresh : ∀ connection, (state.place (.handler connection)).isEarly = true →
    Fresh (state.channel connection)
  inside : ∀ name inside connection, state.insideAt name = some inside →
    state.connectionOf name inside = some connection →
      Conversing setup inside (state.channel connection)
  settled : ∀ name connection, state.insideAt name = none →
    (state.fdAt name).bind state.descriptors = some connection →
      (state.place (.handler connection)).awaits = none → Settled (state.channel connection)
  own : ∀ reading ∈ state.readings, ∃ connection < state.accepted,
    OwnReply (state.channel connection) reading
  head : ∀ connection, state.isRefused connection = false →
    Headed setup (state.channel connection).written
  configured : ∀ connection name, (state.place (.handler connection)).host = some name →
    (state.place (.handler connection)).awaits = none →
      Configured setup (state.channel connection)

variable {state next : Connections} {name other : CString} {inside inside' : CriticalSection}
  {connection : ℕ} {channel : Channel ReceivedRequest} {place : Place}
  {result : Option (List (UInt8 × ℕ))} {node : InstanceNode}

theorem fresh_init : Fresh .init := ⟨rfl, rfl, rfl, rfl, rfl⟩

theorem headed_nil : Headed setup [] :=
  ⟨⟨[], nofun, by decide⟩, .inl List.nil_prefix⟩

theorem talking_init : init.Talking setup where
  fresh _ _ := fresh_init
  inside _ _ _ hinside := by cases hinside
  settled _ _ _ hopen := by cases hopen
  own _ hmem := by cases hmem
  head _ _ := headed_nil
  configured _ _ hhost := by cases hhost

/-- Whoever is inside the critical section of a node, the handler of the connection in use
has got beyond the beginning. -/
theorem Wired.not_early (hwired : state.Wired) (hinside : state.insideAt name = some inside)
    (hopen : state.connectionOf name inside = some connection) :
    (state.place (.handler connection)).isEarly = false := by
  have hhost := hwired.host_of_refers (refers_of_connectionOf hinside hopen)
  cases hplace : state.place (.handler connection) with
  | published node =>
      rw [hplace] at hhost
      have halone := hwired.alone connection node hplace
      rw [Option.some.inj hhost, hinside] at halone
      cases halone
  | start | refusing | named | testing | publishing | querying =>
      rw [hplace] at hhost
      cases hhost
  | _ => rfl

/-- A handler that is in no critical section and does not wait for its configuration
moves. -/
theorem Talking.setPlace (htalking : state.Talking setup) (connection : ℕ)
    (hearly : place.isEarly = true → (state.place (.handler connection)).isEarly = true)
    (hhost : place.host = (state.place (.handler connection)).host)
    (hawaits : (state.place (.handler connection)).awaits = none) :
    (state.setPlace (.handler connection) place).Talking setup where
  fresh other hother := by
    have := htalking.fresh other
    grind [Function.update_apply]
  inside := htalking.inside
  settled node other hnode hopen hother := by
    have := htalking.settled node other hnode hopen
    grind [Function.update_apply]
  own := htalking.own
  head := htalking.head
  configured other node hother hnone := by
    have := htalking.configured other node
    grind [Function.update_apply]

/-- A place that is not early is a change for nobody else. -/
theorem Talking.setPlaceLate (htalking : state.Talking setup) (connection : ℕ)
    (hlate : place.isEarly = false)
    (hhost : place.host = (state.place (.handler connection)).host)
    (hawaits : (state.place (.handler connection)).awaits = none) :
    (state.setPlace (.handler connection) place).Talking setup :=
  htalking.setPlace connection (fun hearly => absurd hearly (by simp [hlate])) hhost hawaits

/-- The thread inside goes on after a step on the connection. -/
theorem Talking.proceed (htalking : state.Talking setup) (hwired : state.Wired) {fd : Option ℕ}
    (hnode : state.nodes name = some ⟨fd, some inside⟩)
    (hopen : state.connectionOf name inside = some connection)
    (hsame : ∀ other, (inside'.descriptor fd).bind state.descriptors = some other →
      other = connection)
    (hconversing : Conversing setup inside' channel)
    (hanswers : (state.channel connection).answers ⊆ channel.answers)
    (hhead : Headed setup (state.channel connection).written → Headed setup channel.written)
    (hconfigured : Configured setup (state.channel connection) → Configured setup channel) :
    ((state.setChannel connection channel).setNode name ⟨fd, some inside'⟩).Talking setup := by
  have hinside := insideAt_of_nodes hnode
  have hearly := hwired.not_early hinside hopen
  have hrefers := refers_of_connectionOf hinside hopen
  constructor
  case fresh =>
    intro other hother
    have := htalking.fresh other
    grind [Function.update_apply]
  case inside =>
    intro node someone other hsomeone hother
    by_cases hname : node = name
    · subst hname
      have hsomeone : some inside' = some someone := by
        rw [← hsomeone, insideAt_setNode, if_pos rfl]
      have hother : (inside'.descriptor fd).bind state.descriptors = some other := by
        rw [← hother, Option.some.inj hsomeone, connectionOf, fdAt_setNode, if_pos rfl]
      rw [← Option.some.inj hsomeone, hsame other hother]
      show Conversing setup inside' (Function.update state.channel connection channel connection)
      rw [Function.update_self]
      exact hconversing
    · rw [insideAt_setNode, if_neg hname] at hsomeone
      rw [connectionOf, fdAt_setNode, if_neg hname] at hother
      have hne : other ≠ connection := by
        rintro rfl
        exact hname (hwired.unique (refers_of_connectionOf hsomeone hother) hrefers)
      have := htalking.inside node someone other hsomeone hother
      grind [Function.update_apply]
  case settled =>
    intro node other hsomeone hother hawaits
    by_cases hname : node = name
    · rw [insideAt_setNode, if_pos hname] at hsomeone
      cases hsomeone
    · rw [insideAt_setNode, if_neg hname] at hsomeone
      rw [fdAt_setNode, if_neg hname] at hother
      have hne : other ≠ connection := by
        rintro rfl
        exact hname (hwired.unique (refers_of_fdAt hother) hrefers)
      have := htalking.settled node other hsomeone hother hawaits
      grind [Function.update_apply]
  case own =>
    intro reading hmem
    obtain ⟨other, hlarge, answer, hanswer, hown⟩ := htalking.own reading hmem
    refine ⟨other, hlarge, answer, ?_, hown⟩
    have := hanswers
    grind [Function.update_apply]
  case head =>
    intro other hother
    have := htalking.head other hother
    grind [Function.update_apply]
  case configured =>
    intro other node hother hawaits
    have := htalking.configured other node hother hawaits
    grind [Function.update_apply]

theorem host_eq_none (hearly : place.isEarly = true) (hawaits : place.awaits = none) :
    place.host = none := by
  cases place <;> first | rfl | exact absurd hearly Bool.false_ne_true | cases hawaits

/-- A thread that leaves a critical section gets beyond the beginning with it. -/
theorem isEarly_of_after {keyList : KeyList} {message : Message}
    (hplace : place.inside keyList = some (name, message))
    (hearly : (message.after name result).isEarly = true) : place.isEarly = true := by
  have hleaves : Leaves name result message place (message.after name result) :=
    leaves_after hplace
  have hhost := host_eq_none hearly hleaves.awaits
  rw [hleaves.host] at hhost
  cases place with
  | configuring node => cases hhost
  | asking node request => cases hhost
  | testing node => rfl
  | querying node key => rfl
  | _ => cases hplace

theorem host_of_awaits (hawaits : place.awaits = some name) : place.host = some name := by
  cases place with
  | published node => exact hawaits
  | configuring node => exact hawaits
  | _ => cases hawaits

/-- Who leaves is early only where it was early before. -/
theorem isEarly_of_leave {places : Thread → Place} {keyList : KeyList}
    (hplace : (places inside.thread).inside keyList = some (name, inside.message)) {other : ℕ}
    (hearly : (Function.update places inside.thread (inside.message.after name result)
      (.handler other)).isEarly = true) : (places (.handler other)).isEarly = true := by
  by_cases hthread : inside.thread = .handler other
  · rw [← hthread, Function.update_self] at hearly
    rw [← hthread]
    exact isEarly_of_after hplace hearly
  · rwa [Function.update_of_ne (Ne.symm hthread)] at hearly

/-- A handler inside that has not sent its configuration yet is there to send it, and has its
connection in use. -/
theorem Wired.configuration_of_awaits (hwired : state.Wired)
    (hinside : state.insideAt name = some inside) {other : ℕ}
    (hthread : inside.thread = .handler other)
    (hawaits : (state.place (.handler other)).awaits ≠ none) :
    state.connectionOf name inside = some other ∧
      ∃ keyList, inside.message = .configuration keyList := by
  obtain ⟨keyList, hplace⟩ := hwired.busy name inside hinside
  rw [hthread] at hplace
  cases hconfigures : state.place (.handler other) with
  | configuring node =>
      rw [hconfigures] at hplace
      obtain ⟨rfl, hmessage⟩ := Prod.mk.inj (Option.some.inj hplace)
      obtain ⟨hfd, hopen⟩ := hwired.awaiting other node (by rw [hconfigures]; rfl)
      refine ⟨hwired.connectionOf_eq hinside ?_, keyList, hmessage.symm⟩
      rw [hfd]
      exact hopen
  | published node =>
      rw [hconfigures] at hplace
      cases hplace
  | _ =>
      rw [hconfigures] at hawaits
      exact absurd rfl hawaits

/-- The thread inside leaves. On its connection it may have taken a step. -/
theorem Talking.leave (htalking : state.Talking setup) (hwired : state.Wired) {fd : Option ℕ}
    (hnode : state.nodes name = some ⟨fd, some inside⟩)
    (channels : ℕ → Channel ReceivedRequest)
    (hother : ∀ other, state.connectionOf name inside ≠ some other →
      channels other = state.channel other)
    (hsettled : ∀ connection, state.connectionOf name inside = some connection →
      Settled (channels connection))
    (hanswers : ∀ connection, (state.channel connection).answers ⊆ (channels connection).answers)
    (hhead : ∀ connection, Headed setup (state.channel connection).written →
      Headed setup (channels connection).written)
    (hconfigured : ∀ connection, state.connectionOf name inside = some connection →
      (∃ keyList, inside.message = .configuration keyList) ∨
        Configured setup (state.channel connection) → Configured setup (channels connection)) :
    ({ state with channel := channels }.unlock name fd inside result).Talking setup := by
  have hinside := insideAt_of_nodes hnode
  obtain ⟨keyList, hplace⟩ := hwired.busy name inside hinside
  have hleaves : Leaves name result inside.message (state.place inside.thread)
    (inside.message.after name result) := leaves_after hplace
  have hplaces : ∀ other, inside.thread ≠ .handler other →
      Function.update state.place inside.thread (inside.message.after name result)
        (.handler other) = state.place (.handler other) := fun other hne =>
    Function.update_of_ne (Ne.symm hne) _ _
  have hself : ∀ other, inside.thread = .handler other →
      Function.update state.place inside.thread (inside.message.after name result)
        (.handler other) = inside.message.after name result := by
    rintro other hthread
    rw [hthread, Function.update_self]
  constructor
  case fresh =>
    intro other hearly
    have hold := isEarly_of_leave hplace hearly
    show Fresh (channels other)
    rw [hother other]
    · exact htalking.fresh other hold
    · intro hopen
      rw [hwired.not_early hinside hopen] at hold
      cases hold
  case inside =>
    intro node someone other hsomeone hopen
    by_cases hname : node = name
    · rw [insideAt_setNode, if_pos hname] at hsomeone
      cases hsomeone
    · rw [insideAt_setNode, if_neg hname] at hsomeone
      rw [connectionOf, fdAt_setNode, if_neg hname] at hopen
      show Conversing setup someone (channels other)
      rw [hother other]
      · exact htalking.inside node someone other hsomeone hopen
      · intro huse
        exact hname (hwired.unique (refers_of_connectionOf hsomeone hopen)
          (refers_of_connectionOf hinside huse))
  case settled =>
    intro node other hsomeone hopen hawaits
    by_cases hname : node = name
    · subst hname
      rw [fdAt_setNode, if_pos rfl] at hopen
      have hopen : (state.fdAt node).bind state.descriptors = some other := by
        rw [fdAt_of_nodes hnode]
        exact hopen
      exact hsettled other (hwired.connectionOf_eq hinside hopen)
    · rw [insideAt_setNode, if_neg hname] at hsomeone
      rw [fdAt_setNode, if_neg hname] at hopen
      have hne : state.connectionOf name inside ≠ some other := by
        intro huse
        exact hname (hwired.unique (refers_of_fdAt hopen) (refers_of_connectionOf hinside huse))
      show Settled (channels other)
      rw [hother other hne]
      refine htalking.settled node other hsomeone hopen ?_
      by_contra hold
      by_cases hthread : inside.thread = .handler other
      · exact hne (hwired.configuration_of_awaits hinside hthread hold).1
      · replace hawaits : (Function.update state.place inside.thread
          (inside.message.after name result) (.handler other)).awaits = none := hawaits
        rw [hplaces other hthread] at hawaits
        exact hold hawaits
  case own =>
    intro reading hmem
    obtain ⟨other, hlarge, answer, hanswer, hown⟩ := htalking.own reading hmem
    exact ⟨other, hlarge, answer, hanswers other hanswer, hown⟩
  case head =>
    intro other hrefused
    exact hhead other (htalking.head other hrefused)
  case configured =>
    intro other node hhost hawaits
    replace hhost : (Function.update state.place inside.thread
      (inside.message.after name result) (.handler other)).host = some node := hhost
    replace hawaits : (Function.update state.place inside.thread
      (inside.message.after name result) (.handler other)).awaits = none := hawaits
    -- the handler has sent its configuration now, or it had before
    have hbefore : (state.connectionOf name inside = some other ∧
        ∃ keyList, inside.message = .configuration keyList) ∨
          Configured setup (state.channel other) := by
      by_cases hthread : inside.thread = .handler other
      · rw [hself other hthread, hleaves.host, hthread] at hhost
        by_cases hold : (state.place (.handler other)).awaits = none
        · exact .inr (htalking.configured other node hhost hold)
        · exact .inl (hwired.configuration_of_awaits hinside hthread hold)
      · rw [hplaces other hthread] at hhost hawaits
        exact .inr (htalking.configured other node hhost hawaits)
    show Configured setup (channels other)
    by_cases huse : state.connectionOf name inside = some other
    · exact hconfigured other huse (hbefore.imp And.right id)
    · rw [hother other huse]
      exact hbefore.resolve_left fun hleft => huse hleft.1

/-- The thread inside leaves after a step on the connection. -/
theorem Talking.finish (htalking : state.Talking setup) (hwired : state.Wired) {fd : Option ℕ}
    (hnode : state.nodes name = some ⟨fd, some inside⟩)
    (hopen : state.connectionOf name inside = some connection) (hsettled : Settled channel)
    (hanswers : (state.channel connection).answers ⊆ channel.answers)
    (hhead : Headed setup (state.channel connection).written → Headed setup channel.written)
    (hconfigured : (∃ keyList, inside.message = .configuration keyList) ∨
      Configured setup (state.channel connection) → Configured setup channel) :
    ((state.setChannel connection channel).unlock name fd inside result).Talking setup := by
  refine htalking.leave hwired hnode _ ?_ ?_ ?_ ?_ ?_
  · intro other hne
    refine Function.update_of_ne ?_ _ _
    rintro rfl
    exact hne hopen
  · intro other hother
    rw [hopen] at hother
    rw [← Option.some.inj hother, Function.update_self]
    exact hsettled
  · intro other
    by_cases hsame : other = connection
    · rw [hsame, Function.update_self]
      exact hanswers
    · rw [Function.update_of_ne hsame]
      exact fun _ hmem => hmem
  · intro other
    by_cases hsame : other = connection
    · rw [hsame, Function.update_self]
      exact hhead
    · rw [Function.update_of_ne hsame]
      exact id
  · intro other hother
    rw [hopen] at hother
    rw [← Option.some.inj hother, Function.update_self]
    exact hconfigured

/-- The thread inside has found no connection. -/
theorem Talking.abandon (htalking : state.Talking setup) (hwired : state.Wired) {fd : Option ℕ}
    (hnode : state.nodes name = some ⟨fd, some inside⟩)
    (hopen : state.connectionOf name inside = none) :
    (state.unlock name fd inside result).Talking setup := by
  have hnone : ∀ other, state.connectionOf name inside ≠ some other := by
    intro other hother
    rw [hopen] at hother
    cases hother
  exact htalking.leave hwired hnode state.channel (fun _ _ => rfl)
    (fun other hother => absurd hother (hnone other)) (fun _ _ hmem => hmem) (fun _ => id)
    (fun other hother => absurd hother (hnone other))

/-! ## Sending and receiving -/

/-- The connection that is asked something was configured. -/
theorem Wired.awaits_of_instruction (hwired : state.Wired) {instruction : IssuedInstruction}
    (hinside : state.insideAt name = some inside)
    (hmessage : inside.message = .instruction instruction)
    (hopen : state.connectionOf name inside = some connection) :
    (state.place (.handler connection)).awaits = none ∧
      (state.place (.handler connection)).host = some name := by
  have hhost := hwired.host_of_refers (refers_of_connectionOf hinside hopen)
  refine ⟨?_, hhost⟩
  cases hplace : state.place (.handler connection) with
  | published node =>
      rw [hplace] at hhost
      have halone := hwired.alone connection node hplace
      rw [Option.some.inj hhost, hinside] at halone
      cases halone
  | configuring node =>
      rw [hplace] at hhost
      obtain ⟨someone, hsomeone, hthread⟩ := hwired.configures connection node hplace
      rw [Option.some.inj hhost, hinside] at hsomeone
      obtain ⟨keyList, hbusy⟩ := hwired.busy name inside hinside
      rw [Option.some.inj hsomeone, hthread, hplace, ← Option.some.inj hsomeone, hmessage] at hbusy
      cases hbusy
  | _ => rfl

theorem Talking.send (htalking : state.Talking setup) (hwired : state.Wired) {fails : Bool}
    (hstep : state.send name fails = some next) : next.Talking setup := by
  rw [Connections.send] at hstep
  split at hstep
  · rename_i fd inside hnode
    have hinside := insideAt_of_nodes hnode
    have hfd := fdAt_of_nodes hnode
    split at hstep
    · rename_i block left hphase
      split at hstep
      · rename_i hopen
        cases hstep
        rw [← hfd] at hopen
        exact htalking.abandon hwired hnode hopen
      · rename_i connection hopen
        obtain ⟨⟨isSent, channel⟩, hsend, rfl⟩ := Option.map_eq_some_iff.mp hstep
        have huse : state.connectionOf name inside = some connection := by
          rw [connectionOf, hfd]
          exact hopen
        have hconversing := htalking.inside name inside connection hinside huse
        rcases Channel.trySend_eq_some hsend with ⟨rfl, hbroken, rfl⟩ | ⟨rfl, halive, rfl⟩
        · -- the block was sent
          rw [if_pos rfl]
          have hhead : Headed setup ((state.channel connection).written ++ block) := by
            cases hmessage : inside.message with
            | configuration keyList =>
                simp only [Conversing, hmessage, hphase] at hconversing
                exact hconversing.headed
            | instruction instruction =>
                obtain ⟨hawaits, hhost⟩ := hwired.awaits_of_instruction hinside hmessage huse
                exact (htalking.configured connection name hhost hawaits).headed hbroken block
          unfold Connections.afterSend
          split
          · rename_i keyList hmessage
            simp only [Conversing, hmessage, hphase] at hconversing
            obtain ⟨hsettled, hwritten⟩ := hconversing.last inside.tag
            refine htalking.finish hwired hnode huse hsettled (fun _ hmem => hmem)
              (fun _ => hhead) fun _ => .inr ⟨keyList, ?_⟩
            rw [hwritten]
          · rename_i instruction hmessage
            simp only [Conversing, hmessage, hphase] at hconversing
            refine htalking.proceed hwired hnode huse ?_ ?_ (fun _ hmem => hmem) (fun _ => hhead)
              fun hconfigured => hconfigured.write _ _
            · intro other hother
              -- the functions that receive the status are given the descriptor anew
              have hargument : CriticalSection.descriptor ⟨inside.thread, inside.tag,
                  inside.message, inside.message.argument fd, .receiving []⟩ fd = fd := by
                simp only [CriticalSection.descriptor, Message.argument]
                split <;> rfl
              rw [hargument, ← hfd] at hother
              have hsame := hwired.connectionOf_eq hinside hother
              rw [huse] at hsame
              exact (Option.some.inj hsame).symm
            · show Conversing setup ⟨inside.thread, inside.tag, inside.message, _, .receiving []⟩ _
              simp only [Conversing, hmessage]
              exact ⟨hconversing.1, hconversing.2.last⟩
          · rename_i second rest
            refine htalking.proceed hwired hnode huse ?_
              (hconversing.send hphase (List.cons_ne_nil _ _)) (fun _ hmem => hmem)
              (fun _ => hhead) fun hconfigured => hconfigured.write _ _
            intro other hother
            exact Option.some.inj (hother.symm.trans hopen)
        · -- the instance is dead
          exact htalking.finish hwired hnode huse (hconversing.fail hphase halive)
            (fun _ hmem => hmem) id fun _ => .inl rfl
    · cases hstep
  · cases hstep

/-- A reply that was read is noted. -/
theorem Talking.note (htalking : state.Talking setup) {reading : Reading}
    (hlarge : connection < state.accepted) (hown : OwnReply (state.channel connection) reading) :
    { state with readings := state.readings ++ [reading] }.Talking setup where
  fresh := htalking.fresh
  inside := htalking.inside
  settled := htalking.settled
  own other hmem := by
    rcases List.mem_append.mp hmem with hmem | hmem
    · exact htalking.own other hmem
    · rw [List.mem_singleton.mp hmem]
      exact ⟨connection, hlarge, hown⟩
  head := htalking.head
  configured := htalking.configured

theorem tryTake_frame {size : ℕ} {channel next : Channel ReceivedRequest}
    (htake : channel.tryTake size = some (result, next)) :
    next.answers = channel.answers ∧ next.written = channel.written ∧
      next.isBroken = channel.isBroken := by
  rw [Channel.tryTake] at htake
  split at htake
  · cases htake
    exact ⟨rfl, rfl, rfl⟩
  · split at htake
    · cases htake
    · cases htake
      exact ⟨rfl, rfl, rfl⟩

theorem Talking.recv (htalking : state.Talking setup) (hwired : state.Wired)
    (hstep : state.recv name = some next) : next.Talking setup := by
  rw [Connections.recv] at hstep
  split at hstep
  · rename_i fd inside hnode
    have hinside := insideAt_of_nodes hnode
    have hfd := fdAt_of_nodes hnode
    split at hstep
    · rename_i instruction chunks hmessage hphase
      split at hstep
      · rename_i size hdemand
        split at hstep
        · rename_i hopen
          cases hstep
          rw [← hfd] at hopen
          exact htalking.abandon hwired hnode hopen
        · rename_i connection hopen
          obtain ⟨⟨result, channel⟩, htake, rfl⟩ := Option.map_eq_some_iff.mp hstep
          have huse : state.connectionOf name inside = some connection := by
            rw [connectionOf, hfd]
            exact hopen
          have hconversing := htalking.inside name inside connection hinside huse
          simp only [Conversing, hmessage, hphase] at hconversing
          obtain ⟨hcompact, hlistening⟩ := hconversing
          obtain ⟨hanswers, hwritten, hbroken⟩ := tryTake_frame htake
          have hconfigured : Configured setup (state.channel connection) →
              Configured setup channel := by
            rw [Configured, Configured, hwritten, hbroken]
            exact id
          have hsubset : (state.channel connection).answers ⊆ channel.answers := by
            rw [hanswers]
            exact fun _ hmem => hmem
          have hnotConfiguration : ¬ ∃ keyList, inside.message = .configuration keyList := by
            rw [hmessage]
            rintro ⟨keyList, hsame⟩
            cases hsame
          have hfinish : ∀ result, Settled channel →
              ((state.setChannel connection channel).unlock name fd inside result).Talking setup :=
            fun result hsettled => htalking.finish hwired hnode huse hsettled hsubset
              (by rw [hwritten]; exact id)
              (Or.elim · (fun hleft => absurd hleft hnotConfiguration) hconfigured)
          rcases hlistening.recv hdemand htake with
            ⟨rfl, hsettled⟩ | ⟨chunk, rfl, ⟨size', hmore, hlistening⟩ | ⟨hall, hsettled, hown⟩⟩
          · exact hfinish none hsettled
          · show (Connections.afterRecv _ _ _ _ _ _).Talking setup
            rw [Connections.afterRecv, hmore]
            refine htalking.proceed hwired hnode huse
              (fun other hother => Option.some.inj (hother.symm.trans hopen)) ?_ hsubset
              (by rw [hwritten]; exact id) hconfigured
            simp only [Conversing, hmessage]
            exact ⟨hcompact, hlistening⟩
          · show (Connections.afterRecv _ _ _ _ _ _).Talking setup
            rw [Connections.afterRecv, hall]
            obtain ⟨number, -, hnumber⟩ := Option.bind_eq_some_iff.mp huse
            refine (hfinish _ hsettled).note (hwired.bound number connection hnumber) ?_
            show OwnReply (Function.update state.channel connection channel connection) _
            rw [Function.update_self]
            exact hown
      · cases hstep
    · cases hstep
  · cases hstep

/-! ## Entering a critical section -/

/-- A thread enters the critical section of a node and finds the connection ready. -/
theorem Talking.enter (htalking : state.Talking setup) {fd : Option ℕ}
    (hnode : state.nodes name = some ⟨fd, none⟩)
    (hconversing : ∀ connection, (inside.descriptor fd).bind state.descriptors = some connection →
      Conversing setup inside (state.channel connection)) :
    (state.setNode name ⟨fd, some inside⟩).Talking setup where
  fresh := htalking.fresh
  inside node someone other hsomeone hopen := by
    by_cases hname : node = name
    · subst hname
      have hsomeone : some inside = some someone := by
        rw [← hsomeone, insideAt_setNode, if_pos rfl]
      rw [connectionOf, fdAt_setNode, if_pos rfl, ← Option.some.inj hsomeone] at hopen
      rw [← Option.some.inj hsomeone]
      exact hconversing other hopen
    · rw [insideAt_setNode, if_neg hname] at hsomeone
      rw [connectionOf, fdAt_setNode, if_neg hname] at hopen
      exact htalking.inside node someone other hsomeone hopen
  settled node other hsomeone hopen hawaits := by
    by_cases hname : node = name
    · rw [insideAt_setNode, if_pos hname] at hsomeone
      cases hsomeone
    · rw [insideAt_setNode, if_neg hname] at hsomeone
      rw [fdAt_setNode, if_neg hname] at hopen
      exact htalking.settled node other hsomeone hopen hawaits
  own := htalking.own
  head := htalking.head
  configured := htalking.configured

theorem conversing_request {instruction : IssuedInstruction} {thread : Thread} {tag : ℕ}
    {given : Option ℕ} (hcompact : instruction.val ≠ .compact) (hsettled : Settled channel) :
    Conversing setup ⟨thread, tag, .instruction instruction, given,
      .sending instruction.val.blocks⟩ channel := by
  have hblocks : instruction.val.blocks = (Message.instruction instruction).blocks setup := rfl
  refine ⟨hcompact, ?_, fun block hmem => ?_, [], ?_, rfl⟩
  · rw [hblocks]
    exact blocks_ne_nil _
  · rw [hblocks] at hmem
    exact block_ne_nil hmem
  · exact (Channel.settled_iff_pending tag).mp hsettled

theorem conversing_configuration {keyList : KeyList} {thread : Thread} {tag : ℕ}
    {given : Option ℕ} (hfresh : Fresh channel) :
    Conversing setup ⟨thread, tag, .configuration keyList, given,
      .sending (instanceSendConfirmation setup keyList.val)⟩ channel := by
  have hblocks : instanceSendConfirmation setup keyList.val =
    (Message.configuration keyList).blocks setup := rfl
  refine ⟨?_, fun block hmem => ?_, ?_, hfresh.isBroken, hfresh.replies, hfresh.isGreeted,
    fun _ => ?_⟩
  · rw [hblocks]
    exact blocks_ne_nil _
  · rw [hblocks] at hmem
    exact block_ne_nil hmem
  · rw [hfresh.written]
    rfl
  · rw [hfresh.unread]
    rfl

theorem ne_compact_of_inside {keyList : KeyList} {instruction : IssuedInstruction}
    (hplace : place.inside keyList = some (name, .instruction instruction)) :
    instruction.val ≠ .compact := by
  cases place with
  | asking node request =>
      obtain ⟨⟨value, hissued⟩, htakes⟩ := request
      cases hplace
      rintro rfl
      cases htakes
  | testing node =>
      cases hplace
      nofun
  | querying node key =>
      cases hplace
      nofun
  | _ => cases hplace

/-- The number of the next critical section does not matter, nor does the lock of the
list. -/
theorem Talking.congr (htalking : state.Talking setup) (hnodes : next.nodes = state.nodes)
    (hdescriptors : next.descriptors = state.descriptors)
    (haccepted : next.accepted = state.accepted)
    (hchannel : next.channel = state.channel) (hrefused : next.isRefused = state.isRefused)
    (hplace : next.place = state.place) (hreadings : next.readings = state.readings) :
    next.Talking setup := by
  obtain ⟨nodes, descriptors, accepted, fdOf, channel, refused, place, list, tag, readings⟩ := next
  subst hnodes hdescriptors haccepted hchannel hrefused hplace hreadings
  exact ⟨htalking.fresh, htalking.inside, htalking.settled, htalking.own, htalking.head,
    htalking.configured⟩

/-- The handler of a new connection begins to send the configuration. -/
theorem Talking.configure (htalking : state.Talking setup) (hwired : state.Wired) {fd : Option ℕ}
    {keyList : KeyList} (hnode : state.nodes name = some ⟨fd, none⟩)
    (hplace : state.place (.handler connection) = .published name) {tag : ℕ} :
    ((state.setNode name ⟨fd, some ⟨.handler connection, tag, .configuration keyList, none,
      .sending (instanceSendConfirmation setup keyList.val)⟩⟩).setPlace (.handler connection)
        (.configuring name)).Talking setup := by
  have hfresh := htalking.fresh connection (by rw [hplace]; rfl)
  obtain ⟨hawaiting, hopened⟩ := hwired.awaiting connection name (by rw [hplace]; rfl)
  rw [fdAt_of_nodes hnode] at hawaiting
  have henter : (state.setNode name ⟨fd, some ⟨.handler connection, tag, .configuration keyList,
      none, .sending (instanceSendConfirmation setup keyList.val)⟩⟩).Talking setup := by
    refine htalking.enter hnode fun other hother => ?_
    replace hother : fd.bind state.descriptors = some other := hother
    rw [hawaiting, Option.bind_some, hopened] at hother
    rw [← Option.some.inj hother]
    exact conversing_configuration hfresh
  constructor
  case fresh =>
    intro other hother
    have := henter.fresh other
    grind [Function.update_apply, Place.isEarly]
  case inside => exact henter.inside
  case settled =>
    intro node other hsomeone hopen hawaits
    have := henter.settled node other hsomeone hopen
    grind [Function.update_apply, Place.awaits]
  case own => exact henter.own
  case head => exact henter.head
  case configured =>
    intro other node hhost hawaits
    have := henter.configured other node
    grind [Function.update_apply, Place.awaits]

theorem Talking.lock (htalking : state.Talking setup) (hwired : state.Wired) {thread : Thread}
    {keyList : KeyList} (hwaits : waitsForConfiguration state (.lock thread keyList) = true)
    (hstep : state.lock setup thread keyList = some next) : next.Talking setup := by
  rw [Connections.lock] at hstep
  split at hstep
  · cases hstep
  · rename_i name message hwants
    split at hstep
    · rename_i fd hnode
      have hnone := insideAt_of_nodes hnode
      have hfd := fdAt_of_nodes hnode
      rcases inside_of_wants hwants with ⟨hplace, rfl⟩ | ⟨hinside, instruction, rfl⟩
      · -- the configuration
        cases hstep
        cases thread with
        | scheduler =>
            rcases hwired.scheduler with hidle | ⟨node, key, hquerying⟩
            · rw [hidle] at hplace
              cases hplace
            · rw [hquerying] at hplace
              cases hplace
        | handler connection =>
            exact (htalking.configure hwired hnode hplace).congr rfl rfl rfl rfl rfl rfl rfl
      · -- a request finds a connection that is settled
        cases hstep
        have hawaits := hwired.awaits_ne hnone (isPending_of_waits hwaits hinside)
        have henter : (state.setNode name ⟨fd, some ⟨thread, state.nextTag,
            .instruction instruction, (Message.instruction instruction).argument fd,
            .sending instruction.val.blocks⟩⟩).Talking setup := by
          refine htalking.enter hnode fun other hother => ?_
          have hargument : CriticalSection.descriptor ⟨thread, state.nextTag,
              .instruction instruction, (Message.instruction instruction).argument fd,
              .sending instruction.val.blocks⟩ fd = fd := by
            simp only [CriticalSection.descriptor, Message.argument]
            split <;> rfl
          rw [hargument, ← hfd] at hother
          refine conversing_request (ne_compact_of_inside hinside) ?_
          refine htalking.settled name other hnone hother ?_
          by_contra hnot
          obtain ⟨node, hnode⟩ := Option.ne_none_iff_exists'.mp hnot
          have hhost := hwired.host_of_refers (refers_of_fdAt hother)
          rw [host_of_awaits hnode] at hhost
          exact hawaits other (hnode.trans hhost)
        exact henter.congr rfl rfl rfl rfl rfl (Function.update_eq_self thread state.place) rfl
    · cases hstep

end Connections

end SockMyPort.Sistema.Sockets
