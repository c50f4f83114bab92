/-
# Runs of the connections of instances

Connecting, leaving and the instances themselves keep every connection in order too, so that
the connections are in order after every run that waits for the configuration.
-/

import SockMyPort.Sistema.InstanceConversations

namespace SockMyPort.Sistema.Sockets

open SockMyPort.Commons SockMyPort.Protocolo SockMyPort.Libs SockMyPort.Coordinador
  SockMyPort.Instancia Library

variable {setup : EntriesSetup}

namespace Connections

variable {state next : Connections} {name other : CString} {inside : CriticalSection}
  {connection : ℕ} {channel : Channel ReceivedRequest} {place : Place} {node : InstanceNode}

/-! ## Connecting -/

theorem Talking.accept (htalking : state.Talking setup) (hwired : state.Wired) {fd : ℕ}
    (hstep : state.accept fd = some next) : next.Talking setup := by
  rw [Connections.accept] at hstep
  split at hstep
  · cases hstep
  · rename_i hfree
    cases hstep
    have hnot : ∀ name, ¬ state.Refers name fd := by
      intro name hrefers
      obtain ⟨other, hopen, -⟩ := hwired.hosted name fd hrefers
      rw [hopen] at hfree
      exact hfree rfl
    have hplace := hwired.fresh state.accepted le_rfl
    constructor
    case fresh =>
      intro other hother
      have := htalking.fresh other
      have := fresh_init
      grind [Function.update_apply]
    case inside =>
      intro node someone other hsomeone hopen
      obtain ⟨number, hnumber, hopen⟩ := Option.bind_eq_some_iff.mp hopen
      replace hopen : Function.update state.descriptors fd (some state.accepted) number =
        some other := hopen
      have hne : number ≠ fd := by
        rintro rfl
        rw [CriticalSection.descriptor] at hnumber
        split at hnumber
        · exact hnot node (.inr ⟨someone, hsomeone, hnumber⟩)
        · exact hnot node (.inl hnumber)
      rw [Function.update_of_ne hne] at hopen
      have := hwired.bound number other hopen
      have := htalking.inside node someone other hsomeone
        (Option.bind_eq_some_iff.mpr ⟨number, hnumber, hopen⟩)
      grind [Function.update_apply]
    case settled =>
      intro node other hsomeone hopen hawaits
      obtain ⟨number, hnumber, hopen⟩ := Option.bind_eq_some_iff.mp hopen
      replace hopen : Function.update state.descriptors fd (some state.accepted) number =
        some other := hopen
      have hne : number ≠ fd := by
        rintro rfl
        exact hnot node (.inl hnumber)
      rw [Function.update_of_ne hne] at hopen
      have := hwired.bound number other hopen
      have := htalking.settled node other hsomeone
        (Option.bind_eq_some_iff.mpr ⟨number, hnumber, hopen⟩) hawaits
      grind [Function.update_apply]
    case own =>
      intro reading hmem
      obtain ⟨other, hlarge, hown⟩ := htalking.own reading hmem
      refine ⟨other, Nat.lt_succ_of_lt hlarge, ?_⟩
      show OwnReply (Function.update state.channel state.accepted .init other) reading
      rw [Function.update_of_ne hlarge.ne]
      exact hown
    case head =>
      intro other hother
      have := htalking.head other
      have : Headed setup [] := headed_nil
      grind [Function.update_apply, Channel.init]
    case configured =>
      intro other node hhost hawaits
      have := htalking.configured other node hhost hawaits
      grind [Function.update_apply, Place.host]

/-- The descriptor of a connection whose configuration was not sent is put into a node. -/
theorem Talking.publishAt (htalking : state.Talking setup) (hwired : state.Wired)
    (hplace : state.place (.handler connection) = .named name ∨
      state.place (.handler connection) = .publishing name)
    (haccepted : connection < state.accepted) :
    ((state.setNode name ⟨some (state.fdOf connection), none⟩).setPlace (.handler connection)
      (.published name)).Talking setup := by
  have hearly : (state.place (.handler connection)).isEarly = true := by
    rcases hplace with hplace | hplace <;> rw [hplace] <;> rfl
  have hclosed : state.place (.handler connection) ≠ .closed := by
    rcases hplace with hplace | hplace <;> rw [hplace] <;> nofun
  have hopened := hwired.opened connection haccepted hclosed
  constructor
  case fresh =>
    intro other hother
    have := htalking.fresh other
    grind [Function.update_apply]
  case inside =>
    intro node someone other hsomeone hopen
    by_cases hname : node = name
    · rw [insideAt_setNode, if_pos hname] at hsomeone
      cases hsomeone
    · rw [insideAt_setNode, if_neg hname] at hsomeone
      rw [connectionOf, fdAt_setNode, if_neg hname] at hopen
      exact htalking.inside node someone other hsomeone hopen
  case settled =>
    intro node other hsomeone hopen hawaits
    have hother : other ≠ connection := by
      rintro rfl
      replace hawaits : (Function.update state.place (.handler other) (.published name)
        (.handler other)).awaits = none := hawaits
      rw [Function.update_self] at hawaits
      cases hawaits
    by_cases hname : node = name
    · rw [fdAt_setNode, if_pos hname] at hopen
      replace hopen : state.descriptors (state.fdOf connection) = some other := hopen
      rw [hopened] at hopen
      exact absurd (Option.some.inj hopen).symm hother
    · rw [insideAt_setNode, if_neg hname] at hsomeone
      rw [fdAt_setNode, if_neg hname] at hopen
      have := htalking.settled node other hsomeone hopen
      grind [Function.update_apply]
  case own => exact htalking.own
  case head => exact htalking.head
  case configured =>
    intro other node hhost hawaits
    have := htalking.configured other node
    grind [Function.update_apply, Place.awaits]

theorem Talking.add (htalking : state.Talking setup) (hwired : state.Wired)
    (hstep : state.instanceListAdd connection = some next) : next.Talking setup := by
  rw [instanceListAdd] at hstep
  split at hstep
  · rename_i name hplace hlock
    split at hstep
    · rename_i hnode
      cases hstep
      apply htalking.publishAt hwired (.inl hplace)
      apply hwired.accepted_of_place
      rw [hplace]
      exact Place.noConfusion
    · rename_i node hnode
      cases hstep
      have hmoved : (state.setPlace (.handler connection)
          (if node.fd.isSome then .testing name else .publishing name)).Talking setup := by
        refine htalking.setPlace connection (fun _ => ?_) ?_ ?_
        · rw [hplace]
          rfl
        · rw [hplace]
          split <;> rfl
        · rw [hplace]
          rfl
      exact hmoved.congr rfl rfl rfl rfl rfl rfl rfl
  · cases hstep

theorem Talking.publish (htalking : state.Talking setup) (hwired : state.Wired)
    (hstep : state.publish connection = some next) : next.Talking setup := by
  rw [Connections.publish] at hstep
  split at hstep
  · rename_i name hplace
    split at hstep
    · rename_i old hnode
      cases hstep
      have haccepted := hwired.accepted_of_place (by rw [hplace]; exact Place.noConfusion)
      exact (htalking.publishAt hwired (.inr hplace) haccepted).congr
        rfl rfl rfl rfl rfl rfl rfl
    · cases hstep
  · cases hstep

/-- The instance is turned away on a connection that no node has. -/
theorem Talking.refuse (htalking : state.Talking setup) (hwired : state.Wired) {fails : Bool}
    (hstep : state.refuse connection fails = some next) : next.Talking setup := by
  rw [Connections.refuse] at hstep
  split at hstep
  · rename_i hplace
    obtain ⟨⟨isSent, channel⟩, hsend, rfl⟩ := Option.map_eq_some_iff.mp hstep
    have hanswers : channel.answers = (state.channel connection).answers := by
      rcases Channel.trySend_eq_some hsend with ⟨-, -, rfl⟩ | ⟨-, -, rfl⟩ <;> rfl
    have hunused : ∀ node, ¬ ∃ fd, state.Refers node fd ∧
        state.descriptors fd = some connection := by
      intro node hrefers
      have hhost := hwired.host_of_refers hrefers
      rw [hplace] at hhost
      cases hhost
    constructor
    case fresh =>
      intro other hother
      have := htalking.fresh other
      grind [Function.update_apply, Place.isEarly]
    case inside =>
      intro node someone other hsomeone hopen
      have hne : other ≠ connection := by
        rintro rfl
        exact hunused node (refers_of_connectionOf hsomeone hopen)
      have := htalking.inside node someone other hsomeone hopen
      grind [Function.update_apply]
    case settled =>
      intro node other hsomeone hopen hawaits
      have hne : other ≠ connection := by
        rintro rfl
        exact hunused node (refers_of_fdAt hopen)
      have := htalking.settled node other hsomeone hopen
      grind [Function.update_apply]
    case own =>
      intro reading hmem
      obtain ⟨other, hlarge, answer, hanswer, hown⟩ := htalking.own reading hmem
      refine ⟨other, hlarge, answer, ?_, hown⟩
      grind [Function.update_apply]
    case head =>
      intro other hother
      have := htalking.head other
      grind [Function.update_apply]
    case configured =>
      intro other node hhost hawaits
      have := htalking.configured other node
      grind [Function.update_apply, Place.host]
  · cases hstep

/-! ## Telling the others to compact -/

theorem silent_compact :
    Channel.Silent receiveRequest IsSilent Instruction.compact.bytes :=
  Channel.silent_of_reads
    (reads_receiveRequest ⟨nofun, nofun⟩ nofun : Reads _ _ (received .compact)) rfl

/-- A connection that nobody is using takes a step. -/
theorem Talking.setChannel (htalking : state.Talking setup) (hwired : state.Wired)
    (hnone : state.insideAt name = none)
    (hopen : (state.fdAt name).bind state.descriptors = some connection)
    (hawaits : (state.place (.handler connection)).awaits = none)
    (hsettled : Settled (state.channel connection) → Settled channel)
    (hanswers : channel.answers = (state.channel connection).answers)
    (hhead : Configured setup (state.channel connection) →
      Headed setup (state.channel connection).written → Headed setup channel.written)
    (hconfigured : Configured setup (state.channel connection) → Configured setup channel) :
    (state.setChannel connection channel).Talking setup := by
  have hrefers := refers_of_fdAt hopen
  have hhost := hwired.host_of_refers hrefers
  have hearly : (state.place (.handler connection)).isEarly = false := by
    by_contra hearly
    rw [host_eq_none (Bool.not_eq_false _ ▸ hearly) hawaits] at hhost
    cases hhost
  have hbefore := htalking.configured connection name hhost hawaits
  constructor
  case fresh =>
    intro other hother
    have := htalking.fresh other
    grind [Function.update_apply]
  case inside =>
    intro node someone other hsomeone huse
    have hne : other ≠ connection := by
      rintro rfl
      rw [hwired.unique (refers_of_connectionOf hsomeone huse) hrefers, hnone] at hsomeone
      cases hsomeone
    have := htalking.inside node someone other hsomeone huse
    grind [Function.update_apply]
  case settled =>
    intro node other hsomeone hother hnot
    have := htalking.settled node other hsomeone hother hnot
    grind [Function.update_apply]
  case own =>
    intro reading hmem
    obtain ⟨other, hlarge, answer, hanswer, hown⟩ := htalking.own reading hmem
    refine ⟨other, hlarge, answer, ?_, hown⟩
    grind [Function.update_apply]
  case head =>
    intro other hother
    have := htalking.head other hother
    grind [Function.update_apply]
  case configured =>
    intro other node hother hnot
    have := htalking.configured other node hother hnot
    grind [Function.update_apply]

/-- The connection of a node does not wait for its configuration. -/
theorem Wired.awaits_of_isPending (hwired : state.Wired) (hnone : state.insideAt name = none)
    (hpending : state.isPending name = false)
    (hopen : (state.fdAt name).bind state.descriptors = some connection) :
    (state.place (.handler connection)).awaits = none := by
  by_contra hnot
  obtain ⟨node, hnode⟩ := Option.ne_none_iff_exists'.mp hnot
  have hhost := hwired.host_of_refers (refers_of_fdAt hopen)
  rw [host_of_awaits hnode] at hhost
  exact hwired.awaits_ne hnone hpending connection (hnode.trans hhost)

theorem Talking.sendCompact (htalking : state.Talking setup) (hwired : state.Wired) {fails : Bool}
    (hwaits : waitsForConfiguration state (.compact connection fails) = true)
    (hstep : state.sendCompact connection fails = some next) : next.Talking setup := by
  rw [Connections.sendCompact] at hstep
  split at hstep
  · rename_i name hplace
    cases hstep
    refine htalking.setPlaceLate connection rfl ?_ ?_ <;> rw [hplace] <;> rfl
  · rename_i name node nodes hplace
    have hmove : ∀ {state' : Connections}, state'.Talking setup → state'.place = state.place →
        (state'.setPlace (.handler connection) (.broadcasting name nodes)).Talking setup := by
      intro state' htalking' hsame
      refine htalking'.setPlaceLate connection rfl ?_ ?_ <;> rw [hsame, hplace] <;> rfl
    split at hstep
    · rename_i fd hnode
      have hnone := insideAt_of_nodes hnode
      have hfd := fdAt_of_nodes hnode
      split at hstep
      · cases hstep
        exact hmove htalking rfl
      · rename_i hne
        split at hstep
        · cases hstep
          exact hmove htalking rfl
        · rename_i other hopen
          obtain ⟨⟨isSent, channel⟩, hsend, rfl⟩ := Option.map_eq_some_iff.mp hstep
          rw [← hfd] at hopen
          have hpending : state.isPending node = false := by
            rw [waitsForConfiguration, hplace] at hwaits
            simpa [hne] using hwaits
          have hawaits := hwired.awaits_of_isPending hnone hpending hopen
          have hchannel : (state.setChannel other channel).Talking setup := by
            rcases Channel.trySend_eq_some hsend with ⟨-, hbroken, rfl⟩ | ⟨-, halive, rfl⟩
            · refine htalking.setChannel hwired hnone hopen hawaits
                (fun hsettled => hsettled.write silent_compact _) rfl
                (fun hconfigured _ => hconfigured.headed hbroken _)
                fun hconfigured => hconfigured.write _ _
            · exact htalking.setChannel hwired hnone hopen hawaits id rfl (fun _ => id)
                fun _ => .inl rfl
          have hcounted : ({ state with nextTag := state.nextTag + 1 }.setChannel other
              channel).Talking setup := hchannel.congr rfl rfl rfl rfl rfl rfl rfl
          exact hmove hcounted rfl
    · cases hstep
  · cases hstep

/-! ## Leaving -/

theorem Talking.settle (htalking : state.Talking setup)
    (hstep : state.settle connection = some next) : next.Talking setup := by
  rw [Connections.settle] at hstep
  split at hstep
  · rename_i name error hplace hlock
    split at hstep
    · -- the connection is taken out of its node
      rename_i fd inside hnode
      cases hstep
      have hinside := insideAt_of_nodes hnode
      have hfd := fdAt_of_nodes hnode
      constructor
      case fresh =>
        intro other hother
        have := htalking.fresh other
        grind [Function.update_apply, Place.isEarly]
      case inside =>
        intro node someone other hsomeone hopen
        by_cases hname : node = name
        · subst hname
          rw [insideAt_setNode, if_pos rfl] at hsomeone
          refine htalking.inside node someone other (hinside.trans hsomeone) ?_
          rw [connectionOf, fdAt_setNode, if_pos rfl] at hopen
          rw [connectionOf, hfd]
          rw [CriticalSection.descriptor] at hopen ⊢
          split
          · rw [if_pos ‹_›] at hopen
            exact hopen
          · rw [if_neg ‹_›] at hopen
            split at hopen
            · cases hopen
            · exact hopen
        · rw [insideAt_setNode, if_neg hname] at hsomeone
          rw [connectionOf, fdAt_setNode, if_neg hname] at hopen
          exact htalking.inside node someone other hsomeone hopen
      case settled =>
        intro node other hsomeone hopen hawaits
        have hold : state.insideAt node = none ∧
            (state.fdAt node).bind state.descriptors = some other := by
          by_cases hname : node = name
          · subst hname
            rw [insideAt_setNode, if_pos rfl] at hsomeone
            rw [fdAt_setNode, if_pos rfl] at hopen
            refine ⟨hinside.trans hsomeone, ?_⟩
            rw [hfd]
            split at hopen
            · cases hopen
            · exact hopen
          · rw [insideAt_setNode, if_neg hname] at hsomeone
            rw [fdAt_setNode, if_neg hname] at hopen
            exact ⟨hsomeone, hopen⟩
        have := htalking.settled node other hold.1 hold.2
        grind [Function.update_apply, Place.awaits]
      case own => exact htalking.own
      case head => exact htalking.head
      case configured =>
        intro other node hhost hawaits
        have := htalking.configured other node
        grind [Function.update_apply, Place.host, Place.awaits]
    · cases hstep
    · cases hstep
      refine htalking.setPlaceLate connection rfl ?_ ?_ <;> rw [hplace] <;> rfl
  · cases hstep

theorem Talking.close (htalking : state.Talking setup)
    (hstep : state.close connection = some next) : next.Talking setup := by
  rw [Connections.close] at hstep
  split at hstep
  · rename_i host hplace
    cases hstep
    have hfewer : ∀ {fd : Option ℕ} {other : ℕ},
        fd.bind (Function.update state.descriptors (state.fdOf connection) none) = some other →
          fd.bind state.descriptors = some other := by
      intro fd other hopen
      obtain ⟨number, rfl, hnumber⟩ := Option.bind_eq_some_iff.mp hopen
      rw [Option.bind_some]
      by_cases hsame : number = state.fdOf connection
      · rw [hsame, Function.update_self] at hnumber
        cases hnumber
      · rw [Function.update_of_ne hsame] at hnumber
        exact hnumber
    constructor
    case fresh =>
      intro other hother
      have := htalking.fresh other
      grind [Function.update_apply, Place.isEarly]
    case inside =>
      intro node someone other hsomeone hopen
      exact htalking.inside node someone other hsomeone (hfewer hopen)
    case settled =>
      intro node other hsomeone hopen hawaits
      have := htalking.settled node other hsomeone (hfewer hopen)
      grind [Function.update_apply, Place.awaits]
    case own => exact htalking.own
    case head => exact htalking.head
    case configured =>
      intro other node hhost hawaits
      have := htalking.configured other node
      grind [Function.update_apply, Place.host]
  · cases hstep

theorem Talking.pop (htalking : state.Talking setup) {request : Request}
    (hstep : state.pop connection request = some next) : next.Talking setup := by
  rw [Connections.pop] at hstep
  split at hstep
  · rename_i name hplace
    cases hstep
    split <;> refine htalking.setPlaceLate connection rfl ?_ ?_ <;> rw [hplace] <;> rfl
  · cases hstep

theorem Talking.iterate (htalking : state.Talking setup) {nodes : List CString}
    (hstep : state.iterate connection nodes = some next) : next.Talking setup := by
  rw [Connections.iterate] at hstep
  split at hstep
  · rename_i name hplace
    split at hstep
    · cases hstep
      refine htalking.setPlaceLate connection rfl ?_ ?_ <;> rw [hplace] <;> rfl
    · cases hstep
  · cases hstep

theorem Talking.quit (htalking : state.Talking setup)
    (hstep : state.leave connection = some next) : next.Talking setup := by
  rw [Connections.leave] at hstep
  split at hstep
  · rename_i hplace
    split at hstep
    · cases hstep
      refine htalking.setPlaceLate connection rfl ?_ ?_ <;> rw [hplace] <;> rfl
    · cases hstep
  · cases hstep

theorem Talking.receiveName (htalking : state.Talking setup) {given : Option CString}
    (hstep : state.instanceRecvName connection given = some next) : next.Talking setup := by
  rw [instanceRecvName] at hstep
  split at hstep
  · rename_i hplace
    split at hstep
    · cases hstep
      cases given <;>
        exact htalking.setPlace connection (fun _ => by rw [hplace]; rfl) (by rw [hplace]; rfl)
          (by rw [hplace]; rfl)
    · cases hstep
  · cases hstep

theorem Talking.ask (htalking : state.Talking setup)
    {key : { key : CString // key.length ≤ 40 }} (hstep : state.ask name key = some next) :
    next.Talking setup := by
  rw [Connections.ask] at hstep
  split at hstep
  · cases hstep
    constructor
    case fresh =>
      intro other hother
      have := htalking.fresh other
      grind [Function.update_apply]
    case inside => exact htalking.inside
    case settled =>
      intro node other hsomeone hopen hawaits
      have := htalking.settled node other hsomeone hopen
      grind [Function.update_apply]
    case own => exact htalking.own
    case head => exact htalking.head
    case configured =>
      intro other node hhost hawaits
      have := htalking.configured other node
      grind [Function.update_apply]
  · cases hstep

/-! ## Instances -/

/-- An instance takes a step. -/
theorem Talking.evolve (htalking : state.Talking setup) (connection : ℕ)
    (hfresh : Fresh (state.channel connection) → Fresh channel)
    (hsettled : Settled (state.channel connection) → Settled channel)
    (hconversing : ∀ inside, Conversing setup inside (state.channel connection) →
      Conversing setup inside channel)
    (hanswers : (state.channel connection).answers ⊆ channel.answers)
    (hwritten : channel.written = (state.channel connection).written)
    (hbroken : channel.isBroken = (state.channel connection).isBroken) :
    (state.setChannel connection channel).Talking setup := by
  have hconfigured : Configured setup (state.channel connection) → Configured setup channel := by
    rw [Configured, Configured, hwritten, hbroken]
    exact id
  constructor
  case fresh =>
    intro other hother
    have := htalking.fresh other hother
    grind [Function.update_apply]
  case inside =>
    intro node someone other hsomeone hopen
    have := htalking.inside node someone other hsomeone hopen
    grind [Function.update_apply]
  case settled =>
    intro node other hsomeone hopen hawaits
    have := htalking.settled node other hsomeone hopen hawaits
    grind [Function.update_apply]
  case own =>
    intro reading hmem
    obtain ⟨other, hlarge, answer, hanswer, hown⟩ := htalking.own reading hmem
    refine ⟨other, hlarge, answer, ?_, hown⟩
    have := hanswers
    grind [Function.update_apply]
  case head =>
    intro other hother
    have := htalking.head other hother
    grind [Function.update_apply]
  case configured =>
    intro other node hhost hawaits
    have := htalking.configured other node hhost hawaits
    grind [Function.update_apply]

theorem Talking.readConfig (htalking : state.Talking setup)
    (hstep : state.readConfig connection = some next) : next.Talking setup := by
  obtain ⟨channel, hgreet, rfl⟩ := Option.map_eq_some_iff.mp hstep
  have hframe : channel.answers = (state.channel connection).answers ∧
      channel.written = (state.channel connection).written ∧
        channel.isBroken = (state.channel connection).isBroken := by
    obtain ⟨-, -, -, -, -, rfl⟩ := Channel.greet_eq_some hgreet
    exact ⟨rfl, rfl, rfl⟩
  refine htalking.evolve connection (fun hfresh => ?_) (fun hsettled => hsettled.greet hgreet)
    (fun inside hconversing => hconversing.greet hgreet) ?_ hframe.2.1 hframe.2.2
  · rw [hfresh.greet_eq_none] at hgreet
    cases hgreet
  · rw [hframe.1]
    exact fun _ hmem => hmem

theorem Talking.serve (htalking : state.Talking setup) {outcome : Outcome} {sent : ℕ}
    (hstep : state.serve connection outcome sent = some next) : next.Talking setup := by
  obtain ⟨channel, hserve, rfl⟩ := Option.map_eq_some_iff.mp hstep
  have hframe : (state.channel connection).answers ⊆ channel.answers ∧
      channel.written = (state.channel connection).written ∧
        channel.isBroken = (state.channel connection).isBroken := by
    obtain ⟨-, -, -, -, -, -, -, -, rfl⟩ := Channel.serve_eq_some hserve
    exact ⟨List.subset_append_left _ _, rfl, rfl⟩
  refine htalking.evolve connection (fun hfresh => ?_) (fun hsettled => hsettled.serve hserve)
    (fun inside hconversing => hconversing.serve hserve) hframe.1 hframe.2.1 hframe.2.2
  rw [hfresh.serve_eq_none] at hserve
  cases hserve

theorem Talking.die (htalking : state.Talking setup) (connection : ℕ) :
    (state.setChannel connection (state.channel connection).die).Talking setup :=
  htalking.evolve connection
    (fun hfresh => ⟨hfresh.written, hfresh.unread, hfresh.replies, hfresh.isGreeted,
      hfresh.isBroken⟩)
    (fun hsettled => hsettled.die) (fun _ hconversing => hconversing.die) (fun _ hmem => hmem)
    rfl rfl

/-! ## Runs -/

/-- **One step** keeps the connections in order. -/
theorem Talking.step (htalking : state.Talking setup) (hwired : state.Wired) {event : LineEvent}
    (hwaits : state.waitsForConfiguration event = true)
    (hstep : Connections.step setup state event = some next) : next.Talking setup := by
  cases event with
  | accept fd => exact htalking.accept hwired hstep
  | leave connection => exact htalking.quit hstep
  | receiveName connection name => exact htalking.receiveName hstep
  | add connection => exact htalking.add hwired hstep
  | publish connection => exact htalking.publish hwired hstep
  | refuse connection fails => exact htalking.refuse hwired hstep
  | lock thread keyList => exact htalking.lock hwired hwaits hstep
  | send name fails => exact htalking.send hwired hstep
  | recv name => exact htalking.recv hwired hstep
  | pop connection request => exact htalking.pop hstep
  | iterate connection nodes => exact htalking.iterate hstep
  | compact connection fails => exact htalking.sendCompact hwired hwaits hstep
  | settle connection => exact htalking.settle hstep
  | close connection => exact htalking.close hstep
  | ask name key => exact htalking.ask hstep
  | readConfig connection => exact htalking.readConfig hstep
  | serve connection outcome sent => exact htalking.serve hstep
  | die connection =>
      cases hstep
      exact htalking.die connection

/-- Runs in which no thread asks before the configuration was sent, and in which handlers
close unused descriptors only. -/
abbrev OrderlyRuns (setup : EntriesSetup) (start : Connections) (events : List LineEvent)
    (finish : Connections) : Prop :=
  (Connections.step setup).Runs
    (fun state event => state.waitsForConfiguration event = true ∧ state.ClosesUnused event)
    start events finish

theorem wired_and_talking_of_runs {events : List LineEvent} {finish : Connections}
    (hrun : OrderlyRuns setup init events finish) : finish.Wired ∧ finish.Talking setup := by
  refine hrun.invariant (fun state => state.Wired ∧ state.Talking setup) ?_
    ⟨wired_init, talking_init⟩
  intro state event next hstate hok hstep
  exact ⟨hstate.1.step hok.1 hok.2 hstep, hstate.2.step hstate.1 hok.1 hstep⟩

/-- An execution without a `close` whose steps wait for the configuration. -/
theorem orderlyRuns_of_allows {start finish : Connections} {events : List LineEvent}
    (hallows : (Connections.step setup).allows
      (fun state event => state.waitsForConfiguration event && !event.isClose) start events = true)
    (hexec : (Connections.step setup).execute start events = some finish) :
    OrderlyRuns setup start events finish := by
  refine (PartialStep.runs_of_allows hallows hexec).mono fun state event hok => ?_
  rw [Bool.and_eq_true] at hok
  refine ⟨hok.1, ?_⟩
  cases event with
  | close connection => exact absurd hok.2 Bool.false_ne_true
  | _ => trivial

end Connections

end SockMyPort.Sistema.Sockets
