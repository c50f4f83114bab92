/-
# The configuration comes first

The descriptor of a connection is put into the node of the instance before the configuration
is sent, and the lock of the node is free in between. Any thread that finds the descriptor
there can write before the configuration: the handler of another connection under the
same name, which tests whether the instance is alive, is one.
-/

import SockMyPort.Sistema.InstanceRuns

namespace SockMyPort.Sistema.Sockets

open SockMyPort.Commons SockMyPort.Protocolo SockMyPort.Coordinador SockMyPort.Instancia Library

namespace Connections

/-- What the coordinator writes after the handshake to an instance that it takes is, from the
first byte, a configuration, which the instance reads. -/
def ConfigurationFirst (setup : EntriesSetup) (state : Connections) : Prop :=
  ∀ connection, state.isRefused connection = false → ∃ keyList : KeyList,
    ((state.channel connection).written <+: configurationBytes setup keyList ∨
      configurationBytes setup keyList <+: (state.channel connection).written) ∧
    Reads coordinatorApiHandshakeReceiveConfig (configurationBytes setup keyList)
      (toSizeT setup.entriesSize, toSizeT setup.entriesNum, keyList.val)

variable {setup : EntriesSetup} {events : List LineEvent} {finish : Connections}

/-- No keys have to be recovered. -/
def noKeys : KeyList := ⟨[], nofun, by decide⟩

/-- The storage of an instance: four entries of eight bytes. -/
def smallSetup : EntriesSetup := ⟨4, 8⟩

/-- An instance connects and is sent its configuration. -/
def connects : List LineEvent :=
  [.accept 5, .receiveName 0 (some (literal [65])), .add 0, .lock (.handler 0) noKeys,
    .send (literal [65]) false, .readConfig 0]

/-- Two processes connect under one name. The handler of the second tests the connection of
the first, whose configuration was not sent. -/
def connectTwice : List LineEvent :=
  [.accept 5, .receiveName 0 (some (literal [65])), .add 0, .accept 6,
    .receiveName 1 (some (literal [65])), .add 1, .lock (.handler 1) noKeys,
    .send (literal [65]) false]

end Connections

end SockMyPort.Sistema.Sockets
