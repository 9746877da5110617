import SharedClipboard.Group.History
import SharedClipboard.Group.Outbox
import SharedClipboard.Error

/-!
# What the group announces and asks for

Events are for whoever drives the node. Effects are everything that a change of the group asks of
its surroundings: announcing an event, putting a frame into an outbox, and telling a session to
end.
-/

namespace SharedClipboard

/-- What whoever drives a node is told. -/
inductive Event where
  | deviceJoined (d : Device)
  | deviceLeft (d : Device)
  | clipboardUpdated (seq : Nat) (mime : String) (data : Bytes) (origin : Origin)
  | authenticationFailed (d : Device) (cause : AuthError)
  | deviceDiscovered (d : Device)
  | deviceLost (d : Device)
  /-- Discovery did not start; peers can still be connected by hand. -/
  | discoveryDegraded (cause : DiscoveryError)
  deriving DecidableEq, Repr, Inhabited

/-- What discovery reports. Reports are hints: they may be repeated and may come in any order. -/
inductive DiscoveryEvent where
  | added (d : Device)
  | removed (d : Device)
  deriving DecidableEq, Repr, Inhabited

namespace Group

/-- What a change of the group asks for. -/
inductive Effect where
  | announce (e : Event)
  | deliver (id : SessionId) (x : Outgoing)
  | kick (id : SessionId)
  deriving DecidableEq, Repr, Inhabited

namespace Effect

/-- The event that an effect announces. -/
def event? : Effect → Option Event
  | announce e => some e
  | _ => none

/-- The session that an effect ends. -/
def kicked? : Effect → Option SessionId
  | kick id => some id
  | _ => none

/-- What an effect does to the outboxes. -/
def onOutboxes (o : Outboxes) : Effect → Outboxes
  | deliver id x => o.push id x
  | _ => o

end Effect

end Group

end SharedClipboard
