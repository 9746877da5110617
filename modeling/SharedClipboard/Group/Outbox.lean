import SharedClipboard.Packet.Basic
import SharedClipboard.Table

/-!
# Outboxes

The frames that wait to be written to one peer, in order. An outbox holds a limited number of
frames and is closed for good once nobody takes frames out of it any more.
-/

namespace SharedClipboard

/-- Names a session for as long as the node runs. -/
abbrev SessionId := Nat

/-- A frame that waits to be written. -/
structure Outgoing where
  frame : Bytes
  /-- The number of the clipboard update that the frame carries, if it carries one. -/
  seq : Option Nat := none
  deriving DecidableEq, Repr, Inhabited

/-- A packet that carries no clipboard update. -/
def Outgoing.control (p : Packet) : Outgoing := { frame := p.encode }

/-- Whether one more frame can be put into an outbox. -/
inductive Room where
  | free
  | full
  | closed
  deriving DecidableEq, Repr, Inhabited

/-- The frames that wait for one peer. -/
structure Outbox where
  capacity : Nat
  queue : List Outgoing := []
  closed : Bool := false
  deriving DecidableEq, Repr, Inhabited

namespace Outbox

def room (o : Outbox) : Room :=
  if o.closed then .closed else if o.queue.length < o.capacity then .free else .full

/-- Puts a frame at the end, if there is room for it. -/
def push (o : Outbox) (x : Outgoing) : Outbox :=
  if o.room = .free then { o with queue := o.queue ++ [x] } else o

def take (o : Outbox) (n : Nat) : List Outgoing × Outbox :=
  (o.queue.take n, { o with queue := o.queue.drop n })

/-- Nobody takes frames out any more; those that wait are lost. -/
def close (o : Outbox) : Outbox := { o with queue := [], closed := true }

end Outbox

abbrev Outboxes := Table SessionId Outbox

namespace Outboxes

/-- The room in a session's outbox. A session without one takes no frames. -/
def room (o : Outboxes) (id : SessionId) : Room := ((o.get? id).map Outbox.room).getD .closed

/-- Puts a frame into a session's outbox, if there is room for it. -/
def push (o : Outboxes) (id : SessionId) (x : Outgoing) : Outboxes := o.modify id (·.push x)

end Outboxes

end SharedClipboard
