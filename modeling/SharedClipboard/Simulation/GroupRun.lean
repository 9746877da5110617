import SharedClipboard.Group.Basic

/-!
# A group with the outboxes of its sessions

The group on its own, driven operation by operation. Frames stay in the outboxes until they are
taken out; an outbox outlives its session.
-/

namespace SharedClipboard.Simulation

/-- A group and the outboxes of its sessions. -/
structure GroupRun where
  group : Group
  outboxes : Outboxes := .empty
  deriving DecidableEq, Inhabited

namespace GroupRun

def room (r : GroupRun) : SessionId → Room := r.outboxes.room

/-- What an operation leads to: the run afterwards, the events in order and the sessions that are
told to end. -/
structure Settled where
  run : GroupRun
  events : List Event := []
  kicked : List SessionId := []

/-- Carries out what an operation of the group asks for. -/
def settle {α : Type} (r : GroupRun) (o : Group.Outcome α) : Settled :=
  { run := { group := o.group, outboxes := o.effects.foldl Group.Effect.onOutboxes r.outboxes }
    events := o.effects.filterMap Group.Effect.event?
    kicked := o.effects.filterMap Group.Effect.kicked? }

def attach (r : GroupRun) (id : SessionId) (e : SessionEntry) (capacity : Nat) : GroupRun :=
  { group := r.group.attach id e, outboxes := r.outboxes.put id { capacity } }

/-- Takes frames out of an outbox; nothing if nobody may. -/
def take (r : GroupRun) (id : SessionId) (n : Option Nat) : Option (List Outgoing) × GroupRun :=
  match r.outboxes.get? id with
  | some o =>
    if o.closed then (none, r)
    else
      let (xs, o) := o.take (n.getD o.queue.length)
      (some xs, { r with outboxes := r.outboxes.put id o })
  | none => (none, r)

/-- Closes an outbox at its taking end. -/
def closeOutbox (r : GroupRun) (id : SessionId) : GroupRun :=
  { r with outboxes := r.outboxes.modify id Outbox.close }

end GroupRun

end SharedClipboard.Simulation
