import SharedClipboard.Group.Event
import SharedClipboard.Session.Close

/-!
# The group

Who is a member, which devices discovery reports, and what the clipboard holds. The group knows
its sessions by their ids; an authenticated session is the member session of its device, and a
device has at most one. Updates are relayed to every member but the one they came from.

Each operation gives the group afterwards, what it asks of its surroundings, and an answer. The
room in the outboxes is an input of the operations that send: an update skips a member whose outbox
is full or closed.
-/

namespace SharedClipboard

/-- Which side opened a connection. -/
inductive Direction where
  | inbound
  | outbound
  deriving DecidableEq, Repr, Inhabited

/-- Whether a session may take part in the group. -/
inductive Role where
  | unauthenticated
  | authenticated
  deriving DecidableEq, Repr, Inhabited

/-- What the group knows about a session. -/
structure SessionEntry where
  device : Device
  /-- Where the connection comes from. -/
  peer : Net.SocketAddress
  /-- The fingerprint of the certificate presented on the connection. -/
  peerFingerprint : Option Fingerprint
  direction : Direction
  role : Role := .unauthenticated
  /-- The newest update that was put into the session's outbox and is not reported as written. -/
  inFlight : Option Nat := none
  deriving DecidableEq, Repr, Inhabited

/-- The member session of a device. The record of the device is the one under which it first
became a member. -/
structure Member where
  device : Device
  session : SessionId
  deriving DecidableEq, Repr, Inhabited

/-- The state of the group. -/
structure Group where
  sessions : Table SessionId SessionEntry := .empty
  members : Table Device.Identity Member := .empty
  discovered : Table Device.Identity Device := .empty
  history : History
  deriving DecidableEq, Inhabited

namespace Group

/-- What an operation leads to. -/
structure Outcome (α : Type) where
  group : Group
  effects : List Effect := []
  answer : α

/-- A group without sessions that keeps the given number of updates. -/
def fresh (historyLimit : Nat) : Group := { history := .fresh historyLimit }

/-! ## Sessions -/

/-- Takes up a session. -/
def attach (g : Group) (id : SessionId) (e : SessionEntry) : Group :=
  { g with sessions := g.sessions.put id e }

/-- Whether there is a session of a device, member or not. -/
def hasSessionFor (g : Group) (d : Device) : Bool :=
  g.members.contains d.identity || g.sessions.values.any (·.device.same d)

/-- The known device with a fingerprint: discovered ones come before members. Among several it is
the one that was put in first, which matters only where two devices share a certificate. -/
def deviceWithFingerprint? (g : Group) (f : Fingerprint) : Option Device :=
  (g.discovered.values ++ g.members.values.map (·.device)).find? (·.fingerprint = some f)

/-- The one discovered device at an address, if there is exactly one. -/
def onlyDeviceAt? (g : Group) (a : Net.IpAddress) : Option Device :=
  match g.discovered.values.filter (·.address = a) with
  | [d] => some d
  | _ => none

/-- The device that an inbound connection comes from: the one known by the fingerprint that it
presents, else the one discovered at its address, else a device of its own. -/
def resolveInbound (g : Group) (a : Net.SocketAddress) (f : Option Fingerprint) : Device :=
  match f.bind g.deviceWithFingerprint? with
  | some d => d
  | none =>
    let d := (g.onlyDeviceAt? a.ip).getD (Device.anonymous a)
    if f.isSome then { d with fingerprint := f } else d

/-- The entry that a session has once it is a member. For an inbound session the device is
resolved again, because discovery may have caught up since the connection arrived. -/
def promoted (g : Group) (e : SessionEntry) : SessionEntry :=
  { e with
    role := .authenticated
    device := match e.direction with
      | .inbound => g.resolveInbound e.peer e.peerFingerprint
      | .outbound => e.device }

/-- Makes a session the member session of its device, in place of an earlier one. The answer says
whether it was a session that could become a member. -/
def promote (g : Group) (id : SessionId) : Outcome Bool :=
  match g.sessions.get? id with
  | none => { group := g, answer := false }
  | some e =>
    if e.role ≠ .unauthenticated then { group := g, answer := false }
    else
      let e := g.promoted e
      let sessions := g.sessions.put id e
      let key := e.device.identity
      match g.members.get? key with
      | none =>
        { group := { g with sessions, members := g.members.put key ⟨e.device, id⟩ }
          effects := [.announce (.deviceJoined e.device)]
          answer := true }
      -- The record stays the one of the first join; only the session is replaced.
      | some old =>
        { group := { g with
            sessions := sessions.erase old.session
            members := g.members.put key { old with session := id } }
          effects := (if sessions.contains old.session then [.kick old.session] else [])
            ++ [.announce (.deviceJoined e.device)]
          answer := true }

/-- Drops a session that ended. The answer is the device that left the group with it. -/
def remove (g : Group) (id : SessionId) (reason : CloseReason) : Outcome (Option Device) :=
  match g.sessions.get? id with
  | none => { group := g, answer := none }
  | some e =>
    let sessions := g.sessions.erase id
    if (g.members.get? e.device.identity).any (·.session == id) then
      { group := { g with sessions, members := g.members.erase e.device.identity }
        effects := [.announce (.deviceLeft e.device)]
        answer := some e.device }
    -- Another session may stand for the device by now, and then nobody leaves.
    else
      { group := { g with sessions }
        effects := match e.role, reason with
          | .unauthenticated, .auth cause => [.announce (.authenticationFailed e.device cause)]
          | _, _ => []
        answer := none }

/-- Ends and drops sessions. -/
def kickEach (g : Group) : List SessionId → Outcome Unit
  | [] => { group := g, answer := () }
  | id :: ids =>
    let r := g.remove id .kicked
    let rest := r.group.kickEach ids
    { rest with effects := .kick id :: r.effects ++ rest.effects }

/-- Ends and drops every session. The order is the one in which the table happens to be walked. -/
def kickAll (g : Group) (order : List SessionId := []) : Outcome Unit :=
  g.kickEach (g.sessions.keysFrom order)

/-! ## The clipboard -/

/-- What became of an update from a peer. -/
inductive UpdateOutcome where
  | accepted (seq recipients : Nat)
  /-- The content is the current one already. -/
  | echo
  /-- The peer has not been sent what is current yet, so it does not know better. -/
  | stale
  | unauthenticated
  | unknownSession
  deriving DecidableEq, Repr, Inhabited

/-- The sessions that an update is sent to: the member sessions with room, but for one. -/
def recipients (g : Group) (room : SessionId → Room) (except? : Option SessionId) :
    List SessionId :=
  (g.members.values.map (·.session)).filter fun id =>
    some id ≠ except? && g.sessions.contains id && room id = .free

def updateFrame (s : Snapshot) : Outgoing :=
  { frame := (Packet.syncRequest s.mime s.data).encode, seq := some s.seq }

/-- Marks an update as under way to sessions. -/
def markInFlight (g : Group) (seq : Nat) (ids : List SessionId) : Group :=
  { g with
    sessions := ids.foldl (fun t id => t.modify id fun e => { e with inFlight := some seq })
      g.sessions }

/-- Accepts a content, sends it to every member but one and announces it. The answer is its number
and how many members it was sent to. -/
def accept (g : Group) (room : SessionId → Room) (mime : String) (data : Bytes) (origin : Origin)
    (except? : Option SessionId) : Outcome (Nat × Nat) :=
  let (s, history) := g.history.record mime data origin
  let ids := g.recipients room except?
  { group := { g with history }.markInFlight s.seq ids
    effects := ids.map (fun id => .deliver id (updateFrame s))
      ++ [.announce (.clipboardUpdated s.seq s.mime s.data s.origin)]
    answer := (s.seq, ids.length) }

/-- A session sent a clipboard content. -/
def acceptUpdate (g : Group) (room : SessionId → Room) (id : SessionId) (mime : String)
    (data : Bytes) : Outcome UpdateOutcome :=
  match g.sessions.get? id with
  | none => { group := g, answer := .unknownSession }
  | some e =>
    if e.role ≠ .authenticated then { group := g, answer := .unauthenticated }
    else if g.history.isCurrent (.of mime data) then { group := g, answer := .echo }
    -- Of two updates that cross, the one from the peer gives way.
    else if e.inFlight.isSome then { group := g, answer := .stale }
    else
      let r := g.accept room mime data (.remote e.device) (some id)
      { group := r.group, effects := r.effects, answer := .accepted r.answer.1 r.answer.2 }

/-- The clipboard of this machine changed. The answer is the number of the update, or nothing if
the content is the current one already. -/
def publishLocal (g : Group) (room : SessionId → Room) (mime : String) (data : Bytes) :
    Outcome (Option Nat) :=
  if g.history.isCurrent (.of mime data) then { group := g, answer := none }
  else
    let r := g.accept room mime data .local none
    { group := r.group, effects := r.effects, answer := some r.answer.1 }

/-- A session has written the frame of an update. -/
def flushed (g : Group) (id : SessionId) (seq : Nat) : Group :=
  { g with
    sessions := g.sessions.modify id fun e =>
      if e.inFlight = some seq then { e with inFlight := none } else e }

/-! ## Discovery -/

/-- Takes up what discovery reports. The answer is a device worth dialing: one that is announced
and has no session. -/
def onDiscovery (g : Group) (me : LocalIdentity) (port : UInt16) (machine : List Net.IpAddress) :
    DiscoveryEvent → Outcome (Option Device)
  | .added d =>
    if me.isSelf port machine d then { group := g, answer := none }
    else
      let answer := if g.hasSessionFor d then none else some d
      match g.discovered.get? d.identity with
      -- A device that is known already is announced once, but its certificate may be a new one.
      | some known =>
        { group := if known.fingerprint = d.fingerprint then g
            else { g with discovered := g.discovered.put d.identity d }
          answer }
      | none =>
        { group := { g with discovered := g.discovered.put d.identity d }
          effects := [.announce (.deviceDiscovered d)]
          answer }
  | .removed d =>
    if g.discovered.contains d.identity then
      { group := { g with discovered := g.discovered.erase d.identity }
        effects := [.announce (.deviceLost d)]
        answer := none }
    else { group := g, answer := none }

/-- What discovery still reports about a device. -/
def discoveredDevice (g : Group) (d : Device) : Option Device := g.discovered.get? d.identity

/-! ## Views -/

def memberDevices (g : Group) : List Device := Device.listed (g.members.values.map (·.device))

def discoveredDevices (g : Group) : List Device := Device.listed g.discovered.values

end Group

end SharedClipboard
