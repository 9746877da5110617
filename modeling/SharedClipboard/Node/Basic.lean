import SharedClipboard.Config.Basic
import SharedClipboard.Session.Task

/-!
# Nodes

A node owns the group: everything that changes it arrives as a command, and commands are handled
one after the other. `Node.handle` is the whole of it. What it asks of its surroundings, besides
what the group asks for, is to start a session on a connection and to dial a discovered device.

A device that is dialed because it was discovered stands in `Node.dialing`, and is not dialed again,
from the moment the dial begins until the node has handled its outcome or has taken up another
connection that was opened to the device.
-/

namespace SharedClipboard

/-- The limits for sessions under a configuration. -/
def Config.sessionSettings (c : Config) : Session.Settings :=
  { codec := c.codec, handshakeTimeout := c.handshakeTimeout, decisionTimeout := c.decisionTimeout
    idleTimeout := c.idleTimeout, pingInterval := c.pingInterval }

/-- Refuses a field that the peers could not decode. -/
def Codec.checkField (c : Codec) (field : String) (size : Nat) : Except Error Unit :=
  let max := min c.maxPayload (Bytes.lengthLimit - 1)
  if size > max then .error (.payloadTooLarge field size max) else .ok ()

/-- Refuses a clipboard content that the peers could not decode. -/
def Codec.checkContent (c : Codec) (mime : String) (data : Bytes) : Except Error Unit := do
  c.checkField "mime type" (Text.utf8 mime).length
  c.checkField "clipboard data" data.length

/-- The owner of the group. -/
structure Node where
  identity : LocalIdentity
  /-- Where the node listens. -/
  port : UInt16
  /-- The addresses of this machine. -/
  machine : List Net.IpAddress := []
  autoConnect : Bool
  group : Group
  /-- The devices that are being dialed because they were discovered. -/
  dialing : List Device.Identity := []
  deriving DecidableEq, Inhabited

namespace Node

/-- A connection that has just been opened. -/
structure Arrival where
  id : SessionId
  peer : Net.SocketAddress
  /-- The fingerprint of the certificate presented on the connection. -/
  fingerprint : Option Fingerprint
  deriving DecidableEq, Repr, Inhabited

/-- What a node is told. -/
inductive Command where
  /-- A connection came in. -/
  | accepted (a : Arrival)
  /-- A device was dialed. -/
  | connected (a : Arrival) (d : Device)
  | dialFailed (d : Device) (cause : ConnectError)
  | report (id : SessionId) (r : Report)
  /-- The clipboard of this machine changed. -/
  | publish (mime : String) (data : Bytes)
  | discovery (e : DiscoveryEvent)
  /-- The node is to stop. The order is the one in which it will walk the table of its sessions. -/
  | shutdown (order : List SessionId)
  deriving DecidableEq, Repr, Inhabited

/-- Whether a node that is told this stops. -/
def Command.isShutdown : Command → Bool
  | .shutdown _ => true
  | _ => false

/-- What a node asks of its surroundings. -/
inductive Effect where
  | group (e : Group.Effect)
  /-- Start a session on a connection. -/
  | start (id : SessionId) (direction : Direction)
  /-- Dial a device after a while. -/
  | dial (d : Device) (delay : Nat)
  deriving DecidableEq, Repr, Inhabited

/-- What a command leads to. -/
structure Turn where
  node : Node
  effects : List Effect := []
  /-- The number of the update, if the command published one. -/
  published : Option Nat := none

/-- How long a node waits before it dials a member again whose session ended. -/
def redialDelay : Nat := 1000

def fresh (c : Config) (me : LocalIdentity) (port : UInt16) : Node :=
  { identity := me, port, autoConnect := c.autoConnect, group := .fresh c.historyLimit }

/-- Starts a node whose listener is bound, or not. A configuration that is no good is refused
before the listener is asked. -/
def start (c : Config) (me : LocalIdentity) (bound : Except TransportError UInt16) :
    Except Error Node := do
  c.validate
  match bound with
  | .error e => throw (.bind c.port e)
  | .ok port => return fresh c me port

/-- The first failure of discovery, which leaves the node without it. -/
def degraded (advertised browsed : Except DiscoveryError Unit) : Option DiscoveryError :=
  match advertised, browsed with
  | .error e, _ => some e
  | _, .error e => some e
  | _, _ => none

/-- Whether a discovered device is to be dialed. -/
def wouldDial (n : Node) (d : Device) : Bool :=
  n.autoConnect && n.identity.dialsFirst n.port d && !n.group.hasSessionFor d
    && !n.dialing.contains d.identity

/-- Dials a discovered device after a while, if it is to be dialed. -/
def maybeDial (n : Node) (d : Device) (delay : Nat) : Turn :=
  if n.wouldDial d then
    { node := { n with dialing := d.identity :: n.dialing }, effects := [.dial d delay] }
  else { node := n }

/-- The dial of a device is over. -/
def dialed (n : Node) (d : Device) : Node :=
  { n with dialing := n.dialing.filter (· ≠ d.identity) }

/-- Takes up what a change of the group leads to. -/
def take {α : Type} (n : Node) (o : Group.Outcome α) : Turn :=
  { node := { n with group := o.group }, effects := o.effects.map .group }

/-- Takes up what a change of the group leads to, and dials the device that it names. -/
def takeAndDial (n : Node) (o : Group.Outcome (Option Device)) (delay : Nat)
    (worth : Group → Device → Option Device) : Turn :=
  let t := n.take o
  match o.answer.bind (worth o.group) with
  | none => t
  | some d =>
    let u := t.node.maybeDial d delay
    { u with effects := t.effects ++ u.effects }

/-- Takes up a connection with a device. -/
def attach (n : Node) (a : Arrival) (d : Device) (direction : Direction) : Turn :=
  { node := { n with
      group := n.group.attach a.id
        { device := d, peer := a.peer, peerFingerprint := a.fingerprint, direction } }
    effects := [.start a.id direction] }

/-- Takes up what a session reports. A member whose session ended is dialed again while discovery
still reports it: the link dropped, and not the peer. -/
def hear (n : Node) (room : SessionId → Room) (id : SessionId) : Report → Turn
  | .authenticated => n.take (n.group.promote id)
  | .update mime data => n.take (n.group.acceptUpdate room id mime data)
  | .flushed seq => { node := { n with group := n.group.flushed id seq } }
  | .closed reason => n.takeAndDial (n.group.remove id reason) redialDelay Group.discoveredDevice

/-- Handles a command, with the given room in the outboxes of the sessions. -/
def handle (n : Node) (room : SessionId → Room) : Command → Turn
  | .accepted a => n.attach a (n.group.resolveInbound a.peer a.fingerprint) .inbound
  | .connected a d =>
    (n.dialed d).attach a { d with fingerprint := a.fingerprint.or d.fingerprint } .outbound
  | .dialFailed d _ => { node := n.dialed d }
  | .report id r => n.hear room id r
  | .publish mime data =>
    let o := n.group.publishLocal room mime data
    { n.take o with published := o.answer }
  | .discovery e =>
    n.takeAndDial (n.group.onDiscovery n.identity n.port n.machine e) 0 fun _ d => some d
  | .shutdown order => n.take (n.group.kickAll order)

end Node

end SharedClipboard
