import SharedClipboard.Packet.Codec

/-!
# Configuration

What a node can be told: where it listens, where its data is, the limits and timeouts it works
under. `Config.validate` refuses a configuration under which a node could not work, naming the
first thing that is wrong with it.
-/

namespace SharedClipboard

/-- How devices are found. -/
inductive DiscoveryBackend where
  /-- By multicast on the local network. -/
  | mdns
  /-- Not at all; peers are named by the user. -/
  | none
  deriving DecidableEq, Repr, Inhabited

def DiscoveryBackend.text : DiscoveryBackend → String
  | .mdns => "mdns"
  | .none => "none"

/-- The configuration of a node. Times are in milliseconds. -/
structure Config where
  /-- The port to listen on; 0 takes a free one. -/
  port : UInt16
  serviceType : String
  dataDir : String
  /-- The bound on a field of a packet. -/
  maxPayload : Nat
  /-- How long a peer may take to answer the challenge. -/
  handshakeTimeout : Nat
  /-- How long the user may take to decide about a peer. -/
  decisionTimeout : Nat
  /-- How long a peer may be silent. -/
  idleTimeout : Nat
  /-- How long a peer is silent before it is pinged. -/
  pingInterval : Nat
  historyLimit : Nat
  /-- How many frames may wait for one peer. -/
  outboxCapacity : Nat
  discovery : DiscoveryBackend
  /-- Whether discovered devices are dialed. -/
  autoConnect : Bool
  deriving DecidableEq, Repr, Inhabited

namespace Config

/-- The service type under which nodes announce themselves unless told otherwise. -/
def defaultServiceType : String := "_clipmesh._tcp.local."

def fileName : String := "config.json"

/-- The configuration of a node that was told nothing, for a user with the given home directory. -/
def default (home : String) : Config where
  port := 17394
  serviceType := defaultServiceType
  dataDir := home ++ "/.clipmesh"
  maxPayload := Codec.defaultMaxPayload
  handshakeTimeout := 10000
  decisionTimeout := 60000
  idleTimeout := 30000
  pingInterval := 10000
  historyLimit := 50
  outboxCapacity := 32
  discovery := .mdns
  autoConnect := true

/-- What can be wrong with a configuration. -/
inductive Problem where
  | payloadLimit
  | pingInterval
  | zeroTimeout
  | zeroOutbox
  deriving DecidableEq, Repr, Inhabited

def Problem.message : Problem → String
  | .payloadLimit => s!"max_payload_size must be between 1 and {Bytes.lengthLimit - 1}"
  | .pingInterval => "idle_timeout_ms must be longer than a non-zero ping_interval_ms"
  | .zeroTimeout => "timeouts must be non-zero"
  | .zeroOutbox => "outbox_capacity must be non-zero"

/-- The first problem of a configuration, if it has one. -/
def problem? (c : Config) : Option Problem :=
  if c.maxPayload = 0 ∨ c.maxPayload ≥ Bytes.lengthLimit then some .payloadLimit
  else if c.pingInterval = 0 ∨ c.idleTimeout ≤ c.pingInterval then some .pingInterval
  else if c.handshakeTimeout = 0 ∨ c.decisionTimeout = 0 then some .zeroTimeout
  else if c.outboxCapacity = 0 then some .zeroOutbox
  else none

/-- Refuses a configuration under which a node cannot work. -/
def validate (c : Config) : Except Error Unit :=
  match c.problem? with
  | none => .ok ()
  | some p => .error (.config p.message)

def codec (c : Config) : Codec := ⟨c.maxPayload⟩

end Config

end SharedClipboard
