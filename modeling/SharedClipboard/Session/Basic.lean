import SharedClipboard.Auth.Handshake
import SharedClipboard.Group.Basic
import SharedClipboard.Packet.FrameReader

/-!
# Sessions

A session is one connection from the node's side: it runs the handshake, keeps the connection
alive and reports what the peer sends. It sees the group only through its outbox.

`Session.step` is the whole of it: one thing that happens, at a given moment, makes the session
act and either go on or end. What can happen is a packet or the end of the stream, the answer of
the user, a timer that is due, the group's wish to end the session, and a failed write.
-/

namespace SharedClipboard

/-- The limits that a session works under. -/
structure Session.Settings where
  codec : Codec
  handshakeTimeout : Nat
  decisionTimeout : Nat
  idleTimeout : Nat
  pingInterval : Nat
  deriving DecidableEq, Repr, Inhabited

/-- A session that has not ended. -/
structure Session where
  settings : Session.Settings
  direction : Direction
  /-- The fingerprints of the certificates presented on the connection. -/
  localFingerprint : Option Fingerprint
  peerFingerprint : Option Fingerprint
  handshake : Handshake
  /-- Until when the user may decide, while the decision is open. -/
  decisionDue : Option Time := none
  lastReceived : Time
  lastPing : Time
  /-- A ping was sent because the peer was silent, and the peer has not pinged since. -/
  awaitingAck : Bool := false
  deriving DecidableEq, Repr, Inhabited

namespace Session

/-- The timers of a session. -/
inductive Timer where
  /-- The user took too long to decide. -/
  | decision
  /-- The peer took too long to answer the challenge. -/
  | response
  /-- The peer was silent too long. -/
  | idle
  /-- The peer was silent long enough to be pinged. -/
  | keepalive
  deriving DecidableEq, Repr, Inhabited

/-- What can happen to a session. -/
inductive Input where
  | kicked
  | writeFailed (e : TransportError)
  | received (r : Received)
  | decided (allow : Bool)
  | timer (t : Timer)
  deriving DecidableEq, Repr, Inhabited

/-- What a session does. -/
inductive Action where
  | send (p : Packet)
  /-- Ask the user whether the peer may join. -/
  | ask
  /-- Trust the fingerprint from now on. -/
  | remember (f : Fingerprint)
  /-- Tell the group that the peer may take part. -/
  | authenticated
  /-- Hand the group a clipboard content from the peer. -/
  | update (mime : String) (data : Bytes)
  deriving DecidableEq, Repr, Inhabited

/-- What a session sees of its surroundings. -/
structure View where
  now : Time
  /-- The room in its outbox. -/
  room : Room
  /-- Whether a fingerprint is trusted. -/
  trusts : Fingerprint → Bool

/-- What a step leads to: the actions in order, and the session or why it ended. -/
structure Turn where
  actions : List Action := []
  next : Except CloseReason Session

def goOn (s : Session) (actions : List Action := []) : Turn := { actions, next := .ok s }

def stop (reason : CloseReason) : Turn := { next := .error reason }

/-- Sends a packet and goes on, or ends because the packet cannot be queued. -/
def send (v : View) (p : Packet) (s : Session) : Turn :=
  match v.room with
  | .free => s.goOn [.send p]
  | .full => stop .notDraining
  | .closed => stop (.transport .closed)

def fresh (settings : Settings) (direction : Direction) (mine peer : Option Fingerprint)
    (now : Time) : Session :=
  { settings, direction, localFingerprint := mine, peerFingerprint := peer
    handshake := .fresh settings.handshakeTimeout, lastReceived := now, lastPing := now }

/-- Starts by sending the challenge with the given number. -/
def start (v : View) (nonce : Bytes) (s : Session) : Turn :=
  match s.handshake.issue v.now nonce with
  | (some p, h) => { s with handshake := h }.send v p
  | (none, _) => s.goOn

/-- Admits the peer: its fingerprint is remembered and the group is told. -/
def promote (s : Session) : Turn :=
  match s.handshake.approve with
  | (.ok (), h) =>
    { s with handshake := h }.goOn
      ((s.peerFingerprint.map Action.remember).toList ++ [Action.authenticated])
  | (.error _, _) => s.goOn

/-- A peer that this node dialed and a peer whose certificate is trusted need no decision. -/
def admittedWithoutAsking (v : View) (s : Session) : Bool :=
  s.direction == .outbound || s.peerFingerprint.any v.trusts

/-- The peer answered the challenge. -/
def onResponse (v : View) (s : Session) (given : Bytes) : Turn :=
  match s.handshake.onResponse given s.peerFingerprint with
  | (.error e, _) => stop (.auth e)
  | (.ok (), h) =>
    let s := { s with handshake := h }
    if s.admittedWithoutAsking v then s.promote
    else
      { s with decisionDue := some (v.now + s.settings.decisionTimeout) }.goOn [.ask]

/-- The peer sent a challenge. -/
def onChallenge (v : View) (s : Session) (nonce : Bytes) : Turn :=
  match s.handshake.answer nonce s.localFingerprint with
  | (.error e, _) => stop (.auth e)
  | (.ok p, h) => { s with handshake := h }.send v p

/-- The peer sent a ping. It acknowledges a ping of this side that is out; otherwise it is
acknowledged by another. -/
def onPing (v : View) (s : Session) : Turn :=
  if s.awaitingAck then { s with awaitingAck := false }.goOn
  else { s with lastPing := v.now }.send v .ping

/-- The peer sent a packet. -/
def onPacket (v : View) (s : Session) (p : Packet) : Turn :=
  let s := { s with lastReceived := v.now }
  if s.handshake.isAuthenticated ∧ p.type.isHandshake then stop .lateHandshake
  else match p with
    | .ping => s.onPing v
    | .challengeRequest nonce => s.onChallenge v nonce
    | .challengeResponse given => s.onResponse v given
    | .syncRequest mime data => s.goOn [.update mime data]
    | .invalid => stop .peerReportedInvalid

/-- Something came from the peer's side of the connection. To bytes that are no packet the peer
is told so, if there is room for it. -/
def onReceived (v : View) (s : Session) : Received → Turn
  | .packet p => s.onPacket v p
  | .finished => stop (.transport .closed)
  | .failed e => stop (.transport e)
  | .undecodable e =>
    { actions := if v.room = .free then [.send .invalid] else [], next := .error (.decode e) }

def onDecision (s : Session) (allow : Bool) : Turn :=
  let s := { s with decisionDue := none }
  if allow then s.promote else stop (.auth .rejected)

def onTimer (v : View) (s : Session) : Timer → Turn
  | .decision | .response => stop (.auth .timeout)
  | .idle => stop .idle
  | .keepalive => { s with lastPing := v.now, awaitingAck := true }.send v .ping

/-- Something happens. -/
def step (v : View) (s : Session) : Input → Turn
  | .kicked => stop .kicked
  | .writeFailed e => stop (.transport e)
  | .received r => s.onReceived v r
  | .decided allow => s.onDecision allow
  | .timer t => s.onTimer v t

/-- When a timer is due, if it runs. -/
def due (s : Session) : Timer → Option Time
  | .decision => s.decisionDue
  | .response => s.handshake.responseDeadline
  | .idle => some (s.lastReceived + s.settings.idleTimeout)
  | .keepalive => some (max s.lastPing s.lastReceived + s.settings.pingInterval)

def timers : List Timer := [.decision, .response, .idle, .keepalive]

/-- The timers that are due. -/
def dueTimers (s : Session) (now : Time) : List Timer :=
  timers.filter fun t => (s.due t).any (· ≤ now)

def nextDue (s : Session) : Option Time := (timers.filterMap s.due).min?

end Session

end SharedClipboard
