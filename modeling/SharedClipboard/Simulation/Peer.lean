import SharedClipboard.Session.Task
import SharedClipboard.Simulation.Answer

/-!
# The far end of a connection

A made-up peer: it writes what it is told to, as fast as the pipe takes it, and reads all the time
unless told to pause, keeping a log of what arrives.
-/

namespace SharedClipboard.Simulation

/-- What arrives at a peer. -/
inductive Arrival where
  | packet (p : Packet)
  /-- The stream ended, perhaps within a frame. -/
  | finished (unfinished : Bytes)
  deriving DecidableEq, Repr, Inhabited

/-- The far end of a connection. -/
structure Peer where
  reading : Bool := true
  /-- Both ends were dropped. -/
  gone : Bool := false
  sawEnd : Bool := false
  /-- Bytes that the pipe has not taken yet. -/
  unsent : Bytes := []
  /-- Nothing more is sent after these. -/
  sendsNoMore : Bool := false
  reader : FrameReader := .atTag
  /-- The last challenge that arrived. -/
  challenge : Option Bytes := none
  /-- What arrived, and when, newest first. -/
  log : List (Time × Arrival) := []
  deriving DecidableEq, Repr, Inhabited

/-- What a peer can be told to do. -/
inductive PeerStep where
  | send (p : Packet)
  | sendRaw (b : Bytes)
  | respond (a : Answer)
  | pauseReading
  | resumeReading
  | halfClose
  | hangUp
  /-- Reading fails on the other side of the connection from now on. -/
  | failReads (e : IoError)
  /-- Writing fails on the other side of the connection from now on. -/
  | failWrites (e : IoError)
  deriving DecidableEq, Repr, Inhabited

namespace Peer

/-- A peer decodes whatever can be written. -/
def codec : Codec := ⟨Bytes.lengthLimit⟩

/-- Takes note of what arrives. -/
def note (p : Peer) (now : Time) (a : Arrival) : Peer := { p with log := (now, a) :: p.log }

def notePacket (p : Peer) (now : Time) (q : Packet) : Peer :=
  { p.note now (.packet q) with
    challenge := match q with
      | .challengeRequest nonce => some nonce
      | _ => p.challenge }

def read (now : Time) (p : Peer) : Bytes → Peer
  | [] => p
  | b :: rest =>
    match p.reader.push codec b with
    | .more r => { p with reader := r }.read now rest
    | .done (.packet q) => ({ p with reader := .atTag }.notePacket now q).read now rest
    | .done _ => { p with reader := .atTag }.read now rest

end Peer

/-- A connection with a peer at its far end and, once the node has taken it up, a session at the
near one. -/
structure Link where
  connection : Connection
  peer : Peer := {}
  task : Option SessionTask := none
  /-- The number of the session's last step among the steps of all sessions. -/
  lastStep : Nat := 0
  deriving DecidableEq, Repr, Inhabited

namespace Link

/-- A new connection whose pipes hold so many bytes each. -/
def fresh (capacity : Nat) : Link :=
  { connection := { incoming := { capacity }, outgoing := { capacity } } }

/-- The peer's next step as a writer. -/
def peerWrites (l : Link) : Option Link :=
  let pipe := l.connection.incoming
  if pipe.writerClosed then none
  else if l.peer.unsent.isEmpty then
    if l.peer.sendsNoMore then
      some { l with connection := { l.connection with incoming := pipe.closeWriter } }
    else none
  else if pipe.readerClosed then some { l with peer := { l.peer with unsent := [] } }
  else if pipe.free = 0 then none
  else
    let (pipe, rest) := pipe.write l.peer.unsent
    some { l with
      connection := { l.connection with incoming := pipe }
      peer := { l.peer with unsent := rest } }

/-- The peer's next step as a reader. -/
def peerReads (now : Time) (l : Link) : Option Link :=
  let pipe := l.connection.outgoing
  if !l.peer.reading || l.peer.gone || l.peer.sawEnd then none
  else if pipe.buffer.isEmpty then
    if pipe.writerClosed then
      some { l with
        peer := { l.peer.note now (.finished l.peer.reader.unfinished) with sawEnd := true } }
    else none
  else
    some { l with
      connection := { l.connection with outgoing := { pipe with buffer := [] } }
      peer := l.peer.read now pipe.buffer }

/-- Puts bytes behind those that the peer has to send. -/
def sendBytes (l : Link) (b : Bytes) : Link :=
  if l.peer.gone || l.peer.sendsNoMore then l
  else { l with peer := { l.peer with unsent := l.peer.unsent ++ b } }

/-- What came of telling a peer something. -/
inductive Told where
  | ok
  | noChallenge
  deriving DecidableEq, Repr, Inhabited

def tell (l : Link) : PeerStep → Link × Told
  | .send p => (l.sendBytes p.encode, .ok)
  | .sendRaw b => (l.sendBytes b, .ok)
  | .respond a =>
    match l.peer.challenge with
    | none => (l, .noChallenge)
    | some nonce => (l.sendBytes (Packet.challengeResponse (a.bytes nonce)).encode, .ok)
  | .pauseReading => ({ l with peer := { l.peer with reading := false } }, .ok)
  | .resumeReading => ({ l with peer := { l.peer with reading := true } }, .ok)
  | .halfClose => ({ l with peer := { l.peer with sendsNoMore := true } }, .ok)
  | .hangUp =>
    ({ l with
        peer := { l.peer with gone := true, unsent := [] }
        connection := { l.connection with
          incoming := l.connection.incoming.closeWriter
          outgoing := l.connection.outgoing.closeReader } }, .ok)
  | .failReads e => ({ l with connection := { l.connection with readFault := some e } }, .ok)
  | .failWrites e => ({ l with connection := { l.connection with writeFault := some e } }, .ok)

/-- When something happens on the link although nothing is done to it. -/
def nextDue (l : Link) : Option Time := l.task.bind SessionTask.nextDue

/-- A bound on the number of steps that the link can take at one moment. -/
def pending (l : Link) : Nat :=
  let c := l.connection
  let waiting := match l.task with
    | none => 0
    | some t =>
      t.inbound.length + t.outbox.queue.foldl (fun n x => n + x.frame.length + 4) 0 +
        (match t.writer with
          | .writing rest _ => rest.length
          | .drainingFrame rest => rest.length
          | _ => 0)
  c.incoming.buffer.length + c.outgoing.buffer.length + l.peer.unsent.length + waiting + 64

end Link

end SharedClipboard.Simulation
