import SharedClipboard.Group.Event
import SharedClipboard.Table

/-!
# A network segment in memory

Nodes that share a segment see what the others announce on it. A provider is a node's access to
the segment: it announces services and may hold one stream of what is announced and withdrawn. A
stream that nobody empties in time loses reports; one that its provider gave up gets no more.
-/

namespace SharedClipboard.Discovery

/-- Names a provider of a segment. -/
abbrev ProviderId := Nat

/-- Names a stream of reports. -/
abbrev StreamId := Nat

structure Stream where
  queue : List DiscoveryEvent := []
  /-- Reports still go into the stream. -/
  registered : Bool := true
  /-- Somebody still takes reports out of the stream. -/
  listening : Bool := true
  deriving DecidableEq, Repr, Inhabited

namespace Stream

def capacity : Nat := 64

/-- Puts a report into the stream. Without room it is lost; if nobody listens any more, the stream
is given up. -/
def push (s : Stream) (e : DiscoveryEvent) : Stream :=
  if !s.registered then s
  -- That nobody listens shows only when the next report comes.
  else if !s.listening then { s with registered := false }
  else if s.queue.length < capacity then { s with queue := s.queue ++ [e] }
  else s

def unregister (s : Stream) : Stream := { s with registered := false }

def drain (s : Stream) : List DiscoveryEvent × Stream := (s.queue, { s with queue := [] })

/-- Nobody takes reports out any more. -/
def drop (s : Stream) : Stream := { s with listening := false, queue := [] }

end Stream

/-- A segment. -/
structure Segment where
  /-- What is announced, by the handle of the announcement. -/
  services : Table String Device := .empty
  streams : Table StreamId Stream := .empty
  /-- The stream that a provider holds. -/
  held : Table ProviderId StreamId := .empty
  lastId : Nat := 0
  deriving DecidableEq, Repr, Inhabited

/-- A node's access to a segment. -/
structure Provider where
  id : ProviderId
  address : Net.IpAddress
  fingerprint : Option Fingerprint := none
  deriving DecidableEq, Repr, Inhabited

namespace Segment

/-- Puts a report into every stream. -/
def inject (s : Segment) (e : DiscoveryEvent) : Segment :=
  { s with streams := s.streams.mapValues (·.push e) }

/-- The device as which a provider announces a service. -/
def serviceDevice (p : Provider) (name : String) (port : UInt16) : Device :=
  { address := p.address, port, name, fingerprint := p.fingerprint }

/-- Announces a service. The answer is the handle of the announcement. -/
def advertise (s : Segment) (p : Provider) (name : String) (port : UInt16) : String × Segment :=
  let id := s.lastId + 1
  let handle := s!"{name}#{id}"
  let d := serviceDevice p name port
  (handle, { s with lastId := id, services := s.services.put handle d }.inject (.added d))

def stopAdvertising (s : Segment) (handle : String) : Segment :=
  match s.services.get? handle with
  | none => s
  | some d => { s with services := s.services.erase handle }.inject (.removed d)

/-- Opens a stream, in place of the one that the provider holds. What is announced already is in
it at once. -/
def browse (s : Segment) (p : ProviderId) : StreamId × Segment :=
  let id := s.lastId + 1
  let streams := match s.held.get? p with
    | some old => s.streams.modify old Stream.unregister
    | none => s.streams
  let known := (s.services.values.take Stream.capacity).map .added
  (id, { s with
    lastId := id, held := s.held.put p id, streams := streams.put id { queue := known } })

/-- Gives up the stream that a provider holds. -/
def stopBrowsing (s : Segment) (p : ProviderId) : Segment :=
  match s.held.get? p with
  | none => s
  | some id =>
    { s with held := s.held.erase p, streams := s.streams.modify id Stream.unregister }

/-- Takes all reports out of a stream. -/
def drain (s : Segment) (id : StreamId) : List DiscoveryEvent × Segment :=
  match s.streams.get? id with
  | none => ([], s)
  | some stream =>
    let (es, stream) := stream.drain
    (es, { s with streams := s.streams.put id stream })

/-- Nobody takes reports out of a stream any more. -/
def dropStream (s : Segment) (id : StreamId) : Segment :=
  { s with streams := s.streams.modify id Stream.drop }

end Segment

end SharedClipboard.Discovery
