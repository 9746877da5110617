import SharedClipboard.Discovery.Segment
import SharedClipboard.Net.Wire
import SharedClipboard.Node.Basic
import SharedClipboard.Simulation.Surroundings

/-!
# A node under a made-up clock

A node with everything around it: connections to peers, routes over which devices are dialed, the
listener's backlog, and a discovery segment. `NodeRun.settle` lets everything happen that can
happen at the current moment: connections are taken up, dials that are due come to their end, what
discovery reports is handed on, the sessions take turns, and the node handles what they report.

A connection and its session bear the same number, in the order in which connections open.
-/

namespace SharedClipboard.Simulation

/-- What comes of dialing an address. -/
structure Route where
  failure : Option ConnectError := none
  delay : Nat := 0
  pipeCapacity : Option Nat := none
  /-- The fingerprints of the certificates presented on the connection. -/
  mine : Option Fingerprint := none
  theirs : Option Fingerprint := none
  deriving DecidableEq, Repr, Inhabited

/-- Where nobody listens. -/
def Route.nowhere : Route := { failure := some .refused }

inductive DialStage where
  | waiting (start : Time)
  | opening (began due : Time) (route : Route)
  deriving DecidableEq, Repr, Inhabited

/-- The dial of a discovered device. -/
structure Dial where
  device : Device
  stage : DialStage
  deriving DecidableEq, Repr, Inhabited

namespace Dial

/-- When something happens to the dial. -/
def due (d : Dial) : Time :=
  match d.stage with
  | .waiting start => start
  | .opening _ due _ => due

end Dial

/-- A dial that came to its end. -/
structure DialNote where
  began : Time
  device : Device
  outcome : Except ConnectError SessionId

/-- What waits at the listener. -/
inductive Waiting where
  | connection (id : SessionId)
  | failure
  deriving DecidableEq, Repr, Inhabited

/-- The calls that a node makes to its discovery provider. -/
inductive DiscoveryCall where
  | advertise
  | browse
  | stopBrowsing
  | stopAdvertising
  deriving DecidableEq, Repr, Inhabited

/-- Discovery for a node: its provider, the failures of its calls, and what it holds. -/
structure DiscoveryAccess where
  provider : Discovery.Provider
  advertiseFault : Option DiscoveryError := none
  browseFault : Option DiscoveryError := none
  stopBrowsingFault : Option DiscoveryError := none
  stopAdvertisingFault : Option DiscoveryError := none
  handle : Option String := none
  stream : Option Discovery.StreamId := none
  deriving DecidableEq, Repr, Inhabited

/-- A node with everything around it. -/
structure NodeRun where
  config : Config
  pipeCapacity : Nat
  /-- The challenge that the session with a number issues. -/
  nonce : SessionId → Bytes
  node : Node
  surroundings : Surroundings
  wires : List Wire := []
  links : List Link := []
  routes : Table Net.SocketAddress Route := .empty
  dials : List Dial := []
  backlog : List Waiting := []
  /-- From when on the listener takes up connections. -/
  acceptsFrom : Time := 0
  segment : Discovery.Segment := {}
  discovery : Option DiscoveryAccess := none
  /-- The node was told to stop. -/
  stopped : Bool := false
  /-- What happened since the logs were cleared, newest first. -/
  events : List Event := []
  dialLog : List DialNote := []
  calls : List DiscoveryCall := []

namespace NodeRun

def now (r : NodeRun) : Time := r.surroundings.now

def room (r : NodeRun) (id : SessionId) : Room :=
  match (r.links[id]?).bind (·.task) with
  | some t => t.outbox.room
  | none => .closed

def onLink (r : NodeRun) (id : SessionId) (f : Link → Link) : NodeRun :=
  { r with links := r.links.modify id f }

def onTask (r : NodeRun) (id : SessionId) (f : SessionTask → SessionTask) : NodeRun :=
  r.onLink id fun l => { l with task := l.task.map f }

def openLink (r : NodeRun) (w : Wire) (capacity : Option Nat) : SessionId × NodeRun :=
  let l := { Link.fresh (capacity.getD r.pipeCapacity) with lastStep := r.surroundings.steps }
  (r.links.length,
    { r with
      wires := r.wires ++ [w], links := r.links ++ [l]
      surroundings := { r.surroundings with addresses := r.surroundings.addresses ++ [w.peer] } })

def arrival (r : NodeRun) (id : SessionId) : Node.Arrival :=
  let w := (r.wires[id]?).getD default
  { id, peer := w.peer, fingerprint := w.theirs }

def startSession (r : NodeRun) (id : SessionId) (direction : Direction) : NodeRun :=
  let w := (r.wires[id]?).getD default
  let (task, notes) := SessionTask.start r.config.sessionSettings direction w.mine w.theirs
    r.config.outboxCapacity r.now (r.nonce id)
  { r with surroundings := notes.foldl (Surroundings.hear id) r.surroundings }.onLink id
    fun l => { l with task := some task }

/-- Begins the dial of a device. -/
def openingDial (r : NodeRun) (d : Device) : Dial :=
  let route := (r.routes.get? d.socketAddress).getD .nowhere
  { device := d, stage := .opening r.now (r.now + route.delay) route }

/-- Does one thing that the node asks for. -/
def perform (r : NodeRun) : Node.Effect → NodeRun
  | .group (.announce e) => { r with events := e :: r.events }
  | .group (.deliver id x) => r.onTask id fun t => { t with outbox := t.outbox.push x }
  | .group (.kick id) => r.onTask id SessionTask.kick
  | .start id direction => r.startSession id direction
  | .dial d delay =>
    let dial := if delay = 0 then r.openingDial d
      else { device := d, stage := .waiting (r.now + delay) }
    { r with dials := r.dials ++ [dial] }

/-- Gives the node a command. The answer is the number of what the command published. -/
def command (r : NodeRun) (c : Node.Command) : Option Nat × NodeRun :=
  let t := r.node.handle r.room c
  (t.published, t.effects.foldl perform { r with node := t.node })

def tell (r : NodeRun) (c : Node.Command) : NodeRun := (r.command c).2

/-- How long the listener rests after a failure. -/
def acceptBackoff : Nat := 100

/-- The listener takes up what waits. -/
def acceptAll (r : NodeRun) : NodeRun :=
  r.backlog.foldl
    (fun r w =>
      if r.now < r.acceptsFrom then { r with backlog := r.backlog ++ [w] }
      else match w with
        | .connection id => r.tell (.accepted (r.arrival id))
        | .failure => { r with acceptsFrom := r.now + acceptBackoff })
    { r with backlog := [] }

/-- A dial comes to its end: a connection opens, or not. -/
def finishDial (r : NodeRun) (d : Device) (began : Time) (route : Route) :
    Except ConnectError SessionId × NodeRun :=
  let (outcome, r) : Except ConnectError SessionId × NodeRun := match route.failure with
    | some e => (.error e, r)
    | none =>
      let w : Wire := { peer := d.socketAddress, mine := route.mine, theirs := route.theirs }
      let (id, r) := r.openLink w route.pipeCapacity
      (.ok id, r)
  (outcome, { r with dialLog := ⟨began, d, outcome⟩ :: r.dialLog })

def stepDial (r : NodeRun) (d : Dial) : NodeRun :=
  if r.now < d.due then { r with dials := r.dials ++ [d] }
  else match d.stage with
    | .waiting _ => { r with dials := r.dials ++ [r.openingDial d.device] }
    | .opening began _ route =>
      match r.finishDial d.device began route with
      | (.ok id, r) => r.tell (.connected (r.arrival id) d.device)
      | (.error e, r) => r.tell (.dialFailed d.device e)

/-- Takes the next step of every dial that is due. -/
def stepDials (r : NodeRun) : NodeRun := r.dials.foldl stepDial { r with dials := [] }

/-- Hands on what discovery reports. -/
def discover (r : NodeRun) : NodeRun :=
  match r.discovery.bind (·.stream) with
  | none => r
  | some id =>
    let (es, segment) := r.segment.drain id
    es.foldl (fun r e => r.tell (.discovery e)) { r with segment }

/-- Hands on what the sessions reported. A node that has stopped does not listen. -/
def hearReports (r : NodeRun) : NodeRun :=
  let reports := r.surroundings.reports.reverse
  let r := { r with surroundings := { r.surroundings with reports := [] } }
  if r.stopped then r
  else reports.foldl (fun r (_, id, report) => r.tell (.report id report)) r

/-- The links in the order in which they get turns: the session that has been waiting longest
comes first. -/
def order (r : NodeRun) : List SessionId :=
  ((r.links.mapIdx fun i l => (l.lastStep, i)).mergeSort fun x y => x.1 ≤ y.1).map (·.2)

/-- Gives the parts of every link one turn. The flag says whether any of them did anything. -/
def turnLinks (r : NodeRun) : Bool × NodeRun :=
  r.order.foldl
    (fun (moved, r) id =>
      match r.links[id]? with
      | none => (moved, r)
      | some l =>
        let (again, surroundings, l) := r.surroundings.round id r.config.codec l
        (moved || again, { r with surroundings }.onLink id fun _ => l))
    (false, r)

/-- Whether there is something at the node's door. -/
def hasWork (r : NodeRun) : Bool :=
  !r.surroundings.reports.isEmpty || (!r.backlog.isEmpty && r.acceptsFrom ≤ r.now)
    || r.dials.any (·.due ≤ r.now)
    || ((r.discovery.bind (·.stream)).bind r.segment.streams.get?).any (!·.queue.isEmpty)

/-- Gives everything one turn. -/
def turn (r : NodeRun) : Bool × NodeRun :=
  let work := r.hasWork
  let r := if r.stopped then r else r.acceptAll.stepDials.discover
  let (moved, r) := r.turnLinks
  (work || moved, r.hearReports)

/-- Gives everything turns until nothing does anything. -/
def turns : Nat → NodeRun → NodeRun
  | 0, r => r
  | fuel + 1, r =>
    match r.turn with
    | (false, r) => r
    | (true, r) => turns fuel r

/-- A bound on the number of turns at one moment. -/
def pending (r : NodeRun) : Nat :=
  let work := r.links.foldl (fun n l => n + l.pending) 0 + r.backlog.length + r.dials.length
  (work + 64) * (r.links.length + 8)

/-- Lets everything happen that can happen at the current moment. -/
def settle (r : NodeRun) : NodeRun := turns r.pending r

/-- When something happens although nothing is done. -/
def nextDue (r : NodeRun) : Option Time :=
  (r.links.filterMap Link.nextDue ++ r.dials.map Dial.due
    ++ (if r.backlog.isEmpty then [] else [r.acceptsFrom])).min?

def atTime (r : NodeRun) (now : Time) : NodeRun :=
  { r with surroundings := { r.surroundings with now } }

/-- Lets time pass up to a moment, stopping wherever something is due, and for good once nobody
waits any more. -/
def advanceWhile (waits : NodeRun → Bool) (r : NodeRun) (moment : Time) : NodeRun :=
  if !waits r then r
  else match r.nextDue with
  | none => r.atTime moment
  | some due =>
    if due ≤ moment then
      let next := (r.atTime due).settle
      if _h : r.now < next.now ∧ next.now ≤ moment then next.advanceWhile waits moment
      else r.atTime moment
    else r.atTime moment
termination_by moment - r.now
decreasing_by
  obtain ⟨h₁, h₂⟩ := _h
  exact Nat.sub_lt_sub_left (Nat.lt_of_lt_of_le h₁ h₂) h₁

def advanceTo (r : NodeRun) (moment : Time) : NodeRun := r.advanceWhile (fun _ => true) moment

/-! ## What is done to the node -/

structure Setup where
  config : Config
  identity : LocalIdentity
  bound : Except TransportError UInt16
  approver : Approver
  registry : Registry
  pipeCapacity : Nat
  routes : List (Net.SocketAddress × Route)
  segment : Discovery.Segment
  discovery : Option DiscoveryAccess
  nonce : SessionId → Bytes

/-- Takes note of a call to the provider. -/
def note (r : NodeRun) (c : DiscoveryCall) : NodeRun := { r with calls := c :: r.calls }

/-- Announces the node and looks for others. The answer is what went wrong first. -/
def startDiscovery (r : NodeRun) : Option DiscoveryError × NodeRun :=
  match r.discovery with
  | none => (none, r)
  | some a =>
    let r := (r.note .advertise).note .browse
    let (handle, segment) := match a.advertiseFault with
      | some _ => (none, r.segment)
      | none =>
        let (h, s) := r.segment.advertise a.provider r.node.identity.name r.node.port
        (some h, s)
    let (stream, segment) := match a.browseFault with
      | some _ => (none, segment)
      | none =>
        let (id, s) := segment.browse a.provider.id
        (some id, s)
    let outcome : Option DiscoveryError → Except DiscoveryError Unit
      | some e => .error e
      | none => .ok ()
    (Node.degraded (outcome a.advertiseFault) (outcome a.browseFault),
      { r with segment, discovery := some { a with handle, stream } })

/-- Starts the node. The answer is why discovery does not work, if it does not. -/
def start (s : Setup) : Except Error (Option DiscoveryError × NodeRun) := do
  let node ← Node.start s.config s.identity s.bound
  let r : NodeRun :=
    { config := s.config, pipeCapacity := s.pipeCapacity, nonce := s.nonce, node
      surroundings := { registry := s.registry, approver := s.approver }
      routes := s.routes.foldl (fun t x => t.put x.1 x.2) .empty
      segment := s.segment, discovery := s.discovery }
  let (degraded, r) := r.startDiscovery
  return (degraded, r.settle)

inductive Step where
  | peer (id : SessionId) (s : PeerStep)
  /-- Several steps of peers, with nothing happening between them. -/
  | burst (s : List (SessionId × PeerStep))
  | advance (ms : Nat)
  | decide (allow : Bool)
  | route (a : Net.SocketAddress) (x : Route)
  /-- A connection comes in. -/
  | inbound (w : Wire) (pipeCapacity : Option Nat)
  /-- The listener fails once. -/
  | acceptError
  /-- Somebody reports something on the segment. -/
  | inject (e : DiscoveryEvent)
  /-- An announcement of somebody else is withdrawn. -/
  | withdraw (handle : String)
  /-- The user names a device to connect to. -/
  | connect (d : Device)
  | publish (mime : String) (data : Bytes)
  | snapshot
  | history
  | shutdown
  /-- The node is dropped without being shut down. -/
  | drop

inductive Told where
  | ok
  | noChallenge
  | noQuestion
  | stopped
  | peer (id : SessionId)
  | failed (e : Error)
  | published (seq : Option Nat)
  | snapshot (s : Option Snapshot)
  | history (s : List Snapshot)

def told : Link.Told → Told
  | .ok => .ok
  | .noChallenge => .noChallenge

/-- Tells the peer of a connection to do something. -/
def tellPeer (r : NodeRun) (id : SessionId) (s : PeerStep) : NodeRun × Told :=
  match r.links[id]? with
  | none => (r, .ok)
  | some l =>
    let (l, t) := l.tell s
    (r.onLink id fun _ => l, told t)

/-- Dials a device for the user, who waits for the outcome. -/
def connect (r : NodeRun) (d : Device) : NodeRun × Told :=
  let route := (r.routes.get? d.socketAddress).getD .nowhere
  let began := r.now
  match (r.advanceTo (r.now + route.delay)).finishDial d began route with
  | (.ok id, r) => (r.tell (.connected (r.arrival id) d), .ok)
  | (.error e, r) => (r, .failed (.connect e))

/-- A connection comes in. If the node has stopped it is dropped at once. -/
def inbound (r : NodeRun) (w : Wire) (capacity : Option Nat) : NodeRun × Told :=
  let (id, r) := r.openLink w capacity
  let r :=
    if r.stopped then
      r.onLink id fun l => { l with connection := SessionTask.dropped l.connection }
    else { r with backlog := r.backlog ++ [.connection id] }
  (r, .peer id)

/-- Stops what the node has running around it, and tells it to end its sessions. -/
def stop (r : NodeRun) : NodeRun :=
  let segment := match r.discovery.bind (·.stream) with
    | some id => r.segment.dropStream id
    | none => r.segment
  let discovery := r.discovery.map fun a => { a with stream := none }
  let r := { r with dials := [], backlog := [], segment, discovery }
  { r.tell (.shutdown []) with stopped := true }

/-- Gives discovery up, as far as the provider lets it be given up. -/
def endDiscovery (r : NodeRun) : NodeRun :=
  match r.discovery with
  | none => r
  | some a =>
    let r := r.note .stopBrowsing
    let r := if a.stopBrowsingFault.isSome then r
      else { r with segment := r.segment.stopBrowsing a.provider.id }
    match a.handle with
    | none => r
    | some handle =>
      let r := r.note .stopAdvertising
      if a.stopAdvertisingFault.isSome then r
      else { r with segment := r.segment.stopAdvertising handle }

/-- Whether a session has not ended. -/
def hasSession (r : NodeRun) : Bool := r.links.any fun l => l.task.any SessionTask.isRunning

def shutdown (r : NodeRun) : NodeRun :=
  let r := r.endDiscovery.stop.settle
  r.advanceWhile hasSession (r.now + SessionTask.drainTime)

/-- Does something, without letting anything happen yet. -/
def carryOut (r : NodeRun) : Step → NodeRun × Told
  | .peer id s => r.tellPeer id s
  | .burst ss => (ss.foldl (fun r (id, s) => (r.tellPeer id s).1) r, .ok)
  | .advance ms => (r.advanceTo (r.now + ms), .ok)
  | .decide allow =>
    match r.surroundings.decide allow r.links with
    | none => (r, .noQuestion)
    | some (surroundings, links) => ({ r with surroundings, links }, .ok)
  | .route a x => ({ r with routes := r.routes.put a x }, .ok)
  | .inbound w capacity => r.inbound w capacity
  | .acceptError => ({ r with backlog := r.backlog ++ [.failure] }, .ok)
  | .inject e => ({ r with segment := r.segment.inject e }, .ok)
  | .withdraw handle => ({ r with segment := r.segment.stopAdvertising handle }, .ok)
  | .connect d => if r.stopped then (r, .stopped) else r.connect d
  | .publish mime data =>
    if r.stopped then (r, .stopped)
    else match r.config.codec.checkContent mime data with
      | .error e => (r, .failed e)
      | .ok () =>
        let (seq, r) := r.command (.publish mime data)
        (r, .published seq)
  | .snapshot => if r.stopped then (r, .stopped) else (r, .snapshot r.node.group.history.current)
  | .history => if r.stopped then (r, .stopped) else (r, .history r.node.group.history.entries)
  | .shutdown => if r.stopped then (r, .stopped) else (r.shutdown, .ok)
  | .drop => if r.stopped then (r, .stopped) else (r.stop, .ok)

/-- Does something and lets everything happen that follows at once. -/
def step (r : NodeRun) (s : Step) : NodeRun × Told :=
  let (r, t) := r.carryOut s
  (r.settle, t)

/-- How many events wait for whoever drives the node; older ones are lost. -/
def eventCapacity : Nat := 256

/-- How many events were lost, and the others in order. -/
def heardEvents (r : NodeRun) : Nat × List Event :=
  (r.events.length - eventCapacity, (r.events.take eventCapacity).reverse)

def clearLogs (r : NodeRun) : NodeRun :=
  { r with
    events := [], dialLog := [], calls := []
    surroundings := { r.surroundings with questionLog := [] }
    links := r.links.map fun l => { l with peer := { l.peer with log := [] } } }

end NodeRun

end SharedClipboard.Simulation
