import SharedClipboard.CommandLine.Arguments
import SharedClipboard.Discovery.Multicast
import SharedClipboard.Service.Basic
import SharedClipboard.Service.Startup

/-!
# A service on a machine without a network

The service as the user runs it, on a machine that cannot reach any other: every device that is
dialed is unreachable, and no connection comes in. Discovery works, because its daemon reports what
it is told to.
-/

namespace SharedClipboard.Simulation

open Discovery Terminal CommandLine

/-- Where the service is. -/
inductive ServiceStage where
  | running (s : Service)
  /-- It ended, or did not start. -/
  | over (result : Except Error Unit)

/-- A service and what it works with. -/
structure ServiceRun where
  stage : ServiceStage
  /-- The clipboard of the machine while no service runs. -/
  clipboard : SystemClipboard := {}
  discovery : Option Multicast := none
  /-- The name under which the node is announced. -/
  announced : Option String := none
  output : Output := {}

namespace ServiceRun

structure Setup where
  name : String
  config : Config
  options : RunOptions
  files : FileTree
  clipboard : SystemClipboard
  faults : DaemonFaults
  /-- Another program listens on the port. -/
  portTaken : Bool

/-- Why nobody can be reached at an address. Of the second kind, those for several receivers and
those that embed an address of the first kind are treated like the first kind. -/
def connectFault : Net.IpAddress → IoError
  | .v4 _ => .networkUnreachable
  | .v6 bits =>
    let n := bits.toNat
    if n >>> 120 = 0xFF ∨ Net.IpAddress.embedsV4 n then .networkUnreachable
    else if n >>> 118 = 0x3FA then .noLinkGiven
    else .noSourceAddress

/-- Why no connection to an address can be opened. -/
def unreachable (a : Net.IpAddress) : ConnectError := .ofIo (connectFault a)

/-- What comes of binding a port. -/
def bind (port : UInt16) (taken : Bool) : Except TransportError UInt16 :=
  if taken then .error (.ofIo .portTaken) else .ok port

def print (r : ServiceRun) (o : Output) : ServiceRun := { r with output := r.output ++ o }

/-- Ends the run, and with it the daemon. -/
def finish (r : ServiceRun) (result : Except Error Unit) : ServiceRun :=
  let clipboard := match r.stage with
    | .running s => s.clipboard
    | .over _ => r.clipboard
  { r with stage := .over result, clipboard, discovery := r.discovery.map Multicast.close }

/-- Announces the node and looks for others. The answer is what went wrong first. -/
def startDiscovery (r : ServiceRun) (n : Node) : Option DiscoveryError × ServiceRun :=
  match r.discovery with
  | none => (none, r)
  | some m =>
    let (advertised, m) := m.advertise n.identity.name n.port
    let (browsed, m) := m.browse
    (Node.degraded (advertised.map fun _ => ()) (browsed.map fun _ => ()),
      { r with discovery := some m, announced := advertised.toOption })

/-- What is printed about the peers that the user named. -/
def connecting (peers : List Net.SocketAddress) : Output :=
  peers.foldl (fun o p => o ++ Service.connecting p (.error (.connect (unreachable p.ip)))) {}

/-- Starts the service: the registry is opened, then discovery, then the node. -/
def start (s : Setup) : ServiceRun :=
  let config := if s.options.noDiscovery then { s.config with discovery := .none } else s.config
  let r : ServiceRun := { stage := .over (.ok ()), clipboard := s.clipboard, output := banner }
  match Service.loadRegistry config s.files with
  | .error e => r.finish (.error e)
  | .ok _ =>
    let r := match Multicast.ofConfig config none s.faults with
      | .ok m => { r with discovery := m }
      | .error e => r.print (Service.noDiscovery e)
    match Node.start config ⟨s.name, none⟩ (bind config.port s.portTaken) with
    | .error e => r.finish (.error e)
    | .ok node =>
      let (degraded, r) := r.startDiscovery node
      let r := r.print
        (Service.listening node degraded ++ connecting s.options.peers ++ Service.ready)
      { r with stage := .running (.fresh node config.codec s.clipboard 0) }

/-- The room in outboxes where there are no sessions. -/
def noRoom : SessionId → Room := fun _ => .closed

/-- Does what a node asks for: what it dials is unreachable. -/
def follow (s : Service) (effects : List Node.Effect) : Service :=
  effects.foldl
    (fun s e => match e with
      | .dial d _ => (s.tell noRoom (.dialFailed d (unreachable d.address))).2
      | _ => s) s

/-- Tells the node what discovery reports. -/
def hear (s : Service) (es : List DiscoveryEvent) : Service :=
  es.foldl
    (fun s e =>
      let (t, s) := s.tell noRoom (.discovery e)
      follow s t.effects) s

/-- Serves changes and events until none is left. -/
def serve : Nat → Output → Service → Output × Service
  | 0, o, s => (o, s)
  | fuel + 1, o, s =>
    match s.serveChange noRoom with
    | some (o', effects, s) => serve fuel (o ++ o') (follow s effects)
    | none =>
      match s.serveEvent with
      | some (o', s) => serve fuel (o ++ o') s
      | none => (o, s)

/-- A bound on the number of changes and events to serve. -/
def waiting (s : Service) : Nat := 2 * s.monitor.channel.length + s.events.length + 1

/-- Lets everything happen that can happen. -/
def settle (r : ServiceRun) : ServiceRun :=
  match r.stage with
  | .over _ => r
  | .running s =>
    let (taken, discovery) : List DiscoveryEvent × Option Multicast := match r.discovery with
      | none => ([], none)
      | some m =>
        let (taken, m) := m.drainAll
        (taken.flatten, some m.settle)
    let s := hear s taken
    let (o, s) := serve (waiting s) {} s
    { r with stage := .running s, discovery, output := r.output ++ o }

inductive Step where
  /-- The user copies something, and the monitor looks. -/
  | copy (text : Option String)
  | poll
  /-- Setting the clipboard fails from now on, or no more. -/
  | failClipboard (text : Option String)
  | emit (e : ServiceEvent)
  /-- The user asks the service to stop. -/
  | interrupt
  /-- Nothing that concerns the service. -/
  | nothing

/-- Changes the service, or the clipboard while none runs. -/
def onClipboard (r : ServiceRun) (f : SystemClipboard → SystemClipboard) : ServiceRun :=
  match r.stage with
  | .running s => { r with stage := .running { s with clipboard := f s.clipboard } }
  | .over _ => { r with clipboard := f r.clipboard }

/-- The monitor looks. -/
def poll (r : ServiceRun) : ServiceRun :=
  match r.stage with
  | .running s => { r with stage := .running (s.look 0) }
  | .over _ => r

def stop (r : ServiceRun) : ServiceRun :=
  let r := r.print Service.stopping
  let withdraw (m : Multicast) : Multicast :=
    let m := m.stopBrowsing.2
    match r.announced with
    | some name => (m.stopAdvertising name).2
    | none => m
  { r with discovery := r.discovery.map withdraw }.finish (.ok ())

/-- Something happens. The answer says whether the service took notice of an interrupt. -/
def step (r : ServiceRun) : Step → ServiceRun × Bool
  | .copy text => ((r.onClipboard (·.copy text)).poll.settle, true)
  | .poll => (r.poll.settle, true)
  | .failClipboard text => (r.onClipboard fun c => { c with writeFault := text }, true)
  | .emit e => ({ r with discovery := r.discovery.map (Multicast.emit · e) }.settle, true)
  | .interrupt =>
    match r.stage with
    | .running _ => (r.stop, true)
    | .over _ => (r, false)
  | .nothing => (r, true)

def isRunning (r : ServiceRun) : Bool :=
  match r.stage with
  | .running _ => true
  | .over _ => false

/-- What the clipboard of the machine holds. -/
def clipboardText (r : ServiceRun) : Option String :=
  match r.stage with
  | .running s => s.clipboard.text
  | .over _ => r.clipboard.text

def result (r : ServiceRun) : Except Error Unit :=
  match r.stage with
  | .running _ => .ok ()
  | .over result => result

def calls (r : ServiceRun) : List DaemonCall := (r.discovery.map (·.calls.reverse)).getD []

def clearLogs (r : ServiceRun) : ServiceRun :=
  { r with output := {}, discovery := r.discovery.map fun m => { m with calls := [] } }

end ServiceRun

end SharedClipboard.Simulation
