import SharedClipboard.Config.Basic
import SharedClipboard.Discovery.Browse
import SharedClipboard.Error

/-!
# Discovery by multicast

A node finds others through a daemon that announces services and reports what others announce.
Here the daemon is one that accepts what it is told, keeps a record of it, and fails where it is
told to; what it reports is up to whoever drives it.
-/

namespace SharedClipboard.Discovery

/-- What a daemon is asked. -/
inductive DaemonCall where
  | register (fullname : String) (port : UInt16) (properties : List (String × String))
  | unregister (fullname : String)
  | browse (serviceType : String)
  | stopBrowse (serviceType : String)
  | shutdown
  deriving DecidableEq, Repr, Inhabited

/-- The record of a call. The daemon fills in the addresses of a registered service itself. -/
def DaemonCall.text : DaemonCall → String
  | register fullname port properties =>
    let entries := ",".intercalate (properties.map fun (k, v) => s!"{k}={v}")
    s!"register {fullname} {port.toNat} [{entries}] auto=true"
  | unregister fullname => s!"unregister {fullname}"
  | browse serviceType => s!"browse {serviceType}"
  | stopBrowse serviceType => s!"stop_browse {serviceType}"
  | shutdown => "shutdown"

/-- What a daemon fails at, and with which text. -/
structure DaemonFaults where
  start : Option String := none
  /-- Making the record of a service. -/
  describe : Option String := none
  register : Option String := none
  unregister : Option String := none
  browse : Option String := none
  stopBrowse : Option String := none
  shutdown : Option String := none
  deriving DecidableEq, Repr, Inhabited

/-- A node's access to a daemon. -/
structure Multicast where
  serviceType : String
  fingerprint : Option Fingerprint := none
  faults : DaemonFaults := {}
  feeds : List Feed := []
  /-- The calls to the daemon, newest first. -/
  calls : List DaemonCall := []
  deriving DecidableEq, Repr, Inhabited

namespace Multicast

/-- Fails if there is a text to fail with. -/
def refuse (wrap : String → DiscoveryError) : Option String → Except DiscoveryError Unit
  | some text => .error (wrap text)
  | none => .ok ()

def start (serviceType : String) (fingerprint : Option Fingerprint) (faults : DaemonFaults) :
    Except DiscoveryError Multicast := do
  refuse .unavailable faults.start
  return { serviceType, fingerprint, faults }

/-- The access to discovery that a configuration asks for, if it asks for one. -/
def ofConfig (c : Config) (fingerprint : Option Fingerprint) (faults : DaemonFaults) :
    Except DiscoveryError (Option Multicast) :=
  match c.discovery with
  | .mdns => (start c.serviceType fingerprint faults).map some
  | .none => .ok none

def note (m : Multicast) (c : DaemonCall) : Multicast := { m with calls := c :: m.calls }

/-- Lets every browse work until it has to wait. -/
def settle (m : Multicast) : Multicast := { m with feeds := m.feeds.map Feed.settle }

/-- Announces a device. The answer is the name of the announcement. -/
def advertise (m : Multicast) (name : String) (port : UInt16) :
    Except DiscoveryError String × Multicast :=
  match refuse .advertise m.faults.describe with
  | .error e => (.error e, m)
  | .ok () =>
    let fullname := Service.fullnameOf name m.serviceType
    ((refuse .advertise m.faults.register).map fun _ => fullname,
      m.note (.register fullname port (Service.propertiesOf m.fingerprint)))

def stopAdvertising (m : Multicast) (fullname : String) : Except DiscoveryError Unit × Multicast :=
  (refuse .advertise m.faults.unregister, m.note (.unregister fullname))

/-- Browses. The answer is the place of the new stream among all streams. -/
def browse (m : Multicast) : Except DiscoveryError Nat × Multicast :=
  let m := m.note (.browse m.serviceType)
  match refuse .browse m.faults.browse with
  | .error e => (.error e, m)
  | .ok () =>
    let feed : Feed := { browse := { serviceType := m.serviceType } }
    (.ok m.feeds.length, { m with feeds := m.feeds ++ [feed] })

/-- The daemon reports something to every browse. -/
def emit (m : Multicast) (e : ServiceEvent) : Multicast :=
  { m with feeds := m.feeds.map (Feed.hear · e) }.settle

/-- The daemon forgets every browse. -/
def forget (m : Multicast) : Multicast := { m with feeds := m.feeds.map Feed.unregister }.settle

def stopBrowsing (m : Multicast) : Except DiscoveryError Unit × Multicast :=
  let m := m.note (.stopBrowse m.serviceType)
  match refuse .browse m.faults.stopBrowse with
  | .error e => (.error e, m)
  | .ok () => (.ok (), (m.emit .stopped).forget)

def close (m : Multicast) : Multicast :=
  let m := m.note .shutdown
  if m.faults.shutdown.isSome then m else m.forget

def onFeed (m : Multicast) (i : Nat) (f : Feed → Feed) : Multicast :=
  { m with feeds := m.feeds.modify i f }.settle

/-- Takes what every stream holds, and lets the browses go on. -/
def drainAll (m : Multicast) : List (List DiscoveryEvent) × Multicast :=
  let taken := m.feeds.map Feed.drain
  (taken.map (·.1), { m with feeds := taken.map (·.2) })

end Multicast

end SharedClipboard.Discovery
