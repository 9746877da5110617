import SharedClipboard.Discovery.Multicast

/-!
# Discovery by multicast, step by step

A node's access to its daemon, and what the daemon reports. Streams and announcements are numbered
in the order in which they were made; after each step every stream is emptied, unless the streams
are to be held.
-/

namespace SharedClipboard.Simulation

open Discovery

/-- Access to a daemon, until it is closed. -/
structure MulticastRun where
  access : Multicast
  /-- Nothing is taken out of the streams. -/
  hold : Bool := false
  closed : Bool := false
  handles : List String := []
  deriving DecidableEq, Repr, Inhabited

namespace MulticastRun

inductive Request where
  | advertise (name : String) (port : UInt16)
  | stopAdvertising (handle : Nat)
  | browse
  | stopBrowsing
  | close
  deriving DecidableEq, Repr, Inhabited

inductive Step where
  | request (q : Request)
  | emit (e : ServiceEvent) (times : Nat)
  /-- Other calls fail from now on. -/
  | fail (faults : DaemonFaults)
  | dropStream (stream : Nat)
  | wait
  deriving DecidableEq, Repr, Inhabited

inductive Told where
  | ok
  | closed
  | failed (e : DiscoveryError)
  | handle (text : String)
  | stream (number : Nat)
  deriving DecidableEq, Repr, Inhabited

def toldOf {α : Type} (f : α → Told) : Except DiscoveryError α → Told
  | .ok a => f a
  | .error e => .failed e

/-- Asks something of the access. -/
def ask (r : MulticastRun) : Request → MulticastRun × Told
  | .advertise name port =>
    let (x, access) := r.access.advertise name port
    ({ r with access, handles := r.handles ++ x.toOption.toList }, toldOf .handle x)
  | .stopAdvertising i =>
    let (x, access) := r.access.stopAdvertising (r.handles.getD i "")
    ({ r with access }, toldOf (fun _ => .ok) x)
  | .browse =>
    let (x, access) := r.access.browse
    ({ r with access }, toldOf .stream x)
  | .stopBrowsing =>
    let (x, access) := r.access.stopBrowsing
    ({ r with access }, toldOf (fun _ => .ok) x)
  | .close => ({ r with access := r.access.close, closed := true }, .ok)

/-- Something happens. -/
def perform (r : MulticastRun) : Step → MulticastRun × Told
  | .request q => if r.closed then (r, .closed) else r.ask q
  | .emit e n =>
    ({ r with access := (List.range n).foldl (fun m _ => m.emit e) r.access }, .ok)
  | .fail faults => ({ r with access := { r.access with faults } }, .ok)
  | .dropStream i => ({ r with access := r.access.onFeed i Feed.drop }, .ok)
  | .wait => (r, .ok)

/-- What was found in a stream. -/
inductive Found where
  | dropped
  | queued (n : Nat)
  | taken (es : List DiscoveryEvent) (ended : Bool)
  deriving DecidableEq, Repr, Inhabited

def found (hold : Bool) (f : Feed) : Found :=
  if !f.listening then .dropped
  else if hold then .queued f.queue.length
  else .taken f.queue f.ended

def step (r : MulticastRun) (s : Step) : MulticastRun × Told × List Found :=
  let (r, t) := { r with access := { r.access.settle with calls := [] } }.perform s
  let access := r.access.settle
  ({ r with access := if r.hold then access else access.drainAll.2 }, t,
    access.feeds.map (found r.hold))

end MulticastRun

end SharedClipboard.Simulation
