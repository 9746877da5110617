import SharedClipboard.Auth.Challenge
import SharedClipboard.Discovery.Multicast
import SharedClipboard.Terminal.Output

/-!
# Listing the devices on the network

The program browses for some seconds and prints a device when it appears and when it goes away. It
stops early when nothing more will be reported.
-/

namespace SharedClipboard.CommandLine

open Discovery Terminal

/-- What happens on the network while the program browses. -/
inductive NetworkEvent where
  | report (e : ServiceEvent)
  /-- The daemon forgets those who browse. -/
  | forgotten
  deriving DecidableEq, Repr, Inhabited

/-- The devices that were seen, and what was printed about them. -/
structure Listing where
  seen : List Device.Identity := []
  output : Output := {}
  deriving DecidableEq, Repr, Inhabited

namespace Listing

/-- Prints what is new. -/
def take (l : Listing) : DiscoveryEvent → Listing
  | .added d =>
    if l.seen.contains d.identity then l
    else
      let entry := Style.green.apply "⬤" ++ " " ++ Style.bold.apply d.name ++ " "
        ++ d.socketAddress.text
      { seen := l.seen ++ [d.identity]
        output := l.output ++ .line entry
          ++ .lines (d.fingerprint.toList.map fun f => "    fingerprint " ++ f.text) }
  | .removed d =>
    if l.seen.contains d.identity then
      { seen := l.seen.filter (· ≠ d.identity)
        output := l.output ++ .line (Style.red.apply "⬤" ++ s!" {d.name} went away") }
    else l

end Listing

/-- Takes what waits in the stream. -/
def takeStream (m : Multicast) (l : Listing) : Multicast × Listing :=
  let (taken, m) := m.drainAll
  (m.settle, taken.flatten.foldl Listing.take l)

/-- Browses until the stream ends or the time is up. -/
def browseUntil (moment : Time) : List (Time × NetworkEvent) → Multicast → Listing →
    Multicast × Listing
  | [], m, l => (m, l)
  | (t, e) :: rest, m, l =>
    if moment ≤ t then (m, l)
    else
      let m := match e with
        | .report e => m.emit e
        | .forgotten => m.forget
      let (m, l) := takeStream m l
      if m.feeds.all Feed.ended then (m, l) else browseUntil moment rest m l

structure Discovered where
  result : Except DiscoveryError Unit
  output : Output := {}
  calls : List DaemonCall := []

/-- Lists the devices on the network for some seconds. What happens there is given in the order of
time. -/
def discover (serviceType : String) (faults : DaemonFaults) (seconds : Nat)
    (events : List (Time × NetworkEvent)) : Discovered :=
  match Multicast.start serviceType none faults with
  | .error e => { result := .error e }
  | .ok m =>
    match m.browse with
    | (.error e, m) => { result := .error e, calls := m.close.calls.reverse }
    | (.ok _, m) =>
      let heading := Style.dim.apply s!"Browsing {serviceType} for {seconds}s..." ++ "\n"
      let (m, l) := browseUntil (seconds * 1000) events m {}
      { result := .ok ()
        output := .line heading ++ l.output ++ .line s!"\n{l.seen.length} device(s) found"
        calls := m.stopBrowsing.2.close.calls.reverse }

end SharedClipboard.CommandLine
