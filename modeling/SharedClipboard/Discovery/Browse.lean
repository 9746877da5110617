import SharedClipboard.Discovery.Service
import SharedClipboard.Group.Event
import SharedClipboard.Table

/-!
# Browsing for services

`Browse.step` turns what the daemon reports about services into reports about devices. A service
that is resolved again as another device takes the place of the earlier one; a service without an
address is passed over.

A `Feed` is a browse with its stream of reports. The stream holds a limited number of them, and
while it is full the browse waits.
-/

namespace SharedClipboard.Discovery

/-- What the daemon reports. -/
inductive ServiceEvent where
  | resolved (s : Service)
  | removed (fullname : String)
  | found (fullname : String)
  | started
  /-- Nothing more will be reported. -/
  | stopped
  deriving DecidableEq, Repr, Inhabited

/-- What a browse knows. -/
structure Browse where
  serviceType : String
  /-- The device last reported for each service. -/
  resolved : Table String Device := .empty
  deriving DecidableEq, Repr, Inhabited

namespace Browse

/-- Takes up a report of the daemon. Nothing comes after the end of the search. -/
def step (b : Browse) : ServiceEvent → Option (Browse × List DiscoveryEvent)
  | .resolved s =>
    match s.device? b.serviceType with
    | none => some (b, [])
    | some d =>
      -- A service that moved is lost under its old address first.
      let gone := match b.resolved.get? s.fullname with
        | some known => if known.same d then [] else [.removed known]
        | none => []
      some ({ b with resolved := b.resolved.put s.fullname d }, gone ++ [.added d])
  | .removed fullname =>
    match b.resolved.get? fullname with
    | none => some (b, [])
    | some d => some ({ b with resolved := b.resolved.erase fullname }, [.removed d])
  | .found _ | .started => some (b, [])
  | .stopped => none

end Browse

/-- A browse with its stream of reports. -/
structure Feed where
  browse : Browse
  /-- The browse goes on. -/
  running : Bool := true
  /-- The daemon still reports to the browse. -/
  registered : Bool := true
  /-- What the daemon reported and the browse has not taken up. -/
  inbox : List ServiceEvent := []
  /-- Reports that wait for room in the stream. -/
  held : List DiscoveryEvent := []
  queue : List DiscoveryEvent := []
  /-- Somebody still takes reports out of the stream. -/
  listening : Bool := true
  deriving DecidableEq, Repr, Inhabited

namespace Feed

def capacity : Nat := 32

def ended (f : Feed) : Bool := !f.running

/-- Nothing more goes into the stream. -/
def finish (f : Feed) : Feed := { f with running := false, inbox := [], held := [] }

/-- Puts what waits into the stream, as far as there is room. -/
def flush (f : Feed) : Feed :=
  if f.held.isEmpty then f
  else if !f.listening then f.finish
  else
    let n := capacity - f.queue.length
    { f with queue := f.queue ++ f.held.take n, held := f.held.drop n }

/-- Takes up reports of the daemon until the stream is full. -/
def takeUp : List ServiceEvent → Feed → Feed
  | [], f =>
    if f.running && !f.registered && f.held.isEmpty then f.finish else { f with inbox := [] }
  | e :: es, f =>
    if !f.running then f
    else if !f.held.isEmpty then { f with inbox := e :: es }
    else match f.browse.step e with
      | none => f.finish
      | some (browse, out) => takeUp es { f with browse, held := out }.flush

/-- Lets the browse work until it has to wait. -/
def settle (f : Feed) : Feed := takeUp f.inbox f.flush

def hear (f : Feed) (e : ServiceEvent) : Feed :=
  if f.registered && f.running then { f with inbox := f.inbox ++ [e] } else f

/-- The daemon forgets the browse. -/
def unregister (f : Feed) : Feed := { f with registered := false }

def drain (f : Feed) : List DiscoveryEvent × Feed := (f.queue, { f with queue := [] })

/-- Nobody takes reports out any more. -/
def drop (f : Feed) : Feed := { f with listening := false, queue := [] }

end Feed

end SharedClipboard.Discovery
