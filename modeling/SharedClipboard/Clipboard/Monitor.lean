import SharedClipboard.Auth.Challenge
import SharedClipboard.Clipboard.System

/-!
# Watching the clipboard of the machine

A `Watcher` looks at the clipboard and tells a new content from the one that it saw last. A
`Monitor` looks again and again and puts what is new into a channel; while the channel is full it
does not look.
-/

namespace SharedClipboard

/-- A content that was found on the clipboard. -/
structure Change where
  mime : String
  data : Bytes
  hash : ContentHash
  deriving DecidableEq, Repr, Inhabited

/-- What was last seen on the clipboard. -/
structure Watcher where
  last : Option ContentHash := none
  deriving DecidableEq, Repr, Inhabited

namespace Watcher

/-- Looks at the clipboard. An empty clipboard makes every content new again; a clipboard that
cannot be read changes nothing. -/
def check (w : Watcher) (c : SystemClipboard) : Except Error (Option Change) × Watcher :=
  match c.read with
  | .error e => (.error e, w)
  | .ok none => (.ok none, { last := none })
  | .ok (some (mime, data)) =>
    let hash := ContentHash.of mime data
    if w.last = some hash then (.ok none, w)
    -- Noted before anybody has taken it, so that the same content is found once.
    else (.ok (some ⟨mime, data, hash⟩), { last := hash })

end Watcher

inductive MonitorStage where
  /-- It looks again at a given moment. -/
  | resting (next : Time)
  /-- A change waits for room in the channel. -/
  | handingOver (c : Change)
  | ended
  deriving DecidableEq, Repr, Inhabited

/-- A monitor and its channel. -/
structure Monitor where
  interval : Nat
  watcher : Watcher := {}
  stage : MonitorStage
  channel : List Change := []
  /-- Somebody still takes changes out of the channel. -/
  listening : Bool := true
  deriving DecidableEq, Repr, Inhabited

namespace Monitor

/-- How many changes the channel holds. -/
def capacity : Nat := 16

/-- How often a node looks at the clipboard. -/
def defaultInterval : Nat := 500

/-- Starts a monitor, which first rests. -/
def start (interval : Nat) (now : Time) : Monitor :=
  { interval, stage := .resting (now + interval) }

def look (m : Monitor) (now : Time) (c : SystemClipboard) : Monitor :=
  match m.watcher.check c with
  | (.ok (some change), watcher) => { m with watcher, stage := .handingOver change }
  | (_, watcher) => { m with watcher, stage := .resting (now + m.interval) }

/-- Hands over what waits, if there is room. A monitor to which nobody listens ends. -/
def handOver (m : Monitor) (now : Time) : Monitor :=
  match m.stage with
  | .handingOver change =>
    if !m.listening then { m with stage := .ended }
    else if m.channel.length < capacity then
      { m with channel := m.channel ++ [change], stage := .resting (now + m.interval) }
    else m
  | _ => m

/-- Does what can be done at a moment. -/
def settle (m : Monitor) (now : Time) (c : SystemClipboard) : Monitor :=
  match m.stage with
  | .resting next => if next ≤ now then (m.look now c).handOver now else m
  | _ => m.handOver now

/-- When the monitor looks again. -/
def nextDue (m : Monitor) : Option Time :=
  match m.stage with
  | .resting next => some next
  | _ => none

def isRunning (m : Monitor) : Bool :=
  match m.stage with
  | .ended => false
  | _ => true

def abort (m : Monitor) : Monitor := { m with stage := .ended }

/-- Nobody takes changes out any more. -/
def dropChannel (m : Monitor) : Monitor := { m with listening := false, channel := [] }

def drain (m : Monitor) : List Change × Monitor := (m.channel, { m with channel := [] })

/-- Lets time pass up to a moment while the clipboard stays as it is. -/
def advance (m : Monitor) (now moment : Time) (c : SystemClipboard) : Monitor :=
  match m.nextDue with
  | none => m
  | some due =>
    if _h : now < due ∧ due ≤ moment then (m.settle due c).advance due moment c else m
termination_by moment - now
decreasing_by exact Nat.sub_lt_sub_left (Nat.lt_of_lt_of_le _h.1 _h.2) _h.1

end Monitor

end SharedClipboard
