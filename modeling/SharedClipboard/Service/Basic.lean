import SharedClipboard.Clipboard.Monitor
import SharedClipboard.Node.Basic
import SharedClipboard.Terminal.Text

/-!
# A node for the user

The node together with the clipboard of the machine: what the user copies is published, what peers
send is put on the clipboard, and the user is told what happens. The monitor's changes and the
node's events wait in two queues, of which either may be served first.

The monitor also finds what the service itself has put on the clipboard; such a change is dropped
by the group if it is still the current content when it is published.
-/

namespace SharedClipboard

open Terminal

/-- A node with the clipboard of the machine. -/
structure Service where
  node : Node
  codec : Codec
  clipboard : SystemClipboard := {}
  monitor : Monitor
  /-- The events that the user has not been told. -/
  events : List Event := []
  deriving DecidableEq, Inhabited

namespace Service

/-- A service whose clipboard is looked at for the first time after the usual rest. -/
def fresh (node : Node) (codec : Codec) (clipboard : SystemClipboard) (now : Time) : Service :=
  { node, codec, clipboard, monitor := .start Monitor.defaultInterval now }

def look (s : Service) (now : Time) : Service :=
  match s.monitor.stage with
  | .resting _ => { s with monitor := (s.monitor.look now s.clipboard).handOver now }
  | _ => { s with monitor := s.monitor.handOver now }

def copy (s : Service) (text : Option String) : Service :=
  { s with clipboard := s.clipboard.copy text }

/-- The events among what a node asks for. -/
def eventsOf (effects : List Node.Effect) : List Event :=
  effects.filterMap fun
    | .group e => e.event?
    | _ => none

/-- The node handles a command. The answer has what else it asks for and what it published. -/
def tell (s : Service) (room : SessionId → Room) (c : Node.Command) : Node.Turn × Service :=
  let t := s.node.handle room c
  (t, { s with node := t.node, events := s.events ++ eventsOf t.effects })

/-- What the user is told about a content that was published, or not. -/
def shared (text : String) : Option Nat → Output
  | some _ => .line (Style.blue.apply "📤" ++ " Shared: \"" ++ text ++ "\"")
  | none => {}

/-- Publishes a change that the monitor found. -/
def publish (s : Service) (room : SessionId → Room) (c : Change) :
    Output × List Node.Effect × Service :=
  match s.codec.checkContent c.mime c.data with
  | .error e => (warning s!"Not shared: {e.message}", [], s)
  | .ok () =>
    let (t, s) := s.tell room (.publish c.mime c.data)
    (shared (preview c.mime c.data) t.published, t.effects, s)

/-- Serves the first change, if there is one. -/
def serveChange (s : Service) (room : SessionId → Room) :
    Option (Output × List Node.Effect × Service) :=
  match s.monitor.channel with
  | [] => none
  | c :: rest => some ({ s with monitor := { s.monitor with channel := rest } }.publish room c)

/-- Serves the first event, if there is one. -/
def serveEvent (s : Service) : Option (Output × Service) :=
  match s.events with
  | [] => none
  | e :: rest =>
    let (o, clipboard) := onEvent s.clipboard e
    some (o, { s with clipboard, events := rest })

end Service

end SharedClipboard
