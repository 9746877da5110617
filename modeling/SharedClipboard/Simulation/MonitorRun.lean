import SharedClipboard.Clipboard.Monitor

/-!
# A monitor under a made-up clock
-/

namespace SharedClipboard.Simulation

structure MonitorRun where
  now : Time := 0
  clipboard : SystemClipboard := {}
  monitor : Monitor
  deriving DecidableEq, Repr, Inhabited

namespace MonitorRun

/-- A monitor has just been started. -/
def start (interval : Nat) : MonitorRun := { monitor := .start interval 0 }

/-- Lets everything happen that can happen at the current moment. -/
def settle (r : MonitorRun) : MonitorRun :=
  { r with monitor := r.monitor.settle r.now r.clipboard }

def advance (r : MonitorRun) (ms : Nat) : MonitorRun :=
  let monitor := r.monitor.advance r.now (r.now + ms) r.clipboard
  settle { r with now := r.now + ms, monitor }

/-- The user copies a text, or clears the clipboard. -/
def copy (r : MonitorRun) (text : Option String) : MonitorRun :=
  { r with clipboard := r.clipboard.copy text }

/-- The user copies one text after the other, which are told apart by numbers. -/
def flood (r : MonitorRun) (count ms : Nat) (text : String) : MonitorRun :=
  (List.range count).foldl (fun r i => (r.copy (some s!"{text}{i}")).advance ms) r

end MonitorRun

end SharedClipboard.Simulation
