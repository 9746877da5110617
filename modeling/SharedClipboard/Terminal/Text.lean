import SharedClipboard.Group.Event
import SharedClipboard.Terminal.Output
import SharedClipboard.Terminal.Preview

/-!
# What a running node prints

The banner, and a line for each event that the user is told about.
-/

namespace SharedClipboard.Terminal

def banner : Output :=
  let side := Style.cyan.apply "║"
  let rule := String.ofList (List.replicate 38 '═')
  .lines
    ["\n" ++ Style.cyan.apply ("╔" ++ rule ++ "╗"),
      side ++ "         " ++ Style.bold.apply "Clipmesh" ++ "                     " ++ side,
      side ++ "   One clipboard for the whole LAN    " ++ side,
      Style.cyan.apply ("╚" ++ rule ++ "╝") ++ "\n"]

def warning (s : String) : Output := .errorLine (Style.yellow.apply "!" ++ " " ++ s)

def failure (s : String) : Output := .errorLine (Style.red.apply "✗" ++ " " ++ s)

/-- What is printed about an event, the setting of the clipboard aside. -/
def eventOutput : Event → Output
  | .deviceDiscovered d => .line (Style.green.apply "⬤" ++ " Found: " ++ Style.bold.apply d.text)
  | .deviceLost d => .line (Style.red.apply "⬤" ++ " Lost: " ++ d.text)
  | .deviceJoined d => .line (Style.green.apply "+" ++ " Joined: " ++ Style.bold.apply d.text)
  | .deviceLeft d => .line (Style.red.apply "-" ++ " Left: " ++ d.text)
  | .clipboardUpdated _ mime data (.remote d) =>
    .line (Style.blue.apply "📋" ++ s!" Received from {d.name}: \"" ++ preview mime data ++ "\"")
  | .clipboardUpdated _ _ _ .local => {}
  | .authenticationFailed d cause => failure s!"{d.text} was not admitted: {cause.message}"
  | .discoveryDegraded cause => warning cause.message

/-- Takes up an event: prints it, and puts what a peer sent on the clipboard. -/
def onEvent (c : SystemClipboard) (e : Event) : Output × SystemClipboard :=
  match e with
  | .clipboardUpdated _ mime data (.remote _) =>
    match c.write mime data with
    | .ok c => (eventOutput e, c)
    | .error fault => (eventOutput e ++ failure s!"Could not set clipboard: {fault.message}", c)
  | _ => (eventOutput e, c)

end SharedClipboard.Terminal
