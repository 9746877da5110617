import SharedClipboard.Auth.Registry
import SharedClipboard.Node.Basic
import SharedClipboard.Terminal.Text

/-!
# Starting a service

What a service tells the user while it starts: that it cannot use discovery, where its node
listens, which of the named peers it dials, and that it is ready.
-/

namespace SharedClipboard.Service

open Terminal

/-- The registry that a service works with. A service without one does not start. -/
def loadRegistry (c : Config) (files : FileTree) : Except Error Registry :=
  FileRegistry.load files (FilePath.ofText c.dataDir)

/-- Discovery cannot be used at all. -/
def noDiscovery (e : DiscoveryError) : Output :=
  warning s!"Discovery unavailable ({e.message}), manual peers only"

/-- The node listens. Discovery may be degraded. -/
def listening (n : Node) (degraded : Option DiscoveryError) : Output :=
  let port := s!"{n.port.toNat}"
  .line (Style.bold.apply "Device:" ++ " " ++ n.identity.name)
    ++ .line (Style.bold.apply "Port:" ++ "   " ++ port)
    ++ .lines (n.machine.map fun a => s!"        {a.text}:{port}")
    ++ match degraded with
      | some e => warning e.message
      | none => {}

/-- A peer that the user named is connected to, or cannot be. -/
def connecting (peer : Net.SocketAddress) : Except Error Unit → Output
  | .ok () => .line (Style.green.apply "→" ++ s!" Connecting to {peer.text}")
  | .error e => failure s!"Could not connect to {peer.text}: {e.message}"

/-- The service is ready. -/
def ready : Output :=
  .lines ["\n" ++ Style.green.apply "✓" ++ " Sharing the clipboard...",
    Style.dim.apply "Press Ctrl+C to stop." ++ "\n"]

/-- The user stops the service. -/
def stopping : Output := .line ("\n" ++ Style.yellow.apply "Shutting down...")

end SharedClipboard.Service
