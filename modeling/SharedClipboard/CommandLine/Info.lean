import SharedClipboard.Auth.Registry
import SharedClipboard.Config.Basic
import SharedClipboard.Terminal.Output

/-!
# Showing what a node would run with
-/

namespace SharedClipboard.CommandLine

open Terminal

def discoveryText (c : Config) : String :=
  match c.discovery with
  | .mdns => c.serviceType
  | .none => "disabled"

def bullet (s : String) : String := "  • " ++ s

def labelled (label value : String) : String := Style.bold.apply label ++ value

/-- What is shown about a device under a configuration, on a machine with some addresses. -/
def infoLines (name : String) (c : Config) (machine : List Net.IpAddress)
    (trusted : List Fingerprint) : List String :=
  ["\n" ++ Style.bold.apply "Clipmesh Device Info",
    String.ofList (List.replicate 39 '═'),
    labelled "Name:" ("        " ++ name),
    labelled "Port:" s!"        {c.port.toNat}",
    labelled "Fingerprint:" " none (plain TCP transport)",
    labelled "Data dir:" ("    " ++ c.dataDir),
    labelled "Discovery:" ("   " ++ discoveryText c),
    "\n" ++ Style.bold.apply "Local IPs:"]
  ++ machine.map (fun a => bullet a.text)
  ++ ["\n" ++ labelled "Trusted devices:" s!" {trusted.length}"]
  ++ trusted.map (fun f => bullet f.text)
  ++ [""]

/-- Shows a device. The registry has to be readable. -/
def showInfo (name : String) (c : Config) (machine : List Net.IpAddress) (files : FileTree) :
    Except Error Output := do
  let registry ← FileRegistry.load files (FilePath.ofText c.dataDir)
  return .lines (infoLines name c machine registry.trusted)

end SharedClipboard.CommandLine
