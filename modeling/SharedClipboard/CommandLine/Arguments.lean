import SharedClipboard.CommandLine.Scanner
import SharedClipboard.Config.Load
import SharedClipboard.Net.AddressReader

/-!
# The arguments of the program

What the command line says, and the configuration that it leads to.
-/

namespace SharedClipboard.CommandLine

structure RunOptions where
  /-- The peers to connect to. -/
  peers : List Net.SocketAddress := []
  /-- Whether unknown devices are admitted without a question. -/
  acceptUnknown : Bool := false
  noDiscovery : Bool := false
  deriving DecidableEq, Repr, Inhabited

inductive Command where
  | run (o : RunOptions)
  | info
  /-- Browse for some seconds. -/
  | discover (seconds : Nat)
  deriving DecidableEq, Repr, Inhabited

/-- What the command line says. Without a command the program runs a node. -/
structure Arguments where
  name : Option String := none
  port : Option Nat := none
  dataDir : Option String := none
  configFile : Option String := none
  command : Option Command := none
  deriving DecidableEq, Repr, Inhabited

/-- A number: digits, with a plus sign in front of them or not. -/
def natOfText? (cs : List Char) : Option Nat :=
  let digits := match cs with
    | '+' :: rest => rest
    | _ => cs
  if digits.isEmpty || !digits.all Char.isDigit then none
  else some (digits.foldl (fun n c => n * 10 + (c.toNat - '0'.toNat)) 0)

/-- A port. Zero may have a minus sign. -/
def portOfText? (s : String) : Option Nat :=
  match s.toList with
  | '-' :: c :: rest => if c.isDigit then (natOfText? (c :: rest)).filter (· = 0) else none
  | cs => (natOfText? cs).filter (· < UInt16.size)

def secondsOfText? (s : String) : Option Nat := (natOfText? s.toList).filter (· < UInt64.size)

/-- Refuses a value that cannot be read. -/
def unread {α : Type} (read : String → Option α) (v : String) : Option ArgumentError :=
  if (read v).isSome then none else some .valueValidation

def emptyPath (v : String) : Option ArgumentError := if v = "" then some .invalidValue else none

def nameOption : OptionSpec := { long := "name", short := some 'n' }
def portOption : OptionSpec := { long := "port", short := some 'p', fault := unread portOfText? }
def dataDirOption : OptionSpec := { long := "data-dir", fault := emptyPath }
def configOption : OptionSpec := { long := "config", short := some 'c', fault := emptyPath }
def peerOption : OptionSpec :=
  { long := "peer", repeatable := true, fault := unread Net.SocketAddress.ofText? }
def acceptUnknownOption : OptionSpec := { long := "accept-unknown", takesValue := false }
def noDiscoveryOption : OptionSpec := { long := "no-discovery", takesValue := false }
def secondsOption : OptionSpec :=
  { long := "seconds", short := some 's', fault := unread secondsOfText? }

/-- How long the program browses unless told otherwise. -/
def defaultSeconds : Nat := 5

def programSpec : CommandSpec :=
  { options := [nameOption, portOption, dataDirOption, configOption]
    subcommands := ["run", "info", "discover"] }

/-- Scans the words of a subcommand. -/
def scanSubcommand (options : List OptionSpec) (words : List String) :
    Except ArgumentError Scan := do
  let (s, _) ← { options : CommandSpec }.scan words {}
  s.resolve

def readCommand (name : String) (words : List String) : Except ArgumentError Command := do
  match name with
  | "run" =>
    let s ← scanSubcommand [peerOption, acceptUnknownOption, noDiscoveryOption] words
    return .run
      { peers := (s.values peerOption.long).filterMap Net.SocketAddress.ofText?
        acceptUnknown := s.has acceptUnknownOption.long
        noDiscovery := s.has noDiscoveryOption.long }
  | "info" =>
    let _ ← scanSubcommand [] words
    return .info
  | _ =>
    let s ← scanSubcommand [secondsOption] words
    return .discover (((s.value? secondsOption.long).bind secondsOfText?).getD defaultSeconds)

/-- Reads a command line, without the name of the program. -/
def Arguments.ofWords (words : List String) : Except ArgumentError Arguments := do
  let (s, rest) ← programSpec.scan words {}
  let command ← match rest with
    | none => pure none
    | some (name, words) => some <$> readCommand name words
  let s ← s.resolve
  return { name := s.value? nameOption.long
           port := (s.value? portOption.long).bind portOfText?
           dataDir := s.value? dataDirOption.long
           configFile := s.value? configOption.long
           command }

/-- The name of a machine that has none. -/
def defaultName : String := "clipmesh-device"

/-- Where the configuration is looked for. -/
def Arguments.configPath (a : Arguments) (base : Config) : String :=
  a.configFile.getD (a.dataDir.getD base.dataDir ++ "/" ++ Config.fileName)

/-- The configuration that the arguments lead to. -/
def Arguments.loadConfig (a : Arguments) (base : Config) (files : FileTree) :
    Except Error Config := do
  let config ← match a.configFile with
    | some path =>
      let config ← Config.load base files (FilePath.ofText path)
      pure { config with dataDir := a.dataDir.getD config.dataDir }
    | none => Config.loadOrDefault base files (a.dataDir.getD base.dataDir)
  return match a.port with
    | some port => { config with port := UInt16.ofNat port }
    | none => config

end SharedClipboard.CommandLine
