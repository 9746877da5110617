import SharedClipboard.CommandLine.Arguments
import SharedClipboard.CommandLine.Discover
import SharedClipboard.CommandLine.Info
import SharedClipboard.Service.Startup

/-!
# The program

What the program does with its command line, as far as it ends by itself: it shows information,
lists devices, or fails before a node runs.
-/

namespace SharedClipboard.CommandLine

open Terminal

/-- What comes of starting the program. -/
inductive Ending where
  /-- The command line is no good, or asks for help. -/
  | refused (e : ArgumentError)
  | failed (e : Error)
  | finished (o : Output)
  /-- A node is to run, under a configuration. -/
  | runs (name : String) (c : Config) (o : RunOptions)

namespace Ending

def code : Ending → Nat
  | refused e => e.code
  | failed _ => 1
  | finished _ => 0
  | runs _ _ _ => 0

/-- What the program has printed, if it came to its end. -/
def output : Ending → Option Output
  | finished o => some o
  | _ => none

end Ending

/-- A node runs if its registry can be loaded. -/
def startNode (name : String) (c : Config) (files : FileTree) (o : RunOptions) : Ending :=
  match Service.loadRegistry c files with
  | .error e => .failed e
  | .ok _ => .runs name c o

/-- Starts the program on a machine with some files, where nothing happens on the network. -/
def start (machineName : String) (base : Config) (files : FileTree) (words : List String) :
    Ending :=
  match Arguments.ofWords words with
  | .error e => .refused e
  | .ok a =>
    let name := a.name.getD machineName
    match a.loadConfig base files with
    | .error e => .failed e
    | .ok c =>
      match a.command with
      | some .info =>
        match showInfo name c [] files with
        | .error e => .failed e
        | .ok o => .finished o
      | some (.discover seconds) =>
        let d := discover c.serviceType {} seconds []
        match d.result with
        | .error e => .failed (.discovery e)
        | .ok () => .finished d.output
      | some (.run o) => startNode name c files o
      | none => startNode name c files {}

end SharedClipboard.CommandLine
