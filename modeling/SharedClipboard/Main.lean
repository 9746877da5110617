import SharedClipboard.CommandLine.Program
import SharedClipboard.Simulation.ServiceRun

/-!
# The command line

Reads what the program depends on, starts it, prints what it says and ends with its code. A node
started from here has no network: it serves the clipboard of the process until the input ends.
-/

namespace SharedClipboard.CommandLine

def print (o : Terminal.Output) : IO Unit := do
  let out ← IO.getStdout
  out.putStr o.out
  out.flush
  IO.eprint o.err

/-- Reads a file into a tree, if there is one. -/
def readInto (files : FileTree) (path : String) : IO FileTree := do
  match ← (IO.FS.readBinFile path).toBaseIO with
  | .ok content => return files.put (FilePath.ofText path) (.file content.toList)
  | .error (.resourceExhausted ..) | .error (.inappropriateType ..) =>
    return files.put (FilePath.ofText path) .directory
  | .error _ => return files

/-- The files that the program reads. Where the registry is may stand in the configuration. -/
def readFiles (base : Config) (words : List String) : IO FileTree := do
  match Arguments.ofWords words with
  | .error _ => return {}
  | .ok a =>
    let files ← readInto {} (a.configPath base)
    match a.loadConfig base files with
    | .error _ => return files
    | .ok c => readInto files (c.dataDir ++ "/" ++ FileRegistry.fileName)

def machineName : IO String := do
  match ← (IO.FS.readFile "/etc/hostname").toBaseIO with
  | .ok name => return name.trimAscii.toString
  | .error _ => return defaultName

/-- Runs a node until the input ends. -/
def runNode (name : String) (config : Config) (options : RunOptions) (files : FileTree) :
    IO UInt32 := do
  let run := Simulation.ServiceRun.start
    { name, config, options, files, clipboard := {}, faults := {}, portTaken := false }
  print run.output
  match run.stage with
  | .over (.error e) =>
    IO.eprintln s!"Error: {e.message}"
    return 1
  | .over (.ok ()) => return 0
  | .running _ =>
    let _ ← (← IO.getStdin).readToEnd
    print (run.clearLogs.step .interrupt).1.output
    return 0

end SharedClipboard.CommandLine

open SharedClipboard SharedClipboard.CommandLine in
def main (words : List String) : IO UInt32 := do
  let base := Config.default ((← IO.getEnv "HOME").getD "")
  let files ← readFiles base words
  match start (← machineName) base files words with
  | .runs name config options => runNode name config options files
  | .finished o =>
    print o
    return 0
  | .failed e =>
    IO.eprintln s!"Error: {e.message}"
    return 1
  | .refused e =>
    IO.eprintln s!"error: {e.message}"
    return UInt32.ofNat e.code
