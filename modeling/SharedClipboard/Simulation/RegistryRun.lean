import SharedClipboard.Auth.Registry

/-!
# A registry and its file

The registry of trusted fingerprints with the files around it, and what can happen to either: the
file is written, removed or replaced by a directory, its directory is replaced by a file, and the
lock of the registry is left behind by a thread that failed.
-/

namespace SharedClipboard.Simulation

/-- A registry, once it is open, and the files. -/
structure RegistryRun where
  /-- Whether the registry has a file. -/
  kept : Bool
  files : FileTree := {}
  registry : Option Registry := none
  deriving DecidableEq, Repr, Inhabited

namespace RegistryRun

/-- Where the file of the registry is. -/
def dataDir : FilePath := ["data"]

def path : FilePath := FileRegistry.path dataDir

/-- A registry in memory is open from the start. -/
def fresh (kept : Bool) : RegistryRun := { kept, registry := if kept then none else some {} }

/-- What can happen to the files. -/
inductive FileStep where
  | write (content : Bytes)
  | remove
  /-- A directory stands where the file belongs. -/
  | blockFile
  /-- A file stands where the directory belongs. -/
  | blockDirectory
  /-- Takes away what stands in the way. -/
  | unblock
  deriving DecidableEq, Repr, Inhabited

/-- Takes away a directory where the file belongs and a file where the directory belongs. -/
def unblocked (t : FileTree) : FileTree :=
  let t := if t.get? path = some .directory then t.remove path else t
  match t.get? dataDir with
  | some (.file _) => t.remove dataDir
  | _ => t

/-- Something happens to the files. -/
def onFiles (r : RegistryRun) : FileStep → RegistryRun
  | .write content =>
    { r with files := (r.files.put dataDir .directory).put path (.file content) }
  | .remove => { r with files := r.files.remove path }
  | .blockFile =>
    { r with files := ((r.files.put dataDir .directory).remove path).put path .directory }
  | .blockDirectory => { r with files := (r.files.remove dataDir).put dataDir (.file []) }
  | .unblock => { r with files := unblocked r.files }

/-- Opens the registry anew; the one that was open stays if that fails. -/
def reopen (r : RegistryRun) : Except Error Unit × RegistryRun :=
  if !r.kept then (.ok (), r)
  else match FileRegistry.load r.files dataDir with
    | .ok registry => (.ok (), { r with registry := some registry })
    | .error e => (.error e, r)

def remember (r : RegistryRun) (f : Fingerprint) : Option (Except Error Unit) × RegistryRun :=
  match r.registry with
  | none => (none, r)
  | some registry =>
    if r.kept then
      let (result, registry, files) := FileRegistry.remember registry r.files dataDir f
      (some result, { r with registry := some registry, files })
    else match registry.remember f with
      | .ok (registry, _) => (some (.ok ()), { r with registry := some registry })
      | .error e => (some (.error e), r)

/-- A thread fails while it holds the lock. -/
def poison (r : RegistryRun) : RegistryRun :=
  { r with registry := r.registry.map fun x => { x with broken := true } }

def fileText (r : RegistryRun) : Option String := (r.files.read path).toOption.map Text.lossy

end RegistryRun

end SharedClipboard.Simulation
