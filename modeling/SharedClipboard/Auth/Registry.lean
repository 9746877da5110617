import SharedClipboard.Device
import SharedClipboard.Error
import SharedClipboard.FileTree
import SharedClipboard.Json.Printer
import SharedClipboard.Json.Reader

/-!
# The registry of trusted fingerprints

The fingerprints that may join without a question, each once, in the order of their texts. The
registry may be kept in a file, which is replaced whenever a fingerprint is added. Adding one is
two steps: `Registry.remember` puts it in and says what the file shall hold, and
`FileRegistry.save` writes that; so of two fingerprints added at once either file may be written
last.

A registry whose lock was left by a failing thread trusts nothing and remembers nothing.
-/

namespace SharedClipboard

/-- A set of trusted fingerprints. -/
structure Registry where
  fingerprints : List Fingerprint := []
  /-- The lock was left behind by a thread that failed. -/
  broken : Bool := false
  deriving DecidableEq, Repr, Inhabited

namespace Registry

/-- Puts a fingerprint into a list that is in order, unless it is there. -/
def insert (f : Fingerprint) : List Fingerprint → List Fingerprint
  | [] => [f]
  | g :: gs =>
    if f = g then g :: gs
    else if f.text < g.text then f :: g :: gs
    else g :: insert f gs

/-- The registry of some fingerprints. -/
def ofList (fs : List Fingerprint) : Registry := ⟨fs.foldl (fun gs f => insert f gs) [], false⟩

def trusts (r : Registry) (f : Fingerprint) : Bool := !r.broken && r.fingerprints.contains f

def trusted (r : Registry) : List Fingerprint := if r.broken then [] else r.fingerprints

/-- What reports that the registry cannot be used. -/
def brokenError : Error := .trust "registry lock poisoned"

/-- Adds a fingerprint. Gives back what a file of the registry shall hold now, unless the
fingerprint was there. -/
def remember (r : Registry) (f : Fingerprint) :
    Except Error (Registry × Option (List Fingerprint)) :=
  if r.broken then .error brokenError
  else if r.fingerprints.contains f then .ok (r, none)
  else
    let fs := insert f r.fingerprints
    .ok ({ r with fingerprints := fs }, some fs)

theorem mem_insert {f g : Fingerprint} {fs : List Fingerprint} :
    g ∈ insert f fs ↔ g = f ∨ g ∈ fs := by
  induction fs with
  | nil => simp [insert]
  | cons x xs ih =>
    simp only [insert]
    split
    · grind
    · split <;> grind

end Registry

namespace FileRegistry

open Json Reader

def fileName : String := "trusted_devices.json"

def path (dataDir : FilePath) : FilePath := dataDir ++ [fileName]

/-- The key under which the fingerprints stand. -/
def key : String := "fingerprints"

/-- The content of the file for a list of fingerprints. -/
def toJson (fs : List Fingerprint) : Bytes :=
  Text.utf8 (textsUnder key (fs.map (·.text)))

def readField (got : Option (List String)) (name : String) : Reader (Option (List String)) := do
  if name = key then once got (array string)
  else
    skipValue
    return got

/-- The fingerprints, which must be there. -/
def readComplete : Option (List String) → Reader (List String)
  | some texts => return texts
  | none => fail .wrongShape

/-- The fingerprints that the content of a file spells. -/
def ofJson? (b : Bytes) : Except FormatFault (List Fingerprint) := do
  let texts ← (record none readField readComplete
    (do readComplete (← element? true (array string)))).run b
  return texts.map Fingerprint.mk

/-- The registry of a data directory, which is empty if there is no file. -/
def load (files : FileTree) (dataDir : FilePath) : Except Error Registry :=
  match files.read (path dataDir) with
  | .error e => if e.kind = .notFound then .ok {} else .error (.io e)
  | .ok content =>
    match ofJson? content with
    | .error e => .error (.serialization e)
    | .ok fs => .ok (.ofList fs)

/-- Replaces the file, making its directory if needed. -/
def save (files : FileTree) (dataDir : FilePath) (fs : List Fingerprint) :
    Except Error FileTree := do
  let files ← (files.makeDirectory dataDir).mapError Error.io
  (files.write (path dataDir) (toJson fs)).mapError Error.io

/-- Adds a fingerprint and writes the file. A fingerprint that was there is not written again; one
that could not be written is trusted all the same until the registry is loaded again. -/
def remember (r : Registry) (files : FileTree) (dataDir : FilePath) (f : Fingerprint) :
    Except Error Unit × Registry × FileTree :=
  match r.remember f with
  | .error e => (.error e, r, files)
  | .ok (r, none) => (.ok (), r, files)
  | .ok (r, some fs) =>
    match save files dataDir fs with
    | .ok files => (.ok (), r, files)
    | .error e => (.error e, r, files)

end FileRegistry

end SharedClipboard
