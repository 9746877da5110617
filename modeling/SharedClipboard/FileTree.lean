import SharedClipboard.Bytes
import SharedClipboard.IoError

/-!
# Files

The files that a node reads and writes, as a tree of directories. Only what a node does with files
is here: reading a whole file, replacing one, and making directories; each fails as the operating
system makes it fail.
-/

namespace SharedClipboard

/-- The names on the way to a file. -/
abbrev FilePath := List String

/-- The path that a text spells. Empty names and single points lead nowhere. -/
def FilePath.ofText (s : String) : FilePath :=
  (s.splitOn "/").filter fun name => name ≠ "" ∧ name ≠ "."

/-- What stands at a path. -/
inductive FileTree.Node where
  | directory
  | file (content : Bytes)
  deriving DecidableEq, Repr, Inhabited

/-- Files and directories by path. The root is a directory, and so is every path on the way to an
entry. -/
structure FileTree where
  entries : List (FilePath × FileTree.Node) := []
  deriving DecidableEq, Repr, Inhabited

namespace FileTree

def get? (t : FileTree) (p : FilePath) : Option Node :=
  match t.entries.find? (·.1 = p) with
  | some e => some e.2
  | none =>
    if p.isEmpty || t.entries.any (fun e => e.1.length > p.length && e.1.take p.length = p) then
      some .directory
    else none

def pathExists (t : FileTree) (p : FilePath) : Bool := (t.get? p).isSome

def put (t : FileTree) (p : FilePath) (n : Node) : FileTree :=
  ⟨t.entries.filter (·.1 ≠ p) ++ [(p, n)]⟩

def remove (t : FileTree) (p : FilePath) : FileTree :=
  ⟨t.entries.filter fun e => e.1.take p.length ≠ p⟩

/-- Whether a file stands on the way to a path. -/
def blocked (t : FileTree) (p : FilePath) : Bool :=
  (List.range p.length).any fun n => match t.get? (p.take n) with
    | some (.file _) => true
    | _ => false

def read (t : FileTree) (p : FilePath) : Except IoError Bytes :=
  match t.get? p with
  | some (.file content) => .ok content
  | some .directory => .error .directoryInTheWay
  | none => if t.blocked p then .error .noDirectory else .error .noSuchFile

/-- Makes a directory and those on the way to it. -/
def makeDirectory (t : FileTree) (p : FilePath) : Except IoError FileTree :=
  match t.get? p with
  | some .directory => .ok t
  | some (.file _) => .error .fileExists
  | none => if t.blocked p then .error .noDirectory else .ok (t.put p .directory)

/-- Replaces the content of a file, whose directory must be there. -/
def write (t : FileTree) (p : FilePath) (content : Bytes) : Except IoError FileTree :=
  match t.get? p with
  | some .directory => .error .directoryInTheWay
  | some (.file _) => .ok (t.put p (.file content))
  | none =>
    match t.get? p.dropLast with
    | some .directory => .ok (t.put p (.file content))
    | _ => if t.blocked p then .error .noDirectory else .error .noSuchFile

end FileTree

end SharedClipboard
