import SharedClipboard.Error
import SharedClipboard.Group.History
import SharedClipboard.Text.Utf8

/-!
# The clipboard of the machine

The clipboard of the machine holds one text or nothing. Only text is shared: a content of another
type is refused before the clipboard is asked. An empty text counts as nothing.
-/

namespace SharedClipboard

/-- The clipboard of the machine, and what it fails at. -/
structure SystemClipboard where
  text : Option String := none
  openFault : Option String := none
  readFault : Option String := none
  writeFault : Option String := none
  deriving DecidableEq, Repr, Inhabited

namespace SystemClipboard

/-- The type of a text that was copied on this machine. -/
def plainText : String := "text/plain"

/-- What the types of texts start with. -/
def textTypes : String := "text/"

def isText (mime : String) : Bool := textTypes.toList.isPrefixOf mime.toList

/-- The text that a content is. -/
def textOf (mime : String) (data : Bytes) : Except Error String :=
  if isText mime then
    match Text.ofUtf8? data with
    | some s => .ok s
    | none => .error (.clipboard "text is not valid UTF-8")
  else .error (.clipboard s!"unsupported content type {mime}")

/-- Fails if there is a text to fail with. -/
def refuse : Option String → Except Error Unit
  | some text => .error (.clipboard text)
  | none => .ok ()

/-- What the clipboard holds, with its type. -/
def read (c : SystemClipboard) : Except Error (Option (String × Bytes)) := do
  refuse c.openFault
  refuse c.readFault
  return (c.text.filter (· ≠ "")).map fun s => (plainText, Text.utf8 s)

def write (c : SystemClipboard) (mime : String) (data : Bytes) : Except Error SystemClipboard := do
  let s ← textOf mime data
  refuse c.openFault
  refuse c.writeFault
  return { c with text := some s }

/-- The user copies a text, or clears the clipboard. -/
def copy (c : SystemClipboard) (s : Option String) : SystemClipboard := { c with text := s }

end SystemClipboard

end SharedClipboard
