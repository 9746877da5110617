import SharedClipboard.Clipboard.System
import SharedClipboard.Text.Blank

/-!
# Previews

The short form of a clipboard content: the beginning of its first line, or what kind of content it
is if it is no text.
-/

namespace SharedClipboard.Terminal

/-- How many characters of a line are shown. -/
def previewLength : Nat := 50

/-- The beginning of the first line of a text, marked if something was left out. -/
def previewOfText (s : List Char) : String :=
  let line := Text.firstLine s
  if line.length > previewLength ∨ line.length < s.length then
    String.ofList (line.take previewLength) ++ "..."
  else String.ofList line

def preview (mime : String) (data : Bytes) : String :=
  if SystemClipboard.isText mime then previewOfText (Text.lossyChars data)
  else s!"<{data.length} bytes of {mime}>"

end SharedClipboard.Terminal
