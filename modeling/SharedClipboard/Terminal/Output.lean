/-!
# What is printed

Text for the two output streams of a program, and the styles in which parts of it are shown.
-/

namespace SharedClipboard.Terminal

/-- What a program prints. -/
structure Output where
  /-- On standard output. -/
  out : String := ""
  /-- On standard error. -/
  err : String := ""
  deriving DecidableEq, Repr, Inhabited

namespace Output

instance : Append Output := ⟨fun a b => { out := a.out ++ b.out, err := a.err ++ b.err }⟩

def line (s : String) : Output := { out := s ++ "\n" }

def lines (ss : List String) : Output := { out := String.join (ss.map (· ++ "\n")) }

def errorLine (s : String) : Output := { err := s ++ "\n" }

end Output

/-- How a part of a text is shown. -/
inductive Style where
  | bold
  | dim
  | red
  | green
  | yellow
  | blue
  | magenta
  | cyan
  deriving DecidableEq, Repr, Inhabited

/-- The code of a style; colours are shown bold. -/
def Style.code : Style → String
  | bold => "1"
  | dim => "2"
  | red => "1;31"
  | green => "1;32"
  | yellow => "1;33"
  | blue => "1;34"
  | magenta => "1;35"
  | cyan => "1;36"

/-- A text in a style. -/
def Style.apply (s : Style) (text : String) : String :=
  "\x1b[" ++ s.code ++ "m" ++ text ++ "\x1b[0m"

end SharedClipboard.Terminal
