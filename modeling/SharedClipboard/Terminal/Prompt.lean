import SharedClipboard.Net.Address
import SharedClipboard.Terminal.Output
import SharedClipboard.Text.Blank
import SharedClipboard.Text.Utf8

/-!
# Asking the user

An unknown device is admitted if the user answers a question with yes. Questions are asked one at
a time, and each takes one line of what is typed. The end of the input, and a line that is no
text, are a no.
-/

namespace SharedClipboard.Terminal

/-- The question whether the device at an address may join. -/
def question (a : Net.SocketAddress) : String :=
  let place := Style.bold.apply s!"{a.ip.text}:{a.port.toNat}"
  Style.magenta.apply "⚡" ++ s!" Allow {place} to join the group? [y/N] "

/-- Whether an answer is a yes. -/
def isYes (answer : String) : Bool :=
  let word := (Text.trim answer.toList).map Char.toLower
  word = ['y'] || word = ['y', 'e', 's']

/-- The first line of what is typed, with its end, and what is typed after it. -/
def takeLine : Bytes → Bytes × Bytes
  | [] => ([], [])
  | b :: rest =>
    if b = 10 then ([b], rest)
    else
      let (line, rest) := takeLine rest
      (b :: line, rest)

/-- Whether a line is a yes. -/
def admits (line : Bytes) : Bool := (Text.ofUtf8? line).any isYes

/-- Asks questions in order, while some bytes wait to be read. -/
def askAll : List Net.SocketAddress → Bytes → List Bool × Output
  | [], _ => ([], {})
  | a :: as, typed =>
    let (line, typed) := takeLine typed
    let (answers, output) := askAll as typed
    (admits line :: answers, { out := question a } ++ output)

end SharedClipboard.Terminal
