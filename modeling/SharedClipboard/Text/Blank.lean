/-!
# Blank characters

The characters with the White_Space property, and the two things done with them and with line
ends: trimming an answer typed at the terminal, and taking the first line of a text.
-/

namespace SharedClipboard.Text

/-- The ranges of the White_Space property, in order. -/
def blankRanges : List (Nat × Nat) :=
  [(0x09, 0x0D), (0x20, 0x20), (0x85, 0x85), (0xA0, 0xA0), (0x1680, 0x1680), (0x2000, 0x200A),
    (0x2028, 0x2029), (0x202F, 0x202F), (0x205F, 0x205F), (0x3000, 0x3000)]

/-- Whether a character has the White_Space property. -/
def isBlank (c : Char) : Bool :=
  blankRanges.any fun (lo, hi) => lo ≤ c.toNat && c.toNat ≤ hi

/-- The text without the blanks at its ends. -/
def trim (cs : List Char) : List Char :=
  ((cs.dropWhile isBlank).reverse.dropWhile isBlank).reverse

/-- The first line: up to the first line feed, without a carriage return just before it. A text
without a line feed is one line. -/
def firstLine (cs : List Char) : List Char :=
  let line := cs.takeWhile (· != '\n')
  if line.length < cs.length ∧ line.getLast? = some '\r' then line.dropLast else line

example : firstLine "a\r\nb".toList = ['a'] := by decide
example : firstLine "a\r".toList = ['a', '\r'] := by decide

end SharedClipboard.Text
