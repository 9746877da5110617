/-!
# Printing JSON

A text in quotes, with escapes for quotes, backslashes and control characters only; an object in
compact form; and a list of texts under a key, one element per line, indented by two spaces a
level.
-/

namespace SharedClipboard.Json

def hexDigit (n : Nat) : Char := if n < 10 then Char.ofNat (48 + n) else Char.ofNat (87 + n)

/-- How a character is written within quotes. -/
def escapeChar (c : Char) : List Char :=
  if c = '"' then ['\\', '"']
  else if c = '\\' then ['\\', '\\']
  else if c = '\x08' then ['\\', 'b']
  else if c = '\x0c' then ['\\', 'f']
  else if c = '\n' then ['\\', 'n']
  else if c = '\r' then ['\\', 'r']
  else if c = '\t' then ['\\', 't']
  else if c.toNat < 0x20 then
    ['\\', 'u', '0', '0', hexDigit (c.toNat / 16), hexDigit (c.toNat % 16)]
  else [c]

def quote (s : String) : String :=
  String.ofList ('"' :: s.toList.flatMap escapeChar ++ ['"'])

/-- An object in compact form, given its keys and what is written under them. -/
def object (fields : List (String × String)) : String :=
  "\x7b" ++ ",".intercalate (fields.map fun (key, value) => quote key ++ ":" ++ value) ++ "\x7d"

/-- An object with one key, under which stands a list of texts. -/
def textsUnder (key : String) (texts : List String) : String :=
  let list :=
    if texts.isEmpty then "[]"
    else "[\n    " ++ ",\n    ".intercalate (texts.map quote) ++ "\n  ]"
  "\x7b\n  " ++ quote key ++ ": " ++ list ++ "\n\x7d"

end SharedClipboard.Json
