import SharedClipboard.Device

/-!
# What is known of a connection

Where a connection leads, and the fingerprints of the certificates presented on it.
-/

namespace SharedClipboard

/-- What is known of a connection. -/
structure Wire where
  peer : Net.SocketAddress
  mine : Option Fingerprint := none
  theirs : Option Fingerprint := none
  deriving DecidableEq, Repr, Inhabited

namespace Wire

def escape (c : Char) : String :=
  match c with
  | '"' => "\\\""
  | '\\' => "\\\\"
  | '\n' => "\\n"
  | '\r' => "\\r"
  | '\t' => "\\t"
  | '\x00' => "\\0"
  | c =>
    if c.toNat < 0x20 ∨ c.toNat = 0x7F then
      "\\u\x7b" ++ String.ofList (Nat.toDigits 16 c.toNat) ++ "\x7d"
    else String.singleton c

def quote (s : String) : String := "\"" ++ String.join (s.toList.map escape) ++ "\""

/-- How a fingerprint is described, if there is one. -/
def describe : Option Fingerprint → String
  | none => "None"
  | some f => s!"Some(Fingerprint({quote f.text}))"

def description (w : Wire) : String :=
  s!"Connection \x7b peer_addr: {w.peer.text}, peer_fingerprint: {describe w.theirs} \x7d"

end Wire

end SharedClipboard
