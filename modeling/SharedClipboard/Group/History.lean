import SharedClipboard.Device

/-!
# The clipboard and its history

The last updates of the clipboard, numbered in the order in which they were accepted. The newest
is the current content. Contents are compared by a digest that tells apart the content type and
the data, because the length of the type stands in front.
-/

namespace SharedClipboard

/-- The digest of a clipboard content. -/
structure ContentHash where
  digest : Bytes
  deriving DecidableEq, Repr, Inhabited

namespace ContentHash

/-- The bytes of which the digest is taken. -/
def input (mime : String) (data : Bytes) : Bytes :=
  Bytes.ofLength (Text.utf8 mime).length ++ Text.utf8 mime ++ data

def of (mime : String) (data : Bytes) : ContentHash := ⟨Sha256.digest (input mime data)⟩

end ContentHash

/-- Where an update came from. -/
inductive Origin where
  | local
  | remote (d : Device)
  deriving DecidableEq, Repr, Inhabited

/-- One update of the clipboard. -/
structure Snapshot where
  seq : Nat
  mime : String
  data : Bytes
  hash : ContentHash
  origin : Origin
  deriving DecidableEq, Repr, Inhabited

/-- The last updates, oldest first. -/
structure History where
  limit : Nat
  nextSeq : Nat := 1
  entries : List Snapshot := []
  deriving DecidableEq, Repr, Inhabited

namespace History

/-- An empty history of the given length; at least the current content is always kept. -/
def fresh (limit : Nat) : History := { limit := max limit 1 }

def current (h : History) : Option Snapshot := h.entries.getLast?

/-- Whether a content is the current one. -/
def isCurrent (h : History) (hash : ContentHash) : Bool := h.current.any (·.hash == hash)

/-- The update that the next content makes. -/
def next (h : History) (mime : String) (data : Bytes) (origin : Origin) : Snapshot :=
  { seq := h.nextSeq, mime, data, hash := .of mime data, origin }

/-- Accepts a content; the oldest updates beyond the limit are forgotten. -/
def record (h : History) (mime : String) (data : Bytes) (origin : Origin) : Snapshot × History :=
  let s := h.next mime data origin
  let entries := h.entries ++ [s]
  (s, { h with nextSeq := h.nextSeq + 1, entries := entries.drop (entries.length - h.limit) })

end History

end SharedClipboard
