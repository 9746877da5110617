import SharedClipboard.Text.Utf8
import SharedClipboard.Error

/-!
# Packets

What two nodes say to each other, and the one way in which each packet is written: a tag byte,
then each field as its length in four bytes and its bytes. The tag fixes the number of fields.
-/

namespace SharedClipboard

/-- The kind of a packet. -/
inductive PacketType where
  | invalid
  | ping
  | syncRequest
  | challengeRequest
  | challengeResponse
  deriving DecidableEq, Repr, Inhabited

namespace PacketType

/-- The byte that opens a packet of this kind. -/
def tag : PacketType → UInt8
  | invalid => 0x01
  | ping => 0x02
  | syncRequest => 0x03
  | challengeRequest => 0x04
  | challengeResponse => 0x05

/-- The kind that a tag byte announces. -/
def ofTag (b : UInt8) : Except DecodeError PacketType :=
  if b = 0x01 then .ok invalid
  else if b = 0x02 then .ok ping
  else if b = 0x03 then .ok syncRequest
  else if b = 0x04 then .ok challengeRequest
  else if b = 0x05 then .ok challengeResponse
  else .error (.unknownType b)

theorem ofTag_eq_ok_iff {b : UInt8} {t : PacketType} : ofTag b = .ok t ↔ b = t.tag := by
  constructor
  · intro h
    unfold ofTag at h
    repeat' split at h
    all_goals first | (cases h; assumption) | cases h
  · rintro rfl
    cases t <;> rfl

def fieldCount : PacketType → Nat
  | invalid | ping => 0
  | syncRequest => 2
  | challengeRequest | challengeResponse => 1

/-- Whether the packet belongs to the handshake, which ends when a session is a member. -/
def isHandshake : PacketType → Bool
  | challengeRequest | challengeResponse => true
  | _ => false

end PacketType

/-- A message between two nodes. -/
inductive Packet where
  /-- Tells the sender of an undecodable stream that it was not understood. -/
  | invalid
  /-- Shows that the sender is alive, and acknowledges a ping. -/
  | ping
  /-- The content of a clipboard. -/
  | syncRequest (mime : String) (data : Bytes)
  /-- A number that the receiver has to answer to join. -/
  | challengeRequest (nonce : Bytes)
  /-- The answer to a challenge. -/
  | challengeResponse (answer : Bytes)
  deriving DecidableEq, Repr, Inhabited

namespace Packet

def type : Packet → PacketType
  | invalid => .invalid
  | ping => .ping
  | syncRequest _ _ => .syncRequest
  | challengeRequest _ => .challengeRequest
  | challengeResponse _ => .challengeResponse

/-- The fields in the order in which they are written. -/
def fields : Packet → List Bytes
  | invalid | ping => []
  | syncRequest mime data => [Text.utf8 mime, data]
  | challengeRequest nonce => [nonce]
  | challengeResponse answer => [answer]

/-- A field with its length in front. -/
def encodeField (f : Bytes) : Bytes := Bytes.ofLength f.length ++ f

def encode (p : Packet) : Bytes := p.type.tag :: p.fields.flatMap encodeField

@[simp] theorem length_fields (p : Packet) : p.fields.length = p.type.fieldCount := by
  cases p <;> rfl

end Packet

end SharedClipboard
