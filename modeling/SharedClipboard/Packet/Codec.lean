import SharedClipboard.Packet.Basic

/-!
# Decoding packets

A codec decodes bytes that are one whole packet, and bounds the length that a field may claim, so
that a hostile peer cannot make the receiver set aside memory for it.
-/

namespace SharedClipboard

/-- A decoder with a bound on the length of a field. -/
structure Codec where
  maxPayload : Nat
  deriving DecidableEq, Repr, Inhabited

namespace Codec

/-- The bound of a codec for which none is chosen: 16 MiB. -/
def defaultMaxPayload : Nat := 16 * 1024 * 1024

def default : Codec := ⟨defaultMaxPayload⟩

/-- Refuses a length above the bound. -/
def checkLength (c : Codec) (declared : Nat) : Except DecodeError Unit :=
  if declared > c.maxPayload then .error (.lengthOverflow declared c.maxPayload) else .ok ()

theorem checkLength_of_le {c : Codec} {declared : Nat} (h : declared ≤ c.maxPayload) :
    c.checkLength declared = .ok () :=
  if_neg (Nat.not_lt.2 h)

theorem checkLength_of_lt {c : Codec} {declared : Nat} (h : c.maxPayload < declared) :
    c.checkLength declared = .error (.lengthOverflow declared c.maxPayload) :=
  if_pos h

/-- A length is above the bound and refused, or it is not. -/
theorem checkLength_cases (c : Codec) (declared : Nat) :
    (c.maxPayload < declared ∧
        c.checkLength declared = .error (.lengthOverflow declared c.maxPayload)) ∨
      (declared ≤ c.maxPayload ∧ c.checkLength declared = .ok ()) := by
  obtain h | h := Nat.lt_or_ge c.maxPayload declared
  · exact .inl ⟨h, checkLength_of_lt h⟩
  · exact .inr ⟨h, checkLength_of_le h⟩

/-- Takes one field off the front. -/
def nextField (c : Codec) : Bytes → Except DecodeError (Bytes × Bytes)
  | a :: b :: x :: d :: body => do
    let declared := Bytes.toLength a b x d
    c.checkLength declared
    if body.length < declared then .error (.truncated declared body.length)
    else .ok (body.take declared, body.drop declared)
  | short => .error (.truncated 4 short.length)

/-- A packet is finished when nothing is left. -/
def finished (p : Packet) : Bytes → Except DecodeError Packet
  | [] => .ok p
  | rest => .error (.trailingBytes rest.length)

/-- Decodes the fields of a packet of the given kind, which must be all of the bytes. A content
type is read as text only when both fields are there. -/
def decodeFields (c : Codec) (body : Bytes) : PacketType → Except DecodeError Packet
  | .invalid => finished .invalid body
  | .ping => finished .ping body
  | .syncRequest => do
    let (mime, rest) ← c.nextField body
    let (data, rest) ← c.nextField rest
    match Text.ofUtf8? mime with
    | none => .error .invalidMimeType
    | some mime => finished (.syncRequest mime data) rest
  | .challengeRequest => do
    let (nonce, rest) ← c.nextField body
    finished (.challengeRequest nonce) rest
  | .challengeResponse => do
    let (answer, rest) ← c.nextField body
    finished (.challengeResponse answer) rest

/-- Decodes one packet that occupies all of the bytes. -/
def decode (c : Codec) : Bytes → Except DecodeError Packet
  | [] => .error (.truncated 1 0)
  | tag :: body => PacketType.ofTag tag >>= c.decodeFields body

/-- Whether a packet's fields are within the bound and fit their length prefix. -/
def Fits (c : Codec) (p : Packet) : Prop :=
  ∀ f ∈ p.fields, f.length ≤ c.maxPayload ∧ f.length < Bytes.lengthLimit

instance (c : Codec) (p : Packet) : Decidable (c.Fits p) :=
  inferInstanceAs (Decidable (∀ f ∈ p.fields, _))

end Codec

end SharedClipboard
