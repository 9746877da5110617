import SharedClipboard.Device
import SharedClipboard.Error

/-!
# Challenges

A challenge is a random number handed to one peer on one connection. The peer answers with the
digest of the number and of the fingerprint that it presents on this connection, so an answer is
good for no other number and for no connection with another certificate. A challenge is settled
by the first answer, right or wrong.
-/

namespace SharedClipboard

/-- A moment, in milliseconds since some start. -/
abbrev Time := Nat

namespace Challenge

/-- Number of bytes in a challenge. -/
def nonceLength : Nat := 32

/-- Number of bytes in an answer. -/
def answerLength : Nat := 32

/-- What is put in front of the digest, so that no other digest is an answer. -/
def context : Bytes := Text.utf8 "clipmesh-challenge-v1"

/-- The bytes whose digest is the answer. -/
def answerInput (nonce : Bytes) (fingerprint : Option Fingerprint) : Bytes :=
  context ++ nonce ++ (fingerprint.map Fingerprint.bytes).getD []

/-- What a peer with this fingerprint must send back. -/
def answer (nonce : Bytes) (fingerprint : Option Fingerprint) : Bytes :=
  Sha256.digest (answerInput nonce fingerprint)

@[simp] theorem length_answer (nonce : Bytes) (f : Option Fingerprint) :
    (answer nonce f).length = answerLength := Sha256.length_digest _

/-- Whether a challenge still waits for an answer. -/
inductive State where
  | issued
  | completed
  | expired
  deriving DecidableEq, Repr, Inhabited

end Challenge

/-- A number handed to a peer. -/
structure Challenge where
  nonce : Bytes
  issuedAt : Time
  state : Challenge.State := .issued
  deriving DecidableEq, Repr, Inhabited

namespace Challenge

/-- Compares an answer with the one that the peer should have given. A waiting challenge is
settled either way. -/
def verify (c : Challenge) (given : Bytes) (peer : Option Fingerprint) :
    Except AuthError Unit × Challenge :=
  if c.state ≠ .issued then (.error .malformed, c)
  else if given.length ≠ answerLength then (.error .malformed, { c with state := .expired })
  else if given = answer c.nonce peer then (.ok (), { c with state := .completed })
  else (.error .mismatch, { c with state := .expired })

/-- Withdraws a challenge that still waits. -/
def expire (c : Challenge) : Challenge :=
  if c.state = .issued then { c with state := .expired } else c

end Challenge

end SharedClipboard
