import SharedClipboard.Auth.Challenge
import SharedClipboard.Packet.Basic

/-!
# The handshake

Each side of a connection issues one challenge and answers one. A peer whose answer was right
waits for the decision whether it may join. The handshake only says how it went; making the
session a member is not its business.
-/

namespace SharedClipboard

namespace Handshake

inductive State where
  | unauthenticated
  | challengeIssued
  | authenticated
  | rejected (cause : AuthError)
  deriving DecidableEq, Repr, Inhabited

end Handshake

structure Handshake where
  state : Handshake.State := .unauthenticated
  challenge : Option Challenge := none
  /-- The peer's answer was right. -/
  verified : Bool := false
  /-- The peer's challenge was answered. -/
  answered : Bool := false
  timeout : Nat
  deriving DecidableEq, Repr, Inhabited

namespace Handshake

/-- A handshake that gives the peer `timeout` to answer. -/
def fresh (timeout : Nat) : Handshake := { timeout }

def isAuthenticated (h : Handshake) : Bool := h.state == .authenticated

/-- Issues the challenge with the given number, if none was issued yet. -/
def issue (h : Handshake) (now : Time) (nonce : Bytes) : Option Packet × Handshake :=
  if h.state = .unauthenticated then
    (some (.challengeRequest nonce),
      { h with challenge := some { nonce, issuedAt := now }, state := .challengeIssued })
  else (none, h)

/-- When the peer's answer is due, while it is awaited. -/
def responseDeadline (h : Handshake) : Option Time :=
  match h.state, h.challenge with
  | .challengeIssued, some c => if h.verified then none else some (c.issuedAt + h.timeout)
  | _, _ => none

/-- Answers the peer's challenge. A peer gets one answer per connection. -/
def answer (h : Handshake) (nonce : Bytes) (mine : Option Fingerprint) :
    Except AuthError Packet × Handshake :=
  if h.answered ∨ nonce.length ≠ Challenge.nonceLength then (.error .malformed, h)
  else (.ok (.challengeResponse (Challenge.answer nonce mine)), { h with answered := true })

def reject (h : Handshake) (cause : AuthError) : Handshake :=
  { h with challenge := h.challenge.map Challenge.expire, state := .rejected cause }

/-- Ends the handshake because the peer or the user took too long. -/
def expire (h : Handshake) : Handshake := h.reject .timeout

/-- Checks the peer's answer. If it is right the handshake awaits the decision; otherwise it is
over. -/
def onResponse (h : Handshake) (given : Bytes) (peer : Option Fingerprint) :
    Except AuthError Unit × Handshake :=
  if h.state ≠ .challengeIssued ∨ h.verified then (.error .malformed, h.reject .malformed)
  else match h.challenge with
    | none => (.error .malformed, h.reject .malformed)
    | some c =>
      match c.verify given peer with
      | (.ok (), c) => (.ok (), { h with challenge := some c, verified := true })
      | (.error e, c) => (.error e, { h with challenge := some c }.reject e)

/-- The answer was right and the decision is still open. -/
def awaitingDecision (h : Handshake) : Bool := h.state == .challengeIssued && h.verified

def approve (h : Handshake) : Except AuthError Unit × Handshake :=
  if h.awaitingDecision then (.ok (), { h with state := .authenticated })
  else (.error .malformed, h)

end Handshake

end SharedClipboard
