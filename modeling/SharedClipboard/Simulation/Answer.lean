import SharedClipboard.Auth.Challenge

/-!
# Made-up answers to a challenge

What a peer in a simulation answers to a challenge: fixed bytes, the challenge itself, or the
right answer for a fingerprint with some damage done to it.
-/

namespace SharedClipboard.Simulation

/-- What to answer to a challenge. -/
inductive Answer where
  | literal (b : Bytes)
  | echo
  /-- The right answer for a fingerprint, with bits flipped at some places, cut to a length, and
  extended, in this order. -/
  | derived (fingerprint : Option Fingerprint) (flips : List (Nat × UInt8)) (cut : Option Nat)
      (extension : Bytes)
  deriving DecidableEq, Repr, Inhabited

namespace Answer

def flip (b : Bytes) (place : Nat × UInt8) : Bytes := b.modify place.1 (· ^^^ place.2)

/-- The bytes that are answered to a challenge. -/
def bytes (nonce : Bytes) : Answer → Bytes
  | literal b => b
  | echo => nonce
  | derived fingerprint flips cut extension =>
    let b := flips.foldl flip (Challenge.answer nonce fingerprint)
    (match cut with
      | some n => b.take n
      | none => b) ++ extension

end Answer

end SharedClipboard.Simulation
