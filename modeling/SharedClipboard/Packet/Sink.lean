import SharedClipboard.Packet.Basic

/-!
# Writing frames to a stream

A sink takes bytes up to a budget, perhaps only a few at a time, and after that fails. A frame is
written by offering what is left of it until all is taken.
-/

namespace SharedClipboard

/-- The writing side of a stream. -/
structure Sink where
  /-- How many more bytes it takes; no limit if absent. -/
  budget : Option Nat := none
  /-- The most bytes it takes in each of the next writes, at least one; no such limit after
  these. -/
  grains : List Nat := []
  /-- What it reports once the budget is used up. If absent it reports that it took no bytes. -/
  fault : Option IoError := none
  written : Bytes := []
  deriving DecidableEq, Repr, Inhabited

namespace Sink

/-- How many of `n` bytes the next write takes. -/
def takes (s : Sink) (n : Nat) : Nat :=
  let n := match s.budget with
    | none => n
    | some left => min n left
  match s.grains with
  | [] => n
  | g :: _ => min n (g + 1)

/-- The sink after it took the bytes. -/
def took (s : Sink) (b : Bytes) : Sink :=
  { s with
    budget := s.budget.map (· - b.length), grains := s.grains.tail, written := s.written ++ b }

/-- What a sink reports that takes no more. -/
def failure (s : Sink) : TransportError :=
  .ofIo (s.fault.getD (.plain .writeZero))

/-- Offers bytes until all are taken or the sink fails. -/
def writeAll (s : Sink) (b : Bytes) : Except TransportError Unit × Sink :=
  if b.isEmpty then (.ok (), s)
  else
    let n := s.takes b.length
    if 0 < n then (s.took (b.take n)).writeAll (b.drop n) else (.error s.failure, s)
termination_by b.length
decreasing_by
  rename_i h hn
  have : b ≠ [] := by simpa using h
  have := List.length_pos_iff.2 this
  simp only [List.length_drop]
  omega

/-- Sends a packet: all of its bytes, or as many as the sink takes and its failure. -/
def send (s : Sink) (p : Packet) : Except TransportError Unit × Sink := s.writeAll p.encode

/-- Sends packets in order, whatever became of the ones before. -/
def sendAll (s : Sink) : List Packet → List (Except TransportError Unit) × Sink
  | [] => ([], s)
  | p :: ps =>
    let (r, s) := s.send p
    let (rs, s) := s.sendAll ps
    (r :: rs, s)

end Sink

end SharedClipboard
