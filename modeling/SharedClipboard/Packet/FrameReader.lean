import SharedClipboard.Packet.Codec

/-!
# Reading frames from a stream

A frame is the bytes of one packet. There is no marker between frames: the tag tells how many
fields follow and each field tells its length, so a reader that takes the bytes one after another
knows when a frame is complete. `FrameReader.push` is that step. A complete frame is decoded by
the codec; a tag that announces nothing and a length above the bound are refused as soon as they
are read.
-/

namespace SharedClipboard

/-- What a receiver gets from its end of a connection. -/
inductive Received where
  | packet (p : Packet)
  /-- The stream ended between two frames. -/
  | finished
  | undecodable (e : DecodeError)
  | failed (e : TransportError)
  deriving DecidableEq, Repr, Inhabited

/-- Where a reader stands within a frame. The bytes read so far are kept in reverse. -/
inductive FrameReader where
  /-- Between two frames. -/
  | atTag
  /-- Within the length of a field, `left` fields after this one; `got` is the part of the length
  that has been read. -/
  | inLength (frame : Bytes) (left : Nat) (got : Bytes)
  /-- Within a field of which `missing + 1` bytes are still to come. -/
  | inField (frame : Bytes) (left : Nat) (missing : Nat)
  deriving DecidableEq, Repr, Inhabited

namespace FrameReader

/-- What a byte leads to. -/
inductive Progress where
  /-- The frame needs more bytes. -/
  | more (r : FrameReader)
  /-- The frame is complete, or refused. -/
  | done (r : Received)
  deriving DecidableEq, Repr, Inhabited

/-- What a decoded frame gives its receiver. -/
def received : Except DecodeError Packet → Received
  | .ok p => .packet p
  | .error e => .undecodable e

/-- The reader after a field: at the next one, or done. -/
def nextField (c : Codec) (frame : Bytes) : Nat → Progress
  | 0 => .done (received (c.decode frame.reverse))
  | left + 1 => .more (.inLength frame left [])

def push (c : Codec) (r : FrameReader) (b : UInt8) : Progress :=
  match r with
  | atTag =>
    match PacketType.ofTag b with
    | .error e => .done (.undecodable e)
    | .ok t => nextField c [b] t.fieldCount
  | inLength frame left [x, y, z] =>
    let declared := Bytes.toLength x y z b
    let frame := b :: frame
    -- A length above the bound is refused before any byte of the field.
    match c.checkLength declared with
    | .error e => .done (.undecodable e)
    | .ok () =>
      match declared with
      | 0 => nextField c frame left
      | missing + 1 => .more (.inField frame left missing)
  | inLength frame left got => .more (.inLength (b :: frame) left (got ++ [b]))
  | inField frame left 0 => nextField c (b :: frame) left
  | inField frame left (missing + 1) => .more (.inField (b :: frame) left missing)

/-- What the end of the stream means where the reader stands: within a frame it is a lost
connection. -/
def atEnd : FrameReader → Received
  | atTag => .finished
  | _ => .failed .closed

/-- The bytes of the frame that is not complete yet. -/
def unfinished : FrameReader → Bytes
  | atTag => []
  | inLength frame _ _ => frame.reverse
  | inField frame _ _ => frame.reverse

/-- Takes bytes until a frame is complete; gives back the rest of them. -/
def feed (c : Codec) (r : FrameReader) : Bytes → Progress × Bytes
  | [] => (.more r, [])
  | b :: rest =>
    match r.push c b with
    | .more r => r.feed c rest
    | .done got => (.done got, rest)

end FrameReader

/-- How a stream of chunks ends: cleanly, or with a failure. -/
abbrev StreamEnd := Option IoError

/-- What a stream's end gives a reader that waits for more bytes. -/
def FrameReader.stopped (r : FrameReader) : StreamEnd → Received
  | none => r.atEnd
  | some e => .failed (.ofIo e)

/-- Receives once from a stream that hands out its chunks one at a time; gives back the chunks
that are left. A chunk may hold part of a frame or several frames. -/
def receive (c : Codec) (end? : StreamEnd) : FrameReader → List Bytes → Received × List Bytes
  | r, [] => (r.stopped end?, [])
  | r, chunk :: chunks =>
    match r.feed c chunk with
    | (.more r, _) => receive c end? r chunks
    | (.done got, rest) => (got, rest :: chunks)

/-- Receives until the stream ends or a packet cannot be decoded, at most `n` times; with
`keepOn` only the stream's end stops it. -/
def receiveAll (c : Codec) (end? : StreamEnd) (keepOn : Bool) : Nat → List Bytes → List Received
  | 0, _ => []
  | n + 1, chunks =>
    match receive c end? .atTag chunks with
    | (.packet p, rest) => .packet p :: receiveAll c end? keepOn n rest
    | (.finished, _) => [.finished]
    | (got, rest) => got :: (if keepOn then receiveAll c end? keepOn n rest else [])

end SharedClipboard
