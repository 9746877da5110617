import SharedClipboard.Bytes
import SharedClipboard.IoError

/-!
# Pipes

One direction of a connection: bytes that were written and not yet read, of which there can only
be so many. When the writing side is closed the reader gets what is left and then the end; when
the reading side is closed writing fails.
-/

namespace SharedClipboard

/-- One direction of a connection. -/
structure Pipe where
  capacity : Nat
  buffer : Bytes := []
  writerClosed : Bool := false
  readerClosed : Bool := false
  deriving DecidableEq, Repr, Inhabited

namespace Pipe

def free (p : Pipe) : Nat := p.capacity - p.buffer.length

/-- Writes as many bytes as there is room for, and gives back the others. -/
def write (p : Pipe) (b : Bytes) : Pipe × Bytes :=
  ({ p with buffer := p.buffer ++ b.take p.free }, b.drop p.free)

/-- Nothing more is written. -/
def closeWriter (p : Pipe) : Pipe := { p with writerClosed := true }

/-- Nothing more is read. -/
def closeReader (p : Pipe) : Pipe := { p with readerClosed := true }

/-- Whether the reader has read everything and nothing more comes. -/
def atEnd (p : Pipe) : Bool := p.writerClosed && p.buffer.isEmpty

end Pipe

end SharedClipboard
