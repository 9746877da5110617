import SharedClipboard.Group.Outbox
import SharedClipboard.Error

/-!
# Writing a session's frames

The writer takes frames out of the session's outbox, one at a time, and writes each completely
before the next. A frame that carries a clipboard update is reported once it is written. When the
session has ended the writer drains the outbox, without reports, and then ends the stream. A
failed write ends it at once: the session is told, unless it has ended itself.

`Writer.step` is one step of it, against what the stream can take at the moment.
-/

namespace SharedClipboard

/-- What a stream can take of what it is offered. -/
inductive Intake where
  /-- At most so many bytes; none means that the writer has to wait. -/
  | upTo (n : Nat)
  | fails (e : TransportError)
  deriving DecidableEq, Repr, Inhabited

/-- The writer of a session. -/
inductive Writer where
  /-- Between two frames. -/
  | idle
  /-- `rest` of a frame is not written yet. -/
  | writing (rest : Bytes) (seq : Option Nat)
  /-- The session has ended, and the writer is between two frames. -/
  | draining
  /-- The session has ended, and `rest` of a frame is not written yet. -/
  | drainingFrame (rest : Bytes)
  /-- All is done and the stream ended. -/
  | finished
  /-- A write failed while the session went on. -/
  | failed
  deriving DecidableEq, Repr, Inhabited

namespace Writer

/-- What a step of the writer does to its surroundings. -/
structure Turn where
  writer : Writer
  outbox : Outbox
  /-- The bytes that go into the stream. -/
  written : Bytes := []
  /-- The update that is reported as written. -/
  flushed : Option Nat := none
  /-- The failure that the session is told. -/
  failure : Option TransportError := none
  /-- The stream ends. -/
  ends : Bool := false
  deriving DecidableEq, Repr, Inhabited

/-- Whether the writer has stopped for good. -/
def stopped : Writer → Bool
  | finished | failed => true
  | _ => false

/-- The end of the session is taken up between two frames. -/
def heed : Writer → Option Writer
  | idle => some draining
  | _ => none

/-- One step, or nothing if the writer has to wait. A frame that waits is taken here before the end
of the session is; `heed` is the other choice. -/
def step (w : Writer) (outbox : Outbox) (sessionEnded : Bool) (intake : Intake) : Option Turn :=
  match w with
  | idle =>
    match outbox.queue with
    | x :: xs => some { writer := .writing x.frame x.seq, outbox := { outbox with queue := xs } }
    | [] => if sessionEnded then some { writer := .draining, outbox } else none
  | writing [] seq => some { writer := .idle, outbox, flushed := seq }
  | writing (b :: bs) seq =>
    match intake with
    | .upTo 0 => none
    | .upTo n =>
      some { writer := .writing ((b :: bs).drop n) seq, outbox, written := (b :: bs).take n }
    | .fails e => some { writer := .failed, outbox := outbox.close, failure := some e }
  | draining =>
    match outbox.queue with
    | x :: xs => some { writer := .drainingFrame x.frame, outbox := { outbox with queue := xs } }
    | [] => some { writer := .finished, outbox := outbox.close, ends := true }
  | drainingFrame [] => some { writer := .draining, outbox }
  | drainingFrame (b :: bs) =>
    match intake with
    | .upTo 0 => none
    | .upTo n =>
      some { writer := .drainingFrame ((b :: bs).drop n), outbox, written := (b :: bs).take n }
    | .fails _ => some { writer := .finished, outbox := outbox.close, ends := true }
  | finished | failed => none

end Writer

end SharedClipboard
