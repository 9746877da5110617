import SharedClipboard.Session.Basic
import SharedClipboard.Session.Writer
import SharedClipboard.Stream.Pipe

/-!
# A running session

A session with what it needs to run: a reader that turns bytes into packets and puts them into a
short buffer, the session itself, and a writer. The three take turns; each has a step that does
the next thing it can do, or nothing if it has to wait. Where one of them waits for several things
and more than one has come, it may go on with any of them (`ready`, `heedStep`).

When the session ends its reader is dropped and its writer gets a second to drain the outbox.
After that the connection is dropped and the end is reported.
-/

namespace SharedClipboard

/-- The connection as a session sees it: the two directions, and the failures with which reading
and writing answer from now on. -/
structure Connection where
  incoming : Pipe
  outgoing : Pipe
  readFault : Option IoError := none
  writeFault : Option IoError := none
  deriving DecidableEq, Repr, Inhabited

/-- What a running session tells its node. -/
inductive Report where
  | authenticated
  | update (mime : String) (data : Bytes)
  | flushed (seq : Nat)
  | closed (reason : CloseReason)
  deriving DecidableEq, Repr, Inhabited

namespace SessionTask

/-- How many packets wait for the session before the reader has to. -/
def inboundCapacity : Nat := 16

/-- How long the writer may drain the outbox of a session that ended. -/
def drainTime : Nat := 1000

/-- How far a session is. -/
inductive Stage where
  | running (s : Session)
  /-- The session ended; its writer may go on until `limit`. -/
  | draining (reason : CloseReason) (limit : Time)
  | ended
  deriving DecidableEq, Repr, Inhabited

/-- What a step of a running session tells its surroundings. -/
inductive Note where
  | report (r : Report)
  | asks
  /-- A question that is open is of no interest any more. -/
  | withdraws
  | remembers (f : Fingerprint)
  deriving DecidableEq, Repr, Inhabited

end SessionTask

/-- A running session. -/
structure SessionTask where
  stage : SessionTask.Stage
  outbox : Outbox
  reader : FrameReader := .atTag
  readerRuns : Bool := true
  /-- What the reader has read and cannot hand over yet. -/
  held : Option Received := none
  inbound : List Received := []
  writer : Writer := .idle
  /-- A failed write of which the session has not been told. -/
  writeFailure : Option TransportError := none
  /-- The group wants the session to end. -/
  kicked : Bool := false
  /-- The group has not used its one signal yet. -/
  kickable : Bool := true
  /-- The user's answer. -/
  answer : Option Bool := none
  deriving DecidableEq, Repr, Inhabited

namespace SessionTask

structure Moved where
  task : SessionTask
  connection : Connection
  notes : List Note := []

/-- Hands over what was read, if there is room in the buffer. After anything but a packet the
reader is done. -/
def handOver (t : SessionTask) (got : Received) : SessionTask :=
  if t.inbound.length < inboundCapacity then
    { t with
      inbound := t.inbound ++ [got], held := none
      readerRuns := match got with
        | .packet _ => t.readerRuns
        | _ => false }
  else { t with held := some got }

def readStep (codec : Codec) (t : SessionTask) (c : Connection) : Option Moved :=
  if !t.readerRuns then none
  else match t.held with
    -- Nothing more is read while something waits for room.
    | some got =>
      if t.inbound.length < inboundCapacity then some { task := t.handOver got, connection := c }
      else none
    | none =>
      match c.readFault with
      | some e => some { task := t.handOver (.failed (.ofIo e)), connection := c }
      | none =>
        if c.incoming.buffer.isEmpty then
          if c.incoming.writerClosed then
            some { task := t.handOver t.reader.atEnd, connection := c }
          else none
        else
          match t.reader.feed codec c.incoming.buffer with
          | (.more r, rest) =>
            some { task := { t with reader := r }
                   connection := { c with incoming := { c.incoming with buffer := rest } } }
          | (.done got, rest) =>
            some { task := { t with reader := .atTag }.handOver got
                   connection := { c with incoming := { c.incoming with buffer := rest } } }

/-- What has come up for the session, each with the task that has given it to the session. The
session takes any of these next. -/
def ready (now : Time) (t : SessionTask) (s : Session) : List (Session.Input × SessionTask) :=
  (if t.kicked then [(.kicked, t)] else []) ++
  (t.writeFailure.toList.map fun e => (.writeFailed e, { t with writeFailure := none })) ++
  (match t.inbound with
    | got :: rest => [(.received got, { t with inbound := rest })]
    | [] => []) ++
  (match s.decisionDue, t.answer with
    | some _, some allow => [(.decided allow, { t with answer := none })]
    | _, _ => []) ++
  (s.dueTimers now).map fun timer => (.timer timer, t)

def act (t : SessionTask) : Session.Action → SessionTask × List Note
  | .send p => ({ t with outbox := t.outbox.push (.control p) }, [])
  | .ask => (t, [.asks])
  | .remember f => (t, [.remembers f])
  | .authenticated => (t, [.report .authenticated])
  | .update mime data => (t, [.report (.update mime data)])

def actAll (t : SessionTask) : List Session.Action → SessionTask × List Note
  | [] => (t, [])
  | a :: as =>
    let (t, ns) := t.act a
    let (t, ms) := t.actAll as
    (t, ns ++ ms)

/-- Carries out what a step of the session led to. `asking` says whether a question is open. -/
def settleTurn (now : Time) (t : SessionTask) (asking : Bool) (turn : Session.Turn) :
    SessionTask × List Note :=
  let (t, notes) := t.actAll turn.actions
  match turn.next with
  | .ok s => ({ t with stage := .running s }, notes)
  -- The end is reported only when the writer is done, or its time is up.
  | .error reason =>
    ({ t with stage := .draining reason (now + drainTime), readerRuns := false, held := none },
      notes ++ if asking then [.withdraws] else [])

/-- A next step of the session: it takes the `n`th of what is ready. -/
def driveStep (n : Nat) (now : Time) (trusts : Fingerprint → Bool) (t : SessionTask)
    (c : Connection) : Option Moved :=
  match t.stage with
  | .running s =>
    (t.ready now s)[n]?.map fun (input, t) =>
      let asking := s.decisionDue.isSome && !(input matches .decided _)
      let (task, notes) := t.settleTurn now asking (s.step ⟨now, t.outbox.room, trusts⟩ input)
      { task, connection := c, notes }
  | _ => none

/-- What the stream takes of what the writer offers. -/
def intake (c : Connection) : Intake :=
  match c.writeFault with
  | some e => .fails (.ofIo e)
  | none => if c.outgoing.readerClosed then .fails .closed else .upTo c.outgoing.free

def writeStep (t : SessionTask) (c : Connection) : Option Moved :=
  let ended := match t.stage with
    | .running _ => false
    | _ => true
  if t.stage = .ended then none
  else
    (t.writer.step t.outbox ended (intake c)).map fun r =>
      let outgoing := (c.outgoing.write r.written).1
      { task := { t with writer := r.writer, outbox := r.outbox
                         writeFailure := r.failure.or t.writeFailure }
        connection := { c with outgoing := if r.ends then outgoing.closeWriter else outgoing }
        notes := r.flushed.toList.map fun seq => .report (.flushed seq) }

/-- The writer takes up the end of the session, also while frames wait. -/
def heedStep (t : SessionTask) (c : Connection) : Option Moved :=
  match t.stage with
  | .draining _ _ => t.writer.heed.map fun w => { task := { t with writer := w }, connection := c }
  | _ => none

/-- The connection when nobody on this side holds it any more. -/
def dropped (c : Connection) : Connection :=
  { c with incoming := c.incoming.closeReader, outgoing := c.outgoing.closeWriter }

/-- Reports the end once the writer has stopped or its time is up. -/
def endStep (now : Time) (t : SessionTask) (c : Connection) : Option Moved :=
  match t.stage with
  | .draining reason limit =>
    if t.writer.stopped ∨ limit ≤ now then
      some { task := { t with stage := .ended, outbox := t.outbox.close }
             connection := dropped c
             notes := [.report (.closed reason)] }
    else none
  | _ => none

/-- When the task has something to do although nothing happens to it. -/
def nextDue (t : SessionTask) : Option Time :=
  match t.stage with
  | .running s => s.nextDue
  | .draining _ limit => some limit
  | .ended => none

def isRunning (t : SessionTask) : Bool :=
  match t.stage with
  | .ended => false
  | _ => true

/-- Uses the one signal by which the group ends a session. -/
def kick (t : SessionTask) : SessionTask :=
  if t.kickable && t.isRunning then { t with kicked := true, kickable := false } else t

/-- Starts a session on a connection: the challenge with the given number is queued. -/
def start (settings : Session.Settings) (direction : Direction) (mine peer : Option Fingerprint)
    (outboxCapacity : Nat) (now : Time) (nonce : Bytes) : SessionTask × List Note :=
  let s := Session.fresh settings direction mine peer now
  let t : SessionTask := { stage := .running s, outbox := { capacity := outboxCapacity } }
  t.settleTurn now false (s.start ⟨now, t.outbox.room, fun _ => false⟩ nonce)

end SessionTask

end SharedClipboard
