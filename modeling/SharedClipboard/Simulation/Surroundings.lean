import SharedClipboard.Auth.Registry
import SharedClipboard.Simulation.Peer

/-!
# What simulated sessions share

A clock, the registry of trusted fingerprints, the user who is asked about unknown peers, and the
reports that sessions send. `Surroundings.runLink` lets everything happen on a link that can happen
at the current moment: reader, session, writer and peer take turns until none can go on.
-/

namespace SharedClipboard.Simulation

/-- How the user answers. -/
inductive Approver where
  | accept
  | reject
  /-- Questions wait until they are answered one by one. -/
  | manual
  deriving DecidableEq, Repr, Inhabited

/-- What happened to a question. -/
inductive QuestionNote where
  | asked
  | dropped
  deriving DecidableEq, Repr, Inhabited

/-- What simulated sessions share. -/
structure Surroundings where
  now : Time := 0
  registry : Registry := {}
  approver : Approver := .accept
  /-- The address from which each link comes. -/
  addresses : List Net.SocketAddress := []
  /-- The links whose question is open, oldest question first. -/
  openQuestions : List SessionId := []
  /-- What happened to questions, newest first. -/
  questionLog : List (Time × QuestionNote × Net.SocketAddress) := []
  /-- What sessions reported, newest first. -/
  reports : List (Time × SessionId × Report) := []
  /-- The number of steps that sessions have taken. -/
  steps : Nat := 0
  deriving DecidableEq, Inhabited

namespace Surroundings

/-- The answer that the user gives at once, if so. -/
def instantAnswer (w : Surroundings) : Option Bool :=
  match w.approver with
  | .accept => some true
  | .reject => some false
  | .manual => none

def logQuestion (w : Surroundings) (id : SessionId) (n : QuestionNote) : Surroundings :=
  { w with questionLog := (w.now, n, (w.addresses[id]?).getD default) :: w.questionLog }

/-- Takes up what a session tells. -/
def hear (id : SessionId) (w : Surroundings) : SessionTask.Note → Surroundings
  | .report r => { w with reports := (w.now, id, r) :: w.reports }
  | .remembers f =>
    match w.registry.remember f with
    | .ok (registry, _) => { w with registry }
    | .error _ => w
  | .asks =>
    let w := w.logQuestion id .asked
    if w.approver = .manual then { w with openQuestions := w.openQuestions ++ [id] } else w
  | .withdraws =>
    if w.openQuestions.contains id then
      { w.logQuestion id .dropped with openQuestions := w.openQuestions.filter (· ≠ id) }
    else w

/-- Gives a task the answer to its question if the user answers at once. -/
def answerNow (w : Surroundings) (t : SessionTask) (notes : List SessionTask.Note) : SessionTask :=
  if notes.any (· matches .asks) then { t with answer := w.instantAnswer } else t

/-- Takes up what a step led to. -/
def accept (w : Surroundings) (id : SessionId) (l : Link) (m : SessionTask.Moved) :
    Surroundings × Link :=
  (m.notes.foldl (hear id) w,
    { l with connection := m.connection, task := some (w.answerNow m.task m.notes) })

inductive Part where
  | reader
  | session
  | writer
  | close
  | peerWriter
  | peerReader
  deriving DecidableEq, Repr, Inhabited

/-- The order of turns. -/
def parts : List Part := [.peerWriter, .reader, .session, .writer, .close, .peerReader]

/-- The next step of one part of a link. -/
def partStep (w : Surroundings) (id : SessionId) (codec : Codec) (l : Link) :
    Part → Option (Surroundings × Link)
  | .peerWriter => l.peerWrites.map (w, ·)
  | .peerReader => (l.peerReads w.now).map (w, ·)
  | .reader => l.task.bind fun t => (t.readStep codec l.connection).map (w.accept id l)
  | .session =>
    l.task.bind fun t => (t.driveStep 0 w.now w.registry.trusts l.connection).map fun m =>
      { w with steps := w.steps + 1 }.accept id { l with lastStep := w.steps + 1 } m
  | .writer => l.task.bind fun t => (t.writeStep l.connection).map (w.accept id l)
  | .close => l.task.bind fun t => (t.endStep w.now l.connection).map (w.accept id l)

/-- Lets one part go on until it has to wait. The flag says whether it did anything. -/
def runPart (id : SessionId) (codec : Codec) (part : Part) :
    Nat → Bool → Surroundings → Link → Bool × Surroundings × Link
  | 0, moved, w, l => (moved, w, l)
  | fuel + 1, moved, w, l =>
    match w.partStep id codec l part with
    | none => (moved, w, l)
    | some (w, l) => runPart id codec part fuel true w l

/-- Gives each part one turn. -/
def round (id : SessionId) (codec : Codec) (w : Surroundings) (l : Link) :
    Bool × Surroundings × Link :=
  parts.foldl
    (fun (moved, w, l) part =>
      let (again, w, l) := runPart id codec part l.pending false w l
      (moved || again, w, l))
    (false, w, l)

/-- Gives the parts turns until none does anything. -/
def rounds (id : SessionId) (codec : Codec) : Nat → Surroundings → Link → Surroundings × Link
  | 0, w, l => (w, l)
  | fuel + 1, w, l =>
    match round id codec w l with
    | (false, w, l) => (w, l)
    | (true, w, l) => rounds id codec fuel w l

/-- Lets everything happen on a link that can happen at the current moment. -/
def runLink (w : Surroundings) (id : SessionId) (codec : Codec) (l : Link) : Surroundings × Link :=
  rounds id codec (4 * l.pending) w l

/-- Answers the oldest open question, if there is one. -/
def decide (w : Surroundings) (allow : Bool) (links : List Link) :
    Option (Surroundings × List Link) :=
  match w.openQuestions with
  | [] => none
  | id :: rest =>
    some ({ w with openQuestions := rest },
      links.modify id fun l =>
        { l with task := l.task.map fun t => { t with answer := some allow } })

end Surroundings

end SharedClipboard.Simulation
