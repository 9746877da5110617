import SharedClipboard.Simulation.Surroundings

/-!
# One session under a made-up clock

A session with a peer, and everything that can be done to it: the peer's steps, the passing of
time, the user's answer, the group's signal and frames in the outbox.
-/

namespace SharedClipboard.Simulation

structure SessionRun where
  surroundings : Surroundings
  link : Link
  codec : Codec

namespace SessionRun

structure Setup where
  settings : Session.Settings
  direction : Direction
  peer : Net.SocketAddress
  mine : Option Fingerprint
  theirs : Option Fingerprint
  approver : Approver
  registry : Registry
  pipeCapacity : Nat
  outboxCapacity : Nat
  /-- The challenge that the session issues. -/
  nonce : Bytes

/-- Lets everything happen that can happen at the current moment. -/
def settle (r : SessionRun) : SessionRun :=
  let (surroundings, link) := r.surroundings.runLink 0 r.codec r.link
  { r with surroundings, link }

def start (s : Setup) : SessionRun :=
  let (task, notes) :=
    SessionTask.start s.settings s.direction s.mine s.theirs s.outboxCapacity 0 s.nonce
  let w : Surroundings :=
    { registry := s.registry, approver := s.approver, addresses := [s.peer] }
  { surroundings := notes.foldl (Surroundings.hear 0) w
    link := { Link.fresh s.pipeCapacity with task := some task }
    codec := s.settings.codec : SessionRun }.settle

def atTime (r : SessionRun) (now : Time) : SessionRun :=
  { r with surroundings := { r.surroundings with now } }

/-- Lets time pass up to a moment, stopping wherever a timer is due. -/
def advanceTo (r : SessionRun) (moment : Time) : SessionRun :=
  match r.link.nextDue with
  | none => r.atTime moment
  | some due =>
    if due ≤ moment then
      let next := (r.atTime due).settle
      if _h : r.surroundings.now < next.surroundings.now ∧ next.surroundings.now ≤ moment then
        next.advanceTo moment
      else r.atTime moment
    else r.atTime moment
termination_by moment - r.surroundings.now
decreasing_by
  obtain ⟨h₁, h₂⟩ := _h
  exact Nat.sub_lt_sub_left (Nat.lt_of_lt_of_le h₁ h₂) h₁

inductive Step where
  | peer (s : PeerStep)
  /-- Several steps of the peer, with nothing happening between them. -/
  | burst (s : List PeerStep)
  | advance (ms : Nat)
  | decide (allow : Bool)
  | kick
  | queue (x : Outgoing)

inductive Told where
  | ok
  | noChallenge
  | noQuestion
  | gone
  | full
  | closed
  deriving DecidableEq, Repr, Inhabited

def withTask (r : SessionRun) (f : SessionTask → SessionTask) : SessionRun :=
  { r with link := { r.link with task := r.link.task.map f } }

def told : Link.Told → Told
  | .ok => .ok
  | .noChallenge => .noChallenge

/-- Does something, without letting anything happen yet. -/
def perform (r : SessionRun) : Step → SessionRun × Told
  | .peer s =>
    let (link, t) := r.link.tell s
    ({ r with link }, told t)
  | .burst ss => ({ r with link := ss.foldl (fun l s => (l.tell s).1) r.link }, .ok)
  | .advance ms => (r.advanceTo (r.surroundings.now + ms), .ok)
  | .decide allow =>
    match r.surroundings.decide allow [r.link] with
    | none => (r, .noQuestion)
    | some (surroundings, links) =>
      ({ r with surroundings, link := links.headD r.link }, .ok)
  | .kick =>
    match r.link.task with
    | none => (r, .gone)
    | some t =>
      if t.kickable && t.isRunning then (r.withTask SessionTask.kick, .ok) else (r, .gone)
  | .queue x =>
    match (r.link.task.map fun t => t.outbox.room).getD .closed with
    | .free => (r.withTask fun t => { t with outbox := t.outbox.push x }, .ok)
    | .full => (r, .full)
    | .closed => (r, .closed)

/-- Does something and lets everything happen that follows at once. -/
def step (r : SessionRun) (s : Step) : SessionRun × Told :=
  let (r, t) := r.perform s
  (r.settle, t)

def clearLogs (r : SessionRun) : SessionRun :=
  { r with
    surroundings := { r.surroundings with questionLog := [], reports := [] }
    link := { r.link with peer := { r.link.peer with log := [] } } }

def isRunning (r : SessionRun) : Bool := r.link.task.any SessionTask.isRunning

end SessionRun

end SharedClipboard.Simulation
