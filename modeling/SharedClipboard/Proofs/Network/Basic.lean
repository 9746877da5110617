import SharedClipboard.Proofs.Group.History
import SharedClipboard.Proofs.Group.Recipients
import SharedClipboard.Proofs.Packet.RoundTrip
import Mathlib.Combinatorics.SimpleGraph.Basic

/-!
# Networks of nodes

Nodes whose groups have sessions with each other. A `Wiring` says which session of a node is its
connection with which other node. Each direction of a connection is a `Line`: the frames that wait
in the outbox of the sender, the frames that are written and not yet read, and the updates that are
written and not yet reported to the group of the sender.

A `Step` of the network is a content that a user publishes, a frame that is written, a frame that
is read and taken up, or a report that the group handles. The outboxes never fill, the lines lose
nothing and keep the order, and apart from that the steps come in any order.
-/

namespace SharedClipboard

variable {N : Type}

/-- Which session of a node is its connection with another node. -/
structure Wiring (N : Type) where
  session : N → N → Option SessionId
  bothWays : ∀ u v, (session u v).isSome = (session v u).isSome
  loopless : ∀ u, session u u = none
  distinct : ∀ u v v' id, session u v = some id → session u v' = some id → v = v'

/-- The nodes that are connected with each other. -/
def Wiring.graph (w : Wiring N) : SimpleGraph N where
  Adj u v := (w.session u v).isSome
  symm := ⟨fun u v h => (w.bothWays v u).trans h⟩
  loopless := ⟨fun u h => by simp [w.loopless u] at h⟩

/-- One direction of a connection between two nodes. -/
structure Line where
  /-- The frames that wait to be written. -/
  outbox : List Outgoing := []
  /-- The frames that are written and not yet read. -/
  wire : List Bytes := []
  /-- The updates that are written, of which the group of the sender does not know yet. -/
  reports : List Nat := []
  deriving DecidableEq, Repr, Inhabited

namespace Line

/-- Nothing waits, nothing is on the way, and everything is reported. -/
def Empty (l : Line) : Prop := l = {}

def queue (l : Line) (xs : List Outgoing) : Line := { l with outbox := l.outbox ++ xs }

/-- The first frame that waits is written. -/
def written (l : Line) (x : Outgoing) : Line :=
  { outbox := l.outbox.tail, wire := l.wire ++ [x.frame], reports := l.reports ++ x.seq.toList }

/-- The first frame on the wire is read. -/
def read (l : Line) : Line := { l with wire := l.wire.tail }

/-- The first report is handled. -/
def reported (l : Line) : Line := { l with reports := l.reports.tail }

end Line

/-- The groups of the nodes and the lines between them. -/
structure Network (N : Type) where
  group : N → Group
  line : N → N → Line

/-- What can happen in a network. -/
inductive Move (N : Type) where
  | publish (u : N) (mime : String) (data : Bytes)
  /-- The writer of `u` writes a frame for `v`. -/
  | write (u v : N)
  /-- `v` reads a frame of `u`, and its group takes it up. -/
  | deliver (u v : N)
  /-- The group of `u` is told that a frame for `v` is written. -/
  | report (u v : N)
  deriving DecidableEq, Repr

/-- A user publishes something. -/
def Move.isPublish : Move N → Bool
  | .publish _ _ _ => true
  | _ => false

namespace Network

/-- Something that happened in a network and what it led to. -/
structure Turn (N : Type) where
  move : Move N
  network : Network N
  effects : List Group.Effect := []
  /-- What became of the update, if one was delivered. -/
  outcome : Option Group.UpdateOutcome := none
  /-- The number of the update, if one was published. -/
  published : Option Nat := none

/-- The frames that effects put into the outbox of a session, if there is one. -/
def framesFor (id? : Option SessionId) (es : List Group.Effect) : List Outgoing :=
  match id? with
  | some id => es.filterMap (Group.Effect.frameFor? id)
  | none => []

/-- The number of frames that were sent. -/
def Turn.sent (t : Turn N) : Nat := t.effects.countP Group.Effect.isDelivery

/-- The number of frames that were sent during some turns. -/
def sentDuring : List (Turn N) → Nat
  | [] => 0
  | t :: ts => t.sent + sentDuring ts

theorem sentDuring_snoc (ts : List (Turn N)) (t : Turn N) :
    sentDuring (ts ++ [t]) = sentDuring ts + t.sent := by
  induction ts with
  | nil => simp [sentDuring]
  | cons t' ts ih =>
    rw [List.cons_append, sentDuring, sentDuring, ih, Nat.add_assoc]

variable [DecidableEq N]

/-- The node takes up what a change of its group leads to. -/
def settle {α : Type} (n : Network N) (w : Wiring N) (u : N) (o : Group.Outcome α) : Network N where
  group := Function.update n.group u o.group
  line := Function.update n.line u fun v =>
    (n.line u v).queue (framesFor (w.session u v) o.effects)

/-- Changes the line from one node to another. -/
def onLine (n : Network N) (u v : N) (f : Line → Line) : Network N :=
  { n with line := Function.update n.line u (Function.update (n.line u) v (f (n.line u v))) }

def afterPublish (n : Network N) (w : Wiring N) (u : N) (mime : String) (data : Bytes) : Turn N :=
  let o := (n.group u).publishLocal (fun _ => .free) mime data
  { move := .publish u mime data, network := n.settle w u o, effects := o.effects
    published := o.answer }

def afterWrite (n : Network N) (u v : N) (x : Outgoing) : Turn N :=
  { move := .write u v, network := n.onLine u v (·.written x) }

def afterDelivery (n : Network N) (w : Wiring N) (u v : N) (id : SessionId) (mime : String)
    (data : Bytes) : Turn N :=
  let o := (n.group v).acceptUpdate (fun _ => .free) id mime data
  { move := .deliver u v, network := (n.onLine u v Line.read).settle w v o, effects := o.effects
    outcome := some o.answer }

def afterReport (n : Network N) (u v : N) (id : SessionId) (seq : Nat) : Turn N :=
  let n' := n.onLine u v Line.reported
  { move := .report u v
    network := { n' with group := Function.update n.group u ((n.group u).flushed id seq) } }

/-- What can happen in a network. A content that is refused is not published, and every frame is
decoded by the node that reads it. -/
inductive Step (w : Wiring N) (c : Codec) (n : Network N) : Turn N → Prop where
  | publish (u : N) {mime : String} {data : Bytes} : c.checkContent mime data = .ok () →
      Step w c n (n.afterPublish w u mime data)
  | write {u v : N} {x : Outgoing} : (n.line u v).outbox.head? = some x →
      Step w c n (n.afterWrite u v x)
  | deliver {u v : N} {id : SessionId} {frame : Bytes} {mime : String} {data : Bytes} :
      w.session v u = some id → (n.line u v).wire.head? = some frame →
      c.decode frame = .ok (.syncRequest mime data) →
      Step w c n (n.afterDelivery w u v id mime data)
  | report {u v : N} {id : SessionId} {seq : Nat} : w.session u v = some id →
      (n.line u v).reports.head? = some seq → Step w c n (n.afterReport u v id seq)

/-- What happens in a network step after step, from the first state to the last. -/
inductive Run (w : Wiring N) (c : Codec) (first : Network N) :
    List (Turn N) → Network N → Prop where
  | start : Run w c first [] first
  | turn {ts : List (Turn N)} {n : Network N} {t : Turn N} : Run w c first ts n → Step w c n t →
      Run w c first (ts ++ [t]) t.network

/-- The members of every node are its sessions with the nodes that it is connected with. -/
def Joined (w : Wiring N) (n : Network N) : Prop :=
  ∀ u id, (∃ k, (n.group u).memberSession? k = some id) ↔ ∃ v, w.session u v = some id

/-- No frame waits or is on the way, and every group knows that all its frames are written. -/
structure Quiet (w : Wiring N) (n : Network N) : Prop where
  lines : ∀ u v, (n.line u v).Empty
  settled : ∀ u v id e, w.session u v = some id → (n.group u).sessions.get? id = some e →
    e.inFlight = none

/-! ## Steps and runs -/

variable {w : Wiring N} {c : Codec} {n first last : Network N}

/-- Only publishing makes a content get a number. -/
theorem Step.of_published {t : Turn N} (hs : Step w c n t) (h : t.published ≠ none) :
    ∃ u mime data, c.checkContent mime data = .ok () ∧ t = n.afterPublish w u mime data := by
  cases hs with
  | publish u hok => exact ⟨u, _, _, hok, rfl⟩
  | write _ => exact absurd rfl h
  | deliver _ _ _ => exact absurd rfl h
  | report _ _ => exact absurd rfl h

theorem Run.eq_of_nil (h : Run w c first [] n) : n = first := by
  generalize hts : ([] : List (Turn N)) = ts at h
  cases h with
  | start => rfl
  | turn _ _ => simp at hts

/-- A run is a step and the run after it. -/
theorem Run.split {ts : List (Turn N)} {t : Turn N} (h : Run w c first (t :: ts) last) :
    Step w c first t ∧ Run w c t.network ts last := by
  -- Runs grow at their end, so the first turn is reached by going back to the start.
  generalize hts : t :: ts = ts' at h
  induction h generalizing ts with
  | start => cases hts
  | @turn before n t' hrun hs ih =>
    cases before with
    | nil =>
      have hn : n = first := hrun.eq_of_nil
      subst hn
      cases hts
      exact ⟨hs, .start⟩
    | cons t'' before =>
      cases hts
      obtain ⟨hfirst, hrest⟩ := ih rfl
      exact ⟨hfirst, hrest.turn hs⟩

end Network

end SharedClipboard
