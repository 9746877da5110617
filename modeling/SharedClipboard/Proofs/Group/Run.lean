import SharedClipboard.Proofs.Group.Operation
import SharedClipboard.Simulation.GroupRun

/-!
# Runs of a group with its outboxes

A run is a list of steps: sessions are taken up with an outbox of their own, the operations of the
group are done with the room that the outboxes have at the moment, sessions put packets of their own
into their outboxes, writers take frames out, and outboxes are closed. `GroupRun.after` is the state
at the end and `GroupRun.turns` everything that the steps led to, in order.
-/

namespace SharedClipboard.Simulation.GroupRun

/-- One thing that happens to a group with its outboxes. -/
inductive Step where
  | attach (id : SessionId) (e : SessionEntry) (capacity : Nat)
  | operation (op : Group.Operation)
  /-- A session puts a packet of its own into its outbox. -/
  | queue (id : SessionId) (x : Outgoing)
  /-- A writer takes frames out. -/
  | take (id : SessionId) (n : Nat)
  | closeOutbox (id : SessionId)
  deriving DecidableEq, Repr, Inhabited

/-- What a step leads to. -/
structure Turn where
  run : GroupRun
  effects : List Group.Effect := []
  answer : Group.Answer := .done

def turn (r : GroupRun) : Step → Turn
  | .attach id e capacity => { run := r.attach id e capacity }
  | .operation op =>
    let o := r.group.perform r.room op
    { run := (r.settle o).run, effects := o.effects, answer := o.answer }
  | .queue id x => { run := { r with outboxes := r.outboxes.push id x } }
  | .take id n => { run := (r.take id (some n)).2 }
  | .closeOutbox id => { run := r.closeOutbox id }

theorem group_take (r : GroupRun) (j : SessionId) (n : Option Nat) :
    (r.take j n).2.group = r.group := by
  unfold GroupRun.take
  split
  · split <;> rfl
  · rfl

def after (r : GroupRun) : List Step → GroupRun
  | [] => r
  | s :: ss => (r.turn s).run.after ss

/-- The steps with what each of them led to. -/
def turns (r : GroupRun) : List Step → List (Step × Turn)
  | [] => []
  | s :: ss => (s, r.turn s) :: (r.turn s).run.turns ss

/-- What is announced during some turns. -/
def announced (ts : List (Step × Turn)) : List Event :=
  ts.flatMap fun t => t.2.effects.filterMap Group.Effect.event?

end SharedClipboard.Simulation.GroupRun
