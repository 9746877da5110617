import SharedClipboard.Auth.Registry
import SharedClipboard.Net.Wire
import SharedClipboard.Proofs.Node.Handle
import SharedClipboard.Proofs.Play
import SharedClipboard.Proofs.Session.Parts

/-!
# A node with its sessions

A `Station` is a node with all that runs around it: the commands that it was given and has not
handled yet, its connections with the sessions on them, the dials that are out, and the registry of
trusted fingerprints.

What can happen to it is a `Station.Happening`: a connection opens, discovery reports something, the
user publishes a content, the node handles the oldest command, a part of a session makes a step, the
user answers a question, or a peer does something to its connection. The commands are handled in the
order in which they were given; apart from that things happen in any order, and what the peers do is
arbitrary. `Station.Step` says what comes of it (`Station.next?` computes it), and `Station.Run`
relates what happened so far to the station afterwards. A node that is driven under a made-up clock
(`Simulation.NodeRun`) does nothing that a station cannot do; `Proofs/Node/Driven.lean` proves it.

`line_next`, `queue_next`, `dials_next`, `registry_next` and `node_next` say what one step can do to
each part of a station; the proofs about stations read the steps through them.
-/

namespace SharedClipboard

namespace Station

/-- How a connection came about. -/
inductive Opening where
  /-- A peer opened it. -/
  | accepted
  /-- The user named the device. -/
  | asked (d : Device)
  /-- The device was dialed because discovery reported it. -/
  | dialed (d : Device)
  deriving DecidableEq, Repr, Inhabited

/-- A connection of a node, with the session on it once the node has taken it up. -/
structure Line where
  wire : Wire
  opening : Opening
  connection : Connection
  task : Option SessionTask := none
  deriving DecidableEq, Repr, Inhabited

/-- The parts of a session. What they do next is settled but for two choices: the session takes any
of what is ready for it, and the writer may take up the end of the session while frames wait. -/
inductive Part where
  | reader
  | session (n : Nat)
  | writer
  | heed
  | close
  deriving DecidableEq, Repr, Inhabited

/-- What can happen to a node and what is around it. -/
inductive Happening where
  /-- A connection opens. -/
  | opens (id : SessionId) (w : Wire) (conn : Connection) (how : Opening)
  /-- A device that was dialed could not be reached. -/
  | dialFails (d : Device) (e : ConnectError)
  | discovers (e : DiscoveryEvent)
  /-- The user publishes a content. -/
  | publishes (mime : String) (data : Bytes)
  /-- The node handles the oldest command. A session that is started on the occasion issues a
  challenge with the given number. -/
  | handles (nonce : Bytes)
  /-- A part of a session makes a step. -/
  | moves (id : SessionId) (part : Part)
  /-- The user answers whether a peer may join. -/
  | answers (id : SessionId) (allow : Bool)
  /-- The peer, or what is between it and the node, does something to the connection. -/
  | changes (id : SessionId) (conn : Connection)
  | passes (ms : Nat)
  /-- The node is told to stop, and will end its sessions in this order. -/
  | stops (order : List SessionId)
  deriving DecidableEq, Repr, Inhabited

end Station

/-- A node with its sessions. -/
structure Station where
  config : Config
  node : Node
  registry : Registry
  now : Time := 0
  /-- What the node was told and has not handled yet, oldest first. -/
  queue : List Node.Command := []
  lines : Table SessionId Station.Line := .empty
  /-- The devices that are being dialed because they were discovered. -/
  dials : List Device := []
  /-- The node has handled the command to stop, and handles no other. -/
  stopped : Bool := false
  deriving DecidableEq, Inhabited

namespace Station

/-- A station whose node has just started on a port of a machine. -/
def start (c : Config) (me : LocalIdentity) (port : UInt16) (machine : List Net.IpAddress)
    (registry : Registry) : Except Error Station := do
  let node ← Node.start c me (.ok port)
  return { config := c, node := { node with machine }, registry }

def room (s : Station) (id : SessionId) : Room :=
  match (s.lines.get? id).bind (·.task) with
  | some t => t.outbox.room
  | none => .closed

/-! ## What comes of a happening -/

/-- Gives the node a command. -/
def tell (s : Station) (c : Node.Command) : Station := { s with queue := s.queue ++ [c] }

/-- What the node is told about a connection. -/
def arrival (id : SessionId) (w : Wire) : Node.Arrival := ⟨id, w.peer, w.theirs⟩

/-- The device that was dialed because discovery reported it. -/
def Opening.dialed? : Opening → Option Device
  | .dialed d => some d
  | .accepted | .asked _ => none

/-- The command by which the node is told about a connection. -/
def Opening.command (a : Node.Arrival) : Opening → Node.Command
  | .accepted => .accepted a
  | .asked d | .dialed d => .connected a d

/-- Changes the task on a line. -/
def Line.onTask (l : Line) (f : SessionTask → SessionTask) : Line := { l with task := l.task.map f }

/-- The session whose line an effect is about. -/
def session? : Node.Effect → Option SessionId
  | .group (.deliver id _) | .group (.kick id) | .start id _ => some id
  | .group (.announce _) | .dial _ _ => none

/-- Does to a line what the node asks for. -/
def Line.take (c : Config) (now : Time) (nonce : Bytes) (l : Line) : Node.Effect → Line
  | .group (.deliver _ x) => l.onTask fun t => { t with outbox := t.outbox.push x }
  | .group (.kick _) => l.onTask SessionTask.kick
  | .start _ direction =>
    { l with task := some (SessionTask.start c.sessionSettings direction l.wire.mine
        l.wire.theirs c.outboxCapacity now nonce).1 }
  | .group (.announce _) | .dial _ _ => l

/-- Does what the node asks for to the line that it is about. -/
def serve (c : Config) (now : Time) (nonce : Bytes) (lines : Table SessionId Line)
    (e : Node.Effect) : Table SessionId Line :=
  match session? e with
  | some id => lines.modify id (·.take c now nonce e)
  | none => lines

/-- The device that the node asks to be dialed. -/
def dial? : Node.Effect → Option Device
  | .dial d _ => some d
  | _ => none

/-- The node handles a command. -/
def handle (s : Station) (nonce : Bytes) (c : Node.Command) (rest : List Node.Command) : Station :=
  let t := s.node.handle s.room c
  { s with
    node := t.node
    queue := rest
    lines := t.effects.foldl (serve s.config s.now nonce) s.lines
    dials := if c.isShutdown then [] else s.dials ++ t.effects.filterMap dial?
    stopped := c.isShutdown }

/-- The next step of a part of the session on a line. -/
def Line.move? (l : Line) (c : Config) (now : Time) (trusts : Fingerprint → Bool) (part : Part) :
    Option SessionTask.Moved :=
  l.task.bind fun t =>
    match part with
    | .reader => t.readStep c.codec l.connection
    | .session n => t.driveStep n now trusts l.connection
    | .writer => t.writeStep l.connection
    | .heed => t.heedStep l.connection
    | .close => t.endStep now l.connection

/-- What the node is told of what a session tells. -/
def report? (id : SessionId) : SessionTask.Note → Option Node.Command
  | .report r => some (.report id r)
  | _ => none

/-- What the registry learns from what a session tells. -/
def learn (r : Registry) : SessionTask.Note → Registry
  | .remembers f =>
    match r.remember f with
    | .ok (r, _) => r
    | .error _ => r
  | _ => r

/-- A part of a session has made a step. -/
def moved (s : Station) (id : SessionId) (l : Line) (m : SessionTask.Moved) : Station :=
  { s with
    lines := s.lines.put id { l with task := some m.task, connection := m.connection }
    queue := s.queue ++ m.notes.filterMap (report? id)
    registry := m.notes.foldl learn s.registry }

/-- The task waits for the answer of the user. -/
def isAsking (t : SessionTask) : Bool :=
  match t.stage with
  | .running s => s.decisionDue.isSome
  | _ => false

/-- A connection has opened. -/
def opened (s : Station) (id : SessionId) (w : Wire) (conn : Connection) (how : Opening) :
    Station :=
  { s.tell (how.command (arrival id w)) with
    lines := s.lines.put id { wire := w, opening := how, connection := conn }
    dials := match how.dialed? with
      | some d => s.dials.erase d
      | none => s.dials }

/-- What can happen to a station. A connection bears a number that no other has, and of the devices
that are being dialed one is reached or not; a content that is refused goes nowhere. -/
inductive Step (s : Station) : Happening → Station → Prop where
  | opens {id : SessionId} (w : Wire) (conn : Connection) {how : Opening} :
      s.lines.get? id = none → (∀ d ∈ how.dialed?, d ∈ s.dials) →
      Step s (.opens id w conn how) (s.opened id w conn how)
  | dialFails {d : Device} (e : ConnectError) : d ∈ s.dials →
      Step s (.dialFails d e) { s.tell (.dialFailed d e) with dials := s.dials.erase d }
  | discovers (e : DiscoveryEvent) : Step s (.discovers e) (s.tell (.discovery e))
  | publishes {mime : String} {data : Bytes} : s.config.codec.checkContent mime data = .ok () →
      Step s (.publishes mime data) (s.tell (.publish mime data))
  | refuses {mime : String} {data : Bytes} {e : Error} :
      s.config.codec.checkContent mime data = .error e → Step s (.publishes mime data) s
  | handles (nonce : Bytes) {c : Node.Command} {rest : List Node.Command} : s.stopped = false →
      s.queue = c :: rest → Step s (.handles nonce) (s.handle nonce c rest)
  | moves {id : SessionId} {part : Part} {l : Line} {m : SessionTask.Moved} :
      s.lines.get? id = some l → l.move? s.config s.now s.registry.trusts part = some m →
      Step s (.moves id part) (s.moved id l m)
  | answers {id : SessionId} (allow : Bool) {l : Line} : s.lines.get? id = some l →
      l.task.any isAsking = true →
      Step s (.answers id allow)
        { s with lines := s.lines.put id (l.onTask fun t => { t with answer := some allow }) }
  | changes {id : SessionId} (conn : Connection) {l : Line} : s.lines.get? id = some l →
      Step s (.changes id conn) { s with lines := s.lines.put id { l with connection := conn } }
  | passes (ms : Nat) : Step s (.passes ms) { s with now := s.now + ms }
  | stops (order : List SessionId) : Step s (.stops order) (s.tell (.shutdown order))

/-- What happened to a station so far, and the station afterwards. -/
inductive Run (first : Station) : List Happening → Station → Prop where
  | start : Run first [] first
  | step {hs : List Happening} {s s' : Station} {h : Happening} : Run first hs s → Step s h s' →
      Run first (hs ++ [h]) s'

theorem start_spec {c : Config} {me : LocalIdentity} {port : UInt16}
    {machine : List Net.IpAddress} {registry : Registry} {s : Station}
    (h : start c me port machine registry = .ok s) :
    c.validate = .ok () ∧
      s = { config := c, node := { Node.fresh c me port with machine }, registry } := by
  unfold start Node.start at h
  cases hc : c.validate with
  | error e =>
    rw [hc] at h
    cases h
  | ok u =>
    rw [hc] at h
    cases h
    exact ⟨rfl, rfl⟩

/-! ## What a step can do to a line -/

variable {s s' : Station} {h : Happening}

/-- What a happening can make of the line with a number: the node may do several things to it, and a
part of its session may make a step. -/
inductive Changed (s : Station) (h : Happening) (id : SessionId) (l : Line) : Line → Prop where
  | same : Changed s h id l l
  | delivered {l' : Line} {nonce : Bytes} {c : Node.Command} {rest : List Node.Command}
      {x : Outgoing} : Changed s h id l l' → h = .handles nonce → s.queue = c :: rest →
      .group (.deliver id x) ∈ (s.node.handle s.room c).effects →
      Changed s h id l (l'.onTask fun t => { t with outbox := t.outbox.push x })
  | kicked {l' : Line} : Changed s h id l l' → Changed s h id l (l'.onTask SessionTask.kick)
  | started {l' : Line} {nonce : Bytes} {c : Node.Command} {rest : List Node.Command}
      {direction : Direction} : Changed s h id l l' → h = .handles nonce → s.queue = c :: rest →
      .start id direction ∈ (s.node.handle s.room c).effects →
      Changed s h id l { l' with task := some (SessionTask.start s.config.sessionSettings direction
        l'.wire.mine l'.wire.theirs s.config.outboxCapacity s.now nonce).1 }
  | moved {part : Part} {m : SessionTask.Moved} : h = .moves id part →
      l.move? s.config s.now s.registry.trusts part = some m →
      Changed s h id l { l with task := some m.task, connection := m.connection }
  | answered {allow : Bool} : h = .answers id allow →
      Changed s h id l (l.onTask fun t => { t with answer := some allow })
  | changed (conn : Connection) : Changed s h id l { l with connection := conn }

/-- A connection stays the connection that was opened. -/
theorem Changed.keeps {id : SessionId} {l l' : Line} (hl : Changed s h id l l') :
    l'.wire = l.wire ∧ l'.opening = l.opening := by
  induction hl with
  | same => exact ⟨rfl, rfl⟩
  | delivered _ _ _ _ ih => exact ih
  | kicked _ ih => exact ih
  | started _ _ _ _ ih => exact ih
  | moved | answered | changed => exact ⟨rfl, rfl⟩

theorem get?_serve (c : Config) (now : Time) (nonce : Bytes) (lines : Table SessionId Line)
    (e : Node.Effect) (id : SessionId) :
    (serve c now nonce lines e).get? id =
      (lines.get? id).map fun l => if session? e = some id then l.take c now nonce e else l := by
  unfold serve
  cases he : session? e with
  | none => simp
  | some j =>
    rw [Table.get?_modify]
    by_cases hj : j = id <;> simp [hj]

/-- What an effect of the command that is handled makes of a line. -/
theorem Changed.take {nonce : Bytes} {c : Node.Command} {rest : List Node.Command}
    {id : SessionId} {l l' : Line} {e : Node.Effect} (hl : Changed s h id l l')
    (hh : h = .handles nonce) (hqueue : s.queue = c :: rest)
    (he : e ∈ (s.node.handle s.room c).effects) (hid : session? e = some id) :
    Changed s h id l (l'.take s.config s.now nonce e) := by
  cases e with
  | group e =>
    cases e with
    | announce _ => cases hid
    | deliver j x =>
      cases hid
      exact .delivered hl hh hqueue he
    | kick j => exact .kicked hl
  | start j direction =>
    cases hid
    exact .started hl hh hqueue he
  | dial d delay => cases hid

/-- What all effects of the command that is handled make of the lines. -/
theorem changed_handle {nonce : Bytes} {c : Node.Command} {rest : List Node.Command}
    (hh : h = .handles nonce) (hqueue : s.queue = c :: rest) (id : SessionId) :
    (s.lines.get? id = none → (s.handle nonce c rest).lines.get? id = none) ∧
      ∀ l, s.lines.get? id = some l →
        ∃ l', (s.handle nonce c rest).lines.get? id = some l' ∧ Changed s h id l l' := by
  -- The effects are served one after the other: `l₁` is what the ones so far have made of `l`.
  have fold : ∀ (es : List Node.Effect) (lines : Table SessionId Line),
      (∀ e ∈ es, e ∈ (s.node.handle s.room c).effects) →
      (lines.get? id = none → (es.foldl (serve s.config s.now nonce) lines).get? id = none) ∧
        ∀ l l₁, lines.get? id = some l₁ → Changed s h id l l₁ →
          ∃ l', (es.foldl (serve s.config s.now nonce) lines).get? id = some l' ∧
            Changed s h id l l' := by
    intro es
    induction es with
    | nil => exact fun lines _ => ⟨fun hl => hl, fun l l₁ hl hchanged => ⟨l₁, hl, hchanged⟩⟩
    | cons e es ih =>
      intro lines hes
      obtain ⟨hnone, hsome⟩ := ih (serve s.config s.now nonce lines e)
        fun e' he' => hes e' (List.mem_cons_of_mem _ he')
      refine ⟨fun hl => hnone (by rw [get?_serve, hl, Option.map_none]), fun l l₁ hl hchanged => ?_⟩
      refine hsome l _ (by rw [get?_serve, hl, Option.map_some]) ?_
      split
      · rename_i hid
        exact hchanged.take hh hqueue (hes e List.mem_cons_self) hid
      · exact hchanged
  obtain ⟨hnone, hsome⟩ := fold _ s.lines fun e he => he
  exact ⟨hnone, fun l hl => hsome l l hl .same⟩

/-- A line is the one that was there, changed, or a connection that has just opened. -/
theorem line_next (hs : Step s h s') (id : SessionId) :
    (∃ l l', s.lines.get? id = some l ∧ s'.lines.get? id = some l' ∧ Changed s h id l l') ∨
      (s.lines.get? id = none ∧ (s'.lines.get? id = none ∨ ∃ w conn how,
        h = .opens id w conn how ∧
          s'.lines.get? id = some { wire := w, opening := how, connection := conn })) := by
  cases hl : s.lines.get? id with
  | none =>
    refine .inr ⟨rfl, ?_⟩
    have other : ∀ {j : SessionId} {l₁ : Line} (l₂ : Line), s.lines.get? j = some l₁ →
        (s.lines.put j l₂).get? id = none := by
      intro j l₁ l₂ hj
      rw [Table.get?_put, if_neg, hl]
      rintro rfl
      rw [hl] at hj
      cases hj
    cases hs with
    | @opens j w conn how _ _ =>
      by_cases hj : j = id
      · exact .inr ⟨w, conn, how, by rw [hj], by simp [opened, tell, Table.get?_put, hj]⟩
      · exact .inl (by simp [opened, tell, Table.get?_put, hj, hl])
    | handles nonce _ hqueue => exact .inl ((changed_handle rfl hqueue id).1 hl)
    | moves hj => exact .inl (other _ hj)
    | answers allow hj => exact .inl (other _ hj)
    | changes conn hj => exact .inl (other _ hj)
    | _ => exact .inl hl
  | some l =>
    refine .inl ⟨l, ?_⟩
    have own : ∀ {j : SessionId} {l₁ l₂ : Line}, s.lines.get? j = some l₁ →
        (j = id → Changed s h id l₁ l₂) →
        ∃ l', some l = some l ∧ (s.lines.put j l₂).get? id = some l' ∧ Changed s h id l l' := by
      intro j l₁ l₂ hj hchanged
      by_cases hid : j = id
      · rw [hid, hl] at hj
        cases hj
        exact ⟨l₂, rfl, by rw [Table.get?_put, if_pos hid], hchanged hid⟩
      · exact ⟨l, rfl, by rw [Table.get?_put, if_neg hid, hl], .same⟩
    cases hs with
    | @opens j w conn how hfresh _ =>
      have hj : j ≠ id := by
        rintro rfl
        rw [hl] at hfresh
        cases hfresh
      exact ⟨l, rfl, by simp [opened, tell, Table.get?_put, hj, hl], .same⟩
    | handles nonce _ hqueue =>
      obtain ⟨l', hl', hchanged⟩ := (changed_handle rfl hqueue id).2 l hl
      exact ⟨l', rfl, hl', hchanged⟩
    | moves hj hm => exact own hj fun hid => .moved (by rw [hid]) hm
    | answers allow hj => exact own hj fun hid => .answered (by rw [hid])
    | changes conn hj => exact own hj fun _ => .changed conn
    | _ => exact ⟨l, rfl, hl, .same⟩

/-- A line that is there was there before, or it has just opened. -/
theorem line_was (hs : Step s h s') {id : SessionId} {l' : Line}
    (hl' : s'.lines.get? id = some l') :
    (∃ l, s.lines.get? id = some l ∧ Changed s h id l l') ∨ ∃ w conn how,
      h = .opens id w conn how ∧ l' = { wire := w, opening := how, connection := conn } := by
  obtain ⟨l, l₁, hl, hl₁, hchanged⟩ | ⟨-, hnone | ⟨w, conn, how, hh, hnew⟩⟩ := line_next hs id
  · rw [hl'] at hl₁
    cases hl₁
    exact .inl ⟨l, hl, hchanged⟩
  · rw [hl'] at hnone
    cases hnone
  · rw [hl'] at hnew
    cases hnew
    exact .inr ⟨w, conn, how, hh, rfl⟩

/-- A line that was there is there, and what was opened is the same. -/
theorem line_stays (hs : Step s h s') {id : SessionId} {l : Line} (hl : s.lines.get? id = some l) :
    ∃ l', s'.lines.get? id = some l' ∧ l'.wire = l.wire ∧ l'.opening = l.opening := by
  obtain ⟨l₁, l', hl₁, hl', hchanged⟩ | ⟨hnone, -⟩ := line_next hs id
  · rw [hl] at hl₁
    cases hl₁
    exact ⟨l', hl', hchanged.keeps⟩
  · rw [hl] at hnone
    cases hnone

/-! ## What a part of a session does -/

/-- What a step of any part of a session does to the session and to what waits for it. -/
structure Moves (codec : Codec) (t : SessionTask) (m : SessionTask.Moved) : Prop where
  session : ∀ y, m.task.stage = .running y → ∃ x, t.stage = .running x ∧
    y.direction = x.direction ∧ y.peerFingerprint = x.peerFingerprint
  answer : m.task.answer = t.answer ∨ m.task.answer = none
  pending : ∀ p, .packet p ∈ m.task.pending → .packet p ∈ t.pending ∨ codec.Fits p
  outbox : ∀ x ∈ m.task.outbox.queue, x ∈ t.outbox.queue ∨ SessionTask.IsControl x

theorem moves_of_reads {codec : Codec} {t : SessionTask} {m : SessionTask.Moved}
    (hm : SessionTask.Reads codec t m) : Moves codec t m where
  session y hy := ⟨y, hm.stage ▸ hy, rfl, rfl⟩
  answer := .inl hm.answer
  pending := hm.pending
  outbox _ hx := .inl (hm.outbox ▸ hx)

theorem moves_of_leaves {codec : Codec} {t : SessionTask} {m : SessionTask.Moved}
    (hm : SessionTask.Leaves t m) : Moves codec t m where
  session y hy := by
    obtain hsame | hended := hm.stage
    · exact ⟨y, hsame ▸ hy, rfl, rfl⟩
    · rw [hended] at hy
      cases hy
  answer := .inl hm.answer
  pending p hp := .inl (hm.pending ▸ hp)
  outbox x hx := .inl (hm.outbox x hx)

theorem moves_of_drives {codec : Codec} {now : Time} {trusts : Fingerprint → Bool}
    {t : SessionTask} {m : SessionTask.Moved} {x : Session} {i : Session.Input}
    (hm : SessionTask.Drives now trusts t m x i) : Moves codec t m where
  session y hy := ⟨x, hm.stage, Session.step_keeps (hm.next y hy)⟩
  answer := hm.answer
  pending p hp := .inl (hm.pending _ hp)
  outbox f hf := by
    rw [hm.outbox] at hf
    exact (SessionTask.mem_queueActions hf).imp_right fun ⟨p, hp, hsent⟩ =>
      ⟨p, hp, Session.not_content_of_send hsent⟩

/-- A step of any part of a session, and that only the session itself tells of more than what was
written and of the end. -/
theorem Line.move_spec {l : Line} {c : Config} {now : Time} {trusts : Fingerprint → Bool}
    {part : Part} {m : SessionTask.Moved} (hm : l.move? c now trusts part = some m) :
    ∃ t, l.task = some t ∧ Moves c.codec t m ∧
      ((∃ n, part = .session n) ∧ (∃ x i, SessionTask.Drives now trusts t m x i) ∨
        ∀ n ∈ m.notes, (∃ seq, n = .report (.flushed seq)) ∨
          ∃ reason, n = .report (.closed reason)) := by
  obtain ⟨t, ht, hm⟩ := Option.bind_eq_some_iff.1 hm
  refine ⟨t, ht, ?_⟩
  -- Only the session itself tells what concerns the peer; the other parts tell of frames and ends.
  cases part with
  | reader =>
    have hreads := SessionTask.reads_of_readStep hm
    exact ⟨moves_of_reads hreads, .inr (by simp [hreads.notes])⟩
  | session n =>
    obtain ⟨-, x, i, hdrives⟩ := SessionTask.drives_of_driveStep hm
    exact ⟨moves_of_drives hdrives, .inl ⟨⟨n, rfl⟩, x, i, hdrives⟩⟩
  | writer =>
    have hleaves := SessionTask.leaves_of_writeStep hm
    exact ⟨moves_of_leaves hleaves, .inr hleaves.notes⟩
  | heed =>
    have hleaves := SessionTask.leaves_of_heedStep hm
    exact ⟨moves_of_leaves hleaves, .inr hleaves.notes⟩
  | close =>
    have hleaves := SessionTask.leaves_of_endStep hm
    exact ⟨moves_of_leaves hleaves, .inr hleaves.notes⟩

/-! ## What a step can do to the rest -/

/-- The happening gives the node a command. -/
inductive Tells (s : Station) : Happening → Node.Command → Prop where
  | opens {id : SessionId} {w : Wire} {conn : Connection} {how : Opening} :
      Tells s (.opens id w conn how) (how.command (arrival id w))
  | dialFails {d : Device} {e : ConnectError} : Tells s (.dialFails d e) (.dialFailed d e)
  | discovers {e : DiscoveryEvent} : Tells s (.discovers e) (.discovery e)
  | publishes {mime : String} {data : Bytes} : s.config.codec.checkContent mime data = .ok () →
      Tells s (.publishes mime data) (.publish mime data)
  | moves {id : SessionId} {part : Part} {l : Line} {m : SessionTask.Moved} {r : Report} :
      s.lines.get? id = some l → l.move? s.config s.now s.registry.trusts part = some m →
      .report r ∈ m.notes → Tells s (.moves id part) (.report id r)
  | stops {order : List SessionId} : Tells s (.stops order) (.shutdown order)

/-- A command that waits was waiting or has just been given. -/
theorem queue_next (hs : Step s h s') {c : Node.Command} (hc : c ∈ s'.queue) :
    c ∈ s.queue ∨ Tells s h c := by
  have told : ∀ {c' : Node.Command}, c ∈ s.queue ++ [c'] → Tells s h c' →
      c ∈ s.queue ∨ Tells s h c := by
    intro c' hmem htells
    rw [List.mem_append, List.mem_singleton] at hmem
    refine hmem.imp_right fun heq => ?_
    rw [heq]
    exact htells
  cases hs with
  | opens => exact told hc .opens
  | dialFails => exact told hc .dialFails
  | discovers => exact told hc .discovers
  | publishes hok => exact told hc (.publishes hok)
  | stops order => exact told hc .stops
  | handles nonce _ hqueue => exact .inl (by rw [hqueue]; exact List.mem_cons_of_mem _ hc)
  | moves hl hm =>
    obtain hold | hnew := List.mem_append.1 hc
    · exact .inl hold
    · obtain ⟨n, hn, hreport⟩ := List.mem_filterMap.1 hnew
      cases n with
      | report r =>
        cases hreport
        exact .inr (.moves hl hm hn)
      | asks | withdraws | remembers f => cases hreport
  | refuses | answers | changes | passes => exact .inl hc

/-- The happening is that the node handles this command. -/
def Handles (s : Station) (h : Happening) (c : Node.Command) : Prop :=
  ∃ nonce rest, h = .handles nonce ∧ s.queue = c :: rest

theorem Handles.mem {c : Node.Command} (hc : s.Handles h c) : c ∈ s.queue := by
  obtain ⟨_, _, -, hqueue⟩ := hc
  rw [hqueue]
  exact List.mem_cons_self

theorem Handles.next {c : Node.Command} (hc : s.Handles h c) (hstep : Step s h s') :
    s'.node = (s.node.handle s.room c).node ∧ s'.stopped = c.isShutdown := by
  obtain ⟨nonce, rest, rfl, hqueue⟩ := hc
  cases hstep with
  | handles _ _ hqueue' =>
    rw [hqueue] at hqueue'
    cases hqueue'
    exact ⟨rfl, rfl⟩

/-- Only handling a command does something to the node. -/
theorem node_next (hs : Step s h s') :
    s'.node = s.node ∨ ∃ c, s.Handles h c ∧ s'.node = (s.node.handle s.room c).node := by
  cases hs with
  | handles nonce _ hqueue => exact .inr ⟨_, ⟨nonce, _, rfl, hqueue⟩, rfl⟩
  | _ => exact .inl rfl

theorem config_next (hs : Step s h s') : s'.config = s.config := by
  cases hs <;> rfl

theorem stopped_before (hs : Step s h s') (hstopped : s'.stopped = false) :
    s.stopped = false := by
  cases hs with
  | handles _ hrunning => exact hrunning
  | _ => exact hstopped

/-- A device that is being dialed was being dialed, or the node has just asked for it. -/
theorem dials_next (hs : Step s h s') {d : Device} (hd : d ∈ s'.dials) :
    d ∈ s.dials ∨
      ∃ c delay, s.Handles h c ∧ .dial d delay ∈ (s.node.handle s.room c).effects := by
  cases hs with
  | @opens _ _ _ how =>
    cases how with
    | dialed d' => exact .inl (List.mem_of_mem_erase hd)
    | accepted | asked _ => exact .inl hd
  | dialFails => exact .inl (List.mem_of_mem_erase hd)
  -- A node that stops gives up its dials; any other command may add some.
  | @handles nonce c _ _ hqueue =>
    simp only [handle] at hd
    split at hd
    · cases hd
    · obtain hold | hnew := List.mem_append.1 hd
      · exact .inl hold
      · obtain ⟨x, hx, hdial⟩ := List.mem_filterMap.1 hnew
        cases x with
        | dial d' delay =>
          cases hdial
          exact .inr ⟨c, delay, ⟨nonce, _, rfl, hqueue⟩, hx⟩
        | group e => cases hdial
        | start id direction => cases hdial
  | _ => exact .inl hd

theorem mem_learn {r : Registry} {notes : List SessionTask.Note} {f : Fingerprint}
    (hf : f ∈ (notes.foldl learn r).fingerprints) : f ∈ r.fingerprints ∨ .remembers f ∈ notes := by
  -- Note by note, since each is learned into the registry that the ones before it have left.
  induction notes generalizing r with
  | nil => exact .inl hf
  | cons n notes ih =>
    obtain hold | hlater := ih hf
    · have hone : f ∈ r.fingerprints ∨ n = .remembers f := by
        cases n with
        | report | asks | withdraws => exact .inl hold
        | remembers g =>
          simp only [learn, Registry.remember] at hold
          split at hold
          · rename_i heq
            split at heq
            · cases heq
            · split at heq
              · cases heq
                exact .inl hold
              · cases heq
                exact (Registry.mem_insert.1 hold).symm.imp_right fun hg => by rw [hg]
          · exact .inl hold
      exact hone.imp_right fun hn => by rw [hn]; exact List.mem_cons_self
    · exact .inr (List.mem_cons_of_mem _ hlater)

/-- A fingerprint in the registry was there, or a session has just remembered it. -/
theorem registry_next (hs : Step s h s') {f : Fingerprint} (hf : f ∈ s'.registry.fingerprints) :
    f ∈ s.registry.fingerprints ∨
      ∃ id part l m, h = .moves id part ∧ s.lines.get? id = some l ∧
        l.move? s.config s.now s.registry.trusts part = some m ∧ .remembers f ∈ m.notes := by
  cases hs with
  | moves hl hm =>
    exact (mem_learn hf).imp_right fun hremembers => ⟨_, _, _, _, rfl, hl, hm, hremembers⟩
  | _ => exact .inl hf

/-! ## Letting things happen -/

/-- What comes of a happening, if it can happen. -/
def next? (s : Station) : Happening → Option Station
  | .opens id w conn how =>
    if s.lines.get? id = none ∧ (∀ d ∈ how.dialed?, d ∈ s.dials) then
      some (s.opened id w conn how)
    else none
  | .dialFails d e =>
    if d ∈ s.dials then some { s.tell (.dialFailed d e) with dials := s.dials.erase d } else none
  | .discovers e => some (s.tell (.discovery e))
  | .publishes mime data =>
    match s.config.codec.checkContent mime data with
    | .ok () => some (s.tell (.publish mime data))
    | .error _ => some s
  | .handles nonce =>
    match s.stopped, s.queue with
    | false, c :: rest => some (s.handle nonce c rest)
    | _, _ => none
  | .moves id part =>
    match s.lines.get? id with
    | some l => (l.move? s.config s.now s.registry.trusts part).map (s.moved id l)
    | none => none
  | .answers id allow =>
    match s.lines.get? id with
    | some l =>
      if l.task.any isAsking then
        some { s with lines := s.lines.put id (l.onTask fun t => { t with answer := some allow }) }
      else none
    | none => none
  | .changes id conn =>
    (s.lines.get? id).map fun l =>
      { s with lines := s.lines.put id { l with connection := conn } }
  | .passes ms => some { s with now := s.now + ms }
  | .stops order => some (s.tell (.shutdown order))

theorem step_of_next? (hs : s.next? h = some s') : Step s h s' := by
  cases h with
  | opens id w conn how =>
    simp only [next?, Option.ite_none_right_eq_some, Option.some.injEq] at hs
    obtain ⟨⟨hfresh, hdials⟩, rfl⟩ := hs
    exact .opens w conn hfresh hdials
  | dialFails d e =>
    simp only [next?, Option.ite_none_right_eq_some, Option.some.injEq] at hs
    obtain ⟨hd, rfl⟩ := hs
    exact .dialFails e hd
  | discovers e =>
    cases hs
    exact .discovers e
  | publishes mime data =>
    simp only [next?] at hs
    split at hs
    · rename_i hok
      cases hs
      exact .publishes hok
    · rename_i herror
      cases hs
      exact .refuses herror
  | handles nonce =>
    simp only [next?] at hs
    split at hs
    · rename_i hrunning hqueue
      cases hs
      exact .handles nonce hrunning hqueue
    · cases hs
  | moves id part =>
    simp only [next?] at hs
    split at hs
    · rename_i l hl
      obtain ⟨m, hm, rfl⟩ := Option.map_eq_some_iff.1 hs
      exact .moves hl hm
    · cases hs
  | answers id allow =>
    simp only [next?] at hs
    split at hs
    · rename_i l hl
      split at hs
      · rename_i hasking
        cases hs
        exact .answers allow hl hasking
      · cases hs
    · cases hs
  | changes id conn =>
    obtain ⟨l, hl, rfl⟩ := Option.map_eq_some_iff.1 hs
    exact .changes conn hl
  | passes ms =>
    cases hs
    exact .passes ms
  | stops order =>
    cases hs
    exact .stops order

/-- Lets things happen in order. -/
def play? (s : Station) (hs : List Happening) : Option Station := SharedClipboard.play? next? s hs

theorem run_of_play {first last : Station} {hs : List Happening} (h : first.play? hs = some last) :
    Run first hs last :=
  of_play? (fun hrun hnext => hrun.step (step_of_next? hnext)) .start h

end Station

end SharedClipboard
