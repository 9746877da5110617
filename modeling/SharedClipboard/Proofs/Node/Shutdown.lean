import SharedClipboard.Proofs.Group.Departure
import SharedClipboard.Proofs.Node.Consent

/-!
# No session is left behind

A node that stops ends every session that its group knows, and waits until all of them have
finished. A session that the group does not know would be waited for in vain, unless it was told to
end before.

**Theorem (`shutdown_reaches_every_session`).** In every run of a station, a session that has not
finished stands in the group and its one signal is unused, or it has been signalled to end. So when
the node handles the command to stop, every session that has not finished is signalled, the group is
left without sessions and members, and each member device is announced to have left, exactly once.

A session leaves the group by its own report, when it has finished, or by being replaced or ended,
which comes with the signal (`Group.kept_or_kicked`). The invariant (`Tended`) says besides that a
connection is announced to the node once, before a session is started on it, and that a session
whose end is reported has finished.
-/

namespace SharedClipboard

/-! ## Sessions and their signal -/

namespace SessionTask

variable {t : SessionTask} {conn : Connection} {m : Moved}

/-- What a step of any part of a session leaves as it is: the signal is not the session's business,
and what has finished does not go on. Who reports the end has finished. -/
structure Endures (t : SessionTask) (m : Moved) : Prop where
  kicked : m.task.kicked = t.kicked
  kickable : m.task.kickable = t.kickable
  running : m.task.isRunning = true → t.isRunning = true
  closed : ∀ reason, .report (.closed reason) ∈ m.notes → m.task.isRunning = false

theorem isRunning_of_stage {t t' : SessionTask} (h : t'.stage = t.stage) :
    t'.isRunning = t.isRunning := by
  rw [isRunning, isRunning, h]

theorem signal_handOver (t : SessionTask) (got : Received) :
    (t.handOver got).kicked = t.kicked ∧ (t.handOver got).kickable = t.kickable := by
  unfold handOver
  split <;> exact ⟨rfl, rfl⟩

theorem endures_of_readStep {codec : Codec} (h : t.readStep codec conn = some m) :
    Endures t m := by
  have hreads := reads_of_readStep h
  have hsignal : m.task.kicked = t.kicked ∧ m.task.kickable = t.kickable := by
    unfold readStep at h
    split at h
    · cases h
    · split at h
      · split at h <;> cases h
        exact signal_handOver t _
      · split at h
        · cases h
          exact signal_handOver t _
        · split at h
          · split at h <;> cases h
            exact signal_handOver t _
          · split at h <;> cases h
            · exact ⟨rfl, rfl⟩
            · exact signal_handOver { t with reader := .atTag } _
  exact ⟨hsignal.1, hsignal.2, fun hrunning => by rwa [isRunning_of_stage hreads.stage] at hrunning,
    fun reason hclosed => by rw [hreads.notes] at hclosed; cases hclosed⟩

theorem signal_settleTurn (now : Time) (t : SessionTask) (asking : Bool) (turn : Session.Turn) :
    (t.settleTurn now asking turn).1.kicked = t.kicked ∧
      (t.settleTurn now asking turn).1.kickable = t.kickable := by
  simp only [settleTurn, actAll_eq]
  split <;> exact ⟨rfl, rfl⟩

theorem endures_of_driveStep {n : Nat} {now : Time} {trusts : Fingerprint → Bool}
    (h : t.driveStep n now trusts conn = some m) : Endures t m := by
  obtain ⟨x, i, t', asking, hstage, hgives, -, -, rfl⟩ := gives_of_driveStep h
  obtain ⟨-, -, hkicked, hkickable⟩ := hgives.keeps
  have hsettled := signal_settleTurn now t' asking (x.step ⟨now, t.outbox.room, trusts⟩ i)
  refine ⟨hsettled.1.trans hkicked, hsettled.2.trans hkickable,
    fun _ => by rw [isRunning, hstage], fun reason hclosed => ?_⟩
  obtain ⟨a, -, hnote⟩ := (mem_settleTurn _ _ _ _ (by simp)).1 hclosed
  cases a <;> cases hnote

theorem endures_of_writeStep (h : t.writeStep conn = some m) : Endures t m := by
  unfold writeStep at h
  simp only at h
  split at h
  · cases h
  · obtain ⟨r, -, rfl⟩ := Option.map_eq_some_iff.1 h
    exact ⟨rfl, rfl, id, fun reason hclosed => by simp at hclosed⟩

theorem endures_of_heedStep (h : t.heedStep conn = some m) : Endures t m := by
  obtain ⟨-, rfl⟩ := of_heedStep h
  exact ⟨rfl, rfl, id, fun _ hclosed => (nomatch hclosed)⟩

theorem endures_of_endStep {now : Time} (h : t.endStep now conn = some m) : Endures t m := by
  unfold endStep at h
  split at h
  · split at h <;> cases h
    exact ⟨rfl, rfl, fun hrunning => (nomatch hrunning), fun _ _ => rfl⟩
  · cases h

/-- The session has finished, or it has been signalled to end, or its signal is unused and it can be
found in the group. -/
def InReach (t : SessionTask) (found : Bool) : Prop :=
  t.isRunning = true → t.kicked = true ∨ found = true ∧ t.kickable = true ∧ t.kicked = false

theorem InReach.mono {found : Bool} (h : t.InReach false) : t.InReach found :=
  fun hrunning => (h hrunning).imp_right fun ⟨hfound, _⟩ => by cases hfound

theorem InReach.endures {found : Bool} (h : t.InReach found) (hm : Endures t m) :
    m.task.InReach found := by
  intro hrunning
  rw [hm.kicked, hm.kickable]
  exact h (hm.running hrunning)

theorem isRunning_kick (t : SessionTask) : t.kick.isRunning = t.isRunning :=
  isRunning_of_stage t.stage_kick

/-- A session that can be found is signalled. -/
theorem InReach.kick {found : Bool} (h : t.InReach found) : t.kick.InReach false := by
  intro hrunning
  rw [isRunning_kick] at hrunning
  refine .inl ?_
  obtain hkicked | ⟨-, hkickable, -⟩ := h hrunning
  · unfold SessionTask.kick
    split
    · rfl
    · exact hkicked
  · simp [SessionTask.kick, hkickable, hrunning]

theorem inReach_start (settings : Session.Settings) (direction : Direction)
    (mine peer : Option Fingerprint) (capacity : Nat) (now : Time) (nonce : Bytes) :
    (start settings direction mine peer capacity now nonce).1.InReach true := by
  intro _
  have hsignal := signal_settleTurn now
    { stage := .running (.fresh settings direction mine peer now), outbox := { capacity } } false
  exact .inr ⟨rfl, (hsignal _).2, (hsignal _).1⟩

end SessionTask

/-! ## What a command does to the sessions -/

namespace Node

variable {n : Node} {room : SessionId → Room} {c : Command} {id : SessionId}

/-- The connection that a command tells the node of. -/
def arrival? : Command → Option SessionId
  | .accepted a | .connected a _ => some a.id
  | _ => none

theorem arrival_of_start {direction : Direction}
    (h : .start id direction ∈ (n.handle room c).effects) : arrival? c = some id := by
  obtain ⟨a, rfl, rfl, -⟩ | ⟨a, d, rfl, rfl, -⟩ := start_of_handle h <;> rfl

/-- A connection is taken up: its session is found in the group, and is started. -/
theorem handle_of_arrival (n : Node) (h : arrival? c = some id) (room : SessionId → Room) :
    (∃ direction, (n.handle room c).effects = [.start id direction]) ∧
      ∃ e, e.role = .unauthenticated ∧ (n.handle room c).node.group = n.group.attach id e := by
  cases c with
  | accepted a | connected a d =>
    cases h
    exact ⟨⟨_, rfl⟩, _, rfl, rfl⟩
  | dialFailed _ _ | report _ _ | publish _ _ | discovery _ | shutdown _ => cases h

/-- What becomes of the group: a connection is taken up, the command is an operation of the group,
or it puts an end to a dial. -/
theorem group_handle_cases (n : Node) (room : SessionId → Room) (c : Command) :
    (∃ id e, arrival? c = some id ∧ e.role = .unauthenticated ∧
        (n.handle room c).node.group = n.group.attach id e) ∨
      (∃ op, n.operation? c = some op ∧
        (n.handle room c).node.group = (n.group.perform room op).group) ∨
      (n.handle room c).node.group = n.group := by
  cases harrival : arrival? c with
  | some id =>
    obtain ⟨-, e, hrole, hgroup⟩ := handle_of_arrival n harrival room
    exact .inl ⟨id, e, rfl, hrole, hgroup⟩
  | none =>
    cases hop : n.operation? c with
    | some op => exact .inr (.inl ⟨op, rfl, (handle_of_operation hop room).1⟩)
    | none =>
      refine .inr (.inr ?_)
      cases c with
      | accepted _ | connected _ _ => cases harrival
      | dialFailed _ _ => rfl
      | publish _ _ | discovery _ | shutdown _ => cases hop
      | report id r => cases r <;> cases hop

/-- A session in the group was there before, or its connection is taken up now. -/
theorem contains_of_handle (h : (n.handle room c).node.group.sessions.contains id = true) :
    n.group.sessions.contains id = true ∨ arrival? c = some id := by
  obtain ⟨j, e, harrival, -, hgroup⟩ | ⟨op, -, hgroup⟩ | hgroup := group_handle_cases n room c
  all_goals rw [hgroup] at h
  · rw [Table.contains, Group.get?_sessions_attach] at h
    split at h
    · rename_i hj
      exact .inr (hj ▸ harrival)
    · exact .inl h
  · exact .inl (Group.contains_of_perform h)
  · exact .inl h

/-- A session stays in the group, or it is signalled to end, or its end is what was reported. -/
theorem kept_or_kicked (c : Command) (room : SessionId → Room)
    (h : n.group.sessions.contains id = true) :
    (n.handle room c).node.group.sessions.contains id = true ∨
      .group (.kick id) ∈ (n.handle room c).effects ∨
      ∃ reason, c = .report id (.closed reason) := by
  obtain ⟨j, e, -, -, hgroup⟩ | ⟨op, hop, hgroup⟩ | hgroup := group_handle_cases n room c
  · refine .inl ?_
    rw [hgroup, Table.contains, Group.get?_sessions_attach]
    split
    · rfl
    · exact h
  · obtain hkept | hkicked | ⟨reason, rfl⟩ := Group.kept_or_kicked room op h
    · exact .inl (hgroup ▸ hkept)
    · refine .inr (.inl ?_)
      obtain ⟨-, heffects | ⟨d, delay, -, -, -, heffects⟩⟩ := handle_of_operation hop room
      all_goals simp [heffects, hkicked]
    · exact .inr (.inr ⟨reason, eq_ofOperation hop⟩)
  · exact .inl (hgroup ▸ h)

theorem inStep_handle (h : n.group.InStep)
    (hnew : ∀ id, arrival? c = some id → n.group.sessions.contains id = false) :
    (n.handle room c).node.group.InStep := by
  obtain ⟨j, e, harrival, hrole, hgroup⟩ | ⟨op, -, hgroup⟩ | hgroup := group_handle_cases n room c
  all_goals rw [hgroup]
  · refine h.attach ?_ hrole
    simpa [Table.contains] using hnew j harrival
  · exact Group.inStep_perform h room op
  · exact h

end Node

namespace Station

variable {first s s' : Station} {hs : List Happening} {h : Happening} {id : SessionId}
  {l l' : Line}

/-! ## What a step does to the line of a session -/

/-- The session on a line, if there is one, is in reach. -/
def Line.InReach (l : Line) (found : Bool) : Prop := ∀ t, l.task = some t → t.InReach found

theorem Line.InReach.mono {found : Bool} (hl : l.InReach false) : l.InReach found :=
  fun t ht => (hl t ht).mono

/-- Whether the session on a line goes on, if there is one. -/
def Line.goesOn? (l : Line) : Option Bool := l.task.map (·.isRunning)

theorem Line.InReach.onTask {found found' : Bool} (hl : l.InReach found)
    {f : SessionTask → SessionTask}
    (hf : ∀ t : SessionTask, t.InReach found → (f t).InReach found') :
    (l.onTask f).InReach found' := by
  intro t' ht'
  obtain ⟨t, ht, rfl⟩ := Option.map_eq_some_iff.1 ht'
  exact hf t (hl t ht)

theorem Line.goesOn_onTask (l : Line) {f : SessionTask → SessionTask}
    (hf : ∀ t, (f t).isRunning = t.isRunning) : (l.onTask f).goesOn? = l.goesOn? := by
  simp [goesOn?, onTask, Option.map_map, Function.comp_def, hf]

/-- What the effects of a command make of the line of a session, if none of them starts it: they
neither start nor finish a session, leave it in reach, and signal it if they shall. -/
structure Served (id : SessionId) (es : List Node.Effect) (l l' : Line) : Prop where
  goesOn : l'.goesOn? = l.goesOn?
  inReach : ∀ found, l.InReach found → l'.InReach found
  kicked : ∀ found, l.InReach found → .group (.kick id) ∈ es → l'.InReach false

theorem served_take (c : Config) (now : Time) (nonce : Bytes) (l : Line) (e : Node.Effect)
    (hstart : ∀ direction, e ≠ .start id direction) :
    Served id [e] l (if session? e = some id then l.take c now nonce e else l) := by
  -- An effect on another line, or one that is no kick, leaves this line in reach as it was.
  have same : ∀ {e : Node.Effect}, e ≠ .group (.kick id) → Served id [e] l l := fun he =>
    ⟨rfl, fun _ hl => hl, fun _ _ hmem => absurd (List.mem_singleton.1 hmem).symm he⟩
  cases e with
  | dial d delay => exact same (by simp)
  | start j direction =>
    have hj : j ≠ id := fun hj => hstart direction (by rw [hj])
    simpa [session?, hj] using same (e := .start j direction) (by simp)
  | group e =>
    cases e with
    | announce e => exact same (by simp)
    | deliver j x =>
      split
      · have hfound : ∀ found, l.InReach found →
            (l.onTask fun t => { t with outbox := t.outbox.push x }).InReach found :=
          fun found hl => hl.onTask fun t ht => ht
        exact ⟨l.goesOn_onTask fun _ => rfl, hfound, by simp⟩
      · exact same (by simp)
    | kick j =>
      split
      · have hkick : ∀ found, l.InReach found → (l.onTask SessionTask.kick).InReach false :=
          fun found hl => hl.onTask fun t ht => ht.kick
        exact ⟨l.goesOn_onTask SessionTask.isRunning_kick, fun found hl => (hkick found hl).mono,
          fun found hl _ => hkick found hl⟩
      · rename_i hj
        refine same fun heq => hj ?_
        cases heq
        rfl

/-- The effects are served one after the other. -/
theorem served_foldl (c : Config) (now : Time) (nonce : Bytes) {es : List Node.Effect}
    (hstart : ∀ direction, .start id direction ∉ es) (lines : Table SessionId Line)
    (hl : lines.get? id = some l) :
    ∃ l', (es.foldl (serve c now nonce) lines).get? id = some l' ∧ Served id es l l' := by
  induction es generalizing lines l with
  | nil => exact ⟨l, hl, rfl, fun _ hl => hl, fun _ _ hmem => by cases hmem⟩
  | cons e es ih =>
    have hone := served_take c now nonce l e
      fun direction he => hstart direction (he ▸ List.mem_cons_self)
    obtain ⟨l', hl', hrest⟩ :=
      ih (fun direction hmem => hstart direction (List.mem_cons_of_mem _ hmem))
      (serve c now nonce lines e) (by rw [get?_serve, hl, Option.map_some])
    refine ⟨l', hl', hrest.goesOn.trans hone.goesOn,
      fun found hl => hrest.inReach found (hone.inReach found hl), fun found hl hmem => ?_⟩
    obtain rfl | hlater := List.mem_cons.1 hmem
    · exact hrest.inReach false (hone.kicked found hl List.mem_cons_self)
    · exact hrest.kicked found (hone.inReach found hl) hlater

/-- What any other step makes of the line of a session: it signals nothing, starts nothing, and what
has finished does not go on. -/
structure Stays (l l' : Line) : Prop where
  task : l'.task.isSome = l.task.isSome
  finished : l.goesOn? = some false → l'.goesOn? = some false
  inReach : ∀ found, l.InReach found → l'.InReach found

theorem stays_onTask (l : Line) {f : SessionTask → SessionTask}
    (hrunning : ∀ t, (f t).isRunning = t.isRunning)
    (hf : ∀ (t : SessionTask) found, t.InReach found → (f t).InReach found) :
    Stays l (l.onTask f) where
  task := by rw [Line.onTask, Option.isSome_map]
  finished hl := by rw [l.goesOn_onTask hrunning, hl]
  inReach found hl := hl.onTask fun t ht => hf t found ht

theorem Line.endures_of_move {c : Config} {now : Time} {trusts : Fingerprint → Bool} {part : Part}
    {m : SessionTask.Moved} (hm : l.move? c now trusts part = some m) :
    ∃ t, l.task = some t ∧ SessionTask.Endures t m := by
  obtain ⟨t, ht, hm⟩ := Option.bind_eq_some_iff.1 hm
  refine ⟨t, ht, ?_⟩
  cases part with
  | reader => exact SessionTask.endures_of_readStep hm
  | session n => exact SessionTask.endures_of_driveStep hm
  | writer => exact SessionTask.endures_of_writeStep hm
  | heed => exact SessionTask.endures_of_heedStep hm
  | close => exact SessionTask.endures_of_endStep hm

theorem Changed.stays (hl : Changed s h id l l') (hh : ∀ nonce, h ≠ .handles nonce) :
    Stays l l' := by
  -- Frames are delivered and sessions started by the node alone, which is not at work here.
  induction hl with
  | same => exact ⟨rfl, fun hl => hl, fun _ hl => hl⟩
  | delivered _ heq => exact absurd heq (hh _)
  | started _ heq => exact absurd heq (hh _)
  | @kicked l₁ _ ih =>
    have hkick := stays_onTask l₁ SessionTask.isRunning_kick fun t found ht =>
      (SessionTask.InReach.kick ht).mono
    exact ⟨hkick.task.trans ih.task, fun hl => hkick.finished (ih.finished hl),
      fun found hl => hkick.inReach found (ih.inReach found hl)⟩
  | moved _ hm =>
    obtain ⟨t, ht, hendures⟩ := Line.endures_of_move hm
    refine ⟨by rw [ht]; rfl, fun hfinished => ?_, fun found hl t' ht' => ?_⟩
    · rw [Line.goesOn?, ht, Option.map_some, Option.some.injEq] at hfinished
      rw [Line.goesOn?, Option.map_some, Option.some.injEq, ← Bool.not_eq_true]
      exact fun hrunning => by rw [hendures.running hrunning] at hfinished; cases hfinished
    · cases ht'
      exact (hl t ht).endures hendures
  | answered => exact stays_onTask _ (fun _ => rfl) fun t found ht => ht
  | changed conn => exact ⟨rfl, fun hl => hl, fun _ hl => hl⟩

/-! ## The invariant -/

/-- The connections that the node has not been told of yet. -/
def arrivals (s : Station) : List SessionId := s.queue.filterMap Node.arrival?

/-- The group knows the session. -/
def found (s : Station) (id : SessionId) : Bool := s.node.group.sessions.contains id

/-- Every session of a station is in reach of the node. -/
structure Tended (s : Station) : Prop where
  inStep : s.node.group.InStep
  /-- The node is told of a connection once, -/
  once : s.arrivals.Nodup
  /-- and no session is started on it before. -/
  arriving : ∀ id ∈ s.arrivals, ∃ l, s.lines.get? id = some l ∧ l.task = none
  attached : ∀ id, s.found id = true → ∃ l t, s.lines.get? id = some l ∧ l.task = some t
  /-- A session whose end is reported has finished. -/
  closed : ∀ id reason, .report id (.closed reason) ∈ s.queue →
    ∃ l, s.lines.get? id = some l ∧ l.goesOn? = some false
  inReach : ∀ id l, s.lines.get? id = some l → l.InReach (s.found id)

theorem tended_start {c : Config} {me : LocalIdentity} {port : UInt16}
    {machine : List Net.IpAddress} {registry : Registry}
    (hstart : start c me port machine registry = .ok s) : Tended s := by
  obtain ⟨-, rfl⟩ := start_spec hstart
  exact
    { inStep := Group.inStep_fresh c.historyLimit
      once := List.nodup_nil
      arriving := fun id hid => by cases hid
      attached := fun id hid => by cases hid
      closed := fun id reason hclosed => by cases hclosed
      inReach := fun id l hl => by cases hl }

theorem task_of_goesOn {b : Bool} (hl : l.goesOn? = some b) :
    ∃ t, l.task = some t ∧ t.isRunning = b := by
  obtain ⟨t, ht, hb⟩ := Option.map_eq_some_iff.1 hl
  exact ⟨t, ht, hb⟩

/-- A connection that the node has not been told of yet has no session in the group. -/
theorem Tended.not_found (ht : Tended s) (hid : id ∈ s.arrivals) : s.found id = false := by
  rw [← Bool.not_eq_true]
  intro hfound
  obtain ⟨l, hl, hnone⟩ := ht.arriving id hid
  obtain ⟨l', t, hl', hsome⟩ := ht.attached id hfound
  rw [hl] at hl'
  cases hl'
  rw [hnone] at hsome
  cases hsome

theorem inReach_of_finished {b : Bool} (hl : l.goesOn? = some false) : l.InReach b := by
  intro t ht hrunning
  rw [Line.goesOn?, ht, Option.map_some, hrunning] at hl
  cases hl

/-- A session is started on a connection that the node takes up. -/
theorem get?_handle_of_arrival (nonce : Bytes) (rest : List Node.Command) {c : Node.Command}
    (hc : Node.arrival? c = some id) (hl : s.lines.get? id = some l) :
    ∃ direction, (s.handle nonce c rest).lines.get? id = some { l with
      task := some (SessionTask.start s.config.sessionSettings direction l.wire.mine l.wire.theirs
        s.config.outboxCapacity s.now nonce).1 } := by
  obtain ⟨⟨direction, heffects⟩, -⟩ := Node.handle_of_arrival s.node hc s.room
  refine ⟨direction, ?_⟩
  show ((s.node.handle s.room c).effects.foldl (serve s.config s.now nonce) s.lines).get? id = _
  rw [heffects, List.foldl_cons, List.foldl_nil, get?_serve, hl]
  simp [session?, Line.take]

/-- Another line is served, and no session is started on it. -/
theorem served_handle (nonce : Bytes) (rest : List Node.Command) {c : Node.Command}
    (hc : Node.arrival? c ≠ some id) (hl : s.lines.get? id = some l) :
    ∃ l', (s.handle nonce c rest).lines.get? id = some l' ∧
      Served id (s.node.handle s.room c).effects l l' :=
  served_foldl s.config s.now nonce (fun _ hstart => hc (Node.arrival_of_start hstart)) s.lines hl

theorem mem_arrivals {c : Node.Command} {rest : List Node.Command}
    (hqueue : s.queue = c :: rest) (hc : Node.arrival? c = some id) : id ∈ s.arrivals :=
  List.mem_filterMap.2 ⟨c, hqueue ▸ List.mem_cons_self, hc⟩

/-- When the node has handled a command, every session is in reach. -/
theorem Tended.inReach_handle (ht : Tended s) (nonce : Bytes) {c : Node.Command}
    {rest : List Node.Command} (hqueue : s.queue = c :: rest)
    (hl' : (s.handle nonce c rest).lines.get? id = some l') :
    l'.InReach ((s.handle nonce c rest).found id) := by
  cases hl : s.lines.get? id with
  | none =>
    rw [(changed_handle rfl hqueue id).1 hl] at hl'
    cases hl'
  | some l =>
    by_cases hc : Node.arrival? c = some id
    · -- The session has just been started, and the group knows it.
      obtain ⟨direction, hstarted⟩ := get?_handle_of_arrival nonce rest hc hl
      rw [hstarted] at hl'
      cases hl'
      obtain ⟨-, e, -, hgroup⟩ := Node.handle_of_arrival s.node hc s.room
      have hfound : (s.handle nonce c rest).found id = true := by
        show (s.node.handle s.room c).node.group.sessions.contains id = true
        rw [hgroup, Table.contains, Group.get?_sessions_attach, if_pos rfl]
        rfl
      rintro t ⟨⟩
      rw [hfound]
      exact SessionTask.inReach_start _ _ _ _ _ _ _
    · obtain ⟨l₁, hl₁, hserved⟩ := served_handle nonce rest hc hl
      rw [hl'] at hl₁
      cases hl₁
      have hreach := ht.inReach id l hl
      cases hfound : s.found id with
      | false => exact (hserved.inReach false (hfound ▸ hreach)).mono
      | true =>
        -- The group keeps the session, tells it to end, or drops it because it has ended.
        obtain hkept | hkicked | ⟨reason, rfl⟩ :=
          Node.kept_or_kicked c s.room hfound
        · rw [hfound] at hreach
          rw [show (s.handle nonce c rest).found id = true from hkept]
          exact hserved.inReach true hreach
        · exact (hserved.kicked _ hreach hkicked).mono
        · obtain ⟨l₁, hl₁, hfinished⟩ := ht.closed id reason (hqueue ▸ List.mem_cons_self)
          rw [hl] at hl₁
          cases hl₁
          exact inReach_of_finished (hserved.goesOn.trans hfinished)

/-- The node handles a command. -/
theorem Tended.handle (ht : Tended s) (nonce : Bytes) {c : Node.Command} {rest : List Node.Command}
    (hqueue : s.queue = c :: rest) : Tended (s.handle nonce c rest) := by
  have harrivals : s.arrivals = (Node.arrival? c).toList ++ rest.filterMap Node.arrival? := by
    rw [arrivals, hqueue, List.filterMap_cons]
    cases Node.arrival? c <;> rfl
  have harrived : ∀ {id}, Node.arrival? c = some id → id ∈ s.arrivals := mem_arrivals hqueue
  exact
    { inStep := Node.inStep_handle ht.inStep fun id hc => ht.not_found (harrived hc)
      once := by
        refine List.Nodup.sublist ?_ ht.once
        rw [harrivals]
        exact List.sublist_append_right _ _
      arriving := fun id hid => by
        have hc : Node.arrival? c ≠ some id := by
          intro hc
          have honce := ht.once
          rw [harrivals, hc] at honce
          exact (List.nodup_cons.1 honce).1 hid
        obtain ⟨l, hl, hnone⟩ := ht.arriving id (harrivals ▸ List.mem_append_right _ hid)
        obtain ⟨l', hl', hserved⟩ := served_handle nonce rest hc hl
        have hgoesOn := hserved.goesOn
        rw [Line.goesOn?, Line.goesOn?, hnone] at hgoesOn
        exact ⟨l', hl', Option.map_eq_none_iff.1 hgoesOn⟩
      attached := fun id hfound => by
        by_cases hc : Node.arrival? c = some id
        · obtain ⟨l, hl, -⟩ := ht.arriving id (harrived hc)
          obtain ⟨direction, hl'⟩ := get?_handle_of_arrival nonce rest hc hl
          exact ⟨_, _, hl', rfl⟩
        · obtain ⟨l, t, hl, htask⟩ :=
            ht.attached id ((Node.contains_of_handle hfound).resolve_right hc)
          obtain ⟨l', hl', hserved⟩ := served_handle nonce rest hc hl
          have hgoesOn : l'.goesOn? = some t.isRunning := by
            rw [hserved.goesOn, Line.goesOn?, htask, Option.map_some]
          obtain ⟨t', ht', -⟩ := task_of_goesOn hgoesOn
          exact ⟨l', t', hl', ht'⟩
      closed := fun id reason hclosed => by
        obtain ⟨l, hl, hfinished⟩ :=
          ht.closed id reason (by rw [hqueue]; exact List.mem_cons_of_mem _ hclosed)
        have hc : Node.arrival? c ≠ some id := by
          intro hc
          obtain ⟨l₁, hl₁, hnone⟩ := ht.arriving id (harrived hc)
          rw [hl] at hl₁
          cases hl₁
          rw [Line.goesOn?, hnone] at hfinished
          cases hfinished
        obtain ⟨l', hl', hserved⟩ := served_handle nonce rest hc hl
        exact ⟨l', hl', hserved.goesOn.trans hfinished⟩
      inReach := fun id l' hl' => ht.inReach_handle nonce hqueue hl' }

/-! ## The other steps -/

/-- The node is told of a connection when it opens. -/
theorem arrivals_next (hstep : Step s h s') (hh : ∀ nonce, h ≠ .handles nonce) :
    s'.arrivals = s.arrivals ∨ ∃ id l, s.lines.get? id = none ∧
      s'.lines.get? id = some l ∧ l.task = none ∧ s'.arrivals = s.arrivals ++ [id] := by
  -- What the node is told goes to the end of the queue, and only connections count here.
  have told : ∀ c : Node.Command, (s.queue ++ [c]).filterMap Node.arrival? =
      s.arrivals ++ (Node.arrival? c).toList := by
    intro c
    rw [List.filterMap_append]
    cases hc : Node.arrival? c <;> simp [hc, arrivals]
  have untold : ∀ {c : Node.Command}, Node.arrival? c = none →
      (s.queue ++ [c]).filterMap Node.arrival? = s.arrivals := by
    intro c hc
    rw [told, hc]
    exact List.append_nil _
  cases hstep with
  | @opens id w conn how hfresh =>
    refine .inr ⟨id, { wire := w, opening := how, connection := conn }, hfresh,
      by simp [opened, tell, Table.get?_put], rfl, ?_⟩
    exact (told _).trans (by cases how <;> rfl)
  | dialFails | discovers | publishes | stops => exact .inl (untold rfl)
  | @moves id part l m hl hm =>
    refine .inl ?_
    have hreports : (m.notes.filterMap (report? id)).filterMap Node.arrival? = [] := by
      refine List.filterMap_eq_nil_iff.2 fun c hc => ?_
      obtain ⟨n, -, hn⟩ := List.mem_filterMap.1 hc
      cases n <;> cases hn
      rfl
    show (s.queue ++ m.notes.filterMap (report? id)).filterMap Node.arrival? = _
    rw [List.filterMap_append, hreports, List.append_nil]
    rfl
  | handles nonce => exact absurd rfl (hh nonce)
  | refuses | answers | changes | passes => exact .inl rfl

/-- Who reports the end has finished. -/
theorem finished_of_told (hstep : Step s h s') {reason : CloseReason}
    (hc : Tells s h (.report id (.closed reason))) :
    ∃ l, s'.lines.get? id = some l ∧ l.goesOn? = some false := by
  generalize hreport : Node.Command.report id (.closed reason) = c at hc
  cases hc with
  | @opens j w conn how => cases how <;> cases hreport
  | @moves j part l m r hl hm hr =>
    cases hreport
    obtain ⟨t, -, hendures⟩ := Line.endures_of_move hm
    cases hstep with
    | moves hl₁ hm₁ =>
      rw [hl] at hl₁
      cases hl₁
      rw [hm] at hm₁
      cases hm₁
      refine ⟨{ l with task := some m.task, connection := m.connection }, ?_, ?_⟩
      · simp [moved, Table.get?_put]
      · rw [Line.goesOn?, Option.map_some, hendures.closed reason hr]
  | dialFails | discovers | publishes | stops => cases hreport

theorem Tended.step_of_not_handles (ht : Tended s) (hstep : Step s h s')
    (hh : ∀ nonce, h ≠ .handles nonce) : Tended s' := by
  have hnode : s'.node = s.node := by
    obtain hsame | ⟨c, ⟨nonce, rest, heq, -⟩, -⟩ := node_next hstep
    · exact hsame
    · exact absurd heq (hh nonce)
  have hfound : ∀ id, s'.found id = s.found id := fun id => by rw [found, found, hnode]
  have hline : ∀ {id l}, s.lines.get? id = some l →
      ∃ l', s'.lines.get? id = some l' ∧ Stays l l' := by
    intro id l hl
    obtain ⟨l₁, l', hl₁, hl', hchanged⟩ | ⟨hnone, -⟩ := line_next hstep id
    · rw [hl] at hl₁
      cases hl₁
      exact ⟨l', hl', hchanged.stays hh⟩
    · rw [hl] at hnone
      cases hnone
  have harriving : ∀ id ∈ s.arrivals, ∃ l, s'.lines.get? id = some l ∧ l.task = none := by
    intro id hid
    obtain ⟨l, hl, hnone⟩ := ht.arriving id hid
    obtain ⟨l', hl', hstays⟩ := hline hl
    refine ⟨l', hl', ?_⟩
    rw [← Option.isSome_eq_false_iff.trans Option.isNone_iff_eq_none, hstays.task, hnone]
    rfl
  exact
    { inStep := hnode ▸ ht.inStep
      once := by
        obtain hsame | ⟨id, l, hfresh, -, -, hnew⟩ := arrivals_next hstep hh
        · rw [hsame]
          exact ht.once
        · rw [hnew]
          refine List.nodup_append.2 ⟨ht.once, List.nodup_singleton id, ?_⟩
          rintro j hj _ hid rfl
          obtain ⟨l, hl, -⟩ := ht.arriving j hj
          rw [List.mem_singleton.1 hid, hfresh] at hl
          cases hl
      arriving := fun id hid => by
        obtain hsame | ⟨j, l, -, hl, hnone, hnew⟩ := arrivals_next hstep hh
        · exact harriving id (hsame ▸ hid)
        · rw [hnew] at hid
          obtain hold | hid := List.mem_append.1 hid
          · exact harriving id hold
          · rw [List.mem_singleton.1 hid]
            exact ⟨l, hl, hnone⟩
      attached := fun id hid => by
        obtain ⟨l, t, hl, htask⟩ := ht.attached id (hfound id ▸ hid)
        obtain ⟨l', hl', hstays⟩ := hline hl
        obtain ⟨t', ht'⟩ := Option.isSome_iff_exists.1
          (hstays.task.trans (Option.isSome_iff_exists.2 ⟨t, htask⟩))
        exact ⟨l', t', hl', ht'⟩
      closed := fun id reason hclosed => by
        obtain hold | hnew := queue_next hstep hclosed
        · obtain ⟨l, hl, hfinished⟩ := ht.closed id reason hold
          obtain ⟨l', hl', hstays⟩ := hline hl
          exact ⟨l', hl', hstays.finished hfinished⟩
        · exact finished_of_told hstep hnew
      inReach := fun id l' hl' => by
        rw [hfound]
        obtain ⟨l, hl, hchanged⟩ | ⟨w, conn, how, -, rfl⟩ := line_was hstep hl'
        · exact (hchanged.stays hh).inReach _ (ht.inReach id l hl)
        · exact fun t htask => (nomatch htask) }

theorem Tended.step (ht : Tended s) (hstep : Step s h s') : Tended s' := by
  by_cases hh : ∃ nonce, h = .handles nonce
  · obtain ⟨nonce, rfl⟩ := hh
    cases hstep with
    | handles _ _ hqueue => exact ht.handle nonce hqueue
  · exact ht.step_of_not_handles hstep fun nonce heq => hh ⟨nonce, heq⟩

theorem tended_run {c : Config} {me : LocalIdentity} {port : UInt16}
    {machine : List Net.IpAddress} {registry : Registry}
    (hstart : start c me port machine registry = .ok first) (hrun : Run first hs s) : Tended s := by
  induction hrun with
  | start => exact tended_start hstart
  | step _ hstep ih => exact ih.step hstep

/-! ## Shutting down -/

/-- The device that an effect announces to have left the group. -/
def departed? : Node.Effect → Option Device.Identity
  | .group e => e.departed?
  | _ => none

/-- **No session is left behind.** Let a node start and let anything happen. Then a session that has
not finished stands in the group and its signal is unused, or it has been signalled to end. And when
the node handles the command to stop, every session that has not finished is signalled, the group
has no session and no member any more, and the devices that are announced to have left are exactly
those that were members, each once. -/
theorem shutdown_reaches_every_session {c : Config} {me : LocalIdentity} {port : UInt16}
    {machine : List Net.IpAddress} {registry : Registry} {first s : Station}
    {hs : List Happening} (hstart : start c me port machine registry = .ok first)
    (hrun : Run first hs s) :
    (∀ id l t, s.lines.get? id = some l → l.task = some t → t.isRunning = true →
      t.kicked = true ∨
        s.node.group.sessions.contains id = true ∧ t.kickable = true ∧ t.kicked = false) ∧
    ∀ order nonce rest, s.queue = .shutdown order :: rest →
      (∀ id l t, (s.handle nonce (.shutdown order) rest).lines.get? id = some l → l.task = some t →
        t.isRunning = true → t.kicked = true) ∧
      (s.handle nonce (.shutdown order) rest).node.group.sessions.keys = [] ∧
      (s.handle nonce (.shutdown order) rest).node.group.members.keys = [] ∧
      ((s.node.handle s.room (.shutdown order)).effects.filterMap departed?).Perm
        s.node.group.members.keys := by
  have ht := tended_run hstart hrun
  refine ⟨fun id l t hl htask => ht.inReach id l hl t htask, fun order nonce rest hqueue => ?_⟩
  have hsessions : (s.handle nonce (.shutdown order) rest).node.group.sessions.keys = [] :=
    Group.sessions_kickAll s.node.group order
  obtain ⟨hmembers, hdeparted⟩ := ht.inStep.members_kickAll order
  refine ⟨fun id l t hl htask hrunning => ?_, hsessions, hmembers, ?_⟩
  -- The group knows no session any more, so what is in reach can only have its signal.
  · have hnone : ¬ (s.handle nonce (.shutdown order) rest).found id = true := by
      rw [found, ← Table.mem_keys, hsessions]
      exact List.not_mem_nil
    exact ((ht.handle nonce hqueue).inReach id l hl t htask hrunning).resolve_right
      fun hreach => hnone hreach.1
  · have heffects : (s.node.handle s.room (.shutdown order)).effects.filterMap departed? =
        (s.node.group.kickAll order).effects.filterMap Group.Effect.departed? := by
      show ((s.node.group.kickAll order).effects.map Node.Effect.group).filterMap departed? = _
      rw [List.filterMap_map]
      rfl
    rw [heffects]
    exact hdeparted

/-- A device has joined, somebody else has connected, and the node is told to stop. -/
def closing : List Happening :=
  intrusion ++ [.opens 1 { peer := { zeta.socketAddress with port := 50001 } } (heard []) .accepted,
    .handles lonelyNonce, .stops [1]]

/-- Both sessions are signalled, and the device that had joined is announced to have left. -/
theorem shutdown_reaches_member_and_stranger :
    start (.default "/home/user") { name := "alpha" } 17394 [] {} = .ok lonely ∧
      ∃ s, Run lonely closing s ∧ s.queue = [.shutdown [1]] ∧
        s.node.group.sessions.keys = [0, 1] ∧
        (∀ id l t, (s.handle [] (.shutdown [1]) []).lines.get? id = some l → l.task = some t →
          t.isRunning = true → t.kicked = true) ∧
        ((s.node.handle s.room (.shutdown [1])).effects.filterMap departed?).Perm
          [zeta.identity] := by
  have hstart : start (.default "/home/user") { name := "alpha" } 17394 [] {} = .ok lonely := rfl
  have hplay : ((lonely.play? closing).any fun s => s.queue = [.shutdown [1]] &&
      s.node.group.sessions.keys = [0, 1] &&
        s.node.group.members.keys = [zeta.identity]) = true := by
    decide +kernel
  obtain ⟨s, hs, hend⟩ := Option.any_eq_true _ _ |>.1 hplay
  simp only [Bool.and_eq_true, decide_eq_true_eq] at hend
  obtain ⟨⟨hqueue, hsessions⟩, hmembers⟩ := hend
  have hrun := run_of_play hs
  obtain ⟨hsignalled, -, -, hdeparted⟩ :=
    (shutdown_reaches_every_session hstart hrun).2 [1] [] [] hqueue
  exact ⟨hstart, s, hrun, hqueue, hsessions, hsignalled, hmembers ▸ hdeparted⟩

end Station

end SharedClipboard
