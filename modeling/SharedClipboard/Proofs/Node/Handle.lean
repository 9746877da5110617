import SharedClipboard.Proofs.Group.Delivery
import SharedClipboard.Service.Basic

/-!
# What a node does with a command

Most commands are an operation of the group (`Node.operation?`). Of those, the node takes over the
group and what the operation asks for, and may dial one device besides (`handle_of_operation`). The
others take up a connection or put an end to a dial.

The rest says where the things come from that a command leads to: a session is started on the
connection that the command is about, a device that is dialed is one that discovery reported, a
session that is a member afterwards was one before or was just reported as authenticated, and a
frame that is sent to a member carries the content that has just been recorded.
-/

namespace SharedClipboard

namespace Group

variable {g : Group} {room : SessionId → Room} {op : Operation}

/-! ## The discovered devices -/

theorem discovered_promote (g : Group) (id : SessionId) :
    (g.promote id).group.discovered = g.discovered := by
  unfold promote
  split
  · rfl
  · split
    · rfl
    · simp only
      split <;> rfl

theorem discovered_remove (g : Group) (id : SessionId) (reason : CloseReason) :
    (g.remove id reason).group.discovered = g.discovered := by
  unfold remove
  split
  · rfl
  · simp only
    split <;> rfl

theorem discovered_kickEach (g : Group) (ids : List SessionId) :
    (g.kickEach ids).group.discovered = g.discovered := by
  induction ids generalizing g with
  | nil => rfl
  | cons id ids ih =>
    exact (ih (g.remove id .kicked).group).trans (discovered_remove g id .kicked)

theorem discovered_onDiscovery {me : LocalIdentity} {port : UInt16}
    {machine : List Net.IpAddress} {e : DiscoveryEvent} {k : Device.Identity} {d : Device}
    (h : (g.onDiscovery me port machine e).group.discovered.get? k = some d) :
    g.discovered.get? k = some d ∨ e = .added d := by
  have of_put : ∀ d', (g.discovered.put d'.identity d').get? k = some d →
      g.discovered.get? k = some d ∨ DiscoveryEvent.added d' = .added d := by
    intro d' hput
    rw [Table.get?_put] at hput
    split at hput
    · exact .inr (by rw [Option.some.inj hput])
    · exact .inl hput
  unfold onDiscovery at h
  cases e with
  | added d' =>
    simp only at h
    split at h
    · exact .inl h
    · split at h
      · split at h
        · exact .inl h
        · exact of_put d' h
      · exact of_put d' h
  | removed d' =>
    simp only at h
    split at h
    · rw [Table.get?_erase] at h
      split at h
      · cases h
      · exact .inl h
    · exact .inl h

/-- A discovered device was discovered before, or the operation is the report of it. -/
theorem discovered_perform {k : Device.Identity} {d : Device}
    (h : (g.perform room op).group.discovered.get? k = some d) :
    g.discovered.get? k = some d ∨
      ∃ me port machine, op = .discovery me port machine (.added d) := by
  have of_same : ∀ {g' : Group}, g'.discovered = g.discovered →
      g'.discovered.get? k = some d → g.discovered.get? k = some d := by
    intro g' hsame hd
    rwa [hsame] at hd
  -- Every operation by itself, since the report of a discovered device is one of them.
  cases op with
  | promote id => exact .inl (of_same (discovered_promote g id) h)
  | remove id reason => exact .inl (of_same (discovered_remove g id reason) h)
  | kickAll order => exact .inl (of_same (discovered_kickEach g _) h)
  | flushed id seq => exact .inl h
  | acceptUpdate id mime data =>
    obtain ⟨hsame, -⟩ | ⟨e, -, -, -, -, htaken⟩ := acceptUpdate_cases g room id mime data
    · exact .inl (of_same (congrArg discovered hsame) h)
    · simp only [perform, htaken] at h
      exact .inl h
  | publishLocal mime data =>
    obtain ⟨-, hsame⟩ | ⟨-, htaken⟩ := publishLocal_cases g room mime data
    · simp only [perform, hsame] at h
      exact .inl h
    · simp only [perform, htaken] at h
      exact .inl h
  | discovery me port machine e =>
    obtain hold | rfl := discovered_onDiscovery h
    · exact .inl hold
    · exact .inr ⟨me, port, machine, rfl⟩

theorem answer_onDiscovery {me : LocalIdentity} {port : UInt16} {machine : List Net.IpAddress}
    {e : DiscoveryEvent} {d : Device} (h : (g.onDiscovery me port machine e).answer = some d) :
    e = .added d := by
  unfold onDiscovery at h
  cases e with
  | added d' =>
    have of_answer : (if g.hasSessionFor d' then none else some d') = some d →
        DiscoveryEvent.added d' = .added d := by
      intro hd
      split at hd
      · cases hd
      · rw [Option.some.inj hd]
    simp only at h
    split at h
    · cases h
    · split at h <;> exact of_answer h
  | removed d' =>
    simp only at h
    split at h <;> cases h

/-! ## The members -/

/-- The session is a member. -/
def IsMember (g : Group) (id : SessionId) : Prop :=
  ∃ e, g.sessions.get? id = some e ∧ e.role = .authenticated

theorem IsMember.of_attach {j id : SessionId} {e : SessionEntry}
    (h : (g.attach j e).IsMember id) (hrole : e.role = .unauthenticated) : g.IsMember id := by
  obtain ⟨e', he', hrole'⟩ := h
  rw [get?_sessions_attach] at he'
  split at he'
  · cases he'
    rw [hrole] at hrole'
    cases hrole'
  · exact ⟨e', he', hrole'⟩

theorem IsMember.of_accept {mime : String} {data : Bytes} {origin : Origin}
    {except? : Option SessionId} {id : SessionId}
    (h : (g.accept room mime data origin except?).group.IsMember id) : g.IsMember id := by
  obtain ⟨e, he, hrole⟩ := h
  rw [get?_sessions_accept] at he
  split at he
  · obtain ⟨e', he', rfl⟩ := Option.map_eq_some_iff.1 he
    exact ⟨e', he', hrole⟩
  · exact ⟨e, he, hrole⟩

/-- A member was one before, or the operation makes it one. -/
theorem isMember_perform {id : SessionId} (h : (g.perform room op).group.IsMember id) :
    g.IsMember id ∨ op = .promote id := by
  revert h
  apply perform_cases (P := fun g' => g'.IsMember id → g.IsMember id ∨ op = .promote id)
  case same => exact .inl
  case promote =>
    rintro j rfl ⟨e, he, hrole⟩
    obtain ⟨hsame, -⟩ | ⟨e', -, -, -, hsessions, -⟩ := promote_cases g j
    · rw [hsame] at he
      exact .inl ⟨e, he, hrole⟩
    · rw [hsessions] at he
      split at he
      · cases he
      · split at he
        · rename_i hj
          exact .inr (by rw [hj])
        · exact .inl ⟨e, he, hrole⟩
  case remove =>
    rintro j reason - ⟨e, he, hrole⟩
    exact .inl ⟨e, get?_sessions_of_remove he, hrole⟩
  case kickAll =>
    rintro order - ⟨e, he, hrole⟩
    exact .inl ⟨e, get?_sessions_of_kickEach he, hrole⟩
  case accept => exact fun mime data origin except? h => .inl h.of_accept
  case flushed =>
    rintro j seq ⟨e, he, hrole⟩
    rw [get?_sessions_flushed] at he
    split at he
    · obtain ⟨e', he', rfl⟩ := Option.map_eq_some_iff.1 he
      refine .inl ⟨e', he', ?_⟩
      split at hrole <;> exact hrole
    · exact .inl ⟨e, he, hrole⟩
  case discovery => exact fun _ => .inl

/-! ## What is sent -/

/-- A frame that is sent to a session carries the content that the operation brings, which is the
current one afterwards. -/
theorem delivered_perform (hh : g.history.Honest) {id : SessionId} {x : Outgoing}
    (h : .deliver id x ∈ (g.perform room op).effects) :
    ∃ u, (g.perform room op).group.history.current = some u ∧ x = updateFrame u ∧
      ((∃ j, op = .acceptUpdate j u.mime u.data) ∨ op = .publishLocal u.mime u.data) := by
  obtain ⟨mime, data, origin, except?, htakes⟩ | ⟨-, hquiet, -⟩ := takes_or_keeps g room op
  · obtain ⟨hgroup, heffects, -⟩ := perform_of_takes htakes room
    refine ⟨g.history.next mime data origin, ?_, ?_, ?_⟩
    · rw [hgroup]
      exact History.current_record hh mime data origin
    · rw [heffects, accept, List.mem_append] at h
      obtain hdeliver | hannounce := h
      · obtain ⟨j, -, heq⟩ := List.mem_map.1 hdeliver
        cases heq
        rfl
      · simp at hannounce
    · cases htakes with
      | remote => exact .inl ⟨_, rfl⟩
      | own => exact .inr rfl
  · exact absurd (hquiet _ h) (by simp [Effect.spreads])

theorem honest_perform (hh : g.history.Honest) (room : SessionId → Room) (op : Operation) :
    (g.perform room op).group.history.Honest := by
  obtain hsame | ⟨mime, data, origin, -, hrecord⟩ := perform_history g room op
  · rw [hsame]
    exact hh
  · rw [hrecord]
    exact hh.record mime data origin

end Group

namespace Node

variable {n : Node} {room : SessionId → Room} {c : Command}

/-! ## Commands and operations -/

/-- The operation of the group that a command is, if it is one. -/
def operation? (n : Node) : Command → Option Group.Operation
  | .accepted _ | .connected _ _ | .dialFailed _ _ => none
  | .report id .authenticated => some (.promote id)
  | .report id (.update mime data) => some (.acceptUpdate id mime data)
  | .report id (.flushed seq) => some (.flushed id seq)
  | .report id (.closed reason) => some (.remove id reason)
  | .publish mime data => some (.publishLocal mime data)
  | .discovery e => some (.discovery n.identity n.port n.machine e)
  | .shutdown order => some (.kickAll order)

/-- The command that is an operation of the group. -/
def Command.ofOperation : Group.Operation → Command
  | .promote id => .report id .authenticated
  | .remove id reason => .report id (.closed reason)
  | .kickAll order => .shutdown order
  | .acceptUpdate id mime data => .report id (.update mime data)
  | .publishLocal mime data => .publish mime data
  | .flushed id seq => .report id (.flushed seq)
  | .discovery _ _ _ e => .discovery e

theorem eq_ofOperation {op : Group.Operation} (h : n.operation? c = some op) :
    c = .ofOperation op := by
  cases c with
  | accepted _ | connected _ _ | dialFailed _ _ => cases h
  | publish _ _ | shutdown _ | discovery _ =>
    cases h
    rfl
  | report id r =>
    cases r <;> cases h <;> rfl

/-- What a node that dials a device is like. -/
theorem wouldDial_spec {d : Device} (h : n.wouldDial d = true) :
    n.autoConnect = true ∧ n.identity.dialsFirst n.port d = true := by
  simp only [wouldDial, Bool.and_eq_true] at h
  exact ⟨h.1.1.1, h.1.1.2⟩

theorem maybeDial_spec (n : Node) (d : Device) (delay : Nat) :
    (∃ dialing, (n.maybeDial d delay).node = { n with dialing }) ∧
      ((n.maybeDial d delay).effects = [] ∨
        ((n.maybeDial d delay).effects = [.dial d delay] ∧ n.wouldDial d = true)) := by
  unfold maybeDial
  split
  · rename_i hwould
    exact ⟨⟨_, rfl⟩, .inr ⟨rfl, hwould⟩⟩
  · exact ⟨⟨n.dialing, rfl⟩, .inl rfl⟩

/-- What a node is beside its group and its dials stays what it is. -/
structure SameNode (n n' : Node) : Prop where
  identity : n'.identity = n.identity
  port : n'.port = n.port
  machine : n'.machine = n.machine
  autoConnect : n'.autoConnect = n.autoConnect

theorem SameNode.trans {n n' n'' : Node} (h : SameNode n n') (h' : SameNode n' n'') :
    SameNode n n'' :=
  ⟨h'.identity.trans h.identity, h'.port.trans h.port, h'.machine.trans h.machine,
    h'.autoConnect.trans h.autoConnect⟩

/-- What taking up an outcome does: the group is the one of the outcome, and besides what the
outcome asks for, a device may be dialed that the outcome names. -/
theorem takeAndDial_spec (n : Node) (o : Group.Outcome (Option Device)) (delay : Nat)
    (worth : Group → Device → Option Device) :
    SameNode n (n.takeAndDial o delay worth).node ∧
      (n.takeAndDial o delay worth).node.group = o.group ∧
      ((n.takeAndDial o delay worth).effects = o.effects.map .group ∨
        ∃ d, o.answer.bind (worth o.group) = some d ∧ n.autoConnect = true ∧
          n.identity.dialsFirst n.port d = true ∧
          (n.takeAndDial o delay worth).effects = o.effects.map .group ++ [.dial d delay]) := by
  unfold takeAndDial
  simp only
  split
  · exact ⟨⟨rfl, rfl, rfl, rfl⟩, rfl, .inl rfl⟩
  · rename_i d hd
    obtain ⟨⟨dialing, hnode⟩, heffects⟩ := maybeDial_spec (n.take o).node d delay
    rw [hnode]
    refine ⟨⟨rfl, rfl, rfl, rfl⟩, rfl, ?_⟩
    obtain hnone | ⟨hdial, hwould⟩ := heffects
    · exact .inl (by rw [hnone, List.append_nil]; rfl)
    · obtain ⟨hauto, hfirst⟩ := wouldDial_spec hwould
      exact .inr ⟨d, hd, hauto, hfirst, by rw [hdial]; rfl⟩

/-- A command that is an operation of the group does what the operation does. -/
theorem handle_of_operation {op : Group.Operation} (h : n.operation? c = some op)
    (room : SessionId → Room) :
    (n.handle room c).node.group = (n.group.perform room op).group ∧
      ((n.handle room c).effects = (n.group.perform room op).effects.map .group ∨
        ∃ d delay, (c = .discovery (.added d) ∨ ∃ k, n.group.discovered.get? k = some d) ∧
          n.autoConnect = true ∧ n.identity.dialsFirst n.port d = true ∧
          (n.handle room c).effects =
            (n.group.perform room op).effects.map .group ++ [.dial d delay]) := by
  cases c with
  | accepted _ | connected _ _ | dialFailed _ _ => cases h
  | publish mime data | shutdown _ =>
    cases h
    exact ⟨rfl, .inl rfl⟩
  | discovery e =>
    cases h
    obtain ⟨-, hgroup, heffects⟩ :=
      takeAndDial_spec n (n.group.onDiscovery n.identity n.port n.machine e) 0 fun _ d => some d
    refine ⟨hgroup, heffects.imp_right ?_⟩
    rintro ⟨d, hd, hauto, hfirst, heq⟩
    obtain ⟨d', hanswer, hd'⟩ := Option.bind_eq_some_iff.1 hd
    cases hd'
    exact ⟨d, 0, .inl (by rw [Group.answer_onDiscovery hanswer]), hauto, hfirst, heq⟩
  | report id r =>
    cases r with
    | authenticated | update mime data | flushed seq =>
      cases h
      exact ⟨rfl, .inl rfl⟩
    | closed reason =>
      cases h
      obtain ⟨-, hgroup, heffects⟩ :=
        takeAndDial_spec n (n.group.remove id reason) redialDelay Group.discoveredDevice
      refine ⟨hgroup, heffects.imp_right ?_⟩
      rintro ⟨d, hd, hauto, hfirst, heq⟩
      obtain ⟨d', -, hd'⟩ := Option.bind_eq_some_iff.1 hd
      rw [Group.discoveredDevice, Group.discovered_remove] at hd'
      exact ⟨d, _, .inr ⟨_, hd'⟩, hauto, hfirst, heq⟩

theorem eventsOf_group (es : List Group.Effect) :
    Service.eventsOf (es.map .group) = es.filterMap Group.Effect.event? := by
  rw [Service.eventsOf, List.filterMap_map]
  rfl

/-- A command that is an operation announces what the operation announces. -/
theorem eventsOf_handle {op : Group.Operation} (h : n.operation? c = some op)
    (room : SessionId → Room) : Service.eventsOf (n.handle room c).effects =
      (n.group.perform room op).effects.filterMap Group.Effect.event? := by
  obtain ⟨-, heffects | ⟨d, delay, -, -, -, heffects⟩⟩ := handle_of_operation h room
  · rw [heffects, eventsOf_group]
  · rw [heffects, Service.eventsOf, List.filterMap_append]
    exact (List.append_nil _).trans (eventsOf_group _)

/-- The other commands take up a connection, as one of nobody that is a member, or put an end to a
dial. -/
theorem group_of_connection (h : n.operation? c = none) (room : SessionId → Room) :
    (n.handle room c).node.group = n.group ∨ ∃ id e, e.role = .unauthenticated ∧
      (n.handle room c).node.group = n.group.attach id e := by
  cases c with
  | accepted a => exact .inr ⟨a.id, _, rfl, rfl⟩
  | connected a d => exact .inr ⟨a.id, _, rfl, rfl⟩
  | dialFailed d e => exact .inl rfl
  | publish _ _ | shutdown _ | discovery _ => cases h
  | report id r => cases r <;> cases h

/-- What they ask for is that a session is started on the connection. -/
theorem effects_of_connection (h : n.operation? c = none) (room : SessionId → Room) :
    (∃ a, c = .accepted a ∧ (n.handle room c).effects = [.start a.id .inbound]) ∨
      (∃ a d, c = .connected a d ∧ (n.handle room c).effects = [.start a.id .outbound]) ∨
      (n.handle room c).effects = [] := by
  cases c with
  | accepted a => exact .inl ⟨a, rfl, rfl⟩
  | connected a d => exact .inr (.inl ⟨a, d, rfl, rfl⟩)
  | dialFailed d e => exact .inr (.inr rfl)
  | publish _ _ | shutdown _ | discovery _ => cases h
  | report id r => cases r <;> cases h

theorem sameNode_handle (n : Node) (room : SessionId → Room) (c : Command) :
    SameNode n (n.handle room c).node := by
  cases c with
  | accepted _ | connected _ _ | dialFailed _ _ | publish _ _ | shutdown _ =>
    exact ⟨rfl, rfl, rfl, rfl⟩
  | discovery e => exact (takeAndDial_spec n _ _ _).1
  | report id r =>
    cases r with
    | authenticated | update _ _ | flushed _ => exact ⟨rfl, rfl, rfl, rfl⟩
    | closed reason => exact (takeAndDial_spec n _ _ _).1

/-! ## Where things come from -/

/-- A session is started on a connection that came in or that was dialed. -/
theorem start_of_handle {id : SessionId} {direction : Direction}
    (h : .start id direction ∈ (n.handle room c).effects) :
    (∃ a, c = .accepted a ∧ a.id = id ∧ direction = .inbound) ∨
      ∃ a d, c = .connected a d ∧ a.id = id ∧ direction = .outbound := by
  cases hop : n.operation? c with
  | some op =>
    obtain ⟨-, heffects | ⟨d, delay, -, -, -, heffects⟩⟩ := handle_of_operation hop room
    all_goals simp [heffects] at h
  | none =>
    obtain ⟨a, rfl, heffects⟩ | ⟨a, d, rfl, heffects⟩ | heffects := effects_of_connection hop room
    · rw [heffects, List.mem_singleton] at h
      cases h
      exact .inl ⟨a, rfl, rfl, rfl⟩
    · rw [heffects, List.mem_singleton] at h
      cases h
      exact .inr ⟨a, d, rfl, rfl, rfl⟩
    · rw [heffects] at h
      cases h

/-- A device that is dialed is one that discovery reports now or reported before. -/
theorem dial_of_handle {d : Device} {delay : Nat} (h : .dial d delay ∈ (n.handle room c).effects) :
    n.autoConnect = true ∧ n.identity.dialsFirst n.port d = true ∧
      (c = .discovery (.added d) ∨ ∃ k, n.group.discovered.get? k = some d) := by
  cases hop : n.operation? c with
  | some op =>
    obtain ⟨-, heffects | ⟨d', delay', hworth, hauto, hfirst, heffects⟩⟩ :=
      handle_of_operation hop room
    · simp [heffects] at h
    · simp only [heffects, List.mem_append, List.mem_map, reduceCtorEq, and_false, exists_false,
        List.mem_singleton, Effect.dial.injEq, false_or] at h
      obtain ⟨rfl, -⟩ := h
      exact ⟨hauto, hfirst, hworth⟩
  | none =>
    obtain ⟨a, -, heffects⟩ | ⟨a, d, -, heffects⟩ | heffects := effects_of_connection hop room
    all_goals simp [heffects] at h

theorem discovered_handle {k : Device.Identity} {d : Device}
    (h : (n.handle room c).node.group.discovered.get? k = some d) :
    n.group.discovered.get? k = some d ∨ c = .discovery (.added d) := by
  cases hop : n.operation? c with
  | some op =>
    rw [(handle_of_operation hop room).1] at h
    obtain hold | ⟨me, port, machine, rfl⟩ := Group.discovered_perform h
    · exact .inl hold
    · exact .inr (eq_ofOperation hop)
  | none =>
    obtain hgroup | ⟨id, e, -, hgroup⟩ := group_of_connection hop room
    all_goals
      rw [hgroup] at h
      exact .inl h

/-- A member was one before, or its session has just reported that its peer may take part. -/
theorem isMember_handle {id : SessionId} (h : (n.handle room c).node.group.IsMember id) :
    n.group.IsMember id ∨ c = .report id .authenticated := by
  cases hop : n.operation? c with
  | some op =>
    rw [(handle_of_operation hop room).1] at h
    obtain hold | rfl := Group.isMember_perform h
    · exact .inl hold
    · exact .inr (eq_ofOperation hop)
  | none =>
    obtain hgroup | ⟨id, e, hrole, hgroup⟩ := group_of_connection hop room
    · rw [hgroup] at h
      exact .inl h
    · rw [hgroup] at h
      exact .inl (h.of_attach hrole)

theorem honest_handle (h : n.group.history.Honest) (room : SessionId → Room) (c : Command) :
    (n.handle room c).node.group.history.Honest := by
  cases hop : n.operation? c with
  | some op =>
    rw [(handle_of_operation hop room).1]
    exact Group.honest_perform h room op
  | none =>
    obtain hgroup | ⟨id, e, -, hgroup⟩ := group_of_connection hop room
    all_goals
      rw [hgroup]
      exact h

/-- A frame that is sent to a session carries the content that has just been published here or
reported by another session, which is the current one now. -/
theorem delivered_handle (hh : n.group.history.Honest) {id : SessionId} {x : Outgoing}
    (h : .group (.deliver id x) ∈ (n.handle room c).effects) :
    ∃ u, (n.handle room c).node.group.history.current = some u ∧ x = Group.updateFrame u ∧
      (c = .publish u.mime u.data ∨ ∃ j, c = .report j (.update u.mime u.data)) := by
  cases hop : n.operation? c with
  | some op =>
    obtain ⟨hgroup, heffects⟩ := handle_of_operation hop room
    have hdelivered : .deliver id x ∈ (n.group.perform room op).effects := by
      obtain heffects | ⟨d, delay, -, -, -, heffects⟩ := heffects
      all_goals simpa [heffects] using h
    obtain ⟨u, hcurrent, rfl, hbrings⟩ := Group.delivered_perform hh hdelivered
    refine ⟨u, by rw [hgroup, hcurrent], rfl, ?_⟩
    obtain ⟨j, rfl⟩ | rfl := hbrings
    · exact .inr ⟨j, eq_ofOperation hop⟩
    · exact .inl (eq_ofOperation hop)
  | none =>
    obtain ⟨a, -, heffects⟩ | ⟨a, d, -, heffects⟩ | heffects := effects_of_connection hop room
    all_goals simp [heffects] at h

end Node

end SharedClipboard
