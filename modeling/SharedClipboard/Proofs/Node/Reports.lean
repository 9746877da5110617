import SharedClipboard.Proofs.Group.Announcement
import SharedClipboard.Proofs.Node.Dialing
import SharedClipboard.Proofs.Node.Shutdown
import SharedClipboard.Proofs.Session.Finality

/-!
# What comes of a session

In the course of a run a session tells its node certain things (`Station.told`), the node hears them
in this order, some time later (`Station.heardOf`), and announces what comes of them
(`Station.caused`).

**Theorem (`admission_is_final`).** In every run of a station, a session that has told that its peer
may take part does not end because authentication failed, and the first packet of the handshake that
it takes afterwards ends it as a violation of the protocol. So no session causes both that a device
is announced to have joined and that an authentication is announced to have failed. A session that
ended because authentication failed was not admitted, and causes one announcement, of this failure.

The invariant (`Account`) ties the three records together. How far the session is says what it may
have told (`SessionTask.Voice`), and the node has heard the first part of that. As long as this part
tells neither of an admission nor of the end, the session stands in the group as a stranger and
nothing was announced because of it.
-/

namespace SharedClipboard

/-! ## What a session tells -/

/-- A step of any part of the session on a line is a step of its loop, or one of the others. -/
theorem Station.Line.drives_or_winds {l : Station.Line} {c : Config} {now : Time}
    {trusts : Fingerprint → Bool} {part : Station.Part} {m : SessionTask.Moved}
    (hm : l.move? c now trusts part = some m) :
    ∃ t, l.task = some t ∧
      ((∃ n, t.driveStep n now trusts l.connection = some m) ∨ SessionTask.Winds t m) := by
  obtain ⟨t, ht, hm⟩ := Option.bind_eq_some_iff.1 hm
  refine ⟨t, ht, ?_⟩
  cases part with
  | reader => exact .inr (SessionTask.winds_of_readStep hm)
  | session n => exact .inl ⟨n, hm⟩
  | writer => exact .inr (SessionTask.winds_of_writeStep hm)
  | heed => exact .inr (SessionTask.winds_of_heedStep hm)
  | close => exact .inr (SessionTask.winds_of_endStep hm)

/-! ## What the node does with a report -/

/-- The operation of the group that the report of a session is. -/
def Report.operation (id : SessionId) : Report → Group.Operation
  | .authenticated => .promote id
  | .update mime data => .acceptUpdate id mime data
  | .flushed seq => .flushed id seq
  | .closed reason => .remove id reason

namespace Node

variable {n : Node} {room : SessionId → Room} {c : Command} {id : SessionId}

theorem operation_report (n : Node) (id : SessionId) (r : Report) :
    n.operation? (.report id r) = some (r.operation id) := by
  cases r <;> rfl

/-- Who is a stranger stays one until its session is admitted or ends, or the node stops. -/
theorem stranger_handle (h : n.group.Stranger id) (hstep : n.group.InStep)
    (hauth : c ≠ .report id .authenticated) (hclosed : ∀ reason, c ≠ .report id (.closed reason))
    (hstop : c.isShutdown = false) : (n.handle room c).node.group.Stranger id := by
  -- A command takes up a session, is an operation of the group or leaves the group alone.
  obtain ⟨j, e, -, hrole, hgroup⟩ | ⟨op, hop, hgroup⟩ | hgroup := group_handle_cases n room c
  all_goals rw [hgroup]
  · rw [Group.Stranger, Group.get?_sessions_attach]
    split
    · exact ⟨e, rfl, hrole⟩
    · exact h
  · have hc := eq_ofOperation hop
    refine h.perform hstep ?_ ?_ ?_
    · rintro rfl
      exact hauth hc
    · rintro reason rfl
      exact hclosed reason hc
    · rintro order rfl
      rw [hc] at hstop
      cases hstop
  · exact h

theorem stranger_of_arrival (harrival : arrival? c = some id) :
    (n.handle room c).node.group.Stranger id := by
  obtain ⟨-, e, hrole, hgroup⟩ := handle_of_arrival n harrival room
  rw [hgroup, Group.Stranger, Group.get?_sessions_attach, if_pos rfl]
  exact ⟨e, rfl, hrole⟩

end Node

namespace Station

variable {first s s' : Station} {hs : List Happening} {h : Happening} {id : SessionId} {α : Type}

/-! ## The records of a run -/

/-- What the happenings of a run lead to, one after the other. -/
def gather (f : Station → Happening → List α) (s : Station) : List Happening → List α
  | [] => []
  | h :: hs => f s h ++ ((s.next? h).map fun s' => gather f s' hs).getD []

theorem gather_snoc (f : Station → Happening → List α) (hrun : Run first hs s) (h : Happening) :
    gather f first (hs ++ [h]) = gather f first hs ++ f s h := by
  have hplay := play?_of_run hrun
  clear hrun
  induction hs generalizing first with
  | nil =>
    cases hplay
    cases hnext : s.next? h <;> simp [gather, hnext]
  | cons h₁ hs ih =>
    rw [play?, play?_cons, Option.bind_eq_some_iff] at hplay
    obtain ⟨s₁, hnext, hrest⟩ := hplay
    simp [gather, hnext, ih hrest]

/-- What the session tells at a step. -/
def tells (id : SessionId) (s : Station) : Happening → List Report
  | .moves j part =>
    if j = id then
      match (s.lines.get? j).bind (·.move? s.config s.now s.registry.trusts part) with
      | some m => SessionTask.reports m.notes
      | none => []
    else []
  | _ => []

/-- The report of the session that a command is. -/
def reportOf? (id : SessionId) : Node.Command → Option Report
  | .report j r => if j = id then some r else none
  | _ => none

/-- What the node hears of the session at a step. -/
def hears (id : SessionId) (s : Station) : Happening → List Report
  | .handles _ => (s.queue.head?.bind (reportOf? id)).toList
  | _ => []

/-- What the node announces at a step because of what it hears of the session. -/
def causes (id : SessionId) (s : Station) : Happening → List Event
  | .handles _ =>
    match s.queue.head?.bind (reportOf? id) with
    | some r => Service.eventsOf (s.node.handle s.room (.report id r)).effects
    | none => []
  | _ => []

/-- What the session has told. -/
def told (id : SessionId) (first : Station) (hs : List Happening) : List Report :=
  gather (tells id) first hs

/-- What the node has heard of the session. -/
def heardOf (id : SessionId) (first : Station) (hs : List Happening) : List Report :=
  gather (hears id) first hs

/-- What was announced because of the session. -/
def caused (id : SessionId) (first : Station) (hs : List Happening) : List Event :=
  gather (causes id) first hs

/-- What the session has told and the node has not heard yet. -/
def unheard (id : SessionId) (s : Station) : List Report := s.queue.filterMap (reportOf? id)

/-- How far the session is, once it is started. -/
def stage? (id : SessionId) (s : Station) : Option SessionTask.Stage :=
  ((s.lines.get? id).bind (·.task)).map (·.stage)

/-! ## How far a session is -/

theorem Line.stage_onTask (l : Line) {f : SessionTask → SessionTask}
    (hf : ∀ t, (f t).stage = t.stage) :
    (l.onTask f).task.map (·.stage) = l.task.map (·.stage) := by
  simp [Line.onTask, Option.map_map, Function.comp_def, hf]

/-- Only the start of a session and the steps of its parts change how far it is. -/
theorem Changed.stage {l l' : Line} (hl : Changed s h id l l')
    (harrival : ∀ c, s.Handles h c → Node.arrival? c ≠ some id)
    (hmoves : ∀ part, h ≠ .moves id part) :
    l'.task.map (·.stage) = l.task.map (·.stage) := by
  induction hl with
  | same | changed => rfl
  | delivered _ _ _ _ ih =>
    refine (Line.stage_onTask _ fun t => ?_).trans ih
    rfl
  | kicked _ ih => exact (Line.stage_onTask _ SessionTask.stage_kick).trans ih
  | started _ hh hqueue hstart =>
    exact absurd (Node.arrival_of_start hstart) (harrival _ ⟨_, _, hh, hqueue⟩)
  | moved hh => exact absurd hh (hmoves _)
  | answered => exact Line.stage_onTask _ fun _ => rfl

/-- What a step does to a session: one of its parts makes a step, or it is started, or it stays as
far as it is and tells nothing. -/
inductive Proceeds (id : SessionId) (s : Station) (h : Happening) (s' : Station) : Prop where
  | moves {l : Line} {part : Part} {m : SessionTask.Moved} : s.lines.get? id = some l →
      l.move? s.config s.now s.registry.trusts part = some m →
      s'.stage? id = some m.task.stage → tells id s h = SessionTask.reports m.notes →
      Proceeds id s h s'
  | begins {c : Node.Command} {l : Line} {direction : Direction} {nonce : Bytes} :
      s.Handles h c → Node.arrival? c = some id → s.stage? id = none →
      s'.stage? id = some (SessionTask.start s.config.sessionSettings direction l.wire.mine
        l.wire.theirs s.config.outboxCapacity s.now nonce).1.stage →
      tells id s h = [] → Proceeds id s h s'
  | stays : s'.stage? id = s.stage? id → tells id s h = [] → Proceeds id s h s'

theorem stage?_of_line {l : Line} (hl : s.lines.get? id = some l) :
    s.stage? id = l.task.map (·.stage) := by
  rw [stage?, hl]
  rfl

theorem proceeds_of_step (ht : Tended s) (hstep : Step s h s') (id : SessionId) :
    Proceeds id s h s' := by
  by_cases hmoves : ∃ part, h = .moves id part
  · obtain ⟨part, rfl⟩ := hmoves
    cases hstep with
    | @moves _ _ l m hl hm =>
      refine .moves hl hm ?_ (by simp [tells, hl, hm])
      exact stage?_of_line (l := { l with task := some m.task, connection := m.connection })
        (by simp [moved, Table.get?_put])
  replace hmoves : ∀ part, h ≠ .moves id part := fun part heq => hmoves ⟨part, heq⟩
  have hsilent : tells id s h = [] := by
    cases h with
    | moves j part => exact if_neg fun hj => hmoves part (by rw [hj])
    | _ => rfl
  by_cases harrival : ∃ c, s.Handles h c ∧ Node.arrival? c = some id
  · obtain ⟨c, hhandles, hc⟩ := harrival
    obtain ⟨nonce, rest, rfl, hqueue⟩ := hhandles
    obtain ⟨l, hl, hnone⟩ := ht.arriving id (mem_arrivals hqueue hc)
    cases hstep with
    | handles _ _ hqueue' =>
      rw [hqueue] at hqueue'
      cases hqueue'
      obtain ⟨direction, hl'⟩ := get?_handle_of_arrival nonce rest hc hl
      refine .begins ⟨nonce, rest, rfl, hqueue⟩ hc ?_ (stage?_of_line hl') hsilent
      rw [stage?_of_line hl, hnone]
      rfl
  · refine .stays ?_ hsilent
    obtain ⟨l, l', hl, hl', hchanged⟩ | ⟨hnone, hnone' | ⟨w, conn, how, -, hl'⟩⟩ :=
      line_next hstep id
    · rw [stage?_of_line hl, stage?_of_line hl']
      exact hchanged.stage (fun c hhandles hc => harrival ⟨c, hhandles, hc⟩) hmoves
    · rw [stage?, stage?, hnone, hnone']
    · rw [stage?_of_line hl', stage?, hnone]
      rfl

/-- What a session has told goes with how far it is; before it is started it has told nothing. -/
def Spoken (told : List Report) : Option SessionTask.Stage → Prop
  | some stage => SessionTask.Voice told stage
  | none => told = []

theorem Spoken.step {told : List Report} (h₀ : Spoken told (s.stage? id)) (ht : Tended s)
    (hstep : Step s h s') : Spoken (told ++ tells id s h) (s'.stage? id) := by
  cases proceeds_of_step ht hstep id with
  | moves hl hm hstage htells =>
    obtain ⟨t, htask, ⟨n, hdrives⟩ | hwinds⟩ := Line.drives_or_winds hm
    all_goals
      rw [stage?_of_line hl, htask] at h₀
      rw [hstage, htells]
    · exact SessionTask.Voice.of_driveStep h₀ hdrives
    · exact SessionTask.Voice.of_winds h₀ hwinds
  | begins _ _ hnone hstage htells =>
    rw [hnone] at h₀
    rw [hstage, htells, List.append_nil, show told = [] from h₀]
    exact SessionTask.voice_start ..
  | stays hstage htells =>
    rw [hstage, htells, List.append_nil]
    exact h₀

/-- The reason of a session whose loop has stopped stays the only one that it tells. -/
theorem fated_step {reason : CloseReason} {told : List Report} (ht : Tended s)
    (hstep : Step s h s') {stage : SessionTask.Stage} (hs : s.stage? id = some stage)
    (hfated : SessionTask.Fated reason told stage) :
    ∃ stage', s'.stage? id = some stage' ∧
      SessionTask.Fated reason (told ++ tells id s h) stage' := by
  cases proceeds_of_step ht hstep id with
  | moves hl hm hstage htells =>
    obtain ⟨t, htask, ⟨n, hdrives⟩ | hwinds⟩ := Line.drives_or_winds hm
    all_goals
      rw [stage?_of_line hl, htask] at hs
      cases hs
    -- A loop that has stopped takes no step any more, so what is told comes from the other parts.
    · exact absurd hdrives (hfated.not_driveStep _)
    · exact ⟨_, hstage, htells ▸ hfated.of_winds hwinds⟩
  | begins _ _ hnone =>
    rw [hnone] at hs
    cases hs
  | stays hstage htells =>
    refine ⟨stage, hstage.trans hs, ?_⟩
    rw [htells, List.append_nil]
    exact hfated

/-- However long things go on, a session whose loop has stopped tells no other reason. -/
theorem fated_run {reason : CloseReason} (ht : Tended first) {limit : Time}
    (hstage : first.stage? id = some (.draining reason limit)) (hrun : Run first hs s) :
    Tended s ∧ ∃ stage, s.stage? id = some stage ∧
      SessionTask.Fated reason (told id first hs) stage := by
  induction hrun with
  | start => exact ⟨ht, _, hstage, rfl, fun r hmem => (nomatch hmem)⟩
  | @step hs s s' h hrun hstep ih =>
    obtain ⟨htended, stage, hstage, hfated⟩ := ih
    rw [told, gather_snoc _ hrun]
    exact ⟨htended.step hstep, fated_step htended hstep hstage hfated⟩

/-! ## What the node has not heard yet -/

theorem reports_of_notes (id j : SessionId) (notes : List SessionTask.Note) :
    (notes.filterMap (report? j)).filterMap (reportOf? id) =
      if j = id then SessionTask.reports notes else [] := by
  rw [List.filterMap_filterMap, SessionTask.reports]
  split
  · refine List.filterMap_congr fun n _ => ?_
    cases n <;> simp [report?, reportOf?, SessionTask.Note.report?, *]
  · refine List.filterMap_eq_nil_iff.2 fun n _ => ?_
    cases n <;> simp [report?, reportOf?, *]

/-- What is told is heard later, in the same order. -/
theorem unheard_next (hstep : Step s h s') (id : SessionId) :
    hears id s h ++ s'.unheard id = s.unheard id ++ tells id s h := by
  -- What is not a report of the session changes nothing of what it said and the node did not hear.
  have other : ∀ {c : Node.Command}, reportOf? id c = none →
      (s.queue ++ [c]).filterMap (reportOf? id) = s.unheard id ++ [] := by
    intro c hc
    rw [List.filterMap_append, List.filterMap_cons_none hc]
    rfl
  cases hstep with
  | @opens j w conn how => exact other (by cases how <;> rfl)
  | dialFails | discovers | publishes | stops => exact other rfl
  | refuses | answers | changes | passes => exact (List.append_nil _).symm
  | @handles nonce c rest _ hqueue =>
    show (s.queue.head?.bind (reportOf? id)).toList ++ rest.filterMap (reportOf? id) = _ ++ []
    rw [List.append_nil, unheard, hqueue, List.head?_cons, Option.bind_some]
    cases hc : reportOf? id c with
    | none => rw [List.filterMap_cons_none hc]; rfl
    | some r => rw [List.filterMap_cons_some hc]; rfl
  | @moves j part l m hl hm =>
    show (s.queue ++ m.notes.filterMap (report? j)).filterMap (reportOf? id) = _
    rw [List.filterMap_append, reports_of_notes]
    simp only [tells, hl, Option.bind_some, hm]
    rfl

/-! ## The account of a session -/

/-- What a session has told (`ts`), what the node has heard of that (`rs`), and what it announced
because of it (`es`). -/
structure Account (id : SessionId) (ts rs : List Report) (es : List Event) (s : Station) :
    Prop where
  inOrder : ts = rs ++ s.unheard id
  spoken : Spoken ts (s.stage? id)
  joined : ∀ d, .deviceJoined d ∈ es → .authenticated ∈ rs
  failed : ∀ d cause, .authenticationFailed d cause ∈ es → .closed (.auth cause) ∈ rs
  silent : .authenticated ∉ rs → SessionTask.Open rs → es = []
  refused : ∀ cause, .closed (.auth cause) ∈ rs → ∃ d, es = [.authenticationFailed d cause]
  /-- Until an admission or the end is heard of, the session is a stranger. -/
  stranger : s.stopped = false → (s.stage? id).isSome = true → .authenticated ∉ rs →
    SessionTask.Open rs → s.node.group.Stranger id

variable {ts rs : List Report} {es : List Event} {r : Report} {nonce : Bytes}
  {rest : List Node.Command}

theorem Account.not_auth (ha : Account id ts rs es s) (hauth : .authenticated ∈ ts)
    (cause : AuthError) : .closed (.auth cause) ∉ ts := by
  have hspoken := ha.spoken
  cases hstage : s.stage? id with
  | none =>
    rw [hstage] at hspoken
    rw [show ts = [] from hspoken] at hauth
    cases hauth
  | some stage =>
    rw [hstage] at hspoken
    exact SessionTask.Voice.not_auth hspoken hauth cause

/-- As long as something is not heard yet, the end is not, and the session was started. -/
theorem Account.open_of_unheard (ha : Account id ts rs es s)
    (hunheard : s.unheard id ≠ []) :
    SessionTask.Open rs ∧ (s.stage? id).isSome = true := by
  have hspoken := ha.spoken
  rw [ha.inOrder] at hspoken
  cases hstage : s.stage? id with
  | none =>
    rw [hstage] at hspoken
    exact absurd (List.append_eq_nil_iff.1 hspoken).2 hunheard
  | some stage =>
    rw [hstage] at hspoken
    exact ⟨fun reason hmem => hunheard (hspoken.last hmem), rfl⟩

/-- What the node announces when it hears a report: that a device joined only at an admission, and
that an authentication failed only at the end. -/
theorem cause_of_event {n : Node} {room : SessionId → Room} {x : Event}
    (hx : x ∈ Service.eventsOf (n.handle room (.report id r)).effects) :
    ((∃ d, x = .deviceJoined d) → r = .authenticated) ∧
      ∀ d cause, x = .authenticationFailed d cause → r = .closed (.auth cause) := by
  rw [Node.eventsOf_handle (Node.operation_report n id r)] at hx
  obtain ⟨e, he, hevent⟩ := List.mem_filterMap.1 hx
  have hannounce : .announce x ∈ (n.group.perform room (r.operation id)).effects := by
    cases e <;> cases hevent
    exact he
  replace hannounce := Group.announced_perform hannounce
  refine ⟨fun hd => ?_, fun d cause hd => ?_⟩
  · obtain ⟨j, hj⟩ := hannounce.1 hd
    cases r <;> cases hj
    rfl
  · obtain ⟨j, hj⟩ := hannounce.2 d cause hd
    cases r <;> cases hj
    rfl

/-- What the node announces when it hears of a stranger. -/
theorem events_of_stranger {n : Node} {room : SessionId → Room} (hstranger : n.group.Stranger id)
    (hstep : n.group.InStep) :
    (r ≠ .authenticated → (∀ reason, r ≠ .closed reason) →
      Service.eventsOf (n.handle room (.report id r)).effects = []) ∧
    ∀ cause, r = .closed (.auth cause) →
      ∃ d, Service.eventsOf (n.handle room (.report id r)).effects =
        [.authenticationFailed d cause] := by
  rw [Node.eventsOf_handle (Node.operation_report n id r)]
  refine ⟨fun hauth hclosed => ?_, fun cause hr => ?_⟩
  · cases r with
    | authenticated => exact absurd rfl hauth
    | closed reason => exact absurd rfl (hclosed reason)
    | flushed seq => rfl
    | update mime data =>
      have hnone := hstranger.acceptUpdate room mime data
      show (n.group.acceptUpdate room id mime data).effects.filterMap Group.Effect.event? = []
      rw [hnone]
      rfl
  · cases hr
    obtain ⟨d, heffects⟩ := hstranger.remove hstep cause
    refine ⟨d, ?_⟩
    show (n.group.remove id (.auth cause)).effects.filterMap Group.Effect.event? = _
    rw [heffects]
    rfl

/-- The node hears what a session has told. -/
theorem Account.hear (ha : Account id ts rs es s) (ht : Tended s)
    (hstopped : s.stopped = false) (hqueue : s.queue = .report id r :: rest)
    (hnext : Spoken ts ((s.handle nonce (.report id r) rest).stage? id))
    (hunheard : s.unheard id = r :: (s.handle nonce (.report id r) rest).unheard id) :
    Account id ts (rs ++ [r]) (es ++
      Service.eventsOf (s.node.handle s.room (.report id r)).effects)
      (s.handle nonce (.report id r) rest) := by
  obtain ⟨hopen, hstarted⟩ := ha.open_of_unheard (by rw [hunheard]; exact List.cons_ne_nil _ _)
  have hr : r ∈ rs ++ [r] := List.mem_append_right _ (List.mem_singleton_self r)
  -- The session is a stranger until the node hears that it is authenticated.
  have hstranger : .authenticated ∉ rs → s.node.group.Stranger id := fun hauth =>
    ha.stranger hstopped hstarted hauth hopen
  have hearlier : .authenticated ∉ rs ++ [r] → .authenticated ∉ rs :=
    fun hauth hmem => hauth (List.mem_append_left _ hmem)
  have hnotEnd : SessionTask.Open (rs ++ [r]) → ∀ reason, r ≠ .closed reason :=
    fun hopen' reason heq => hopen' reason (heq ▸ hr)
  exact
    { inOrder := by rw [ha.inOrder, hunheard, List.append_assoc]; rfl
      spoken := hnext
      joined := fun d hd => by
        obtain hold | hnew := List.mem_append.1 hd
        · exact List.mem_append_left _ (ha.joined d hold)
        · rw [← (cause_of_event hnew).1 ⟨d, rfl⟩]
          exact hr
      failed := fun d cause hd => by
        obtain hold | hnew := List.mem_append.1 hd
        · exact List.mem_append_left _ (ha.failed d cause hold)
        · rw [← (cause_of_event hnew).2 d cause rfl]
          exact hr
      silent := fun hauth hopen' => by
        rw [ha.silent (hearlier hauth) hopen, List.nil_append]
        exact (events_of_stranger (hstranger (hearlier hauth)) ht.inStep).1
          (fun heq => hauth (heq ▸ hr)) (hnotEnd hopen')
      -- The end is heard last, and the session never said that it was authenticated.
      refused := fun cause hmem => by
        have hlast : r = .closed (.auth cause) :=
          (List.mem_singleton.1 ((List.mem_append.1 hmem).resolve_left (hopen _))).symm
        have htold : .closed (.auth cause) ∈ ts := by
          rw [ha.inOrder, hunheard, hlast]
          simp
        have hauth : .authenticated ∉ rs := fun hauth =>
          ha.not_auth (by rw [ha.inOrder]; exact List.mem_append_left _ hauth) cause htold
        rw [ha.silent hauth hopen, List.nil_append]
        exact (events_of_stranger (hstranger hauth) ht.inStep).2 cause hlast
      stranger := fun _ _ hauth hopen' =>
        Node.stranger_handle (hstranger (hearlier hauth)) ht.inStep
          (fun heq => by cases heq; exact hauth hr)
          (fun reason heq => by cases heq; exact hopen' reason hr) rfl }

/-- A session that is started was started before, or the node takes up its connection now. -/
theorem started_before (ht : Tended s) (hstep : Step s h s')
    (hstarted : (s'.stage? id).isSome = true) :
    (s.stage? id).isSome = true ∨ ∃ c, s.Handles h c ∧ Node.arrival? c = some id := by
  cases proceeds_of_step ht hstep id with
  | moves hl hm =>
    obtain ⟨t, htask, -⟩ := Line.drives_or_winds hm
    exact .inl (by rw [stage?_of_line hl, htask]; rfl)
  | begins hhandles hc => exact .inr ⟨_, hhandles, hc⟩
  | stays hstage => exact .inl (hstage ▸ hstarted)

/-- Whatever else happens, who is a stranger stays one, and who has just come is one. -/
theorem Account.stranger_next (ha : Account id ts rs es s) (ht : Tended s)
    (hstep : Step s h s') (hhears : hears id s h = []) (hstopped : s'.stopped = false)
    (hstarted : (s'.stage? id).isSome = true) (hauth : .authenticated ∉ rs)
    (hopen : SessionTask.Open rs) : s'.node.group.Stranger id := by
  obtain hbefore | ⟨c, hhandles, hc⟩ := started_before ht hstep hstarted
  · have hstranger := ha.stranger (stopped_before hstep hstopped) hbefore hauth hopen
    obtain hsame | ⟨c, hhandles, hnode⟩ := node_next hstep
    · rw [hsame]
      exact hstranger
    · -- The command is no report of the session, and not the last one.
      have hlast := (hhandles.next hstep).2
      rw [hstopped] at hlast
      have hreport : reportOf? id c = none := by
        obtain ⟨nonce, rest, rfl, hqueue⟩ := hhandles
        simpa [hears, hqueue] using hhears
      have hother : ∀ r, c ≠ .report id r := by
        rintro r rfl
        simp [reportOf?] at hreport
      rw [hnode]
      exact Node.stranger_handle hstranger ht.inStep (hother _) (fun reason => hother _)
        hlast.symm
  · rw [(hhandles.next hstep).1]
    exact Node.stranger_of_arrival hc

theorem Account.step (ha : Account id ts rs es s) (ht : Tended s) (hstep : Step s h s') :
    Account id (ts ++ tells id s h) (rs ++ hears id s h) (es ++ causes id s h) s' := by
  have hspoken := ha.spoken.step ht hstep
  have hunheard := unheard_next hstep id
  cases hhears : hears id s h with
  | nil =>
    have hcauses : causes id s h = [] := by
      cases h with
      | handles nonce =>
        have hnone : s.queue.head?.bind (reportOf? id) = none := by simpa [hears] using hhears
        simp only [causes, hnone]
      | _ => rfl
    rw [hhears, List.nil_append] at hunheard
    rw [hcauses, List.append_nil, List.append_nil]
    exact
      { inOrder := by rw [hunheard, ha.inOrder, List.append_assoc]
        spoken := hspoken
        joined := ha.joined
        failed := ha.failed
        silent := ha.silent
        refused := ha.refused
        stranger := ha.stranger_next ht hstep hhears }
  -- The node hears of the session only when it handles one of its reports, one at a time.
  | cons r more =>
    cases hstep with
    | @handles nonce c rest hrunning hqueue =>
      have hr : reportOf? id c = some r ∧ more = [] := by
        simp only [hears, hqueue, List.head?_cons, Option.bind_some] at hhears
        cases hc : reportOf? id c <;> rw [hc] at hhears <;> cases hhears
        exact ⟨rfl, rfl⟩
      obtain ⟨hc, rfl⟩ := hr
      have hreport : c = .report id r := by
        cases c with
        | report j r' =>
          simp only [reportOf?] at hc
          split at hc <;> cases hc
          simp [*]
        | _ => cases hc
      subst hreport
      have hcauses : causes id s (.handles nonce) =
          Service.eventsOf (s.node.handle s.room (.report id r)).effects := by
        simp [causes, hqueue, reportOf?]
      rw [hcauses]
      rw [show tells id s (.handles nonce) = [] from rfl, List.append_nil] at hspoken hunheard ⊢
      rw [hhears] at hunheard
      exact ha.hear ht hrunning hqueue hspoken hunheard.symm
    | _ => cases hhears

theorem account_run {c : Config} {me : LocalIdentity} {port : UInt16}
    {machine : List Net.IpAddress} {registry : Registry}
    (hstart : start c me port machine registry = .ok first) (hrun : Run first hs s)
    (id : SessionId) :
    Account id (told id first hs) (heardOf id first hs) (caused id first hs) s := by
  induction hrun with
  | start =>
    obtain ⟨-, rfl⟩ := start_spec hstart
    exact
      { inOrder := rfl
        spoken := rfl
        joined := fun d hd => (nomatch hd)
        failed := fun d cause hd => (nomatch hd)
        silent := fun _ _ => rfl
        refused := fun cause hmem => (nomatch hmem)
        stranger := fun _ hstarted => (nomatch hstarted) }
  | @step hs s s' h hrun hstep ih =>
    rw [told, heardOf, caused, gather_snoc _ hrun, gather_snoc _ hrun,
      gather_snoc _ hrun]
    exact ih.step (tended_run hstart hrun) hstep

/-! ## Finality -/

/-- The session has stopped its loop for a reason, or has told that it ended for it. -/
def EndsWith (id : SessionId) (told : List Report) (s : Station) (reason : CloseReason) : Prop :=
  (∃ limit, s.stage? id = some (.draining reason limit)) ∨ .closed reason ∈ told

/-- What the session takes in its next step, if it takes the `n`th of what is ready. -/
def upNext? (id : SessionId) (n : Nat) (s : Station) : Option Session.Input :=
  ((s.lines.get? id).bind (·.task)).bind fun t =>
    match t.stage with
    | .running x => (t.ready s.now x)[n]?.map (·.1)
    | _ => none

/-- A session that has told that its peer may take part does not end because authentication
failed. -/
theorem Account.not_endsWith_auth (ha : Account id ts rs es s)
    (hauth : .authenticated ∈ ts) (cause : AuthError) :
    ¬ EndsWith id ts s (.auth cause) := by
  rintro (⟨limit, hstage⟩ | hclosed)
  · have hspoken := ha.spoken
    rw [hstage] at hspoken
    cases hspoken with
    | draining _ hreason => exact hreason hauth cause rfl
  · exact ha.not_auth hauth cause hclosed

/-- A packet of the handshake that a member takes stops its loop as a violation of the protocol. -/
theorem Account.stops_late (ha : Account id ts rs es s) (hauth : .authenticated ∈ ts) {p : Packet}
    (hp : p.type.isHandshake = true) {n : Nat}
    (hnext : s.upNext? id n = some (.received (.packet p)))
    (hstep : Step s (.moves id (.session n)) s') :
    ∃ limit, s'.stage? id = some (.draining .lateHandshake limit) := by
  cases hstep with
  | @moves _ _ l m hl hm =>
    obtain ⟨t, htask, hm⟩ := Option.bind_eq_some_iff.1 hm
    obtain ⟨x, i, t', hstage, -, hinput, hturn, -⟩ := SessionTask.turn_of_driveStep hm
    have hi : i = .received (.packet p) := by
      simpa [upNext?, hl, htask, hstage, hinput] using hnext
    subst hi
    have hspoken := ha.spoken
    rw [stage?_of_line hl, htask, Option.map_some, hstage] at hspoken
    cases hspoken with
    | running _ _ hstate =>
      rw [Session.step_of_late (hstate.2 hauth) hp] at hturn
      refine ⟨s.now + SessionTask.drainTime, ?_⟩
      rw [stage?_of_line (l := { l with task := some m.task, connection := m.connection })
        (by simp [moved, Table.get?_put]), Option.map_some, hturn]
      rfl

/-- **Admission is final.** Let a node start and let anything happen. A session that has told that
its peer may take part does not end because authentication failed, and the next packet of the
handshake that it takes makes it end, whatever happens then, as a violation of the protocol and for
no other reason. No session causes both that a device is announced to have joined and that an
authentication is announced to have failed. And what is announced because of a session of which the
node has heard that it ended because authentication failed is this failure, once, and nothing else;
such a session was not admitted. -/
theorem admission_is_final {c : Config} {me : LocalIdentity} {port : UInt16}
    {machine : List Net.IpAddress} {registry : Registry} {first s : Station}
    {hs : List Happening} (hstart : start c me port machine registry = .ok first)
    (hrun : Run first hs s) (id : SessionId) :
    (.authenticated ∈ told id first hs →
      (∀ cause, ¬ EndsWith id (told id first hs) s (.auth cause)) ∧
      ∀ n p s', p.type.isHandshake = true → s.upNext? id n = some (.received (.packet p)) →
        Step s (.moves id (.session n)) s' → EndsWith id [] s' .lateHandshake ∧
        ∀ later s'', Run s' later s'' → ∀ reason,
          EndsWith id (told id s' later) s'' reason → reason = .lateHandshake) ∧
    ¬ ((∃ d, .deviceJoined d ∈ caused id first hs) ∧
      ∃ d cause, .authenticationFailed d cause ∈ caused id first hs) ∧
    ∀ cause, .closed (.auth cause) ∈ heardOf id first hs →
      .authenticated ∉ told id first hs ∧
        ∃ d, caused id first hs = [.authenticationFailed d cause] := by
  have ha := account_run hstart hrun id
  have hheard : ∀ r ∈ heardOf id first hs, r ∈ told id first hs := fun r hr => by
    rw [ha.inOrder]
    exact List.mem_append_left _ hr
  refine ⟨fun hauth => ⟨ha.not_endsWith_auth hauth, fun n p s' hp hnext hstep => ?_⟩, ?_,
    fun cause hclosed => ⟨fun hauth => ha.not_auth hauth cause (hheard _ hclosed),
      ha.refused cause hclosed⟩⟩
  · obtain ⟨limit, hstage⟩ := ha.stops_late hauth hp hnext hstep
    refine ⟨.inl ⟨limit, hstage⟩, fun later s'' hlater reason hends => ?_⟩
    obtain ⟨-, stage, hstage', hfated⟩ :=
      fated_run ((tended_run hstart hrun).step hstep) hstage hlater
    obtain ⟨limit', hdraining⟩ | hclosed := hends
    · rw [hstage'] at hdraining
      cases hdraining
      exact hfated.1
    · exact hfated.closed hclosed
  · rintro ⟨⟨d, hjoined⟩, d', cause, hfailed⟩
    exact ha.not_auth (hheard _ (ha.joined d hjoined)) cause
      (hheard _ (ha.failed d' cause hfailed))

/-- A device has joined and sends one more challenge, and somebody who answers the challenge with
nothing is turned away. -/
def challengedLate : List Happening :=
  intrusion ++ [.changes 0 (heard (Packet.challengeRequest lonelyNonce).encode), .moves 0 .reader,
    .opens 1 { peer := { zeta.socketAddress with port := 50001 } }
      (heard (Packet.challengeResponse []).encode) .accepted,
    .handles lonelyNonce, .moves 1 .reader, .moves 1 (.session 0), .passes 1000, .moves 1 .close,
    .handles []]

/-- The device is dropped because of the challenge, and the other is announced as one whose
authentication failed. -/
theorem admission_is_final_challenged_late :
    start (.default "/home/user") { name := "alpha" } 17394 [] {} = .ok lonely ∧
      ∃ s s', Run lonely challengedLate s ∧ .authenticated ∈ told 0 lonely challengedLate ∧
        Step s (.moves 0 (.session 0)) s' ∧ EndsWith 0 [] s' .lateHandshake ∧
        (∀ later s'', Run s' later s'' → ∀ reason,
          EndsWith 0 (told 0 s' later) s'' reason → reason = .lateHandshake) ∧
        .closed (.auth .malformed) ∈ heardOf 1 lonely challengedLate ∧
        ∃ d, caused 1 lonely challengedLate = [.authenticationFailed d .malformed] := by
  have hstart : start (.default "/home/user") { name := "alpha" } 17394 [] {} = .ok lonely := rfl
  obtain ⟨hplay, hadmitted, hfailed⟩ : ((lonely.play? challengedLate).any fun s =>
        (s.next? (.moves 0 (.session 0))).isSome &&
          s.upNext? 0 0 = some (.received (.packet (.challengeRequest lonelyNonce)))) = true ∧
      .authenticated ∈ told 0 lonely challengedLate ∧
      .closed (.auth .malformed) ∈ heardOf 1 lonely challengedLate := by
    decide +kernel
  obtain ⟨s, hs, hend⟩ := Option.any_eq_true _ _ |>.1 hplay
  obtain ⟨hmoves, hnext⟩ := (Bool.and_eq_true _ _).mp hend
  obtain ⟨s', hs'⟩ := Option.isSome_iff_exists.1 hmoves
  have hrun := run_of_play hs
  have hstep := step_of_next? hs'
  obtain ⟨hends, honly⟩ := ((admission_is_final hstart hrun 0).1 hadmitted).2 0 _ s' rfl
    (of_decide_eq_true hnext) hstep
  exact ⟨hstart, s, s', hrun, hadmitted, hstep, hends, honly, hfailed,
    ((admission_is_final hstart hrun 1).2.2 _ hfailed).2⟩

end Station

end SharedClipboard
