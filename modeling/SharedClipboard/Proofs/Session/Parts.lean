import SharedClipboard.Proofs.Packet.Canonical
import SharedClipboard.Proofs.Session.Admission
import SharedClipboard.Session.Task

/-!
# What the parts of a running session do

A running session has four parts that take turns: a reader, the session itself, a writer, and the
end. Here is what a step of each of them can do, for the proofs about nodes: whoever runs a session
sees its notes, and has to know what they say about the session and about what was read.

* The reader hands over packets that the codec decoded, and tells nothing (`Reads`).
* The session takes one thing that was there for it, and its notes are its actions (`Drives`).
* The writer and the end leave the session where it is, or end it (`Leaves`).

What an action says about the session that does it stands before them (`Means`): a peer is admitted
without a question or because the answer was yes, a fingerprint that is remembered is the one of the
peer that is admitted, a content that is handed on came in a packet, and what a session sends itself
is no content.
-/

namespace SharedClipboard

/-! ## What the actions of a session say -/

namespace Session

variable {v : View} {s : Session} {i : Input}

theorem promote_actions (s : Session) :
    s.promote.actions = [] ∨ s.promote.actions = s.admission := by
  cases hw : s.handshake.awaitingDecision with
  | false =>
    rw [promote_of_not_awaiting hw]
    exact .inl rfl
  | true => exact .inr (by simp [promote, Handshake.approve, hw, goOn, admission])

/-- The end of a session, a question, or admission without one. -/
theorem onResponse_actions (v : View) (s : Session) (given : Bytes) :
    (s.onResponse v given).actions = [] ∨ (s.onResponse v given).actions = [.ask] ∨
      (s.admittedWithoutAsking v = true ∧ (s.onResponse v given).actions = s.admission) := by
  unfold onResponse
  split
  · exact .inl rfl
  · rename_i h _
    simp only
    split
    · rename_i hgrant
      obtain hnone | hadmits := promote_actions { s with handshake := h }
      · exact .inl hnone
      · exact .inr (.inr ⟨hgrant, hadmits⟩)
    · exact .inr (.inl rfl)

theorem mem_send {p : Packet} {a : Action} (h : a ∈ (s.send v p).actions) : a = .send p := by
  obtain hsent | ⟨cause, hstop⟩ := send_cases v p s
  · simpa [hsent, goOn] using h
  · simp [hstop, stop] at h

/-- What an action says about the moment at which a session does it. -/
inductive Means (v : View) (s : Session) (i : Input) : Action → Prop where
  /-- A session sends no content itself. -/
  | send {p : Packet} : p.type ≠ .syncRequest → Means v s i (.send p)
  | ask : Means v s i .ask
  /-- The session admits its peer, and it did not have to ask or the answer was yes. -/
  | admission {a : Action} : (s.step v i).actions = s.admission →
      (s.admittedWithoutAsking v = true ∨ i = .decided true) → a ∈ s.admission → Means v s i a
  /-- A content that is handed on came in a packet. -/
  | update {mime : String} {data : Bytes} : i = .received (.packet (.syncRequest mime data)) →
      Means v s i (.update mime data)

theorem means_of_mem {a : Action} (h : a ∈ (s.step v i).actions) : Means v s i a := by
  have sent : ∀ {p : Packet} {s₁ : Session}, p.type ≠ .syncRequest →
      a ∈ (s₁.send v p).actions → Means v s i a := by
    intro p s₁ hp ha
    rw [mem_send ha]
    exact .send hp
  -- Case by case, because what an action means depends on what the session was doing when it came.
  cases i with
  | kicked | writeFailed e => simp [step, stop] at h
  | decided allow =>
    cases allow with
    | false => simp [step, onDecision, stop] at h
    | true =>
      obtain hnone | hadmits := promote_actions { s with decisionDue := none }
      · simp [step, onDecision, hnone] at h
      · exact .admission hadmits (.inr rfl) (hadmits ▸ h)
  | timer t =>
    cases t with
    | decision | response | idle => simp [step, onTimer, stop] at h
    | keepalive => exact sent (by simp [Packet.type]) h
  | received r =>
    cases r with
    | finished | failed e => simp [step, onReceived, stop] at h
    | undecodable e =>
      simp only [step, onReceived] at h
      split at h
      · rw [List.mem_singleton.1 h]
        exact .send (by simp [Packet.type])
      · cases h
    | packet p =>
      have hstep : s.step v (.received (.packet p)) = onPacket v s p := rfl
      simp only [hstep, onPacket] at h
      split at h
      · simp [stop] at h
      · rename_i hfresh
        cases p with
        | ping =>
          simp only [onPing] at h
          split at h
          · simp [goOn] at h
          · exact sent (by simp [Packet.type]) h
        | challengeRequest nonce =>
          simp only [onChallenge] at h
          split at h
          · simp [stop] at h
          · rename_i answer _ hanswer
            refine sent ?_ h
            unfold Handshake.answer at hanswer
            split at hanswer <;> cases hanswer
            simp [Packet.type]
        | challengeResponse given =>
          have hturn : s.step v (.received (.packet (.challengeResponse given))) =
              onResponse v { s with lastReceived := v.now } given := by
            rw [hstep, onPacket, if_neg hfresh]
          obtain hnone | hasks | ⟨hgrant, hadmits⟩ :=
            onResponse_actions v { s with lastReceived := v.now } given
          · simp [hnone] at h
          · rw [hasks] at h
            rw [List.mem_singleton.1 h]
            exact .ask
          · exact .admission (by rw [hturn]; exact hadmits) (.inl hgrant) (hadmits ▸ h)
        | syncRequest mime data =>
          rw [List.mem_singleton.1 h]
          exact .update rfl
        | invalid => simp [stop] at h

theorem consent_of_authenticated (h : .authenticated ∈ (s.step v i).actions) :
    s.admittedWithoutAsking v = true ∨ i = .decided true := by
  cases means_of_mem h with
  | admission _ hconsent _ => exact hconsent

theorem admits_of_remember {f : Fingerprint} (h : .remember f ∈ (s.step v i).actions) :
    .authenticated ∈ (s.step v i).actions ∧ s.peerFingerprint = some f := by
  cases means_of_mem h with
  | admission hadmits _ hf =>
    rw [hadmits]
    exact ⟨List.mem_append_right _ (List.mem_singleton_self _), by simpa [admission] using hf⟩

theorem received_of_update {mime : String} {data : Bytes}
    (h : .update mime data ∈ (s.step v i).actions) :
    i = .received (.packet (.syncRequest mime data)) := by
  cases means_of_mem h with
  | admission _ _ ha => simp [admission] at ha
  | update hi => exact hi

theorem not_content_of_send {p : Packet} (h : .send p ∈ (s.step v i).actions) :
    p.type ≠ .syncRequest := by
  cases means_of_mem h with
  | send hp => exact hp
  | admission _ _ ha => simp [admission] at ha

/-- What a session is for does not change while it goes on. -/
theorem step_keeps {s' : Session} (h : (s.step v i).next = .ok s') :
    s'.direction = s.direction ∧ s'.peerFingerprint = s.peerFingerprint := by
  have of_promote : ∀ s₁ : Session, s₁.promote.next = .ok s' →
      s'.direction = s₁.direction ∧ s'.peerFingerprint = s₁.peerFingerprint := by
    intro s₁ h₁
    unfold promote at h₁
    split at h₁ <;> cases h₁ <;> exact ⟨rfl, rfl⟩
  obtain ⟨hplain, -⟩ | ⟨given, rfl, -, hturn⟩ | ⟨rfl, hturn⟩ := step_cases v s i
  · have hk := hplain.next s' h
    exact ⟨hk.direction, hk.peer⟩
  · rw [hturn] at h
    unfold onResponse at h
    split at h
    · cases h
    · simp only at h
      split at h
      · have hkept := of_promote _ h
        exact hkept
      · cases h
        exact ⟨rfl, rfl⟩
  · rw [hturn] at h
    have hkept := of_promote _ h
    exact hkept

end Session

/-! ## What is read fits -/

namespace FrameReader

variable {c : Codec} {r : FrameReader} {p : Packet}

theorem fits_of_nextField {frame : Bytes} {left : Nat}
    (h : nextField c frame left = .done (.packet p)) : c.Fits p := by
  cases left with
  | succ left => cases h
  | zero =>
    cases hd : c.decode frame.reverse with
    | error e =>
      rw [nextField, hd] at h
      cases h
    | ok q =>
      rw [nextField, hd] at h
      cases h
      exact (Codec.encode_of_decode hd).2

theorem fits_of_push {b : UInt8} (h : r.push c b = .done (.packet p)) : c.Fits p := by
  unfold push at h
  split at h
  · split at h
    · cases h
    · exact fits_of_nextField h
  · simp only at h
    split at h
    · cases h
    · split at h
      · exact fits_of_nextField h
      · cases h
  · cases h
  · exact fits_of_nextField h
  · cases h

/-- A packet that a reader makes of bytes is one that fits, wherever the reader stood. -/
theorem fits_of_feed {bytes rest : Bytes} (h : r.feed c bytes = (.done (.packet p), rest)) :
    c.Fits p := by
  induction bytes generalizing r with
  | nil => cases h
  | cons b bytes ih =>
    rw [feed] at h
    cases hpush : r.push c b with
    | more r' =>
      rw [hpush] at h
      exact ih h
    | done got =>
      rw [hpush] at h
      cases h
      exact fits_of_push hpush

end FrameReader

theorem Outbox.mem_push {o : Outbox} {x y : Outgoing} (h : y ∈ (o.push x).queue) :
    y ∈ o.queue ∨ y = x := by
  unfold push at h
  split at h
  · simpa using h
  · exact .inl h

namespace SessionTask

variable {t : SessionTask} {conn : Connection} {m : Moved}

/-! ## The reader -/

/-- What was read and the session has not heard yet. -/
def pending (t : SessionTask) : List Received := t.inbound ++ t.held.toList

theorem pending_handOver (t : SessionTask) (got : Received) :
    (t.handOver got).pending = t.inbound ++ [got] := by
  unfold handOver pending
  split
  · rw [Option.toList_none, List.append_nil]
  · rfl

theorem stage_handOver (t : SessionTask) (got : Received) : (t.handOver got).stage = t.stage := by
  unfold handOver
  split <;> rfl

theorem answer_handOver (t : SessionTask) (got : Received) :
    (t.handOver got).answer = t.answer := by
  unfold handOver
  split <;> rfl

theorem outbox_handOver (t : SessionTask) (got : Received) :
    (t.handOver got).outbox = t.outbox := by
  unfold handOver
  split <;> rfl

/-- What a step of the reader does: it tells nothing, and a packet that it adds fits. -/
structure Reads (codec : Codec) (t : SessionTask) (m : Moved) : Prop where
  notes : m.notes = []
  stage : m.task.stage = t.stage
  answer : m.task.answer = t.answer
  outbox : m.task.outbox = t.outbox
  pending : ∀ p, .packet p ∈ m.task.pending → .packet p ∈ t.pending ∨ codec.Fits p

theorem reads_handOver {codec : Codec} {got : Received} (r : FrameReader) (conn : Connection)
    (h : ∀ p, got = .packet p → .packet p ∈ t.pending ∨ codec.Fits p) :
    Reads codec t { task := { t with reader := r }.handOver got, connection := conn } where
  notes := rfl
  stage := stage_handOver _ _
  answer := answer_handOver _ _
  outbox := outbox_handOver _ _
  pending p hp := by
    rw [pending_handOver, List.mem_append, List.mem_singleton] at hp
    obtain hold | hgot := hp
    · exact .inl (List.mem_append_left _ hold)
    · exact h p hgot.symm

theorem reads_of_readStep {codec : Codec} (h : t.readStep codec conn = some m) :
    Reads codec t m := by
  -- In the order of `readStep`: what is held back, what has failed, the end, and bytes that came.
  unfold readStep at h
  split at h
  · cases h
  · split at h
    · rename_i got hheld
      split at h
      · cases h
        exact reads_handOver t.reader conn fun p hp => .inl (by simp [pending, hheld, hp])
      · cases h
    · split at h
      · cases h
        exact reads_handOver t.reader conn (by simp)
      · split at h
        · split at h
          · cases h
            refine reads_handOver t.reader conn fun p hp => ?_
            cases hr : t.reader <;> simp [hr, FrameReader.atEnd] at hp
          · cases h
        · split at h
          · cases h
            exact ⟨rfl, rfl, rfl, rfl, fun p hp => .inl hp⟩
          · rename_i got rest hfeed
            cases h
            refine reads_handOver .atTag _ fun p hp => .inr ?_
            rw [hp] at hfeed
            exact FrameReader.fits_of_feed hfeed

/-! ## The session -/

/-- What an action tells the surroundings. -/
def note? : Session.Action → Option Note
  | .send _ => none
  | .ask => some .asks
  | .remember f => some (.remembers f)
  | .authenticated => some (.report .authenticated)
  | .update mime data => some (.report (.update mime data))

/-- What an action puts into the outbox. -/
def queueAction (o : Outbox) : Session.Action → Outbox
  | .send p => o.push (.control p)
  | _ => o

theorem mem_queueActions {o : Outbox} {as : List Session.Action} {x : Outgoing}
    (h : x ∈ (as.foldl queueAction o).queue) :
    x ∈ o.queue ∨ ∃ p, x = .control p ∧ .send p ∈ as := by
  induction as generalizing o with
  | nil => exact .inl h
  | cons a as ih =>
    obtain hone | ⟨p, hx, hp⟩ := ih h
    · cases a with
      | send p =>
        exact (Outbox.mem_push hone).imp_right fun hx => ⟨p, hx, List.mem_cons_self⟩
      | ask | remember _ | authenticated | update _ _ => exact .inl hone
    · exact .inr ⟨p, hx, List.mem_cons_of_mem _ hp⟩

/-- The frame is one of a session's own and carries no content. -/
def IsControl (x : Outgoing) : Prop := ∃ p, x = .control p ∧ p.type ≠ .syncRequest

theorem actAll_eq (t : SessionTask) (as : List Session.Action) :
    t.actAll as = ({ t with outbox := as.foldl queueAction t.outbox }, as.filterMap note?) := by
  induction as generalizing t with
  | nil => rfl
  | cons a as ih =>
    have hact : t.act a = ({ t with outbox := queueAction t.outbox a }, (note? a).toList) := by
      cases a <;> rfl
    simp only [actAll, hact, ih, List.foldl_cons, List.filterMap_cons]
    cases note? a <;> rfl

/-- What a step of the session does: it takes something that was there for it and goes through its
actions. -/
structure Drives (now : Time) (trusts : Fingerprint → Bool) (t : SessionTask) (m : Moved)
    (s : Session) (i : Session.Input) : Prop where
  stage : t.stage = .running s
  received : ∀ got, i = .received got → got ∈ t.pending
  decided : ∀ allow, i = .decided allow → t.answer = some allow
  notes : ∀ r, .report r ∈ m.notes ↔
    ∃ a ∈ (s.step ⟨now, t.outbox.room, trusts⟩ i).actions, note? a = some (.report r)
  remembers : ∀ f, .remembers f ∈ m.notes ↔
    .remember f ∈ (s.step ⟨now, t.outbox.room, trusts⟩ i).actions
  next : ∀ s', m.task.stage = .running s' →
    (s.step ⟨now, t.outbox.room, trusts⟩ i).next = .ok s'
  answer : m.task.answer = t.answer ∨ m.task.answer = none
  outbox : m.task.outbox =
    (s.step ⟨now, t.outbox.room, trusts⟩ i).actions.foldl queueAction t.outbox
  pending : ∀ got ∈ m.task.pending, got ∈ t.pending

/-- That a question is withdrawn is the one note that no action makes. -/
theorem mem_settleTurn (now : Time) (t : SessionTask) (asking : Bool) (turn : Session.Turn)
    {n : Note} (hn : n ≠ .withdraws) :
    n ∈ (t.settleTurn now asking turn).2 ↔ ∃ a ∈ turn.actions, note? a = some n := by
  simp only [settleTurn, actAll_eq]
  split
  · simp
  · cases asking <;> simp [hn]

theorem task_settleTurn (now : Time) (t : SessionTask) (asking : Bool) (turn : Session.Turn) :
    (t.settleTurn now asking turn).1.answer = t.answer ∧
      (t.settleTurn now asking turn).1.outbox = turn.actions.foldl queueAction t.outbox ∧
      (∀ got ∈ (t.settleTurn now asking turn).1.pending, got ∈ t.pending) ∧
      ∀ s, (t.settleTurn now asking turn).1.stage = .running s → turn.next = .ok s := by
  simp only [settleTurn, actAll_eq]
  split
  · rename_i hnext
    refine ⟨rfl, rfl, fun got hgot => hgot, fun s hs => ?_⟩
    cases hs
    exact hnext
  · exact ⟨rfl, rfl, fun got hgot => List.mem_append_left _ (by simpa [pending] using hgot),
      fun s hs => (nomatch hs)⟩

/-- What a session can take next, and the task that has given it away. -/
inductive Gives (now : Time) (t : SessionTask) (s : Session) :
    Session.Input → SessionTask → Prop where
  | kicked : t.kicked = true → Gives now t s .kicked t
  | writeFailed {e : TransportError} : t.writeFailure = some e →
      Gives now t s (.writeFailed e) { t with writeFailure := none }
  | received {got : Received} {rest : List Received} : t.inbound = got :: rest →
      Gives now t s (.received got) { t with inbound := rest }
  | decided {allow : Bool} : s.decisionDue.isSome = true → t.answer = some allow →
      Gives now t s (.decided allow) { t with answer := none }
  | timer {k : Session.Timer} {due : Time} : s.due k = some due → due ≤ now →
      Gives now t s (.timer k) t

/-- What is ready is all that a session can take next, whatever else is there. -/
theorem mem_ready {now : Time} {s : Session} {i : Session.Input} {t' : SessionTask} :
    (i, t') ∈ t.ready now s ↔ Gives now t s i t' := by
  simp only [ready, List.mem_append, or_assoc]
  constructor
  · -- One case for each source of inputs, in the order of `ready`.
    rintro (hkick | hfault | hpacket | hanswer | htimer)
    · split at hkick
      · obtain ⟨rfl, rfl⟩ := Prod.mk.inj (List.mem_singleton.1 hkick)
        exact .kicked ‹_›
      · cases hkick
    · obtain ⟨e, he, heq⟩ := List.mem_map.1 hfault
      cases heq
      exact .writeFailed (Option.mem_toList.1 he)
    · split at hpacket
      · obtain ⟨rfl, rfl⟩ := Prod.mk.inj (List.mem_singleton.1 hpacket)
        exact .received ‹_›
      · cases hpacket
    · split at hanswer
      · rename_i hdue hset
        obtain ⟨rfl, rfl⟩ := Prod.mk.inj (List.mem_singleton.1 hanswer)
        exact .decided (by rw [hdue]; rfl) hset
      · cases hanswer
    · obtain ⟨k, hk, heq⟩ := List.mem_map.1 htimer
      cases heq
      obtain ⟨due, hdue, hle⟩ := (Option.any_eq_true _ _).1 (List.mem_filter.1 hk).2
      exact .timer hdue (of_decide_eq_true hle)
  · rintro (hkicked | hfault | hinbound | ⟨hdue, hset⟩ | ⟨hdue, hle⟩)
    · exact .inl (by simp [hkicked])
    · exact .inr (.inl (by simp [hfault]))
    · exact .inr (.inr (.inl (by simp [hinbound])))
    · obtain ⟨due, hdue⟩ := Option.isSome_iff_exists.1 hdue
      exact .inr (.inr (.inr (.inl (by simp [hdue, hset]))))
    · rename_i k due
      refine .inr (.inr (.inr (.inr (List.mem_map.2 ⟨k, List.mem_filter.2 ⟨?_, ?_⟩, rfl⟩))))
      · cases k <;> simp [Session.timers]
      · simp [hdue, hle]

theorem Gives.keeps {now : Time} {s : Session} {i : Session.Input} {t' : SessionTask}
    (h : Gives now t s i t') :
    t'.stage = t.stage ∧ t'.outbox = t.outbox ∧ t'.kicked = t.kicked ∧
      t'.kickable = t.kickable := by
  cases h <;> exact ⟨rfl, rfl, rfl, rfl⟩

/-- What waits for the session waited before, and what the session is given did. -/
theorem Gives.pending {now : Time} {s : Session} {i : Session.Input} {t' : SessionTask}
    (h : Gives now t s i t') :
    (∀ got ∈ t'.pending, got ∈ t.pending) ∧ ∀ got, i = .received got → got ∈ t.pending := by
  cases h with
  | received hinbound =>
    refine ⟨fun x hx => ?_, fun x hx => ?_⟩
    · simp only [SessionTask.pending, hinbound] at hx ⊢
      exact List.mem_cons_of_mem _ hx
    · cases hx
      simp [SessionTask.pending, hinbound]
  | kicked | writeFailed | decided | timer => exact ⟨fun x hx => hx, by simp⟩

/-- The answer of the user stays where it is, unless it is what the session is given. -/
theorem Gives.answer {now : Time} {s : Session} {i : Session.Input} {t' : SessionTask}
    (h : Gives now t s i t') :
    (∃ allow, i = .decided allow ∧ t.answer = some allow ∧ t'.answer = none) ∨
      ((∀ allow, i ≠ .decided allow) ∧ t'.answer = t.answer) := by
  cases h with
  | decided _ hset => exact .inl ⟨_, rfl, hset, rfl⟩
  | kicked | writeFailed | received | timer => exact .inr ⟨by simp, rfl⟩

/-- A step of the session takes something that it is given. -/
theorem gives_of_driveStep {n : Nat} {now : Time} {trusts : Fingerprint → Bool}
    (h : t.driveStep n now trusts conn = some m) :
    ∃ s i t' asking, t.stage = .running s ∧ Gives now t s i t' ∧
      (t.ready now s)[n]? = some (i, t') ∧
      asking = (s.decisionDue.isSome && !(i matches .decided _)) ∧
      m = { task := (t'.settleTurn now asking (s.step ⟨now, t.outbox.room, trusts⟩ i)).1
            connection := conn
            notes := (t'.settleTurn now asking (s.step ⟨now, t.outbox.room, trusts⟩ i)).2 } := by
  unfold driveStep at h
  split at h
  · rename_i s hstage
    obtain ⟨⟨i, t'⟩, hinput, rfl⟩ := Option.map_eq_some_iff.1 h
    have hgives := mem_ready.1 (List.mem_of_getElem? hinput)
    exact ⟨s, i, t', _, hstage, hgives, hinput, rfl, hgives.keeps.2.1 ▸ rfl⟩
  · cases h

theorem drives_of_driveStep {n : Nat} {now : Time} {trusts : Fingerprint → Bool}
    (h : t.driveStep n now trusts conn = some m) :
    m.connection = conn ∧ ∃ s i, Drives now trusts t m s i := by
  obtain ⟨s, i, t', asking, hstage, hgives, -, -, rfl⟩ := gives_of_driveStep h
  obtain ⟨-, houtbox, -⟩ := hgives.keeps
  obtain ⟨hpending, hreceived⟩ := hgives.pending
  have hdecided : ∀ allow, i = .decided allow → t.answer = some allow := by
    rintro allow rfl
    cases hgives
    assumption
  have hanswer : t'.answer = t.answer ∨ t'.answer = none := by
    obtain ⟨-, -, -, hused⟩ | ⟨-, hkept⟩ := hgives.answer
    · exact .inr hused
    · exact .inl hkept
  have hremembers : ∀ f, (∃ a ∈ (s.step ⟨now, t.outbox.room, trusts⟩ i).actions,
      note? a = some (.remembers f)) ↔
        .remember f ∈ (s.step ⟨now, t.outbox.room, trusts⟩ i).actions := by
    intro f
    constructor
    · rintro ⟨a, ha, hnote⟩
      cases a <;> simp only [note?, Option.some.injEq, Note.remembers.injEq, reduceCtorEq] at hnote
      rwa [← hnote]
    · exact fun hf => ⟨_, hf, rfl⟩
  obtain ⟨hsame, hqueued, hwaits, hnext⟩ :=
    task_settleTurn now t' asking (s.step ⟨now, t.outbox.room, trusts⟩ i)
  exact ⟨rfl, s, i,
    { stage := hstage, received := hreceived, decided := hdecided
      notes := fun r => mem_settleTurn _ _ _ _ (by simp)
      remembers := fun f => (mem_settleTurn _ _ _ _ (by simp)).trans (hremembers f)
      next := hnext
      answer := hsame ▸ hanswer
      outbox := by rw [hqueued, houtbox]
      pending := fun got hgot => hpending got (hwaits got hgot) }⟩

/-! ## The writer and the end -/

/-- What a step of the writer or the end does: the session is where it was or has ended, and what is
told is not about the peer. -/
structure Leaves (t : SessionTask) (m : Moved) : Prop where
  stage : m.task.stage = t.stage ∨ m.task.stage = .ended
  answer : m.task.answer = t.answer
  notes : ∀ n ∈ m.notes,
    (∃ seq, n = .report (.flushed seq)) ∨ ∃ reason, n = .report (.closed reason)
  outbox : ∀ x ∈ m.task.outbox.queue, x ∈ t.outbox.queue
  pending : m.task.pending = t.pending

/-- The writer only takes frames out of the outbox. -/
theorem mem_queue_of_step {w : Writer} {o : Outbox} {ended : Bool} {intake : Intake}
    {r : Writer.Turn} (h : w.step o ended intake = some r) : ∀ x ∈ r.outbox.queue, x ∈ o.queue := by
  have taken : ∀ {y : Outgoing} {ys : List Outgoing}, o.queue = y :: ys → ∀ x ∈ ys, x ∈ o.queue :=
    fun hqueue x hx => by rw [hqueue]; exact List.mem_cons_of_mem _ hx
  have lost : ∀ x ∈ o.close.queue, x ∈ o.queue := by simp [Outbox.close]
  -- Whatever state the writer is in, it takes the first frame, drops them all or takes none.
  cases w with
  | idle =>
    simp only [Writer.step] at h
    split at h
    · rename_i hqueue
      cases h
      exact taken hqueue
    · split at h <;> cases h
      exact fun x hx => hx
  | writing rest seq =>
    cases rest with
    | nil =>
      cases h
      exact fun x hx => hx
    | cons b bs =>
      simp only [Writer.step] at h
      split at h <;> cases h
      · exact fun x hx => hx
      · exact lost
  | draining =>
    simp only [Writer.step] at h
    split at h
    · rename_i hqueue
      cases h
      exact taken hqueue
    · cases h
      exact lost
  | drainingFrame rest =>
    cases rest with
    | nil =>
      cases h
      exact fun x hx => hx
    | cons b bs =>
      simp only [Writer.step] at h
      split at h <;> cases h
      · exact fun x hx => hx
      · exact lost
  | finished | failed => cases h

theorem leaves_of_writeStep (h : t.writeStep conn = some m) : Leaves t m := by
  unfold writeStep at h
  simp only at h
  split at h
  · cases h
  · obtain ⟨r, hr, rfl⟩ := Option.map_eq_some_iff.1 h
    exact
      { stage := .inl rfl, answer := rfl
        notes := fun n hn => by
          obtain ⟨seq, -, rfl⟩ := List.mem_map.1 hn
          exact .inl ⟨seq, rfl⟩
        outbox := mem_queue_of_step hr, pending := rfl }

theorem of_heedStep (h : t.heedStep conn = some m) :
    (∃ reason limit, t.stage = .draining reason limit) ∧
      m = { task := { t with writer := .draining }, connection := conn } := by
  unfold heedStep at h
  split at h
  · rename_i hstage
    refine ⟨⟨_, _, hstage⟩, ?_⟩
    cases hw : t.writer with
    | idle =>
      rw [hw] at h
      cases h
      rfl
    | _ =>
      rw [hw] at h
      cases h
  · cases h

theorem leaves_of_heedStep (h : t.heedStep conn = some m) : Leaves t m := by
  obtain ⟨-, rfl⟩ := of_heedStep h
  exact
    { stage := .inl rfl, answer := rfl, notes := fun n hn => (nomatch hn)
      outbox := fun x hx => hx, pending := rfl }

theorem leaves_of_endStep {now : Time} (h : t.endStep now conn = some m) : Leaves t m := by
  unfold endStep at h
  split at h
  · split at h
    · cases h
      exact
        { stage := .inr rfl, answer := rfl
          notes := fun n hn => .inr ⟨_, List.mem_singleton.1 hn⟩
          outbox := by simp [Outbox.close], pending := rfl }
    · cases h
  · cases h

/-! ## The signal to end -/

theorem stage_kick (t : SessionTask) : t.kick.stage = t.stage := by
  unfold kick
  split <;> rfl

theorem answer_kick (t : SessionTask) : t.kick.answer = t.answer := by
  unfold kick
  split <;> rfl

/-! ## The start -/

/-- What a session is on a connection that has just been taken up. -/
structure Starts (settings : Session.Settings) (direction : Direction)
    (peer : Option Fingerprint) (t : SessionTask) : Prop where
  answer : t.answer = none
  pending : t.pending = []
  running : ∀ s, t.stage = .running s → s.direction = direction ∧ s.peerFingerprint = peer
  outbox : ∀ x ∈ t.outbox.queue, IsControl x

theorem starts_of_start (settings : Session.Settings) (direction : Direction)
    (mine peer : Option Fingerprint) (capacity : Nat) (now : Time) (nonce : Bytes) :
    (start settings direction mine peer capacity now nonce).2 = [] ∧
      Starts settings direction peer
        (start settings direction mine peer capacity now nonce).1 := by
  have hstart : ∀ v : Session.View,
      ((Session.fresh settings direction mine peer now).start v nonce =
        { Session.fresh settings direction mine peer now with
          handshake := ((Handshake.fresh settings.handshakeTimeout).issue v.now nonce).2 }.goOn
            [.send (.challengeRequest nonce)]) ∨
      ∃ cause, (Session.fresh settings direction mine peer now).start v nonce =
        Session.stop (.transport cause) := fun v =>
    Session.send_cases v (.challengeRequest nonce) _
  obtain hsent | ⟨cause, hstop⟩ := hstart ⟨now, ({ capacity } : Outbox).room, fun _ => false⟩
  · simp only [start, hsent, settleTurn, actAll_eq, Session.goOn]
    refine ⟨rfl, rfl, rfl, ?_, ?_⟩
    · rintro _ ⟨⟩
      exact ⟨rfl, rfl⟩
    · intro x hx
      obtain hnone | rfl := Outbox.mem_push hx
      · cases hnone
      · exact ⟨_, rfl, by simp [Packet.type]⟩
  · simp only [start, hstop, settleTurn, actAll_eq, Session.stop]
    exact ⟨rfl, rfl, rfl, by simp, by simp⟩

end SessionTask

end SharedClipboard
