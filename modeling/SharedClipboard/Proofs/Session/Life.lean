import SharedClipboard.Session.Basic

/-!
# The life of a session

A session lives through moments: something happens to it, it acts, and it goes on or ends.
`Session.Life` relates the moments so far to what has become of the session. What happens at a
moment is arbitrary, and so is what the session sees of its surroundings then: the peer, the user,
the timers, the group and the room in the outbox are all on the other side.

`step_cases` says what one moment can do. Nearly all of them leave the handshake where it is; the
two that do not are an answer to the challenge and the user's consent.
-/

namespace SharedClipboard.Session

/-! ## Moments -/

/-- One turn of a session: what it saw, what happened, and what it did. -/
structure Moment where
  view : View
  input : Input
  actions : List Action

/-- The answer to the challenge that came at this moment. -/
def Moment.answer? (m : Moment) : Option Bytes :=
  match m.input with
  | .received (.packet (.challengeResponse given)) => some given
  | _ => none

/-- The first answer to the challenge that came. -/
def firstAnswer? (log : List Moment) : Option Bytes := log.findSome? Moment.answer?

/-- How often the group was told that the peer may take part. -/
def admissions (log : List Moment) : Nat := (log.flatMap (·.actions)).count .authenticated

/-- What has become of a session after some moments, given the turn with which it started. -/
inductive Life (first : Turn) : List Moment → Except CloseReason Session → Prop where
  | start : Life first [] first.next
  | turn {log : List Moment} {s : Session} (v : View) (i : Input) : Life first log (.ok s) →
      Life first (log ++ [⟨v, i, (s.step v i).actions⟩]) (s.step v i).next

@[simp] theorem firstAnswer?_snoc (log : List Moment) (m : Moment) :
    firstAnswer? (log ++ [m]) = (firstAnswer? log).or m.answer? := by
  simp only [firstAnswer?, List.findSome?_append, List.findSome?_cons, List.findSome?_nil]
  cases m.answer? <;> rfl

@[simp] theorem admissions_snoc (log : List Moment) (m : Moment) :
    admissions (log ++ [m]) = admissions log + m.actions.count .authenticated := by
  simp [admissions, List.flatMap_append]

/-! ## What one moment can do -/

/-- The action is one of a session whose handshake does not move. -/
def Action.IsPlain : Action → Prop
  | .send _ | .update _ _ => True
  | _ => False

/-- The second session is the first later, with the handshake where it was. -/
structure KeepsCourse (s s' : Session) : Prop where
  settings : s'.settings = s.settings
  direction : s'.direction = s.direction
  peer : s'.peerFingerprint = s.peerFingerprint
  state : s'.handshake.state = s.handshake.state
  challenge : s'.handshake.challenge = s.handshake.challenge
  verified : s'.handshake.verified = s.handshake.verified
  decisionDue : s'.decisionDue = s.decisionDue

/-- The turn admits nobody, and a session that goes on has the handshake where it was. -/
structure Turn.Plain (t : Turn) (s : Session) : Prop where
  actions : ∀ a ∈ t.actions, a.IsPlain
  next : ∀ s', t.next = .ok s' → s.KeepsCourse s'

/-- That a packet was heard does not move the handshake. -/
theorem Turn.Plain.of_heard {t : Turn} {s : Session} {now : Time}
    (h : t.Plain { s with lastReceived := now }) : t.Plain s where
  actions := h.actions
  next s' hs' :=
    have hk := h.next s' hs'
    ⟨hk.settings, hk.direction, hk.peer, hk.state, hk.challenge, hk.verified, hk.decisionDue⟩

theorem plain_stop (s : Session) (reason : CloseReason) : (stop reason).Plain s :=
  ⟨by simp [stop], by simp [stop]⟩

theorem plain_goOn {s s' : Session} {actions : List Action} (h : ∀ a ∈ actions, a.IsPlain)
    (hs : s.KeepsCourse s') : (s'.goOn actions).Plain s where
  actions := h
  next := by
    rintro _ ⟨⟩
    exact hs

theorem send_cases (v : View) (p : Packet) (s : Session) :
    s.send v p = s.goOn [.send p] ∨ ∃ cause, s.send v p = stop (.transport cause) := by
  unfold Session.send
  cases v.room with
  | free => exact .inl rfl
  | full => exact .inr ⟨_, rfl⟩
  | closed => exact .inr ⟨_, rfl⟩

theorem plain_send {s s' : Session} (v : View) (p : Packet) (hs : s.KeepsCourse s') :
    (s'.send v p).Plain s := by
  obtain hsent | ⟨cause, hstop⟩ := send_cases v p s'
  · rw [hsent]
    exact plain_goOn (by simp [Action.IsPlain]) hs
  · rw [hstop]
    exact plain_stop s _

theorem plain_onChallenge (v : View) (s : Session) (nonce : Bytes) :
    (onChallenge v s nonce).Plain s := by
  unfold onChallenge Handshake.answer
  split
  · rename_i heq
    split at heq
    · exact plain_stop s _
    · cases heq
  · rename_i heq
    split at heq
    · cases heq
    · cases heq
      exact plain_send v _ ⟨rfl, rfl, rfl, rfl, rfl, rfl, rfl⟩

theorem plain_onPing (v : View) (s : Session) : (onPing v s).Plain s := by
  unfold onPing
  split
  · exact plain_goOn (by simp) ⟨rfl, rfl, rfl, rfl, rfl, rfl, rfl⟩
  · exact plain_send v _ ⟨rfl, rfl, rfl, rfl, rfl, rfl, rfl⟩

theorem plain_onTimer (v : View) (s : Session) (t : Timer) : (onTimer v s t).Plain s := by
  cases t with
  | decision | response | idle => exact plain_stop s _
  | keepalive => exact plain_send v _ ⟨rfl, rfl, rfl, rfl, rfl, rfl, rfl⟩

/-- What can happen at a moment. An answer to the challenge counts only until the peer is admitted,
and then it is the handshake that decides; consent of the user is the one other thing that may
admit the peer. -/
theorem step_cases (v : View) (s : Session) (i : Input) :
    ((s.step v i).Plain s ∧
        (s.handshake.state = .authenticated ∨ Moment.answer? ⟨v, i, (s.step v i).actions⟩ = none)) ∨
      (∃ given, i = .received (.packet (.challengeResponse given)) ∧
        s.handshake.state ≠ .authenticated ∧
        s.step v i = onResponse v { s with lastReceived := v.now } given) ∨
      (i = .decided true ∧ s.step v i = { s with decisionDue := none }.promote) := by
  cases i with
  | kicked => exact .inl ⟨plain_stop s _, .inr rfl⟩
  | writeFailed e => exact .inl ⟨plain_stop s _, .inr rfl⟩
  | timer t => exact .inl ⟨plain_onTimer v s t, .inr rfl⟩
  | decided allow =>
    cases allow with
    | false => exact .inl ⟨plain_stop s _, .inr rfl⟩
    | true => exact .inr (.inr ⟨rfl, rfl⟩)
  | received r =>
    cases r with
    | finished => exact .inl ⟨plain_stop s _, .inr rfl⟩
    | failed e => exact .inl ⟨plain_stop s _, .inr rfl⟩
    | undecodable e =>
      refine .inl ⟨⟨?_, by simp [step, onReceived]⟩, .inr rfl⟩
      show ∀ a ∈ (if v.room = .free then [Action.send .invalid] else []), a.IsPlain
      split <;> simp [Action.IsPlain]
    | packet p =>
      by_cases hauth : s.handshake.state = .authenticated ∧ p.type.isHandshake = true
      · have hstop : s.step v (.received (.packet p)) = stop .lateHandshake := by
          simp [step, onReceived, onPacket, Handshake.isAuthenticated, hauth]
        rw [hstop]
        exact .inl ⟨plain_stop s _, .inl hauth.1⟩
      · cases p with
        | ping =>
          refine .inl ⟨?_, .inr rfl⟩
          simpa [step, onReceived, onPacket, PacketType.isHandshake, Packet.type] using
            (plain_onPing v { s with lastReceived := v.now }).of_heard
        | challengeRequest nonce =>
          refine .inl ⟨?_, .inr rfl⟩
          have hne : s.handshake.state ≠ .authenticated := fun h => hauth ⟨h, rfl⟩
          simpa [step, onReceived, onPacket, Handshake.isAuthenticated, hne] using
            (plain_onChallenge v { s with lastReceived := v.now } nonce).of_heard
        | challengeResponse given =>
          have hne : s.handshake.state ≠ .authenticated := fun h => hauth ⟨h, rfl⟩
          refine .inr (.inl ⟨given, rfl, hne, ?_⟩)
          simp [step, onReceived, onPacket, Handshake.isAuthenticated, hne]
        | syncRequest mime data =>
          have hplain : (goOn { s with lastReceived := v.now } [.update mime data]).Plain s :=
            plain_goOn (by simp [Action.IsPlain]) ⟨rfl, rfl, rfl, rfl, rfl, rfl, rfl⟩
          refine .inl ⟨?_, .inr rfl⟩
          simpa [step, onReceived, onPacket, PacketType.isHandshake, Packet.type] using hplain
        | invalid =>
          refine .inl ⟨?_, .inr rfl⟩
          simpa [step, onReceived, onPacket, PacketType.isHandshake, Packet.type] using
            plain_stop s .peerReportedInvalid

end SharedClipboard.Session
