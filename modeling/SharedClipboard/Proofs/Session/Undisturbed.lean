import SharedClipboard.Proofs.Session.Admission
import SharedClipboard.Proofs.Session.Exchange
import Mathlib.Data.Bool.Basic

/-!
# Two sessions that nobody disturbs

What a node does to a connection of its own accord is left out: no outbox is full, no user refuses
and no timer but the keepalives fires (`Exchange.undisturbed`). A packet comes through the reader of
the session that it is sent to, so one that is too long for it is refused.

One turn of a side is then one of two things (`Exchange.Passes`). It goes on, and what it has said
and heard of the handshakes grows by what it sends and by what came (`Exchange.Steady`); or it is
cut short, and tells the other at most that it could not read what it was sent (`Exchange.Ends`).
-/

namespace SharedClipboard

namespace Session

variable {s : Session}

/-- A session whose outbox is closed does what it would do if there were room, or it notices that
its frames lead nowhere. -/
theorem step_of_closed {v : View} (hroom : v.room = .closed) {i : Input}
    (hi : ∀ cause, i ≠ .received (.undecodable cause)) :
    s.step v i = s.step { v with room := .free } i ∨
      (s.step v i = stop (.transport .closed) ∧
        Moment.answer? ⟨v, i, (s.step v i).actions⟩ = none) := by
  -- The outbox matters only to a turn that sends.
  have hsend : ∀ (p : Packet) (s' : Session), s'.send v p = stop (.transport .closed) :=
    fun p s' => by rw [Session.send, hroom]
  cases i with
  | kicked | writeFailed _ | decided _ => exact .inl rfl
  | timer k =>
    cases k with
    | decision | response | idle => exact .inl rfl
    | keepalive => exact .inr ⟨hsend _ _, rfl⟩
  | received r =>
    cases r with
    | finished | failed _ => exact .inl rfl
    | undecodable cause => exact absurd rfl (hi cause)
    | packet p =>
      cases p with
      | challengeResponse _ | syncRequest _ _ | invalid => exact .inl rfl
      | ping =>
        simp only [step, onReceived, onPacket, onPing, PacketType.isHandshake, Packet.type, hsend]
        by_cases hwait : s.awaitingAck = true
        · exact .inl (by simp [hwait])
        · exact .inr ⟨by simp [hwait], rfl⟩
      | challengeRequest nonce =>
        simp only [step, onReceived, onPacket, onChallenge]
        by_cases hlate : s.handshake.isAuthenticated = true
        · exact .inl (by simp [hlate, PacketType.isHandshake, Packet.type])
        · cases hanswer : s.handshake.answer nonce s.localFingerprint with
          | mk r h =>
            cases r with
            | error e => exact .inl (by simp [hlate])
            | ok p => exact .inr ⟨by simp [hlate, hsend], rfl⟩

/-- A session that is done with the handshake has admitted its peer. -/
theorem Upright.admissions_eq_one {direction : Direction} {peer : Option Fingerprint}
    {nonce : Bytes} {log : List Moment} (h : Upright direction peer nonce log s)
    (hauth : s.handshake.isAuthenticated = true) : admissions log = 1 := by
  have hstate : s.handshake.state = .authenticated := by
    simpa [Handshake.isAuthenticated] using hauth
  cases h.course with
  | waiting _ state | asked state =>
    rw [state] at hstate
    cases hstate
  | joined _ _ admissions => exact admissions

end Session

namespace Exchange

open Session

/-! ## Undisturbed runs -/

/-- The side has ended. -/
def Gone (x : Exchange) (a : Bool) : Prop := ∃ reason, x.side a = .error reason

/-- The connection is gone. -/
inductive Lost : Input → Prop where
  | finished : Lost (.received .finished)
  | failed (cause : TransportError) : Lost (.received (.failed cause))
  | unwritten (cause : TransportError) : Lost (.writeFailed cause)

/-- What comes to a side when nothing goes wrong, and the links then: what its reader makes of the
next packet of the other side, a keepalive, the consent of a user who was asked, or, once the other
side has ended, the end of the connection. -/
inductive Comes (x : Exchange) (a : Bool) (s : Session) : Input → Exchange → Prop where
  | packet {p : Packet} : (x.link (!a)).head? = some p →
      Comes x a s (.received (s.arrival p)) (x.read (!a))
  | keepalive : Comes x a s (.timer .keepalive) x
  | consent : s.decisionDue.isSome = true → Comes x a s (.decided true) x
  | lost {i : Input} : x.Gone (!a) → Lost i → Comes x a s i x

theorem Comes.side {x x' : Exchange} {a : Bool} {s : Session} {i : Input} (h : x.Comes a s i x') :
    x'.side = x.side := by
  cases h <;> rfl

/-- The fields of a packet fit their length prefix. -/
def Prefixed (p : Packet) : Prop := ∀ f ∈ p.fields, f.length < Bytes.lengthLimit

/-- Nobody disturbs two sessions: the outbox of a side has room, unless the other side has ended and
it is closed; and of the given contents a side sends some once it has admitted the other. -/
def undisturbed (contents : Bool → Packet → Prop) : Conduct where
  comes x a s v i x' := (v.room = .free ∨ (v.room = .closed ∧ x.Gone (!a))) ∧ x.Comes a s i x'
  content x a mime data :=
    (∃ s, x.side a = .ok s ∧ s.handshake.isAuthenticated = true) ∧
      contents a (.syncRequest mime data) ∧ Prefixed (.syncRequest mime data)

/-- What came was too long for its receiver. -/
def Event.IsRefusal (e : Event) : Prop := ∃ cause, e.input = .received (.undecodable cause)

/-- The moments of one side. -/
def momentsOf (log : List Event) (a : Bool) : List Moment :=
  (log.filter fun e => e.side = a).map Event.toMoment

theorem momentsOf_snoc_self (log : List Event) (a : Bool) (s : Session) (v : View) (i : Input) :
    momentsOf (log ++ [event a s v i]) a =
      momentsOf log a ++ [⟨v, i, (s.step v i).actions⟩] := by
  simp [momentsOf, event]

theorem momentsOf_snoc_other (log : List Event) (a : Bool) (s : Session) (v : View) (i : Input) :
    momentsOf (log ++ [event a s v i]) (!a) = momentsOf log (!a) := by
  simp [momentsOf, event]

/-! ## What is said and heard -/

/-- What a side has sent of its handshake: its challenge, and its answer once it has given it. -/
def said (o : Bool → Opening) (a : Bool) (answered : Bool) : List Packet :=
  .challengeRequest (o a).nonce ::
    if answered then [.challengeResponse (Challenge.answer (o (!a)).nonce (o a).mine)] else []

/-- How many packets of the other handshake a side has heard. -/
def heard (h : Handshake) : Nat := h.answered.toNat + h.verified.toNat

/-- What a session was opened with, and what its flags say about each other. -/
structure Composed (o : Opening) (s : Session) : Prop where
  settings : s.settings = o.settings
  mine : s.localFingerprint = o.mine
  answered : s.handshake.verified = true → s.handshake.answered = true
  verified : s.handshake.state = .authenticated → s.handshake.verified = true
  asking : s.decisionDue.isSome = s.handshake.awaitingDecision

/-! ## One turn of a side -/

variable {o : Bool → Opening} {a : Bool} {s : Session}

/-- The side goes on, has heard the packet that came if it is one of the handshakes, and what it has
said is what it had said before followed by what it sends. -/
structure Steady (o : Bool → Opening) (a : Bool) (s : Session) (came : Bool) (t : Turn)
    (s' : Session) : Prop where
  next : t.next = .ok s'
  composed : Composed (o a) s'
  heard : heard s'.handshake = heard s.handshake + came.toNat
  said : said o a s'.handshake.answered =
    said o a s.handshake.answered ++ (sends t.actions).filter (·.type.isHandshake)
  sent : ∀ p ∈ sends t.actions, p = .ping ∨ p.type.isHandshake = true

theorem steady_goOn {s' : Session} {actions : List Action} (hs : Composed (o a) s)
    (hsettings : s'.settings = s.settings) (hmine : s'.localFingerprint = s.localFingerprint)
    (hhand : s'.handshake = s.handshake) (hdue : s'.decisionDue = s.decisionDue)
    (hlight : ∀ p ∈ sends actions, p = .ping) : Steady o a s false (s'.goOn actions) s' where
  next := rfl
  composed := by
    constructor
    · exact hsettings.trans hs.settings
    · exact hmine.trans hs.mine
    · rw [hhand]
      exact hs.answered
    · rw [hhand]
      exact hs.verified
    · rw [hhand, hdue]
      exact hs.asking
  heard := by rw [hhand, Bool.toNat_false, Nat.add_zero]
  said := by
    have hnone : (sends actions).filter (·.type.isHandshake) = [] :=
      List.filter_eq_nil_iff.2 fun p hp => by rw [hlight p hp]; decide
    rw [hhand, goOn, hnone, List.append_nil]
  sent p hp := .inl (hlight p hp)

theorem steady_keepalive (hs : Composed (o a) s) {v : View} (hroom : v.room = .free) :
    ∃ s', Steady o a s false (s.step v (.timer .keepalive)) s' := by
  have hturn : s.step v (.timer .keepalive) =
      { s with lastPing := v.now, awaitingAck := true }.goOn [.send .ping] := by
    simp [step, onTimer, Session.send, hroom]
  rw [hturn]
  exact ⟨_, steady_goOn hs rfl rfl rfl rfl (by simp [sends])⟩

theorem steady_ping (hs : Composed (o a) s) {v : View} (hroom : v.room = .free) :
    ∃ s', Steady o a s false (s.step v (.received (.packet .ping))) s' := by
  by_cases hwait : s.awaitingAck = true
  · have hturn : s.step v (.received (.packet .ping)) =
        { s with lastReceived := v.now, awaitingAck := false }.goOn := by
      simp [step, onReceived, onPacket, onPing, hwait, PacketType.isHandshake, Packet.type]
    rw [hturn]
    exact ⟨_, steady_goOn hs rfl rfl rfl rfl (by simp [sends])⟩
  · have hturn : s.step v (.received (.packet .ping)) =
        { s with lastReceived := v.now, lastPing := v.now }.goOn [.send .ping] := by
      simp [step, onReceived, onPacket, onPing, Session.send, hwait, hroom,
        PacketType.isHandshake, Packet.type]
    rw [hturn]
    exact ⟨_, steady_goOn hs rfl rfl rfl rfl (by simp [sends])⟩

theorem steady_content (hs : Composed (o a) s) (v : View) (mime : String) (data : Bytes) :
    ∃ s', Steady o a s false (s.step v (.received (.packet (.syncRequest mime data)))) s' := by
  have hturn : s.step v (.received (.packet (.syncRequest mime data))) =
      { s with lastReceived := v.now }.goOn [.update mime data] := by
    simp [step, onReceived, onPacket, PacketType.isHandshake, Packet.type]
  rw [hturn]
  exact ⟨_, steady_goOn hs rfl rfl rfl rfl (by simp [sends])⟩

/-- The challenge of the other side is answered, if it is the first that comes. -/
theorem steady_challenge (hs : Composed (o a) s) {v : View} (hroom : v.room = .free)
    (hnonce : (o (!a)).nonce.length = Challenge.nonceLength)
    (hfirst : s.handshake.answered = false) :
    ∃ s', Steady o a s true
      (s.step v (.received (.packet (.challengeRequest (o (!a)).nonce)))) s' := by
  -- A side that has heard the right answer has answered, and this one has not.
  have hver : s.handshake.verified = false := by
    rw [← Bool.not_eq_true]
    intro hver
    rw [hs.answered hver] at hfirst
    cases hfirst
  have hstate : s.handshake.state ≠ .authenticated := by
    intro hstate
    rw [hs.verified hstate] at hver
    cases hver
  have hturn : s.step v (.received (.packet (.challengeRequest (o (!a)).nonce))) =
      { s with
        lastReceived := v.now, handshake := { s.handshake with answered := true } }.goOn
        [.send (.challengeResponse (Challenge.answer (o (!a)).nonce (o a).mine))] := by
    simp [step, onReceived, onPacket, Handshake.isAuthenticated, hstate, onChallenge,
      Handshake.answer, hfirst, hnonce, Session.send, hroom, hs.mine]
  rw [hturn]
  refine ⟨_, rfl, ⟨hs.settings, hs.mine, fun _ => rfl, hs.verified, hs.asking⟩, ?_, ?_, ?_⟩
  · simp [heard, hfirst, hver]
  · rw [said, said, hfirst]
    rfl
  · simp [sends, goOn, Packet.type, PacketType.isHandshake]

theorem sends_admission (s : Session) : sends s.admission = [] := by
  cases hpeer : s.peerFingerprint <;> simp [sends, admission, hpeer]

/-- The answer of the other side is right, and admits it or makes the session ask the user. -/
theorem steady_response (hs : Composed (o a) s) {log : List Moment} {v : View}
    (hup : Upright (o a).direction (o a).peer (o a).nonce log s)
    (hpeer : (o a).peer = (o (!a)).mine) (hheard : s.handshake.answered = true)
    (hfirst : s.handshake.verified = false) :
    ∃ s', Steady o a s true (s.step v (.received (.packet
      (.challengeResponse (Challenge.answer (o a).nonce (o (!a)).mine))))) s' := by
  cases hup.course with
  | asked _ verified =>
    rw [hfirst] at verified
    cases verified
  | joined state =>
    rw [hs.verified state] at hfirst
    cases hfirst
  | waiting c state challenge nonce issued =>
    set heardNow : Session := { s with lastReceived := v.now } with hnow
    have hturn : s.step v (.received (.packet
        (.challengeResponse (Challenge.answer (o a).nonce (o (!a)).mine)))) =
        heardNow.onResponse v (Challenge.answer c.nonce heardNow.peerFingerprint) := by
      simp [step, onReceived, onPacket, Handshake.isAuthenticated, state, hnow, nonce, hup.peer_eq,
        hpeer]
    rw [hturn]
    obtain ⟨-, hadmits⟩ | hasks :=
      onResponse_of_right (s := heardNow) v state hfirst challenge issued
    · have hsilent := sends_admission heardNow
      rw [hadmits]
      refine ⟨_, rfl, ⟨hs.settings, hs.mine, fun _ => hheard, fun _ => rfl, ?_⟩, ?_, ?_, ?_⟩
      · have hnone : s.decisionDue.isSome = false := by
          rw [hs.asking, Handshake.awaitingDecision, hfirst, Bool.and_false]
        exact hnone
      · simp [heard, admitted, answered, hnow, hheard, hfirst]
      · rw [goOn, hsilent, List.filter_nil, List.append_nil]
        rfl
      · simp [goOn, hsilent]
    · rw [hasks]
      refine ⟨_, rfl, ⟨hs.settings, hs.mine, fun _ => hheard, fun _ => rfl, ?_⟩, ?_, ?_, ?_⟩
      · simp [answered, hnow, Handshake.awaitingDecision, state]
      · simp [heard, answered, hnow, hheard, hfirst]
      · simp [goOn, sends, answered, hnow]
      · simp [goOn, sends]

theorem steady_consent (hs : Composed (o a) s) {v : View} (hasked : s.decisionDue.isSome = true) :
    ∃ s', Steady o a s false (s.step v (.decided true)) s' := by
  rw [hs.asking, Handshake.awaitingDecision, Bool.and_eq_true, beq_iff_eq] at hasked
  obtain ⟨hstate, hver⟩ := hasked
  have hturn : s.step v (.decided true) =
      (admitted { s with decisionDue := none }).goOn (admission { s with decisionDue := none }) :=
    promote_of_awaiting (s := { s with decisionDue := none }) hstate hver
  rw [hturn]
  have hsilent := sends_admission { s with decisionDue := none }
  refine ⟨_, rfl, ⟨hs.settings, hs.mine, hs.answered, fun _ => hver, rfl⟩, rfl, ?_, ?_⟩
  · rw [goOn, hsilent, List.filter_nil, List.append_nil]
    rfl
  · simp [goOn, hsilent]

/-! ## Sides that end -/

/-- A side could not read what it was sent, or the other side could not, or the connection is
gone. -/
def CutShort : CloseReason → Prop
  | .decode _ | .peerReportedInvalid | .transport _ => True
  | .auth _ | .idle | .kicked | .protocolViolation _ => False

/-- The side is cut short, at a moment at which no answer came, and tells the other at most that it
could not read what it was sent. -/
structure Ends (s : Session) (v : View) (i : Input) : Prop where
  next : ∃ reason, (s.step v i).next = .error reason ∧ CutShort reason
  answer : Moment.answer? ⟨v, i, (s.step v i).actions⟩ = none
  actions : ∀ act ∈ (s.step v i).actions, act = .send .invalid

theorem ends_of_stop {v : View} {i : Input} {reason : CloseReason}
    (hturn : s.step v i = stop reason) (hreason : CutShort reason)
    (hanswer : Moment.answer? ⟨v, i, (s.step v i).actions⟩ = none) : Ends s v i where
  next := ⟨reason, by rw [hturn]; rfl, hreason⟩
  answer := hanswer
  actions := by simp [hturn, stop]

theorem ends_of_lost {i : Input} (h : Lost i) (s : Session) (v : View) : Ends s v i := by
  cases h with
  | finished | failed _ | unwritten _ => exact ends_of_stop rfl trivial rfl

theorem ends_of_undecodable (s : Session) (v : View) (cause : DecodeError) :
    Ends s v (.received (.undecodable cause)) where
  next := ⟨_, rfl, trivial⟩
  answer := rfl
  actions act hact := by
    have hmem : act ∈ if v.room = .free then [Action.send .invalid] else [] := hact
    split at hmem
    · exact List.mem_singleton.1 hmem
    · cases hmem

/-- With its outbox closed, a side does what it would do if there were room, or is cut short. -/
theorem steady_or_ends {came : Bool} {i : Input} {v : View}
    (hi : ∀ cause, i ≠ .received (.undecodable cause)) (hroom : v.room = .free ∨ v.room = .closed)
    (h : ∃ s', Steady o a s came (s.step { v with room := .free } i) s') :
    (∃ s', Steady o a s came (s.step v i) s') ∨ (v.room = .closed ∧ Ends s v i) := by
  obtain hfree | hclosed := hroom
  · rw [← hfree] at h
    exact .inl h
  · obtain hsame | ⟨hstop, hanswer⟩ := step_of_closed (s := s) hclosed hi
    · rw [← hsame] at h
      exact .inl h
    · exact .inr ⟨hclosed, ends_of_stop hstop trivial hanswer⟩

/-! ## One turn, whatever comes of it -/

/-- The side goes on or is cut short, and then it is left as it was. -/
structure Passes (o : Bool → Opening) (a : Bool) (s : Session) (came : Bool) (v : View) (i : Input)
    (s' : Session) : Prop where
  next : (s.step v i).next = .ok s' ∨ ∃ reason, (s.step v i).next = .error reason ∧ CutShort reason
  upright : ∀ {log}, Upright (o a).direction (o a).peer (o a).nonce log s →
    Upright (o a).direction (o a).peer (o a).nonce (log ++ [⟨v, i, (s.step v i).actions⟩]) s'
  composed : Composed (o a) s'
  heard : (s.step v i).next = .ok s' → heard s'.handshake = heard s.handshake + came.toNat
  said : said o a s'.handshake.answered =
    said o a s.handshake.answered ++ (sends (s.step v i).actions).filter (·.type.isHandshake)
  sent : ∀ p ∈ sends (s.step v i).actions, p = .ping ∨ p.type.isHandshake = true ∨
    (p = .invalid ∧ ∃ reason, (s.step v i).next = .error reason)

theorem Steady.passes {came : Bool} {v : View} {i : Input} {s' : Session}
    (h : Steady o a s came (s.step v i) s') : Passes o a s came v i s' where
  next := .inl h.next
  upright hup := (stands_step hup v i).2.2 s' h.next
  composed := h.composed
  heard _ := h.heard
  said := h.said
  sent p hp := (h.sent p hp).imp_right .inl

theorem Ends.passes {v : View} {i : Input} (h : Ends s v i) (hs : Composed (o a) s)
    (came : Bool) : Passes o a s came v i s where
  next := .inr h.next
  upright hup := by
    have hnone : (s.step v i).actions.count .authenticated = 0 :=
      List.count_eq_zero.2 fun hmem => by cases h.actions _ hmem
    exact ⟨hup.direction_eq, hup.peer_eq, hup.course.snoc (.inr h.answer) hnone⟩
  composed := hs
  heard hok := by
    obtain ⟨reason, herror, -⟩ := h.next
    rw [herror] at hok
    cases hok
  said := by
    have hnone : (sends (s.step v i).actions).filter (·.type.isHandshake) = [] := by
      refine List.filter_eq_nil_iff.2 fun p hp => ?_
      obtain ⟨act, hact, hsend⟩ := List.mem_filterMap.1 hp
      rw [h.actions act hact] at hsend
      cases hsend
      decide
    rw [hnone, List.append_nil]
  sent p hp := by
    obtain ⟨act, hact, hsend⟩ := List.mem_filterMap.1 hp
    rw [h.actions act hact] at hsend
    cases hsend
    obtain ⟨reason, herror, -⟩ := h.next
    exact .inr (.inr ⟨rfl, reason, herror⟩)

end Exchange

end SharedClipboard
