import SharedClipboard.Proofs.Auth.Handshake
import SharedClipboard.Proofs.Session.Question

/-!
# A session is a member soon or not at all

Until its peer is admitted a session waits for one of two things: the answer to its challenge, or
the user's decision.

**Theorem (`unauthenticated_is_short`).** Whatever happens to a session, the answer is due a
handshake timeout after the challenge was issued, and the decision a decision timeout after the
right answer came. Nothing that comes in moves either of the two, and as long as the peer is not
admitted exactly one of them runs. So if timers fire when they are due, no session is open and not
admitted for longer than the two timeouts together.

The invariant (`Watch`) says which of the two runs and since when. The first answer settles the
challenge, so the one deadline takes the place of the other at most once. `Punctual` adds a clock,
which does not pass a deadline that runs.
-/

namespace SharedClipboard.Session

variable {settings : Settings} {direction : Direction} {mine peer : Option Fingerprint}
  {opened issued now : Time} {nonce : Bytes} {log : List Moment} {s s' : Session} {m : Moment}
  {v : View} {i : Input} {first : Turn}

/-! ## The time that a handshake gives -/

theorem next_send {p : Packet} (h : (s.send v p).next = .ok s') : s' = s := by
  obtain hsent | ⟨cause, hstop⟩ := send_cases v p s
  · rw [hsent] at h
    cases h
    rfl
  · rw [hstop] at h
    cases h

theorem timeout_of_promote (h : s.promote.next = .ok s') :
    s'.handshake.timeout = s.handshake.timeout := by
  unfold promote Handshake.approve at h
  split at h
  · rename_i heq
    cases h
    split at heq <;> cases heq
    rfl
  · cases h
    rfl

theorem timeout_of_onResponse {given : Bytes} (h : (s.onResponse v given).next = .ok s') :
    s'.handshake.timeout = s.handshake.timeout := by
  have hcall : (s.handshake.onResponse given s.peerFingerprint).2.timeout = s.handshake.timeout :=
    Handshake.timeout_of_does (Handshake.does_call _ (.onResponse given s.peerFingerprint))
  unfold onResponse at h
  split at h
  · cases h
  · rename_i heq
    rw [heq] at hcall
    simp only at h
    split at h
    · exact (timeout_of_promote h).trans hcall
    · cases h
      exact hcall

theorem timeout_of_onChallenge {nonce : Bytes} (h : (s.onChallenge v nonce).next = .ok s') :
    s'.handshake.timeout = s.handshake.timeout := by
  have hcall : (s.handshake.answer nonce s.localFingerprint).2.timeout = s.handshake.timeout :=
    Handshake.timeout_of_does (Handshake.does_call _ (.answer nonce s.localFingerprint))
  unfold onChallenge at h
  split at h
  · cases h
  · rename_i heq
    rw [heq] at hcall
    rw [next_send h]
    exact hcall

/-- A session does not change the time that it gives its peer. -/
theorem timeout_of_step (h : (s.step v i).next = .ok s') :
    s'.handshake.timeout = s.handshake.timeout := by
  -- Nothing sets the limit of a handshake anew, so each case keeps it or ends the session.
  cases i with
  | kicked | writeFailed e => cases h
  | decided allow =>
    cases allow with
    | false => cases h
    | true => exact timeout_of_promote (s := { s with decisionDue := none }) h
  | timer k =>
    cases k with
    | decision | response | idle => cases h
    | keepalive => rw [next_send (s := { s with lastPing := v.now, awaitingAck := true }) h]
  | received r =>
    cases r with
    | finished | failed e | undecodable e => cases h
    | packet p =>
      simp only [step, onReceived, onPacket] at h
      split at h
      · cases h
      · cases p with
        | ping =>
          simp only [onPing] at h
          split at h
          · cases h
            rfl
          · rw [next_send h]
        | challengeRequest nonce =>
          exact timeout_of_onChallenge (s := { s with lastReceived := v.now }) h
        | challengeResponse given =>
          exact timeout_of_onResponse (s := { s with lastReceived := v.now }) h
        | syncRequest mime data =>
          cases h
          rfl
        | invalid => cases h

/-! ## What runs -/

/-- The right answer came at this time, and none before it. -/
def VerifiedAt (peer : Option Fingerprint) (nonce : Bytes) (log : List Moment) (t : Time) : Prop :=
  ∃ before m after, log = before ++ m :: after ∧ firstAnswer? before = none ∧
    m.answer? = some (Challenge.answer nonce peer) ∧ m.view.now = t

theorem VerifiedAt.snoc {t : Time} (h : VerifiedAt peer nonce log t) (m : Moment) :
    VerifiedAt peer nonce (log ++ [m]) t := by
  obtain ⟨before, m', after, rfl, hfirst, hright, hnow⟩ := h
  exact ⟨before, m', after ++ [m], by simp, hfirst, hright, hnow⟩

/-- What a session waits for before its peer is admitted, and until when. -/
inductive Watch (settings : Settings) (issued : Time) (peer : Option Fingerprint) (nonce : Bytes)
    (log : List Moment) (h : Handshake) (decisionDue : Option Time) : Prop where
  | response (c : Challenge) (state : h.state = .challengeIssued) (challenge : h.challenge = some c)
      (nonce : c.nonce = nonce) (issuedAt : c.issuedAt = issued) (unsettled : c.state = .issued)
      (verified : h.verified = false) (due : decisionDue = none)
      (answer : firstAnswer? log = none)
  | decision (t : Time) (state : h.state = .challengeIssued) (verified : h.verified = true)
      (due : decisionDue = some (t + settings.decisionTimeout))
      (verifiedAt : VerifiedAt peer nonce log t)
  | member (state : h.state = .authenticated) (due : decisionDue = none)

/-- What holds of a session after some moments. -/
structure Watched (settings : Settings) (issued : Time) (peer : Option Fingerprint) (nonce : Bytes)
    (log : List Moment) (s : Session) : Prop where
  settings_eq : s.settings = settings
  peer_eq : s.peerFingerprint = peer
  timeout_eq : s.handshake.timeout = settings.handshakeTimeout
  watch : Watch settings issued peer nonce log s.handshake s.decisionDue

theorem Watch.of_keeps (h : Watch settings issued peer nonce log s.handshake s.decisionDue)
    (hk : s.KeepsCourse s') (hanswer : s.handshake.state = .authenticated ∨ m.answer? = none) :
    Watch settings issued peer nonce (log ++ [m]) s'.handshake s'.decisionDue := by
  cases h with
  | response c state challenge nonce issuedAt unsettled verified due answer =>
    have hnone : m.answer? = none := hanswer.resolve_left (by rw [state]; simp)
    exact .response c (hk.state.trans state) (hk.challenge.trans challenge) nonce issuedAt unsettled
      (hk.verified.trans verified) (hk.decisionDue.trans due) (by simp [answer, hnone])
  | decision t state verified due verifiedAt =>
    exact .decision t (hk.state.trans state) (hk.verified.trans verified)
      (hk.decisionDue.trans due) (verifiedAt.snoc m)
  | member state due => exact .member (hk.state.trans state) (hk.decisionDue.trans due)

/-- How a turn changes what a session waits for, if it goes on. -/
inductive Moves (settings : Settings) (peer : Option Fingerprint) (nonce : Bytes) (s : Session)
    (m : Moment) (s' : Session) : Prop where
  /-- It waits for what it waited for. -/
  | stays (response : s'.due .response = s.due .response)
      (decision : s'.due .decision = s.due .decision) (quiet : .ask ∉ m.actions)
  /-- The right answer came. -/
  | answered
      (right : m.input = .received (.packet (.challengeResponse (Challenge.answer nonce peer))))
      (waited : (s.due .response).isSome = true) (response : s'.due .response = none)
      (goes : s'.handshake.state = .authenticated ∨
        s'.due .decision = some (m.view.now + settings.decisionTimeout))
  /-- The user consented. -/
  | consented (yes : m.input = .decided true) (asked : (s.due .decision).isSome = true)
      (state : s'.handshake.state = .authenticated)

/-! ## One turn -/

theorem responseDeadline_congr {h h' : Handshake} (hstate : h'.state = h.state)
    (hchallenge : h'.challenge = h.challenge) (hverified : h'.verified = h.verified)
    (htimeout : h'.timeout = h.timeout) : h'.responseDeadline = h.responseDeadline := by
  simp only [Handshake.responseDeadline, hstate, hchallenge, hverified, htimeout]

/-- A turn that leaves the handshake where it is. -/
theorem Watched.of_plain (h : Watched settings issued peer nonce log s)
    (hplain : (s.step v i).Plain s) (hnext : (s.step v i).next = .ok s')
    (hanswer : s.handshake.state = .authenticated ∨
      Moment.answer? ⟨v, i, (s.step v i).actions⟩ = none) :
    Watched settings issued peer nonce (log ++ [⟨v, i, (s.step v i).actions⟩]) s' ∧
      Moves settings peer nonce s ⟨v, i, (s.step v i).actions⟩ s' := by
  have hk := hplain.next s' hnext
  have htimeout := timeout_of_step hnext
  refine ⟨⟨hk.settings.trans h.settings_eq, hk.peer.trans h.peer_eq, htimeout.trans h.timeout_eq,
    h.watch.of_keeps hk hanswer⟩, .stays ?_ hk.decisionDue ?_⟩
  · exact responseDeadline_congr hk.state hk.challenge hk.verified htimeout
  · exact not_ask_of_plain hplain

/-- The answer to the challenge comes while none was right. -/
theorem Watched.onResponse (h : Watched settings issued peer nonce log s) {given : Bytes}
    (hstate : s.handshake.state ≠ .authenticated) (hanswer : m.answer? = some given)
    (hnext : (s.onResponse m.view given).next = .ok s') :
    Watched settings issued peer nonce (log ++ [m]) s' ∧
      given = Challenge.answer nonce peer ∧ (s.due .response).isSome = true ∧
      s'.due .response = none ∧
      (s'.handshake.state = .authenticated ∨
        s'.due .decision = some (m.view.now + settings.decisionTimeout)) := by
  obtain ⟨hsettings, hpeer, htimeout, hwatch⟩ := h
  have htimeout' := (timeout_of_onResponse hnext).trans htimeout
  cases hwatch with
  | member state => exact absurd state hstate
  | decision t state verified =>
    rw [onResponse_of_verified m.view given verified] at hnext
    cases hnext
  -- The challenge is open and the session goes on, so this is the first answer and the right one.
  | response c state challenge hnonce issuedAt unsettled verified due answer =>
    have hwaited : (s.due .response).isSome = true := by
      simp [Session.due, Handshake.responseDeadline, state, challenge, verified]
    obtain ⟨hright, hcases⟩ | ⟨reason, hstop⟩ :=
      onResponse_of_waiting m.view given state verified challenge unsettled
    · rw [hnonce, hpeer] at hright
      obtain ⟨-, hturn⟩ | hturn := hcases
      · rw [hturn] at hnext
        cases hnext
        refine ⟨⟨hsettings, hpeer, htimeout', .member rfl due⟩, hright, hwaited, ?_, .inl rfl⟩
        simp [Session.due, Handshake.responseDeadline, admitted]
      · rw [hturn] at hnext
        cases hnext
        have hverified : VerifiedAt peer nonce (log ++ [m]) m.view.now :=
          ⟨log, m, [], rfl, answer, hanswer.trans (congrArg some hright), rfl⟩
        refine ⟨⟨hsettings, hpeer, htimeout', .decision m.view.now state rfl ?_ hverified⟩, hright,
          hwaited, ?_, .inr ?_⟩
        · simp [hsettings]
        · simp [Session.due, Handshake.responseDeadline, answered, state]
        · simp [Session.due, hsettings]
    · rw [hstop] at hnext
      cases hnext

/-- The user consents, or is said to without having been asked. -/
theorem Watched.consent (h : Watched settings issued peer nonce log s)
    (hanswer : m.answer? = none) (hyes : m.input = .decided true)
    (hactions : m.actions = { s with decisionDue := none }.promote.actions)
    (hnext : { s with decisionDue := none }.promote.next = .ok s') :
    Watched settings issued peer nonce (log ++ [m]) s' ∧ Moves settings peer nonce s m s' := by
  have hquiet : .ask ∉ m.actions := hactions ▸ (promote_spec { s with decisionDue := none }).1
  have idle : s.handshake.awaitingDecision = false → s.decisionDue = none →
      Watched settings issued peer nonce (log ++ [m]) s' ∧ Moves settings peer nonce s m s' := by
    intro hidle hdue
    rw [promote_of_not_awaiting (s := { s with decisionDue := none }) hidle] at hnext
    cases hnext
    exact ⟨⟨h.settings_eq, h.peer_eq, h.timeout_eq,
      h.watch.of_keeps ⟨rfl, rfl, rfl, rfl, rfl, rfl, hdue.symm⟩ (.inr hanswer)⟩,
      .stays rfl hdue.symm hquiet⟩
  cases h.watch with
  | response c state _ _ _ _ verified due =>
    exact idle (by simp [Handshake.awaitingDecision, verified]) due
  | member state due => exact idle (by simp [Handshake.awaitingDecision, state]) due
  | decision t state verified due =>
    rw [promote_of_awaiting (s := { s with decisionDue := none }) state verified] at hnext
    cases hnext
    exact ⟨⟨h.settings_eq, h.peer_eq, h.timeout_eq, .member rfl rfl⟩,
      .consented hyes (Option.isSome_of_eq_some due) rfl⟩

theorem Watched.step (h : Watched settings issued peer nonce log s)
    (hnext : (s.step v i).next = .ok s') :
    Watched settings issued peer nonce (log ++ [⟨v, i, (s.step v i).actions⟩]) s' ∧
      Moves settings peer nonce s ⟨v, i, (s.step v i).actions⟩ s' := by
  obtain ⟨hplain, hanswer⟩ | ⟨given, rfl, hstate, hturn⟩ | ⟨rfl, hturn⟩ := step_cases v s i
  · exact h.of_plain hplain hnext hanswer
  · have heard : Watched settings issued peer nonce log { s with lastReceived := v.now } :=
      ⟨h.settings_eq, h.peer_eq, h.timeout_eq, h.watch⟩
    generalize (s.step v (.received (.packet (.challengeResponse given)))).actions = actions
    rw [hturn] at hnext
    obtain ⟨hwatched, rfl, hwaited, hresponse, hgoes⟩ :=
      heard.onResponse (m := ⟨v, .received (.packet (.challengeResponse given)), actions⟩) hstate
        rfl hnext
    exact ⟨hwatched, .answered rfl hwaited hresponse hgoes⟩
  · have hyes := congrArg Turn.actions hturn
    rw [hturn] at hnext
    exact h.consent rfl rfl hyes hnext

/-! ## The whole life -/

/-- Which of the two deadlines runs, and until when. -/
inductive Runs (settings : Settings) (issued : Time) (peer : Option Fingerprint) (nonce : Bytes)
    (log : List Moment) (s : Session) : Prop where
  | response (state : s.handshake.state = .challengeIssued)
      (verified : s.handshake.verified = false)
      (due : s.due .response = some (issued + settings.handshakeTimeout))
      (decision : s.due .decision = none)
  | decision (t : Time) (state : s.handshake.state = .challengeIssued)
      (verified : s.handshake.verified = true)
      (due : s.due .decision = some (t + settings.decisionTimeout))
      (response : s.due .response = none) (verifiedAt : VerifiedAt peer nonce log t)
  | neither (state : s.handshake.state = .authenticated) (response : s.due .response = none)
      (decision : s.due .decision = none)

theorem Watched.runs (h : Watched settings issued peer nonce log s) :
    Runs settings issued peer nonce log s := by
  cases h.watch with
  | member state due =>
    exact .neither state (by simp [Session.due, Handshake.responseDeadline, state]) due
  | response c state challenge nonce issuedAt unsettled verified due =>
    refine .response state verified ?_ due
    simp [Session.due, Handshake.responseDeadline, state, challenge, verified, issuedAt,
      h.timeout_eq]
  | decision t state verified due verifiedAt =>
    refine .decision t state verified due ?_ verifiedAt
    cases hc : s.handshake.challenge <;>
      simp [Session.due, Handshake.responseDeadline, state, verified, hc]

/-- No deadline is past, and the decision is due in time. -/
structure Timely (settings : Settings) (issued now : Time) (s : Session) : Prop where
  response u : s.due .response = some u → now ≤ u
  decision u : s.due .decision = some u →
    now ≤ u ∧ u ≤ issued + settings.handshakeTimeout + settings.decisionTimeout

theorem timely_of_authenticated (h : Watched settings issued peer nonce log s)
    (hauth : s.handshake.state = .authenticated) : Timely settings issued now s := by
  cases h.runs with
  | neither _ response decision => exact ⟨by simp [response], by simp [decision]⟩
  | response state | decision _ state =>
    rw [hauth] at state
    cases state

/-- The decision is due in time because the answer came in time. -/
theorem Timely.step (h : Timely settings issued now s)
    (hwatched : Watched settings issued peer nonce log s) (hnow : v.now = now)
    (hnext : (s.step v i).next = .ok s') : Timely settings issued now s' := by
  obtain ⟨hwatched', hmoves⟩ := hwatched.step hnext
  cases hmoves with
  | stays response decision => exact ⟨response ▸ h.response, decision ▸ h.decision⟩
  | consented _ _ state => exact timely_of_authenticated hwatched' state
  | answered _ waited response goes =>
    obtain hauth | hdecision := goes
    · exact timely_of_authenticated hwatched' hauth
    · refine ⟨by simp [response], fun u hu => ?_⟩
      cases hwatched.runs with
      | response _ _ due =>
        have hle := h.response _ due
        rw [hdecision, hnow, Option.some.injEq] at hu
        subst hu
        exact ⟨Nat.le_add_right _ _, Nat.add_le_add_right hle _⟩
      | decision _ _ _ _ none | neither _ none =>
        rw [none] at waited
        cases waited

end SharedClipboard.Session
