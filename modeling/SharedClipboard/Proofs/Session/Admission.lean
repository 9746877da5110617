import SharedClipboard.Proofs.Session.Life
import Mathlib.Tactic.Set

/-!
# Nobody is admitted without the right answer and without consent

**Theorem (`admitted_once_and_only_with_consent`).** Whatever happens to a session, in whatever
order, it tells the group at most once that the peer may take part. At that moment the first answer
that ever came is the one that the peer owes for this session's challenge and the fingerprint that
it presents on this connection, and either this node dialed the peer, or the fingerprint is trusted
at that moment, or the user was asked and consents. A fingerprint is remembered at that moment only,
and it is the peer's.

The invariant (`Course`) says how far a session is, and what that means for the moments that it has
lived through: it still waits for the answer, or the right answer came and the user was asked, or
the peer was admitted. The first answer settles the challenge, so a later one cannot bring a session
from one to the next; a consent that comes before the answer changes nothing.
-/

namespace SharedClipboard.Session

/-! ## What a moment may do -/

/-- The right answer came first, and the peer may join: this node dialed it, or its fingerprint is
trusted now, or the user was asked before and consents. -/
def MayAdmit (direction : Direction) (peer : Option Fingerprint) (nonce : Bytes)
    (before : List Moment) (m : Moment) : Prop :=
  firstAnswer? (before ++ [m]) = some (Challenge.answer nonce peer) ∧
    (direction = .outbound ∨ (∃ f, peer = some f ∧ m.view.trusts f) ∨
      (m.input = .decided true ∧ ∃ b ∈ before, .ask ∈ b.actions))

/-- What a session does at a moment is allowed after what came before. -/
def Allowed (direction : Direction) (peer : Option Fingerprint) (nonce : Bytes)
    (before : List Moment) (m : Moment) : Prop :=
  (.authenticated ∈ m.actions → MayAdmit direction peer nonce before m) ∧
    ∀ f, .remember f ∈ m.actions → .authenticated ∈ m.actions ∧ peer = some f

theorem allowed_of_plain {direction : Direction} {peer : Option Fingerprint} {nonce : Bytes}
    {before : List Moment} {m : Moment} (h : ∀ a ∈ m.actions, a.IsPlain) :
    Allowed direction peer nonce before m :=
  ⟨fun ha => (h _ ha).elim, fun _ hf => (h _ hf).elim⟩

theorem count_authenticated_of_plain {actions : List Action} (h : ∀ a ∈ actions, a.IsPlain) :
    actions.count .authenticated = 0 :=
  List.count_eq_zero.2 fun ha => h _ ha

/-! ## How far a session is -/

/-- How far a session is after some moments. -/
inductive Course (peer : Option Fingerprint) (nonce : Bytes) (log : List Moment) (s : Session) :
    Prop where
  /-- The challenge is out and no answer came. -/
  | waiting (c : Challenge) (state : s.handshake.state = .challengeIssued)
      (challenge : s.handshake.challenge = some c) (nonce : c.nonce = nonce)
      (issued : c.state = .issued) (verified : s.handshake.verified = false)
      (answer : firstAnswer? log = none) (admissions : admissions log = 0)
  /-- The right answer came, and the user was asked. -/
  | asked (state : s.handshake.state = .challengeIssued) (verified : s.handshake.verified = true)
      (answer : firstAnswer? log = some (Challenge.answer nonce peer))
      (asked : ∃ b ∈ log, .ask ∈ b.actions) (admissions : admissions log = 0)
  /-- The peer was admitted. -/
  | joined (state : s.handshake.state = .authenticated)
      (answer : firstAnswer? log = some (Challenge.answer nonce peer))
      (admissions : admissions log = 1)

/-- How far a session is can be read off its handshake. -/
theorem Course.of_same {peer : Option Fingerprint} {nonce : Bytes} {log : List Moment}
    {s s' : Session} (h : Course peer nonce log s)
    (hstate : s'.handshake.state = s.handshake.state)
    (hchallenge : s'.handshake.challenge = s.handshake.challenge)
    (hverified : s'.handshake.verified = s.handshake.verified) : Course peer nonce log s' := by
  cases h with
  | waiting c state challenge nonce issued verified answer admissions =>
    exact .waiting c (hstate.trans state) (hchallenge.trans challenge) nonce issued
      (hverified.trans verified) answer admissions
  | asked state verified answer asked admissions =>
    exact .asked (hstate.trans state) (hverified.trans verified) answer asked admissions
  | joined state answer admissions => exact .joined (hstate.trans state) answer admissions

/-- A moment that moves nothing leaves a session as far as it was. -/
theorem Course.snoc {peer : Option Fingerprint} {nonce : Bytes} {log : List Moment}
    {s : Session} {m : Moment} (h : Course peer nonce log s)
    (hanswer : s.handshake.state = .authenticated ∨ m.answer? = none)
    (hcount : m.actions.count .authenticated = 0) : Course peer nonce (log ++ [m]) s := by
  have hadm : admissions (log ++ [m]) = admissions log := by rw [admissions_snoc, hcount]; rfl
  cases h with
  | waiting c state challenge nonce issued verified answer admissions =>
    have hnone : m.answer? = none := hanswer.resolve_left (by rw [state]; simp)
    exact .waiting c state challenge nonce issued verified (by simp [answer, hnone])
      (hadm.trans admissions)
  | asked state verified answer asked admissions =>
    obtain ⟨b, hb, hask⟩ := asked
    exact .asked state verified (by simp [answer]) ⟨b, List.mem_append_left _ hb, hask⟩
      (hadm.trans admissions)
  | joined state answer admissions =>
    exact .joined state (by simp [answer]) (hadm.trans admissions)

/-! ## Admission -/

/-- The session with the right answer to its challenge. -/
def answered (s : Session) (c : Challenge) : Session :=
  { s with handshake := { s.handshake with
      challenge := some { c with state := .completed }, verified := true } }

/-- The session with its peer admitted. -/
def admitted (s : Session) : Session :=
  { s with handshake := { s.handshake with state := .authenticated } }

/-- What a session does when it admits its peer. -/
def admission (s : Session) : List Action :=
  (s.peerFingerprint.map Action.remember).toList ++ [.authenticated]

theorem count_authenticated_admission (s : Session) : s.admission.count .authenticated = 1 := by
  unfold admission
  cases s.peerFingerprint <;> simp

theorem promote_of_awaiting {s : Session} (hs : s.handshake.state = .challengeIssued)
    (hv : s.handshake.verified = true) : s.promote = s.admitted.goOn s.admission := by
  simp [promote, Handshake.approve, Handshake.awaitingDecision, hs, hv, admitted, admission]

theorem promote_of_not_awaiting {s : Session} (hn : s.handshake.awaitingDecision = false) :
    s.promote = s.goOn := by
  simp [promote, Handshake.approve, hn]

/-- The right answer that comes while the challenge waits admits the peer or makes the session ask
the user. -/
theorem onResponse_of_right {s : Session} {c : Challenge} (v : View)
    (hs : s.handshake.state = .challengeIssued) (hv : s.handshake.verified = false)
    (hc : s.handshake.challenge = some c) (hi : c.state = .issued) :
    (s.admittedWithoutAsking v = true ∧
        s.onResponse v (Challenge.answer c.nonce s.peerFingerprint) =
          (s.answered c).admitted.goOn s.admission) ∨
      s.onResponse v (Challenge.answer c.nonce s.peerFingerprint) =
        { s.answered c with decisionDue := some (v.now + s.settings.decisionTimeout) }.goOn
          [.ask] := by
  have hok : s.handshake.onResponse (Challenge.answer c.nonce s.peerFingerprint)
      s.peerFingerprint = (.ok (), (s.answered c).handshake) := by
    simp [Handshake.onResponse, hs, hv, hc, Challenge.verify, hi, answered]
  have hgrant : (s.answered c).admittedWithoutAsking v = s.admittedWithoutAsking v := rfl
  by_cases ha : s.admittedWithoutAsking v = true
  · refine .inl ⟨ha, ?_⟩
    rw [← show (s.answered c).admission = s.admission from rfl,
      ← promote_of_awaiting (s := s.answered c) hs rfl]
    simp only [onResponse, hok]
    exact if_pos (hgrant.trans ha)
  · refine .inr ?_
    simp only [onResponse, hok]
    exact if_neg (by rw [← hgrant] at ha; exact ha)

/-- An answer that comes while the challenge waits admits the peer, makes the session ask the user
or ends the session. -/
theorem onResponse_of_waiting {s : Session} {c : Challenge} (v : View) (given : Bytes)
    (hs : s.handshake.state = .challengeIssued) (hv : s.handshake.verified = false)
    (hc : s.handshake.challenge = some c) (hi : c.state = .issued) :
    (given = Challenge.answer c.nonce s.peerFingerprint ∧
      ((s.admittedWithoutAsking v = true ∧
          s.onResponse v given = (s.answered c).admitted.goOn s.admission) ∨
        s.onResponse v given =
          { s.answered c with decisionDue := some (v.now + s.settings.decisionTimeout) }.goOn
            [.ask])) ∨
      ∃ reason, s.onResponse v given = stop reason := by
  by_cases hg : given = Challenge.answer c.nonce s.peerFingerprint
  · subst hg
    exact .inl ⟨rfl, onResponse_of_right v hs hv hc hi⟩
  · refine .inr ?_
    by_cases hl : given.length = Challenge.answerLength
    · exact ⟨.auth .mismatch, by
        simp [onResponse, Handshake.onResponse, hs, hv, hc, Challenge.verify, hi, hl, hg]⟩
    · exact ⟨.auth .malformed, by
        simp [onResponse, Handshake.onResponse, hs, hv, hc, Challenge.verify, hi, hl]⟩

theorem onResponse_of_verified {s : Session} (v : View) (given : Bytes)
    (hv : s.handshake.verified = true) : s.onResponse v given = stop (.auth .malformed) := by
  simp [onResponse, Handshake.onResponse, hv]

/-! ## One moment -/

/-- What holds of a session on the given side of a connection after some moments. -/
structure Upright (direction : Direction) (peer : Option Fingerprint) (nonce : Bytes)
    (log : List Moment) (s : Session) : Prop where
  direction_eq : s.direction = direction
  peer_eq : s.peerFingerprint = peer
  course : Course peer nonce log s

variable {direction : Direction} {peer : Option Fingerprint} {nonce : Bytes}
  {log : List Moment} {s : Session} {m : Moment}

theorem allowed_admission (hpeer : s.peerFingerprint = peer) (hactions : m.actions = s.admission)
    (hmay : MayAdmit direction peer nonce log m) : Allowed direction peer nonce log m := by
  refine ⟨fun _ => hmay, fun f hf => ?_⟩
  rw [hactions] at hf ⊢
  simp only [admission, hpeer, List.mem_append, Option.mem_toList, Option.map_eq_some_iff,
    Action.remember.injEq, exists_eq_right, List.mem_singleton, reduceCtorEq, or_false] at hf
  exact ⟨List.mem_append_right _ (List.mem_singleton_self _), hf⟩

/-- After a moment the session is as far as it may be, and has told the group at most once. -/
def Stands (direction : Direction) (peer : Option Fingerprint) (nonce : Bytes)
    (log : List Moment) (m : Moment) (next : Except CloseReason Session) : Prop :=
  Allowed direction peer nonce log m ∧ admissions (log ++ [m]) ≤ 1 ∧
    ∀ s', next = .ok s' → Upright direction peer nonce (log ++ [m]) s'

theorem Course.admissions_le (h : Course peer nonce log s) : admissions log ≤ 1 := by
  cases h <;> omega

theorem stands_of_plain (h : Upright direction peer nonce log s) {t : Turn} (ht : t.Plain s)
    (hactions : m.actions = t.actions)
    (hanswer : s.handshake.state = .authenticated ∨ m.answer? = none) :
    Stands direction peer nonce log m t.next := by
  have hplain : ∀ a ∈ m.actions, a.IsPlain := hactions ▸ ht.actions
  have hcount := count_authenticated_of_plain hplain
  refine ⟨allowed_of_plain hplain, ?_, fun s' hs' => ?_⟩
  · rw [admissions_snoc, hcount]
    exact h.course.admissions_le
  · have hk := ht.next s' hs'
    exact ⟨hk.direction.trans h.direction_eq, hk.peer.trans h.peer_eq,
      (h.course.snoc hanswer hcount).of_same hk.state hk.challenge hk.verified⟩

theorem stands_of_stop (h : Upright direction peer nonce log s) {reason : CloseReason}
    (hactions : m.actions = (stop reason).actions) :
    Stands direction peer nonce log m (stop reason).next := by
  have hplain : ∀ a ∈ m.actions, a.IsPlain := by simp [hactions, stop]
  refine ⟨allowed_of_plain hplain, ?_, fun s' hs' => by cases hs'⟩
  rw [admissions_snoc, count_authenticated_of_plain hplain]
  exact h.course.admissions_le

/-- A session that admits its peer has done so once, if it had not before. -/
theorem stands_of_admission (s' : Session) (hdir : s'.direction = direction)
    (hpeer : s'.peerFingerprint = peer) (hstate : s'.handshake.state = .authenticated)
    (hnone : admissions log = 0) (hactions : m.actions = s'.admission)
    (hmay : MayAdmit direction peer nonce log m) :
    Stands direction peer nonce log m (s'.goOn s'.admission).next := by
  have hadm : admissions (log ++ [m]) = 1 := by
    rw [admissions_snoc, hnone, hactions, count_authenticated_admission]
  refine ⟨allowed_admission hpeer hactions hmay, Nat.le_of_eq hadm, ?_⟩
  rintro _ ⟨⟩
  exact ⟨hdir, hpeer, .joined hstate hmay.1 hadm⟩

/-- The right answer admits the peer at once or makes the session ask the user; any other answer
ends the session. -/
theorem stands_onResponse (h : Upright direction peer nonce log s) (given : Bytes)
    (hstate : s.handshake.state ≠ .authenticated) (hanswer : m.answer? = some given)
    (hactions : m.actions = (s.onResponse m.view given).actions) :
    Stands direction peer nonce log m (s.onResponse m.view given).next := by
  -- A second answer finds the challenge settled; only the first one can be right.
  cases h.course with
  | joined state => exact absurd state hstate
  | asked _ verified =>
    rw [onResponse_of_verified m.view given verified] at hactions ⊢
    exact stands_of_stop h hactions
  | waiting c state challenge hnonce issued verified answer none_yet =>
    obtain ⟨hright, hcases⟩ | ⟨reason, hstop⟩ :=
      onResponse_of_waiting m.view given state verified challenge issued
    · have hfirst : firstAnswer? (log ++ [m]) = some (Challenge.answer nonce peer) := by
        simp [answer, hanswer, hright, hnonce, h.peer_eq]
      obtain ⟨hgrant, hturn⟩ | hturn := hcases
      · rw [hturn] at hactions ⊢
        have hconsent : direction = .outbound ∨ ∃ f, peer = some f ∧ m.view.trusts f := by
          simpa only [admittedWithoutAsking, h.direction_eq, h.peer_eq, Bool.or_eq_true,
            beq_iff_eq, Option.any_eq_true] using hgrant
        exact stands_of_admission (s.answered c).admitted h.direction_eq h.peer_eq rfl
          none_yet hactions ⟨hfirst, hconsent.imp_right .inl⟩
      · rw [hturn] at hactions ⊢
        have hmem : Action.ask ∈ m.actions := by simp [hactions, goOn]
        have hadm : admissions (log ++ [m]) = 0 := by
          rw [admissions_snoc, none_yet, hactions]
          simp [goOn]
        refine ⟨⟨fun ha => ?_, fun f hf => ?_⟩, by omega, ?_⟩
        · simp [hactions, goOn] at ha
        · simp [hactions, goOn] at hf
        · rintro _ ⟨⟩
          exact ⟨h.direction_eq, h.peer_eq, .asked state rfl hfirst ⟨m, by simp, hmem⟩ hadm⟩
    · rw [hstop] at hactions ⊢
      exact stands_of_stop h hactions

/-- Consent admits a peer whose answer was right, and changes nothing for any other. -/
theorem stands_consent (h : Upright direction peer nonce log s) (hinput : m.input = .decided true)
    (hactions : m.actions = { s with decisionDue := none }.promote.actions) :
    Stands direction peer nonce log m { s with decisionDue := none }.promote.next := by
  have hanswer : m.answer? = none := by simp [Moment.answer?, hinput]
  have idle : s.handshake.awaitingDecision = false →
      Stands direction peer nonce log m { s with decisionDue := none }.promote.next := by
    intro hidle
    rw [promote_of_not_awaiting (s := { s with decisionDue := none }) hidle] at hactions ⊢
    have hplain : ∀ a ∈ m.actions, a.IsPlain := by simp [hactions, goOn]
    have hcount := count_authenticated_of_plain hplain
    refine ⟨allowed_of_plain hplain, ?_, ?_⟩
    · rw [admissions_snoc, hcount]
      exact h.course.admissions_le
    · rintro _ ⟨⟩
      exact ⟨h.direction_eq, h.peer_eq, (h.course.snoc (.inr hanswer) hcount).of_same rfl rfl rfl⟩
  cases h.course with
  | waiting _ _ _ _ _ verified => exact idle (by simp [Handshake.awaitingDecision, verified])
  | joined state => exact idle (by simp [Handshake.awaitingDecision, state])
  | asked state verified answer asked none_yet =>
    rw [promote_of_awaiting (s := { s with decisionDue := none }) state verified] at hactions ⊢
    exact stands_of_admission (admitted { s with decisionDue := none }) h.direction_eq
      h.peer_eq rfl none_yet hactions ⟨by simp [answer], .inr (.inr ⟨hinput, asked⟩)⟩

theorem stands_step (h : Upright direction peer nonce log s) (v : View) (i : Input) :
    Stands direction peer nonce log ⟨v, i, (s.step v i).actions⟩ (s.step v i).next := by
  obtain ⟨hplain, hanswer⟩ | ⟨given, rfl, hstate, hturn⟩ | ⟨rfl, hturn⟩ := step_cases v s i
  · exact stands_of_plain h hplain rfl hanswer
  · have h' : Upright direction peer nonce log { s with lastReceived := v.now } :=
      ⟨h.direction_eq, h.peer_eq, h.course.of_same rfl rfl rfl⟩
    rw [hturn]
    exact stands_onResponse h' given hstate rfl rfl
  · rw [hturn]
    exact stands_consent h rfl rfl

/-! ## The whole life -/

/-- What a session does is allowed at each moment, after what came before it. -/
def AllowedThroughout (direction : Direction) (peer : Option Fingerprint) (nonce : Bytes)
    (log : List Moment) : Prop :=
  ∀ before m after, log = before ++ m :: after → Allowed direction peer nonce before m

theorem AllowedThroughout.snoc (h : AllowedThroughout direction peer nonce log)
    (hm : Allowed direction peer nonce log m) :
    AllowedThroughout direction peer nonce (log ++ [m]) := by
  intro before m' after heq
  rcases List.eq_nil_or_concat after with rfl | ⟨rest, x, rfl⟩
  · obtain ⟨rfl, hx⟩ := List.append_inj' heq rfl
    cases hx
    exact hm
  · refine h before m' rest (List.append_inj' (?_ : log ++ [m] = _ ++ [x]) rfl).1
    simpa using heq

/-- The challenge is out, or the session could not send it and is over. -/
theorem upright_start (settings : Settings) (mine : Option Fingerprint) (opened : Time) (v : View)
    {s : Session}
    (hs : ((fresh settings direction mine peer opened).start v nonce).next = .ok s) :
    Upright direction peer nonce [] s := by
  unfold start Session.send at hs
  simp only [fresh, Handshake.fresh, Handshake.issue, if_true] at hs
  split at hs
  · cases hs
    exact ⟨rfl, rfl, .waiting _ rfl rfl rfl rfl rfl rfl rfl⟩
  · cases hs
  · cases hs

/-- **Admission.** Whatever happens to a session, the group is told at most once that the peer may
take part. When it is told, the first answer that came is the right one for the challenge of this
session and the fingerprint presented on this connection, and this node dialed the peer, or the
fingerprint is trusted at that moment, or the user was asked and consents. A fingerprint is
remembered at that moment only, and it is the one that the peer presented. -/
theorem admitted_once_and_only_with_consent (settings : Settings) (direction : Direction)
    (mine peer : Option Fingerprint) (opened : Time) (v : View) (nonce : Bytes)
    {log : List Moment} {last : Except CloseReason Session}
    (h : Life ((fresh settings direction mine peer opened).start v nonce) log last) :
    admissions log ≤ 1 ∧
      ∀ before m after, log = before ++ m :: after →
        (.authenticated ∈ m.actions →
          firstAnswer? (before ++ [m]) = some (Challenge.answer nonce peer) ∧
            (direction = .outbound ∨ (∃ f, peer = some f ∧ m.view.trusts f) ∨
              (m.input = .decided true ∧ ∃ b ∈ before, .ask ∈ b.actions))) ∧
        ∀ f, .remember f ∈ m.actions → .authenticated ∈ m.actions ∧ peer = some f := by
  have hall : admissions log ≤ 1 ∧ AllowedThroughout direction peer nonce log ∧
      ∀ s, last = .ok s → Upright direction peer nonce log s := by
    induction h with
    | start =>
      refine ⟨by simp [admissions], fun before m after heq => ?_, fun s hs =>
        upright_start settings mine opened v hs⟩
      simp at heq
    | turn v' i _ ih =>
      obtain ⟨-, hallowed, hup⟩ := ih
      obtain ⟨hm, hcount, hnext⟩ := stands_step (hup _ rfl) v' i
      exact ⟨hcount, hallowed.snoc hm, hnext⟩
  exact ⟨hall.1, hall.2.1⟩

/-- The certificate of a guest that nobody has seen before. -/
def guest : Fingerprint := ⟨"guest"⟩

/-- What a session with the guest sees: there is room, and nobody is trusted. -/
def quietView : View := { now := 0, room := .free, trusts := fun _ => false }

/-- The number that the guest is challenged with. -/
def guestNonce : Bytes := List.replicate 32 7

/-- A connection of the guest to this node. -/
def guestSession : Session :=
  fresh { codec := .default, handshakeTimeout := 10, decisionTimeout := 60, idleTimeout := 30
          pingInterval := 10 } .inbound none (some guest) 0

/-- The guest answers the challenge, and the user consents. -/
def guestLog : List Moment :=
  [⟨quietView, .received (.packet (.challengeResponse (Challenge.answer guestNonce (some guest)))),
      [.ask]⟩,
    ⟨quietView, .decided true, [.remember guest, .authenticated]⟩]

theorem life_guest : ∃ last, Life (guestSession.start quietView guestNonce) guestLog last := by
  set given := Challenge.answer guestNonce (some guest)
  set waiting : Session := { guestSession with
    handshake := (guestSession.handshake.issue 0 guestNonce).2 } with hwaiting
  have started : Life (guestSession.start quietView guestNonce) [] (.ok waiting) := Life.start
  have hasks : waiting.step quietView (.received (.packet (.challengeResponse given))) =
      { waiting.answered { nonce := guestNonce, issuedAt := 0 } with
        decisionDue := some 60 }.goOn [.ask] := by
    simp [step, onReceived, onPacket, onResponse, Handshake.onResponse, Handshake.isAuthenticated,
      Challenge.verify, hwaiting, guestSession, fresh, Handshake.fresh, Handshake.issue, given,
      answered, admittedWithoutAsking, quietView]
  have asked := started.turn quietView (.received (.packet (.challengeResponse given)))
  rw [hasks] at asked
  exact ⟨_, asked.turn quietView (.decided true)⟩

/-- The guest is admitted once, by the consent that follows its right answer. -/
theorem admitted_once_guest :
    (∃ last, Life (guestSession.start quietView guestNonce) guestLog last) ∧
      admissions guestLog ≤ 1 ∧
      firstAnswer? guestLog = some (Challenge.answer guestNonce (some guest)) := by
  obtain ⟨last, h⟩ := life_guest
  have hgrant := admitted_once_and_only_with_consent _ _ _ _ _ _ _ h
  exact ⟨⟨last, h⟩, hgrant.1, ((hgrant.2 [_] _ [] rfl).1 (by simp)).1⟩

end SharedClipboard.Session
